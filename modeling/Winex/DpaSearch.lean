import Mathlib.Data.List.Basic
import Mathlib.Tactic.Common

namespace Winex.Comctl

/-!
# Searching a sorted pointer array

`DPA_Search` with `DPAS_SORTED` halves an interval around the place of a pointer.  For
an element that compares equal it returns the result of the comparison.  An array has
fewer than 2^30 elements, so sums of two indices are `INT`s.
-/

/-- What is searched for, in which array, and how pointers are compared. -/
structure Search (α : Type) where
  compare : α → α → Int
  ptrs : List α
  pFind : α

theorem tdiv_two (sum : Int) :
    sum - 1 ≤ 2 * sum.tdiv 2 ∧ 2 * sum.tdiv 2 ≤ sum + 1 ∧ (sum.tdiv 2 < 0 ↔ sum < -1) := by
  rcases Int.le_total 0 sum with positive | _
  · rw [Int.tdiv_eq_ediv_of_nonneg positive]
    omega
  · rw [← Int.neg_neg sum, Int.neg_tdiv, Int.tdiv_eq_ediv_of_nonneg (by omega)]
    omega

namespace Search

variable {α : Type} (search : Search α)

/-- The comparison of `pFind` with a pointer. -/
def order (ptr : α) : Int :=
  search.compare search.pFind ptr

/-- The loop of the binary search: what it returns, or the bounds it ends with.  Reading in
front of the array gives nothing. -/
def binarySearch (l r : Int) : Option (Except Int (Int × Int)) :=
  if _ : r < l then some (.ok (l, r))
  else
    let x := (l + r).tdiv 2
    if x < 0 then none
    else
      match search.ptrs[x.toNat]? with
      | none => none
      | some ptr =>
        let n := search.order ptr
        if n = 0 then some (.error n)
        else if n < 0 then binarySearch l (x - 1)
        else binarySearch (x + 1) r
termination_by (r + 1 - l).toNat
decreasing_by
  all_goals
    have half := tdiv_two (l + r)
    omega

/-- The flags of `uOptions` beside `DPAS_SORTED`. -/
structure SearchOptions where
  insertBefore : Bool
  insertAfter : Bool
  deriving DecidableEq

/-- Where a search starts. -/
def searchStart (nStart : Int) : Int :=
  if nStart = -1 then 0 else nStart

/-- `DPA_Search` with `DPAS_SORTED` -/
def dpaSearch [DecidableEq α] (null : α) (nStart : Int) (uOptions : SearchOptions) : Option Int :=
  if search.pFind = null then some (-1)
  else
    (search.binarySearch (searchStart nStart) (search.ptrs.length - 1)).map fun
      | .error n => n
      | .ok (l, r) =>
        if uOptions.insertBefore then r
        else if uOptions.insertAfter then l
        else -1

/-- A comparison that is a total preorder. -/
structure TotalPreorder {α : Type} (compare : α → α → Int) : Prop where
  swap : ∀ first second, compare first second < 0 ↔ 0 < compare second first
  trans : ∀ first second third,
    compare first second ≤ 0 → compare second third ≤ 0 → compare first third ≤ 0

/-- The element at an index compares equal. -/
def Matches (i : Int) : Prop :=
  0 ≤ i ∧ ∃ ptr, search.ptrs[i.toNat]? = some ptr ∧ search.order ptr = 0

/-- From a start on, the elements in front of an index are smaller and those behind another
one are greater. -/
def Between (start l r : Int) : Prop :=
  ∀ (i : Nat) ptr, search.ptrs[i]? = some ptr → start ≤ i →
    ((i : Int) < l → 0 < search.order ptr) ∧ (r < i → search.order ptr < 0)

/-- The number of elements before the place where the pointer belongs: none of them is greater,
and all others are. -/
def IsPlace (place : Int) : Prop :=
  0 ≤ place ∧ place ≤ search.ptrs.length ∧ ∀ (i : Nat) ptr, search.ptrs[i]? = some ptr →
    ((i : Int) < place → 0 ≤ search.order ptr) ∧ (place ≤ i → search.order ptr < 0)

/-- An index at which the elements from a start on part. -/
def PartsAt (start place : Int) : Prop :=
  start ≤ place ∧ 0 ≤ place ∧ place ≤ search.ptrs.length ∧ search.Between start place (place - 1)

/-- An element from an index on compares equal. -/
def Found (start : Int) : Prop :=
  ∃ i, start ≤ i ∧ search.Matches i

/-- What a search from an index should return. -/
def Answers (start : Int) (insertAfter : Bool) (result : Int) : Prop :=
  (search.Found start → start ≤ result ∧ search.Matches result) ∧
  (¬search.Found start → if insertAfter then search.IsPlace result else result = -1)

/-- The lowest index that the search can compare with when it starts in front of the array
and goes on to the left. -/
def lowestProbe (start r : Int) : Option Nat :=
  if start + r < -1 ∨ 0 ≤ start then none
  else
    let x := (start + r).tdiv 2
    (lowestProbe start (x - 1)).or (some x.toNat)
termination_by (r - start).toNat
decreasing_by
  have half := tdiv_two (start + r)
  omega

/-- A search that starts in front of the array turns to the right in time. -/
def TurnsRight (start r : Int) : Prop :=
  start < 0 →
    ∃ x ptr, lowestProbe start r = some x ∧ search.ptrs[x]? = some ptr ∧ 0 ≤ search.order ptr

/-- The pointer does not belong in front of a start. -/
def StartsBefore (start : Int) : Prop :=
  start ≤ 0 ∨ ∃ ptr, search.ptrs[(start - 1).toNat]? = some ptr ∧ 0 ≤ search.order ptr

/-- When a search returns what it should. -/
def Searchable (null : α) (start : Int) (insertAfter : Bool) : Prop :=
  (search.pFind = null → insertAfter = false ∧ ¬search.Found start) ∧
  (search.pFind ≠ null →
    search.TurnsRight start (search.ptrs.length - 1) ∧
      (search.Found start → start ≤ 0 ∧ search.Matches 0) ∧
      (insertAfter = true → ¬search.Found start → search.StartsBefore start))

/-- The loop finds an equal element, or it ends at the place of the pointer. -/
def Ends (start l r : Int) : Prop :=
  (search.binarySearch l r = some (.error 0) ∧ search.Found start) ∨
    ∃ place, search.binarySearch l r = some (.ok (place, place - 1)) ∧ search.PartsAt start place

variable {start l r : Int}

theorem lowestProbe_le {y : Nat} (probe : lowestProbe start r = some y) : (y : Int) ≤ r := by
  fun_induction lowestProbe start r with
  | case1 => cases probe
  | case2 r _ x ih =>
    have half := tdiv_two (start + r)
    cases isRest : lowestProbe start (x - 1) with
    | none =>
      rw [isRest] at probe
      cases probe
      omega
    | some =>
      rw [isRest] at probe
      cases probe
      have less := ih isRest
      omega

variable {search} {ptr ptr' : α}

section Sorted

variable (preorder : TotalPreorder search.compare)
  (sorted : search.ptrs.Pairwise fun first second => search.compare first second ≤ 0)

include preorder

theorem lt_of_le (less : search.order ptr < 0) (behind : search.compare ptr ptr' ≤ 0) :
    search.order ptr' < 0 := by
  rw [order, preorder.swap] at less ⊢
  by_contra notGreater
  exact Int.not_lt.mpr (preorder.trans _ _ _ behind (Int.not_lt.mp notGreater)) less

theorem gt_of_le (greater : 0 < search.order ptr) (before : search.compare ptr' ptr ≤ 0) :
    0 < search.order ptr' := by
  by_contra notGreater
  exact Int.not_lt.mpr (preorder.trans _ _ _ (Int.not_lt.mp notGreater) before) greater

include sorted

omit preorder in
theorem compare_le {i j : Nat} {first second : α} (less : i < j)
    (isFirst : search.ptrs[i]? = some first) (isSecond : search.ptrs[j]? = some second) :
    search.compare first second ≤ 0 := by
  obtain ⟨inside, rfl⟩ := List.getElem?_eq_some_iff.mp isFirst
  obtain ⟨inside', rfl⟩ := List.getElem?_eq_some_iff.mp isSecond
  exact List.pairwise_iff_getElem.mp sorted i j inside inside' less

/-- A comparison with an element narrows the interval. -/
theorem Between.probe (between : search.Between start l r) {x : Nat}
    (isPtr : search.ptrs[x]? = some ptr) :
    (search.order ptr < 0 → search.Between start l (x - 1)) ∧
      (0 < search.order ptr → search.Between start (x + 1) r) := by
  refine ⟨fun less i ptr' isPtr' least => ⟨(between i ptr' isPtr' least).1, fun behind => ?_⟩,
    fun greater i ptr' isPtr' least => ⟨fun before => ?_, (between i ptr' isPtr' least).2⟩⟩
  · rcases Nat.lt_trichotomy x i with later | rfl | earlier
    · exact lt_of_le preorder less (compare_le sorted later isPtr isPtr')
    · cases isPtr.symm.trans isPtr'
      exact less
    · omega
  · rcases Nat.lt_trichotomy i x with earlier | rfl | _
    · exact gt_of_le preorder greater (compare_le sorted earlier isPtr' isPtr)
    · cases isPtr.symm.trans isPtr'
      exact greater
    · omega

/-- A search in the array finds an equal element or ends at the place of the pointer. -/
theorem binarySearch_inside (between : search.Between start l r) (least : start ≤ l)
    (inside : 0 ≤ l ∧ l ≤ r + 1 ∧ r < search.ptrs.length) : search.Ends start l r := by
  unfold Ends
  fun_induction search.binarySearch l r with
  | case1 l r =>
    obtain rfl : r = l - 1 := by omega
    exact .inr ⟨l, rfl, least, inside.1, by omega, between⟩
  | case2 l r =>
    have half := tdiv_two (l + r)
    omega
  | case3 l r _ _ _ behind =>
    have half := tdiv_two (l + r)
    rw [List.getElem?_eq_none_iff] at behind
    omega
  | case4 l r _ x _ ptr isPtr _ equal =>
    have half := tdiv_two (l + r)
    exact .inl ⟨by rw [equal], x, by omega, by omega, ptr, isPtr, equal⟩
  | case5 l r _ _ _ _ isPtr _ _ less ih =>
    have half := tdiv_two (l + r)
    have narrowed := (between.probe preorder sorted isPtr).1 less
    rw [Int.toNat_of_nonneg (by omega)] at narrowed
    exact ih narrowed least (by omega)
  | case6 l r _ _ _ _ isPtr _ _ _ ih =>
    have half := tdiv_two (l + r)
    have narrowed := (between.probe preorder sorted isPtr).2 (by omega)
    rw [Int.toNat_of_nonneg (by omega)] at narrowed
    exact ih narrowed (by omega) (by omega)

theorem binarySearch_outside {r : Int} (between : search.Between start start r)
    (negative : start < 0) (inside : -1 ≤ r ∧ r < search.ptrs.length) :
    (¬search.TurnsRight start r ∧ search.binarySearch start r = none) ∨
      search.TurnsRight start r ∧ search.Ends start start r := by
  have half := tdiv_two (start + r)
  rw [Ends, binarySearch, dif_neg (by omega)]
  by_cases outside : start + r < -1
  · refine .inl ⟨fun turns => ?_, if_pos (half.2.2.mpr outside)⟩
    obtain ⟨x, ptr, probe, -⟩ := turns negative
    rw [lowestProbe, if_pos (.inl outside)] at probe
    cases probe
  have inFront : ¬(start + r).tdiv 2 < 0 := fun isLess => outside (half.2.2.mp isLess)
  obtain ⟨x, isX⟩ := Int.eq_ofNat_of_zero_le (Int.not_lt.mp inFront)
  have isPtr := List.getElem?_eq_getElem (l := search.ptrs) (i := x) (by omega)
  have probe : lowestProbe start r = (lowestProbe start (x - 1)).or (some x) := by
    rw [lowestProbe, if_neg (by omega), isX]
    rfl
  generalize search.ptrs[x] = ptr at isPtr
  simp only [isX, Int.toNat_natCast, isPtr, if_neg (show ¬(x : Int) < 0 by omega)]
  have narrowed := between.probe preorder sorted isPtr
  by_cases less : search.order ptr < 0
  · rw [if_neg (by omega), if_pos less]
    have rest := binarySearch_outside (narrowed.1 less) negative (by omega)
    have same : search.TurnsRight start r ↔ search.TurnsRight start (x - 1) := by
      refine forall_congr' fun _ => exists_congr fun y => exists_congr fun ptr' => ?_
      rw [probe]
      cases lowestProbe start (x - 1) with
      | none =>
        refine iff_of_false (fun ⟨isY, isPtr', notLess⟩ => ?_) nofun
        cases isY
        cases isPtr.symm.trans isPtr'
        omega
      | some => rfl
    rw [same]
    exact rest
  · have turns : search.TurnsRight start r := by
      intro _
      obtain ⟨y, isY, _⟩ : ∃ y, lowestProbe start r = some y ∧ y ≤ x := by
        rw [probe]
        cases isRest : lowestProbe start (x - 1) with
        | none => exact ⟨x, rfl, Nat.le_refl x⟩
        | some y =>
          have least := lowestProbe_le isRest
          exact ⟨y, rfl, by omega⟩
      have isPtr' := List.getElem?_eq_getElem (l := search.ptrs) (i := y) (by omega)
      refine ⟨y, search.ptrs[y], isY, isPtr', Int.not_lt.mp fun less' => less ?_⟩
      exact ((between.probe preorder sorted isPtr').1 less' x ptr isPtr (by omega)).2 (by omega)
    refine .inr ⟨turns, ?_⟩
    by_cases equal : search.order ptr = 0
    · rw [if_pos equal, equal]
      exact .inl ⟨rfl, x, by omega, by omega, ptr, isPtr, equal⟩
    · rw [if_neg equal, if_neg less]
      exact binarySearch_inside preorder sorted (narrowed.2 (by omega)) (by omega) (by omega)
termination_by (r - start).toNat
decreasing_by omega

omit preorder sorted in
theorem PartsAt.not_found {place : Int} (parts : search.PartsAt start place) :
    ¬search.Found start := by
  rintro ⟨i, _, _, ptr, isPtr, _⟩
  have sides := parts.2.2.2 i.toNat ptr isPtr (by omega)
  omega

/-- Where the elements from the start on part is the place of the pointer, unless the element in
front of the start is greater. -/
theorem PartsAt.isPlace_iff {place : Int} (parts : search.PartsAt start place) :
    search.IsPlace place ↔ search.StartsBefore start := by
  obtain ⟨least, notNegative, inside, between⟩ := parts
  refine ⟨fun isPlace => ?_, fun before => ⟨notNegative, inside, fun i ptr isPtr => ?_⟩⟩
  · refine or_iff_not_imp_left.mpr fun positive => ?_
    have isPtr := List.getElem?_eq_getElem (l := search.ptrs) (i := (start - 1).toNat) (by omega)
    exact ⟨_, isPtr, (isPlace.2.2 _ _ isPtr).1 (by omega)⟩
  have sides := between i ptr isPtr
  refine ⟨fun _ => Int.not_lt.mp fun greater => ?_, fun _ => (sides (by omega)).2 (by omega)⟩
  by_cases behind : start ≤ i
  · have := (sides behind).1
    omega
  rcases before with _ | ⟨ptr', isPtr', notGreater⟩
  · omega
  -- in a sorted array what is greater stays so up to the element in front of the start
  rcases Nat.lt_or_ge i (start - 1).toNat with earlier | _
  · have := lt_of_le preorder greater (compare_le sorted earlier isPtr isPtr')
    omega
  · obtain rfl : i = (start - 1).toNat := by omega
    cases isPtr.symm.trans isPtr'
    omega

theorem binarySearch_cases (start : Int) :
    (¬search.TurnsRight start (search.ptrs.length - 1) ∧
        search.binarySearch start (search.ptrs.length - 1) = none) ∨
      search.TurnsRight start (search.ptrs.length - 1) ∧
        (search.Ends start start (search.ptrs.length - 1) ∨
          search.ptrs.length < start ∧ ¬search.Found start ∧
            search.binarySearch start (search.ptrs.length - 1) =
              some (.ok (start, search.ptrs.length - 1))) := by
  have everything : search.Between start start (search.ptrs.length - 1) := by
    intro _ _ isPtr _
    have inside := (List.getElem?_eq_some_iff.mp isPtr).1
    omega
  by_cases negative : start < 0
  · refine (binarySearch_outside preorder sorted everything negative (by omega)).imp_right ?_
    exact fun ⟨turns, ends⟩ => ⟨turns, .inl ends⟩
  refine .inr ⟨fun isNegative => absurd isNegative negative, ?_⟩
  by_cases inside : start ≤ search.ptrs.length
  · exact .inl (binarySearch_inside preorder sorted everything (Int.le_refl start) (by omega))
  refine .inr ⟨Int.not_le.mp inside, ?_, by rw [binarySearch, dif_pos (by omega)]⟩
  rintro ⟨_, _, -, _, isPtr, -⟩
  have behind := (List.getElem?_eq_some_iff.mp isPtr).1
  omega

end Sorted

/-- A search in a sorted array returns what it should exactly if the pointer is not null,
the first element is equal whenever one from the start on is, a start in front of the array
does no harm, and a place is asked for only where the pointer does not belong in front of the
start. -/
theorem dpaSearch_answers_iff [DecidableEq α] (preorder : TotalPreorder search.compare)
    (sorted : search.ptrs.Pairwise fun first second => search.compare first second ≤ 0) (null : α)
    (nStart : Int) (insertAfter : Bool) :
    (∃ result, search.dpaSearch null nStart ⟨false, insertAfter⟩ = some result ∧
        search.Answers (searchStart nStart) insertAfter result) ↔
      search.Searchable null (searchStart nStart) insertAfter := by
  unfold dpaSearch
  generalize searchStart nStart = start
  by_cases isNull : search.pFind = null
  · have noIndex : ¬search.Matches (-1) := fun isMatch => absurd isMatch.1 (by decide)
    have noPlace : ¬search.IsPlace (-1) := fun isPlace => absurd isPlace.1 (by decide)
    rw [if_pos isNull]
    cases insertAfter <;> simp [Answers, Searchable, isNull, noIndex, noPlace]
  rw [if_neg isNull]
  rcases binarySearch_cases preorder sorted start with ⟨outside, ended⟩ | ⟨turns, ends⟩
  · rw [ended]
    refine iff_of_false ?_ fun searchable => outside (searchable.2 isNull).1
    rintro ⟨_, isResult, -⟩
    cases isResult
  rcases ends with (⟨ended, found⟩ | ⟨_, ended, parts⟩) | ⟨behind, notFound, ended⟩
  · rw [ended]
    simp [Answers, Searchable, isNull, turns, found]
  · have isPlace := parts.isPlace_iff preorder sorted
    rw [ended]
    cases insertAfter <;> simp [Answers, Searchable, isNull, turns, parts.not_found, isPlace]
  · have noPlace : ¬search.IsPlace start := fun isPlace => by
      have := isPlace.2.1
      omega
    have notBefore : ¬search.StartsBefore start := by
      rintro (_ | ⟨_, isPtr, -⟩)
      · omega
      · have inside := (List.getElem?_eq_some_iff.mp isPtr).1
        omega
    rw [ended]
    cases insertAfter <;> simp [Answers, Searchable, isNull, turns, notFound, noPlace, notBefore]

/-- The search for a number in 1, 2, 3. -/
def inNumbers (pFind : Int) : Search Int :=
  ⟨fun first second => first - second, [1, 2, 3], pFind⟩

/-- The search for 1 in 1, 2, 3 returns what it should. -/
theorem dpaSearch_answers_first :
    ∃ result, (inNumbers 1).dpaSearch 0 0 ⟨false, true⟩ = some result ∧
      (inNumbers 1).Answers 0 true result := by
  refine (dpaSearch_answers_iff ⟨?_, ?_⟩ (by decide) 0 0 true).mpr ⟨?_, fun _ => ⟨?_, ?_, ?_⟩⟩
  · exact fun first second => by simp only [inNumbers]; omega
  · exact fun first second third => by simp only [inNumbers]; omega
  · exact fun isNull => absurd isNull (by decide)
  · exact fun isNegative => absurd isNegative (by decide)
  · exact fun _ => ⟨by decide, by decide, 1, rfl, rfl⟩
  · exact fun _ _ => .inl (by decide)

/-- The search for 2 in 1, 2, 3 returns 0, the index of 1. -/
theorem dpaSearch_returns_comparison :
    (inNumbers 2).dpaSearch 0 0 ⟨false, false⟩ = some 0 ∧ ¬(inNumbers 2).Answers 0 false 0 := by
  refine ⟨by decide +kernel, fun answers => ?_⟩
  obtain ⟨-, -, _, isPtr, equal⟩ := answers.1 ⟨1, by decide, by decide, 2, rfl, rfl⟩
  cases isPtr
  cases equal

end Search

end Winex.Comctl
