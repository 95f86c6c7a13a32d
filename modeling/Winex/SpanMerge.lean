import Winex.SpanList

namespace Winex.Banding

/-!
# Merging separated span lists

Each algorithm returns a separated list again and covers exactly the intersection, union
or difference of the two point sets.
-/

variable [LinearOrder α]

/-- Intersect two lists, dropping the span that ends first at every step. -/
def intersectSpans : List (Span α) → List (Span α) → List (Span α)
  | [], _ => []
  | _ :: _, [] => []
  | first :: firstRest, second :: secondRest =>
    let left := max first.left second.left
    let right := min first.right second.right
    let rest :=
      if first.right < second.right then
        intersectSpans firstRest (second :: secondRest)
      else if second.right < first.right then
        intersectSpans (first :: firstRest) secondRest
      else
        intersectSpans firstRest secondRest
    if left < right then ⟨left, right⟩ :: rest else rest
  termination_by first second => first.length + second.length

variable {first second rest : List (Span α)} {span current : Span α}

theorem mem_intersectSpans (member : span ∈ intersectSpans first second) :
    (∃ source ∈ first, source.left ≤ span.left) ∧ ∃ source ∈ second, source.left ≤ span.left := by
  fun_induction intersectSpans first second <;> grind

variable (firstSeparated : Separated first)
include firstSeparated

variable (secondSeparated : Separated second)
include secondSeparated

theorem covers_intersectSpans (point : α) :
    Covers (intersectSpans first second) point ↔ Covers first point ∧ Covers second point := by
  fun_induction intersectSpans first second with
  | case1 second | case2 first firstRest => simp
  | case3 first firstRest second secondRest _ right
  | case4 first firstRest second secondRest _ right =>
    have beyondFirst : Covers firstRest point → first.right < point :=
      firstSeparated.right_lt_of_covers_tail
    have beyondSecond : Covers secondRest point → second.right < point :=
      secondSeparated.right_lt_of_covers_tail
    have firstRestSeparated := (separated_cons.mp firstSeparated).2.2
    have secondRestSeparated := (separated_cons.mp secondSeparated).2.2
    simp only [covers_cons, Span.Contains] at *
    grind

theorem separated_intersectSpans : Separated (intersectSpans first second) := by
  fun_induction intersectSpans first second with
  | case1 second | case2 first firstRest => simp
  | case3 first _ _ _ _ _ _ overlap =>
    obtain ⟨-, _, firstRestSeparated⟩ := separated_cons.mp firstSeparated
    obtain ⟨-, _, secondRestSeparated⟩ := separated_cons.mp secondSeparated
    rw [separated_cons]
    refine ⟨overlap, ?_, ?_⟩
    · -- The list whose span ended first supplies the gap.
      intro later _
      have origin := fun (as bs : List (Span α)) => @mem_intersectSpans α _ as bs later
      grind
    · grind
  | case4 =>
    obtain ⟨-, -, _⟩ := separated_cons.mp firstSeparated
    obtain ⟨-, -, _⟩ := separated_cons.mp secondSeparated
    grind

omit firstSeparated

omit secondSeparated

/-- Spans in the order of their left edges. -/
def LeftSorted (spans : List (Span α)) : Prop :=
  spans.Pairwise fun earlier later => earlier.left ≤ later.left

theorem leftSorted_cons :
    LeftSorted (span :: rest) ↔ (∀ later ∈ rest, span.left ≤ later.left) ∧ LeftSorted rest :=
  List.pairwise_cons

/-- Join a left-sorted list to a current span, fusing spans that touch. -/
def joinFrom (current : Span α) : List (Span α) → List (Span α)
  | [] => [current]
  | next :: rest =>
    if next.left ≤ current.right then
      joinFrom ⟨current.left, max current.right next.right⟩ rest
    else
      current :: joinFrom next rest

/-- Fuse the touching spans of a left-sorted list. -/
def joinSpans : List (Span α) → List (Span α)
  | [] => []
  | first :: rest => joinFrom first rest

theorem left_le_of_mem_joinFrom (sorted : LeftSorted (current :: rest))
    (member : span ∈ joinFrom current rest) : current.left ≤ span.left := by
  fun_induction joinFrom current rest <;> grind [leftSorted_cons]

theorem separated_joinFrom (sorted : LeftSorted (current :: rest))
    (inhabited : ∀ span ∈ current :: rest, span.left < span.right) :
    Separated (joinFrom current rest) := by
  fun_induction joinFrom current rest with
  | case1 current => exact separated_singleton (inhabited current (by simp))
  | case2 _ _ _ _ ih =>
    apply ih <;> grind [leftSorted_cons]
  | case3 current _ _ _ ih =>
    have restSorted := (leftSorted_cons.mp sorted).2
    rw [separated_cons]
    refine ⟨inhabited current (by simp), ?_, ?_⟩
    · intro _ member
      have := left_le_of_mem_joinFrom restSorted member
      order
    · exact ih restSorted fun span member => inhabited span (by simp [member])

theorem covers_joinFrom (sorted : LeftSorted (current :: rest)) (point : α) :
    Covers (joinFrom current rest) point ↔ Covers (current :: rest) point := by
  fun_induction joinFrom current rest with
  | case1 => rfl
  | case2 _ next _ _ ih =>
    have reaches := (leftSorted_cons.mp sorted).1 next (by simp)
    rw [ih (by grind [leftSorted_cons])]
    simp only [covers_cons, Span.Contains]
    grind
  | case3 _ _ _ _ ih =>
    rw [covers_cons, ih (leftSorted_cons.mp sorted).2]
    simp

/-- Interleave two lists by their left edges, the second one first on ties. -/
def interleave : List (Span α) → List (Span α) → List (Span α)
  | [], second => second
  | first :: firstRest, [] => first :: firstRest
  | first :: firstRest, second :: secondRest =>
    if first.left < second.left then
      first :: interleave firstRest (second :: secondRest)
    else
      second :: interleave (first :: firstRest) secondRest
  termination_by first second => first.length + second.length

@[simp] theorem interleave_nil (first : List (Span α)) : interleave first [] = first := by
  cases first <;> simp [interleave]

@[simp] theorem mem_interleave : span ∈ interleave first second ↔ span ∈ first ∨ span ∈ second := by
  fun_induction interleave first second <;> grind

theorem sorted_interleave (firstSorted : LeftSorted first) (secondSorted : LeftSorted second) :
    LeftSorted (interleave first second) := by
  fun_induction interleave first second with
  | case1 => exact secondSorted
  | case2 => exact firstSorted
  | case3 _ _ _ _ _ ih =>
    refine leftSorted_cons.mpr ⟨?_, ih (leftSorted_cons.mp firstSorted).2 secondSorted⟩
    grind [leftSorted_cons, mem_interleave]
  | case4 _ _ _ _ _ ih =>
    refine leftSorted_cons.mpr ⟨?_, ih firstSorted (leftSorted_cons.mp secondSorted).2⟩
    grind [leftSorted_cons, mem_interleave]

theorem Separated.sorted {spans : List (Span α)} (separated : Separated spans) :
    LeftSorted spans := by
  apply separated.gaps.imp_of_mem
  intro earlier _ earlierMember _ _
  have := separated.inhabited earlier earlierMember
  order

/-- The union of two lists: interleave them, then fuse what touches. -/
def uniteSpans (first second : List (Span α)) : List (Span α) :=
  joinSpans (interleave first second)

include firstSeparated

include secondSeparated

theorem separated_uniteSpans : Separated (uniteSpans first second) := by
  have sorted := sorted_interleave firstSeparated.sorted secondSeparated.sorted
  have inhabited : ∀ span ∈ interleave first second, span.left < span.right := by
    intro span member
    rcases mem_interleave.mp member with inFirst | inSecond
    · exact firstSeparated.inhabited span inFirst
    · exact secondSeparated.inhabited span inSecond
  unfold uniteSpans
  cases shape : interleave first second with
  | nil => simp [joinSpans]
  | cons =>
    rw [shape] at sorted inhabited
    exact separated_joinFrom sorted inhabited

theorem covers_uniteSpans (point : α) :
    Covers (uniteSpans first second) point ↔ Covers first point ∨ Covers second point := by
  have sorted := sorted_interleave firstSeparated.sorted secondSeparated.sorted
  have interleaved :
      Covers (interleave first second) point ↔ Covers first point ∨ Covers second point := by
    simp [Covers, or_and_right, exists_or]
  rw [← interleaved]
  unfold uniteSpans
  cases shape : interleave first second with
  | nil => simp [joinSpans]
  | cons =>
    rw [shape] at sorted
    exact covers_joinFrom sorted point

omit firstSeparated

omit secondSeparated

/--
Subtract the second list from the first.  The left edge of the first minuend
span is moved right as subtrahend spans eat into it.
-/
def subtractSpans : List (Span α) → List (Span α) → List (Span α)
  | [], _ => []
  | first :: firstRest, [] => first :: firstRest
  | first :: firstRest, second :: secondRest =>
    if second.right ≤ first.left then
      subtractSpans (first :: firstRest) secondRest
    else if second.left ≤ first.left then
      if first.right ≤ second.right then
        subtractSpans firstRest (second :: secondRest)
      else
        subtractSpans (⟨second.right, first.right⟩ :: firstRest) secondRest
    else if second.left < first.right then
      if first.right ≤ second.right then
        ⟨first.left, second.left⟩ :: subtractSpans firstRest (second :: secondRest)
      else
        ⟨first.left, second.left⟩ ::
          subtractSpans (⟨second.right, first.right⟩ :: firstRest) secondRest
    else
      first :: subtractSpans firstRest (second :: secondRest)
  termination_by first second => first.length + second.length

theorem mem_subtractSpans (member : span ∈ subtractSpans first second) :
    ∃ source ∈ first, source.left ≤ span.left := by
  fun_induction subtractSpans first second <;> grind

theorem Separated.cut (separated : Separated (span :: rest)) (left : α)
    (inside : left < span.right) : Separated (⟨left, span.right⟩ :: rest) := by
  rw [separated_cons] at separated ⊢
  exact ⟨inside, separated.2⟩

include firstSeparated

include secondSeparated

/-- The difference covers the minuend's points outside the subtrahend. -/
theorem covers_subtractSpans (point : α) :
    Covers (subtractSpans first second) point ↔ Covers first point ∧ ¬ Covers second point := by
  fun_induction subtractSpans first second with
  | case1 second | case2 first firstRest => simp
  | case3 first firstRest second secondRest
  | case4 first firstRest second secondRest
  | case5 first firstRest second secondRest
  | case6 first firstRest second secondRest
  | case7 first firstRest second secondRest
  | case8 first firstRest second secondRest =>
    have fromFirst : Covers (first :: firstRest) point → first.left ≤ point :=
      firstSeparated.head_le
    have fromSecond : Covers (second :: secondRest) point → second.left ≤ point :=
      secondSeparated.head_le
    have beyondFirst : Covers firstRest point → first.right < point :=
      firstSeparated.right_lt_of_covers_tail
    have firstRestSeparated := (separated_cons.mp firstSeparated).2.2
    have secondRestSeparated := (separated_cons.mp secondSeparated).2.2
    have cut := firstSeparated.cut second.right
    simp only [covers_cons, Span.Contains] at *
    grind

theorem separated_subtractSpans : Separated (subtractSpans first second) := by
  fun_induction subtractSpans first second with
  | case1 => simp
  | case2 => exact firstSeparated
  | case3 _ _ second
  | case4 _ _ second
  | case5 _ _ second =>
    have firstRestSeparated := (separated_cons.mp firstSeparated).2.2
    have secondRestSeparated := (separated_cons.mp secondSeparated).2.2
    have cut := firstSeparated.cut second.right
    grind
  | case6 _ _ second
  | case7 _ _ second
  | case8 _ _ second =>
    obtain ⟨_, _, _⟩ := separated_cons.mp firstSeparated
    obtain ⟨_, _, _⟩ := separated_cons.mp secondSeparated
    have cut := firstSeparated.cut second.right
    rw [separated_cons]
    refine ⟨by grind, ?_, by grind⟩
    intro _ member
    have origin := mem_subtractSpans member
    grind

end Winex.Banding
