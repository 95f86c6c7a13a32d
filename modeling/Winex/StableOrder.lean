import Mathlib.Data.List.Basic
import Mathlib.Data.List.Pairwise
import Mathlib.Data.List.Nodup
import Mathlib.Data.List.Perm.Basic
import Mathlib.Order.Lattice

namespace StableOrder

open List

/-!
# Stable orders by keys

Positions ordered by keys, and by themselves where the keys are equal.  The library's
merge sort puts them into this order, and two keys give the same order exactly if they
compare the same way.
-/

variable {κ : Type*} [LinearOrder κ]

/-- A position comes before another one: its key is smaller, or the keys are the same and
it is smaller itself. -/
def Before (key : Nat → κ) (first second : Nat) : Prop :=
  key first < key second ∨ key first = key second ∧ first < second

/-- The comparison for sorting by keys. -/
def keyLE (key : Nat → κ) (first second : Nat) : Bool :=
  key first ≤ key second

variable {key other : Nat → κ}

theorem keyLE_total (key : Nat → κ) (first second : Nat) :
    (keyLE key first second || keyLE key second first) = true := by
  simp [keyLE, le_total]

variable {first second : Nat}

theorem not_keyLE_iff : (!keyLE key first second) = true ↔ key second < key first := by
  rw [Bool.not_eq_true', keyLE, decide_eq_false_iff_not, not_le]

theorem not_before_self (position : Nat) : ¬Before key position position := by
  simp [Before]

theorem Before.not_lt (before : Before key first second) : ¬key second < key first :=
  before.elim lt_asymm fun both => both.1.not_gt

theorem Before.lt_of_gt (before : Before key first second) (greater : second < first) :
    key first < key second :=
  before.resolve_right fun both => Nat.lt_asymm both.2 greater

/-- Sorted positions, each with itself as its number. -/
theorem mergeSort_pairs (le : Nat → Nat → Bool) (n : Nat) :
    ∀ pair ∈ ((range n).zipIdx.mergeSort (List.zipIdxLE le)), pair.1 = pair.2 := by
  intro pair mem
  have inPairs := mem_mergeSort.mp mem
  obtain ⟨-, _, isAt⟩ := mem_zipIdx inPairs
  simpa using isAt

theorem range_mergeSort_before (key : Nat → κ) (n : Nat) :
    ((range n).mergeSort (keyLE key)).Pairwise (Before key) := by
  have nodup : ((range n).mergeSort (keyLE key)).Nodup :=
    (mergeSort_perm _ _).nodup_iff.mpr nodup_range
  rw [← mergeSort_zipIdx] at nodup ⊢
  rw [List.Nodup, pairwise_map] at nodup
  rw [pairwise_map]
  have sorted := pairwise_mergeSort
    (@zipIdxLE_trans _ (keyLE key) fun _ _ _ left right =>
      decide_eq_true (le_trans (of_decide_eq_true left) (of_decide_eq_true right)))
    (zipIdxLE_total (keyLE_total key)) (range n).zipIdx
  refine (sorted.and nodup).imp_of_mem fun {first second} inFirst inSecond both => ?_
  obtain ⟨below, _⟩ := both
  have firstSame := mergeSort_pairs _ n first inFirst
  have secondSame := mergeSort_pairs _ n second inSecond
  simp only [zipIdxLE, keyLE, decide_eq_true_eq] at below
  split at below
  next less =>
    rcases lt_or_eq_of_le less with smaller | same
    · exact .inl smaller
    · rw [if_pos (le_of_eq same.symm), decide_eq_true_eq] at below
      exact .inr ⟨same, by omega⟩
  · cases below

/-- Two positions stand in the same order by both keys. -/
def Placed (other key : Nat → κ) (first second : Nat) : Prop :=
  (Before other first second ∧ Before key first second) ∨
    (Before other second first ∧ Before key second first)

instance : Std.Symm (Placed other key) :=
  ⟨fun _ _ => Or.symm⟩

theorem pairwise_before_iff (key : Nat → κ) {positions : List Nat}
    (ordered : positions.Pairwise (Before other)) :
    positions.Pairwise (Before key) ↔
      ∀ first ∈ positions, ∀ second ∈ positions, first < second →
        (other second < other first ↔ key second < key first) := by
  constructor
  · intro both first inFirst second inSecond less
    -- the two positions stand in one of the two orders in the list, for both keys
    have placed : Placed other key first second :=
      ((ordered.and both).imp .inl).forall inFirst inSecond (Nat.ne_of_lt less)
    rcases placed with ⟨inOther, inKey⟩ | ⟨inOther, inKey⟩
    · exact iff_of_false inOther.not_lt inKey.not_lt
    · exact iff_of_true (inOther.lt_of_gt less) (inKey.lt_of_gt less)
  · intro agree
    refine ordered.imp_of_mem fun {first second} inFirst inSecond before => ?_
    rcases Nat.lt_trichotomy first second with less | same | greater
    · have notLess := mt (agree first inFirst second inSecond less).mpr before.not_lt
      rcases lt_or_eq_of_le (le_of_not_gt notLess) with smaller | equal
      · exact .inl smaller
      · exact .inr ⟨equal, less⟩
    · rw [same] at before
      exact absurd before (not_before_self second)
    · exact .inl ((agree second inSecond first inFirst greater).mp (before.lt_of_gt greater))

end StableOrder
