import Mathlib.Order.Lattice
import Mathlib.Order.MinMax
import Mathlib.Tactic.Order

namespace Winex.Banding

/-!
# Separated span lists

A span is a half-open interval of a linear order.  A span list is separated when its
spans are inhabited, ordered, and leave a gap between neighbours: two such lists
covering the same points are equal.  The three algorithms below merge two of them from
left to right.
-/

/-- A half-open interval of a linear order. -/
structure Span (α : Type*) where
  left : α
  right : α
  deriving DecidableEq

section Covering

variable [LinearOrder α]

/-- The points from `left` up to, but not including, `right`. -/
def Span.Contains (span : Span α) (point : α) : Prop :=
  span.left ≤ point ∧ point < span.right

/-- A point lies in some span of the list. -/
def Covers (spans : List (Span α)) (point : α) : Prop :=
  ∃ span ∈ spans, span.Contains point

@[simp] theorem covers_nil (point : α) : ¬ Covers [] point := by
  simp [Covers]

@[simp] theorem covers_cons (span : Span α) (rest : List (Span α)) (point : α) :
    Covers (span :: rest) point ↔ span.Contains point ∨ Covers rest point := by
  simp [Covers]

/-- Inhabited spans in increasing order with a gap between any two. -/
structure Separated (spans : List (Span α)) : Prop where
  inhabited : ∀ span ∈ spans, span.left < span.right
  gaps : spans.Pairwise fun earlier later => earlier.right < later.left

instance (spans : List (Span α)) : Decidable (Separated spans) :=
  decidable_of_iff
    ((∀ span ∈ spans, span.left < span.right) ∧
      spans.Pairwise fun earlier later => earlier.right < later.left)
    ⟨fun both => ⟨both.1, both.2⟩, fun separated => ⟨separated.inhabited, separated.gaps⟩⟩

@[simp] theorem separated_nil : Separated ([] : List (Span α)) where
  inhabited := by simp
  gaps := List.Pairwise.nil

variable {span : Span α}

theorem separated_cons {rest : List (Span α)} :
    Separated (span :: rest) ↔
      span.left < span.right ∧ (∀ later ∈ rest, span.right < later.left) ∧ Separated rest := by
  constructor
  · intro separated
    refine ⟨separated.inhabited span (by simp), ?_, ?_, ?_⟩
    · exact (List.pairwise_cons.mp separated.gaps).1
    · intro later member
      exact separated.inhabited later (by simp [member])
    · exact (List.pairwise_cons.mp separated.gaps).2
  · rintro ⟨inhabited, gap, rest⟩
    exact ⟨List.forall_mem_cons.mpr ⟨inhabited, rest.inhabited⟩,
      List.pairwise_cons.mpr ⟨gap, rest.gaps⟩⟩

theorem separated_singleton (inhabited : span.left < span.right) : Separated [span] :=
  separated_cons.mpr ⟨inhabited, by simp, separated_nil⟩

namespace Separated

variable {rest : List (Span α)} {span : Span α} {point : α}

variable (separated : Separated (span :: rest))
include separated

theorem covers_head : Covers (span :: rest) span.left := by
  have inhabited := (separated_cons.mp separated).1
  simp [Span.Contains, inhabited]

theorem head_le (covered : Covers (span :: rest) point) : span.left ≤ point := by
  obtain ⟨_, gap, -⟩ := separated_cons.mp separated
  obtain ⟨later, member, contains⟩ := covered
  rcases List.mem_cons.mp member with rfl | inRest
  · exact contains.1
  · have := gap later inRest
    have := contains.1
    order

theorem right_lt_of_covers_tail (covered : Covers rest point) : span.right < point := by
  obtain ⟨-, gap, -⟩ := separated_cons.mp separated
  obtain ⟨later, member, contains⟩ := covered
  have := gap later member
  have := contains.1
  order

theorem not_covers_right : ¬ Covers (span :: rest) span.right := by
  rw [covers_cons]
  rintro (contains | covered)
  · exact lt_irrefl _ contains.2
  · exact lt_irrefl _ (separated.right_lt_of_covers_tail covered)

end Separated

theorem head_right_le {first second : Span α} {firstRest secondRest : List (Span α)}
    (secondSeparated : Separated (second :: secondRest)) (sameLeft : first.left = second.left)
    (samePoints :
      ∀ point, Covers (first :: firstRest) point ↔ Covers (second :: secondRest) point) :
    first.right ≤ second.right := by
  by_contra notLe
  have inhabited := (separated_cons.mp secondSeparated).1
  have covered : Covers (first :: firstRest) second.right := by
    rw [covers_cons]
    exact .inl ⟨by order, by order⟩
  exact secondSeparated.not_covers_right ((samePoints _).mp covered)

theorem Separated.unique {first second : List (Span α)} (firstSeparated : Separated first)
    (secondSeparated : Separated second)
    (samePoints : ∀ point, Covers first point ↔ Covers second point) : first = second := by
  induction first generalizing second with
  | nil =>
    cases second with
    | nil => rfl
    | cons => exact absurd ((samePoints _).mpr secondSeparated.covers_head) (covers_nil _)
  | cons firstSpan _ ih =>
    cases second with
    | nil => exact absurd ((samePoints _).mp firstSeparated.covers_head) (covers_nil _)
    | cons secondSpan =>
      have sameLeft : firstSpan.left = secondSpan.left := by
        apply le_antisymm
        · exact firstSeparated.head_le ((samePoints _).mpr secondSeparated.covers_head)
        · exact secondSeparated.head_le ((samePoints _).mp firstSeparated.covers_head)
      have sameRight : firstSpan.right = secondSpan.right := by
        apply le_antisymm
        · exact head_right_le secondSeparated sameLeft samePoints
        · exact head_right_le firstSeparated sameLeft.symm fun point => (samePoints point).symm
      have sameHead : firstSpan = secondSpan := by
        cases firstSpan
        simp_all
      subst secondSpan
      congr 1
      apply ih
        (separated_cons.mp firstSeparated).2.2
        (separated_cons.mp secondSeparated).2.2
      -- Points of either tail lie right of the shared head, so the head
      -- cannot account for them.
      have tails {rest others : List (Span α)} (separated : Separated (firstSpan :: rest))
          {point : α} (same : Covers (firstSpan :: rest) point → Covers (firstSpan :: others) point)
          (covered : Covers rest point) : Covers others point := by
        have beyond := separated.right_lt_of_covers_tail covered
        rcases (covers_cons _ _ _).mp (same ((covers_cons _ _ _).mpr (.inr covered))) with
          contains | inTail
        · exact absurd contains.2 (not_lt.mpr (le_of_lt beyond))
        · exact inTail
      intro point
      exact ⟨tails firstSeparated (samePoints point).mp,
        tails secondSeparated (samePoints point).mpr⟩

end Covering

end Winex.Banding
