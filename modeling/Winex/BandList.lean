import Mathlib.Data.List.Chain
import Winex.SpanMerge

namespace Winex.Banding

open List

/-!
# Canonical band lists

A band is a horizontal strip with the spans it occupies.  A stacked list holds nonempty
bands from top to bottom; it is coalesced when no two touching neighbours occupy the
same spans.  Such lists are determined by the points they contain.
-/

/-- A horizontal strip and the spans occupied throughout it. -/
structure Band (α β : Type*) where
  top : β
  bottom : β
  spans : List (Span α)
  deriving DecidableEq

variable [LinearOrder α] [LinearOrder β]

/-- The point lies between the edges of the band and in one of its spans. -/
def Band.Contains (band : Band α β) (x : α) (y : β) : Prop :=
  (band.top ≤ y ∧ y < band.bottom) ∧ Covers band.spans x

/-- The point set of a band list. -/
def InBands (bands : List (Band α β)) (x : α) (y : β) : Prop :=
  ∃ band ∈ bands, band.Contains x y

@[simp] theorem inBands_nil (x : α) (y : β) : ¬ InBands [] x y := by
  simp [InBands]

@[simp] theorem inBands_cons (band : Band α β) (rest : List (Band α β)) (x : α) (y : β) :
    InBands (band :: rest) x y ↔ band.Contains x y ∨ InBands rest x y := by
  simp [InBands]

@[simp] theorem inBands_append (first second : List (Band α β)) (x : α) (y : β) :
    InBands (first ++ second) x y ↔ InBands first x y ∨ InBands second x y := by
  simp only [InBands, mem_append]
  grind

/-- A band of positive height with at least one span, all separated. -/
structure Band.Valid (band : Band α β) : Prop where
  tall : band.top < band.bottom
  occupied : band.spans ≠ []
  separated : Separated band.spans

instance (band : Band α β) : Decidable band.Valid :=
  decidable_of_iff
    (band.top < band.bottom ∧ band.spans ≠ [] ∧ Separated band.spans)
    ⟨fun all => ⟨all.1, all.2.1, all.2.2⟩,
      fun valid => ⟨valid.tall, valid.occupied, valid.separated⟩⟩

/-- Valid bands from top to bottom without vertical overlap. -/
structure Stacked (bands : List (Band α β)) : Prop where
  valid : ∀ band ∈ bands, band.Valid
  ordered : bands.Pairwise fun upper lower => upper.bottom ≤ lower.top

/-- No band could be extended downwards by the band touching it below. -/
def Coalesced (bands : List (Band α β)) : Prop :=
  bands.IsChain fun upper lower => upper.bottom = lower.top → upper.spans ≠ lower.spans

/-- The normal form of a finite union of rectangles. -/
structure Canonical (bands : List (Band α β)) : Prop extends Stacked bands where
  coalesced : Coalesced bands

instance (bands : List (Band α β)) : Decidable (Coalesced bands) :=
  inferInstanceAs
    (Decidable
      (bands.IsChain fun upper lower => upper.bottom = lower.top → upper.spans ≠ lower.spans))

instance (bands : List (Band α β)) : Decidable (Canonical bands) :=
  decidable_of_iff
    ((∀ band ∈ bands, band.Valid) ∧
      (bands.Pairwise fun upper lower => upper.bottom ≤ lower.top) ∧
      Coalesced bands)
    ⟨fun all => ⟨⟨all.1, all.2.1⟩, all.2.2⟩,
      fun canonical => ⟨canonical.valid, canonical.ordered, canonical.coalesced⟩⟩

@[simp] theorem stacked_nil : Stacked ([] : List (Band α β)) where
  valid := by simp
  ordered := List.Pairwise.nil

variable {band : Band α β} {rest : List (Band α β)}

theorem stacked_cons :
    Stacked (band :: rest) ↔
      band.Valid ∧ (∀ lower ∈ rest, band.bottom ≤ lower.top) ∧ Stacked rest := by
  constructor
  · intro stacked
    obtain ⟨below, ordered⟩ := pairwise_cons.mp stacked.ordered
    refine ⟨stacked.valid band (by simp), below, ?_, ordered⟩
    intro lower member
    exact stacked.valid lower (by simp [member])
  · rintro ⟨valid, below, rest⟩
    exact ⟨forall_mem_cons.mpr ⟨valid, rest.valid⟩, pairwise_cons.mpr ⟨below, rest.ordered⟩⟩

@[simp] theorem canonical_nil : Canonical ([] : List (Band α β)) where
  toStacked := stacked_nil
  coalesced := by simp [Coalesced]

theorem Canonical.tail (canonical : Canonical (band :: rest)) : Canonical rest where
  toStacked := (stacked_cons.mp canonical.toStacked).2.2
  coalesced := canonical.coalesced.tail

namespace Band.Valid

theorem exists_contains {band : Band α β} (valid : band.Valid) : ∃ x, band.Contains x band.top := by
  obtain ⟨span, _, shape⟩ := exists_cons_of_ne_nil valid.occupied
  have separated := valid.separated
  refine ⟨span.left, ⟨le_refl _, valid.tall⟩, ?_⟩
  rw [shape] at separated ⊢
  exact separated.covers_head

end Band.Valid

namespace Stacked

variable {band : Band α β} {rest : List (Band α β)} {x : α} {y : β}

variable (stacked : Stacked (band :: rest))
include stacked

theorem bottom_le_of_inBands_tail (member : InBands rest x y) : band.bottom ≤ y := by
  obtain ⟨-, below, -⟩ := stacked_cons.mp stacked
  obtain ⟨lower, lowerMember, contains⟩ := member
  exact le_trans (below lower lowerMember) contains.1.1

theorem top_le_of_inBands (member : InBands (band :: rest) x y) : band.top ≤ y := by
  rcases (inBands_cons _ _ _ _).mp member with contains | inRest
  · exact contains.1.1
  · have tall := (stacked_cons.mp stacked).1.tall
    have := stacked.bottom_le_of_inBands_tail inRest
    order

theorem inBands_above_bottom (above : y < band.bottom) :
    InBands (band :: rest) x y ↔ band.Contains x y := by
  rw [inBands_cons]
  refine or_iff_left fun inRest => ?_
  exact absurd above (not_lt.mpr (stacked.bottom_le_of_inBands_tail inRest))

theorem inBands_head_row (atOrBelow : band.top ≤ y)
    (above : y < band.bottom) (x : α) : InBands (band :: rest) x y ↔ Covers band.spans x := by
  rw [stacked.inBands_above_bottom above]
  simp [Band.Contains, atOrBelow, above]

omit stacked

theorem inBands_tail_row (below : band.bottom ≤ y) (x : α) :
    InBands (band :: rest) x y ↔ InBands rest x y := by
  rw [inBands_cons]
  exact or_iff_right fun contains => absurd contains.1.2 (not_lt.mpr below)

end Stacked

namespace Canonical

theorem row_changes_at_bottom {band : Band α β} {rest : List (Band α β)}
    (canonical : Canonical (band :: rest)) :
    ¬ ∀ x, InBands rest x band.bottom ↔ Covers band.spans x := by
  intro sameRow
  obtain ⟨valid, below, restStacked⟩ := stacked_cons.mp canonical.toStacked
  obtain ⟨x, -, covered⟩ := valid.exists_contains
  cases rest with
  | nil => exact inBands_nil _ _ ((sameRow x).mpr covered)
  | cons next =>
    -- Some band reaches the row, so the first of them starts exactly there.
    have nextTop : next.top = band.bottom := by
      apply le_antisymm
      · exact restStacked.top_le_of_inBands ((sameRow x).mpr covered)
      · exact below next (by simp)
    have nextValid := (stacked_cons.mp restStacked).1
    have sameSpans : band.spans = next.spans := by
      apply valid.separated.unique nextValid.separated
      intro point
      rw [← sameRow point, ← nextTop]
      exact restStacked.inBands_head_row (le_refl _) nextValid.tall point
    exact (isChain_cons_cons.mp canonical.coalesced).1 nextTop.symm sameSpans

theorem bottom_le {first second : Band α β} {firstRest secondRest : List (Band α β)}
    (firstCanonical : Canonical (first :: firstRest))
    (secondCanonical : Canonical (second :: secondRest)) (sameTop : first.top = second.top)
    (sameSpans : first.spans = second.spans)
    (samePoints : ∀ x y, InBands (first :: firstRest) x y ↔ InBands (second :: secondRest) x y) :
    second.bottom ≤ first.bottom := by
  by_contra notLe
  have tall := (stacked_cons.mp firstCanonical.toStacked).1.tall
  apply firstCanonical.row_changes_at_bottom
  intro x
  rw [← Stacked.inBands_tail_row (le_refl first.bottom), samePoints, sameSpans]
  exact secondCanonical.inBands_head_row (by order) (by order) x

theorem unique {first second : List (Band α β)} (firstCanonical : Canonical first)
    (secondCanonical : Canonical second)
    (samePoints : ∀ x y, InBands first x y ↔ InBands second x y) : first = second := by
  induction first generalizing second with
  | nil =>
    cases second with
    | nil => rfl
    | cons band =>
      have valid := secondCanonical.valid band (by simp)
      obtain ⟨x, contains⟩ := valid.exists_contains
      exact absurd ((samePoints x band.top).mpr (by simp [contains])) (inBands_nil _ _)
  | cons firstBand _ ih =>
    have firstValid := firstCanonical.valid firstBand (by simp)
    cases second with
    | nil =>
      obtain ⟨x, contains⟩ := firstValid.exists_contains
      exact absurd ((samePoints x firstBand.top).mp (by simp [contains])) (inBands_nil _ _)
    | cons secondBand =>
      have secondValid := secondCanonical.valid secondBand (by simp)
      have sameTop : firstBand.top = secondBand.top := by
        obtain ⟨x, xContains⟩ := firstValid.exists_contains
        obtain ⟨z, zContains⟩ := secondValid.exists_contains
        apply le_antisymm
        · exact firstCanonical.top_le_of_inBands ((samePoints z _).mpr (by simp [zContains]))
        · exact secondCanonical.top_le_of_inBands ((samePoints x _).mp (by simp [xContains]))
      have sameSpans : firstBand.spans = secondBand.spans := by
        apply firstValid.separated.unique secondValid.separated
        intro point
        rw [← firstCanonical.inBands_head_row (le_refl _)
            firstValid.tall point, samePoints, sameTop]
        exact secondCanonical.inBands_head_row (le_refl _) secondValid.tall point
      have sameBottom : firstBand.bottom = secondBand.bottom := by
        apply le_antisymm
        · exact bottom_le secondCanonical firstCanonical sameTop.symm
            sameSpans.symm fun x y => (samePoints x y).symm
        · exact bottom_le firstCanonical secondCanonical sameTop sameSpans samePoints
      have sameHead : firstBand = secondBand := by
        cases firstBand
        simp_all
      subst secondBand
      congr 1
      apply ih firstCanonical.tail secondCanonical.tail
      intro _ y
      by_cases below : firstBand.bottom ≤ y
      · rw [← Stacked.inBands_tail_row below, samePoints, Stacked.inBands_tail_row below]
      constructor
      · intro member
        exact absurd (firstCanonical.bottom_le_of_inBands_tail member) below
      · intro member
        exact absurd (secondCanonical.bottom_le_of_inBands_tail member) below

end Canonical

section Transport

variable {γ δ : Type*} [LinearOrder γ] [LinearOrder δ] {f : α → γ} {g : β → δ}

/-- Move both ends of a span. -/
def Span.map (f : α → γ) (span : Span α) : Span γ :=
  ⟨f span.left, f span.right⟩

/-- Move the edges and the spans of a band. -/
def Band.map (f : α → γ) (g : β → δ) (band : Band α β) : Band γ δ :=
  ⟨g band.top, g band.bottom, band.spans.map (Span.map f)⟩

theorem Separated.map (increasing : StrictMono f) {spans : List (Span α)}
    (separated : Separated spans) : Separated (spans.map (Span.map f)) := by
  refine ⟨?_, ?_⟩
  · intro _ member
    obtain ⟨original, originalMember, rfl⟩ := mem_map.mp member
    exact increasing (separated.inhabited original originalMember)
  · rw [pairwise_map]
    exact separated.gaps.imp fun gap => increasing gap

/-- Strictly increasing coordinates keep the normal form. -/
theorem Canonical.map (horizontally : StrictMono f) (vertically : StrictMono g)
    {bands : List (Band α β)} (canonical : Canonical bands) :
    Canonical (bands.map (Band.map f g)) := by
  refine ⟨⟨?_, ?_⟩, ?_⟩
  · intro _ member
    obtain ⟨original, originalMember, rfl⟩ := mem_map.mp member
    have valid := canonical.valid original originalMember
    exact ⟨vertically valid.tall, by simpa [Band.map] using valid.occupied,
      valid.separated.map horizontally⟩
  · rw [pairwise_map]
    exact canonical.ordered.imp fun below => vertically.monotone below
  · unfold Coalesced
    rw [isChain_map]
    refine canonical.coalesced.imp fun upper lower differ touching same => ?_
    refine differ (vertically.injective touching) ?_
    refine map_injective_iff.mpr ?_ same
    rintro ⟨_, _⟩ ⟨_, _⟩ same
    simpa [Span.map, horizontally.injective.eq_iff] using same

end Transport

end Winex.Banding
