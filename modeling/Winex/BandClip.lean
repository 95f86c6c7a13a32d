import Mathlib.Algebra.Order.Group.Int
import Winex.BandList

namespace Winex.Banding

open List

/-!
# Clipping band lists

A band list is clipped by cutting its spans and its bands separately.  Touching bands
that differ outside the rectangle only may become equal; a stacked list over the
integers is coalesced exactly when its row changes at every top edge.
-/

section Spans

variable [LinearOrder α]

/-- Cut a span at both sides, unless nothing is left of it. -/
def cutSpan (left right : α) (span : Span α) : Option (Span α) :=
  if span.left < right ∧ left < span.right then
    some ⟨max span.left left, min span.right right⟩
  else
    none

/-- Cut every span of a list. -/
def clipSpans (left right : α) (spans : List (Span α)) : List (Span α) :=
  spans.filterMap (cutSpan left right)

variable {left right : α} {spans : List (Span α)}

theorem mem_clipSpans {span : Span α} :
    span ∈ clipSpans left right spans ↔
      ∃ source ∈ spans, (source.left < right ∧ left < source.right) ∧
        span = ⟨max source.left left, min source.right right⟩ := by
  simp only [clipSpans, mem_filterMap, cutSpan]
  grind

theorem covers_clipSpans (left right : α) (spans : List (Span α)) (point : α) :
    Covers (clipSpans left right spans) point ↔
      (left ≤ point ∧ point < right) ∧ Covers spans point := by
  simp only [Covers, mem_clipSpans, Span.Contains]
  constructor
  · rintro ⟨_, ⟨source, member, _, rfl⟩, contains⟩
    exact ⟨by grind, source, member, by grind⟩
  · rintro ⟨_, source, member, _⟩
    exact ⟨_, ⟨source, member, by grind, rfl⟩, by grind⟩

theorem separated_clipSpans (between : left < right) (separated : Separated spans) :
    Separated (clipSpans left right spans) := by
  constructor
  · intro _ member
    obtain ⟨source, sourceMember, _, rfl⟩ := mem_clipSpans.mp member
    have := separated.inhabited source sourceMember
    grind
  · rw [clipSpans, pairwise_filterMap]
    refine separated.gaps.imp ?_
    intro _ _ _ _ firstCut _ secondCut
    simp only [cutSpan] at firstCut secondCut
    grind

end Spans

section Bands

variable [LinearOrder α] [LinearOrder β]

/-- Cut a band at all four sides, unless nothing is left of it. -/
def cutBand (left right : α) (top bottom : β) (band : Band α β) : Option (Band α β) :=
  if (band.top < bottom ∧ top < band.bottom) ∧
      clipSpans left right band.spans ≠ [] then
    some ⟨max band.top top, min band.bottom bottom, clipSpans left right band.spans⟩
  else
    none

/-- Clip a band list to a rectangle. -/
def clipBands (left right : α) (top bottom : β) (bands : List (Band α β)) : List (Band α β) :=
  bands.filterMap (cutBand left right top bottom)

variable {left right : α} {top bottom : β}

variable {bands : List (Band α β)}

theorem mem_clipBands {band : Band α β} :
    band ∈ clipBands left right top bottom bands ↔
      ∃ source ∈ bands,
        ((source.top < bottom ∧ top < source.bottom) ∧ clipSpans left right source.spans ≠ []) ∧
          band =
            ⟨max source.top top, min source.bottom bottom, clipSpans left right source.spans⟩ := by
  simp only [clipBands, mem_filterMap, cutBand]
  grind

/-- Clipping leaves the points inside the rectangle. -/
theorem inBands_clipBands (bands : List (Band α β)) (x : α) (y : β) :
    InBands (clipBands left right top bottom bands) x y ↔
      ((left ≤ x ∧ x < right) ∧ top ≤ y ∧ y < bottom) ∧ InBands bands x y := by
  simp only [InBands, mem_clipBands, Band.Contains]
  constructor
  · rintro ⟨_, ⟨source, member, _, rfl⟩, rows, covered⟩
    rw [covers_clipSpans] at covered
    exact ⟨by grind, source, member, by grind⟩
  · rintro ⟨inside, source, member, _, covered⟩
    have cut := (covers_clipSpans left right source.spans x).mpr ⟨inside.1, covered⟩
    refine ⟨_, ⟨source, member, ⟨by grind, ?_⟩, rfl⟩, by grind, cut⟩
    intro empty
    rw [empty] at cut
    exact covers_nil _ cut

theorem stacked_clipBands (wide : left < right) (tall : top < bottom) (stacked : Stacked bands) :
    Stacked (clipBands left right top bottom bands) := by
  constructor
  · intro _ member
    obtain ⟨source, sourceMember, meets, rfl⟩ := mem_clipBands.mp member
    have valid := stacked.valid source sourceMember
    have sourceTall := valid.tall
    exact ⟨by grind, meets.2, separated_clipSpans wide valid.separated⟩
  · rw [clipBands, pairwise_filterMap]
    refine stacked.ordered.imp ?_
    intro _ _ _ _ firstCut _ secondCut
    simp only [cutBand] at firstCut secondCut
    grind

end Bands

section Rows

variable [LinearOrder α]

/-- The point set has the same row on both sides of the line `y`. -/
def RowsAgree (bands : List (Band α Int)) (y : Int) : Prop :=
  ∀ x, InBands bands x (y - 1) ↔ InBands bands x y

variable {first second : Band α Int} {rest : List (Band α Int)}

theorem Stacked.not_rowsAgree_top (stacked : Stacked (first :: rest)) :
    ¬ RowsAgree (first :: rest) first.top := by
  intro agree
  obtain ⟨x, contains⟩ := (stacked_cons.mp stacked).1.exists_contains
  have above := stacked.top_le_of_inBands ((agree x).mpr (by simp [contains]))
  omega

variable {y : Int} {bands : List (Band α Int)}

theorem rowsAgree_tail (below : first.bottom < y) :
    RowsAgree (first :: rest) y ↔ RowsAgree rest y := by
  refine forall_congr' fun x => ?_
  rw [Stacked.inBands_tail_row (by omega), Stacked.inBands_tail_row (le_of_lt below)]

theorem Stacked.rowsAgree_touching (stacked : Stacked (first :: second :: rest))
    (touching : first.bottom = second.top) :
    RowsAgree (first :: second :: rest) second.top ↔ first.spans = second.spans := by
  obtain ⟨firstValid, -, restStacked⟩ := stacked_cons.mp stacked
  have secondValid := (stacked_cons.mp restStacked).1
  have firstTall := firstValid.tall
  have upperRow :
      ∀ x, InBands (first :: second :: rest) x (second.top - 1) ↔ Covers first.spans x :=
    stacked.inBands_head_row (by omega) (by omega)
  have lowerRow : ∀ x, InBands (first :: second :: rest) x second.top ↔ Covers second.spans x := by
    intro x
    rw [Stacked.inBands_tail_row (le_of_eq touching)]
    exact restStacked.inBands_head_row (le_refl _) secondValid.tall x
  simp only [RowsAgree, upperRow, lowerRow]
  constructor
  · exact firstValid.separated.unique secondValid.separated
  · intro same _
    rw [same]

theorem Stacked.coalesced_iff_rows_change (stacked : Stacked bands) :
    Coalesced bands ↔ ∀ band ∈ bands, ¬ RowsAgree bands band.top := by
  induction bands with
  | nil => simp [Coalesced]
  | cons first rest ih =>
    have restStacked := (stacked_cons.mp stacked).2.2
    cases rest with
    | nil => simpa [Coalesced] using stacked.not_rowsAgree_top
    | cons second later =>
      obtain ⟨-, firstAbove, -⟩ := stacked_cons.mp stacked
      obtain ⟨secondValid, secondAbove, -⟩ := stacked_cons.mp restStacked
      have secondTall := secondValid.tall
      have reaches := firstAbove second (by simp)
      have atSecond : ¬ RowsAgree (first :: second :: later) second.top ↔
          (first.bottom = second.top → first.spans ≠ second.spans) := by
        by_cases touching : first.bottom = second.top
        · simp [touching, stacked.rowsAgree_touching touching]
        · have gap : first.bottom < second.top := by omega
          simp [touching, rowsAgree_tail gap, restStacked.not_rowsAgree_top]
      have atLater : ∀ band ∈ later, (RowsAgree (first :: second :: later) band.top ↔
          RowsAgree (second :: later) band.top) := by
        intro band member
        have := secondAbove band member
        exact rowsAgree_tail (by omega)
      have restChanges := ih restStacked
      rw [forall_mem_cons] at restChanges
      rw [Coalesced, isChain_cons_cons, ← Coalesced, restChanges,
        forall_mem_cons, forall_mem_cons, atSecond]
      simp only [stacked.not_rowsAgree_top, not_false_eq_true, true_and,
        restStacked.not_rowsAgree_top]
      refine and_congr_right fun _ => ?_
      refine forall_congr' fun band => ?_
      exact ⟨fun changes member => mt (atLater band member).mp (changes member),
        fun changes member => mt (atLater band member).mpr (changes member)⟩

theorem Stacked.inBands_member_row (stacked : Stacked bands) {band : Band α Int}
    (member : band ∈ bands) (inside : band.top ≤ y ∧ y < band.bottom) (x : α) :
    InBands bands x y ↔ Covers band.spans x := by
  induction bands with
  | nil => simp at member
  | cons _ _ ih =>
    obtain ⟨-, below, restStacked⟩ := stacked_cons.mp stacked
    rcases mem_cons.mp member with rfl | inRest
    · exact stacked.inBands_head_row inside.1 inside.2 x
    · rw [Stacked.inBands_tail_row (le_trans (below band inRest) inside.1)]
      exact ih restStacked inRest

theorem Canonical.coalesced_clipBands_iff (canonical : Canonical bands) {left right : α}
    {top bottom : Int} (wide : left < right) (tall : top < bottom) :
    Coalesced (clipBands left right top bottom bands) ↔
      ∀ y, top < y →
        y < bottom →
        (∃ x, (left ≤ x ∧ x < right) ∧ InBands bands x y) →
        (∀ x, left ≤ x ∧ x < right → (InBands bands x (y - 1) ↔ InBands bands x y)) →
        RowsAgree bands y := by
  have clipStacked := stacked_clipBands wide tall canonical.toStacked
  rw [clipStacked.coalesced_iff_rows_change]
  constructor
  · rintro changes y _ _ ⟨x, between, band, member, contains⟩ agree
    -- A band that starts in row `y` would start a clipped band there.
    by_cases starts : band.top = y
    · have clipped : (⟨max band.top top, min band.bottom bottom,
            clipSpans left right band.spans⟩ : Band α Int) ∈
          clipBands left right top bottom bands := by
        refine mem_clipBands.mpr ⟨band, member, ⟨?_, ?_⟩, rfl⟩
        · have := contains.1
          omega
        · intro empty
          have cut := (covers_clipSpans left right band.spans x).mpr ⟨between, contains.2⟩
          rw [empty] at cut
          exact covers_nil _ cut
      refine absurd ?_ (changes _ clipped)
      have lineEq : max band.top top = y := by omega
      rw [lineEq]
      intro z
      rw [inBands_clipBands, inBands_clipBands]
      have inRows : (top ≤ y - 1 ∧ y - 1 < bottom) ∧ top ≤ y ∧ y < bottom := by omega
      simp only [inRows.1, inRows.2, and_true]
      exact and_congr_right (agree z)
    · have rows := contains.1
      intro z
      rw [canonical.inBands_member_row member (by omega) z,
        canonical.inBands_member_row member rows z]
  · intro apart _ member agree
    obtain ⟨source, sourceMember, meets, rfl⟩ := mem_clipBands.mp member
    dsimp only at agree
    have clipValid := clipStacked.valid _ member
    obtain ⟨x, contains⟩ := clipValid.exists_contains
    have inClip : InBands (clipBands left right top bottom bands) x (max source.top top) :=
      ⟨_, member, contains⟩
    have aboveInClip := (agree x).mpr inClip
    rw [inBands_clipBands] at inClip aboveInClip
    have startsBelow : top < source.top := by omega
    have lineEq : max source.top top = source.top := by omega
    rw [lineEq] at agree inClip
    refine (canonical.coalesced_iff_rows_change.mp canonical.coalesced)
      source sourceMember (apart source.top startsBelow meets.1.1 ⟨x, inClip.1.1, inClip.2⟩ ?_)
    intro z between
    have rows := agree z
    rw [inBands_clipBands, inBands_clipBands] at rows
    have inRows : (top ≤ source.top - 1 ∧ source.top - 1 < bottom) ∧
        top ≤ source.top ∧ source.top < bottom := by omega
    simpa [between, inRows] using rows

end Rows

end Winex.Banding
