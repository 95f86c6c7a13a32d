import Winex.RegionCallbacks

namespace Winex.Gdi

open Banding List

/-!
# The array sweep computes the band sweep

On the arrays of two stacked band lists, `REGION_RegionOp` writes the array of
`Banding.sweepBands`.  Between two rounds the array holds the bands done so far, and the
previous-band index stands at the first rectangle of the last of them.
-/

/-- The array holds the bands, and the index stands at the last of them. -/
structure Holds (array : RectArray) (prevBand : Nat) (done : List (Band Int Int)) : Prop where
  rects : array.rects = rectsOf done
  prevBand : prevBand = bandStart done

theorem coalesceFrom_unchanged (array : RectArray) (prevBand : Nat) :
    coalesceFrom array prevBand array.numRects = (array, prevBand) := by
  simp [coalesceFrom]

variable {array : RectArray} {bottom top edge : Int} {done : List (Band Int Int)} {prevBand : Nat}
  {combine : Prop → Prop → Prop} {funcs : RegionFuncs} {op : SweepOp Int}

theorem Holds.coalesceFrom {next : RectArray} (holds : Holds array prevBand done)
    (stacked : Stacked done) {spans : List (Span Int)} (tall : top < bottom)
    (separated : Separated spans)
    (written : next.rects = array.rects ++ stripRects top bottom spans) :
    Holds (coalesceFrom next prevBand array.numRects).1
      (coalesceFrom next prevBand array.numRects).2
      (emitStrip done top bottom spans) := by
  unfold Gdi.coalesceFrom emitStrip
  by_cases empty : spans = []
  · subst empty
    simp only [stripRects_nil, append_nil] at written
    have sameCount : next.numRects = array.numRects := congrArg length written
    simp only [sameCount, ne_eq, not_true_eq_false, if_true, if_false]
    exact ⟨written.trans holds.rects, holds.prevBand⟩
  have grown : next.numRects ≠ array.numRects := by simp [RectArray.numRects, written, empty]
  rw [if_pos grown, if_neg empty]
  have valid : Band.Valid (⟨top, bottom, spans⟩ : Band Int Int) := ⟨tall, empty, separated⟩
  obtain ⟨rects, start⟩ :=
    coalesce_eq_pushBand ⟨top, bottom, spans⟩ []
      (by rw [written, holds.rects]; simp)
      (fun band member => (stacked.valid band member).occupied)
      (stacked_cons.mpr ⟨valid, by simp, stacked_nil⟩)
  rw [RectArray.numRects, holds.rects, holds.prevBand]
  exact ⟨by simpa using rects, start rfl⟩

/-- The callbacks compute the spans of a sweep operation. -/
structure Implements (funcs : RegionFuncs) (op : SweepOp Int) : Prop where
  overlap :
    ∀ {array : RectArray} (first second : List Rect) {top bottom : Int}, Separated (spansOf first) →
    BandClosed array.rects top bottom → (funcs.overlapFunc array first second top bottom).rects =
    array.rects ++ stripRects top bottom (op.overlap (spansOf first) (spansOf second))
  nonOverlap1 : funcs.nonOverlap1Func = if op.keepFirst then some copyBand else none
  nonOverlap2 : funcs.nonOverlap2Func = if op.keepSecond then some copyBand else none

/-- A callback that may be `NULL` copies the band or writes nothing. -/
theorem rects_callNonOverlap {func : Option NonOverlapFunc} {keep : Bool}
    (same : func = if keep then some copyBand else none) (array : RectArray) (band : List Rect)
    (top bottom : Int) :
    (callNonOverlap func array band top bottom).rects =
      array.rects ++ stripRects top bottom (if keep then spansOf band else []) := by
  subst same
  cases keep with
  | true => exact rects_copyBand array band top bottom
  | false => simp [callNonOverlap]

theorem Built.bandClosed (built : Built done edge) (below : edge ≤ top) (tall : top < bottom) :
    BandClosed (rectsOf done) top bottom := by
  rintro _ isLast ⟨-, _⟩
  obtain ⟨band, member, rectMember⟩ := exists_band_of_mem_rectsOf (mem_of_mem_getLast? isLast)
  have := (edges_of_mem_stripRects rectMember).2
  have := built.above band member
  omega

section Round

variable {funcs : RegionFuncs} {op : SweepOp Int} {combine : Prop → Prop → Prop} {array : RectArray}
  {prevBand : Nat} {done : List (Band Int Int)} {first second : Band Int Int} {r1 r2 : Rect}
  {edge : Int}

/-- The step before the common row writes the strip `emitLone` emits. -/
theorem nonOverlapStep_emitLone (array : RectArray) (done : List (Band Int Int))
    (implements : Implements funcs op) (meets : Meets first second edge)
    (edges1 : r1.top = first.top ∧ r1.bottom = first.bottom)
    (edges2 : r2.top = second.top ∧ r2.bottom = second.bottom) :
    ∃ top bottom spans, top < bottom ∧
      Separated spans ∧
      (nonOverlapStep funcs array r1 r2
          (stripRects first.top first.bottom first.spans)
          (stripRects second.top second.bottom second.spans)
          edge).1.rects =
        array.rects ++ stripRects top bottom spans ∧
      emitStrip done top bottom spans = emitLone op done first second edge := by
  obtain ⟨firstValid, secondValid, _, _, _⟩ := meets
  have firstTall := firstValid.tall
  have secondTall := secondValid.tall
  -- Where nothing is written, an empty strip of any height will do.
  have silent : ∀ result : RectArray, result.rects = array.rects →
      emitLone op done first second edge = done →
      ∃ top bottom spans, top < bottom ∧
        Separated spans ∧
        result.rects = array.rects ++ stripRects top bottom spans ∧
        emitStrip done top bottom spans = emitLone op done first second edge := by
    intro _ unchanged nothing
    exact ⟨0, 1, [], by omega, separated_nil, by simp [unchanged], by simp [emitStrip, nothing]⟩
  unfold nonOverlapStep
  rw [edges1.1, edges1.2, edges2.1, edges2.2]
  by_cases firstFirst : first.top < second.top
  · rw [if_pos firstFirst]
    dsimp only
    split
    next strip =>
      refine ⟨_, _, _, ?_, ?_, rects_callNonOverlap implements.nonOverlap1 _ _ _ _, ?_⟩
      · grind
      · split
        · simpa using firstValid.separated
        · exact separated_nil
      · unfold emitLone
        cases op.keepFirst <;> simp [firstFirst, strip, emitStrip]
    next noStrip =>
      apply silent _ rfl
      simp [emitLone, firstFirst, not_ne_iff.mp noStrip]
  · rw [if_neg firstFirst]
    by_cases secondFirst : second.top < first.top
    · rw [if_pos secondFirst]
      dsimp only
      split
      next strip =>
        refine ⟨_, _, _, ?_, ?_, rects_callNonOverlap implements.nonOverlap2 _ _ _ _, ?_⟩
        · grind
        · split
          · simpa using secondValid.separated
          · exact separated_nil
        · unfold emitLone
          cases op.keepSecond <;> simp [firstFirst, secondFirst, strip, emitStrip]
      next noStrip =>
        apply silent _ rfl
        simp [emitLone, firstFirst, secondFirst, not_ne_iff.mp noStrip]
    · rw [if_neg secondFirst]
      exact silent _ rfl (by simp [emitLone, firstFirst, secondFirst])

/-- `ytop` is the top of the next row the regions can have in common. -/
theorem nonOverlapStep_ytop (band1 band2 : List Rect) :
    (nonOverlapStep funcs array r1 r2 band1 band2 edge).2 = max r1.top r2.top := by
  unfold nonOverlapStep
  grind

theorem Holds.regionRound (implements : Implements funcs op) (correct : op.Correct combine)
    (holds : Holds array prevBand done) {firstRest secondRest : List (Band Int Int)}
    (ready : SweepReady done (first :: firstRest) (second :: secondRest) edge)
    (edges1 : r1.top = first.top ∧ r1.bottom = first.bottom)
    (edges2 : r2.top = second.top ∧ r2.bottom = second.bottom) :
    Holds
      (regionRound funcs array prevBand r1 r2
        (stripRects first.top first.bottom first.spans)
        (stripRects second.top second.bottom second.spans) edge).1
      (regionRound funcs array prevBand r1 r2
        (stripRects first.top first.bottom first.spans)
        (stripRects second.top second.bottom second.spans) edge).2
      (emitRound op done first second edge) := by
  have meets := ready.meets
  have lone := ready.built.emitLone op meets
  obtain ⟨top, bottom, spans, tall, separated, written, emitted⟩ :=
    nonOverlapStep_emitLone array done implements meets edges1 edges2
  have loneHolds := holds.coalesceFrom ready.built.canonical.toStacked tall separated written
  rw [emitted] at loneHolds
  unfold Gdi.regionRound emitRound
  simp only [nonOverlapStep_ytop, edges1.1, edges1.2, edges2.1, edges2.2]
  by_cases overlapping : max first.top second.top < min first.bottom second.bottom
  · have closed := Built.bandClosed (lone.mono (min_le_left _ _)) (le_refl _) overlapping
    rw [← loneHolds.rects] at closed
    have common :=
      implements.overlap
        (stripRects first.top first.bottom first.spans)
        (stripRects second.top second.bottom second.spans)
        (by simpa using meets.firstValid.separated) closed
    simp only [gt_iff_lt, overlapping, if_true]
    refine loneHolds.coalesceFrom lone.canonical.toStacked overlapping ?_ ?_
    · exact correct.separated meets.firstValid.separated meets.secondValid.separated
    · simpa using common
  · simp only [gt_iff_lt, overlapping, if_false, coalesceFrom_unchanged]
    exact loneHolds

end Round

theorem Stacked.exists_head {band : Band Int Int} {rest : List (Band Int Int)}
    (stacked : Stacked (band :: rest)) :
    ∃ rect others, rectsOf (band :: rest) = rect :: others ∧
      rect.top = band.top ∧
      rect.bottom = band.bottom := by
  obtain ⟨span, spans, shape⟩ := exists_cons_of_ne_nil (stacked.valid band (by simp)).occupied
  exact ⟨⟨span.left, band.top, span.right, band.bottom⟩,
    stripRects band.top band.bottom spans ++ rectsOf rest,
    by simp [shape], rfl, rfl⟩

section Rest

variable {array : RectArray} {edge : Int}

variable {band : Band Int Int} {later rest : List (Band Int Int)}

/-- One step of the loop over the remaining bands. -/
theorem appendBands_rectsOf (func : NonOverlapFunc) (stacked : Stacked (band :: later)) :
    appendBands func array (rectsOf (band :: later)) edge =
      appendBands func
        (func array (stripRects band.top band.bottom band.spans) (max band.top edge) band.bottom)
        (rectsOf later) edge := by
  obtain ⟨curBand, after⟩ := Stacked.bandOf_rectsOf stacked
  obtain ⟨_, _, shape, edges⟩ := Stacked.exists_head stacked
  rw [shape, appendBands, ← shape, curBand, after, edges.1, edges.2]

theorem rects_appendBands (stacked : Stacked rest) (below : ∀ band ∈ rest, edge ≤ band.top) :
    (appendBands copyBand array (rectsOf rest) edge).rects = array.rects ++ rectsOf rest := by
  induction rest generalizing array with
  | nil => simp [appendBands]
  | cons band _ ih =>
    rw [appendBands_rectsOf copyBand stacked,
      ih (stacked_cons.mp stacked).2.2 (fun lower member => below lower (by simp [member])),
      rects_copyBand, max_eq_left (below band (by simp))]
    simp

theorem rects_appendBands_cut (array : RectArray) (stacked : Stacked (band :: later))
    (pending : edge < band.bottom) :
    (appendBands copyBand array (rectsOf (band :: later)) edge).rects =
      array.rects ++ rectsOf (⟨max band.top edge, band.bottom, band.spans⟩ :: later) := by
  obtain ⟨-, laterBelow, laterStacked⟩ := stacked_cons.mp stacked
  rw [appendBands_rectsOf copyBand stacked,
    rects_appendBands laterStacked
      (fun lower member =>
        le_trans (le_of_lt pending) (laterBelow lower member)),
    rects_copyBand]
  simp

theorem Holds.appendRest {func : Option NonOverlapFunc} {keep : Bool}
    (same : func = if keep then some copyBand else none) {prevBand : Nat}
    {done : List (Band Int Int)} (holds : Holds array prevBand done) (doneStacked : Stacked done)
    (stacked : Stacked rest) (nonempty : rest ≠ []) (pending : ∀ band ∈ rest, edge < band.bottom) :
    (Gdi.coalesceFrom (Gdi.appendRest func array (rectsOf rest) edge)
        prevBand array.numRects).1.rects =
      rectsOf (emitRest keep done rest edge) := by
  obtain ⟨band, later, shape⟩ := exists_cons_of_ne_nil nonempty
  subst shape same
  cases keep with
  | false => simp [Gdi.appendRest, coalesceFrom_unchanged, emitRest, holds.rects]
  | true =>
    obtain ⟨valid, laterBelow, laterStacked⟩ := stacked_cons.mp stacked
    have bandPending := pending band (by simp)
    have cutStacked : Stacked (⟨max band.top edge, band.bottom, band.spans⟩ :: later) :=
      stacked_cons.mpr
        ⟨⟨max_lt valid.tall bandPending, valid.occupied, valid.separated⟩, laterBelow, laterStacked⟩
    have appended := rects_appendBands_cut array stacked bandPending
    have grown :
        (appendBands copyBand array (rectsOf (band :: later)) edge).numRects ≠ array.numRects := by
      rw [RectArray.numRects, appended]
      simp [RectArray.numRects, valid.occupied]
    simp only [if_true, Gdi.appendRest, Gdi.coalesceFrom, if_pos grown, emitRest]
    rw [RectArray.numRects, holds.rects, holds.prevBand]
    rw [holds.rects] at appended
    exact
      (coalesce_eq_pushBand _ later appended
        (fun upper member => (doneStacked.valid upper member).occupied)
        cutStacked).1

end Rest

theorem Holds.regionSweep_step (implements : Implements funcs op) (correct : op.Correct combine)
    {firstRest secondRest : List (Band Int Int)} {first second : Band Int Int}
    (holds : Holds array prevBand done)
    (ready : SweepReady done (first :: firstRest) (second :: secondRest) edge) :
    ∃ nextArray nextPrevBand, Holds nextArray nextPrevBand (emitRound op done first second edge) ∧
        regionSweep funcs array prevBand (rectsOf (first :: firstRest))
            (rectsOf (second :: secondRest)) edge =
          regionSweep funcs nextArray nextPrevBand
            (if first.bottom ≤ second.bottom then rectsOf firstRest
              else rectsOf (first :: firstRest))
            (if second.bottom ≤ first.bottom then rectsOf secondRest
              else rectsOf (second :: secondRest))
            (min first.bottom second.bottom) := by
  obtain ⟨curBand1, after1⟩ := Stacked.bandOf_rectsOf ready.firstStacked
  obtain ⟨curBand2, after2⟩ := Stacked.bandOf_rectsOf ready.secondStacked
  obtain ⟨_, _, shape1, edges1⟩ := Stacked.exists_head ready.firstStacked
  obtain ⟨_, _, shape2, edges2⟩ := Stacked.exists_head ready.secondStacked
  refine ⟨_, _, holds.regionRound implements correct ready edges1 edges2, ?_⟩
  rw [shape1, shape2, regionSweep, ← shape1, ← shape2, curBand1, curBand2,
    after1, after2, edges1.2, edges2.2]
  simp

theorem rects_regionSweep (implements : Implements funcs op) (correct : op.Correct combine)
    {first second : List (Band Int Int)} (ready : SweepReady done first second edge) :
    ∀ {array : RectArray} {prevBand : Nat}, Holds array prevBand done →
      (regionSweep funcs array prevBand (rectsOf first) (rectsOf second) edge).rects =
        rectsOf (sweepBands op done first second edge) := by
  fun_induction sweepBands op done first second edge with
  | case1 _ second =>
    intro _ _ holds
    rw [rectsOf_nil, regionSweep]
    cases second with
    | nil => simp [finishRegionOp, coalesceFrom_unchanged, emitRest, holds.rects]
    | cons band later =>
      have nonempty := mt (Stacked.rectsOf_eq_nil ready.secondStacked).mp (cons_ne_nil band later)
      simp only [finishRegionOp, ne_eq, not_true_eq_false, if_false,
        nonempty, not_false_eq_true, if_true]
      exact holds.appendRest implements.nonOverlap2
        ready.built.canonical.toStacked ready.secondStacked
        (cons_ne_nil _ _) ready.secondPending
  | case2 _ first firstRest =>
    intro _ _ holds
    obtain ⟨_, _, shape, -⟩ := Stacked.exists_head ready.firstStacked
    have nonempty := mt (Stacked.rectsOf_eq_nil ready.firstStacked).mp (cons_ne_nil first firstRest)
    rw [rectsOf_nil, shape, regionSweep, ← shape]
    simp only [finishRegionOp, ne_eq, nonempty, not_false_eq_true, if_true]
    exact holds.appendRest implements.nonOverlap1
      ready.built.canonical.toStacked ready.firstStacked
      (cons_ne_nil _ _) ready.firstPending
  | case3 _ _ _ _ _ _ _ firstEnds ih =>
    intro _ _ holds
    obtain ⟨nextArray, nextPrevBand, nextHolds, step⟩ :=
      holds.regionSweep_step implements correct ready
    rw [step, if_pos (le_of_lt firstEnds), if_neg (not_le.mpr firstEnds),
      min_eq_left (le_of_lt firstEnds)]
    exact ih (ready.advanceFirst correct firstEnds) nextHolds
  | case4 _ _ _ _ _ _ _ _ secondEnds ih =>
    intro _ _ holds
    obtain ⟨nextArray, nextPrevBand, nextHolds, step⟩ :=
      holds.regionSweep_step implements correct ready
    rw [step, if_neg (not_le.mpr secondEnds), if_pos (le_of_lt secondEnds),
      min_eq_right (le_of_lt secondEnds)]
    exact ih (ready.advanceSecond correct secondEnds) nextHolds
  | case5 _ first _ second _ _ _ _ _ ih =>
    intro _ _ holds
    have together : first.bottom = second.bottom := by omega
    obtain ⟨_, _, nextHolds, step⟩ :=
      holds.regionSweep_step implements correct ready
    rw [step, if_pos (le_of_eq together), if_pos (le_of_eq together.symm),
      min_eq_left (le_of_eq together)]
    exact ih (ready.advanceBoth correct together) nextHolds

/-- The callbacks of `REGION_IntersectRegion` -/
def intersectFuncs : RegionFuncs where
  overlapFunc := intersectO
  nonOverlap1Func := none
  nonOverlap2Func := none

/-- The callbacks of `REGION_UnionRegion` -/
def unionFuncs : RegionFuncs where
  overlapFunc := unionO
  nonOverlap1Func := some unionNonO
  nonOverlap2Func := some unionNonO

/-- The callbacks of `REGION_SubtractRegion` -/
def subtractFuncs : RegionFuncs where
  overlapFunc := subtractO
  nonOverlap1Func := some subtractNonO1
  nonOverlap2Func := none

theorem implements_intersectFuncs : Implements intersectFuncs intersectOp where
  overlap first second _ _ _ _ := rects_intersectO _ first second _ _
  nonOverlap1 := rfl
  nonOverlap2 := rfl

theorem implements_unionFuncs : Implements unionFuncs uniteOp where
  overlap first second _ _ _ closed := rects_unionO closed first second
  nonOverlap1 := rfl
  nonOverlap2 := rfl

theorem implements_subtractFuncs : Implements subtractFuncs subtractOp where
  overlap _ second _ _ separated _ :=
    rects_subtractO _ second _ _ fun rect member =>
      separated.inhabited ⟨rect.left, rect.right⟩ (mem_map_of_mem member)
  nonOverlap1 := rfl
  nonOverlap2 := rfl

end Winex.Gdi
