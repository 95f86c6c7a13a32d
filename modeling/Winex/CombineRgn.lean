import Winex.RegionBuild

namespace Winex.Gdi

open Banding

/-!
# What `CombineRgn` guarantees its callers

With a destination of its own `CombineRgn` computes the combination of its sources, and
the type it stores is right exactly when the source it hands over unchanged, if any, had
the right type. Sharing handles is safe but for an intersection of a region with itself
in place, which runs with capacity zero, and a union of a region with itself, which is a
copy.
-/

theorem typeAgrees_combined_iff (mode : RgnMode) (sameRecord : Bool) {first second : RegionContents}
    (firstBanded : first.Banded) (secondBanded : second.Banded) :
    (if mode = .rgnOr ∧ sameRecord then second else combineContents mode first second).TypeAgrees ↔
      ∀ source ∈ copiedSource mode sameRecord first second, source.TypeAgrees := by
  cases mode with
  | rgnAnd =>
    simp only [reduceCtorEq, false_and, if_false, combineContents, intersectContents, copiedSource]
    split <;> simp [typeAgrees_contentsOf]
  | rgnOr =>
    cases sameRecord with
    | true => simp [copiedSource]
    | false =>
      simp only [Bool.false_eq_true, and_false, if_false,
        combineContents, unionContents, copiedSource, false_or]
      split_ifs <;> simp [RegionContents.TypeAgrees, contentsOf, RegionContents.numRects]
  | rgnXor =>
    simp only [reduceCtorEq, false_and, if_false, combineContents, copiedSource]
    by_cases firstEmpty : first.numRects = 0
    · have reject : TrivialReject first second := Or.inl firstEmpty
      have rejectBack : TrivialReject second first := Or.inr (.inl firstEmpty)
      simp [xorContents, subtractContents, reject, rejectBack, unionContents, firstEmpty]
    by_cases secondEmpty : second.numRects = 0
    · have reject : TrivialReject first second := Or.inr (.inl secondEmpty)
      have rejectBack : TrivialReject second first := Or.inl secondEmpty
      simp [xorContents, subtractContents, reject, rejectBack,
        unionContents, firstEmpty, secondEmpty]
    · simp [firstEmpty, secondEmpty,
        typeAgrees_xorContents firstBanded secondBanded firstEmpty secondEmpty]
  | rgnDiff =>
    simp only [reduceCtorEq, false_and, if_false, combineContents, copiedSource]
    by_cases reject : TrivialReject first second
    · simp [subtractContents, reject]
    · simp [reject, typeAgrees_subtractContents reject]
  | rgnCopy => simp [combineContents, copiedSource]

/-- With live handles and a destination of its own, `CombineRgn` leaves the combination of
the source pixels with the type of its rectangle count, exactly when the source handed over
unchanged carries the type of its own.  Nothing is written out of bounds. -/
theorem combineRgn_correct_iff (heap : GdiHeap) (hDest hSrc1 hSrc2 : HRGN) (mode : RgnMode)
    (live : heap.live hDest = true ∧ heap.live hSrc1 = true ∧ heap.live hSrc2 = true)
    (distinct : hDest ≠ hSrc1 ∧ hDest ≠ hSrc2)
    (wellFormed1 : (heap.contents (.object hSrc1)).WellFormed)
    (wellFormed2 : (heap.contents (.object hSrc2)).WellFormed) :
    (combineRgn heap hDest hSrc1 hSrc2 mode).1.inBounds = heap.inBounds ∧
      (((combineRgn heap hDest hSrc1 hSrc2 mode).1.contents (.object hDest)).Describes
        (fun x y =>
            mode.combine
              ((heap.contents (.object hSrc1)).Contains x y)
              ((heap.contents (.object hSrc2)).Contains x y)) ∧
        ((combineRgn heap hDest hSrc1 hSrc2 mode).1.contents (.object hDest)).TypeAgrees ↔
        ∀ source ∈
            copiedSource mode (hSrc1 == hSrc2)
              (heap.contents (.object hSrc1))
              (heap.contents (.object hSrc2)),
          source.TypeAgrees) := by
  have called : (combineRgn heap hDest hSrc1 hSrc2 mode).1 =
      combineRegions heap (.object hDest) (.object hSrc1) (.object hSrc2) mode := by
    simp [combineRgn, live]
  rw [called, contents_combineRegions]
  constructor
  · apply inBounds_combineRegions
    exact fun inPlace => distinct.1 inPlace.2.1.symm
  · have typed :=
      typeAgrees_combined_iff mode (hSrc1 == hSrc2) wellFormed1.banded wellFormed2.banded
    simp only [beq_iff_eq] at typed
    rw [← typed]
    refine and_iff_right ?_
    split
    next same =>
      -- A union of a record with itself is a copy of it.
      obtain ⟨isOr, sameSource⟩ := same
      subst isOr sameSource
      exact wellFormed2.describes.congr fun x y => by simp [RgnMode.combine]
    · exact describes_combineContents mode wellFormed1 wellFormed2

/-- Intersecting the circle with the square hands over no source. -/
theorem combineRgn_correct_circle :
    (combineRgn circleHeap 3 1 2 .rgnAnd).1.inBounds = true ∧
      ((combineRgn circleHeap 3 1 2 .rgnAnd).1.contents (.object 3)).TypeAgrees :=
  let correct :=
    combineRgn_correct_iff circleHeap 3 1 2 .rgnAnd
      ⟨by decide +kernel, by decide +kernel, by decide +kernel⟩
      ⟨by decide, by decide⟩ wellFormed_circle wellFormed_square
  ⟨correct.1.trans (by decide +kernel), (correct.2.mpr (by simp [copiedSource])).2⟩

/-- `RGN_COPY` of the circle, a well-formed region: the copy of three rectangles is a
`SIMPLEREGION`. -/
theorem combineRgn_copies_wrong_type :
    (circleHeap.contents (.object 1)).WellFormed ∧
      (circleHeap.contents (.object 2)).WellFormed ∧
      (combineRgn circleHeap 3 1 2 .rgnCopy).2 = some .simpleRegion ∧
      ((combineRgn circleHeap 3 1 2 .rgnCopy).1.contents (.object 3)).type = .simpleRegion ∧
      ((combineRgn circleHeap 3 1 2 .rgnCopy).1.contents (.object 3)).numRects = 3 :=
  ⟨wellFormed_circle, wellFormed_square, by decide +kernel, by decide +kernel, by decide +kernel⟩

variable {region : RegionContents}

theorem RegionContents.Banded.not_trivialReject (banded : region.Banded) :
    TrivialReject region region ↔ region.numRects = 0 := by
  constructor
  · intro reject
    by_contra nonempty
    have box := banded.pixelBox nonempty
    obtain ⟨_, touched⟩ := box.leftTouched
    exact reject.disjoint banded banded _ _ ⟨touched, touched⟩
  · exact .inl

theorem SweepBands.rects_eq_nil {rects : List Rect} {pixels : Int → Int → Prop}
    {bands : List (Band Int Int)} (swept : SweepBands rects pixels bands) :
    rects = [] ↔ ∀ x y, ¬ pixels x y := by
  have banded : (contentsOf rects).Banded := by
    refine ⟨⟨bands, swept.stacked, swept.rects⟩, ?_⟩
    rw [swept.rects]
    exact tightBox_extentsOf (Stacked.verticallySorted swept.stacked)
  have contains : ∀ x y, (contentsOf rects).Contains x y ↔ pixels x y := by
    intro _ _
    rw [← swept.inBands_iff, ← inRects_rectsOf, ← swept.rects]
    rfl
  simp only [← contains]
  rw [← banded.numRects_eq_zero, RegionContents.numRects, List.length_eq_zero_iff]
  rfl

section InPlace

variable (heap : GdiHeap) (hrgn : HRGN) (banded : (heap.contents (.object hrgn)).Banded)

include banded

/-- In place, an intersection of a nonempty region with itself writes. -/
theorem inBounds_intersect_inPlace :
    (intersectRegion heap (.object hrgn) (.object hrgn) (.object hrgn)).inBounds = true ↔
      heap.inBounds = true ∧ (heap.contents (.object hrgn)).numRects = 0 := by
  obtain ⟨bands, stacked, rects⟩ := banded.bands
  obtain ⟨_, sweptBands, -⟩ :=
    exists_sweepBands implements_intersectFuncs intersectOp_correct stacked
      stacked rects rects banded.extents banded.extents
  unfold intersectRegion
  simp only [GdiHeap.inBounds_set]
  split
  next reject =>
    rw [banded.not_trivialReject] at reject
    simp [reject]
  next notRejected =>
    rw [inBounds_regionOp_inPlace _ _ _ rectsOnly_intersectFuncs,
      sweptBands.rects_eq_nil, banded.numRects_eq_zero]
    simp

/-- In place, a difference of a region with itself writes nothing. -/
theorem inBounds_subtract_inPlace :
    (subtractRegion heap (.object hrgn) (.object hrgn) (.object hrgn)).inBounds = true ↔
      heap.inBounds = true := by
  obtain ⟨bands, stacked, rects⟩ := banded.bands
  obtain ⟨_, sweptBands, -⟩ :=
    exists_sweepBands implements_subtractFuncs subtractOp_correct stacked
      stacked rects rects banded.extents banded.extents
  unfold subtractRegion
  split
  · rw [inBounds_copyRegion]
  next notRejected =>
    simp only [GdiHeap.inBounds_set]
    rw [inBounds_regionOp_inPlace _ _ _ rectsOnly_subtractFuncs, sweptBands.rects_eq_nil]
    simp

end InPlace

end Winex.Gdi
