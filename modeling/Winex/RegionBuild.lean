import Winex.RegionCombine
import Winex.RegionCreate

namespace Winex.Gdi

open Banding

/-!
# Regions built from rectangles

`REGION_UnionRectWithRegion` adds one rectangle to a region, so adding rectangles one
after another leads to the well-formed region of all their pixels.  Since such regions
are determined by their pixels, `ExtCreateRegion` restores the region that
`GetRegionData` was called for, and `EqualRgn` decides equality of pixel sets.
-/

/-- The contents of the local region in `REGION_UnionRectWithRegion`. -/
def rectContents (rect : Rect) : RegionContents :=
  ⟨.simpleRegion, rect, [rect]⟩

/-- The rectangle has a pixel. -/
def Rect.Nonempty (rect : Rect) : Prop :=
  rect.left < rect.right ∧ rect.top < rect.bottom

instance (rect : Rect) : Decidable rect.Nonempty :=
  inferInstanceAs (Decidable (_ ∧ _))

theorem describes_rectContents {rect : Rect} (nonempty : rect.Nonempty) :
    (rectContents rect).Describes rect.InRect := by
  refine ⟨⟨⟨[⟨rect.top, rect.bottom, [⟨rect.left, rect.right⟩]⟩], ?_, rfl⟩, ?_⟩, ?_⟩
  · refine ⟨stacked_cons.mpr ⟨⟨nonempty.2, by simp, ?_⟩, by simp, stacked_nil⟩, by simp [Coalesced]⟩
    exact separated_singleton nonempty.1
  · constructor <;> simp [rectContents]
  · intro _ _
    simp [RegionContents.Contains, InRects, rectContents]

variable (heap : GdiHeap) {hrgn : HRGN} (rect : Rect)

theorem contents_unionRectWithRegion (hrgn : HRGN) :
    (unionRectWithRegion heap rect (.object hrgn)).contents (.object hrgn) =
      unionContents (heap.contents (.object hrgn)) (rectContents rect) := by
  unfold unionRectWithRegion
  rw [contents_unionRegion, if_neg (by simp), (Frame.set heap (.temporary 2) _).contents (by simp)]
  simp [GdiHeap.contents, rectContents]

/-- The records that adding rectangles to a region may overwrite. -/
def buildTargets (hrgn : HRGN) : List RgnPtr :=
  [.object hrgn, .temporary 2]

/-- The loops that add one rectangle after another to a region. -/
def addRects (heap : GdiHeap) (hrgn : HRGN) (rects : List Rect) : GdiHeap :=
  rects.foldl (fun heap rect => unionRectWithRegion heap rect (.object hrgn)) heap

theorem describes_addRects {heap : GdiHeap} {pixels : Int → Int → Prop}
    (describes : (heap.contents (.object hrgn)).Describes pixels) {rects : List Rect}
    (nonempty : ∀ rect ∈ rects, rect.Nonempty) :
    ((addRects heap hrgn rects).contents (.object hrgn)).Describes fun x y =>
      pixels x y ∨ InRects rects x y := by
  induction rects generalizing heap pixels with
  | nil => exact describes.congr fun x y => by simp [InRects]
  | cons rect _ ih =>
    have added :=
      describes_unionContents describes (describes_rectContents (nonempty rect (by simp)))
    rw [← contents_unionRectWithRegion] at added
    refine (ih added fun other member =>
      nonempty other (by simp [member])).congr fun x y => ?_
    simp [InRects, or_assoc]

theorem frame_addRects (hrgn : HRGN) (rects : List Rect) :
    Frame (buildTargets hrgn) heap (addRects heap hrgn rects) := by
  induction rects generalizing heap with
  | nil => exact Frame.refl _ _
  | cons rect _ ih =>
    refine Frame.trans ?_ (ih _)
    exact ((Frame.set _ _ _).mono (by simp [buildTargets])).trans
      ((frame_unionRegion _ _ _ _).mono (by simp [buildTargets]))

theorem inBounds_addRects (hrgn : HRGN) (rects : List Rect) :
    (addRects heap hrgn rects).inBounds = heap.inBounds := by
  induction rects generalizing heap with
  | nil => rfl
  | cons rect _ ih =>
    exact (ih _).trans ((inBounds_unionRegion _ _ _ _).trans rfl)

theorem contents_createRegion (hrgn : HRGN) (n : Nat) :
    (createRegion heap hrgn n).contents (.object hrgn) = contentsOf [] := by
  simp [createRegion, GdiHeap.contents, GdiHeap.set, allocWineRegion,
    contentsOf, typeOfCount, extentsOf]

variable {other hrgn1 hrgn2 : HRGN} {rgndata : RgnData}

theorem contents_createRegion_of_ne (n : Nat) (differs : other ≠ hrgn) :
    (createRegion heap hrgn n).contents (.object other) = heap.contents (.object other) := by
  simp [createRegion, GdiHeap.contents, GdiHeap.set, differs]

theorem all_zip_eq_iff {first second : List Rect} (sameLength : first.length = second.length) :
    ((first.zip second).all fun pair => pair.1 = pair.2) = true ↔ first = second := by
  induction first generalizing second with
  | nil => simp [List.length_eq_zero_iff.mp sameLength.symm]
  | cons _ _ ih =>
    cases second with
    | nil => simp at sameLength
    | cons =>
      have sameRest := ih (Nat.succ.inj sameLength)
      simp [sameRest]

/-- `EqualRgn` compares the rectangles, and the extents if there are any. -/
theorem equalRgn_eq_true_iff {heap : GdiHeap}
    (live : heap.live hrgn1 = true ∧ heap.live hrgn2 = true) :
    equalRgn heap hrgn1 hrgn2 = true ↔
      (heap.contents (.object hrgn1)).rects = (heap.contents (.object hrgn2)).rects ∧
        ((heap.contents (.object hrgn1)).rects = [] ∨
          (heap.contents (.object hrgn1)).extents = (heap.contents (.object hrgn2)).extents) := by
  unfold equalRgn GdiHeap.contents RegionContents.numRects
  rw [if_pos live]
  dsimp only
  split
  next differ =>
    simp only [Bool.false_eq_true, false_iff]
    exact fun same => differ (congrArg List.length same.1)
  rename_i sameLength
  rw [not_not] at sameLength
  split
  next empty =>
    have firstEmpty := List.length_eq_zero_iff.mp empty
    have secondEmpty := List.length_eq_zero_iff.mp (sameLength.symm.trans empty)
    simp [firstEmpty, secondEmpty]
  next nonempty =>
    rw [List.length_eq_zero_iff] at nonempty
    rw [decide_eq_true_iff, all_zip_eq_iff sameLength]
    simp [nonempty, and_comm]

/-- On well-formed regions `EqualRgn` decides equality of the pixel sets. -/
theorem equalRgn_iff_same_pixels {heap : GdiHeap}
    (live : heap.live hrgn1 = true ∧ heap.live hrgn2 = true)
    (wellFormed1 : (heap.contents (.object hrgn1)).WellFormed)
    (wellFormed2 : (heap.contents (.object hrgn2)).WellFormed) :
    equalRgn heap hrgn1 hrgn2 = true ↔
      ∀ x y, (heap.contents (.object hrgn1)).Contains x y ↔
        (heap.contents (.object hrgn2)).Contains x y := by
  rw [equalRgn_eq_true_iff live]
  constructor
  · rintro ⟨sameRects, -⟩ _ _
    rw [RegionContents.Contains, sameRects, RegionContents.Contains]
  · intro samePixels
    obtain ⟨sameRects, sameExtents⟩ := wellFormed1.unique wellFormed2 samePixels
    exact ⟨sameRects, Or.inr sameExtents⟩

/-- The region `ExtCreateRegion` builds from nonempty rectangles. -/
theorem describes_extCreateRegion (hrgn : HRGN) (isRects : rgndata.rdh.iType = rdhRectangles)
    (nonempty : ∀ rect ∈ rgndata.buffer.take rgndata.rdh.nCount, rect.Nonempty) :
    ((extCreateRegion heap hrgn rgndata).1.contents (.object hrgn)).Describes
      (InRects (rgndata.buffer.take rgndata.rdh.nCount)) := by
  unfold extCreateRegion
  rw [if_neg (by simp [isRects])]
  have empty := describes_contentsOf_nil
  rw [← contents_createRegion] at empty
  exact (describes_addRects empty nonempty).congr fun x y => by simp

theorem live_extCreateRegion (hrgn : HRGN) (isRects : rgndata.rdh.iType = rdhRectangles) :
    (extCreateRegion heap hrgn rgndata).1.live = Function.update heap.live hrgn true := by
  unfold extCreateRegion
  rw [if_neg (by simp [isRects])]
  exact (frame_addRects _ hrgn _).live

/-- `ExtCreateRegion` leaves the other region objects alone. -/
theorem contents_extCreateRegion_of_ne (rgndata : RgnData) (differs : other ≠ hrgn) :
    (extCreateRegion heap hrgn rgndata).1.contents (.object other) =
      heap.contents (.object other) := by
  unfold extCreateRegion
  split
  · rfl
  · exact ((frame_addRects _ hrgn _).contents
      (by simp [buildTargets, differs])).trans (contents_createRegion_of_ne heap _ differs)

/-- Decoding the data of a well-formed region restores it: with a buffer of the required
size `GetRegionData` succeeds, and `ExtCreateRegion` builds a region with the same
rectangles and extents, which `EqualRgn` finds equal. -/
theorem extCreateRegion_getRegionData (heap : GdiHeap) (hrgn fresh : HRGN) (count : Nat)
    (live : heap.live hrgn = true) (unused : heap.live fresh = false)
    (wellFormed : (heap.contents (.object hrgn)).WellFormed)
    (adequate : (getRegionData heap hrgn 0 false).1 ≤ count) :
    ∃ rgndata, (getRegionData heap hrgn count true).2 = some rgndata ∧
      (extCreateRegion heap fresh rgndata).2 = some fresh ∧
      ((extCreateRegion heap fresh rgndata).1.contents (.object fresh)).rects =
        (heap.contents (.object hrgn)).rects ∧
      ((extCreateRegion heap fresh rgndata).1.contents (.object fresh)).extents =
        (heap.contents (.object hrgn)).extents ∧
      equalRgn (extCreateRegion heap fresh rgndata).1 fresh hrgn = true := by
  have differs : hrgn ≠ fresh := by
    rintro rfl
    simp [unused] at live
  have room : ¬ (count < (heap.region (.object hrgn)).numRects * sizeofRect +
      sizeofRgnDataHeader ∨ true = false) := by
    simp only [getRegionData, live, if_true, or_true, Bool.false_eq_true, if_false] at adequate
    simp only [Bool.true_eq_false, or_false, not_lt]
    exact adequate
  refine ⟨regionData (heap.region (.object hrgn)),
    by simp only [getRegionData, live, if_true, if_neg room], rfl, ?_⟩
  generalize dataEq : regionData (heap.region (.object hrgn)) = rgndata
  have isRects : rgndata.rdh.iType = rdhRectangles := by
    rw [← dataEq]
    rfl
  have buffer : rgndata.buffer.take rgndata.rdh.nCount = (heap.contents (.object hrgn)).rects := by
    rw [← dataEq]
    exact List.take_length
  have nonempty : ∀ rect ∈ rgndata.buffer.take rgndata.rdh.nCount, rect.Nonempty := by
    obtain ⟨bands, canonical, rects⟩ := wellFormed.bands
    rw [buffer, rects]
    exact inhabited_rectsOf canonical.toStacked
  have describes := describes_extCreateRegion heap fresh isRects nonempty
  have original := contents_extCreateRegion_of_ne heap rgndata differs
  have samePixels :
      ∀ x y, ((extCreateRegion heap fresh rgndata).1.contents (.object fresh)).Contains x y ↔
        (heap.contents (.object hrgn)).Contains x y := by
    intro _ _
    rw [describes.contains_iff, buffer, RegionContents.Contains]
  obtain ⟨sameRects, sameExtents⟩ := describes.wellFormed.unique wellFormed samePixels
  refine ⟨sameRects, sameExtents, ?_⟩
  have stillLive : (extCreateRegion heap fresh rgndata).1.live fresh = true ∧
      (extCreateRegion heap fresh rgndata).1.live hrgn = true := by
    rw [live_extCreateRegion heap fresh isRects]
    simp [differs, live]
  rw [equalRgn_eq_true_iff stillLive, original]
  exact ⟨sameRects, Or.inr sameExtents⟩

/-- A circle in handle 1, a square over a part of it in handle 2, and nothing in handle 3. -/
def circleHeap : GdiHeap :=
  createRectRgn (createRectRgn (createRoundRectRgn emptyHeap 1 0 0 4 4 4 4) 2 2 0 4 2) 3 0 0 0 0

/-- The three bands of the circle. -/
def circleBands : List (Band Int Int) :=
  [⟨0, 1, [⟨1, 3⟩]⟩, ⟨1, 3, [⟨0, 4⟩]⟩, ⟨3, 4, [⟨1, 3⟩]⟩]

theorem wellFormed_circle : (circleHeap.contents (.object 1)).WellFormed :=
  ⟨⟨circleBands, by decide, by decide +kernel⟩, by decide +kernel⟩

theorem wellFormed_square : (circleHeap.contents (.object 2)).WellFormed :=
  ⟨⟨[⟨0, 2, [⟨2, 4⟩]⟩], by decide, by decide +kernel⟩, by decide +kernel⟩

/-- The data of the circle occupy 80 bytes and are decoded into handle 4. -/
theorem extCreateRegion_getRegionData_circle :
    ∃ rgndata, (getRegionData circleHeap 1 80 true).2 = some rgndata ∧
      (extCreateRegion circleHeap 4 rgndata).2 = some 4 ∧
      equalRgn (extCreateRegion circleHeap 4 rgndata).1 4 1 = true := by
  obtain ⟨rgndata, written, created, -, -, equal⟩ :=
    extCreateRegion_getRegionData circleHeap 1 4 80 (by decide +kernel)
      (by decide +kernel) wellFormed_circle (by decide +kernel)
  exact ⟨rgndata, written, created, equal⟩

end Winex.Gdi
