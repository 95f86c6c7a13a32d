import Winex.CropRefinement

namespace Winex.Gdi

open Banding Option

/-!
# Cropping against the generic code

`REGION_CropRgn` documents itself as an optimisation of `CombineRgn` with the clip
rectangle followed by `OffsetRgn`.  The two agree exactly for the arguments described by
`CropSafe`: the pass does not merge bands that become equal, scans a region without
rectangles past its end, treats a clip rectangle with exchanged edges as empty, and
moves the extents of an empty region.
-/

/-- The contents `REGION_CropAndOffsetRegion` stores. -/
def cropContents (off : Point) (rect : Option Rect) (source : RegionContents) :
    Option RegionContents :=
  match rect with
  | none =>
    if off.x ≠ 0 ∨ off.y ≠ 0 then
      some
        { source with
          rects := source.rects.map fun lpr => offsetRect lpr off.x off.y
          extents := offsetRect source.extents off.x off.y }
    else
      some source
  | some rect =>
    if rect.left ≥ rect.right ∨ rect.top ≥ rect.bottom ∨
        ¬ ExtentCheck rect source.extents then
      some (contentsOf [])
    else
      (clippedBands rect source.rects).map (clipContents off rect source.extents)

/-- `REGION_CropAndOffsetRegion` writes to its destination only. -/
theorem cropAndOffsetRegion_eq (off : Point) (rect : Option Rect) (heap : GdiHeap)
    (rgnSrc rgnDst : RgnPtr) (rectsNull : Bool) :
    ∃ size, cropAndOffsetRegion off rect heap rgnSrc rgnDst rectsNull =
      (cropContents off rect (heap.contents rgnSrc)).map fun contents =>
          heap.set rgnDst ⟨contents, size⟩ := by
  cases rect with
  | none =>
    refine ⟨(heap.region rgnSrc).size, ?_⟩
    unfold cropAndOffsetRegion cropContents
    dsimp only
    split <;> rfl
  | some rect =>
    by_cases misses :
        rect.left ≥ rect.right ∨ rect.top ≥ rect.bottom ∨
          ¬ ExtentCheck rect (heap.contents rgnSrc).extents
    · refine ⟨if rectsNull then rgnDefaultRects else (heap.region rgnDst).size, ?_⟩
      rw [cropContents, if_pos misses]
      exact if_pos misses
    · simp only [cropContents, if_neg misses]
      have cropped : cropAndOffsetRegion off (some rect) heap rgnSrc rgnDst rectsNull =
          _ :=
        if_neg misses
      rw [cropped]
      change ∃ size, (clippedBands rect (heap.contents rgnSrc).rects).map _ = _
      cases clippedBands rect (heap.contents rgnSrc).rects with
      | none => exact ⟨0, rfl⟩
      | some => exact ⟨_, rfl⟩

/-- The contents of a region clipped by the generic code. -/
def clipGeneric (lpRect : Option Rect) (source : RegionContents) : RegionContents :=
  match lpRect with
  | none => source
  | some rect => intersectContents source (boxContents rect)

variable {heap : GdiHeap}

theorem contents_combineClip {dest hSrc clip : HRGN} (lpRect : Option Rect)
    (live : heap.live dest = true ∧ heap.live hSrc = true ∧ heap.live clip = true)
    (isBox : ∀ rect ∈ lpRect, heap.contents (.object clip) = boxContents rect) :
    (combineClip heap dest hSrc clip lpRect).live = heap.live ∧
      (combineClip heap dest hSrc clip lpRect).contents (.object dest) =
        clipGeneric lpRect (heap.contents (.object hSrc)) := by
  cases lpRect with
  | none =>
    refine ⟨live_combineRgn _ _ _ _ _, ?_⟩
    exact (stores_combineRgn ⟨live.1, live.2.1, Or.inl rfl⟩).here
  | some rect =>
    refine ⟨live_combineRgn _ _ _ _ _, ?_⟩
    rw [clipGeneric, ← isBox rect rfl]
    exact (stores_combineRgn ⟨live.1, live.2.1, Or.inr live.2.2⟩).here

theorem contents_offsetBy {hrgn : HRGN} (live : heap.live hrgn = true) (lpPt : Option Point) :
    (offsetBy heap hrgn lpPt).contents (.object hrgn) =
      offsetContents (lpPt.getD ⟨0, 0⟩) (heap.contents (.object hrgn)) := by
  cases lpPt with
  | none => simp [offsetBy, offsetContents]
  | some pt => exact (stores_offsetRgn live pt).here

section Crop

variable {heap : GdiHeap} {hDst : Option HRGN} {hSrc : HRGN} (lpRect : Option Rect)
  (lpPt : Option Point) (fresh : HRGN) (srcLive : heap.live hSrc = true)
  (dstLive : ∀ handle ∈ hDst, heap.live handle = true)

include srcLive dstLive

/-- `REGION_CropRgn` either scans past the end or stores the crop. -/
theorem cropRgn_eq :
    ∃ after : RegionContents → GdiHeap, cropRgn heap hDst hSrc lpRect lpPt fresh =
        (cropContents (lpPt.getD ⟨0, 0⟩) lpRect (heap.contents (.object hSrc))).map
          (fun contents => (after contents, some (hDst.getD fresh))) ∧
      ∀ contents, Stores (hDst.getD fresh) contents heap (after contents) ∧
        (after contents).inBounds = heap.inBounds ∧
        (after contents).live = Function.update heap.live (hDst.getD fresh) true := by
  unfold cropRgn
  rw [if_pos srcLive]
  cases hDst with
  | none =>
    obtain ⟨size, stored⟩ :=
      cropAndOffsetRegion_eq (lpPt.getD ⟨0, 0⟩) lpRect heap (.object hSrc) (.object fresh) true
    refine ⟨fun contents =>
      { heap.set (.object fresh) ⟨contents, size⟩ with
        live := Function.update heap.live fresh true }, ?_, ?_⟩
    · rw [stored, map_map]
      rfl
    · intro contents
      have stores := Stores.set heap fresh ⟨contents, size⟩
      exact ⟨⟨stores.here, stores.elsewhere⟩, rfl, rfl⟩
  | some handle =>
    have live := dstLive handle rfl
    obtain ⟨size, stored⟩ :=
      cropAndOffsetRegion_eq (lpPt.getD ⟨0, 0⟩) lpRect heap (.object hSrc) (.object handle) false
    refine ⟨fun contents => heap.set (.object handle) ⟨contents, size⟩, ?_, ?_⟩
    · dsimp only
      rw [if_pos live, stored, map_map]
      rfl
    · intro contents
      refine ⟨Stores.set heap handle ⟨contents, size⟩, rfl, ?_⟩
      rw [getD_some, ← live, Function.update_eq_self]
      rfl

/-- The generic code combines with the clip and moves the result. -/
theorem contents_cropRgnGeneric (unused : heap.live fresh = false) :
    (cropRgnGeneric heap hDst hSrc lpRect lpPt fresh).1.contents (.object (hDst.getD fresh)) =
      offsetContents (lpPt.getD ⟨0, 0⟩) (clipGeneric lpRect (heap.contents (.object hSrc))) := by
  have differs : hSrc ≠ fresh := by
    rintro rfl
    simp [srcLive] at unused
  obtain ⟨clip, isClip⟩ : ∃ clip, lpRect.getD ⟨0, 0, 0, 0⟩ = clip := ⟨_, rfl⟩
  have boxed := stores_createRectRgn heap fresh clip
  have boxedLive := live_createRectRgn heap fresh clip.left clip.top clip.right clip.bottom
  have stripLive : (cropRgnGeneric heap hDst hSrc lpRect lpPt fresh).1.region =
      (offsetBy
        (combineClip (createRectRgn heap fresh clip.left clip.top clip.right clip.bottom)
          (hDst.getD fresh) hSrc fresh lpRect)
        (hDst.getD fresh) lpPt).region := by
    unfold cropRgnGeneric
    rw [isClip]
    dsimp only
    split <;> rfl
  rw [GdiHeap.contents, stripLive, ← GdiHeap.contents]
  generalize createRectRgn heap fresh clip.left clip.top clip.right clip.bottom = box at *
  have live : box.live (hDst.getD fresh) = true ∧ box.live hSrc = true ∧ box.live fresh = true := by
    rw [boxedLive]
    refine ⟨?_, by simp [differs, srcLive], by simp⟩
    cases hDst with
    | none => simp
    | some handle =>
      by_cases same : handle = fresh <;> simp [same, Function.update_of_ne, dstLive handle rfl]
  obtain ⟨sameLive, combined⟩ :=
    contents_combineClip lpRect live fun rect given => by
      rw [boxed.here, ← isClip, mem_def.mp given, getD_some]
  rw [contents_offsetBy (sameLive ▸ live.1), combined, boxed.elsewhere hSrc differs]

end Crop

/-- Nothing the crop computes overflows. -/
structure CropFits (off : Point) (lpRect : Option Rect) (source : RegionContents) : Prop where
  rects : ∀ lpr ∈ source.rects, Fits off lpr
  extents : Fits off source.extents
  clip : ∀ rect ∈ lpRect, Fits off rect

/--
Neighbouring rows that agree inside the clip, and have a pixel there, agree
altogether.
-/
def RowsKept (rect : Rect) (source : RegionContents) : Prop :=
  ∀ y, rect.top < y →
    y < rect.bottom →
    (∃ x, (rect.left ≤ x ∧ x < rect.right) ∧ source.Contains x y) →
    (∀ x, rect.left ≤ x ∧ x < rect.right → (source.Contains x (y - 1) ↔ source.Contains x y)) →
    ∀ x, source.Contains x (y - 1) ↔ source.Contains x y

/-- The arguments for which cropping agrees with the generic code. -/
def CropSafe (off : Point) (lpRect : Option Rect) (source : RegionContents) : Prop :=
  match lpRect with
  | none => source.numRects = 0 → off = ⟨0, 0⟩
  | some rect =>
    if rect.Nonempty then
      ExtentCheck rect source.extents → source.numRects ≠ 0 ∧ RowsKept rect source
    else
      ∀ x y, (sortedRect rect).InRect x y → ¬ source.Contains x y

theorem intersectContents_eq_contentsOf (first second : RegionContents) :
    intersectContents first second = contentsOf (intersectContents first second).rects := by
  unfold intersectContents
  split <;> rfl

theorem clip_passes {rect extents : Rect} (nonempty : rect.Nonempty)
    (meets : ExtentCheck rect extents) :
    ¬ (rect.left ≥ rect.right ∨ rect.top ≥ rect.bottom ∨ ¬ ExtentCheck rect extents) := by
  rw [not_or, not_or, not_not]
  exact ⟨not_le.mpr nonempty.1, not_le.mpr nonempty.2, meets⟩

section Safe

variable {off : Point} {source : RegionContents} (wellFormed : source.WellFormed)

include wellFormed

variable {bands : List (Band Int Int)}

/--
Inside a proper clip the pass leaves the generic result if and only if the
clipped bands need no merging.
-/
theorem contentsOf_clipBands_iff (canonical : Canonical bands)
    (rects : source.rects = rectsOf bands) {rect : Rect} (nonempty : rect.Nonempty) :
    contentsOf (rectsOf (clipBands rect.left rect.right rect.top rect.bottom bands)) =
        intersectContents source (boxContents rect) ↔
      RowsKept rect source := by
  have contains : ∀ x y, source.Contains x y ↔ InBands bands x y := by
    intro _ _
    rw [RegionContents.Contains, rects, inRects_rectsOf]
  have generic := describes_intersectContents wellFormed.describes (describes_rectContents nonempty)
  rw [← boxContents_of_nonempty nonempty] at generic
  have clipStacked := stacked_clipBands nonempty.1 nonempty.2 canonical.toStacked
  have rowsKept : RowsKept rect source ↔
      Coalesced (clipBands rect.left rect.right rect.top rect.bottom bands) := by
    rw [canonical.coalesced_clipBands_iff nonempty.1 nonempty.2]
    simp only [RowsKept, RowsAgree, contains]
  rw [rowsKept]
  constructor
  · intro same
    obtain ⟨_, othersCanonical, othersRects⟩ := generic.wellFormed.bands
    rw [← same] at othersRects
    rw [Stacked.rectsOf_injective clipStacked othersCanonical.toStacked othersRects]
    exact othersCanonical.coalesced
  · intro coalesced
    have clipped := wellFormed_contentsOf ⟨clipStacked, coalesced⟩
    rw [intersectContents_eq_contentsOf]
    refine congrArg contentsOf (clipped.unique generic.wellFormed fun x y => ?_).1
    rw [generic.contains_iff, contains, RegionContents.Contains]
    refine (inRects_rectsOf _ x y).trans ?_
    rw [inBands_clipBands, and_comm, Rect.InRect]
    exact and_congr_right fun _ => by omega

/-- A clip without a pixel of its own empties the region. -/
theorem intersectContents_eq_nil_iff (rect : Rect) :
    intersectContents source (boxContents rect) = contentsOf [] ↔
      ∀ x y, (sortedRect rect).InRect x y → ¬ source.Contains x y := by
  have generic := describes_intersectContents wellFormed.describes (describes_boxContents rect)
  have empty : intersectContents source (boxContents rect) = contentsOf [] ↔
      (intersectContents source (boxContents rect)).numRects = 0 := by
    rw [RegionContents.numRects, List.length_eq_zero_iff]
    constructor
    · intro same
      rw [same, contentsOf]
    · intro noRects
      rw [intersectContents_eq_contentsOf, noRects]
  rw [empty, generic.wellFormed.banded.numRects_eq_zero]
  simp only [generic.contains_iff]
  exact forall₂_congr fun x y => by tauto

omit wellFormed in
/-- Without a clip only the extents of an empty region come out wrong. -/
theorem cropContents_none_iff (tight : TightBox source.rects source.extents)
    (rectsFit : ∀ lpr ∈ source.rects, Fits off lpr) (extentsFit : Fits off source.extents) :
    cropContents off none source = some (offsetContents off source) ↔ CropSafe off none source := by
  have stored : cropContents off none source =
      some
        { source with
            rects := source.rects.map (shiftRect off)
            extents := shiftRect off source.extents } := by
    rw [cropContents]
    split
    · rw [List.map_congr_left fun lpr member =>
        offsetRect_of_fits (rectsFit lpr member),
        offsetRect_of_fits extentsFit]
    rename_i still
    obtain ⟨x, y⟩ := off
    obtain ⟨rfl, rfl⟩ : x = 0 ∧ y = 0 := by simpa using still
    have same : shiftRect ⟨0, 0⟩ = id := funext shiftRect_zero
    simp [same]
  rw [stored, offsetContents_of_fits tight rectsFit, Option.some.injEq, CropSafe,
    RegionContents.numRects, List.length_eq_zero_iff, shiftContents]
  split
  next empty =>
    have box := tight.whenEmpty empty
    obtain ⟨_, _⟩ := off
    cases source
    simp_all [shiftRect, emptyExtents]
  next nonempty => simp [nonempty]

variable {rect : Rect} (fits : CropFits off (some rect) source)

include fits

theorem offsetContents_clipGeneric :
    offsetContents off (clipGeneric (some rect) source) =
      shiftContents off (intersectContents source (boxContents rect)) := by
  have generic := describes_intersectContents wellFormed.describes (describes_boxContents rect)
  refine offsetContents_of_fits generic.wellFormed.extents ?_
  refine generic.wellFormed.banded.fits_of_subset wellFormed.banded
    (fun x y contains => ?_) fits.rects
  exact ((generic.contains_iff x y).mp contains).1

theorem cropContents_of_meets (canonical : Canonical bands) (rects : source.rects = rectsOf bands)
    (nonempty : rect.Nonempty) (meets : ExtentCheck rect source.extents)
    (occupied : source.rects ≠ []) :
    cropContents off (some rect) source =
      some
        (shiftContents off
          (contentsOf (rectsOf (clipBands rect.left rect.right rect.top rect.bottom bands)))) := by
  obtain ⟨_, found, kept, cut⟩ :=
    crop_banded canonical.toStacked rects wellFormed.extents nonempty meets occupied
  rw [cropContents, if_neg (clip_passes nonempty meets), found,
    map_some, clipContents_of_fits (fits.clip rect rfl) fits.extents
      fun lpr member => fits.rects lpr (kept lpr member), cut]

theorem cropContents_some_iff :
    cropContents off (some rect) source =
        some (offsetContents off (clipGeneric (some rect) source)) ↔
      CropSafe off (some rect) source := by
  have shiftNil : shiftContents off (contentsOf []) = contentsOf [] := by
    simp [shiftContents, contentsOf]
  rw [offsetContents_clipGeneric wellFormed fits, CropSafe]
  by_cases nonempty : rect.Nonempty
  · rw [if_pos nonempty]
    by_cases meets : ExtentCheck rect source.extents
    · by_cases empty : source.rects = []
      · rw [cropContents, if_neg (clip_passes nonempty meets)]
        simp [clippedBands, skipBands, meets, RegionContents.numRects, empty]
      obtain ⟨bands, canonical, rects⟩ := wellFormed.bands
      have occupied : source.numRects ≠ 0 := by simpa [RegionContents.numRects] using empty
      rw [cropContents_of_meets wellFormed fits canonical rects nonempty
          meets empty, Option.some.injEq,
        (shiftContents_injective off).eq_iff,
        contentsOf_clipBands_iff wellFormed canonical rects nonempty]
      simp [meets, occupied]
    · have reject : TrivialReject source (boxContents rect) := by
        rw [boxContents_of_nonempty nonempty]
        exact .inr (.inr fun overlap => meets overlap.symm)
      rw [cropContents, intersectContents, if_pos reject, shiftNil]
      simp [meets]
  · rw [if_neg nonempty]
    have degenerate :
        rect.left ≥ rect.right ∨ rect.top ≥ rect.bottom ∨ ¬ ExtentCheck rect source.extents := by
      unfold Rect.Nonempty at nonempty
      omega
    rw [cropContents, if_pos degenerate, ← shiftNil, Option.some.injEq,
      (shiftContents_injective off).eq_iff, eq_comm, intersectContents_eq_nil_iff wellFormed]

end Safe

/-- `REGION_CropRgn`, in place or not, leaves the rectangles, extents and type that the
generic code leaves, exactly when the arguments are safe. -/
theorem cropRgn_eq_generic_iff (heap : GdiHeap) (hDst : Option HRGN) (hSrc fresh : HRGN)
    (lpRect : Option Rect) (lpPt : Option Point) (srcLive : heap.live hSrc = true)
    (dstLive : ∀ handle ∈ hDst, heap.live handle = true) (unused : heap.live fresh = false)
    (wellFormed : (heap.contents (.object hSrc)).WellFormed)
    (fits : CropFits (lpPt.getD ⟨0, 0⟩) lpRect (heap.contents (.object hSrc))) :
    (∃ cropped, cropRgn heap hDst hSrc lpRect lpPt fresh =
          some (cropped, some (cropRgnGeneric heap hDst hSrc lpRect lpPt fresh).2) ∧
        cropped.contents (.object (cropRgnGeneric heap hDst hSrc lpRect lpPt fresh).2) =
          (cropRgnGeneric heap hDst hSrc lpRect lpPt fresh).1.contents
            (.object (cropRgnGeneric heap hDst hSrc lpRect lpPt fresh).2)) ↔
      CropSafe (lpPt.getD ⟨0, 0⟩) lpRect (heap.contents (.object hSrc)) := by
  have safe : cropContents (lpPt.getD ⟨0, 0⟩) lpRect (heap.contents (.object hSrc)) =
        some
          (offsetContents (lpPt.getD ⟨0, 0⟩) (clipGeneric lpRect (heap.contents (.object hSrc)))) ↔
      CropSafe (lpPt.getD ⟨0, 0⟩) lpRect (heap.contents (.object hSrc)) := by
    cases lpRect with
    | none => exact cropContents_none_iff wellFormed.extents fits.rects fits.extents
    | some => exact cropContents_some_iff wellFormed fits
  have sameHandle : (cropRgnGeneric heap hDst hSrc lpRect lpPt fresh).2 = hDst.getD fresh := rfl
  obtain ⟨_, cropped, stores⟩ := cropRgn_eq lpRect lpPt fresh srcLive dstLive
  rw [← safe, sameHandle, cropped, contents_cropRgnGeneric lpRect lpPt fresh srcLive dstLive unused]
  constructor
  · rintro ⟨_, computed, same⟩
    obtain ⟨contents, stored, isResult⟩ := map_eq_some_iff.mp computed
    rw [Prod.mk.injEq] at isResult
    rw [stored, ← same, ← isResult.1, (stores contents).1.here]
  · intro stored
    rw [stored]
    exact ⟨_, rfl, (stores _).1.here⟩

/-- One pixel, and two pixels below it, in handle 1, and handle 2. -/
def stepHeap : GdiHeap :=
  (combineRgn (createRectRgn (createRectRgn emptyHeap 1 0 0 1 1) 2 0 1 2 2) 1 1 2 .rgnOr).1

theorem wellFormed_step : (stepHeap.contents (.object 1)).WellFormed :=
  ⟨⟨[⟨0, 1, [⟨0, 1⟩]⟩, ⟨1, 2, [⟨0, 2⟩]⟩], by decide, by decide +kernel⟩, by decide +kernel⟩

/-- The lower row of the step moved in place by (3, 4). -/
theorem cropRgn_eq_generic_step :
    ∃ cropped, cropRgn stepHeap (some 1) 1 (some ⟨0, 1, 2, 2⟩) (some ⟨3, 4⟩) 3 =
        some (cropped, some 1) ∧
      cropped.contents (.object 1) =
        (cropRgnGeneric stepHeap (some 1) 1 (some ⟨0, 1, 2, 2⟩) (some ⟨3, 4⟩) 3).1.contents
          (.object 1) :=
  (cropRgn_eq_generic_iff stepHeap (some 1) 1 3 (some ⟨0, 1, 2, 2⟩) (some ⟨3, 4⟩)
    (by decide +kernel) (by decide +kernel) (by decide +kernel) wellFormed_step
    ⟨by decide +kernel, by decide +kernel, by decide +kernel⟩).mpr
    fun _ => ⟨by decide +kernel, fun y (_ : 1 < y) (_ : y < 2) => by omega⟩

/--
Cut to its left column the step keeps its two bands in the crop, where the
generic code merges them.
-/
theorem cropRgn_keeps_equal_bands :
    (stepHeap.contents (.object 1)).WellFormed ∧
      CropFits ⟨0, 0⟩ (some ⟨0, 0, 1, 2⟩) (stepHeap.contents (.object 1)) ∧
      ((cropRgn stepHeap (some 2) 1 (some ⟨0, 0, 1, 2⟩) none 3).map
          fun result => (result.1.contents (.object 2)).rects) =
        some [⟨0, 0, 1, 1⟩, ⟨0, 1, 1, 2⟩] ∧
      ((cropRgnGeneric stepHeap (some 2) 1 (some ⟨0, 0, 1, 2⟩) none
          3).1.contents (.object 2)).rects =
        [⟨0, 0, 1, 2⟩] :=
  ⟨wellFormed_step,
    ⟨by decide +kernel, by decide +kernel, by decide +kernel⟩,
    by decide +kernel, by decide +kernel⟩

end Winex.Gdi
