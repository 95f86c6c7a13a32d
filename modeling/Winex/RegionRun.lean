import Winex.CropRgn
import Winex.CombineRgn
import Winex.PolygonCanonical

namespace Winex.Gdi

open Banding List Function

/-!
# Runs of region functions

As long as every API call meets its condition, all regions stay well-formed and no array
is overrun.  The conditions exclude what the functions do not handle: empty rectangles
given to `ExtCreateRegion`, frames of negative width, polygons whose scanlines are not
merged, crops that make bands agree, and writes past the end of an array.
-/

/-- A call of a region function; new objects get the handle given. -/
inductive RegionCall where
  | createRectRgn (hrgn : HRGN) (rect : Rect)
  | setRectRgn (hrgn : HRGN) (rect : Rect)
  | offsetRgn (hrgn : HRGN) (off : Point)
  | extCreateRegion (hrgn : HRGN) (rgndata : RgnData)
  | createPolyPolygonRgn (hrgn : HRGN) (polygons : List (List Point)) (mode : PolyFillMode)
  | cropRgn (hDst : Option HRGN) (hSrc : HRGN) (lpRect : Option Rect) (lpPt : Option Point)
      (fresh : HRGN)
  | frameRgn (hDest hSrc : HRGN) (x y : Int)
  | combineRgn (hDest hSrc1 hSrc2 : HRGN) (mode : RgnMode)

/-- The heap after a call, or `none` where the call does not return. -/
def RegionCall.run (call : RegionCall) (heap : GdiHeap) : Option GdiHeap :=
  match call with
  | .createRectRgn hrgn rect =>
    some (Gdi.createRectRgn heap hrgn rect.left rect.top rect.right rect.bottom)
  | .setRectRgn hrgn rect =>
    some (Gdi.setRectRgn heap hrgn rect.left rect.top rect.right rect.bottom).1
  | .offsetRgn hrgn off => some (Gdi.offsetRgn heap hrgn off.x off.y).1
  | .extCreateRegion hrgn rgndata => some (Gdi.extCreateRegion heap hrgn rgndata).1
  | .createPolyPolygonRgn hrgn polygons mode =>
    some (Gdi.createPolyPolygonRgn heap hrgn polygons.flatten (polygons.map List.length) mode)
  | .cropRgn hDst hSrc lpRect lpPt fresh =>
    (Gdi.cropRgn heap hDst hSrc lpRect lpPt fresh).map Prod.fst
  | .frameRgn hDest hSrc x y => (Gdi.frameRgn heap hDest hSrc x y).map Prod.fst
  | .combineRgn hDest hSrc1 hSrc2 mode => some (Gdi.combineRgn heap hDest hSrc1 hSrc2 mode).1

/-- Crops that stay canonical, for a proper clip those of `CropSafe`. -/
def CropKeeps (off : Point) (lpRect : Option Rect) (source : RegionContents) : Prop :=
  match lpRect with
  | none => source.numRects = 0 → off = ⟨0, 0⟩
  | some rect =>
    rect.Nonempty →
    ExtentCheck rect source.extents →
    source.numRects ≠ 0 ∧ RowsKept rect source

/-- A rectangle widened by `REGION_FrameRgn`. -/
def frameRect (x y : Int) (rect : Rect) : Rect :=
  ⟨wrapInt (rect.left - x), wrapInt (rect.top - y),
    wrapInt (rect.right + x), wrapInt (rect.bottom + y)⟩

/-- The condition under which a call keeps all regions well-formed. -/
def RegionCall.Safe (call : RegionCall) (heap : GdiHeap) : Prop :=
  match call with
  | .createRectRgn _ _ => True
  | .setRectRgn hrgn rect =>
    -- The rectangle needs a place in the array.
    heap.live hrgn = true →
    rect.left ≠ rect.right ∧ rect.top ≠ rect.bottom →
    0 < (heap.region (.object hrgn)).size
  | .offsetRgn hrgn off =>
    heap.live hrgn = true →
    ∀ rect ∈ (heap.contents (.object hrgn)).rects, Fits off rect
  | .extCreateRegion _ rgndata => ∀ rect ∈ rgndata.buffer.take rgndata.rdh.nCount, rect.Nonempty
  | .createPolyPolygonRgn _ polygons mode =>
    IsRectangle polygons.flatten (polygons.map List.length) ∨
      (∀ polygon ∈ polygons, 2 ≤ polygon.length) ∧
        PolygonsFit polygons ∧ PolySafe mode (polygonEdges polygons)
  | .cropRgn hDst hSrc lpRect lpPt _ =>
    heap.live hSrc = true →
    (∀ handle ∈ hDst, heap.live handle = true) →
    CropFits (lpPt.getD ⟨0, 0⟩) lpRect (heap.contents (.object hSrc)) ∧
      CropKeeps (lpPt.getD ⟨0, 0⟩) lpRect (heap.contents (.object hSrc))
  | .frameRgn hDest hSrc x y =>
    heap.live hSrc = true →
    (heap.contents (.object hSrc)).numRects ≠ 0 →
    heap.live hDest = true ∧
      (hSrc ≠ hDest → ∀ rect ∈ (heap.contents (.object hSrc)).rects, (frameRect x y rect).Nonempty)
  | .combineRgn hDest hSrc1 hSrc2 mode =>
    -- Intersecting a region with itself in place overruns its array.
    ¬ (mode = .rgnAnd ∧ hSrc1 = hDest ∧ hSrc2 = hDest ∧
      (heap.contents (.object hDest)).numRects ≠ 0)

/-- All regions are well-formed, and no array was overrun. -/
structure GdiHeap.Sound (heap : GdiHeap) : Prop where
  wellFormed : ∀ hrgn, heap.live hrgn = true → (heap.contents (.object hrgn)).WellFormed
  inBounds : heap.inBounds = true

theorem GdiHeap.Sound.step {before after : GdiHeap} (sound : before.Sound) {hrgn : HRGN}
    {contents : RegionContents} (stores : Stores hrgn contents before after)
    (wellFormed : contents.WellFormed)
    (live : ∀ other, other ≠ hrgn → after.live other = before.live other)
    (inBounds : after.inBounds = before.inBounds) : after.Sound := by
  refine ⟨fun other otherLive => ?_, inBounds.trans sound.inBounds⟩
  by_cases here : other = hrgn
  · subst here
    rw [stores.here]
    exact wellFormed
  · rw [stores.elsewhere other here]
    exact sound.wellFormed other (live other here ▸ otherLive)

/-- The destination of a frame, emptied and filled with the widened source. -/
def widenedHeap (heap : GdiHeap) (hDest hSrc : HRGN) (x y : Int) : GdiHeap :=
  let emptied := heap.set (.object hDest) (emptyRegion (heap.region (.object hDest)))
  addRects emptied hDest ((emptied.region (.object hSrc)).rects.map (frameRect x y))

variable {heap : GdiHeap}

theorem frameRgn_eq_combineRgn {hDest hSrc : HRGN} (srcLive : heap.live hSrc = true)
    (destLive : heap.live hDest = true) (occupied : (heap.contents (.object hSrc)).numRects ≠ 0)
    (x y : Int) :
    frameRgn heap hDest hSrc x y =
      some ((combineRgn (widenedHeap heap hDest hSrc x y) hDest hDest hSrc .rgnDiff).1, true) := by
  have notEmpty : (heap.region (.object hSrc)).numRects ≠ 0 := occupied
  have live : (widenedHeap heap hDest hSrc x y).live = heap.live := (frame_addRects _ _ _).live
  rw [combineRgn, live, if_pos ⟨destLive, destLive, Or.inr srcLive⟩,
    frameRgn, if_pos srcLive, if_pos notEmpty, if_pos destLive]
  simp only [combineRegions, widenedHeap, addRects, foldl_map]
  rfl

section Steps

variable {heap : GdiHeap} (sound : heap.Sound)

variable {hrgn hSrc : HRGN}

variable {rect : Rect} (room : heap.live hrgn = true →
  rect.left ≠ rect.right ∧ rect.top ≠ rect.bottom → 0 < (heap.region (.object hrgn)).size)

include room in
theorem inBounds_setRectRgn :
    (Gdi.setRectRgn heap hrgn rect.left rect.top rect.right
      rect.bottom).1.inBounds = heap.inBounds := by
  unfold Gdi.setRectRgn
  split
  next live =>
    dsimp only
    split
    next apart =>
      have edges : rect.left ≠ rect.right ∧ rect.top ≠ rect.bottom := by
        simp only [sortEdges] at apart
        grind
      simp [room live edges]
    · rfl
  · rfl

include sound

include room in
theorem sound_setRectRgn :
    (Gdi.setRectRgn heap hrgn rect.left rect.top rect.right rect.bottom).1.Sound := by
  by_cases live : heap.live hrgn = true
  · refine sound.step (stores_setRectRgn live rect)
      (describes_boxContents rect).wellFormed ?_ (inBounds_setRectRgn room)
    intro _ _
    rw [live_setRectRgn]
  · rwa [Gdi.setRectRgn, if_neg live]

theorem sound_createRectRgn (hrgn : HRGN) (rect : Rect) :
    (Gdi.createRectRgn heap hrgn rect.left rect.top rect.right rect.bottom).Sound := by
  refine sound.step (stores_createRectRgn heap hrgn rect)
    (describes_boxContents rect).wellFormed ?_ ?_
  · intro _ differs
    rw [live_createRectRgn, update_of_ne differs]
  · refine (inBounds_setRectRgn fun _ _ => ?_).trans rfl
    simp [createRegion, allocWineRegion, rgnDefaultRects]

variable {off : Point} {lpRect : Option Rect} {hDest : HRGN}

theorem sound_offsetRgn
    (fits : heap.live hrgn = true → ∀ rect ∈ (heap.contents (.object hrgn)).rects, Fits off rect) :
    (Gdi.offsetRgn heap hrgn off.x off.y).1.Sound := by
  by_cases live : heap.live hrgn = true
  · have wellFormed := sound.wellFormed hrgn live
    have stores := stores_offsetRgn live off
    rw [offsetContents_of_fits wellFormed.extents (fits live)] at stores
    refine sound.step stores (wellFormed.shift off) ?_ ?_
    · intro _ _
      rw [live_offsetRgn]
    · unfold Gdi.offsetRgn
      rw [if_pos live]
      dsimp only
      split <;> rfl
  · rwa [Gdi.offsetRgn, if_neg live]

theorem sound_extCreateRegion {rgndata : RgnData}
    (nonempty : ∀ rect ∈ rgndata.buffer.take rgndata.rdh.nCount, rect.Nonempty) :
    (Gdi.extCreateRegion heap hrgn rgndata).1.Sound := by
  by_cases isRects : rgndata.rdh.iType = rdhRectangles
  · have described := describes_extCreateRegion heap hrgn isRects nonempty
    refine sound.step ⟨rfl, fun other differs => ?_⟩ described.wellFormed ?_ ?_
    · exact contents_extCreateRegion_of_ne heap rgndata differs
    · intro _ differs
      rw [live_extCreateRegion heap hrgn isRects, update_of_ne differs]
    · unfold Gdi.extCreateRegion
      rw [if_neg (by simp [isRects])]
      exact inBounds_addRects _ _ _
  · rwa [Gdi.extCreateRegion, if_pos isRects]

theorem sound_createPolyPolygonRgn (hrgn : HRGN) {polygons : List (List Point)}
    {mode : PolyFillMode}
    (safe : IsRectangle polygons.flatten (polygons.map List.length) ∨
      (∀ polygon ∈ polygons, 2 ≤ polygon.length) ∧
        PolygonsFit polygons ∧ PolySafe mode (polygonEdges polygons)) :
    (Gdi.createPolyPolygonRgn heap hrgn polygons.flatten
      (polygons.map List.length) mode).Sound := by
  have stores :=
    stores_createPolyPolygonRgn heap hrgn polygons.flatten (polygons.map List.length) mode
  refine sound.step stores ?_ ?_ ?_
  · split
    · exact (describes_boxContents _).wellFormed
    next notRectangle =>
      obtain ⟨vertices, fits, polySafe⟩ := safe.resolve_left notRectangle
      exact (scanned_scanConvert vertices fits mode).wellFormed
        (polySafe.perm (stepEdges_loopSteps_perm vertices))
  · intro _ differs
    unfold Gdi.createPolyPolygonRgn
    split
    · rw [live_setRectRgn]
      exact update_of_ne differs _ _
    · exact update_of_ne differs _ _
  · unfold Gdi.createPolyPolygonRgn
    split
    next rectangle =>
      have oneCount : (polygons.map List.length).length = 1 := by
        rcases rectangle.1 with four | ⟨five, -⟩
        · rw [four]
          rfl
        · rw [five]
          rfl
      refine (@inBounds_setRectRgn _ _ ⟨_, _, _, _⟩ fun _ _ => ?_).trans rfl
      simp [createRegion, allocWineRegion, oneCount]
    · rfl

theorem exists_cropContents (live : heap.live hSrc = true)
    (fits : CropFits off lpRect (heap.contents (.object hSrc)))
    (keeps : CropKeeps off lpRect (heap.contents (.object hSrc))) :
    ∃ contents, cropContents off lpRect (heap.contents (.object hSrc)) = some contents ∧
      contents.WellFormed := by
  have wellFormed := sound.wellFormed hSrc live
  generalize heap.contents (.object hSrc) = source at *
  cases lpRect with
  | none =>
    have cropped := (cropContents_none_iff wellFormed.extents fits.rects fits.extents).mpr keeps
    refine ⟨_, cropped, ?_⟩
    rw [offsetContents_of_fits wellFormed.extents fits.rects]
    exact wellFormed.shift off
  | some rect =>
    by_cases nonempty : rect.Nonempty
    · have safe : CropSafe off (some rect) source := by
        rw [CropSafe, if_pos nonempty]
        exact keeps nonempty
      have cropped := (cropContents_some_iff wellFormed fits).mpr safe
      refine ⟨_, cropped, ?_⟩
      rw [offsetContents_clipGeneric wellFormed fits]
      exact (describes_intersectContents wellFormed.describes
        (describes_boxContents rect)).wellFormed.shift off
    · have degenerate :
          rect.left ≥ rect.right ∨ rect.top ≥ rect.bottom ∨ ¬ ExtentCheck rect source.extents := by
        unfold Rect.Nonempty at nonempty
        omega
      exact ⟨contentsOf [], if_pos degenerate, describes_contentsOf_nil.wellFormed⟩

theorem sound_cropRgn {hDst : Option HRGN} {lpPt : Option Point} (fresh : HRGN)
    (safe : (RegionCall.cropRgn hDst hSrc lpRect lpPt fresh).Safe heap) :
    ∃ after,
      (RegionCall.cropRgn hDst hSrc lpRect lpPt fresh).run heap = some after ∧ after.Sound := by
  dsimp only [RegionCall.run]
  by_cases srcLive : heap.live hSrc = true
  · by_cases dstLive : ∀ handle ∈ hDst, heap.live handle = true
    · obtain ⟨fits, keeps⟩ := safe srcLive dstLive
      obtain ⟨contents, cropped, wellFormed⟩ := exists_cropContents sound srcLive fits keeps
      obtain ⟨after, returned, stored⟩ := cropRgn_eq lpRect lpPt fresh srcLive dstLive
      obtain ⟨stores, inBounds, live⟩ := stored contents
      refine ⟨after contents, by rw [returned, cropped]; rfl,
        sound.step stores wellFormed (fun other differs => ?_) inBounds⟩
      rw [live, update_of_ne differs]
    · cases hDst with
      | none => simp at dstLive
      | some handle =>
        have dead : ¬ heap.live handle = true := by simpa using dstLive
        exact ⟨heap, by simp [Gdi.cropRgn, srcLive, dead], sound⟩
  · exact ⟨heap, by simp [Gdi.cropRgn, srcLive], sound⟩

theorem sound_combineRgn {hSrc1 hSrc2 : HRGN} {mode : RgnMode}
    (safe : (RegionCall.combineRgn hDest hSrc1 hSrc2 mode).Safe heap) :
    (Gdi.combineRgn heap hDest hSrc1 hSrc2 mode).1.Sound := by
  by_cases live : heap.live hDest ∧ heap.live hSrc1 ∧ (mode = .rgnCopy ∨ heap.live hSrc2)
  · have first := sound.wellFormed hSrc1 live.2.1
    refine sound.step (stores_combineRgn live) ?_ ?_ ?_
    · split
      next same =>
        rw [← same.2]
        exact first
      · rcases live.2.2 with rfl | second
        · exact first
        · exact (describes_combineContents mode first (sound.wellFormed hSrc2 second)).wellFormed
    · intro _ _
      rw [live_combineRgn]
    · have banded := (sound.wellFormed hDest live.1).banded
      rw [Gdi.combineRgn, if_pos live]
      by_cases inPlace : mode.Sweeps ∧ hSrc1 = hDest ∧ hSrc2 = hDest
      · obtain ⟨isSweep, rfl, rfl⟩ := inPlace
        rw [sound.inBounds]
        rcases isSweep with rfl | rfl
        · refine (inBounds_intersect_inPlace heap _ banded).mpr ⟨sound.inBounds, ?_⟩
          by_contra occupied
          exact safe ⟨rfl, rfl, rfl, occupied⟩
        · exact (inBounds_subtract_inPlace heap _ banded).mpr sound.inBounds
      · exact inBounds_combineRegions heap hDest hSrc1 hSrc2 mode inPlace
  · rwa [Gdi.combineRgn, if_neg live]

theorem sound_addRects (live : heap.live hrgn = true) {rects : List Rect}
    (nonempty : ∀ rect ∈ rects, rect.Nonempty) : (addRects heap hrgn rects).Sound := by
  have frame := frame_addRects heap hrgn rects
  have described := describes_addRects (sound.wellFormed hrgn live).describes nonempty
  refine sound.step (Stores.of_frame frame (by simp [buildTargets]) rfl)
    described.wellFormed ?_ (inBounds_addRects heap hrgn rects)
  intro _ _
  rw [frame.live]

/-- The frame is what the widened rectangles add to the source. -/
theorem sound_frameRgn {x y : Int} (safe : (RegionCall.frameRgn hDest hSrc x y).Safe heap) :
    ∃ after, (RegionCall.frameRgn hDest hSrc x y).run heap = some after ∧ after.Sound := by
  dsimp only [RegionCall.run]
  by_cases srcLive : heap.live hSrc = true
  · by_cases occupied : (heap.contents (.object hSrc)).numRects ≠ 0
    · obtain ⟨destLive, nonempty⟩ := safe srcLive occupied
      have emptied : (heap.set (.object hDest) (emptyRegion (heap.region (.object hDest)))).Sound :=
        sound.step (Stores.set heap hDest _)
          describes_contentsOf_nil.wellFormed (fun _ _ => rfl) rfl
      have widened : (widenedHeap heap hDest hSrc x y).Sound := by
        refine sound_addRects emptied destLive fun rect member => ?_
        obtain ⟨original, originalMember, rfl⟩ := mem_map.mp member
        by_cases inPlace : hSrc = hDest
        · subst inPlace
          simp [emptyRegion] at originalMember
        · rw [GdiHeap.region_set_of_ne _ _ (by simpa using inPlace)] at originalMember
          exact nonempty inPlace original originalMember
      refine ⟨_, by rw [frameRgn_eq_combineRgn srcLive destLive occupied]; rfl, ?_⟩
      exact sound_combineRgn widened (by simp [RegionCall.Safe])
    · have empty : ¬ (heap.region (.object hSrc)).numRects ≠ 0 := occupied
      exact ⟨heap, by simp [Gdi.frameRgn, srcLive, empty], sound⟩
  · exact ⟨heap, by simp [Gdi.frameRgn, srcLive], sound⟩

end Steps

theorem RegionCall.exists_sound (sound : heap.Sound) {call : RegionCall} (safe : call.Safe heap) :
    ∃ after, call.run heap = some after ∧ after.Sound := by
  cases call with
  | createRectRgn hrgn rect => exact ⟨_, rfl, sound_createRectRgn sound hrgn rect⟩
  | setRectRgn => exact ⟨_, rfl, sound_setRectRgn sound safe⟩
  | offsetRgn => exact ⟨_, rfl, sound_offsetRgn sound safe⟩
  | extCreateRegion => exact ⟨_, rfl, sound_extCreateRegion sound safe⟩
  | createPolyPolygonRgn hrgn =>
    exact ⟨_, rfl, sound_createPolyPolygonRgn sound hrgn safe⟩
  | cropRgn _ _ _ _ fresh => exact sound_cropRgn sound fresh safe
  | frameRgn => exact sound_frameRgn sound safe
  | combineRgn => exact ⟨_, rfl, sound_combineRgn sound safe⟩

/-- The heaps reached by calls that are allowed where they are made. -/
inductive Reached (allowed : RegionCall → GdiHeap → Prop) : GdiHeap → Prop where
  | start : Reached allowed emptyHeap
  | call {before after : GdiHeap} (call : RegionCall) : Reached allowed before →
      allowed call before → call.run before = some after → Reached allowed after

theorem Reached.sound (reached : Reached RegionCall.Safe heap) : heap.Sound := by
  induction reached with
  | start => exact ⟨fun hrgn live => by simp [emptyHeap] at live, rfl⟩
  | call _ _ safe returned ih =>
    obtain ⟨_, same, _⟩ := RegionCall.exists_sound ih safe
    rw [returned, Option.some.injEq] at same
    rwa [same]

/-- In every state of a run of safe calls all regions are well-formed and no array has been
overrun, `EqualRgn` decides equality of pixels, and the next safe call returns. -/
theorem reached_regions_canonical {heap : GdiHeap} (reached : Reached RegionCall.Safe heap) :
    (∀ hrgn, heap.live hrgn = true →
      (heap.contents (.object hrgn)).WellFormed) ∧
      heap.inBounds = true ∧
      (∀ hrgn1 hrgn2, heap.live hrgn1 = true →
        heap.live hrgn2 = true →
        (equalRgn heap hrgn1 hrgn2 = true ↔
          ∀ x y, (heap.contents (.object hrgn1)).Contains x y ↔
            (heap.contents (.object hrgn2)).Contains x y)) ∧
      ∀ call : RegionCall, call.Safe heap → ∃ after, call.run heap = some after := by
  have sound := reached.sound
  refine ⟨sound.wellFormed, sound.inBounds, ?_, ?_⟩
  · intro hrgn1 hrgn2 live1 live2
    exact equalRgn_iff_same_pixels ⟨live1, live2⟩
      (sound.wellFormed hrgn1 live1) (sound.wellFormed hrgn2 live2)
  · intro _ safe
    obtain ⟨after, returned, -⟩ := RegionCall.exists_sound sound safe
    exact ⟨after, returned⟩

/-! ## Hit tests -/

/-- `PtInRegion` -/
def ptInRegion (heap : GdiHeap) (hrgn : HRGN) (x y : Int) : Bool :=
  let region := heap.contents (.object hrgn)
  heap.live hrgn && decide (region.numRects > 0 ∧ region.extents.InRect x y) &&
    region.rects.any fun rect => rect.InRect x y

/-- The loop of `RectInRegion`, which ends at the first rectangle too far down. -/
def meetsRects (rect : Rect) : List Rect → Bool
  | [] => false
  | cur :: rest =>
    if cur.bottom ≤ rect.top then meetsRects rect rest
    else if cur.top ≥ rect.bottom then false
    else if cur.right ≤ rect.left then meetsRects rect rest
    else if cur.left ≥ rect.right then meetsRects rect rest
    else true

/-- `RectInRegion` -/
def rectInRegion (heap : GdiHeap) (hrgn : HRGN) (rect : Rect) : Bool :=
  let region := heap.contents (.object hrgn)
  heap.live hrgn && decide (region.numRects > 0 ∧ ExtentCheck region.extents rect) &&
    meetsRects rect region.rects

/-- Behind a rectangle that is too far down the others are as well. -/
theorem meetsRects_iff {bands : List (Band Int Int)} (stacked : Stacked bands) (rect : Rect) :
    meetsRects rect (rectsOf bands) = true ↔ ∃ cur ∈ rectsOf bands, ExtentCheck cur rect := by
  have sorted : (rectsOf bands).Pairwise fun upper lower => upper.top ≤ lower.top := by
    refine pairwise_flatMap.mpr ⟨fun band _ => ?_, ?_⟩
    · exact pairwise_map.mpr (pairwise_of_forall fun _ _ => le_rfl)
    · refine stacked.ordered.imp_of_mem fun {upper lower} isUpper _ below => ?_
      have tall := (stacked.valid upper isUpper).tall
      simp only [stripRects, spanRect, forall_mem_map]
      exact fun _ _ _ _ => by omega
  generalize rectsOf bands = rects at sorted ⊢
  induction rects with
  | nil => simp [meetsRects]
  | cons cur rest ih =>
    obtain ⟨below, sorted⟩ := pairwise_cons.mp sorted
    specialize ih sorted
    simp only [meetsRects, ExtentCheck, mem_cons, exists_eq_or_imp] at ih ⊢
    grind

/-- In every state of a run of safe calls the tests tell what the pixels are. -/
theorem reached_regions_hit {heap : GdiHeap} (reached : Reached RegionCall.Safe heap)
    {hrgn : HRGN} (live : heap.live hrgn = true) :
    (∀ x y, ptInRegion heap hrgn x y = true ↔ (heap.contents (.object hrgn)).Contains x y) ∧
      ∀ rect : Rect, rect.Nonempty → (rectInRegion heap hrgn rect = true ↔
        ∃ x y, (heap.contents (.object hrgn)).Contains x y ∧ rect.InRect x y) := by
  have banded := (reached.sound.wellFormed hrgn live).banded
  have guards : ∀ {x y}, (heap.contents (.object hrgn)).Contains x y →
      (heap.contents (.object hrgn)).numRects > 0 ∧
        (heap.contents (.object hrgn)).extents.InRect x y := by
    refine fun contains => ⟨Nat.pos_of_ne_zero fun empty => ?_, banded.inRect_extents contains⟩
    exact banded.numRects_eq_zero.mp empty _ _ contains
  obtain ⟨bands, stacked, rects⟩ := banded.bands
  refine ⟨fun x y => ?_, fun rect nonempty => ?_⟩
  · simp only [ptInRegion, live, Bool.and_eq_true, decide_eq_true_iff, any_eq_true, true_and]
    exact ⟨fun both => both.2, fun contains => ⟨guards contains, contains⟩⟩
  · simp only [rectInRegion, live, Bool.and_eq_true, decide_eq_true_iff, true_and, rects,
      meetsRects_iff stacked]
    constructor
    · rintro ⟨-, cur, member, meets⟩
      have := inhabited_rectsOf stacked cur member
      -- the upper left pixel that the two rectangles share
      refine ⟨max cur.left rect.left, max cur.top rect.top, ⟨cur, rects ▸ member, ?_⟩, ?_⟩
      all_goals
        simp only [Rect.InRect, ExtentCheck, Rect.Nonempty] at *
        omega
    · rintro ⟨x, y, contains, inRect⟩
      obtain ⟨more, inBox⟩ := guards contains
      obtain ⟨cur, member, inCur⟩ := contains
      simp only [ExtentCheck, Rect.InRect] at *
      exact ⟨⟨more, by omega⟩, cur, rects ▸ member, by omega⟩

/-- A triangle below its diagonal. -/
def triangle : List (List Point) :=
  [[⟨0, 0⟩, ⟨4, 4⟩, ⟨0, 4⟩]]

theorem filled_triangle (x y : Int) :
    Filled .alternate (polygonEdges triangle) x y ↔ (0 ≤ y ∧ y < 4) ∧ 0 ≤ x ∧ x < y := by
  rw [show polygonEdges triangle = [⟨⟨0, 0⟩, ⟨4, 4⟩, true, by decide⟩,
    ⟨⟨0, 0⟩, ⟨0, 4⟩, false, by decide⟩] by decide, filled_opposite (by decide)]
  simp only [Edge.CrossesBefore, Edge.Active, Edge.abscissa]
  norm_num
  omega

theorem polySafe_triangle : PolySafe .alternate (polygonEdges triangle) := by
  refine ⟨fun x y before here => ?_, fun y someFilled agree => ?_⟩
  · rw [filled_triangle] at before here
    intro _ member
    rcases mem_pair.mp member with rfl | rfl
    · simp only [Edge.CrossesAt, Edge.CrossesFrom, Edge.abscissa]
      norm_num
      omega
    simp only [Edge.CrossesAt, Edge.CrossesFrom, Edge.abscissa]
    norm_num
    norm_cast
    omega
  · obtain ⟨_, filled⟩ := someFilled
    have lastPixel := agree (y - 1)
    rw [filled_triangle, filled_triangle] at lastPixel
    rw [filled_triangle] at filled
    omega

/-- A square united with the triangle in handle 2. -/
def triangleHeap : GdiHeap :=
  (combineRgn
    (createPolyPolygonRgn (createRectRgn emptyHeap 1 0 0 2 2) 2
      triangle.flatten (triangle.map List.length) .alternate)
    1 1 2 .rgnOr).1

theorem reached_triangle : Reached RegionCall.Safe triangleHeap := by
  have square : Reached RegionCall.Safe (createRectRgn emptyHeap 1 0 0 2 2) :=
    .call (.createRectRgn 1 ⟨0, 0, 2, 2⟩) .start trivial rfl
  have both :=
    Reached.call (.createPolyPolygonRgn 2 triangle .alternate) square
      (.inr ⟨by decide, ⟨by decide, by decide, by decide⟩, polySafe_triangle⟩) rfl
  exact .call (.combineRgn 1 1 2 .rgnOr) both (by simp [RegionCall.Safe]) rfl

/-- The united region is well-formed and differs from the triangle. -/
theorem reached_regions_canonical_triangle :
    (triangleHeap.contents (.object 1)).WellFormed ∧
      (equalRgn triangleHeap 1 2 = true ↔
        ∀ x y, (triangleHeap.contents (.object 1)).Contains x y ↔
          (triangleHeap.contents (.object 2)).Contains x y) :=
  ⟨(reached_regions_canonical reached_triangle).1 1 (by decide +kernel),
    (reached_regions_canonical reached_triangle).2.2.1 1 2 (by decide +kernel) (by decide +kernel)⟩

/-- The rectangle meets the triangle at its lowest row only. -/
theorem reached_regions_hit_triangle :
    rectInRegion triangleHeap 2 ⟨2, 3, 9, 9⟩ = true ↔
      ∃ x y, (triangleHeap.contents (.object 2)).Contains x y ∧ Rect.InRect ⟨2, 3, 9, 9⟩ x y :=
  (reached_regions_hit reached_triangle (by decide +kernel)).2 _ (by decide)

/-- The data of one rectangle without a pixel. -/
def emptyRectData : RgnData :=
  ⟨⟨32, rdhRectangles, 1, 16, ⟨0, 0, 0, 0⟩⟩, [⟨0, 0, 0, 0⟩]⟩

/-- A square with a vertex in the middle of one side. -/
def splitSquare : List (List Point) :=
  [[⟨0, 0⟩, ⟨2, 0⟩, ⟨2, 1⟩, ⟨2, 2⟩, ⟨0, 2⟩]]

/--
The empty rectangle in handle 1 and an empty region in handle 2, the square in
handle 3 as a polygon and in handle 4 as a rectangle.
-/
def noncanonicalHeap : GdiHeap :=
  createRectRgn
    (createPolyPolygonRgn
      (createRectRgn (extCreateRegion emptyHeap 1 emptyRectData).1 2 0 0 0 0)
      3 splitSquare.flatten (splitSquare.map List.length) .alternate)
    4 0 0 2 2

/--
A run reaches two regions without a pixel, and two regions with the pixels of
one square, that `EqualRgn` tells apart.
-/
theorem equalRgn_splits_same_pixels :
    Reached (fun _ _ => True) noncanonicalHeap ∧
      equalRgn noncanonicalHeap 1 2 = false ∧
      (∀ x y, (noncanonicalHeap.contents (.object 1)).Contains x y ↔
        (noncanonicalHeap.contents (.object 2)).Contains x y) ∧
      equalRgn noncanonicalHeap 3 4 = false ∧
      ∀ x y, (noncanonicalHeap.contents (.object 3)).Contains x y ↔
        (noncanonicalHeap.contents (.object 4)).Contains x y := by
  have rects1 : (noncanonicalHeap.contents (.object 1)).rects = [⟨0, 0, 0, 0⟩] := by decide +kernel
  have rects2 : (noncanonicalHeap.contents (.object 2)).rects = [] := by decide +kernel
  have rects3 : (noncanonicalHeap.contents (.object 3)).rects = [⟨0, 0, 2, 1⟩, ⟨0, 1, 2, 2⟩] := by
    decide +kernel
  have rects4 : (noncanonicalHeap.contents (.object 4)).rects = [⟨0, 0, 2, 2⟩] := by decide +kernel
  have data : Reached (fun _ _ => True) (extCreateRegion emptyHeap 1 _).1 :=
    .call (.extCreateRegion 1 emptyRectData) .start trivial rfl
  have empty := Reached.call (.createRectRgn 2 ⟨0, 0, 0, 0⟩) data trivial rfl
  have polygon := Reached.call (.createPolyPolygonRgn 3 splitSquare .alternate) empty trivial rfl
  refine ⟨.call (.createRectRgn 4 ⟨0, 0, 2, 2⟩) polygon trivial rfl,
    by decide +kernel, ?_, by decide +kernel, ?_⟩
  · intro _ _
    simp only [RegionContents.Contains, rects1, rects2, InRects, Rect.InRect]
    simp
  · intro _ _
    simp only [RegionContents.Contains, rects3, rects4, InRects, Rect.InRect]
    simp
    omega

end Winex.Gdi
