import Winex.RegionBuild

namespace Winex.Gdi

open Banding List

/-!
# What single operations leave behind

Each region function stores new contents in one region object.  `Stores` says which, so
that sequences of operations can be followed without their heaps.
-/

/-- A step that leaves `contents` in one region object and the others alone. -/
structure Stores (hrgn : HRGN) (contents : RegionContents) (before after : GdiHeap) : Prop where
  here : after.contents (.object hrgn) = contents
  elsewhere :
    ∀ other, other ≠ hrgn → after.contents (.object other) = before.contents (.object other)

namespace Stores

variable {hrgn : HRGN} {contents : RegionContents} {before after : GdiHeap}

theorem of_frame {targets : List RgnPtr} (frame : Frame targets before after)
    (alone : ∀ other, RgnPtr.object other ∈ targets → other = hrgn)
    (here : after.contents (.object hrgn) = contents) : Stores hrgn contents before after :=
  ⟨here, fun other differs => frame.contents fun member => differs (alone other member)⟩

theorem set (heap : GdiHeap) (hrgn : HRGN) (region : WineRegion) :
    Stores hrgn region.toRegionContents heap (heap.set (.object hrgn) region) :=
  of_frame (Frame.set _ _ _) (by simp) (by simp [GdiHeap.contents])

theorem trans {earlier : RegionContents} {between : GdiHeap}
    (first : Stores hrgn earlier before between) (second : Stores hrgn contents between after) :
    Stores hrgn contents before after :=
  ⟨second.here, fun other differs =>
    (second.elsewhere other differs).trans (first.elsewhere other differs)⟩

theorem refl (heap : GdiHeap) (hrgn : HRGN) :
    Stores hrgn (heap.contents (.object hrgn)) heap heap :=
  ⟨rfl, fun _ _ => rfl⟩

end Stores

/-- The rectangle between two pairs of edges in any order. -/
def sortedRect (rect : Rect) : Rect :=
  ⟨(sortEdges rect.left rect.right).1, (sortEdges rect.top rect.bottom).1,
    (sortEdges rect.left rect.right).2, (sortEdges rect.top rect.bottom).2⟩

/-- The contents `SetRectRgn` stores. -/
def boxContents (rect : Rect) : RegionContents :=
  if rect.left ≠ rect.right ∧ rect.top ≠ rect.bottom then
    rectContents (sortedRect rect)
  else
    contentsOf []

theorem describes_boxContents (rect : Rect) :
    (boxContents rect).Describes (sortedRect rect).InRect := by
  unfold boxContents
  split
  next apart =>
    apply describes_rectContents
    simp only [Rect.Nonempty, sortedRect, sortEdges]
    grind
  next flat =>
    refine describes_contentsOf_nil.congr fun x y => ?_
    simp only [Rect.InRect, sortedRect, sortEdges]
    grind

variable {rect box : Rect} {rects : List Rect} {contents : RegionContents}

theorem boxContents_of_nonempty (nonempty : rect.Nonempty) :
    boxContents rect = rectContents rect := by
  obtain ⟨wide, tall⟩ := nonempty
  have sorted : sortedRect rect = rect := by
    simp [sortedRect, sortEdges, not_lt_of_gt wide, not_lt_of_gt tall]
  rw [boxContents, if_pos ⟨ne_of_lt wide, ne_of_lt tall⟩, sorted]

variable (heap : GdiHeap) {off : Point} (hrgn : HRGN)

theorem stores_createRegion (n : Nat) :
    Stores hrgn (contentsOf []) heap (createRegion heap hrgn n) :=
  ⟨contents_createRegion heap hrgn n,
    fun _ differs => contents_createRegion_of_ne heap n differs⟩

theorem stores_setRectRgn {heap : GdiHeap} {hrgn : HRGN} (live : heap.live hrgn = true)
    (rect : Rect) :
    Stores hrgn (boxContents rect) heap
      (setRectRgn heap hrgn rect.left rect.top rect.right rect.bottom).1 := by
  have edges : ((sortEdges rect.left rect.right).1 ≠ (sortEdges rect.left rect.right).2 ∧
        (sortEdges rect.top rect.bottom).1 ≠ (sortEdges rect.top rect.bottom).2) ↔
      rect.left ≠ rect.right ∧ rect.top ≠ rect.bottom := by
    simp only [sortEdges]
    grind
  unfold setRectRgn boxContents
  rw [if_pos live]
  dsimp only
  by_cases apart : rect.left ≠ rect.right ∧ rect.top ≠ rect.bottom
  · rw [if_pos (edges.mpr apart), if_pos apart]
    exact ⟨by simp [GdiHeap.contents, GdiHeap.set, rectContents, sortedRect],
      fun other differs => by simp [GdiHeap.contents, GdiHeap.set, differs]⟩
  · rw [if_neg (mt edges.mp apart), if_neg apart]
    exact Stores.set heap hrgn (emptyRegion (heap.region (.object hrgn)))

variable (left top right bottom : Int)

theorem live_setRectRgn :
    (setRectRgn heap hrgn left top right bottom).1.live = heap.live := by
  unfold setRectRgn
  split
  · dsimp only
    split <;> rfl
  · rfl

theorem live_createRectRgn :
    (createRectRgn heap hrgn left top right bottom).live = Function.update heap.live hrgn true :=
  live_setRectRgn _ _ _ _ _ _

theorem stores_createRectRgn (rect : Rect) :
    Stores hrgn (boxContents rect) heap
      (createRectRgn heap hrgn rect.left rect.top rect.right rect.bottom) := by
  refine (stores_createRegion heap hrgn rgnDefaultRects).trans ?_
  exact stores_setRectRgn (by simp [createRegion]) rect

/-- `CombineRgn` on live handles, under any aliasing. -/
theorem stores_combineRgn {heap : GdiHeap} {hDest hSrc1 hSrc2 : HRGN} {mode : RgnMode}
    (live : heap.live hDest ∧ heap.live hSrc1 ∧ (mode = .rgnCopy ∨ heap.live hSrc2)) :
    Stores hDest
      (if mode = .rgnOr ∧ hSrc1 = hSrc2 then
        heap.contents (.object hSrc2)
      else
        combineContents mode (heap.contents (.object hSrc1)) (heap.contents (.object hSrc2)))
      heap (combineRgn heap hDest hSrc1 hSrc2 mode).1 := by
  unfold combineRgn
  rw [if_pos live]
  refine Stores.of_frame (frame_combineRegions _ _ _ _ mode) ?_
    (contents_combineRegions _ _ _ _ mode)
  simp [combineTargets]

theorem live_combineRgn (hDest hSrc1 hSrc2 : HRGN) (mode : RgnMode) :
    (combineRgn heap hDest hSrc1 hSrc2 mode).1.live = heap.live := by
  unfold combineRgn
  split
  · exact (frame_combineRegions heap hDest hSrc1 hSrc2 mode).live
  · rfl

/-- Move a rectangle without overflow. -/
def shiftRect (off : Point) (rect : Rect) : Rect :=
  ⟨rect.left + off.x, rect.top + off.y, rect.right + off.x, rect.bottom + off.y⟩

/-- The value fits into an `INT`. -/
def FitsInt (value : Int) : Prop :=
  -2 ^ 31 ≤ value ∧ value < 2 ^ 31

instance (value : Int) : Decidable (FitsInt value) :=
  inferInstanceAs (Decidable (_ ∧ _))

/-- Moving the rectangle overflows nowhere. -/
def Fits (off : Point) (rect : Rect) : Prop :=
  FitsInt (rect.left + off.x) ∧ FitsInt (rect.top + off.y) ∧
    FitsInt (rect.right + off.x) ∧ FitsInt (rect.bottom + off.y)

instance (off : Point) (rect : Rect) : Decidable (Fits off rect) :=
  inferInstanceAs (Decidable (_ ∧ _ ∧ _ ∧ _))

theorem wrapInt_of_fits {value : Int} (fits : FitsInt value) : wrapInt value = value := by
  unfold wrapInt FitsInt at *
  exact Int.bmod_eq_of_le (by omega) (by omega)

theorem offsetRect_of_fits (fits : Fits off rect) :
    offsetRect rect off.x off.y = shiftRect off rect := by
  obtain ⟨_, _, _, _⟩ := fits
  simp [offsetRect, shiftRect, wrapInt_of_fits, *]

/-- What `OffsetRgn` makes of a region if nothing overflows. -/
def shiftContents (off : Point) (contents : RegionContents) : RegionContents :=
  if contents.rects = [] then
    contents
  else
    { contents with
      rects := contents.rects.map (shiftRect off)
      extents := shiftRect off contents.extents }

/-- The contents `OffsetRgn` stores. -/
def offsetContents (off : Point) (contents : RegionContents) : RegionContents :=
  if (off.x ≠ 0 ∨ off.y ≠ 0) ∧ contents.numRects ≠ 0 then
    { contents with
      rects := contents.rects.map fun rect => offsetRect rect off.x off.y
      extents := offsetRect contents.extents off.x off.y }
  else
    contents

theorem stores_offsetRgn {heap : GdiHeap} {hrgn : HRGN} (live : heap.live hrgn = true)
    (off : Point) :
    Stores hrgn (offsetContents off (heap.contents (.object hrgn))) heap
      (offsetRgn heap hrgn off.x off.y).1 := by
  rw [offsetRgn, if_pos live]
  by_cases moves : (off.x ≠ 0 ∨ off.y ≠ 0) ∧ (heap.contents (.object hrgn)).numRects ≠ 0
  · have moved : (off.x ≠ 0 ∨ off.y ≠ 0) ∧ (heap.region (.object hrgn)).numRects ≠ 0 := moves
    simp only [if_pos moved, offsetContents, if_pos moves]
    exact Stores.of_frame (Frame.set _ _ _) (by simp) (by simp [GdiHeap.contents])
  · have stays : ¬ ((off.x ≠ 0 ∨ off.y ≠ 0) ∧ (heap.region (.object hrgn)).numRects ≠ 0) := moves
    simp only [if_neg stays, offsetContents, if_neg moves]
    exact Stores.refl _ _

theorem live_offsetRgn (x y : Int) : (offsetRgn heap hrgn x y).1.live = heap.live := by
  unfold offsetRgn
  split
  · dsimp only
    split <;> rfl
  · rfl

@[simp] theorem shiftRect_zero (rect : Rect) : shiftRect ⟨0, 0⟩ rect = rect := by
  simp [shiftRect]

theorem shiftContents_zero (contents : RegionContents) :
    shiftContents ⟨0, 0⟩ contents = contents := by
  unfold shiftContents
  split
  · rfl
  · have same : shiftRect ⟨0, 0⟩ = id := funext shiftRect_zero
    simp [same]

/-- The box moves without overflow if the rectangles do. -/
theorem TightBox.fits (tight : TightBox rects box) (nonempty : rects ≠ [])
    (fits : ∀ rect ∈ rects, Fits off rect) : Fits off box := by
  obtain ⟨leftRect, leftMember, left⟩ := tight.leftReached nonempty
  obtain ⟨topRect, topMember, top⟩ := tight.topReached nonempty
  obtain ⟨rightRect, rightMember, right⟩ := tight.rightReached nonempty
  obtain ⟨bottomRect, bottomMember, bottom⟩ := tight.bottomReached nonempty
  exact ⟨left ▸ (fits leftRect leftMember).1,
    top ▸ (fits topRect topMember).2.1,
    right ▸ (fits rightRect rightMember).2.2.1,
    bottom ▸ (fits bottomRect bottomMember).2.2.2⟩

/-- Without overflow `OffsetRgn` moves every rectangle and the extents. -/
theorem offsetContents_of_fits (tight : TightBox contents.rects contents.extents)
    (fits : ∀ rect ∈ contents.rects, Fits off rect) :
    offsetContents off contents = shiftContents off contents := by
  by_cases still : off = ⟨0, 0⟩
  · subst still
    rw [shiftContents_zero]
    simp [offsetContents]
  have moves : off.x ≠ 0 ∨ off.y ≠ 0 := by
    obtain ⟨x, y⟩ := off
    simpa [imp_iff_not_or] using still
  unfold offsetContents shiftContents
  by_cases empty : contents.rects = []
  · simp [empty, RegionContents.numRects]
  have sameRects : contents.rects.map (fun rect => offsetRect rect off.x off.y) =
      contents.rects.map (shiftRect off) :=
    map_congr_left fun rect member => offsetRect_of_fits (fits rect member)
  simp [moves, empty, RegionContents.numRects, sameRects,
    offsetRect_of_fits (tight.fits empty fits)]

/-- A region inside another one moves without overflow if that one does. -/
theorem RegionContents.Banded.fits_of_subset {inner outer : RegionContents}
    (innerBanded : inner.Banded) (outerBanded : outer.Banded)
    (subset : ∀ x y, inner.Contains x y → outer.Contains x y)
    (fits : ∀ rect ∈ outer.rects, Fits off rect) : ∀ rect ∈ inner.rects, Fits off rect := by
  intro rect member
  obtain ⟨bands, stacked, rects⟩ := innerBanded.bands
  have corners := (inhabited_rectsOf stacked).corners (rects ▸ member)
  rw [← rects] at corners
  have firstPixel := subset _ _ corners.1
  have lastPixel := subset _ _ corners.2
  obtain ⟨_, otherMember, -⟩ := id firstPixel
  have boxFits := outerBanded.extents.fits (ne_nil_of_mem otherMember) fits
  have firstInside := outerBanded.inRect_extents firstPixel
  have lastInside := outerBanded.inRect_extents lastPixel
  simp only [Rect.InRect] at firstInside lastInside
  simp only [Fits, FitsInt] at boxFits ⊢
  omega

variable (off : Point)

theorem shiftRect_injective : Function.Injective (shiftRect off) := by
  rintro ⟨_, _, _, _⟩ ⟨_, _, _, _⟩ same
  simpa [shiftRect] using same

theorem rects_shiftContents (contents : RegionContents) :
    (shiftContents off contents).rects = contents.rects.map (shiftRect off) := by
  unfold shiftContents
  split
  next empty => simp [empty]
  · rfl

/-- Moving by a given offset loses nothing. -/
theorem shiftContents_injective : Function.Injective (shiftContents off) := by
  intro first second same
  have sameRects : first.rects = second.rects := by
    have moved := congrArg RegionContents.rects same
    rw [rects_shiftContents, rects_shiftContents] at moved
    exact map_injective_iff.mpr (shiftRect_injective off) moved
  unfold shiftContents at same
  rw [← sameRects] at same
  split at same
  · exact same
  · cases first
    simp_all [(shiftRect_injective off).eq_iff]

theorem rectsOf_map_shift (bands : List (Band Int Int)) :
    rectsOf (bands.map (Band.map (· + off.x) (· + off.y))) =
      (rectsOf bands).map (shiftRect off) := by
  induction bands with
  | nil => rfl
  | cons _ _ ih =>
    rw [map_cons, rectsOf_cons, ih]
    simp [stripRects, Band.map, Span.map, spanRect, shiftRect, Function.comp_def]

theorem TightBox.shift (tight : TightBox rects box) (nonempty : rects ≠ []) (off : Point) :
    TightBox (rects.map (shiftRect off)) (shiftRect off box) := by
  refine ⟨?_, ?_, ?_, ?_, ?_, ?_⟩
  · intro _ member
    obtain ⟨original, originalMember, rfl⟩ := mem_map.mp member
    have := tight.encloses original originalMember
    dsimp only [shiftRect]
    omega
  · simpa [shiftRect] using fun _ => tight.leftReached nonempty
  · simpa [shiftRect] using fun _ => tight.topReached nonempty
  · simpa [shiftRect] using fun _ => tight.rightReached nonempty
  · simpa [shiftRect] using fun _ => tight.bottomReached nonempty
  · intro empty
    exact absurd (map_eq_nil_iff.mp empty) nonempty

theorem RegionContents.WellFormed.shift (wellFormed : contents.WellFormed) (off : Point) :
    (shiftContents off contents).WellFormed := by
  unfold shiftContents
  split
  · exact wellFormed
  rename_i nonempty
  obtain ⟨bands, canonical, rects⟩ := wellFormed.bands
  refine ⟨⟨bands.map (Band.map (· + off.x) (· + off.y)), ?_, ?_⟩,
    wellFormed.extents.shift nonempty off⟩
  · exact canonical.map (fun _ _ less => Int.add_lt_add_right less _)
      (fun _ _ less => Int.add_lt_add_right less _)
  · rw [rectsOf_map_shift, ← rects]

end Winex.Gdi
