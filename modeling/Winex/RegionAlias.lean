import Winex.RegionCapacity

namespace Winex.Gdi

/-!
# Region operations without pointers

What a region operation leaves in its destination is a function of what its sources
describe, through any aliasing of their pointers.  The one exception is
`REGION_UnionRegion`, which compares its source pointers.
-/

/-- The rectangles `REGION_RegionOp` computes. -/
def sweepRects (funcs : RegionFuncs) (first second : RegionContents) : List Rect :=
  (regionSweep funcs ⟨[], 0, true⟩ 0 first.rects second.rects
    (if first.extents.top < second.extents.top then first.extents.top
      else second.extents.top)).rects

/-- The contents with these rectangles and recomputed extents and type. -/
def contentsOf (rects : List Rect) : RegionContents :=
  ⟨typeOfCount rects.length, extentsOf rects, rects⟩

variable (first second : RegionContents)

/-- The contents of an intersection. -/
def intersectContents : RegionContents :=
  if TrivialReject first second then
    contentsOf []
  else
    contentsOf (sweepRects intersectFuncs first second)

/-- The contents of a union of two different region records. -/
def unionContents : RegionContents :=
  if first.numRects = 0 then second
  else if second.numRects = 0 then first
  else if Subsumes first second then first
  else if Subsumes second first then second
  else
    { contentsOf (sweepRects unionFuncs first second) with
      extents := uniteExtents first.extents second.extents }

/-- The contents of a difference. -/
def subtractContents : RegionContents :=
  if TrivialReject first second then
    first
  else
    contentsOf (sweepRects subtractFuncs first second)

/-- The contents of a symmetric difference. -/
def xorContents : RegionContents :=
  unionContents (subtractContents first second) (subtractContents second first)

/-- The contents `CombineRgn` leaves in a destination of its own. -/
def combineContents (mode : RgnMode) (first second : RegionContents) : RegionContents :=
  match mode with
  | .rgnAnd => intersectContents first second
  | .rgnOr => unionContents first second
  | .rgnXor => xorContents first second
  | .rgnDiff => subtractContents first second
  | .rgnCopy => first

variable (heap : GdiHeap)

variable (ptr : RgnPtr)

variable (region : WineRegion)

@[simp] theorem GdiHeap.region_set :
    (heap.set ptr region).region ptr = region := by
  simp [GdiHeap.set]

theorem GdiHeap.region_set_of_ne {ptr other : RgnPtr} (region : WineRegion)
    (differs : other ≠ ptr) : (heap.set ptr region).region other = heap.region other := by
  simp [GdiHeap.set, differs]

@[simp] theorem GdiHeap.live_set :
    (heap.set ptr region).live = heap.live :=
  rfl

@[simp] theorem GdiHeap.inBounds_set :
    (heap.set ptr region).inBounds = heap.inBounds :=
  rfl

/-- An operation that overwrites the records in `targets` only. -/
structure Frame (targets : List RgnPtr) (before after : GdiHeap) : Prop where
  live : after.live = before.live
  region : ∀ ptr ∉ targets, after.region ptr = before.region ptr

namespace Frame

theorem refl (targets : List RgnPtr) (heap : GdiHeap) : Frame targets heap heap :=
  ⟨rfl, fun _ _ => rfl⟩

variable {targets : List RgnPtr}

theorem trans {first second third : GdiHeap} (firstFrame : Frame targets first second)
    (secondFrame : Frame targets second third) : Frame targets first third :=
  ⟨secondFrame.live.trans firstFrame.live,
    fun ptr outside => (secondFrame.region ptr outside).trans (firstFrame.region ptr outside)⟩

theorem set (heap : GdiHeap) (ptr : RgnPtr) (region : WineRegion) :
    Frame [ptr] heap (heap.set ptr region) :=
  ⟨rfl, fun _ outside =>
    heap.region_set_of_ne region fun same => outside (List.mem_singleton.mpr same)⟩

variable {after before : GdiHeap}

theorem contents (frame : Frame targets before after) {ptr : RgnPtr} (outside : ptr ∉ targets) :
    after.contents ptr = before.contents ptr := by
  rw [GdiHeap.contents, frame.region ptr outside, GdiHeap.contents]

theorem mono {more : List RgnPtr} (frame : Frame targets before after) (subset : targets ⊆ more) :
    Frame more before after :=
  ⟨frame.live, fun ptr outside => frame.region ptr fun member => outside (subset member)⟩

end Frame

variable (heap : GdiHeap) (dst src : RgnPtr)

/-- `REGION_CopyRegion` copies the contents, also onto themselves. -/
theorem contents_copyRegion : (copyRegion heap dst src).contents dst = heap.contents src := by
  unfold copyRegion
  split
  · simp [GdiHeap.contents]
  next same => rw [not_not.mp same]

theorem frame_copyRegion : Frame [dst] heap (copyRegion heap dst src) := by
  unfold copyRegion
  split
  · exact Frame.set _ _ _
  · exact Frame.refl _ _

theorem inBounds_copyRegion : (copyRegion heap dst src).inBounds = heap.inBounds := by
  unfold copyRegion
  split <;> rfl

theorem ite_copyRegion :
    (if dst ≠ src then copyRegion heap dst src else heap) = copyRegion heap dst src := by
  unfold copyRegion
  split <;> rfl

theorem extents_set_rects (newReg ptr : RgnPtr) (rects : List Rect) :
    ((heap.set newReg { heap.region newReg with rects := rects }).region ptr).extents =
      (heap.region ptr).extents := by
  by_cases same : ptr = newReg
  · subst same
    simp
  · rw [heap.region_set_of_ne _ same]

@[simp] theorem rects_shrinkArray (array : RectArray) :
    (shrinkArray array).rects = array.rects := by
  unfold shrinkArray
  split <;> rfl

@[simp] theorem inBounds_shrinkArray (array : RectArray) :
    (shrinkArray array).inBounds = array.inBounds := by
  unfold shrinkArray
  split <;> rfl

section RegionOp

variable (funcs : RegionFuncs) (heap : GdiHeap) (newReg reg1 reg2 : RgnPtr)

/-- `REGION_RegionOp` replaces the rectangles and nothing else. -/
theorem contents_regionOp (rectsOnly : funcs.RectsOnly) :
    (regionOp funcs heap newReg reg1 reg2).contents newReg =
      { heap.contents newReg with
        rects := sweepRects funcs (heap.contents reg1) (heap.contents reg2) } := by
  unfold regionOp GdiHeap.contents
  simp only [extents_set_rects]
  simp only [GdiHeap.set, Function.update_self, rects_shrinkArray]
  congr 1
  exact regionSweep_congr rectsOnly (by rfl) _ _ _ _

theorem frame_regionOp : Frame [newReg] heap (regionOp funcs heap newReg reg1 reg2) := by
  constructor
  · rfl
  · intro ptr outside
    have differs : ptr ≠ newReg := by simpa using outside
    simp [regionOp, GdiHeap.set, differs]

/-- The number of rectangles left in a source once `newReg` is emptied. -/
def remainingRects (newReg source : RgnPtr) : Nat :=
  if source = newReg then 0 else (heap.region source).numRects

/-- The capacity is positive unless the destination was every source. -/
theorem inBounds_regionOp (write : funcs.Write)
    (remains : remainingRects heap newReg reg1 ≠ 0 ∨ remainingRects heap newReg reg2 ≠ 0) :
    (regionOp funcs heap newReg reg1 reg2).inBounds = heap.inBounds := by
  have emptied : ∀ source, ((heap.set newReg { heap.region newReg with rects := [] }).region
      source).numRects = remainingRects heap newReg source := by
    intro _
    unfold remainingRects
    split
    next same =>
      rw [same]
      simp [RegionContents.numRects]
    next differs => rw [heap.region_set_of_ne _ differs]
  unfold regionOp
  simp only [emptied, inBounds_shrinkArray]
  rw [((writes_regionSweep write _ _ _ _ _).roomy ?_).inBounds]
  · simp
  · exact ⟨by simp only; omega, by simp [RectArray.numRects], rfl⟩

theorem inBounds_regionOp_of_not_reject (write : funcs.Write)
    (notInPlace : ¬ (reg1 = newReg ∧ reg2 = newReg))
    (notRejected : ¬TrivialReject (heap.contents reg1) (heap.contents reg2)) :
    (regionOp funcs heap newReg reg1 reg2).inBounds = heap.inBounds := by
  simp only [TrivialReject, not_or] at notRejected
  apply inBounds_regionOp _ _ _ _ _ write
  unfold remainingRects
  unfold GdiHeap.contents at notRejected
  grind

/-- In place on both sources the capacity is zero, so any write is lost. -/
theorem inBounds_regionOp_inPlace (rectsOnly : funcs.RectsOnly) :
    (regionOp funcs heap newReg newReg newReg).inBounds = true ↔
      heap.inBounds = true ∧
        sweepRects funcs (heap.contents newReg) (heap.contents newReg) = [] := by
  have starved : (regionSweep funcs ⟨[], 0, true⟩ 0 (heap.contents newReg).rects
      (heap.contents newReg).rects
      (heap.contents newReg).extents.top).Starved :=
    (writes_regionSweep rectsOnly.toWrite _ _ _ _ _).starved ⟨rfl, by simp⟩
  have result := starved.inBounds_iff
  unfold regionOp sweepRects GdiHeap.contents at *
  simpa [RegionContents.numRects] using fun _ => result

end RegionOp

theorem contents_set_recomputed (heap : GdiHeap) (ptr : RgnPtr) :
    (heap.set ptr (setType (setExtents (heap.region ptr)))).contents ptr =
      contentsOf (heap.contents ptr).rects := by
  simp [GdiHeap.contents, setType, setExtents, contentsOf, RegionContents.numRects]

section Operations

variable (heap : GdiHeap) (newReg reg1 reg2 : RgnPtr)

/-- `REGION_IntersectRegion` leaves the intersection. -/
theorem contents_intersectRegion :
    (intersectRegion heap newReg reg1 reg2).contents newReg =
      intersectContents (heap.contents reg1) (heap.contents reg2) := by
  unfold intersectRegion intersectContents
  rw [contents_set_recomputed]
  split
  · simp [GdiHeap.contents]
  · rw [contents_regionOp _ _ _ _ _ rectsOnly_intersectFuncs]

theorem frame_intersectRegion : Frame [newReg] heap (intersectRegion heap newReg reg1 reg2) := by
  refine Frame.trans ?_ (Frame.set _ _ _)
  split
  · exact Frame.set _ _ _
  · exact frame_regionOp _ _ _ _ _

theorem inBounds_intersectRegion (notInPlace : ¬ (reg1 = newReg ∧ reg2 = newReg)) :
    (intersectRegion heap newReg reg1 reg2).inBounds = heap.inBounds := by
  unfold intersectRegion
  split
  · rfl
  · exact inBounds_regionOp_of_not_reject _ _ _ _ _ write_intersectFuncs notInPlace ‹_›

/--
`REGION_UnionRegion` leaves the union, unless its sources are the same record:
then it copies that.
-/
theorem contents_unionRegion :
    (unionRegion heap newReg reg1 reg2).contents newReg =
      if reg1 = reg2 then heap.contents reg2
      else unionContents (heap.contents reg1) (heap.contents reg2) := by
  unfold unionRegion unionContents
  simp only [ite_copyRegion]
  by_cases same : reg1 = reg2
  · simp only [same, true_or, if_true]
    exact contents_copyRegion _ _ _
  simp only [same, false_or, if_false]
  split_ifs
  iterate 4 exact contents_copyRegion _ _ _
  have swept := contents_regionOp unionFuncs heap newReg reg1 reg2 rectsOnly_unionFuncs
  have sources : ∀ ptr, ((regionOp unionFuncs heap newReg reg1 reg2).contents
      ptr).extents = (heap.contents ptr).extents := by
    intro ptr
    by_cases isNew : ptr = newReg
    · rw [isNew, swept]
    · simp only [GdiHeap.contents]
      rw [(frame_regionOp unionFuncs heap newReg reg1 reg2).region ptr (by simpa using isNew)]
  unfold GdiHeap.contents at *
  simp [setType, contentsOf, RegionContents.numRects, swept, sources]

theorem frame_unionRegion : Frame [newReg] heap (unionRegion heap newReg reg1 reg2) := by
  unfold unionRegion
  simp only [ite_copyRegion]
  split_ifs
  iterate 4 exact frame_copyRegion _ _ _
  exact (frame_regionOp _ _ _ _ _).trans (Frame.set _ _ _)

/-- The sources of a swept union differ, so one of them keeps its count. -/
theorem inBounds_unionRegion : (unionRegion heap newReg reg1 reg2).inBounds = heap.inBounds := by
  unfold unionRegion
  simp only [ite_copyRegion]
  split_ifs with differs nonempty
  iterate 4 exact inBounds_copyRegion _ _ _
  apply inBounds_regionOp _ _ _ _ _ write_unionFuncs
  unfold remainingRects
  unfold GdiHeap.contents at *
  grind

/-- `REGION_SubtractRegion` leaves the difference. -/
theorem contents_subtractRegion :
    (subtractRegion heap newReg reg1 reg2).contents newReg =
      subtractContents (heap.contents reg1) (heap.contents reg2) := by
  unfold subtractRegion subtractContents
  split
  · exact contents_copyRegion _ _ _
  · rw [contents_set_recomputed, contents_regionOp _ _ _ _ _ rectsOnly_subtractFuncs]

theorem frame_subtractRegion : Frame [newReg] heap (subtractRegion heap newReg reg1 reg2) := by
  unfold subtractRegion
  split
  · exact frame_copyRegion _ _ _
  · exact (frame_regionOp _ _ _ _ _).trans (Frame.set _ _ _)

theorem inBounds_subtractRegion (notInPlace : ¬ (reg1 = newReg ∧ reg2 = newReg)) :
    (subtractRegion heap newReg reg1 reg2).inBounds = heap.inBounds := by
  unfold subtractRegion
  split
  · exact inBounds_copyRegion _ _ _
  · exact inBounds_regionOp_of_not_reject _ _ _ _ _ write_subtractFuncs notInPlace ‹_›

end Operations

/-- The records an operation on region objects may overwrite. -/
def combineTargets (hDest : HRGN) : List RgnPtr :=
  [.object hDest, .temporary 0, .temporary 1]

section Combine

variable (heap : GdiHeap) (hDest hSrc1 hSrc2 : HRGN)

/--
The differences `REGION_XorRegion` computes into its temporaries before it
unites them.
-/
structure XorReady (before after : GdiHeap) (hSrc1 hSrc2 : HRGN) : Prop where
  frame : Frame [.temporary 0, .temporary 1] before after
  inBounds : after.inBounds = before.inBounds
  first : after.contents (.temporary 0) =
    subtractContents (before.contents (.object hSrc1)) (before.contents (.object hSrc2))
  second : after.contents (.temporary 1) =
    subtractContents (before.contents (.object hSrc2)) (before.contents (.object hSrc1))

/-- `REGION_XorRegion` is a union of two differences in temporaries. -/
theorem xorRegion_eq_unionRegion :
    ∃ ready, XorReady heap ready hSrc1 hSrc2 ∧
      xorRegion heap (.object hDest) (.object hSrc1) (.object hSrc2) =
        unionRegion ready (.object hDest) (.temporary 0) (.temporary 1) := by
  refine ⟨_, ?_, rfl⟩
  -- Allocate the two temporaries, then compute one difference after another.
  generalize allocWineRegion _ = record0
  have frame0 : Frame [.temporary 0, .temporary 1] heap (heap.set (.temporary 0) record0) :=
    (Frame.set _ _ _).mono (by simp)
  generalize allocWineRegion _ = record1
  have allocated := frame0.trans
    ((Frame.set (heap.set (.temporary 0) record0) (.temporary 1) record1).mono (by simp))
  generalize heap1Eq :
    (heap.set (.temporary 0) record0).set (.temporary 1) record1 = heap1 at allocated
  have frame1 := frame_subtractRegion heap1 (.temporary 0) (.object hSrc1) (.object hSrc2)
  have difference1 := contents_subtractRegion heap1 (.temporary 0) (.object hSrc1) (.object hSrc2)
  have inBounds1 :=
    inBounds_subtractRegion heap1 (.temporary 0) (.object hSrc1) (.object hSrc2) (by simp)
  generalize subtractRegion heap1 (.temporary 0) (.object hSrc1) (.object hSrc2) = heap2 at *
  have frame2 := frame_subtractRegion heap2 (.temporary 1) (.object hSrc2) (.object hSrc1)
  have difference2 := contents_subtractRegion heap2 (.temporary 1) (.object hSrc2) (.object hSrc1)
  have inBounds2 :=
    inBounds_subtractRegion heap2 (.temporary 1) (.object hSrc2) (.object hSrc1) (by simp)
  have sources : ∀ hrgn, heap1.contents (.object hrgn) = heap.contents (.object hrgn) ∧
      heap2.contents (.object hrgn) = heap.contents (.object hrgn) := by
    intro hrgn
    have unchanged : heap1.contents (.object hrgn) = heap.contents (.object hrgn) :=
      allocated.contents (by simp)
    exact ⟨unchanged, (frame1.contents (by simp)).trans unchanged⟩
  exact
    { frame :=
        (allocated.trans (frame1.mono (by simp))).trans (frame2.mono (by simp))
      inBounds := by
        rw [inBounds2, inBounds1, ← heap1Eq]
        rfl
      first := by rw [frame2.contents (by simp), difference1, (sources hSrc1).1, (sources hSrc2).1]
      second := by rw [difference2, (sources hSrc1).2, (sources hSrc2).2] }

/-- `REGION_XorRegion` leaves the symmetric difference. -/
theorem contents_xorRegion :
    (xorRegion heap (.object hDest) (.object hSrc1) (.object hSrc2)).contents (.object hDest) =
      xorContents (heap.contents (.object hSrc1)) (heap.contents (.object hSrc2)) := by
  obtain ⟨_, differences, same⟩ := xorRegion_eq_unionRegion heap hDest hSrc1 hSrc2
  rw [same, contents_unionRegion, if_neg (by simp), differences.first,
    differences.second, xorContents]

variable (mode : RgnMode)

/-- `CombineRgn` overwrites its destination and its temporaries only. -/
theorem frame_combineRegions :
    Frame (combineTargets hDest) heap
      (combineRegions heap (.object hDest) (.object hSrc1) (.object hSrc2) mode) := by
  cases mode with
  | rgnAnd => exact (frame_intersectRegion _ _ _ _).mono (by simp [combineTargets])
  | rgnOr => exact (frame_unionRegion _ _ _ _).mono (by simp [combineTargets])
  | rgnXor =>
    obtain ⟨_, differences, same⟩ := xorRegion_eq_unionRegion heap hDest hSrc1 hSrc2
    rw [combineRegions, same]
    exact (differences.frame.mono (by simp [combineTargets])).trans
      ((frame_unionRegion _ _ _ _).mono (by simp [combineTargets]))
  | rgnDiff => exact (frame_subtractRegion _ _ _ _).mono (by simp [combineTargets])
  | rgnCopy => exact (frame_copyRegion _ _ _).mono (by simp [combineTargets])

/-- What `CombineRgn` leaves in its destination, under any aliasing. -/
theorem contents_combineRegions :
    (combineRegions heap (.object hDest) (.object hSrc1) (.object hSrc2)
        mode).contents (.object hDest) =
      if mode = .rgnOr ∧ hSrc1 = hSrc2 then
        heap.contents (.object hSrc2)
      else
        combineContents mode (heap.contents (.object hSrc1)) (heap.contents (.object hSrc2)) := by
  cases mode with
  | rgnAnd => exact contents_intersectRegion _ _ _ _
  | rgnOr => simp [combineRegions, contents_unionRegion, combineContents]
  | rgnXor => exact contents_xorRegion _ _ _ _
  | rgnDiff => exact contents_subtractRegion _ _ _ _
  | rgnCopy => exact contents_copyRegion _ _ _

/-- The two modes in which `REGION_RegionOp` can run in place. -/
def RgnMode.Sweeps (mode : RgnMode) : Prop :=
  mode = .rgnAnd ∨ mode = .rgnDiff

/-- Outside these two modes, and with a source of its own, there is room. -/
theorem inBounds_combineRegions (notInPlace : ¬ (mode.Sweeps ∧ hSrc1 = hDest ∧ hSrc2 = hDest)) :
    (combineRegions heap (.object hDest) (.object hSrc1) (.object hSrc2)
      mode).inBounds = heap.inBounds := by
  cases mode with
  | rgnAnd => exact inBounds_intersectRegion _ _ _ _ (by simpa [RgnMode.Sweeps] using notInPlace)
  | rgnOr => exact inBounds_unionRegion _ _ _ _
  | rgnXor =>
    obtain ⟨_, differences, same⟩ := xorRegion_eq_unionRegion heap hDest hSrc1 hSrc2
    rw [combineRegions, same, inBounds_unionRegion, differences.inBounds]
  | rgnDiff => exact inBounds_subtractRegion _ _ _ _ (by simpa [RgnMode.Sweeps] using notInPlace)
  | rgnCopy => exact inBounds_copyRegion _ _ _

end Combine

end Winex.Gdi
