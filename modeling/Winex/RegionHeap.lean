import Mathlib.Logic.Function.Basic
import Winex.RegionSweep

namespace Winex.Gdi

/-!
# Region objects and `CombineRgn`

The same `WINEREGION` record may be passed as destination and source, so the heap maps
pointers to records, and the operations read and write through it in the order of the
source.  `GDI_GetObjPtr` succeeds for the live handles; the handle of a new object is a
parameter.  Heap allocations succeed.
-/

/-- A handle to a region object. -/
abbrev HRGN := Nat

/-- A `WINEREGION *`: the record of a region object or a temporary one. -/
inductive RgnPtr where
  | object (hrgn : HRGN)
  | temporary (index : Nat)
  deriving DecidableEq

/--
The region objects.  `inBounds` becomes false with the first rectangle that a
region operation writes behind the capacity of its array.
-/
structure GdiHeap where
  live : HRGN → Bool
  region : RgnPtr → WineRegion
  inBounds : Bool

variable (heap : GdiHeap)

/-- Overwrite one region record. -/
def GdiHeap.set (ptr : RgnPtr) (region : WineRegion) : GdiHeap :=
  { heap with region := Function.update heap.region ptr region }

/-- The contents of a record. -/
def GdiHeap.contents (ptr : RgnPtr) : RegionContents :=
  (heap.region ptr).toRegionContents

/-- `EMPTY_REGION` -/
def emptyRegion (region : WineRegion) : WineRegion :=
  { region with
    rects := []
    extents := emptyExtents
    type := .nullRegion }

/-- `REGION_AllocWineRegion` -/
def allocWineRegion (n : Nat) : WineRegion :=
  { size := n
    rects := []
    extents := emptyExtents
    type := .nullRegion }

/-- One step of the loop in `REGION_SetExtents`. -/
def widenExtents (extents rect : Rect) : Rect :=
  { extents with
    left := if rect.left < extents.left then rect.left else extents.left
    right := if rect.right > extents.right then rect.right else extents.right }

/-- The box `REGION_SetExtents` computes. -/
def extentsOf (rects : List Rect) : Rect :=
  match rects with
  | [] => emptyExtents
  | first :: rest =>
    let last := (first :: rest).getLast (List.cons_ne_nil _ _)
    (first :: rest).foldl widenExtents ⟨first.left, first.top, last.right, last.bottom⟩

/-- `REGION_SetExtents` -/
def setExtents (region : WineRegion) : WineRegion :=
  { region with extents := extentsOf region.rects }

/-- The assignment that ends the region operations. -/
def setType (region : WineRegion) : WineRegion :=
  { region with type := typeOfCount region.numRects }

/-- `REGION_CopyRegion` -/
def copyRegion (dst src : RgnPtr) : GdiHeap :=
  if dst ≠ src then
    let source := heap.region src
    let size := (heap.region dst).size
    heap.set dst
      { toRegionContents := source.toRegionContents
        size := if size < source.numRects then source.numRects else size }
  else
    heap

/--
`REGION_RegionOp`.  The rectangle pointers are taken before the destination is
emptied, the new capacity is computed after that.
-/
def regionOp (funcs : RegionFuncs) (heap : GdiHeap) (newReg reg1 reg2 : RgnPtr) : GdiHeap :=
  let r1 := (heap.region reg1).rects
  let r2 := (heap.region reg2).rects
  let heap := heap.set newReg { heap.region newReg with rects := [] }
  let size := max (heap.region reg1).numRects (heap.region reg2).numRects * 2
  let ybot :=
    if (heap.region reg1).extents.top < (heap.region reg2).extents.top then
      (heap.region reg1).extents.top
    else
      (heap.region reg2).extents.top
  let array := shrinkArray (regionSweep funcs ⟨[], size, true⟩ 0 r1 r2 ybot)
  { heap.set newReg
      { heap.region newReg with
        rects := array.rects
        size := array.size } with
    inBounds := heap.inBounds && array.inBounds }

/-- The trivial reject: one region is empty or the extents do not meet. -/
def TrivialReject (first second : RegionContents) : Prop :=
  first.numRects = 0 ∨ second.numRects = 0 ∨ ¬ ExtentCheck first.extents second.extents

instance (first second : RegionContents) : Decidable (TrivialReject first second) :=
  inferInstanceAs (Decidable (_ ∨ _ ∨ _))

/-- `REGION_IntersectRegion` -/
def intersectRegion (newReg reg1 reg2 : RgnPtr) : GdiHeap :=
  let heap :=
    if TrivialReject (heap.contents reg1) (heap.contents reg2) then
      heap.set newReg { heap.region newReg with rects := [] }
    else
      regionOp intersectFuncs heap newReg reg1 reg2
  heap.set newReg (setType (setExtents (heap.region newReg)))

/-- The region is one rectangle that covers the extents of the other. -/
def Subsumes (first second : RegionContents) : Prop :=
  first.numRects = 1 ∧
    first.extents.left ≤ second.extents.left ∧
    first.extents.top ≤ second.extents.top ∧
    first.extents.right ≥ second.extents.right ∧
    first.extents.bottom ≥ second.extents.bottom

instance (first second : RegionContents) : Decidable (Subsumes first second) :=
  inferInstanceAs (Decidable (_ ∧ _ ∧ _ ∧ _ ∧ _))

/-- The box `REGION_UnionRegion` stores for the union of two regions. -/
def uniteExtents (first second : Rect) : Rect :=
  ⟨min first.left second.left, min first.top second.top,
    max first.right second.right, max first.bottom second.bottom⟩

/-- `REGION_UnionRegion` -/
def unionRegion (newReg reg1 reg2 : RgnPtr) : GdiHeap :=
  if reg1 = reg2 ∨ (heap.contents reg1).numRects = 0 then
    if newReg ≠ reg2 then copyRegion heap newReg reg2 else heap
  else if (heap.contents reg2).numRects = 0 then
    if newReg ≠ reg1 then copyRegion heap newReg reg1 else heap
  else if Subsumes (heap.contents reg1) (heap.contents reg2) then
    if newReg ≠ reg1 then copyRegion heap newReg reg1 else heap
  else if Subsumes (heap.contents reg2) (heap.contents reg1) then
    if newReg ≠ reg2 then copyRegion heap newReg reg2 else heap
  else
    let heap := regionOp unionFuncs heap newReg reg1 reg2
    heap.set newReg
      (setType
        { heap.region newReg with
          extents :=
            uniteExtents (heap.region reg1).extents (heap.region reg2).extents })

/-- `REGION_SubtractRegion` -/
def subtractRegion (regD regM regS : RgnPtr) : GdiHeap :=
  if TrivialReject (heap.contents regM) (heap.contents regS) then
    copyRegion heap regD regM
  else
    let heap := regionOp subtractFuncs heap regD regM regS
    heap.set regD (setType (setExtents (heap.region regD)))

/-- `REGION_XorRegion`; the two temporary records are freed at its end. -/
def xorRegion (dr sra srb : RgnPtr) : GdiHeap :=
  let tra := RgnPtr.temporary 0
  let trb := RgnPtr.temporary 1
  let heap := heap.set tra (allocWineRegion ((heap.region sra).numRects + 1))
  let heap := heap.set trb (allocWineRegion ((heap.region srb).numRects + 1))
  let heap := subtractRegion heap tra sra srb
  let heap := subtractRegion heap trb srb sra
  unionRegion heap dr tra trb

/-- The modes of `CombineRgn`. -/
inductive RgnMode where
  | rgnAnd
  | rgnOr
  | rgnXor
  | rgnDiff
  | rgnCopy
  deriving DecidableEq

/-- The work of `CombineRgn` on the region records. -/
def combineRegions (dest src1 src2 : RgnPtr) (mode : RgnMode) : GdiHeap :=
  match mode with
  | .rgnAnd => intersectRegion heap dest src1 src2
  | .rgnOr => unionRegion heap dest src1 src2
  | .rgnXor => xorRegion heap dest src1 src2
  | .rgnDiff => subtractRegion heap dest src1 src2
  | .rgnCopy => copyRegion heap dest src1

/--
`CombineRgn`: the heap afterwards and the type returned, or `none` for
`ERROR`.  `RGN_COPY` does not look at its second source.
-/
def combineRgn (hDest hSrc1 hSrc2 : HRGN) (mode : RgnMode) : GdiHeap × Option RgnType :=
  if heap.live hDest ∧ heap.live hSrc1 ∧
      (mode = .rgnCopy ∨ heap.live hSrc2) then
    let heap := combineRegions heap (.object hDest) (.object hSrc1) (.object hSrc2) mode
    (heap, some (heap.region (.object hDest)).type)
  else
    (heap, none)

end Winex.Gdi
