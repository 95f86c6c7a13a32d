import Mathlib.Algebra.Order.Ring.Int
import Winex.RegionHeap

namespace Winex.Gdi

/-!
# Creating and editing regions

The API functions that build regions from rectangles and edit them in place. `INT`
additions wrap at 32 bits. `CreateRoundRectRgn` computes its ellipse in unbounded
integers, that is, for ellipses whose products fit into an `INT`.
-/

/-- The value of an `INT` expression. -/
def wrapInt (value : Int) : Int :=
  value.bmod (2 ^ 32)

/-- `POINT` -/
structure Point where
  x : Int
  y : Int
  deriving DecidableEq

/-- Move a rectangle. -/
def offsetRect (rect : Rect) (x y : Int) : Rect :=
  ⟨wrapInt (rect.left + x), wrapInt (rect.top + y),
    wrapInt (rect.right + x), wrapInt (rect.bottom + y)⟩

/-- A heap without any region object. -/
def emptyHeap : GdiHeap where
  live _ := false
  region _ := allocWineRegion 0
  inBounds := true

variable (heap : GdiHeap) (hrgn : HRGN)

/-- `REGION_CreateRegion`, with the handle `GDI_AllocObject` returned. -/
def createRegion (n : Nat) : GdiHeap :=
  { heap.set (.object hrgn) (allocWineRegion n) with
    live := Function.update heap.live hrgn true }

/-- The smaller of two edges, then the larger. -/
def sortEdges (first second : Int) : Int × Int :=
  if first > second then (second, first) else (first, second)

/--
`SetRectRgn`: the heap afterwards and the result.  The rectangle is written to
the first place of the array without a look at its capacity.
-/
def setRectRgn (left top right bottom : Int) : GdiHeap × Bool :=
  if heap.live hrgn then
    let (left, right) := sortEdges left right
    let (top, bottom) := sortEdges top bottom
    let region := heap.region (.object hrgn)
    if left ≠ right ∧ top ≠ bottom then
      let rect : Rect := ⟨left, top, right, bottom⟩
      ({ heap.set (.object hrgn)
        { region with
            rects := [rect]
            extents := rect
            type := .simpleRegion } with
          inBounds := heap.inBounds && decide (0 < region.size) },
        true)
    else
      (heap.set (.object hrgn) (emptyRegion region), true)
  else
    (heap, false)

/-- `RGN_DEFAULT_RECTS` -/
def rgnDefaultRects : Nat :=
  2

/-- `CreateRectRgn` -/
def createRectRgn (left top right bottom : Int) : GdiHeap :=
  (setRectRgn (createRegion heap hrgn rgnDefaultRects) hrgn left top right bottom).1

/--
`OffsetRgn`: the heap afterwards and the type returned, or `none` for
`ERROR`.  An empty region keeps its extents.
-/
def offsetRgn (x y : Int) : GdiHeap × Option RgnType :=
  if heap.live hrgn then
    let region := heap.region (.object hrgn)
    let heap :=
      if (x ≠ 0 ∨ y ≠ 0) ∧ region.numRects ≠ 0 then
        heap.set (.object hrgn)
          { region with
            rects := region.rects.map fun rect => offsetRect rect x y
            extents := offsetRect region.extents x y }
      else
        heap
    (heap, some (heap.region (.object hrgn)).type)
  else
    (heap, none)

/-- `REGION_UnionRectWithRegion`, with its local region in a temporary. -/
def unionRectWithRegion (rect : Rect) (rgn : RgnPtr) : GdiHeap :=
  unionRegion
    (heap.set (.temporary 2)
      { rects := [rect]
        size := 1
        type := .simpleRegion
        extents := rect })
    rgn rgn (.temporary 2)

/-- The variables of the ellipse loops in `CreateRoundRectRgn`. -/
structure EllipseState where
  heap : GdiHeap
  left : Int
  right : Int
  top : Int
  bottom : Int
  d : Int
  xd : Int
  yd : Int

/-- Add one scanline at the top and one at the bottom, and move inwards. -/
def EllipseState.addScanlines (state : EllipseState) (hrgn : HRGN) : EllipseState :=
  let heap :=
    unionRectWithRegion state.heap
      ⟨state.left, state.top, state.right, state.top + 1⟩ (.object hrgn)
  let bottom := state.bottom - 1
  { state with
    heap :=
      unionRectWithRegion heap ⟨state.left, bottom, state.right, bottom + 1⟩ (.object hrgn)
    top := state.top + 1
    bottom := bottom }

/-- The loop over the first half of the quadrant. -/
def drawFirstHalf (hrgn : HRGN) (asq bsq : Int) (state : EllipseState) (asqNonneg : 0 ≤ asq)
    (bsqPositive : 0 < bsq) : EllipseState :=
  if state.xd < state.yd then
    let state :=
      if state.d > 0 then
        let yd := state.yd - 2 * asq
        { state.addScanlines hrgn with
          yd := yd
          d := state.d - yd }
      else
        state
    let xd := state.xd + 2 * bsq
    drawFirstHalf hrgn asq bsq
      { state with
        left := state.left - 1
        right := state.right + 1
        xd := xd
        d := state.d + (bsq + xd) }
      asqNonneg bsqPositive
  else
    state
  termination_by (state.yd - state.xd).toNat
  decreasing_by
    split
    · simp only [EllipseState.addScanlines]
      omega
    · omega

/-- The loop over the second half of the quadrant. -/
def drawSecondHalf (hrgn : HRGN) (asq bsq : Int) (state : EllipseState) (asqPositive : 0 < asq) :
    EllipseState :=
  if state.yd ≥ 0 then
    let state := state.addScanlines hrgn
    let state :=
      if state.d < 0 then
        let xd := state.xd + 2 * bsq
        { state with
          left := state.left - 1
          right := state.right + 1
          xd := xd
          d := state.d + xd }
      else
        state
    let yd := state.yd - 2 * asq
    drawSecondHalf hrgn asq bsq
      { state with
        yd := yd
        d := state.d + (asq - yd) }
      asqPositive
  else
    state
  termination_by (state.yd + 1).toNat
  decreasing_by split <;> simp_all only [EllipseState.addScanlines] <;> omega

theorem quarter_square_pos {axis : Int} (large : ¬ axis < 2) : 0 < axis * axis / 4 := by
  have : 2 * 2 ≤ axis * axis :=
    Int.mul_le_mul (not_lt.mp large) (not_lt.mp large) (by omega) (by omega)
  omega

/--
`CreateRoundRectRgn`.  The ellipse is drawn scanline by scanline from both
ends; the type stored at the end ignores the rectangle count.
-/
def createRoundRectRgn (left top right bottom ellipseWidth ellipseHeight : Int) : GdiHeap :=
  let (left, right) := sortEdges left right
  let (top, bottom) := sortEdges top bottom
  let ellipseWidth := min (ellipseWidth.natAbs : Int) (right - left)
  let ellipseHeight := min (ellipseHeight.natAbs : Int) (bottom - top)
  if small : ellipseWidth < 2 ∨ ellipseHeight < 2 then
    createRectRgn heap hrgn left top right bottom
  else
    let asq := ellipseWidth * ellipseWidth / 4
    let bsq := ellipseHeight * ellipseHeight / 4
    have asqPositive : 0 < asq := quarter_square_pos (not_or.mp small).1
    have bsqPositive : 0 < bsq := quarter_square_pos (not_or.mp small).2
    let n := if ellipseHeight < 128 then (3 * ellipseHeight / 4).toNat else 64
    let state :=
      drawFirstHalf hrgn asq bsq
        { heap := createRegion heap hrgn n
          left := left + ellipseWidth / 2
          right := right - ellipseWidth / 2
          top := top
          bottom := bottom
          d := bsq - asq * ellipseHeight / 2 + asq / 4
          xd := 0
          yd := asq * ellipseHeight }
        (le_of_lt asqPositive) bsqPositive
    let adjust := ((3 * (asq - bsq)).tdiv 2 - (state.xd + state.yd)).tdiv 2
    let state := drawSecondHalf hrgn asq bsq { state with d := state.d + adjust } asqPositive
    let heap :=
      -- Add the inside rectangle.
      if state.top ≤ state.bottom then
        unionRectWithRegion state.heap
          ⟨state.left, state.top, state.right, state.bottom⟩ (.object hrgn)
      else
        state.heap
    heap.set (.object hrgn) { heap.region (.object hrgn) with type := .simpleRegion }

/-- `RGNDATAHEADER`; `RDH_RECTANGLES` is the only type ever written. -/
structure RgnDataHeader where
  dwSize : Nat
  iType : Nat
  nCount : Nat
  nRgnSize : Nat
  rcBound : Rect
  deriving DecidableEq

/-- `RGNDATA`, with the rectangles in its buffer. -/
structure RgnData where
  rdh : RgnDataHeader
  buffer : List Rect
  deriving DecidableEq

/-- `RDH_RECTANGLES` -/
def rdhRectangles : Nat :=
  1

/-- `sizeof(RECT)` -/
def sizeofRect : Nat :=
  16

/-- `sizeof(RGNDATAHEADER)` -/
def sizeofRgnDataHeader : Nat :=
  32

/-- The data `GetRegionData` writes. -/
def regionData (region : WineRegion) : RgnData where
  rdh :=
    { dwSize := sizeofRgnDataHeader
      iType := rdhRectangles
      nCount := region.numRects
      nRgnSize := region.numRects * sizeofRect
      rcBound := region.extents }
  buffer := region.rects

/--
`GetRegionData`: the size returned and the data written.  `wanted` tells
whether the caller passed a buffer.
-/
def getRegionData (count : Nat) (wanted : Bool) : Nat × Option RgnData :=
  if heap.live hrgn then
    let region := heap.region (.object hrgn)
    let size := region.numRects * sizeofRect
    if count < size + sizeofRgnDataHeader ∨ wanted = false then
      (if wanted then 0 else size + sizeofRgnDataHeader, none)
    else
      (size + sizeofRgnDataHeader, some (regionData region))
  else
    (0, none)

/--
`ExtCreateRegion`, whose transform is ignored: the heap afterwards and the
handle returned.  The buffer holds at least `nCount` rectangles.
-/
def extCreateRegion (rgndata : RgnData) : GdiHeap × Option HRGN :=
  if rgndata.rdh.iType ≠ rdhRectangles then
    (heap, none)
  else
    ((rgndata.buffer.take rgndata.rdh.nCount).foldl
        (fun heap rect => unionRectWithRegion heap rect (.object hrgn))
        (createRegion heap hrgn rgndata.rdh.nCount),
      some hrgn)

/-- `EqualRgn` -/
def equalRgn (hrgn1 hrgn2 : HRGN) : Bool :=
  if heap.live hrgn1 ∧ heap.live hrgn2 then
    let first := heap.region (.object hrgn1)
    let second := heap.region (.object hrgn2)
    if first.numRects ≠ second.numRects then false
    else if first.numRects = 0 then true
    else
      first.extents = second.extents ∧
        (first.rects.zip second.rects).all fun pair => pair.1 = pair.2
  else
    false

/--
`REGION_FrameRgn`: the heap afterwards and the result, or `none` where the
source dereferences the missing destination object.
-/
def frameRgn (hDest hSrc : HRGN) (x y : Int) : Option (GdiHeap × Bool) :=
  if heap.live hSrc then
    if (heap.region (.object hSrc)).numRects ≠ 0 then
      if heap.live hDest then
        let heap := heap.set (.object hDest) (emptyRegion (heap.region (.object hDest)))
        -- In place the source is empty by now.
        let heap :=
          (heap.region (.object hSrc)).rects.foldl
            (fun heap rect =>
              unionRectWithRegion heap
                ⟨wrapInt (rect.left - x), wrapInt (rect.top - y),
                  wrapInt (rect.right + x), wrapInt (rect.bottom + y)⟩
                (.object hDest))
            heap
        some (subtractRegion heap (.object hDest) (.object hDest) (.object hSrc), true)
      else
        none
    else
      some (heap, false)
  else
    some (heap, false)

end Winex.Gdi
