import Winex.RegionCreate

namespace Winex.Gdi

/-!
# Cropping and moving a region

`REGION_CropRgn` filters the rectangles of a region against a clip rectangle and moves
them in one pass.  The generic code of its header is modelled here as well.  Where the
scan for the first band below the upper clip edge leaves the rectangles in use, the
model returns `none`.
-/

/-- A rectangle of the region, cut at the sides of the clip and moved. -/
def cropRect (off : Point) (rect lpr : Rect) : Option Rect :=
  if lpr.left < rect.right ∧ lpr.right > rect.left then
    some
      { top := wrapInt (lpr.top + off.y)
        bottom := wrapInt (lpr.bottom + off.y)
        left :=
          wrapInt ((if lpr.left > rect.left then lpr.left else rect.left) + off.x)
        right :=
          wrapInt ((if lpr.right < rect.right then lpr.right else rect.right) + off.x) }
  else
    none

/-- Skip the bands above the clipping rectangle. -/
def skipBands (top : Int) (rects : List Rect) : Option (List Rect) :=
  match rects with
  | [] => none
  | rect :: rest =>
    if rect.bottom ≤ top then skipBands top rest else some (rect :: rest)

/-- A fix-up loop: edit rectangles up to the first that needs no edit. -/
def fixupBand (needed : Rect → Bool) (edit : Rect → Rect) (rects : List Rect) : List Rect :=
  match rects with
  | [] => []
  | rect :: rest =>
    if needed rect then edit rect :: fixupBand needed edit rest
    else rect :: rest

/-- Fix up the top band: move its top down to the clip edge. -/
def fixupTop (top : Int) (rects : List Rect) : List Rect :=
  fixupBand (fun rect => rect.top < top) (fun rect => { rect with top := top }) rects

/-- Fix up the bottom band, from the last rectangle towards the first. -/
def fixupBottom (bottom : Int) (rects : List Rect) : List Rect :=
  (fixupBand (fun rect => rect.bottom > bottom)
    (fun rect => { rect with bottom := bottom }) rects.reverse).reverse

/-- The rectangles of the bands the clipping rectangle meets. -/
def clippedBands (rect : Rect) (rects : List Rect) : Option (List Rect) :=
  (skipBands rect.top rects).map fun below => below.takeWhile fun lpr => lpr.top < rect.bottom

/-- The contents of a crop, from the rectangles of the bands it meets. -/
def clipContents (off : Point) (rect extents : Rect) (bands : List Rect) : RegionContents :=
  match bands.filterMap (cropRect off rect) with
  | [] => ⟨.nullRegion, emptyExtents, []⟩
  | first :: rest =>
    let start : Rect := ⟨wrapInt (extents.right + off.x), 0, wrapInt (extents.left + off.x), 0⟩
    let sides := (first :: rest).foldl widenExtents start
    let fixed :=
      fixupBottom (wrapInt (rect.bottom + off.y))
        (fixupTop (wrapInt (rect.top + off.y)) (first :: rest))
    { type :=
        if (first :: rest).length > 1 then .complexRegion
        else .simpleRegion
      extents :=
        ⟨sides.left, (fixed.headD first).top, sides.right, (fixed.getLastD first).bottom⟩
      rects := fixed }

/--
`REGION_CropAndOffsetRegion`, which reports success throughout.  `rectsNull`
tells whether the destination record has no array yet.
-/
def cropAndOffsetRegion (off : Point) (rect : Option Rect) (heap : GdiHeap) (rgnSrc rgnDst : RgnPtr)
    (rectsNull : Bool) : Option GdiHeap :=
  let source := heap.region rgnSrc
  let dest := heap.region rgnDst
  match rect with
  | none =>
    if off.x ≠ 0 ∨ off.y ≠ 0 then
      some
        (heap.set rgnDst
          { source with
            rects := source.rects.map fun lpr => offsetRect lpr off.x off.y
            extents := offsetRect source.extents off.x off.y })
    else
      some (heap.set rgnDst source)
  | some rect =>
    if rect.left ≥ rect.right ∨ rect.top ≥ rect.bottom ∨
        ¬ ExtentCheck rect source.extents then
      some
        (heap.set rgnDst
          (emptyRegion
            { dest with
              size := if rectsNull then rgnDefaultRects else dest.size }))
    else
      (clippedBands rect source.rects).map fun bands =>
        heap.set rgnDst
          { toRegionContents :=
              clipContents off rect source.extents bands
            size :=
              if rgnDst ≠ rgnSrc ∧ dest.size < bands.length then
                bands.length
              else if rectsNull then rgnDefaultRects
              else dest.size }

/-- `REGION_CropRgn`: the heap afterwards and the handle returned, where `fresh` is the
handle a new object gets and `none` is the handle `0`. -/
def cropRgn (heap : GdiHeap) (hDst : Option HRGN) (hSrc : HRGN) (lpRect : Option Rect)
    (lpPt : Option Point) (fresh : HRGN) : Option (GdiHeap × Option HRGN) :=
  let off := lpPt.getD ⟨0, 0⟩
  if heap.live hSrc then
    match hDst with
    | some hDst =>
      if heap.live hDst then
        (cropAndOffsetRegion off lpRect heap (.object hSrc) (.object hDst)
          false).map fun heap => (heap, some hDst)
      else
        some (heap, none)
    | none =>
      (cropAndOffsetRegion off lpRect heap (.object hSrc) (.object fresh)
        true).map fun heap =>
          ({ heap with live := Function.update heap.live fresh true }, some fresh)
  else
    some (heap, none)

/-- The combining step of the generic code. -/
def combineClip (heap : GdiHeap) (dest hSrc clip : HRGN) (lpRect : Option Rect) : GdiHeap :=
  if lpRect.isSome then (combineRgn heap dest hSrc clip .rgnAnd).1
  else (combineRgn heap dest hSrc 0 .rgnCopy).1

/-- The moving step of the generic code. -/
def offsetBy (heap : GdiHeap) (hrgn : HRGN) (lpPt : Option Point) : GdiHeap :=
  match lpPt with
  | none => heap
  | some pt => (offsetRgn heap hrgn pt.x pt.y).1

/--
The generic code `REGION_CropRgn` documents itself to optimise, with the
temporary region in the handle `fresh`.
-/
def cropRgnGeneric (heap : GdiHeap) (hDst : Option HRGN) (hSrc : HRGN) (lpRect : Option Rect)
    (lpPt : Option Point) (fresh : HRGN) : GdiHeap × HRGN :=
  let rect := lpRect.getD ⟨0, 0, 0, 0⟩
  let heap := createRectRgn heap fresh rect.left rect.top rect.right rect.bottom
  let dest := hDst.getD fresh
  let heap := combineClip heap dest hSrc fresh lpRect
  let heap := offsetBy heap dest lpPt
  let heap :=
    if dest ≠ fresh then
      { heap with live := Function.update heap.live fresh false }
    else
      heap
  (heap, dest)

end Winex.Gdi
