import Winex.RegionCreate

namespace Winex.Gdi

/-!
# Scan conversion of polygons

`CreatePolyPolygonRgn` sorts the edges into an edge table by their top scanline, walks
the scanlines with a table of active edges whose columns are stepped by a Bresenham
scheme, and turns the buffered points into rectangles.

Linked lists are lists here.  An entry is identified by its place in the pool `pETEs`,
which stands for its address.  An expression of `INT`s is computed exactly and reduced
once.
-/

/-- `BRESINFO` -/
structure BresInfo where
  minorAxis : Int
  d : Int
  m : Int
  m1 : Int
  incr1 : Int
  incr2 : Int
  deriving DecidableEq

/-- `BRESINITPGON`, for `dy` other than zero. -/
def bresInitPgon (dy x1 x2 : Int) : BresInfo :=
  let dx := wrapInt (x2 - x1)
  let m := wrapInt (dx.tdiv dy)
  if dx < 0 then
    let m1 := wrapInt (m - 1)
    { minorAxis := x1
      m := m
      m1 := m1
      incr1 := wrapInt (-2 * dx + 2 * dy * m1)
      incr2 := wrapInt (-2 * dx + 2 * dy * m)
      d := wrapInt (2 * m * dy - 2 * dx - 2 * dy) }
  else
    let m1 := wrapInt (m + 1)
    { minorAxis := x1
      m := m
      m1 := m1
      incr1 := wrapInt (2 * dx - 2 * dy * m1)
      incr2 := wrapInt (2 * dx - 2 * dy * m)
      d := wrapInt (-2 * m * dy + 2 * dx) }

/-- `BRESINCRPGON` -/
def bresIncrPgon (bres : BresInfo) : BresInfo :=
  if (bres.m1 > 0 ∧ bres.d > 0) ∨ (¬ bres.m1 > 0 ∧ bres.d ≥ 0) then
    { bres with
      minorAxis := wrapInt (bres.minorAxis + bres.m1)
      d := wrapInt (bres.d + bres.incr1) }
  else
    { bres with
      minorAxis := wrapInt (bres.minorAxis + bres.m)
      d := wrapInt (bres.d + bres.incr2) }

/-- `EdgeTableEntry`, without its links. -/
structure EdgeTableEntry where
  id : Nat
  ymax : Int
  bres : BresInfo
  clockWise : Bool
  deriving DecidableEq

/-- `ScanLineList` -/
structure ScanLineList where
  scanline : Int
  edgelist : List EdgeTableEntry
  deriving DecidableEq

/-- `EdgeTable` -/
structure EdgeTable where
  ymax : Int
  ymin : Int
  scanlines : List ScanLineList
  deriving DecidableEq

/-- The slot search of `REGION_InsertEdgeInET` within a bucket. -/
def insertEdge (ete : EdgeTableEntry) (edgelist : List EdgeTableEntry) : List EdgeTableEntry :=
  match edgelist with
  | [] => [ete]
  | start :: rest =>
    if start.bres.minorAxis < ete.bres.minorAxis then
      start :: insertEdge ete rest
    else
      ete :: start :: rest

/-- `REGION_InsertEdgeInET` -/
def insertEdgeInET (ete : EdgeTableEntry) (scanline : Int) (scanlines : List ScanLineList) :
    List ScanLineList :=
  match scanlines with
  | [] => [⟨scanline, [ete]⟩]
  | pSLL :: rest =>
    if pSLL.scanline < scanline then
      pSLL :: insertEdgeInET ete scanline rest
    else if pSLL.scanline > scanline then
      ⟨scanline, [ete]⟩ :: pSLL :: rest
    else
      ⟨scanline, insertEdge ete pSLL.edgelist⟩ :: rest

/-- `LARGE_COORDINATE` -/
def largeCoordinate : Int :=
  2 ^ 31 - 1

/-- `SMALL_COORDINATE`, as an `INT` -/
def smallCoordinate : Int :=
  -2 ^ 31

/-- The body of the vertex loop, with the next free entry of the pool. -/
def addEdge (state : EdgeTable × Nat) (edge : Point × Point) : EdgeTable × Nat :=
  let (et, pETEs) := state
  let (prevPt, currPt) := edge
  let (bottom, top, clockWise) :=
    if prevPt.y > currPt.y then (prevPt, currPt, false)
    else (currPt, prevPt, true)
  if bottom.y ≠ top.y then
    let ete : EdgeTableEntry :=
      { id := pETEs
        ymax := wrapInt (bottom.y - 1)
        bres := bresInitPgon (wrapInt (bottom.y - top.y)) top.x bottom.x
        clockWise := clockWise }
    ({ scanlines := insertEdgeInET ete top.y et.scanlines
       ymax := if prevPt.y > et.ymax then prevPt.y else et.ymax
       ymin := if prevPt.y < et.ymin then prevPt.y else et.ymin },
      pETEs + 1)
  else
    (et, pETEs)

/-- The pairs `PrevPt`, `CurrPt` of the vertex loop for one polygon. -/
def vertexPairs (prevPt : Point) (pts : List Point) : List (Point × Point) :=
  match pts with
  | [] => []
  | currPt :: rest => (prevPt, currPt) :: vertexPairs currPt rest

/-- The pairs of all polygons.  `pts` and `endPt` count the points the two pointers have
passed; a polygon of fewer than two points advances one only. -/
def polygonPairs (points : List Point) (pts endPt : Nat) (counts : List Nat) :
    List (Point × Point) :=
  match counts with
  | [] => []
  | count :: rest =>
    if count < 2 then
      polygonPairs points pts (endPt + count) rest
    else
      vertexPairs (points.getD (endPt + count - 1) ⟨0, 0⟩) ((points.drop pts).take count) ++
        polygonPairs points (pts + count) (endPt + count) rest

/-- `REGION_CreateETandAET`; the active edge table starts empty. -/
def createETandAET (points : List Point) (counts : List Nat) : EdgeTable :=
  ((polygonPairs points 0 0 counts).foldl addEdge (⟨smallCoordinate, largeCoordinate, []⟩, 0)).1

/-- `REGION_loadAET` -/
def loadAET (aet etes : List EdgeTableEntry) : List EdgeTableEntry :=
  match aet, etes with
  | aet, [] => aet
  | [], ete :: rest => ete :: loadAET [] rest
  | active :: later, ete :: rest =>
    if active.bres.minorAxis < ete.bres.minorAxis then
      active :: loadAET later (ete :: rest)
    else
      ete :: loadAET (active :: later) rest
termination_by aet.length + etes.length

/-- The `nextWETE` links by pool place. -/
abbrev WindingLinks := Nat → Option Nat

/-- Set a link; `none` is the header, whose link is never read. -/
def WindingLinks.link (links : WindingLinks) (pWETE target : Option Nat) : WindingLinks :=
  match pWETE with
  | none => links
  | some pWETE => Function.update links pWETE target

/-- The loop of `REGION_computeWAET`. -/
def computeWAETFrom (aet : List EdgeTableEntry) (pWETE : Option Nat) (inside : Bool)
    (isInside : Int) (links : WindingLinks) : WindingLinks :=
  match aet with
  | [] => links.link pWETE none
  | active :: rest =>
    let isInside := if active.clockWise then isInside + 1 else isInside - 1
    if (¬ inside ∧ isInside = 0) ∨ (inside ∧ isInside ≠ 0) then
      computeWAETFrom rest (some active.id) (!inside) isInside (links.link pWETE (some active.id))
    else
      computeWAETFrom rest pWETE inside isInside links

/-- `REGION_computeWAET` -/
def computeWAET (aet : List EdgeTableEntry) (links : WindingLinks) : WindingLinks :=
  computeWAETFrom aet none true 0 links

/--
One step of `REGION_InsertionSort`: move an entry back over the entries before
it, nearest first, and tell whether it moved.
-/
def chaseBack (inserted : EdgeTableEntry) (before : List EdgeTableEntry) :
    List EdgeTableEntry × Bool :=
  match before with
  | [] => ([inserted], false)
  | back :: rest =>
    if back.bres.minorAxis > inserted.bres.minorAxis then
      (back :: (chaseBack inserted rest).1, true)
    else
      (inserted :: back :: rest, false)

/-- The loop of `REGION_InsertionSort`. -/
def insertionSortFrom (before : List EdgeTableEntry) (changed : Bool) (aet : List EdgeTableEntry) :
    List EdgeTableEntry × Bool :=
  match aet with
  | [] => (before.reverse, changed)
  | inserted :: rest =>
    let (before, moved) := chaseBack inserted before
    insertionSortFrom before (changed || moved) rest

/-- `REGION_InsertionSort` -/
def insertionSort (aet : List EdgeTableEntry) : List EdgeTableEntry × Bool :=
  insertionSortFrom [] false aet

/-- `NUMPTSTOBUFFER` -/
def numPtsToBuffer : Nat :=
  200

/-- The `POINTBLOCK`s filled so far and the current one. -/
structure PointBlocks where
  full : List (List Point)
  current : List Point
  deriving DecidableEq

/-- Buffer a point, and start a new block behind a full one. -/
def PointBlocks.push (blocks : PointBlocks) (point : Point) : PointBlocks :=
  if (blocks.current ++ [point]).length = numPtsToBuffer then
    ⟨blocks.full ++ [blocks.current ++ [point]], []⟩
  else
    ⟨blocks.full, blocks.current ++ [point]⟩

/-- Buffer the points at which some active edges cross a scanline. -/
def PointBlocks.pushRow (blocks : PointBlocks) (y : Int) (edges : List EdgeTableEntry) :
    PointBlocks :=
  edges.foldl (fun blocks edge => blocks.push ⟨edge.bres.minorAxis, y⟩) blocks

/-- The variables of the scanline loops. -/
structure ScanState where
  aet : List EdgeTableEntry
  links : WindingLinks
  pSLL : List ScanLineList
  blocks : PointBlocks

/-- `EVALUATEEDGEEVENODD`: an edge leaves the table or moves on. -/
def evaluateEdge (y : Int) (pAET : EdgeTableEntry) : Option EdgeTableEntry :=
  if pAET.ymax = y then none
  else some { pAET with bres := bresIncrPgon pAET.bres }

/--
Load the edges that start on the scanline: the active edges and the remaining
buckets afterwards, and whether there was a bucket to load.
-/
def enterEdges (y : Int) (aet : List EdgeTableEntry) (pSLL : List ScanLineList) :
    List EdgeTableEntry × List ScanLineList × Bool :=
  match pSLL with
  | [] => (aet, [], false)
  | pSLL :: rest =>
    if y = pSLL.scanline then (loadAET aet pSLL.edgelist, rest, true)
    else (aet, pSLL :: rest, false)

/-- One scanline of the even-odd loop. -/
def scanEvenOdd (y : Int) (state : ScanState) : ScanState :=
  let (aet, pSLL, _) := enterEdges y state.aet state.pSLL
  { state with
    pSLL := pSLL
    blocks := state.blocks.pushRow y aet
    aet := (insertionSort (aet.filterMap (evaluateEdge y))).1 }

/-- The active edges met along the links, from `pWETE` on. -/
def windingEdges (links : WindingLinks) (pWETE : Option Nat) (aet : List EdgeTableEntry) :
    List EdgeTableEntry :=
  match aet with
  | [] => []
  | pAET :: rest =>
    if pWETE = some pAET.id then
      pAET :: windingEdges links (links pAET.id) rest
    else
      windingEdges links pWETE rest

/--
One scanline of the winding loop.  `EVALUATEEDGEWINDING` sets `fixWAET` where
an edge leaves the table.
-/
def scanWinding (y : Int) (state : ScanState) : ScanState :=
  let (aet, pSLL, entered) := enterEdges y state.aet state.pSLL
  let links := if entered then computeWAET aet state.links else state.links
  let pWETE := aet.head?.map (·.id)
  let fixWAET := aet.any fun pAET => pAET.ymax = y
  let (sorted, changed) := insertionSort (aet.filterMap (evaluateEdge y))
  { pSLL := pSLL
    blocks := state.blocks.pushRow y (windingEdges links pWETE aet)
    aet := sorted
    links := if changed || fixWAET then computeWAET sorted links else links }

/-- The filling modes; every mode other than `WINDING` is even-odd. -/
inductive PolyFillMode where
  | alternate
  | winding
  deriving DecidableEq

/-- One scanline of the loop for a mode. -/
def scanLine (mode : PolyFillMode) (y : Int) (state : ScanState) : ScanState :=
  match mode with
  | .alternate => scanEvenOdd y state
  | .winding => scanWinding y state

/-- The loop over the scanlines. -/
def scanLines (mode : PolyFillMode) (count : Nat) (y : Int) (state : ScanState) : ScanState :=
  match count with
  | 0 => state
  | count + 1 => scanLines mode count (y + 1) (scanLine mode y state)

/-- The rectangles made so far, the latest first, and their sides. -/
structure RectBuilder where
  rects : List Rect
  left : Int
  right : Int
  deriving DecidableEq

/-- `numRects == 1 || rects[-1].top != rects->top` -/
def startsBand (last : Rect) (earlier : List Rect) : Bool :=
  match earlier with
  | [] => true
  | before :: _ => before.top ≠ last.top

/-- `i && pts[2].y > pts[1].y`, where `i` counts the pairs left in the block. -/
def endsRow (second : Point) (rest : List Point) : Bool :=
  match rest with
  | third :: _ :: _ => third.y > second.y
  | _ => false

/-- Whether a pair of points extends the latest rectangle downwards. -/
def RectBuilder.extendsLast (builder : RectBuilder) (first second : Point)
    (endsRow : Bool) : Bool :=
  match builder.rects with
  | [] => false
  | last :: earlier =>
    first.x = last.left && first.y = last.bottom &&
      second.x = last.right && startsBand last earlier && endsRow

/-- Move the bottom of the latest rectangle. -/
def RectBuilder.setBottom (builder : RectBuilder) (bottom : Int) : RectBuilder :=
  match builder.rects with
  | [] => builder
  | last :: earlier => { builder with rects := { last with bottom := bottom } :: earlier }

/-- Append a rectangle and widen the extents. -/
def RectBuilder.add (builder : RectBuilder) (rect : Rect) : RectBuilder where
  rects := rect :: builder.rects
  left := if rect.left < builder.left then rect.left else builder.left
  right := if rect.right > builder.right then rect.right else builder.right

/-- The body of the loop over the pairs of points. -/
def RectBuilder.addPair (builder : RectBuilder) (first second : Point) (endsRow : Bool) :
    RectBuilder :=
  if first.x = second.x then
    builder
  else if builder.extendsLast first second endsRow then
    builder.setBottom (wrapInt (second.y + 1))
  else
    builder.add ⟨first.x, first.y, second.x, wrapInt (second.y + 1)⟩

/-- The loop over the pairs of one `POINTBLOCK`. -/
def RectBuilder.addBlock (builder : RectBuilder) (pts : List Point) : RectBuilder :=
  match pts with
  | first :: second :: rest => (builder.addPair first second (endsRow second rest)).addBlock rest
  | _ => builder

/-- The contents `REGION_PtsToRegion` and the assignment behind it store. -/
def ptsToRegion (blocks : PointBlocks) : RegionContents :=
  let builder :=
    (blocks.full ++ [blocks.current]).foldl RectBuilder.addBlock
      ⟨[], largeCoordinate, smallCoordinate⟩
  let rects := builder.rects.reverse
  { type := typeOfCount rects.length
    extents :=
      match builder.rects, rects with
      | last :: _, first :: _ => ⟨builder.left, first.top, builder.right, last.bottom⟩
      | _, _ => emptyExtents
    rects := rects }

/-- The capacity `REGION_PtsToRegion` allocates, a rectangle for two points. -/
def ptsToRegionSize (blocks : PointBlocks) : Nat :=
  (blocks.full.length * numPtsToBuffer + blocks.current.length) / 2

/-- The test for the special case of a rectangle. -/
def IsRectangle (points : List Point) (counts : List Nat) : Prop :=
  let point := fun index => points.getD index ⟨0, 0⟩
  (counts = [4] ∨ (counts = [5] ∧ (point 4).x = (point 0).x ∧ (point 4).y = (point 0).y)) ∧
    (((point 0).y = (point 1).y ∧ (point 1).x = (point 2).x ∧
        (point 2).y = (point 3).y ∧ (point 3).x = (point 0).x) ∨
      ((point 0).x = (point 1).x ∧ (point 1).y = (point 2).y ∧
        (point 2).x = (point 3).x ∧ (point 3).y = (point 0).y))

instance (points : List Point) (counts : List Nat) : Decidable (IsRectangle points counts) :=
  inferInstanceAs (Decidable ((_ ∨ _) ∧ (_ ∨ _)))

/-- The points the scanline loop buffers. -/
def scanConvert (points : List Point) (counts : List Nat) (mode : PolyFillMode) : PointBlocks :=
  let et := createETandAET points counts
  (scanLines mode (et.ymax - et.ymin).toNat et.ymin
    { aet := []
      links := fun _ => none
      pSLL := et.scanlines
      blocks := ⟨[], []⟩ }).blocks

/--
`CreatePolyPolygonRgn`, with the handle `GDI_AllocObject` returned.  `points`
are the points at `Pts` and `counts` the numbers at `Count`.
-/
def createPolyPolygonRgn (heap : GdiHeap) (hrgn : HRGN) (points : List Point) (counts : List Nat)
    (mode : PolyFillMode) : GdiHeap :=
  let heap := createRegion heap hrgn counts.length
  let point := fun index => points.getD index ⟨0, 0⟩
  if IsRectangle points counts then
    (setRectRgn heap hrgn
      (min (point 0).x (point 2).x) (min (point 0).y (point 2).y)
      (max (point 0).x (point 2).x) (max (point 0).y (point 2).y)).1
  else
    let blocks := scanConvert points counts mode
    heap.set (.object hrgn)
      { toRegionContents := ptsToRegion blocks
        size := ptsToRegionSize blocks }

end Winex.Gdi
