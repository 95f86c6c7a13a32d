import Winex.RegionModel

namespace Winex.Gdi

/-!
# The region sweep of `REGION_RegionOp`

`REGION_RegionOp` walks two rectangle arrays and writes the result into a new array
through one of three pairs of callbacks.  A pointer is the list of rectangles from it to
the end of its array; the array being written keeps its capacity, because the callbacks
grow it by doubling.
-/

/-- The array a region operation writes to: `rects` is the part in use, `size` the capacity;
`inBounds` becomes false with the first rectangle written at an index not below it. -/
structure RectArray where
  rects : List Rect
  size : Nat
  inBounds : Bool
  deriving DecidableEq

namespace RectArray

/-- The number of rectangles in use. -/
def numRects (array : RectArray) : Nat :=
  array.rects.length

/-- `xmemcheck`: the capacity, doubled unless two more rectangles fit. -/
def memCheck (array : RectArray) : Nat :=
  if array.numRects + 1 ≥ array.size then 2 * array.size else array.size

/-- `MEMCHECK`, then write one rectangle behind the last one. -/
def append (array : RectArray) (rect : Rect) : RectArray where
  rects := array.rects ++ [rect]
  size := array.memCheck
  inBounds := array.inBounds && decide (array.numRects < array.memCheck)

end RectArray

variable (rects : List Rect)

/-- The rectangles of the band a nonempty pointer stands at. -/
def bandOf : List Rect :=
  match rects with
  | [] => []
  | rect :: _ => rects.takeWhile fun other => other.top == rect.top

/-- The pointer moved behind the band it stands at. -/
def afterBand : List Rect :=
  match rects with
  | [] => []
  | rect :: _ => rects.dropWhile fun other => other.top == rect.top

theorem bandOf_append_afterBand : bandOf rects ++ afterBand rects = rects := by
  cases rects with
  | nil => rfl
  | cons => exact List.takeWhile_append_dropWhile

theorem length_afterBand_lt (rect : Rect) (rest : List Rect) :
    (afterBand (rect :: rest)).length < (rect :: rest).length := by
  simp only [afterBand, List.dropWhile_cons, beq_self_eq_true, if_true, List.length_cons]
  exact Nat.lt_succ_of_le (List.dropWhile_sublist _).length_le

/--
The index of the first rectangle of the last band, found by walking back from
the end while the tops agree.
-/
def lastBandStart : Nat :=
  match rects.getLast? with
  | none => 0
  | some last => rects.length - (rects.reverse.takeWhile fun rect => rect.top == last.top).length

variable (array : RectArray)

/-- `REGION_Coalesce`: merge the band at `curStart` into the one at `prevStart` when they
touch and have rectangles in the same places.  Returns the start of the last band. -/
def coalesce (prevStart curStart : Nat) : RectArray × Nat :=
  let prevNumRects := curStart - prevStart
  let prevBand := (array.rects.drop prevStart).take prevNumRects
  let curBand := bandOf (array.rects.drop curStart)
  let others := afterBand (array.rects.drop curStart)
  let curStart := if others = [] then curStart else lastBandStart array.rects
  match prevBand, curBand with
  | prevRect :: _, curRect :: _ =>
    if curBand.length = prevNumRects ∧ prevRect.bottom = curRect.top then
      if (prevBand.zip curBand).all fun pair =>
          pair.1.left == pair.2.left && pair.1.right == pair.2.right then
        let merged := (prevBand.zip curBand).map fun pair => { pair.1 with bottom := pair.2.bottom }
        ({ array with
            rects := array.rects.take prevStart ++ merged ++ others },
          if others = [] then prevStart else curStart)
      else
        (array, curStart)
    else
      (array, curStart)
  | _, _ => (array, curStart)

/-- The test both calls of `REGION_Coalesce` in the sweep stand under. -/
def coalesceFrom (prevBand curBand : Nat) : RectArray × Nat :=
  if array.numRects ≠ curBand then
    coalesce array prevBand curBand
  else
    (array, prevBand)

/-- A callback for a band both regions meet. -/
abbrev OverlapFunc :=
  RectArray → List Rect → List Rect → Int → Int → RectArray

/-- A callback for a band only one region meets. -/
abbrev NonOverlapFunc :=
  RectArray → List Rect → Int → Int → RectArray

/-- Copy a band with the given top and bottom. -/
def copyBand : NonOverlapFunc :=
  fun array rects top bottom =>
    rects.foldl (fun array rect => array.append ⟨rect.left, top, rect.right, bottom⟩) array

/-- `REGION_UnionNonO` -/
def unionNonO : NonOverlapFunc :=
  copyBand

/-- `REGION_SubtractNonO1` -/
def subtractNonO1 : NonOverlapFunc :=
  copyBand

/-- `REGION_IntersectO` -/
def intersectO (array : RectArray) (first second : List Rect) (top bottom : Int) : RectArray :=
  match first, second with
  | [], _ => array
  | _ :: _, [] => array
  | r1 :: rest1, r2 :: rest2 =>
    let left := max r1.left r2.left
    let right := min r1.right r2.right
    let array :=
      if left < right then
        array.append ⟨left, top, right, bottom⟩
      else
        array
    -- Shift the pointer that extends to the right the least.
    if r1.right < r2.right then
      intersectO array rest1 (r2 :: rest2) top bottom
    else if r2.right < r1.right then
      intersectO array (r1 :: rest1) rest2 top bottom
    else
      intersectO array rest1 rest2 top bottom
  termination_by first.length + second.length

/-- `MERGERECT`: extend the last rectangle of the band or start a new one. -/
def mergeRect (rect : Rect) (top bottom : Int) : RectArray :=
  match array.rects.getLast? with
  | some last =>
    if last.top = top ∧ last.bottom = bottom ∧ last.right ≥ rect.left then
      if last.right < rect.right then
        { array with
          rects := array.rects.dropLast ++ [{ last with right := rect.right }] }
      else
        array
    else
      array.append ⟨rect.left, top, rect.right, bottom⟩
  | none => array.append ⟨rect.left, top, rect.right, bottom⟩

/-- `REGION_UnionO` -/
def unionO (array : RectArray) (first second : List Rect) (top bottom : Int) : RectArray :=
  match first, second with
  | [], [] => array
  | r1 :: rest1, [] => unionO (mergeRect array r1 top bottom) rest1 [] top bottom
  | [], r2 :: rest2 => unionO (mergeRect array r2 top bottom) [] rest2 top bottom
  | r1 :: rest1, r2 :: rest2 =>
    if r1.left < r2.left then
      unionO (mergeRect array r1 top bottom) rest1 (r2 :: rest2) top bottom
    else
      unionO (mergeRect array r2 top bottom) (r1 :: rest1) rest2 top bottom
  termination_by first.length + second.length

/-- The left fence after moving to the next minuend.  Behind the last one the source reads
one rectangle past the band, but leaves the loop without using the value. -/
def nextLeft (left : Int) (rects : List Rect) : Int :=
  match rects with
  | [] => left
  | rect :: _ => rect.left

/-- The loops of `REGION_SubtractO`; `left` is the leftmost unchecked point. -/
def subtractLoop (array : RectArray) (left : Int) (first second : List Rect) (top bottom : Int) :
    RectArray :=
  match first, second with
  | [], _ => array
  | r1 :: rest1, [] =>
    subtractLoop (array.append ⟨left, top, r1.right, bottom⟩)
      (nextLeft left rest1) rest1 [] top bottom
  | r1 :: rest1, r2 :: rest2 =>
    if r2.right ≤ left then
      -- Subtrahend missed the boat.
      subtractLoop array left (r1 :: rest1) rest2 top bottom
    else if r2.left ≤ left then
      -- Subtrahend precedes minuend: nuke the left edge of the minuend.
      if r2.right ≥ r1.right then
        subtractLoop array (nextLeft r2.right rest1) rest1 (r2 :: rest2) top bottom
      else
        subtractLoop array r2.right (r1 :: rest1) rest2 top bottom
    else if r2.left < r1.right then
      -- Left part of the subtrahend covers part of the minuend.
      let array := array.append ⟨left, top, r2.left, bottom⟩
      if r2.right ≥ r1.right then
        subtractLoop array (nextLeft r2.right rest1) rest1 (r2 :: rest2) top bottom
      else
        subtractLoop array r2.right (r1 :: rest1) rest2 top bottom
    else
      -- Minuend used up.
      let array :=
        if r1.right > left then
          array.append ⟨left, top, r1.right, bottom⟩
        else
          array
      subtractLoop array (nextLeft left rest1) rest1 (r2 :: rest2) top bottom
  termination_by first.length + second.length

/-- `REGION_SubtractO` -/
def subtractO : OverlapFunc :=
  fun array first second top bottom => subtractLoop array (nextLeft 0 first) first second top bottom

/-- Call a callback that may be `NULL`. -/
def callNonOverlap (nonOverlapFunc : Option NonOverlapFunc) (array : RectArray) (band : List Rect)
    (top bottom : Int) : RectArray :=
  match nonOverlapFunc with
  | none => array
  | some func => func array band top bottom

/-- The three callbacks a caller of `REGION_RegionOp` passes. -/
structure RegionFuncs where
  overlapFunc : OverlapFunc
  nonOverlap1Func : Option NonOverlapFunc
  nonOverlap2Func : Option NonOverlapFunc

/--
Handle the band that does not intersect, if any.  Also returns `ytop`, the top
of the next intersection.
-/
def nonOverlapStep (funcs : RegionFuncs) (array : RectArray) (r1 r2 : Rect)
    (band1 band2 : List Rect) (ybot : Int) : RectArray × Int :=
  if r1.top < r2.top then
    let top := max r1.top ybot
    let bot := min r1.bottom r2.top
    (if top ≠ bot then
        callNonOverlap funcs.nonOverlap1Func array band1 top bot
      else
        array,
      r2.top)
  else if r2.top < r1.top then
    let top := max r2.top ybot
    let bot := min r2.bottom r1.top
    (if top ≠ bot then
        callNonOverlap funcs.nonOverlap2Func array band2 top bot
      else
        array,
      r1.top)
  else
    (array, r1.top)

/-- The body of the sweep loop up to the second coalescing. -/
def regionRound (funcs : RegionFuncs) (array : RectArray) (prevBand : Nat) (r1 r2 : Rect)
    (band1 band2 : List Rect) (ybot : Int) : RectArray × Nat :=
  let curBand := array.numRects
  let (array, ytop) := nonOverlapStep funcs array r1 r2 band1 band2 ybot
  let (array, prevBand) := coalesceFrom array prevBand curBand
  let ybot := min r1.bottom r2.bottom
  let curBand := array.numRects
  let array :=
    if ybot > ytop then
      funcs.overlapFunc array band1 band2 ytop ybot
    else
      array
  coalesceFrom array prevBand curBand

/-- Pass the remaining bands of one region to its callback. -/
def appendBands (func : NonOverlapFunc) (array : RectArray) (rects : List Rect) (ybot : Int) :
    RectArray :=
  match rects with
  | [] => array
  | rect :: rest =>
    appendBands func
      (func array (bandOf (rect :: rest)) (max rect.top ybot) rect.bottom)
      (afterBand (rect :: rest)) ybot
  termination_by rects.length
  decreasing_by exact length_afterBand_lt rect rest

/-- The loop over one region's remaining bands stands under a `NULL` test. -/
def appendRest (nonOverlapFunc : Option NonOverlapFunc) (array : RectArray) (rects : List Rect)
    (ybot : Int) : RectArray :=
  match nonOverlapFunc with
  | none => array
  | some func => appendBands func array rects ybot

/-- What `REGION_RegionOp` does after one region has been exhausted. -/
def finishRegionOp (funcs : RegionFuncs) (array : RectArray) (prevBand : Nat)
    (first second : List Rect) (ybot : Int) : RectArray :=
  let curBand := array.numRects
  let array :=
    if first ≠ [] then
      appendRest funcs.nonOverlap1Func array first ybot
    else if second ≠ [] then
      appendRest funcs.nonOverlap2Func array second ybot
    else
      array
  (coalesceFrom array prevBand curBand).1

/--
The sweep of `REGION_RegionOp`.  The source tests its loop condition at the
bottom; every caller has checked that both regions are nonempty.
-/
def regionSweep (funcs : RegionFuncs) (array : RectArray) (prevBand : Nat)
    (first second : List Rect) (ybot : Int) : RectArray :=
  match first, second with
  | [], _ => finishRegionOp funcs array prevBand [] second ybot
  | _ :: _, [] => finishRegionOp funcs array prevBand first [] ybot
  | r1 :: rest1, r2 :: rest2 =>
    let round :=
      regionRound funcs array prevBand r1 r2 (bandOf (r1 :: rest1)) (bandOf (r2 :: rest2)) ybot
    let ybot := min r1.bottom r2.bottom
    -- Skip forward to the next band of a region whose band is finished.
    let next1 := if r1.bottom = ybot then afterBand (r1 :: rest1) else r1 :: rest1
    let next2 := if r2.bottom = ybot then afterBand (r2 :: rest2) else r2 :: rest2
    regionSweep funcs round.1 round.2 next1 next2 ybot
  termination_by first.length + second.length
  decreasing_by
    have shorter1 := length_afterBand_lt r1 rest1
    have shorter2 := length_afterBand_lt r2 rest2
    split <;> split <;> omega

/-- Give back unused capacity when more than half of it is unused. -/
def shrinkArray : RectArray :=
  if array.numRects < array.size / 2 ∧ array.numRects > 2 then
    { array with size := array.numRects }
  else
    array

end Winex.Gdi
