import Winex.ScanConversion
import Winex.WindingTable

namespace Winex.Gdi

open Banding List

/-!
# The points of the scanlines

The scanline loop buffers, scanline by scanline, an even number of columns in
ascending order.  A pixel is filled exactly when an odd number of them lie at
or before it.
-/

/-- All buffered points. -/
def PointBlocks.points (blocks : PointBlocks) : List Point :=
  blocks.full.flatten ++ blocks.current

/-- Full blocks are full, and the current one is not. -/
structure PointBlocks.Proper (blocks : PointBlocks) : Prop where
  full : ∀ block ∈ blocks.full, block.length = numPtsToBuffer
  current : blocks.current.length < numPtsToBuffer

theorem PointBlocks.points_push (blocks : PointBlocks) (point : Point) :
    (blocks.push point).points = blocks.points ++ [point] := by
  unfold PointBlocks.push
  split <;> simp [PointBlocks.points]

variable {blocks : PointBlocks} {last start : Int} {points : List Point}
  {row : Int → List Int → Prop}

theorem PointBlocks.Proper.push (proper : blocks.Proper) (point : Point) :
    (blocks.push point).Proper := by
  have room := proper.current
  unfold PointBlocks.push
  split
  next filled =>
    refine ⟨forall_mem_append.mpr ⟨proper.full, ?_⟩, by simp [numPtsToBuffer]⟩
    exact forall_mem_singleton.mpr filled
  next notFilled =>
    refine ⟨proper.full, ?_⟩
    rw [length_append, length_singleton] at *
    omega

/-- The points of some columns on a scanline. -/
def rowPoints (y : Int) (columns : List Int) : List Point :=
  columns.map fun x => ⟨x, y⟩

/-- The columns of some entries. -/
def columnsOf (entries : List EdgeTableEntry) : List Int :=
  entries.map fun entry => entry.bres.minorAxis

theorem PointBlocks.points_pushRow (blocks : PointBlocks) (y : Int)
    (entries : List EdgeTableEntry) :
    (blocks.pushRow y entries).points = blocks.points ++ rowPoints y (columnsOf entries) := by
  induction entries generalizing blocks with
  | nil => simp [PointBlocks.pushRow, rowPoints, columnsOf]
  | cons entry _ ih =>
    have pushed := ih (blocks.push ⟨entry.bres.minorAxis, y⟩)
    rw [points_push, append_assoc] at pushed
    exact pushed

theorem PointBlocks.Proper.pushRow (proper : blocks.Proper) (y : Int)
    (entries : List EdgeTableEntry) : (blocks.pushRow y entries).Proper := by
  induction entries generalizing blocks with
  | nil => exact proper
  | cons _ _ ih => exact ih (proper.push _)

/-- Columns that bound the filled pixels of a scanline. -/
structure RowOf (inside : Int → Int → Prop) (y : Int) (columns : List Int) : Prop where
  sorted : columns.Pairwise (· ≤ ·)
  even : Even columns.length
  odd_iff : ∀ x, Odd (columns.countP fun column => column ≤ x) ↔ inside x y

/-- The points of the scanlines from `y` up to `last`, row by row. -/
inductive ScanRows (row : Int → List Int → Prop) : Int → Int → List Point → Prop where
  | nil (y : Int) : ScanRows row y y []
  | cons {y last : Int} {columns : List Int} {points : List Point} : row y columns →
      ScanRows row (y + 1) last points → ScanRows row y last (rowPoints y columns ++ points)

theorem ScanRows.mono {other : Int → List Int → Prop}
    (weaker : ∀ y columns, row y columns → other y columns)
    (rows : ScanRows row start last points) : ScanRows other start last points := by
  induction rows with
  | nil y => exact ScanRows.nil y
  | cons here _ ih => exact ScanRows.cons (weaker _ _ here) ih

theorem ScanRows.le (rows : ScanRows row start last points) : start ≤ last := by
  induction rows with
  | nil => exact le_refl _
  | cons => omega

/-- The entries of an active edge table that bound filled pixels. -/
def boundaryEntries (mode : PolyFillMode) (aet : List EdgeTableEntry) : List EdgeTableEntry :=
  match mode with
  | .alternate => aet
  | .winding => turningEntries 0 aet

/-- Columns buffered for a scanline of some edges. -/
def RowFrom (edges : List Edge) (mode : PolyFillMode) (y : Int) (columns : List Int) : Prop :=
  ∃ aet pSLL, Entered edges.zipIdx y aet pSLL ∧ columns = columnsOf (boundaryEntries mode aet)

section Rows

variable {edges : List Edge} (fits : ∀ edge ∈ edges, edge.Fits) {y : Int}
  {aet : List EdgeTableEntry} {pSLL : List ScanLineList} (entered : Entered edges.zipIdx y aet pSLL)

include fits in
theorem minorAxis_le_iff {pooled : Edge × Nat} (member : pooled ∈ edges.zipIdx)
    (active : pooled.1.Active y) (x : Int) :
    (entryAt y pooled).bres.minorAxis ≤ x ↔ pooled.1.CrossesBefore x y := by
  obtain ⟨edge, id⟩ := pooled
  have inEdges : edge ∈ edges := fst_mem_of_mem_zipIdx member
  rw [(fits edge inEdges).minorAxis_entryAt active, Int.ceil_le]
  simp [Edge.CrossesBefore, active]

theorem map_fst_filter_zipIdx (chosen : Edge → Bool) :
    (edges.zipIdx.filter fun pooled => chosen pooled.1).map Prod.fst = edges.filter chosen := by
  conv_rhs => rw [← zipIdx_map_fst 0 edges]
  rw [filter_map]
  rfl

section Chosen

variable (chosen : EdgeTableEntry → Bool) (described : Edge → Bool)
  (same : ∀ pooled ∈ edges.zipIdx,
    (pooled.1.Active y ∧ chosen (entryAt y pooled) = true) ↔ described pooled.1 = true)
include entered same

theorem Entered.filter_perm :
    (aet.filter chosen).Perm
      ((edges.zipIdx.filter fun pooled => described pooled.1).map (entryAt y)) := by
  refine (entered.active.filter _).trans (List.Perm.of_eq ?_)
  rw [activeEntries, filter_map, filter_filter]
  congr 1
  refine filter_congr fun pooled member => ?_
  rw [Bool.eq_iff_iff, ← same pooled member]
  simp only [Function.comp_apply, Bool.and_eq_true, decide_eq_true_eq]
  exact and_comm

theorem Entered.countP_eq : aet.countP chosen = edges.countP described := by
  rw [countP_eq_length_filter, (entered.filter_perm chosen described same).length_eq, length_map,
    countP_eq_length_filter, ← map_fst_filter_zipIdx, length_map]

end Chosen

include fits in
theorem crossesBefore_iff (x : Int) :
    ∀ pooled ∈ edges.zipIdx, (pooled.1.Active y ∧
        decide ((entryAt y pooled).bres.minorAxis ≤ x) = true) ↔
      decide (pooled.1.CrossesBefore x y) = true := by
  intro _ member
  rw [decide_eq_true_eq, decide_eq_true_eq]
  constructor
  · rintro ⟨active, before⟩
    exact (minorAxis_le_iff fits member active x).mp before
  · intro crosses
    exact ⟨crosses.1, (minorAxis_le_iff fits member crosses.1 x).mpr crosses⟩

theorem map_direction_entryAt (chosen : Edge → Bool) :
    ((edges.zipIdx.filter fun pooled => chosen pooled.1).map
        (entryAt y)).map EdgeTableEntry.direction =
      (edges.filter chosen).map Edge.direction := by
  rw [← map_fst_filter_zipIdx, map_map, map_map]
  rfl

include fits entered in
theorem Entered.sum_before (x : Int) :
    ((aet.filter fun entry => entry.bres.minorAxis ≤ x).map EdgeTableEntry.direction).sum =
      ((edges.filter fun edge => edge.CrossesBefore x y).map Edge.direction).sum := by
  have same :=
    entered.filter_perm (fun entry => entry.bres.minorAxis ≤ x)
      (fun edge => edge.CrossesBefore x y) (crossesBefore_iff fits x)
  rw [(same.map _).sum_eq]
  exact congrArg sum (map_direction_entryAt fun edge => edge.CrossesBefore x y)

include entered in
theorem Entered.sum_direction :
    (aet.map EdgeTableEntry.direction).sum =
      ((edges.filter fun edge => edge.Active y).map Edge.direction).sum := by
  rw [(entered.active.map _).sum_eq]
  exact congrArg sum (map_direction_entryAt fun edge => edge.Active y)

include entered in
theorem Entered.length_eq : aet.length = (edges.filter fun edge => edge.Active y).length := by
  rw [entered.active.length_eq, activeEntries, length_map, ← map_fst_filter_zipIdx, length_map]

theorem nodup_id_of_perm {chosen : Edge × Nat → Bool}
    (same : aet.Perm ((edges.zipIdx.filter chosen).map (entryAt y))) :
    (aet.map EdgeTableEntry.id).Nodup := by
  have places : (edges.zipIdx.map Prod.snd).Nodup := by
    rw [zipIdx_map_snd]
    exact nodup_range'
  rw [(same.map _).nodup_iff, map_map]
  exact places.sublist (filter_sublist.map _)

include fits entered in
theorem Entered.rowOf_evenOdd (even : Even (edges.filter fun edge => edge.Active y).length) :
    RowOf (EvenOdd edges) y (columnsOf aet) where
  sorted := pairwise_map.mpr entered.sorted
  even := by rwa [columnsOf, length_map, entered.length_eq]
  odd_iff := by
    intro x
    rw [columnsOf, countP_map]
    refine iff_of_eq (congrArg Odd ?_)
    exact entered.countP_eq (fun entry => entry.bres.minorAxis ≤ x)
      (fun edge => edge.CrossesBefore x y) (crossesBefore_iff fits x)

variable (balanced : ((edges.filter fun edge => edge.Active y).map Edge.direction).sum = 0)
include balanced

include fits entered in
/-- By the winding rule the linked edges bound filled pixels. -/
theorem Entered.rowOf_winding :
    RowOf (NonZeroWinding edges) y (columnsOf (turningEntries 0 aet)) where
  sorted :=
    pairwise_map.mpr (entered.sorted.sublist (turningPoints_sublist _ _ _))
  even := by
    rw [columnsOf, length_map, ← Nat.not_odd_iff_even,
      odd_length_turningPoints, entered.sum_direction, balanced]
    simp
  odd_iff := by
    intro x
    rw [columnsOf, countP_map]
    have turns := countP_turningPoints EdgeTableEntry.direction entered.sorted x 0
    refine (congrArg Odd turns).to_iff.trans ((odd_length_turningPoints ..).trans ?_)
    rw [zero_add, entered.sum_before fits x, NonZeroWinding]
    simp

include fits in
theorem RowFrom.rowOf {mode : PolyFillMode}
    {columns : List Int} (row : RowFrom edges mode y columns) :
    RowOf (Filled mode edges) y columns := by
  obtain ⟨_, _, entered, rfl⟩ := row
  cases mode with
  | alternate =>
    refine entered.rowOf_evenOdd fits ?_
    rw [even_length_iff_even_sum, balanced]
    exact Even.zero
  | winding => exact entered.rowOf_winding fits balanced

end Rows

/-- The scanline loop at the start of a scanline. -/
structure Scans (edges : List Edge) (mode : PolyFillMode) (y : Int) (state : ScanState) : Prop where
  scanning : Scanning edges.zipIdx y state.aet state.pSLL
  linked : mode = .winding → Linked state.links state.aet

/-- What a scanline does: it buffers a row, and the loop is at the next one. -/
def Scans.Next (edges : List Edge) (mode : PolyFillMode) (y : Int) (state after : ScanState) :
    Prop :=
  ∃ entries, after.blocks = state.blocks.pushRow y entries ∧
    RowFrom edges mode y (columnsOf entries) ∧ Scans edges mode (y + 1) after

section Loop

variable {edges : List Edge} (fits : ∀ edge ∈ edges, edge.Fits) {y : Int} {state : ScanState}

include fits in
theorem Scans.scanEvenOdd (scans : Scans edges .alternate y state) :
    Scans.Next edges .alternate y state (Gdi.scanEvenOdd y state) := by
  have entered := scans.scanning.enter
  have next := entered.next fun _ member => fits _ (fst_mem_of_mem_zipIdx member)
  exact ⟨_, rfl, ⟨_, _, entered, rfl⟩, next, by simp⟩

/-- Edges that are only stepped keep their order and their links. -/
theorem Linked.evaluate {links : WindingLinks} {aet : List EdgeTableEntry}
    (linked : Linked links aet) (noneLeaves : (aet.any fun pAET => pAET.ymax = y) = false)
    (notChanged : (insertionSort (aet.filterMap (evaluateEdge y))).2 = false) :
    Linked links (insertionSort (aet.filterMap (evaluateEdge y))).1 := by
  have stepped : aet.filterMap (evaluateEdge y) =
      aet.map fun pAET => { pAET with bres := bresIncrPgon pAET.bres } := by
    rw [← filterMap_eq_map]
    refine filterMap_congr fun pAET member => ?_
    have stays : ¬ pAET.ymax = y := by simpa using any_eq_false.mp noneLeaves pAET member
    rw [evaluateEdge, if_neg stays]
    rfl
  rw [insertionSort, (insertionSortFrom_of_not_changed notChanged).2, stepped]
  refine linked.map _ ?_ ?_
  · exact fun _ => rfl
  · exact fun _ => rfl

include fits in
/-- One scanline of the winding loop. -/
theorem Scans.scanWinding (scans : Scans edges .winding y state) :
    Scans.Next edges .winding y state (Gdi.scanWinding y state) := by
  have entered := scans.scanning.enter
  have next := entered.next fun _ member => fits _ (fst_mem_of_mem_zipIdx member)
  have linked : Linked
        (if (enterEdges y state.aet state.pSLL).2.2 = true then
          computeWAET (enterEdges y state.aet state.pSLL).1 state.links
        else state.links)
        (enterEdges y state.aet state.pSLL).1 := by
    split
    · exact linked_computeWAET (nodup_id_of_perm entered.active) _
    next notEntered =>
      rw [enterEdges_of_not_entered (Bool.eq_false_iff.mpr notEntered)]
      exact scans.linked rfl
  unfold Gdi.scanWinding
  dsimp only
  generalize (if (enterEdges y state.aet state.pSLL).2.2 = true then
      computeWAET (enterEdges y state.aet state.pSLL).1 state.links
    else state.links) = links at *
  generalize (enterEdges y state.aet state.pSLL).1 = aet at *
  refine ⟨_, rfl, ?_, ⟨next, fun _ => ?_⟩⟩
  · have followed : windingEdges links (aet.head?.map (·.id)) aet = turningEntries 0 aet := linked
    exact ⟨_, _, entered, congrArg columnsOf followed⟩
  · split
    · exact linked_computeWAET (nodup_id_of_perm next.active) _
    next kept =>
      rw [Bool.or_eq_true, not_or, Bool.not_eq_true, Bool.not_eq_true] at kept
      exact linked.evaluate kept.2 kept.1

variable {mode : PolyFillMode}

include fits in
theorem Scans.scanLine (scans : Scans edges mode y state) :
    Scans.Next edges mode y state (Gdi.scanLine mode y state) := by
  cases mode with
  | alternate => exact scans.scanEvenOdd fits
  | winding => exact scans.scanWinding fits

include fits in
/-- The scanline loop buffers the rows of the filled pixels. -/
theorem Scans.scanLines (scans : Scans edges mode y state) (proper : state.blocks.Proper)
    (count : Nat) :
    (Gdi.scanLines mode count y state).blocks.Proper ∧
      ∃ points, ScanRows (RowFrom edges mode) y (y + count) points ∧
        (Gdi.scanLines mode count y state).blocks.points = state.blocks.points ++ points := by
  induction count generalizing y state with
  | zero =>
    refine ⟨proper, [], ?_, by simp [Gdi.scanLines]⟩
    simpa using ScanRows.nil y
  | succ count ih =>
    obtain ⟨entries, pushed, row, next⟩ := scans.scanLine fits
    obtain ⟨properAfter, points, rows, buffered⟩ := ih next (pushed ▸ proper.pushRow y entries)
    refine ⟨properAfter, rowPoints y (columnsOf entries) ++ points, ?_, ?_⟩
    · have last : y + ((count + 1 : Nat) : Int) = y + 1 + count := by
        push_cast
        ring
      rw [last]
      exact ScanRows.cons row rows
    · rw [pushed, PointBlocks.points_pushRow, append_assoc] at buffered
      exact buffered

end Loop

end Winex.Gdi
