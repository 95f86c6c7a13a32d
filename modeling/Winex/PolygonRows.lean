import Winex.ScanRows

namespace Winex.Gdi

open Banding List

/-!
# Columns and edges

Which columns a scanline buffers follows from the edges that cross it, up to the order
of edges in one column.
-/

namespace Edge

/-- The scanline crosses the edge in column `x` or behind it. -/
def CrossesFrom (edge : Edge) (x y : Int) : Prop :=
  edge.Active y ∧ ¬ edge.abscissa y ≤ (x - 1 : Int)

instance (edge : Edge) (x y : Int) : Decidable (edge.CrossesFrom x y) :=
  inferInstanceAs (Decidable (_ ∧ _))

/-- The scanline crosses the edge in column `x`. -/
def CrossesAt (edge : Edge) (x y : Int) : Prop :=
  edge.CrossesFrom x y ∧ edge.abscissa y ≤ x

instance (edge : Edge) (x y : Int) : Decidable (edge.CrossesAt x y) :=
  inferInstanceAs (Decidable (_ ∧ _))

end Edge

/-- The winding number of the edges crossed at or before a pixel. -/
def windingBefore (edges : List Edge) (x y : Int) : Int :=
  ((edges.filter fun edge => edge.CrossesBefore x y).map Edge.direction).sum

/-- No boundary lies in column `x`, whatever the order of its edges: there is none, or, by
the winding rule, too few for the winding number to reach zero. -/
def Steady (mode : PolyFillMode) (edges : List Edge) (x y : Int) : Prop :=
  match mode with
  | .alternate => ∀ edge ∈ edges, ¬ edge.CrossesAt x y
  | .winding =>
    0 < windingBefore edges (x - 1) y -
        edges.countP (fun edge => edge.CrossesAt x y ∧ edge.direction = -1) ∨
      windingBefore edges (x - 1) y +
          edges.countP (fun edge => edge.CrossesAt x y ∧ edge.direction = 1) <
        0

/-- The number of crossings of edges and scanlines up to `y`. -/
def crossings (edges : List Edge) (y : Int) : Nat :=
  (edges.map fun edge => (min edge.bottom.y (y + 1) - edge.top.y).toNat).sum

theorem crossings_eq (edges : List Edge) (y : Int) :
    crossings edges y =
      crossings edges (y - 1) + (edges.filter fun edge => edge.Active y).length := by
  induction edges with
  | nil => rfl
  | cons edge =>
    unfold crossings at *
    simp only [map_cons, sum_cons, filter_cons, decide_eq_true_eq]
    split
    next active =>
      unfold Edge.Active at active
      rw [length_cons]
      omega
    next passive =>
      unfold Edge.Active at passive
      omega

variable {edges : List Edge} {y x : Int} {aet : List EdgeTableEntry}

theorem crossings_eq_zero (below : ∀ edge ∈ edges, y < edge.top.y) : crossings edges y = 0 := by
  unfold crossings
  rw [sum_eq_zero]
  intro _ member
  obtain ⟨edge, edgeMember, rfl⟩ := mem_map.mp member
  have := below edge edgeMember
  omega

theorem boundaryEntries_sublist (mode : PolyFillMode) (aet : List EdgeTableEntry) :
    (boundaryEntries mode aet).Sublist aet := by
  cases mode with
  | alternate => exact List.Sublist.refl _
  | winding => exact turningPoints_sublist _ _ _

section Row

variable {edges : List Edge} {mode : PolyFillMode} {y : Int} {columns : List Int}
  (row : RowFrom edges mode y columns)

include row

theorem RowFrom.length_le : columns.length ≤ (edges.filter fun edge => edge.Active y).length := by
  obtain ⟨aet, _, entered, rfl⟩ := row
  rw [← entered.length_eq, columnsOf, length_map]
  exact (boundaryEntries_sublist mode aet).length_le

theorem RowFrom.length_eq (evenOdd : mode = .alternate) :
    columns.length = (edges.filter fun edge => edge.Active y).length := by
  obtain ⟨_, _, entered, rfl⟩ := row
  rw [← entered.length_eq, columnsOf, length_map, evenOdd]
  rfl

theorem RowFrom.ne_nil {edge : Edge} (member : edge ∈ edges) (active : edge.Active y) :
    columns ≠ [] := by
  obtain ⟨aet, _, entered, rfl⟩ := row
  have someActive : aet ≠ [] := by
    rw [← length_pos_iff, entered.length_eq, length_pos_iff]
    exact ne_nil_of_mem (mem_filter.mpr ⟨member, by simpa using active⟩)
  rw [columnsOf, Ne, map_eq_nil_iff]
  cases mode with
  | alternate => exact someActive
  | winding =>
    obtain ⟨first, _, rfl⟩ := exists_cons_of_ne_nil someActive
    -- The first edge takes the winding number away from zero.
    have turns : first.direction ≠ 0 := by
      unfold EdgeTableEntry.direction
      split <;> simp
    simp [boundaryEntries, turningPoints, turns]

/-- Columns from `x` on belong to edges crossed there. -/
theorem RowFrom.countP_le (fits : ∀ edge ∈ edges, edge.Fits) (x : Int) :
    columns.countP (fun column => x ≤ column) ≤ edges.countP fun edge => edge.CrossesFrom x y := by
  obtain ⟨aet, _, entered, rfl⟩ := row
  have same : ∀ pooled ∈ edges.zipIdx, (pooled.1.Active y ∧
        decide (x ≤ (entryAt y pooled).bres.minorAxis) = true) ↔
      decide (pooled.1.CrossesFrom x y) = true := by
    intro _ member
    rw [decide_eq_true_eq, decide_eq_true_eq, Edge.CrossesFrom]
    refine and_congr_right fun active => ?_
    have before := minorAxis_le_iff fits member active (x - 1)
    simp only [Edge.CrossesBefore, active, true_and] at before
    rw [← before]
    omega
  rw [← entered.countP_eq (fun entry => x ≤ entry.bres.minorAxis) _ same, columnsOf, countP_map]
  exact (boundaryEntries_sublist mode aet).countP_le

end Row

/-- The entries of one column. -/
def entriesIn (aet : List EdgeTableEntry) (x : Int) : List EdgeTableEntry :=
  aet.filter fun entry => ¬ entry.bres.minorAxis ≤ x - 1 ∧ entry.bres.minorAxis ≤ x

theorem SortedByColumn.split (sorted : SortedByColumn aet) (x : Int) :
    (aet.filter fun entry => entry.bres.minorAxis ≤ x - 1) ++
        (entriesIn aet x ++ aet.filter fun entry => ¬ entry.bres.minorAxis ≤ x) =
      aet := by
  have fromColumn : SortedByColumn (aet.filter fun entry => ¬ entry.bres.minorAxis ≤ x - 1) :=
    sorted.sublist filter_sublist
  have first := filter_le_append_filter sorted (x - 1)
  have second := filter_le_append_filter fromColumn x
  rw [filter_filter, filter_filter] at second
  conv_rhs => rw [← first, ← second]
  congr 2
  · refine filter_congr fun entry _ => ?_
    simp only [Bool.decide_and]
    exact Bool.and_comm _ _
  · refine filter_congr fun entry _ => ?_
    simp
    omega

theorem turningEntries_entriesIn_ne_nil (sorted : SortedByColumn aet)
    (member : x ∈ columnsOf (turningEntries 0 aet)) :
    turningEntries
        ((aet.filter fun entry => entry.bres.minorAxis ≤ x - 1).map EdgeTableEntry.direction).sum
        (entriesIn aet x) ≠
      [] := by
  obtain ⟨_, turning, _⟩ := mem_map.mp member
  rw [turningEntries, ← sorted.split x, turningPoints_append,
    turningPoints_append, zero_add] at turning
  rcases mem_append.mp turning with before | fromColumn
  · have := of_mem_filter ((turningPoints_sublist _ _ _).subset before)
    rw [decide_eq_true_eq] at this
    omega
  rcases mem_append.mp fromColumn with inColumn | behind
  · exact ne_nil_of_mem inColumn
  · have := of_mem_filter ((turningPoints_sublist _ _ _).subset behind)
    rw [decide_eq_true_eq] at this
    omega

section Steady

variable {edges : List Edge} (fits : ∀ edge ∈ edges, edge.Fits) {y : Int}
  {aet : List EdgeTableEntry} {pSLL : List ScanLineList} (entered : Entered edges.zipIdx y aet pSLL)

include fits in
theorem crossesAt_iff (x : Int) {pooled : Edge × Nat} (member : pooled ∈ edges.zipIdx) :
    (pooled.1.Active y ∧
        ¬ (entryAt y pooled).bres.minorAxis ≤ x - 1 ∧ (entryAt y pooled).bres.minorAxis ≤ x) ↔
      pooled.1.CrossesAt x y := by
  rw [Edge.CrossesAt, Edge.CrossesFrom, and_assoc]
  refine and_congr_right fun active => ?_
  have before := minorAxis_le_iff fits member active (x - 1)
  have upTo := minorAxis_le_iff fits member active x
  simp only [Edge.CrossesBefore, active, true_and] at before upTo
  rw [before, upTo]

include fits entered in
theorem Entered.countP_entriesIn (x direction : Int) :
    (entriesIn aet x).countP (fun entry => entry.direction = direction) =
      edges.countP fun edge =>
        edge.CrossesAt x y ∧ edge.direction = direction := by
  rw [entriesIn, countP_filter]
  refine entered.countP_eq _ _ fun pooled member => ?_
  have same := crossesAt_iff (y := y) fits x member
  simp only [Bool.and_eq_true, decide_eq_true_eq, ← same]
  tauto

end Steady

theorem RowFrom.not_mem_of_steady (fits : ∀ edge ∈ edges, edge.Fits) {mode : PolyFillMode}
    {columns : List Int} (row : RowFrom edges mode y columns) (steady : Steady mode edges x y)
    (filled : Filled mode edges (x - 1) y) : x ∉ columns := by
  obtain ⟨aet, _, entered, rfl⟩ := row
  intro member
  cases mode with
  | alternate =>
    obtain ⟨entry, active, _⟩ := mem_map.mp member
    obtain ⟨pooled, chosen, rfl⟩ := mem_map.mp (entered.active.mem_iff.mp active)
    obtain ⟨pooledMember, crossed⟩ := mem_filter.mp chosen
    refine steady pooled.1 (fst_mem_of_mem_zipIdx pooledMember) ?_
    refine (crossesAt_iff fits x pooledMember).mp ⟨by simpa using crossed, ?_⟩
    omega
  | winding =>
    have turns := turningEntries_entriesIn_ne_nil entered.sorted member
    rw [entered.sum_before fits] at turns
    have unit : ∀ entry ∈ entriesIn aet x, entry.direction = 1 ∨ entry.direction = -1 := by
      intro _ _
      unfold EdgeTableEntry.direction
      split <;> simp
    have bounds := bounds_of_turningPoints_ne_nil _ _ unit filled turns
    rw [entered.countP_entriesIn fits, entered.countP_entriesIn fits] at bounds
    unfold Steady windingBefore at steady
    omega

end Winex.Gdi
