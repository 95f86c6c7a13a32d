import Winex.PolygonRegion

namespace Winex.Gdi

open List

/-!
# `CreatePolyPolygonRgn` fills polygons

The special case for rectangles and the scan conversion both yield the pixels
of the filling rule.
-/

variable {edges : List Edge} {mode : PolyFillMode} {x y : Int}

theorem Filled.exists_crossed (filled : Filled mode edges x y) :
    ∃ edge ∈ edges, edge.CrossesBefore x y := by
  by_contra none
  have noCrossing : edges.filter (fun edge => edge.CrossesBefore x y) = [] := by
    rw [filter_eq_nil_iff]
    intro edge member crosses
    exact none ⟨edge, member, of_decide_eq_true crosses⟩
  cases mode with
  | alternate => simp [Filled, EvenOdd, countP_eq_length_filter, noCrossing] at filled
  | winding => simp [Filled, NonZeroWinding, noCrossing] at filled

theorem Filled.exists_active (filled : Filled mode edges x y) : ∃ edge ∈ edges, edge.Active y := by
  obtain ⟨edge, member, crosses⟩ := filled.exists_crossed
  exact ⟨edge, member, crosses.1⟩

theorem filled_congr {first second : List Edge} (same : first.Perm second) (mode : PolyFillMode)
    (x y : Int) : Filled mode first x y ↔ Filled mode second x y := by
  cases mode with
  | alternate => simp only [Filled, EvenOdd, same.countP_eq]
  | winding => simp only [Filled, NonZeroWinding, ((same.filter _).map _).sum_eq]

theorem filled_opposite {first second : Edge} (opposite : first.direction + second.direction = 0)
    (mode : PolyFillMode) (x y : Int) :
    Filled mode [first, second] x y ↔ ¬ (first.CrossesBefore x y ↔ second.CrossesBefore x y) := by
  have notZero : ∀ edge : Edge, edge.direction ≠ 0 := by
    intro _
    unfold Edge.direction
    split <;> decide
  by_cases firstCrossed : first.CrossesBefore x y <;>
    by_cases secondCrossed : second.CrossesBefore x y <;>
    cases mode <;>
    simp [Filled, EvenOdd, NonZeroWinding, firstCrossed, secondCrossed, notZero, opposite]

variable {edge : Edge} {polygons : List (List Point)}

theorem Edge.crossesBefore_of_vertical (vertical : edge.bottom.x = edge.top.x) (x y : Int) :
    edge.CrossesBefore x y ↔ edge.Active y ∧ edge.top.x ≤ x := by
  simp [Edge.CrossesBefore, Edge.abscissa, vertical]

/-- The edges of a box whose sides are walked in opposite directions. -/
theorem filled_box (mode : PolyFillMode) (left top right bottom x y : Int) :
    Filled mode
        ((Edge.between ⟨left, top⟩ ⟨left, bottom⟩).toList ++
          (Edge.between ⟨right, bottom⟩ ⟨right, top⟩).toList) x y ↔
      (sortedRect ⟨left, top, right, bottom⟩).InRect x y := by
  simp only [sortedRect, sortEdges, Rect.InRect]
  rcases lt_trichotomy top bottom with down | flat | up
  · rw [Edge.between_of_lt (by exact down), Edge.between_of_gt (by exact down)]
    refine (filled_opposite rfl mode x y).trans ?_
    rw [Edge.crossesBefore_of_vertical rfl, Edge.crossesBefore_of_vertical rfl]
    simp only [Edge.Active]
    grind
  · rw [Edge.between_of_eq (by exact flat), Edge.between_of_eq (by exact flat.symm)]
    have nothing : ¬ Filled mode [] x y := by
      intro filled
      obtain ⟨_, member, -⟩ := filled.exists_active
      simp at member
    grind
  · rw [Edge.between_of_gt (by exact up), Edge.between_of_lt (by exact up)]
    refine (filled_opposite rfl mode x y).trans ?_
    rw [Edge.crossesBefore_of_vertical rfl, Edge.crossesBefore_of_vertical rfl]
    simp only [Edge.Active]
    grind

/-- The corners of a rectangle, in either order around it. -/
def Corners (first second third fourth : Point) : Prop :=
  (first.y = second.y ∧ second.x = third.x ∧ third.y = fourth.y ∧ fourth.x = first.x) ∨
    (first.x = second.x ∧ second.y = third.y ∧ third.x = fourth.x ∧ fourth.y = first.y)

/-- Walking around a rectangle fills it. -/
theorem filled_corners {first second third fourth : Point}
    (corners : Corners first second third fourth) (mode : PolyFillMode) (x y : Int) :
    Filled mode
        (stepEdges [(first, second), (second, third), (third, fourth), (fourth, first)]) x y ↔
      (sortedRect ⟨first.x, first.y, third.x, third.y⟩).InRect x y := by
  simp only [stepEdges_cons, stepEdges_nil, append_nil]
  obtain ⟨_, _⟩ := second
  obtain ⟨_, _⟩ := fourth
  have flat : ∀ a b c : Int, Edge.between ⟨a, c⟩ ⟨b, c⟩ = none :=
    fun _ _ _ => Edge.between_of_eq rfl
  rcases corners with ⟨h1, h2, h3, h4⟩ | ⟨h1, h2, h3, h4⟩
  · subst h1 h2 h3 h4
    rw [flat, flat, Option.toList_none, nil_append, nil_append, filled_box]
    simp only [sortedRect, sortEdges, Rect.InRect]
    grind
  · subst h1 h2 h3 h4
    rw [flat, flat, Option.toList_none, nil_append, append_nil, filled_box]

/-- The special case recognises walks around a rectangle. -/
theorem filled_rectangle (rectangle : IsRectangle polygons.flatten (polygons.map List.length))
    (mode : PolyFillMode) (x y : Int) :
    Filled mode (polygonEdges polygons) x y ↔
      (sortedRect
        ⟨(polygons.flatten.getD 0 ⟨0, 0⟩).x,
          (polygons.flatten.getD 0 ⟨0, 0⟩).y,
          (polygons.flatten.getD 2 ⟨0, 0⟩).x,
          (polygons.flatten.getD 2 ⟨0, 0⟩).y⟩).InRect x y := by
  obtain ⟨counts, corners⟩ := rectangle
  rcases counts with four | ⟨five, closed⟩
  · obtain ⟨polygon, rfl, count⟩ := map_eq_singleton_iff.mp four
    match polygon, count with
    | [_, _, _, _], _ => exact filled_corners corners mode x y
  obtain ⟨polygon, rfl, count⟩ := map_eq_singleton_iff.mp five
  match polygon, count with
  | [first, second, third, fourth, ⟨lastX, lastY⟩], _ =>
    -- The closing point repeats the first one and adds no edge.
    obtain ⟨rfl, rfl⟩ : lastX = first.x ∧ lastY = first.y := closed
    have noEdge : Edge.between first first = none := Edge.between_of_eq rfl
    have walked := filled_corners corners mode x y
    refine Iff.trans (iff_of_eq ?_) walked
    change Filled mode (stepEdges
      [(first, second), (second, third), (third, fourth), (fourth, first), (first, first)]) x y = _
    simp [stepEdges_cons, noEdge]

/-- No coordinate leaves the `INT`s, and no edge is too long to be stepped. -/
structure PolygonsFit (polygons : List (List Point)) : Prop where
  coordinates : ∀ polygon ∈ polygons, ∀ point ∈ polygon, FitsInt point.x ∧ FitsInt point.y
  width : ∀ edge ∈ polygonEdges polygons, FitsInt (edge.bottom.x - edge.top.x)
  height : ∀ edge ∈ polygonEdges polygons, FitsInt (2 * (edge.bottom.y - edge.top.y))

theorem mem_of_mem_polygonEdges (member : edge ∈ polygonEdges polygons) :
    ∃ polygon ∈ polygons, edge.top ∈ polygon ∧ edge.bottom ∈ polygon := by
  obtain ⟨⟨first, second⟩, inWalk, between⟩ := mem_filterMap.mp member
  obtain ⟨polygon, inPolygons, inZip⟩ := mem_flatMap.mp inWalk
  have firstMember := (of_mem_zip inZip).1
  have secondMember := mem_rotate.mp (of_mem_zip inZip).2
  refine ⟨polygon, inPolygons, ?_⟩
  obtain ⟨_, rfl⟩ | ⟨_, rfl⟩ := Edge.of_between between
  · exact ⟨firstMember, secondMember⟩
  · exact ⟨secondMember, firstMember⟩

theorem PolygonsFit.edge_fits (fits : PolygonsFit polygons)
    (member : edge ∈ polygonEdges polygons) : edge.Fits := by
  obtain ⟨polygon, inPolygons, top, bottom⟩ := mem_of_mem_polygonEdges member
  have topFits := fits.coordinates polygon inPolygons _ top
  have bottomFits := fits.coordinates polygon inPolygons _ bottom
  exact ⟨topFits.2, bottomFits.2,
    ⟨Int.sub_pos.mpr edge.tall, fits.height edge member,
      fits.width edge member, topFits.1, bottomFits.1⟩⟩

theorem TableOf.scans {steps : List (Point × Point)} {et : EdgeTable} {pETEs : Nat}
    (table : TableOf steps (et, pETEs)) (closed : ClosedWalk steps) (mode : PolyFillMode) :
    Scans (stepEdges steps) mode et.ymin
      { aet := []
        links := fun _ => none
        pSLL := et.scanlines
        blocks := ⟨[], []⟩ } := by
  have bounded : ∀ pooled ∈ (stepEdges steps).zipIdx, et.ymin ≤ pooled.1.top.y := by
    intro _ member
    obtain ⟨⟨step, stepMember, height⟩, -⟩ := closed.departs (fst_mem_of_mem_zipIdx member)
    rw [← height]
    exact (table.bounds step stepMember).1
  have noneStarted : continuingEntries (stepEdges steps).zipIdx et.ymin = [] := by
    rw [continuingEntries, map_eq_nil_iff, filter_eq_nil_iff]
    intro pooled member
    have := bounded pooled member
    simp
    omega
  have allPending : ((stepEdges steps).zipIdx.filter fun pooled =>
          et.ymin ≤ pooled.1.top.y) =
        (stepEdges steps).zipIdx := by
    rw [filter_eq_self]
    intro pooled member
    simpa using bounded pooled member
  refine ⟨⟨?_, List.Pairwise.nil, ?_⟩, fun _ => rfl⟩
  · rw [noneStarted]
  · rw [allPending]
    exact table.holds

/-- The points buffered for some edges. -/
structure Scanned (edges : List Edge) (mode : PolyFillMode) (blocks : PointBlocks) : Prop where
  fits : ∀ edge ∈ edges, edge.Fits
  balanced : ∀ y, ((edges.filter fun edge => edge.Active y).map Edge.direction).sum = 0
  proper : blocks.Proper
  rows : ∃ start last, ScanRows (RowFrom edges mode) start last blocks.points ∧
    ∀ edge ∈ edges, start ≤ edge.top.y ∧ edge.bottom.y ≤ last

theorem stepEdges_loopSteps_perm (vertices : ∀ polygon ∈ polygons, 2 ≤ polygon.length) :
    (stepEdges (loopSteps polygons)).Perm (polygonEdges polygons) :=
  (loopSteps_perm vertices).filterMap _

theorem scanned_scanConvert (vertices : ∀ polygon ∈ polygons, 2 ≤ polygon.length)
    (fits : PolygonsFit polygons) (mode : PolyFillMode) :
    Scanned (stepEdges (loopSteps polygons)) mode
      (scanConvert polygons.flatten (polygons.map List.length) mode) := by
  have closed := (closedWalk_walkSteps polygons).perm (loopSteps_perm vertices)
  have edges := stepEdges_loopSteps_perm vertices
  have edgesFit : ∀ edge ∈ stepEdges (loopSteps polygons), edge.Fits :=
    fun edge member => fits.edge_fits (edges.mem_iff.mp member)
  obtain ⟨_, table⟩ := tableOf_createETandAET vertices
  have scans := table.scans closed mode
  have started : (⟨[], []⟩ : PointBlocks).Proper := ⟨by simp, by decide⟩
  unfold scanConvert
  generalize createETandAET polygons.flatten (polygons.map length) = et at *
  obtain ⟨proper, points, rows, buffered⟩ :=
    scans.scanLines edgesFit started (et.ymax - et.ymin).toNat
  have isPoints : (⟨[], []⟩ : PointBlocks).points ++ points = points := rfl
  rw [isPoints] at buffered
  refine ⟨edgesFit, closed.sum_direction, proper, et.ymin, _,
    buffered ▸ rows, fun edge member => ?_⟩
  obtain ⟨⟨first, firstMember, _⟩, second, secondMember, _⟩ := closed.departs member
  have topBound := (table.bounds first firstMember).1
  have bottomBound := (table.bounds second secondMember).2
  dsimp only at topBound bottomBound
  omega

namespace Scanned

variable {edges : List Edge} {mode : PolyFillMode} {blocks : PointBlocks}
  (scanned : Scanned edges mode blocks)

include scanned

theorem row_fits (x y : Int) (filled : Filled mode edges x y) : FitsInt (y + 1) := by
  obtain ⟨edge, member, _, _⟩ := filled.exists_active
  have topFits := (scanned.fits edge member).top
  have bottomFits := (scanned.fits edge member).bottom
  unfold FitsInt at *
  omega

theorem contains_iff (x y : Int) : (ptsToRegion blocks).Contains x y ↔ Filled mode edges x y := by
  obtain ⟨_, _, rowsFrom, bounds⟩ := scanned.rows
  have rows := rowsFrom.mono fun y _ row => row.rowOf scanned.fits (scanned.balanced y)
  rw [contains_ptsToRegion scanned.proper (rows.pairFits scanned.row_fits), rows.contains_iff]
  refine and_iff_right_of_imp fun filled => ?_
  obtain ⟨edge, member, _, _⟩ := filled.exists_active
  have := bounds edge member
  omega

end Scanned

/-- `CreatePolyPolygonRgn` stores a box or the scan-converted region. -/
theorem stores_createPolyPolygonRgn (heap : GdiHeap) (hrgn : HRGN) (points : List Point)
    (counts : List Nat) (mode : PolyFillMode) :
    Stores hrgn
      (if IsRectangle points counts then
        boxContents
          ⟨min (points.getD 0 ⟨0, 0⟩).x (points.getD 2 ⟨0, 0⟩).x,
            min (points.getD 0 ⟨0, 0⟩).y (points.getD 2 ⟨0, 0⟩).y,
            max (points.getD 0 ⟨0, 0⟩).x (points.getD 2 ⟨0, 0⟩).x,
            max (points.getD 0 ⟨0, 0⟩).y (points.getD 2 ⟨0, 0⟩).y⟩
      else
        ptsToRegion (scanConvert points counts mode))
      heap (createPolyPolygonRgn heap hrgn points counts mode) := by
  have created := stores_createRegion heap hrgn counts.length
  unfold createPolyPolygonRgn
  split
  · exact created.trans (stores_setRectRgn (by simp [createRegion]) ⟨_, _, _, _⟩)
  · exact created.trans (Stores.set _ hrgn ⟨ptsToRegion (scanConvert points counts mode), _⟩)

/-- The region of polygons with at least two vertices each contains exactly the pixels
filled by the rule of the mode: at or before the pixel an odd number of edges, or, by the
winding rule, edges with a sum of directions other than zero, are crossed. -/
theorem createPolyPolygonRgn_contains_iff (heap : GdiHeap) (hrgn : HRGN)
    (polygons : List (List Point)) (mode : PolyFillMode)
    (vertices : ∀ polygon ∈ polygons, 2 ≤ polygon.length) (fits : PolygonsFit polygons)
    (x y : Int) :
    ((createPolyPolygonRgn heap hrgn polygons.flatten
        (polygons.map List.length) mode).contents (.object hrgn)).Contains x y ↔
      match mode with
      | .alternate => EvenOdd (polygonEdges polygons) x y
      | .winding => NonZeroWinding (polygonEdges polygons) x y := by
  change _ ↔ Filled mode (polygonEdges polygons) x y
  rw [(stores_createPolyPolygonRgn heap hrgn _ _ mode).here]
  split
  next rectangle =>
    rw [(describes_boxContents _).contains_iff, filled_rectangle rectangle]
    simp only [sortedRect, sortEdges, Rect.InRect]
    grind
  · rw [(scanned_scanConvert vertices fits mode).contains_iff,
      filled_congr (stepEdges_loopSteps_perm vertices)]

/-- The second pixel of the third row of a triangle. -/
theorem createPolyPolygonRgn_contains_triangle :
    ((createPolyPolygonRgn emptyHeap 1 [⟨0, 0⟩, ⟨4, 4⟩, ⟨0, 4⟩] [3]
      .winding).contents (.object 1)).Contains 1 2 :=
  (createPolyPolygonRgn_contains_iff emptyHeap 1
    [[⟨0, 0⟩, ⟨4, 4⟩, ⟨0, 4⟩]] .winding (by decide)
    ⟨by decide, by decide, by decide⟩ 1 2).mpr (by unfold NonZeroWinding; decide +kernel)

end Winex.Gdi
