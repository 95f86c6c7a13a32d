import Mathlib.Algebra.Order.Floor.Ring
import Mathlib.Data.Rat.Floor
import Mathlib.Data.List.Rotate
import Winex.Crossings
import Winex.PolygonModel

namespace Winex.Gdi

open List

/-!
# Edges of closed polygons

A polygon is a cyclic list of vertices.  Its edges that are not horizontal cross a
scanline at an exact abscissa; the two filling rules speak about the crossings to the
left of a pixel.  Every scanline is crossed downwards as often as upwards, and every
height at which some edge arrives is one at which some edge departs.
-/

/-- An edge that is not horizontal, `clockWise` if it is walked downwards. -/
structure Edge where
  top : Point
  bottom : Point
  clockWise : Bool
  tall : top.y < bottom.y
  deriving DecidableEq

namespace Edge

/-- The summand of the edge in a winding number. -/
def direction (edge : Edge) : Int :=
  if edge.clockWise then 1 else -1

/-- The scanline crosses the edge. -/
def Active (edge : Edge) (y : Int) : Prop :=
  edge.top.y ≤ y ∧ y < edge.bottom.y

instance (edge : Edge) (y : Int) : Decidable (edge.Active y) :=
  inferInstanceAs (Decidable (_ ∧ _))

/-- The exact abscissa of the edge on a scanline. -/
def abscissa (edge : Edge) (y : Int) : ℚ :=
  edge.top.x + (y - edge.top.y) * (edge.bottom.x - edge.top.x) / (edge.bottom.y - edge.top.y)

/-- The scanline crosses the edge at or to the left of the pixel. -/
def CrossesBefore (edge : Edge) (x y : Int) : Prop :=
  edge.Active y ∧ edge.abscissa y ≤ x

instance (edge : Edge) (x y : Int) : Decidable (edge.CrossesBefore x y) :=
  inferInstanceAs (Decidable (_ ∧ _))

/-- The edge between two vertices, walked from the first to the second. -/
def between (first second : Point) : Option Edge :=
  if down : first.y < second.y then some ⟨first, second, true, down⟩
  else if up : second.y < first.y then some ⟨second, first, false, up⟩
  else none

variable {first second : Point}

theorem between_of_lt (down : first.y < second.y) :
    between first second = some ⟨first, second, true, down⟩ := by
  simp [between, down]

theorem between_of_gt (up : second.y < first.y) :
    between first second = some ⟨second, first, false, up⟩ := by
  simp [between, up, not_lt_of_gt up]

theorem between_of_eq (flat : first.y = second.y) : between first second = none := by
  simp [between, flat]

theorem exists_between (differ : first.y ≠ second.y) :
    ∃ edge, between first second = some edge := by
  rcases lt_or_gt_of_ne differ with down | up
  · exact ⟨_, between_of_lt down⟩
  · exact ⟨_, between_of_gt up⟩

theorem of_between {edge : Edge} (isBetween : between first second = some edge) :
    (∃ down, edge = ⟨first, second, true, down⟩) ∨ ∃ up, edge = ⟨second, first, false, up⟩ := by
  unfold between at isBetween
  split at isBetween
  next down => exact .inl ⟨down, (Option.some.inj isBetween).symm⟩
  split at isBetween
  next up => exact .inr ⟨up, (Option.some.inj isBetween).symm⟩
  cases isBetween

end Edge

/-- The edges walked along some steps from vertex to vertex. -/
def stepEdges (steps : List (Point × Point)) : List Edge :=
  steps.filterMap fun step => Edge.between step.1 step.2

@[simp] theorem stepEdges_nil : stepEdges [] = [] :=
  rfl

theorem stepEdges_cons (first second : Point) (rest : List (Point × Point)) :
    stepEdges ((first, second) :: rest) = (Edge.between first second).toList ++ stepEdges rest := by
  unfold stepEdges
  cases between : Edge.between first second with
  | none | some edge => simp [between]

theorem stepEdges_append (first second : List (Point × Point)) :
    stepEdges (first ++ second) = stepEdges first ++ stepEdges second :=
  filterMap_append

/-- The steps around closed polygons. -/
def walkSteps (polygons : List (List Point)) : List (Point × Point) :=
  polygons.flatMap fun polygon => polygon.zip (polygon.rotate 1)

/-- The edges of closed polygons. -/
def polygonEdges (polygons : List (List Point)) : List Edge :=
  stepEdges (walkSteps polygons)

/-- The pixel is inside by the even-odd rule. -/
def EvenOdd (edges : List Edge) (x y : Int) : Prop :=
  Odd (edges.countP fun edge => edge.CrossesBefore x y)

/-- The pixel is inside by the winding rule. -/
def NonZeroWinding (edges : List Edge) (x y : Int) : Prop :=
  ((edges.filter fun edge => edge.CrossesBefore x y).map Edge.direction).sum ≠ 0

/-- The filling rule of a mode. -/
def Filled (mode : PolyFillMode) (edges : List Edge) (x y : Int) : Prop :=
  match mode with
  | .alternate => EvenOdd edges x y
  | .winding => NonZeroWinding edges x y

/-- Every vertex is left as often as it is reached. -/
def ClosedWalk (steps : List (Point × Point)) : Prop :=
  (steps.map Prod.fst).Perm (steps.map Prod.snd)

@[simp] theorem closedWalk_nil : ClosedWalk [] :=
  List.Perm.refl _

variable {first second : List (Point × Point)} {polygons : List (List Point)}

theorem ClosedWalk.append (firstClosed : ClosedWalk first) (secondClosed : ClosedWalk second) :
    ClosedWalk (first ++ second) := by
  unfold ClosedWalk at *
  rw [map_append, map_append]
  exact firstClosed.append secondClosed

/-- Whether a vertex lies on or above a scanline. -/
def above (y : Int) (point : Point) : Int :=
  if point.y ≤ y then 1 else 0

/-- Crossing a scanline changes the side by the direction of the edge. -/
theorem sum_direction_between (y : Int) (first second : Point) :
    (((Edge.between first second).toList.filter fun edge => edge.Active y).map Edge.direction).sum =
      above y first - above y second := by
  rcases lt_trichotomy first.y second.y with down | flat | up
  · rw [Edge.between_of_lt down]
    by_cases lower : second.y ≤ y
    · have upper : first.y ≤ y := by omega
      simp [Edge.Active, above, upper, lower, not_lt.mpr lower]
    · by_cases upper : first.y ≤ y <;>
        simp [Edge.Active, Edge.direction, above, upper, lower, not_le.mp lower]
  · rw [Edge.between_of_eq flat]
    simp [above, flat]
  · rw [Edge.between_of_gt up]
    by_cases lower : first.y ≤ y
    · have upper : second.y ≤ y := by omega
      simp [Edge.Active, above, upper, lower, not_lt.mpr lower]
    · by_cases upper : second.y ≤ y <;>
        simp [Edge.Active, Edge.direction, above, upper, lower, not_le.mp lower]

theorem sum_direction_stepEdges (y : Int) (steps : List (Point × Point)) :
    (((stepEdges steps).filter fun edge => edge.Active y).map Edge.direction).sum =
      ((steps.map Prod.fst).map (above y)).sum - ((steps.map Prod.snd).map (above y)).sum := by
  induction steps with
  | nil => rfl
  | cons step _ ih =>
    rw [stepEdges_cons, filter_append, map_append, sum_append, sum_direction_between, ih]
    simp only [map_cons, sum_cons]
    ring

variable {steps : List (Point × Point)}

theorem ClosedWalk.sum_direction (closed : ClosedWalk steps) (y : Int) :
    (((stepEdges steps).filter fun edge => edge.Active y).map Edge.direction).sum = 0 := by
  rw [sum_direction_stepEdges, (closed.map (above y)).sum_eq, sub_self]

theorem even_length_iff_even_sum (edges : List Edge) :
    Even edges.length ↔ Even (edges.map Edge.direction).sum := by
  induction edges with
  | nil => simp
  | cons edge _ ih =>
    have odd : Odd edge.direction := by
      unfold Edge.direction
      split <;> decide
    rw [length_cons, Nat.even_add_one, ih, map_cons, sum_cons, Int.even_add]
    simp [Int.not_even_iff_odd.mpr odd]

/-- The steps from one height to another. -/
def steepSteps (steps : List (Point × Point)) : List (Point × Point) :=
  steps.filter fun step => step.1.y ≠ step.2.y

/-- The heights at which edges arrive are those at which edges depart. -/
theorem ClosedWalk.perm_heights (closed : ClosedWalk steps) :
    ((steepSteps steps).map fun step => step.1.y).Perm
      ((steepSteps steps).map fun step => step.2.y) := by
  have flat : (steps.filter fun step => !decide (step.1.y ≠ step.2.y)).map (fun step => step.1.y) =
      (steps.filter fun step => !decide (step.1.y ≠ step.2.y)).map fun step => step.2.y := by
    simp
  have split := filter_append_perm (fun step => decide (step.1.y ≠ step.2.y)) steps
  have heights : (steps.map fun step => step.1.y).Perm (steps.map fun step => step.2.y) := by
    have heights := closed.map (fun point => point.y)
    rwa [map_map, map_map] at heights
  have both :=
    ((split.map fun step => step.1.y).trans heights).trans (split.map fun step => step.2.y).symm
  rw [map_append, map_append, flat, perm_append_right_iff] at both
  exact both

theorem ClosedWalk.departs (closed : ClosedWalk steps) {edge : Edge}
    (member : edge ∈ stepEdges steps) :
    (∃ step ∈ steepSteps steps, step.1.y = edge.top.y) ∧
      ∃ step ∈ steepSteps steps, step.1.y = edge.bottom.y := by
  have heights : ∀ height, (∃ step ∈ steepSteps steps, step.1.y = height) ↔
      ∃ step ∈ steepSteps steps, step.2.y = height := by
    intro _
    rw [← mem_map, ← mem_map]
    exact closed.perm_heights.mem_iff
  obtain ⟨⟨first, second⟩, stepMember, between⟩ := mem_filterMap.mp member
  have steep : ∀ differ : first.y ≠ second.y, (first, second) ∈ steepSteps steps :=
    fun differ => mem_filter.mpr ⟨stepMember, by simpa using differ⟩
  obtain ⟨down, rfl⟩ | ⟨up, rfl⟩ := Edge.of_between between
  · exact ⟨⟨_, steep (ne_of_lt down), rfl⟩, (heights _).mpr ⟨_, steep (ne_of_lt down), rfl⟩⟩
  · exact ⟨(heights _).mpr ⟨_, steep (ne_of_gt up), rfl⟩, ⟨_, steep (ne_of_gt up), rfl⟩⟩

theorem closedWalk_walkSteps (polygons : List (List Point)) : ClosedWalk (walkSteps polygons) := by
  induction polygons with
  | nil => exact closedWalk_nil
  | cons polygon _ ih =>
    refine ClosedWalk.append ?_ ih
    unfold ClosedWalk
    rw [map_fst_zip (by simp), map_snd_zip (by simp)]
    exact (rotate_perm polygon 1).symm

/-- The steps in the order of the vertex loop. -/
def loopSteps (polygons : List (List Point)) : List (Point × Point) :=
  polygons.flatMap fun polygon => vertexPairs (polygon.getLastD ⟨0, 0⟩) polygon

theorem vertexPairs_append (first : Point) (pts : List Point) (last : Point) :
    vertexPairs first (pts ++ [last]) = vertexPairs first pts ++ [(pts.getLastD first, last)] := by
  induction pts generalizing first with
  | nil => rfl
  | cons _ _ ih =>
    rw [cons_append, vertexPairs, ih, vertexPairs, getLastD_cons, cons_append]

theorem zip_tail (first : Point) (pts : List Point) (last : Point) :
    (first :: pts).zip (pts ++ [last]) = vertexPairs first (pts ++ [last]) := by
  induction pts generalizing first with
  | nil => rfl
  | cons _ _ ih =>
    rw [cons_append, zip_cons_cons, ih, vertexPairs]

theorem vertexPairs_perm {polygon : List Point} (nonempty : polygon ≠ []) :
    (vertexPairs (polygon.getLastD ⟨0, 0⟩) polygon).Perm (polygon.zip (polygon.rotate 1)) := by
  obtain ⟨_, _, rfl⟩ := exists_cons_of_ne_nil nonempty
  rw [rotate_cons_succ, rotate_zero, zip_tail, vertexPairs_append, getLastD_cons, vertexPairs]
  exact (perm_append_singleton _ _).symm

theorem polygonPairs_flatten (before : List Point)
    (vertices : ∀ polygon ∈ polygons, 2 ≤ polygon.length) :
    polygonPairs (before ++ polygons.flatten) before.length before.length
        (polygons.map List.length) =
      loopSteps polygons := by
  induction polygons generalizing before with
  | nil => rfl
  | cons polygon rest ih =>
    have several := vertices polygon (by simp)
    have slice : ((before ++ (polygon :: rest).flatten).drop before.length).take polygon.length =
        polygon := by simp
    have last :
        (before ++ (polygon :: rest).flatten).getD (before.length + polygon.length - 1) ⟨0, 0⟩ =
          polygon.getLastD ⟨0, 0⟩ := by
      rw [getD_eq_getElem?_getD, getElem?_append_right (by omega),
        flatten_cons, getElem?_append_left (by omega),
        getLastD_eq_getLast?, getLast?_eq_getElem?]
      congr 2
      omega
    have later := ih (before ++ polygon) fun other member => vertices other (by simp [member])
    rw [length_append, append_assoc] at later
    rw [map_cons, polygonPairs, if_neg (by omega), slice, last,
      loopSteps, flatMap_cons, ← loopSteps, ← later]
    rfl

theorem loopSteps_perm (vertices : ∀ polygon ∈ polygons, 2 ≤ polygon.length) :
    (loopSteps polygons).Perm (walkSteps polygons) := by
  induction polygons with
  | nil => exact List.Perm.refl _
  | cons polygon _ ih =>
    have nonempty : polygon ≠ [] := by
      rintro rfl
      simpa using vertices [] (by simp)
    exact (vertexPairs_perm nonempty).append
      (ih fun other member => vertices other (by simp [member]))

theorem ClosedWalk.perm (closed : ClosedWalk first) (same : second.Perm first) :
    ClosedWalk second :=
  ((same.map _).trans closed).trans (same.map _).symm

end Winex.Gdi
