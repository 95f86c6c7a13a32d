import Winex.BandClip
import Winex.PolygonBands
import Winex.PolyPolygonRgn

namespace Winex.Gdi

open Banding List

/-!
# Polygons with a canonical region

`REGION_PtsToRegion` looks at single pairs of points, so the region of a polygon need
not be canonical.  `PolySafe` describes shapes for which it is: no scanline has two
touching runs, and every scanline that agrees with the one above is a single run, ends
with the pair bounding it, and is followed by another pair in the same buffer.
-/

/-- The scanline is merged into the band above. -/
structure Merged (mode : PolyFillMode) (edges : List Edge) (y : Int) : Prop where
  run : ∃ left right, (∀ x, Filled mode edges x y ↔ left ≤ x ∧ x < right) ∧
    edges.countP (fun edge => edge.CrossesFrom right y) = 1
  later : ∃ edge ∈ edges, y + 1 < edge.bottom.y
  buffered :
    crossings edges y < numPtsToBuffer ∨ mode = .alternate ∧ ¬ numPtsToBuffer ∣ crossings edges y

/-- Edges that `CreatePolyPolygonRgn` turns into a canonical region. -/
structure PolySafe (mode : PolyFillMode) (edges : List Edge) : Prop where
  steady : ∀ x y, Filled mode edges (x - 1) y → Filled mode edges x y → Steady mode edges x y
  merged : ∀ y, (∃ x, Filled mode edges x y) →
    (∀ x, Filled mode edges x (y - 1) ↔ Filled mode edges x y) → Merged mode edges y

theorem exists_concat_of_even {columns : List Int} (even : Even columns.length)
    (nonempty : columns ≠ []) :
    ∃ front first second, columns = front ++ [first, second] ∧ Even front.length := by
  obtain ⟨most, second, rfl⟩ := (eq_nil_or_concat' columns).resolve_left nonempty
  rcases eq_nil_or_concat' most with empty | ⟨front, first, rfl⟩
  · simp [empty] at even
  · exact ⟨front, first, second, by simp, by simpa [Nat.even_add_one] using even⟩

/-- If at most one column lies from `right` on, it is the last one. -/
theorem last_column_of_one_beyond {front : List Int} {first second right : Int}
    (sorted : (front ++ [first, second]).Pairwise (· ≤ ·))
    (even : Even (front ++ [first, second]).length)
    (odd : Odd ((front ++ [first, second]).countP fun column => column ≤ right - 1))
    (one : (front ++ [first, second]).countP (fun column => right ≤ column) ≤ 1) :
    first < right ∧ right ≤ second := by
  have split :=
    length_eq_countP_add_countP (fun column => decide (column ≤ right - 1))
      (l := front ++ [first, second])
  have beyond : (front ++ [first, second]).countP
        (fun column => decide (¬ decide (column ≤ right - 1) = true)) =
      (front ++ [first, second]).countP fun column => right ≤ column := by
    refine countP_congr fun column _ => ?_
    simp only [decide_eq_true_eq]
    omega
  rw [beyond] at split
  have someBeyond : (front ++ [first, second]).countP (fun column => right ≤ column) ≠ 0 := by
    intro zero
    rw [zero, add_zero] at split
    rw [split, ← Nat.not_odd_iff_even] at even
    exact even odd
  obtain ⟨-, pair, before⟩ := pairwise_append.mp sorted
  have ordered : first ≤ second := by simpa using pair
  constructor
  · by_contra notBefore
    have two : 2 ≤ [first, second].countP fun column => right ≤ column := by
      have : right ≤ first := by omega
      have : right ≤ second := by omega
      simp [*]
    rw [countP_append] at one
    omega
  · by_contra allBefore
    apply someBeyond
    rw [countP_eq_zero]
    intro column member
    rw [decide_eq_true_eq]
    rcases mem_append.mp member with inFront | atEnd
    · have := before column inFront second (by simp)
      omega
    · have : column = first ∨ column = second := by simpa using atEnd
      omega

section Rows

variable {edges : List Edge} {mode : PolyFillMode} (fits : ∀ edge ∈ edges, edge.Fits)
  (balanced : ∀ y, ((edges.filter fun edge => edge.Active y).map Edge.direction).sum = 0)
  (safe : PolySafe mode edges) {y : Int} {columns : List Int}

theorem RowOf.covers_iff {inside : Int → Int → Prop} (row : RowOf inside y columns) (x : Int) :
    Covers (properSpans (pairSpans columns)) x ↔ inside x y := by
  rw [covers_properSpans, covers_pairSpans row.sorted row.even, row.odd_iff]

variable (row : RowFrom edges mode y columns)
include row

include fits balanced safe in
theorem RowFrom.separated : Separated (properSpans (pairSpans columns)) := by
  have rowOf := row.rowOf fits (balanced y)
  refine separated_of_steady rowOf.sorted fun column member before here => ?_
  rw [← covers_properSpans, rowOf.covers_iff] at before here
  exact row.not_mem_of_steady fits (safe.steady _ _ before here) before member

include fits balanced safe in
theorem RowFrom.exists_filled
    (occupied : properSpans (pairSpans columns) ≠ []) : ∃ x, Filled mode edges x y := by
  have separated := row.separated fits balanced safe
  obtain ⟨span, member⟩ := exists_mem_of_ne_nil _ occupied
  exact ⟨span.left, ((row.rowOf fits (balanced y)).covers_iff _).mp
    ⟨span, member, le_refl _, separated.inhabited span member⟩⟩

include fits balanced safe in
theorem RowFrom.single_of_merged (merged : Merged mode edges y)
    (occupied : properSpans (pairSpans columns) ≠ []) :
    ∃ front last,
      pairSpans columns = front ++ [last] ∧ properSpans (pairSpans columns) = [last] := by
  have rowOf := row.rowOf fits (balanced y)
  have separated := row.separated fits balanced safe
  obtain ⟨left, right, filled, oneBeyond⟩ := merged.run
  obtain ⟨x, isFilled⟩ := row.exists_filled fits balanced safe occupied
  have wide : left < right := by
    have := (filled x).mp isFilled
    omega
  have isRun : properSpans (pairSpans columns) = [⟨left, right⟩] := by
    refine separated.unique (separated_singleton wide) fun x => ?_
    rw [rowOf.covers_iff, filled]
    simp [Covers, Span.Contains]
  have nonempty : columns ≠ [] := by
    rintro rfl
    exact occupied rfl
  obtain ⟨front, first, second, rfl, frontEven⟩ := exists_concat_of_even rowOf.even nonempty
  have lastFilled := (filled (right - 1)).mpr (by omega)
  rw [← rowOf.odd_iff] at lastFilled
  have ends :=
    last_column_of_one_beyond rowOf.sorted rowOf.even lastFilled
      (le_of_le_of_eq (row.countP_le fits right) oneBeyond)
  have apart : first ≠ second := by omega
  refine ⟨pairSpans front, ⟨first, second⟩, ?_, ?_⟩
  · rw [pairSpans_append frontEven]
    rfl
  · rw [pairSpans_append frontEven, pairSpans_cons_cons, pairSpans_nil,
      properSpans_concat, if_neg apart] at isRun ⊢
    have alone : properSpans (pairSpans front) = [] := by
      have lengths := congrArg length isRun
      simpa using lengths
    rw [alone, nil_append]

variable {last : Int} {points : List Point} {position : Nat} {bands : List (Band Int Int)}

omit row

include fits balanced in
theorem ScanRows.exists_points {start : Int}
    (rows : ScanRows (RowFrom edges mode) start last points) {edge : Edge} (member : edge ∈ edges)
    (unfinished : start < edge.bottom.y) (finished : edge.bottom.y ≤ last) :
    ∃ first second rest, points = first :: second :: rest ∧ start ≤ first.y := by
  induction rows with
  | nil => omega
  | @cons start last columns points row _ ih =>
    rcases columns with _ | ⟨first, _ | ⟨second, _⟩⟩
    · -- An empty scanline lies above the edge.
      have passive : ¬ edge.Active start := fun active => row.ne_nil member active rfl
      unfold Edge.Active at passive
      have tall := edge.tall
      obtain ⟨first, second, rest, shape, _⟩ := ih (by omega) finished
      exact ⟨first, second, rest, shape, by omega⟩
    · have even := (row.rowOf fits (balanced start)).even
      simp at even
    · exact ⟨_, _, _, rfl, le_refl _⟩

include fits balanced in
theorem Merged.marked (merged : Merged mode edges y) (row : RowFrom edges mode y columns)
    (nonempty : columns ≠ []) {later : List Point}
    (rows : ScanRows (RowFrom edges mode) (y + 1) last later)
    (bottoms : ∀ edge ∈ edges, edge.bottom.y ≤ last) (short : position ≤ crossings edges (y - 1))
    (exact : mode = .alternate → position = crossings edges (y - 1)) :
    (decide ((position + columns.length) % numPtsToBuffer ≠ 0) && endsRow ⟨0, y⟩ later) = true := by
  obtain ⟨edge, member, unfinished⟩ := merged.later
  obtain ⟨first, second, rest, rfl, _⟩ :=
    rows.exists_points fits balanced member unfinished (bottoms edge member)
  have follows : endsRow ⟨0, y⟩ (first :: second :: rest) = true := by
    simp [endsRow]
    omega
  have sum := crossings_eq edges y
  have inside : (position + columns.length) % numPtsToBuffer ≠ 0 := by
    rcases merged.buffered with _ | ⟨evenOdd, _⟩
    · have := length_pos_iff.mpr nonempty
      have := row.length_le
      rw [Nat.mod_eq_of_lt (by omega)]
      omega
    · rwa [exact evenOdd, row.length_eq evenOdd, ← sum, Ne, ← Nat.dvd_iff_mod_eq_zero]
  rw [follows, Bool.and_true, decide_eq_true_eq]
  exact inside

include row

include fits balanced safe in
theorem RowFrom.merged_of_continues (stacked : Stacked bands)
    (above : ∀ x, InBands bands x (y - 1) ↔ Filled mode edges x (y - 1))
    (occupied : properSpans (pairSpans columns) ≠ [])
    (continues : Continues bands y (properSpans (pairSpans columns))) : Merged mode edges y := by
  obtain ⟨earlier, last, rfl, _, same⟩ := continues
  have member : last ∈ earlier ++ [last] := by simp
  have tall := (stacked.valid last member).tall
  refine safe.merged y (row.exists_filled fits balanced safe occupied) ?_
  intro x
  have upper :=
    stacked.inBands_member_row member (show last.top ≤ y - 1 ∧ y - 1 < last.bottom by omega) x
  rw [← above, upper, same, (row.rowOf fits (balanced y)).covers_iff]

omit row

include fits balanced safe in
/-- The scanlines of a safe shape are collected in canonical bands. -/
theorem ScanRows.exists_canonical (rows : ScanRows (RowFrom edges mode) y last points)
    (bottoms : ∀ edge ∈ edges, edge.bottom.y ≤ last)
    (rowFits : ∀ x y, Filled mode edges x y → FitsInt (y + 1)) (built : Built bands y)
    {builder : RectBuilder} (same : builder.rects.reverse = rectsOf bands)
    (above : ∀ x, InBands bands x (y - 1) ↔ Filled mode edges x (y - 1))
    (short : position ≤ crossings edges (y - 1))
    (exact : mode = .alternate → position = crossings edges (y - 1)) :
    ∃ final, Canonical final ∧
      (builder.addPairs (markedPairs position points)).rects.reverse = rectsOf final := by
  induction rows generalizing bands builder position with
  | nil => exact ⟨bands, built.canonical, same⟩
  | @cons y last columns points row rows ih =>
    have rowOf := row.rowOf fits (balanced y)
    have separated := row.separated fits balanced safe
    have sum := crossings_eq edges y
    have stacked := built.canonical.toStacked
    have rowBuilt : (builder.addPairs
          (rowPairs y (pairSpans columns)
            (decide ((position + columns.length) % numPtsToBuffer ≠ 0) &&
              endsRow ⟨0, y⟩ points))).rects.reverse =
        rectsOf (emitStrip bands y (y + 1) (properSpans (pairSpans columns))) := by
      refine rects_addRow stacked same (fun occupied => ?_) (fun occupied continues => ?_)
      · obtain ⟨x, filled⟩ := row.exists_filled fits balanced safe occupied
        exact rowFits x y filled
      · have merged := row.merged_of_continues fits balanced safe stacked above occupied continues
        have nonempty : columns ≠ [] := by
          rintro rfl
          exact occupied rfl
        exact ⟨merged.marked fits balanced row nonempty rows bottoms short
            exact,
          row.single_of_merged fits balanced safe merged occupied⟩
    rw [markedPairs_rowPoints position y rowOf.even, RectBuilder.addPairs_append]
    have emitted := built.emitStrip (le_refl y) (show y < y + 1 by omega) separated
    refine ih bottoms emitted rowBuilt ?_ ?_ ?_
    · intro x
      have notAbove : ¬ InBands bands x y := by
        rintro ⟨band, member, contains⟩
        have := built.above band member
        have := contains.1
        omega
      rw [inBands_emitStrip stacked (show y < y + 1 by omega), rowOf.covers_iff]
      simp [notAbove]
    · have := row.length_le
      rw [add_sub_cancel_right]
      omega
    · intro evenOdd
      rw [add_sub_cancel_right, sum, exact evenOdd, row.length_eq evenOdd]

include balanced in
theorem Filled.exists_beyond {x : Int} (filled : Filled mode edges x y) :
    ∃ edge ∈ edges, edge.Active y ∧ (x : ℚ) < edge.abscissa y := by
  by_contra none
  have allBefore : (edges.filter fun edge => edge.CrossesBefore x y) =
      edges.filter fun edge => edge.Active y := by
    refine filter_congr fun edge member => ?_
    rw [Bool.eq_iff_iff, decide_eq_true_eq, decide_eq_true_eq]
    refine ⟨fun crosses => crosses.1, fun active => ⟨active, ?_⟩⟩
    by_contra beyond
    exact none ⟨edge, member, active, not_le.mp beyond⟩
  cases mode with
  | alternate =>
    have even := even_length_iff_even_sum (edges.filter (·.Active y))
    rw [balanced] at even
    rw [Filled, EvenOdd, countP_eq_length_filter, allBefore, ← Nat.not_even_iff_odd] at filled
    exact filled (even.mpr Even.zero)
  | winding =>
    rw [Filled, NonZeroWinding, allBefore] at filled
    exact filled (balanced y)

end Rows

/-- A point between two others obeys their bounds. -/
theorem weighted_mem {first second part whole lower upper : ℚ} (positive : 0 < whole)
    (fromStart : 0 ≤ part) (upToEnd : part ≤ whole) (firstBounds : lower ≤ first ∧ first ≤ upper)
    (secondBounds : lower ≤ second ∧ second ≤ upper) :
    lower ≤ first + part * (second - first) / whole ∧
      first + part * (second - first) / whole ≤ upper := by
  have weighted : first + part * (second - first) / whole =
      ((whole - part) * first + part * second) / whole := by
    field_simp
    ring
  rw [weighted, le_div_iff₀ positive, div_le_iff₀ positive]
  constructor
  · calc
      lower * whole = (whole - part) * lower + part * lower := by ring
      _ ≤ (whole - part) * first + part * second := by
          gcongr
          · exact firstBounds.1
          · exact secondBounds.1
  · calc
      (whole - part) * first + part * second ≤
        (whole - part) * upper + part * upper := by
          gcongr
          · exact firstBounds.2
          · exact secondBounds.2
      _ = upper * whole := by ring

theorem FitsInt.mem_coordinates {value : Int} (fits : FitsInt value) :
    (smallCoordinate : ℚ) ≤ value ∧ (value : ℚ) ≤ largeCoordinate := by
  have lower : smallCoordinate ≤ value := fits.1
  have upper : value ≤ largeCoordinate := Int.le_sub_one_of_lt fits.2
  exact ⟨by exact_mod_cast lower, by exact_mod_cast upper⟩

theorem Edge.Fits.abscissa_mem {edge : Edge} (fits : edge.Fits) {y : Int} (active : edge.Active y) :
    (smallCoordinate : ℚ) ≤ edge.abscissa y ∧ edge.abscissa y ≤ largeCoordinate := by
  obtain ⟨started, _⟩ := active
  refine weighted_mem ?_ ?_ ?_ fits.steps.start.mem_coordinates fits.steps.finish.mem_coordinates
  · exact_mod_cast Int.sub_pos.mpr edge.tall
  · exact_mod_cast Int.sub_nonneg.mpr started
  · have : y - edge.top.y ≤ edge.bottom.y - edge.top.y := by omega
    exact_mod_cast this

/-- The box the builder widens by its rectangles. -/
def startBox : Rect :=
  ⟨largeCoordinate, 0, smallCoordinate, 0⟩

/-- The sides of the builder are those of its rectangles. -/
def RectBuilder.Measures (builder : RectBuilder) : Prop :=
  builder.left = (builder.rects.reverse.foldl widenExtents startBox).left ∧
    builder.right = (builder.rects.reverse.foldl widenExtents startBox).right

variable {builder : RectBuilder}

theorem RectBuilder.Measures.addPair (measures : builder.Measures) (first second : Point)
    (ends : Bool) : (builder.addPair first second ends).Measures := by
  obtain ⟨left, right⟩ := measures
  unfold RectBuilder.addPair
  split
  · exact ⟨left, right⟩
  split
  · unfold RectBuilder.setBottom
    cases shape : builder.rects with
    | nil => simpa [Measures, shape] using And.intro left right
    | cons =>
      rw [shape] at left right
      simp only [reverse_cons, foldl_append, foldl_cons, foldl_nil] at left right
      simp only [Measures, reverse_cons, foldl_append, foldl_cons, foldl_nil]
      exact ⟨left, right⟩
  · simp only [Measures, RectBuilder.add, reverse_cons,
      foldl_append, foldl_cons, foldl_nil, left, right]
    exact ⟨rfl, rfl⟩

theorem RectBuilder.Measures.addPairs (measures : builder.Measures)
    (pairs : List ((Point × Point) × Bool)) : (builder.addPairs pairs).Measures := by
  induction pairs generalizing builder with
  | nil => exact measures
  | cons _ _ ih => exact ih (measures.addPair _ _ _)

namespace Scanned

variable {edges : List Edge} {mode : PolyFillMode} {blocks : PointBlocks}
  (scanned : Scanned edges mode blocks)

include scanned

theorem exists_canonical (safe : PolySafe mode edges) :
    ∃ bands, Canonical bands ∧ (ptsToRegion blocks).rects = rectsOf bands := by
  obtain ⟨start, _, rows, bounds⟩ := scanned.rows
  have noneAbove : ∀ x, ¬ Filled mode edges x (start - 1) := by
    intro _ filled
    obtain ⟨edge, member, started, -⟩ := filled.exists_active
    have := bounds edge member
    omega
  have uncrossed : crossings edges (start - 1) = 0 := by
    refine crossings_eq_zero fun edge member => ?_
    have := bounds edge member
    omega
  have started : Built ([] : List (Band Int Int)) start := ⟨canonical_nil, by simp⟩
  have noRects :
      (⟨[], largeCoordinate, smallCoordinate⟩ : RectBuilder).rects.reverse = rectsOf [] :=
    rfl
  obtain ⟨bands, canonical, collected⟩ :=
    rows.exists_canonical scanned.fits scanned.balanced safe
      (fun edge member => (bounds edge member).2) scanned.row_fits started
      noRects (fun x => by simp [noneAbove]) (Nat.zero_le _)
      (fun _ => uncrossed.symm)
  refine ⟨bands, canonical, ?_⟩
  unfold ptsToRegion
  dsimp only
  rw [blocks.foldl_addBlock, scanned.proper.pairs_eq, collected]

/-- The corners of the region are `INT`s. -/
theorem corner_mem {rect : Rect} (member : rect ∈ (ptsToRegion blocks).rects)
    (nonempty : rect.Nonempty) : rect.left ≤ largeCoordinate ∧ smallCoordinate ≤ rect.right := by
  obtain ⟨wide, tall⟩ := nonempty
  have filled : Filled mode edges rect.left rect.top :=
    (scanned.contains_iff _ _).mp ⟨rect, member, wide, le_refl _, tall, le_refl _⟩
  obtain ⟨_, beforeMember, crossed⟩ := filled.exists_crossed
  obtain ⟨_, behindMember, active, beyond⟩ := filled.exists_beyond scanned.balanced
  have lower := ((scanned.fits _ beforeMember).abscissa_mem crossed.1).1
  have upper := ((scanned.fits _ behindMember).abscissa_mem active).2
  have fromSmall : smallCoordinate ≤ rect.left := by exact_mod_cast lower.trans crossed.2
  have belowLarge : rect.left ≤ largeCoordinate := by exact_mod_cast (beyond.trans_le upper).le
  exact ⟨belowLarge, by omega⟩

theorem tightBox {bands : List (Band Int Int)} (canonical : Canonical bands)
    (rects : (ptsToRegion blocks).rects = rectsOf bands) :
    TightBox (ptsToRegion blocks).rects (ptsToRegion blocks).extents := by
  have stacked := canonical.toStacked
  have corners :
      ∀ rect ∈ rectsOf bands, rect.left ≤ largeCoordinate ∧ smallCoordinate ≤ rect.right := by
    intro rect member
    exact scanned.corner_mem (rects ▸ member) (inhabited_rectsOf stacked rect member)
  have measures : (((blocks.full ++ [blocks.current]).foldl RectBuilder.addBlock
      ⟨[], largeCoordinate, smallCoordinate⟩)).Measures := by
    rw [blocks.foldl_addBlock]
    exact RectBuilder.Measures.addPairs ⟨rfl, rfl⟩ _
  unfold ptsToRegion at *
  dsimp only at *
  have sorted := Stacked.verticallySorted stacked
  obtain ⟨left, right⟩ := measures
  rw [rects] at left right ⊢
  rw [← reverse_inj, reverse_reverse] at rects
  rw [left, right, rects]
  cases shape : rectsOf bands with
  | nil => exact tightBox_extentsOf (shape ▸ sorted)
  | cons first rest =>
    obtain ⟨earlier, last, isConcat⟩ := (eq_nil_or_concat' (first :: rest)).resolve_left (by simp)
    have isLast : last ∈ (first :: rest).getLast? := by
      rw [isConcat]
      simp
    have firstCorners := corners first (by simp [shape])
    rw [shape] at sorted
    have tight :=
      tightBox_foldl_widenExtents sorted startBox rfl isLast
        ⟨first, by simp, firstCorners.1⟩ ⟨first, by simp, firstCorners.2⟩
    have latestFirst : (first :: rest).reverse = last :: earlier.reverse := by
      rw [isConcat]
      simp
    rw [latestFirst]
    exact tight

theorem wellFormed (safe : PolySafe mode edges) : (ptsToRegion blocks).WellFormed := by
  obtain ⟨bands, canonical, rects⟩ := scanned.exists_canonical safe
  exact ⟨⟨bands, canonical, rects⟩, scanned.tightBox canonical rects⟩

end Scanned

section Order

variable {first second : List Edge} (same : first.Perm second)

include same

theorem steady_congr (mode : PolyFillMode) (x y : Int) :
    Steady mode first x y ↔ Steady mode second x y := by
  cases mode with
  | alternate => simp only [Steady, same.mem_iff]
  | winding => simp only [Steady, windingBefore, same.countP_eq, ((same.filter _).map _).sum_eq]

/-- The order of the edges does not matter. -/
theorem PolySafe.perm {mode : PolyFillMode} (safe : PolySafe mode second) :
    PolySafe mode first := by
  refine ⟨fun x y before here => ?_, fun y someFilled agree => ?_⟩
  · rw [filled_congr same] at before here
    exact (steady_congr same mode x y).mpr (safe.steady x y before here)
  · simp only [filled_congr same] at someFilled agree
    obtain ⟨run, later, buffered⟩ := safe.merged y someFilled agree
    refine ⟨?_, ?_, ?_⟩
    · simpa only [filled_congr same, same.countP_eq] using run
    · simpa only [same.mem_iff] using later
    · rwa [crossings, ← (same.map _).sum_eq] at buffered

end Order

end Winex.Gdi
