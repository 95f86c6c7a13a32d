import Winex.ScanRows

namespace Winex.Gdi

open Banding List

/-!
# The region of a polygon

`REGION_PtsToRegion` makes a rectangle of every two points, or moves the bottom of the
latest rectangle instead.  Either way exactly the pixels between the two points are
added.
-/

/-- Two points at a time, with the test for the end of their scanline. -/
def blockPairs (pts : List Point) : List ((Point × Point) × Bool) :=
  match pts with
  | first :: second :: rest => ((first, second), endsRow second rest) :: blockPairs rest
  | _ => []

/-- Two points at a time. -/
def pointPairs (pts : List Point) : List (Point × Point) :=
  match pts with
  | first :: second :: rest => (first, second) :: pointPairs rest
  | _ => []

theorem map_fst_blockPairs (pts : List Point) : (blockPairs pts).map Prod.fst = pointPairs pts := by
  fun_induction pointPairs pts with
  | case1 _ _ _ ih => simp [blockPairs, ih]
  | case2 _ short =>
    rw [blockPairs]
    · rfl
    · exact short

/-- Add one pair after another. -/
def RectBuilder.addPairs (builder : RectBuilder) (pairs : List ((Point × Point) × Bool)) :
    RectBuilder :=
  pairs.foldl (fun builder pair => builder.addPair pair.1.1 pair.1.2 pair.2) builder

variable (builder : RectBuilder)

@[simp] theorem RectBuilder.addPairs_nil : builder.addPairs [] = builder :=
  rfl

@[simp] theorem RectBuilder.addPairs_cons (pair : (Point × Point) × Bool)
    (rest : List ((Point × Point) × Bool)) :
    builder.addPairs (pair :: rest) = (builder.addPair pair.1.1 pair.1.2 pair.2).addPairs rest :=
  rfl

theorem RectBuilder.addPairs_append (first second : List ((Point × Point) × Bool)) :
    builder.addPairs (first ++ second) = (builder.addPairs first).addPairs second :=
  foldl_append

theorem addBlock_eq_addPairs (pts : List Point) :
    builder.addBlock pts = builder.addPairs (blockPairs pts) := by
  fun_induction RectBuilder.addBlock builder pts with
  | case1 _ _ _ _ ih =>
    rw [blockPairs, RectBuilder.addPairs_cons, ih]
  | case2 _ _ short =>
    rw [blockPairs]
    · rfl
    · exact short

theorem pointPairs_append {first : List Point} (even : Even first.length) (second : List Point) :
    pointPairs (first ++ second) = pointPairs first ++ pointPairs second := by
  fun_induction pointPairs first with
  | case1 _ _ rest ih =>
    have restEven : Even rest.length := by simpa [Nat.even_add_one] using even
    simp [pointPairs, ih restEven]
  | case2 pts short =>
    rcases pts with _ | ⟨only, _ | ⟨other, rest⟩⟩
    · rfl
    · simp at even
    · exact (short only other rest rfl).elim

/-- The pairs of all blocks. -/
def PointBlocks.pairs (blocks : PointBlocks) : List ((Point × Point) × Bool) :=
  (blocks.full ++ [blocks.current]).flatMap blockPairs

theorem PointBlocks.foldl_addBlock (blocks : PointBlocks) (builder : RectBuilder) :
    (blocks.full ++ [blocks.current]).foldl RectBuilder.addBlock builder =
      builder.addPairs blocks.pairs := by
  unfold PointBlocks.pairs RectBuilder.addPairs
  rw [foldl_flatMap]
  congr 1
  funext builder block
  exact addBlock_eq_addPairs builder block

variable {blocks : PointBlocks}

theorem PointBlocks.Proper.map_fst_pairs (proper : blocks.Proper) :
    blocks.pairs.map Prod.fst = pointPairs blocks.points := by
  obtain ⟨full, current⟩ := blocks
  have filled := proper.full
  unfold PointBlocks.pairs PointBlocks.points
  clear proper
  induction full with
  | nil => simpa using map_fst_blockPairs current
  | cons block _ ih =>
    obtain ⟨blockFilled, restFilled⟩ := forall_mem_cons.mp filled
    have even : Even block.length := by
      rw [blockFilled]
      decide
    rw [cons_append, flatMap_cons, map_append, map_fst_blockPairs, ih restFilled, flatten_cons,
      append_assoc, pointPairs_append even]

/-- The pixels between the two points of a pair. -/
def PairContains (pair : Point × Point) (x y : Int) : Prop :=
  pair.1.y = y ∧ pair.1.x ≤ x ∧ x < pair.2.x

/-- The two points lie in a row of `INT` height, unless they are equal. -/
structure PairFits (pair : Point × Point) : Prop where
  level : pair.2.y = pair.1.y
  height : pair.1.x ≠ pair.2.x → FitsInt (pair.1.y + 1)

/-- No rectangle made so far is upside down. -/
def RectBuilder.Upright (builder : RectBuilder) : Prop :=
  ∀ rect ∈ builder.rects, rect.top ≤ rect.bottom

variable {builder : RectBuilder}

/-- The latest rectangle is extended where the pair continues it. -/
theorem extendsLast_eq_true {first second : Point} {ends : Bool}
    (extended : builder.extendsLast first second ends = true) :
    ∃ last earlier, builder.rects = last :: earlier ∧
      (first.x = last.left ∧ first.y = last.bottom ∧ second.x = last.right) ∧
      startsBand last earlier = true ∧ ends = true := by
  unfold RectBuilder.extendsLast at extended
  cases shape : builder.rects with
  | nil => simp [shape] at extended
  | cons last earlier =>
    rw [shape] at extended
    simp only [Bool.and_eq_true, decide_eq_true_eq] at extended
    obtain ⟨⟨⟨⟨left, bottom⟩, right⟩, band⟩, ends⟩ := extended
    exact ⟨last, earlier, rfl, ⟨left, bottom, right⟩, band, ends⟩

theorem inRects_cons (rect : Rect) (rest : List Rect) (x y : Int) :
    InRects (rect :: rest) x y ↔ rect.InRect x y ∨ InRects rest x y := by
  simp [InRects]

theorem inRects_addPair (upright : builder.Upright) {pair : Point × Point} (fits : PairFits pair)
    (ends : Bool) :
    (builder.addPair pair.1 pair.2 ends).Upright ∧
      ∀ x y, InRects (builder.addPair pair.1 pair.2 ends).rects x y ↔
        InRects builder.rects x y ∨ PairContains pair x y := by
  obtain ⟨first, second⟩ := pair
  obtain ⟨level, height⟩ := fits
  unfold RectBuilder.addPair
  by_cases empty : first.x = second.x
  · rw [if_pos empty]
    refine ⟨upright, fun x y => ?_⟩
    have nothing : ¬ PairContains (first, second) x y := by
      simp only [PairContains]
      omega
    simp [nothing]
  rw [if_neg empty, level, wrapInt_of_fits (height empty)]
  split
  next extended =>
    obtain ⟨_, _, shape, ⟨_, _, _⟩, -⟩ := extendsLast_eq_true extended
    unfold RectBuilder.Upright RectBuilder.setBottom at *
    rw [shape] at upright ⊢
    simp only [inRects_cons, Rect.InRect, PairContains]
    grind
  · refine ⟨forall_mem_cons.mpr ⟨by dsimp only; omega, upright⟩, fun x y => ?_⟩
    simp only [RectBuilder.add, inRects_cons, Rect.InRect, PairContains]
    grind

theorem inRects_addPairs (upright : builder.Upright) {pairs : List ((Point × Point) × Bool)}
    (fits : ∀ pair ∈ pairs, PairFits pair.1) (x y : Int) :
    InRects (builder.addPairs pairs).rects x y ↔
      InRects builder.rects x y ∨ ∃ pair ∈ pairs.map Prod.fst, PairContains pair x y := by
  induction pairs generalizing builder with
  | nil => simp
  | cons pair _ ih =>
    obtain ⟨pairFits, restFits⟩ := forall_mem_cons.mp fits
    obtain ⟨uprightAfter, added⟩ := inRects_addPair upright pairFits pair.2
    rw [RectBuilder.addPairs_cons, ih uprightAfter restFits, added]
    simp [or_assoc]

theorem contains_ptsToRegion (proper : blocks.Proper)
    (fits : ∀ pair ∈ pointPairs blocks.points, PairFits pair) (x y : Int) :
    (ptsToRegion blocks).Contains x y ↔
      ∃ pair ∈ pointPairs blocks.points, PairContains pair x y := by
  have pairsFit : ∀ pair ∈ blocks.pairs, PairFits pair.1 := by
    intro _ member
    apply fits
    rw [← proper.map_fst_pairs]
    exact mem_map_of_mem member
  have start : (⟨[], largeCoordinate, smallCoordinate⟩ : RectBuilder).Upright := by
    simp [RectBuilder.Upright]
  have added := inRects_addPairs start pairsFit x y
  rw [proper.map_fst_pairs, ← blocks.foldl_addBlock] at added
  have reversed : (ptsToRegion blocks).Contains x y ↔
      InRects
        ((blocks.full ++ [blocks.current]).foldl RectBuilder.addBlock
          ⟨[], largeCoordinate, smallCoordinate⟩).rects x y := by
    simp [RegionContents.Contains, ptsToRegion, InRects]
  rw [reversed, added]
  simp [InRects]

theorem pointPairs_rowPoints (y : Int) (columns : List Int) :
    pointPairs (rowPoints y columns) =
      (pairSpans columns).map fun span =>
        (⟨span.left, y⟩, ⟨span.right, y⟩) := by
  fun_induction pairSpans columns with
  | case1 _ _ _ ih =>
    rw [map_cons, ← ih]
    rfl
  | case2 columns short =>
    rcases columns with _ | ⟨only, _ | ⟨other, rest⟩⟩
    · rfl
    · rfl
    · exact (short only other rest rfl).elim

section Rows

variable {inside : Int → Int → Prop} {start last : Int} {points : List Point}
  (rows : ScanRows (RowOf inside) start last points)

include rows

theorem ScanRows.pairFits (bounded : ∀ x y, inside x y → FitsInt (y + 1)) :
    ∀ pair ∈ pointPairs points, PairFits pair := by
  induction rows with
  | nil => simp [pointPairs]
  | @cons y last columns points row _ ih =>
    rw [pointPairs_append (by simpa [rowPoints] using row.even), pointPairs_rowPoints]
    intro pair member
    rcases mem_append.mp member with inRow | later
    · obtain ⟨span, spanMember, rfl⟩ := mem_map.mp inRow
      refine ⟨rfl, fun differ => ?_⟩
      have ordered := le_of_mem_pairSpans row.sorted spanMember
      have covered : Covers (pairSpans columns) span.left :=
        ⟨span, spanMember, le_refl _, lt_of_le_of_ne ordered differ⟩
      rw [covers_pairSpans row.sorted row.even, row.odd_iff] at covered
      exact bounded _ _ covered
    · exact ih pair later

theorem ScanRows.contains_iff (x y : Int) :
    (∃ pair ∈ pointPairs points, PairContains pair x y) ↔ (start ≤ y ∧ y < last) ∧ inside x y := by
  induction rows with
  | nil =>
    simp only [pointPairs, not_mem_nil, false_and, exists_false, false_iff]
    omega
  | @cons start last columns points row rows ih =>
    have bounded := rows.le
    have here : (∃ pair ∈ pointPairs (rowPoints start columns), PairContains pair x y) ↔
        start = y ∧ inside x start := by
      rw [pointPairs_rowPoints, ← row.odd_iff, ← covers_pairSpans row.sorted row.even]
      constructor
      · rintro ⟨_, member, sameRow, reached, notPassed⟩
        obtain ⟨span, spanMember, rfl⟩ := mem_map.mp member
        exact ⟨sameRow, span, spanMember, reached, notPassed⟩
      · rintro ⟨sameRow, _, spanMember, reached, notPassed⟩
        exact ⟨_, mem_map_of_mem spanMember, sameRow, reached, notPassed⟩
    rw [pointPairs_append (by simpa [rowPoints] using row.even)]
    simp only [mem_append, or_and_right, exists_or, here, ih]
    constructor
    · rintro (⟨rfl, filled⟩ | ⟨_, filled⟩)
      · exact ⟨by omega, filled⟩
      · exact ⟨by omega, filled⟩
    · rintro ⟨_, filled⟩
      by_cases first : start = y
      · exact .inl ⟨first, first ▸ filled⟩
      · exact .inr ⟨by omega, filled⟩

end Rows

end Winex.Gdi
