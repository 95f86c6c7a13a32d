import Winex.PolygonRegion
import Winex.PolygonRows

namespace Winex.Gdi

open Banding List

/-!
# The bands of a polygon

`REGION_PtsToRegion` extends a rectangle downwards only if it is alone in its band, the
next pair of points is the last one of its scanline, and another pair follows in the
same buffer.  Where that merges all agreeing scanlines, and no two rectangles of a
scanline touch, it builds the same bands as emitting one strip per scanline.
-/

/--
Pairs of points from a buffer position on, marked where another scanline
follows in the same block.
-/
def markedPairs (position : Nat) (pts : List Point) : List ((Point × Point) × Bool) :=
  match pts with
  | first :: second :: rest =>
    ((first, second),
        decide ((position + 2) % numPtsToBuffer ≠ 0) && endsRow second rest) ::
      markedPairs (position + 2) rest
  | _ => []

theorem markedPairs_append (position : Nat) (block rest : List Point)
    (room : position % numPtsToBuffer + block.length ≤ numPtsToBuffer)
    (closed : rest = [] ∨ Even block.length ∧ (position + block.length) % numPtsToBuffer = 0) :
    markedPairs position (block ++ rest) =
      blockPairs block ++ markedPairs (position + block.length) rest := by
  unfold numPtsToBuffer at room closed
  fun_induction blockPairs block generalizing position with
  | case1 _ second more ih =>
    simp only [length_cons, Nat.even_add_one, not_not] at room closed
    have moreMarked :=
      ih (position + 2) (by omega) (closed.imp_right fun full => ⟨full.1, by omega⟩)
    have flag : (decide ((position + 2) % numPtsToBuffer ≠ 0) && endsRow second (more ++ rest)) =
        endsRow second more := by
      unfold numPtsToBuffer
      rcases more with _ | ⟨_, _ | ⟨_, others⟩⟩
      · rcases closed with isLast | full
        · simp [isLast, endsRow]
        · have reached : (position + 2) % 200 = 0 := full.2
          simp [reached, endsRow]
      · rcases closed with isLast | full
        · simp [isLast, endsRow]
        · simp at full
      · have inside : (position + 2) % 200 ≠ 0 := by
          simp at room
          omega
        simp [inside, endsRow]
    rw [cons_append, cons_append, cons_append, markedPairs,
      flag, moreMarked, length_cons, length_cons]
    congr 3
    omega
  | case2 block short =>
    rcases block with _ | ⟨only, _ | ⟨second, others⟩⟩
    · simp
    · rcases closed with isLast | full
      · simp [isLast, markedPairs]
      · simp at full
    · exact (short only second others rfl).elim

theorem PointBlocks.Proper.pairs_eq {blocks : PointBlocks} (proper : blocks.Proper) :
    blocks.pairs = markedPairs 0 blocks.points := by
  obtain ⟨full, current⟩ := blocks
  have filled := proper.full
  have room := proper.current
  dsimp only at filled room ⊢
  clear proper
  suffices
      ∀ position, position % numPtsToBuffer = 0 →
        (full ++ [current]).flatMap blockPairs = markedPairs position (full.flatten ++ current) from
    this 0 rfl
  induction full with
  | nil =>
    intro position _
    have marked := markedPairs_append position current [] (by omega) (.inl rfl)
    rw [append_nil] at marked
    simp [marked, markedPairs]
  | cons block rest ih =>
    intro position atStart
    obtain ⟨blockFilled, restFilled⟩ := forall_mem_cons.mp filled
    have even : Even block.length := by
      rw [blockFilled]
      decide
    have next : (position + block.length) % numPtsToBuffer = 0 := by
      rw [blockFilled, Nat.add_mod_right, atStart]
    have marked :=
      markedPairs_append position block (rest.flatten ++ current) (by omega) (.inr ⟨even, next⟩)
    rw [cons_append, flatMap_cons, flatten_cons, append_assoc, marked, ih restFilled _ next]

/-- The pair of points of a span on a scanline. -/
def spanPair (y : Int) (span : Span Int) : Point × Point :=
  (⟨span.left, y⟩, ⟨span.right, y⟩)

/-- The pairs of a scanline, of which only the last may be marked. -/
def rowPairs (y : Int) (spans : List (Span Int)) (ends : Bool) : List ((Point × Point) × Bool) :=
  match spans with
  | [] => []
  | [span] => [(spanPair y span, ends)]
  | span :: rest => (spanPair y span, false) :: rowPairs y rest ends

theorem rowPairs_concat (y : Int) (front : List (Span Int)) (last : Span Int) (ends : Bool) :
    rowPairs y (front ++ [last]) ends =
      front.map (fun span => (spanPair y span, false)) ++ [(spanPair y last, ends)] := by
  induction front with
  | nil => rfl
  | cons _ rest ih =>
    rw [cons_append, map_cons, cons_append, ← ih]
    cases rest <;> rfl

/-- The pairs of a scanline are marked where another scanline follows. -/
theorem markedPairs_rowPoints (position : Nat) (y : Int) {columns : List Int}
    (even : Even columns.length) (later : List Point) :
    markedPairs position (rowPoints y columns ++ later) =
      rowPairs y (pairSpans columns)
          (decide ((position + columns.length) % numPtsToBuffer ≠ 0) && endsRow ⟨0, y⟩ later) ++
        markedPairs (position + columns.length) later := by
  fun_induction pairSpans columns generalizing position with
  | case1 left right rest ih =>
    have restEven : Even rest.length := by simpa [Nat.even_add_one] using even
    have restMarked := ih (position + 2) restEven
    have here : markedPairs position (rowPoints y (left :: right :: rest) ++ later) =
        ((⟨left, y⟩, ⟨right, y⟩),
            decide ((position + 2) % numPtsToBuffer ≠ 0) &&
              endsRow ⟨right, y⟩ (rowPoints y rest ++ later)) ::
          markedPairs (position + 2) (rowPoints y rest ++ later) :=
      rfl
    have length : position + (left :: right :: rest).length = position + 2 + rest.length := by
      simp
      omega
    rw [here, restMarked, length]
    rcases rest with _ | ⟨_, _ | ⟨_, others⟩⟩
    · rfl
    · simp at restEven
    · simp [rowPairs, rowPoints, endsRow, spanPair]
  | case2 columns short =>
    rcases columns with _ | ⟨only, _ | ⟨second, others⟩⟩
    · rfl
    · simp at even
    · exact (short only second others rfl).elim

theorem extendsLast_unmarked (builder : RectBuilder) (first second : Point) :
    builder.extendsLast first second false = false := by
  unfold RectBuilder.extendsLast
  split <;> simp

variable {builder : RectBuilder} {y : Int} {span : Span Int} {bands : List (Band Int Int)}

theorem rects_addPair (proper : span.left ≠ span.right) (fits : FitsInt (y + 1)) (ends : Bool) :
    (builder.addPair (spanPair y span).1 (spanPair y span).2 ends).rects =
      if builder.extendsLast (spanPair y span).1 (spanPair y span).2 ends then
        (builder.setBottom (y + 1)).rects
      else
        spanRect y (y + 1) span :: builder.rects := by
  unfold RectBuilder.addPair
  rw [if_neg (show (spanPair y span).1.x ≠ (spanPair y span).2.x from proper),
    show (spanPair y span).2.y = y from rfl, wrapInt_of_fits fits]
  split <;> rfl

/-- Unmarked pairs become rectangles unless they are empty. -/
theorem rects_addPairs_unmarked (builder : RectBuilder) (spans : List (Span Int))
    (fits : properSpans spans ≠ [] → FitsInt (y + 1)) :
    (builder.addPairs (spans.map fun span => (spanPair y span, false))).rects =
      (stripRects y (y + 1) (properSpans spans)).reverse ++ builder.rects := by
  induction spans generalizing builder with
  | nil => rfl
  | cons span rest ih =>
    rw [map_cons, RectBuilder.addPairs_cons]
    by_cases empty : span.left = span.right
    · have skipped : properSpans (span :: rest) = properSpans rest :=
        filter_cons_of_neg (by simpa using empty)
      have same : builder.addPair (spanPair y span).1 (spanPair y span).2 false = builder :=
        if_pos empty
      rw [skipped] at fits ⊢
      rw [same, ih builder fits]
    · have kept : properSpans (span :: rest) = span :: properSpans rest :=
        filter_cons_of_pos (by simpa using empty)
      have bottomFits := fits (by simp [kept])
      rw [ih _ fun _ => bottomFits, rects_addPair empty bottomFits, extendsLast_unmarked, kept]
      simp [stripRects]

variable {earlier : List (Band Int Int)} {last : Band Int Int} {spans : List (Span Int)}
  {ends : Bool}

theorem startsBand_iff (stacked : Stacked (earlier ++ [last])) (front : List (Span Int))
    (span : Span Int) :
    startsBand (spanRect last.top last.bottom span)
        ((stripRects last.top last.bottom front).reverse ++ (rectsOf earlier).reverse) =
      true ↔
      front = [] := by
  rcases eq_nil_or_concat' front with rfl | ⟨_, before, shape⟩
  · simp only [stripRects, map_nil, reverse_nil, nil_append, iff_true]
    cases rects : (rectsOf earlier).reverse with
    | nil => rfl
    | cons before =>
      have member : before ∈ rectsOf earlier := mem_reverse.mp (by simp [rects])
      obtain ⟨band, bandMember, inBand⟩ := exists_band_of_mem_rectsOf member
      have tall := (stacked.valid band (by simp [bandMember])).tall
      have above := (pairwise_append.mp stacked.ordered).2.2 band bandMember last (by simp)
      have top := (edges_of_mem_stripRects inBand).1
      have differs : before.top ≠ last.top := by omega
      simp [startsBand, spanRect, differs]
  · simp [shape, stripRects, startsBand, spanRect]

/-- The scanline continues the last band. -/
def Continues (bands : List (Band Int Int)) (y : Int) (spans : List (Span Int)) : Prop :=
  ∃ earlier last, bands = earlier ++ [last] ∧ last.bottom = y ∧ last.spans = spans

theorem extendsLast_iff (stacked : Stacked bands) (built : builder.rects.reverse = rectsOf bands)
    (first second : Point) (ends : Bool) :
    builder.extendsLast first second ends = true ↔
      ends = true ∧ Continues bands first.y [⟨first.x, second.x⟩] := by
  have rects : builder.rects = (rectsOf bands).reverse := by rw [← built, reverse_reverse]
  unfold RectBuilder.extendsLast
  rw [rects]
  rcases eq_nil_or_concat' bands with empty | ⟨earlier, last, shape⟩
  · simp [empty, Continues]
  subst shape
  have occupied := (stacked.valid last (by simp)).occupied
  rcases eq_nil_or_concat' last.spans with empty | ⟨front, span, spans⟩
  · exact absurd empty occupied
  have alone := startsBand_iff stacked front span
  rw [rectsOf_append, rectsOf_cons, rectsOf_nil, spans]
  simp only [stripRects, map_append, map_cons, map_nil, reverse_append, reverse_cons,
    reverse_nil, nil_append, cons_append, Bool.and_eq_true, decide_eq_true_eq] at alone ⊢
  rw [alone]
  constructor
  · rintro ⟨⟨⟨⟨left, bottom⟩, right⟩, rfl⟩, marked⟩
    refine ⟨marked, earlier, last, rfl, bottom.symm, ?_⟩
    rw [spans, left, right]
    rfl
  · rintro ⟨marked, _, same, shape, bottom, single⟩
    obtain ⟨-, isLast⟩ := append_inj' shape rfl
    obtain rfl : last = same := by simpa using isLast
    obtain ⟨rfl, rfl⟩ : front = [] ∧ span = ⟨first.x, second.x⟩ := by
      rw [single] at spans
      cases front with
      | nil => simpa [eq_comm] using spans
      | cons => simp at spans
    exact ⟨⟨⟨⟨rfl, bottom.symm⟩, rfl⟩, rfl⟩, marked⟩

theorem rectsOf_emitStrip_of_not_continues (differs : spans ≠ [] → ¬ Continues bands y spans) :
    rectsOf (emitStrip bands y (y + 1) spans) = rectsOf bands ++ stripRects y (y + 1) spans := by
  unfold emitStrip
  split
  next empty => simp [empty, stripRects]
  rename_i occupied
  rcases eq_nil_or_concat' bands with rfl | ⟨earlier, last, rfl⟩
  · simp [pushBand]
  rw [pushBand_concat, if_neg]
  · simp
  · rintro ⟨touching, same⟩
    exact differs occupied ⟨earlier, last, rfl, touching, same⟩

theorem rectsOf_emitStrip_of_single (touching : last.bottom = y) (single : last.spans = [span]) :
    rectsOf (emitStrip (earlier ++ [last]) y (y + 1) [span]) =
      rectsOf earlier ++ [spanRect last.top (y + 1) span] := by
  unfold emitStrip
  rw [if_neg (cons_ne_nil _ _), pushBand_concat, if_pos ⟨touching, single⟩]
  simp [single, stripRects]

theorem properSpans_concat (front : List (Span Int)) (last : Span Int) :
    properSpans (front ++ [last]) =
      properSpans front ++ if last.left = last.right then [] else [last] := by
  unfold properSpans
  by_cases empty : last.left = last.right <;> simp [empty]

theorem rects_addPair_alone (stacked : Stacked bands)
    (built : builder.rects.reverse = rectsOf bands) (proper : span.left ≠ span.right)
    (fits : FitsInt (y + 1)) (marked : Continues bands y [span] → ends = true) :
    (builder.addPair (spanPair y span).1 (spanPair y span).2 ends).rects.reverse =
      rectsOf (emitStrip bands y (y + 1) [span]) := by
  have extends_iff : builder.extendsLast (spanPair y span).1 (spanPair y span).2 ends = true ↔
      ends = true ∧ Continues bands y [span] :=
    extendsLast_iff stacked built _ _ _
  rw [rects_addPair proper fits]
  split
  next extended =>
    obtain ⟨-, earlier, last, rfl, touching, single⟩ := extends_iff.mp extended
    rw [rectsOf_emitStrip_of_single touching single]
    have rects :
        builder.rects = spanRect last.top last.bottom span :: (rectsOf earlier).reverse := by
      rw [← reverse_inj, built, rectsOf_append, rectsOf_cons, single]
      simp [stripRects]
    simp [RectBuilder.setBottom, rects, spanRect]
  next notExtended =>
    have differs : [span] ≠ [] → ¬ Continues bands y [span] := by
      intro _ continues
      exact notExtended (extends_iff.mpr ⟨marked continues, continues⟩)
    rw [rectsOf_emitStrip_of_not_continues differs, reverse_cons, built]
    rfl

theorem rects_addPair_behind {front : List (Span Int)} (occupied : front ≠ []) {earlier : List Rect}
    (rects : builder.rects = (stripRects y (y + 1) front).reverse ++ earlier) {span : Span Int}
    (proper : span.left ≠ span.right) (fits : FitsInt (y + 1)) (ends : Bool) :
    (builder.addPair (spanPair y span).1 (spanPair y span).2 ends).rects =
      (stripRects y (y + 1) (front ++ [span])).reverse ++ earlier := by
  rw [rects_addPair proper fits, if_neg]
  · simp [rects, stripRects]
  · intro extended
    obtain ⟨last, others, shape, ⟨-, bottom, -⟩, -⟩ := extendsLast_eq_true extended
    obtain ⟨_, before, rfl⟩ := (eq_nil_or_concat' front).resolve_left occupied
    rw [shape] at rects
    have isLast : last = spanRect y (y + 1) before := by
      simp [stripRects] at rects
      exact rects.1
    simp [isLast, spanPair, spanRect] at bottom

theorem rects_addRow (stacked : Stacked bands) (built : builder.rects.reverse = rectsOf bands)
    (fits : properSpans spans ≠ [] → FitsInt (y + 1)) (merged : properSpans spans ≠ [] →
      Continues bands y (properSpans spans) →
      ends = true ∧ ∃ front last, spans = front ++ [last] ∧ properSpans spans = [last]) :
    (builder.addPairs (rowPairs y spans ends)).rects.reverse =
      rectsOf (emitStrip bands y (y + 1) (properSpans spans)) := by
  rcases eq_nil_or_concat' spans with rfl | ⟨front, last, rfl⟩
  · simpa [rowPairs, properSpans, emitStrip] using built
  have frontFits : properSpans front ≠ [] → FitsInt (y + 1) := by
    intro occupied
    apply fits
    simp [properSpans_concat, occupied]
  have afterFront := rects_addPairs_unmarked builder front frontFits
  rw [rowPairs_concat, RectBuilder.addPairs_append,
    RectBuilder.addPairs_cons, RectBuilder.addPairs_nil]
  generalize builder.addPairs (front.map fun span => (spanPair y span, false)) = middle at *
  by_cases empty : last.left = last.right
  · -- An empty last pair adds nothing and continues nothing.
    have skipped : middle.addPair (spanPair y last).1 (spanPair y last).2 ends = middle :=
      if_pos empty
    have differs : properSpans (front ++ [last]) ≠ [] →
        ¬ Continues bands y (properSpans (front ++ [last])) := by
      intro occupied continues
      obtain ⟨-, others, same, spans, single⟩ := merged occupied continues
      obtain ⟨-, isLast⟩ := append_inj' spans rfl
      obtain rfl : last = same := by simpa using isLast
      have proper : last ∈ properSpans (front ++ [last]) := by simp [single]
      simpa [empty] using of_mem_filter proper
    rw [rectsOf_emitStrip_of_not_continues differs, skipped, afterFront,
      ← built, properSpans_concat, if_pos empty]
    simp
  · have bottomFits : FitsInt (y + 1) := by
      apply fits
      simp [properSpans_concat, empty]
    rw [properSpans_concat, if_neg empty] at merged ⊢
    by_cases alone : properSpans front = []
    · rw [alone, nil_append] at merged ⊢
      have sameRects : middle.rects.reverse = rectsOf bands := by
        simpa [afterFront, alone, stripRects] using built
      exact rects_addPair_alone stacked sameRects empty bottomFits
        fun continues => (merged (cons_ne_nil _ _) continues).1
    have differs : properSpans front ++ [last] ≠ [] →
        ¬ Continues bands y (properSpans front ++ [last]) := by
      intro occupied continues
      obtain ⟨-, _, only, -, single⟩ := merged occupied continues
      have lengths := congrArg length single
      have := length_pos_iff.mpr alone
      simp only [length_append, length_singleton] at lengths
      omega
    rw [rectsOf_emitStrip_of_not_continues differs,
      rects_addPair_behind alone afterFront empty bottomFits, ← built]
    simp

end Winex.Gdi
