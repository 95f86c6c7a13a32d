import Winex.RegionOp

namespace Winex.Gdi

open Banding List

/-!
# The callbacks of the region sweep

Each callback of `REGION_RegionOp` appends the rectangles of one strip, with the spans
computed in `Winex.Banding`. `REGION_Coalesce` fuses the strip with the band above it,
as `pushBand` does.
-/

/-- Forget the vertical edges of a rectangle list. -/
def spansOf (rects : List Rect) : List (Span Int) :=
  rects.map fun rect => ⟨rect.left, rect.right⟩

@[simp] theorem spansOf_nil : spansOf [] = [] :=
  rfl

@[simp] theorem spansOf_cons (rect : Rect) (rest : List Rect) :
    spansOf (rect :: rest) = ⟨rect.left, rect.right⟩ :: spansOf rest :=
  rfl

@[simp] theorem spansOf_stripRects (top bottom : Int) (spans : List (Span Int)) :
    spansOf (stripRects top bottom spans) = spans := by
  simp [spansOf, stripRects, spanRect, Function.comp_def]

@[simp] theorem stripRects_nil (top bottom : Int) : stripRects top bottom [] = [] :=
  rfl

@[simp] theorem stripRects_cons (top bottom : Int) (span : Span Int) (rest : List (Span Int)) :
    stripRects top bottom (span :: rest) =
      ⟨span.left, top, span.right, bottom⟩ :: stripRects top bottom rest :=
  rfl

@[simp] theorem RectArray.rects_append (array : RectArray) (rect : Rect) :
    (array.append rect).rects = array.rects ++ [rect] :=
  rfl

theorem rects_copyBand (array : RectArray) (rects : List Rect) (top bottom : Int) :
    (copyBand array rects top bottom).rects =
      array.rects ++ stripRects top bottom (spansOf rects) := by
  unfold copyBand
  induction rects generalizing array with
  | nil => simp
  | cons _ _ ih => simp [ih]

/-- `REGION_IntersectO` appends the intersection of the two bands. -/
theorem rects_intersectO (array : RectArray) (first second : List Rect) (top bottom : Int) :
    (intersectO array first second top bottom).rects =
      array.rects ++ stripRects top bottom (intersectSpans (spansOf first) (spansOf second)) := by
  fun_induction intersectO array first second top bottom with
  | case1 array second | case2 array r1 rest1 => simp [intersectSpans]
  | case3 _ _ _ _ _ _ _ _ _ ih
  | case4 _ _ _ _ _ _ _ _ _ _ ih
  | case5 _ _ _ _ _ _ _ _ _ _ ih =>
    rw [ih]
    simp only [spansOf_cons]
    rw [intersectSpans]
    grind [RectArray.rects_append, stripRects_cons]

variable {array : RectArray} {earlier : List Rect} {top bottom : Int}

/--
`MERGERECT` behind an open rectangle of the band leaves an open rectangle
again, and what is still to be joined does not change the outcome.
-/
theorem mergeRect_open {current : Span Int}
    (shape : array.rects = earlier ++ [⟨current.left, top, current.right, bottom⟩]) (rect : Rect) :
    ∃ earlierNext currentNext, (mergeRect array rect top bottom).rects =
        earlierNext ++ [⟨currentNext.left, top, currentNext.right, bottom⟩] ∧
      ∀ rest, earlierNext ++ stripRects top bottom (joinFrom currentNext rest) =
        earlier ++ stripRects top bottom (joinFrom current (⟨rect.left, rect.right⟩ :: rest)) := by
  unfold mergeRect
  rw [shape]
  simp only [getLast?_append, getLast?_singleton,
    Option.some_or, dropLast_concat, true_and, ge_iff_le, joinFrom]
  by_cases touching : rect.left ≤ current.right
  · refine ⟨earlier, ⟨current.left, max current.right rect.right⟩, ?_, ?_⟩
    · by_cases wider : current.right < rect.right
      · simp [touching, wider, max_eq_right (le_of_lt wider)]
      · simp [touching, wider, shape, max_eq_left (not_lt.mp wider)]
    · simp [touching]
  · refine ⟨earlier ++ [⟨current.left, top, current.right, bottom⟩],
      ⟨rect.left, rect.right⟩, ?_, ?_⟩
    · simp [touching, shape]
    · simp [touching]

/-- Behind an open rectangle, the union loop joins the interleaved bands. -/
theorem rects_unionO_open (first second : List Rect) (current : Span Int)
    (shape : array.rects = earlier ++ [⟨current.left, top, current.right, bottom⟩]) :
    (unionO array first second top bottom).rects =
      earlier ++ stripRects top bottom
        (joinFrom current (Banding.interleave (spansOf first) (spansOf second))) := by
  fun_induction unionO array first second top bottom generalizing earlier current with
  | case1 => simp [joinFrom, shape]
  | case2 _ r1 _ ih =>
    obtain ⟨_, _, nextShape, same⟩ := mergeRect_open shape r1
    rw [ih _ nextShape, same]
    simp
  | case3 _ r2 _ ih =>
    obtain ⟨_, _, nextShape, same⟩ := mergeRect_open shape r2
    rw [ih _ nextShape, same]
    simp [Banding.interleave]
  | case4 _ r1 _ _ _ before ih =>
    obtain ⟨_, _, nextShape, same⟩ := mergeRect_open shape r1
    rw [ih _ nextShape, same]
    simp [Banding.interleave, before]
  | case5 _ _ _ r2 _ notBefore ih =>
    obtain ⟨_, _, nextShape, same⟩ := mergeRect_open shape r2
    rw [ih _ nextShape, same]
    simp [Banding.interleave, notBefore]

/-- No rectangle of the band has been written yet. -/
def BandClosed (rects : List Rect) (top bottom : Int) : Prop :=
  ∀ last ∈ rects.getLast?, ¬ (last.top = top ∧ last.bottom = bottom)

/-- The first `MERGERECT` of a band writes its rectangle. -/
theorem rects_mergeRect_closed (closed : BandClosed array.rects top bottom) (rect : Rect) :
    (mergeRect array rect top bottom).rects =
      array.rects ++ [⟨rect.left, top, rect.right, bottom⟩] := by
  unfold mergeRect
  cases shape : array.rects.getLast? with
  | none => simp
  | some last =>
    have differs := closed last shape
    have skipped : ¬ (last.top = top ∧ last.bottom = bottom ∧ last.right ≥ rect.left) :=
      fun same => differs ⟨same.1, same.2.1⟩
    simp [skipped]

/-- `REGION_UnionO` appends the union of the two bands. -/
theorem rects_unionO (closed : BandClosed array.rects top bottom) (first second : List Rect) :
    (unionO array first second top bottom).rects =
      array.rects ++ stripRects top bottom (uniteSpans (spansOf first) (spansOf second)) := by
  have opened (rect : Rect) (first second : List Rect) :=
    rects_unionO_open first second ⟨rect.left, rect.right⟩ (rects_mergeRect_closed closed rect)
  unfold uniteSpans
  cases first with
  | nil =>
    cases second with
    | nil => simp [unionO, joinSpans]
    | cons r2 =>
      rw [unionO, opened r2]
      simp [Banding.interleave, joinSpans]
  | cons r1 =>
    cases second with
    | nil =>
      rw [unionO, opened r1]
      simp [joinSpans]
    | cons r2 =>
      rw [unionO]
      by_cases before : r1.left < r2.left
      · rw [if_pos before, opened r1]
        simp [Banding.interleave, joinSpans, before]
      · rw [if_neg before, opened r2]
        simp [Banding.interleave, joinSpans, before]

/-- The spans of a band whose first one has been cut at `left`. -/
def fencedSpans (left : Int) (rects : List Rect) : List (Span Int) :=
  match rects with
  | [] => []
  | rect :: rest => ⟨left, rect.right⟩ :: spansOf rest

@[simp] theorem fencedSpans_nextLeft (left : Int) (rects : List Rect) :
    fencedSpans (nextLeft left rects) rects = spansOf rects := by
  cases rects <;> rfl

variable {first : List Rect} {rect : Rect} {spans : List (Span Int)}
  {bands rest : List (Band Int Int)} {band : Band Int Int}

theorem nextLeft_lt (left : Int) {rects : List Rect}
    (inhabited : ∀ rect ∈ rects, rect.left < rect.right) :
    ∀ rect ∈ rects.head?, nextLeft left rects < rect.right := by
  cases rects with
  | nil => simp
  | cons head => simpa [nextLeft] using inhabited head (by simp)

theorem rects_subtractLoop (array : RectArray) {left : Int} (second : List Rect) (top bottom : Int)
    (inhabited : ∀ rect ∈ first, rect.left < rect.right)
    (fence : ∀ rect ∈ first.head?, left < rect.right) :
    (subtractLoop array left first second top bottom).rects =
      array.rects ++
        stripRects top bottom (subtractSpans (fencedSpans left first) (spansOf second)) := by
  fun_induction subtractLoop array left first second top bottom with
  | case1 => simp [fencedSpans, subtractSpans]
  | case2 _ _ _ rest1 ih =>
    rw [ih (by grind) (nextLeft_lt _ (by grind))]
    cases rest1 <;> simp [fencedSpans, subtractSpans, nextLeft]
  | case3 _ _ _ _ _ _ missed ih =>
    rw [ih inhabited fence]
    simp [fencedSpans, subtractSpans, missed]
  | case4 _ _ _ _ _ _ reaches before covered ih =>
    rw [ih (by grind) (nextLeft_lt _ (by grind)), fencedSpans_nextLeft]
    simp only [fencedSpans, spansOf_cons]
    rw [subtractSpans.eq_3]
    simp [reaches, before, covered]
  | case5 _ left r1 _ _ _ reaches before uncovered ih =>
    rw [ih inhabited (by grind)]
    simp only [fencedSpans, spansOf_cons]
    rw [subtractSpans.eq_3 ⟨left, r1.right⟩]
    simp [reaches, before, uncovered]
  | case6 _ _ _ _ _ _ reaches inside overlaps written covered ih =>
    rw [ih (by grind) (nextLeft_lt _ (by grind)), fencedSpans_nextLeft]
    simp only [fencedSpans, spansOf_cons]
    rw [subtractSpans.eq_3]
    simp [reaches, inside, overlaps, covered, written]
  | case7 _ left r1 _ _ _ reaches inside overlaps written uncovered ih =>
    rw [ih inhabited (by grind)]
    simp only [fencedSpans, spansOf_cons]
    rw [subtractSpans.eq_3 ⟨left, r1.right⟩]
    simp [reaches, inside, overlaps, uncovered, written]
  | case8 _ left r1 _ _ _ reaches inside beyond written ih =>
    have wide : left < r1.right := fence r1 (by simp)
    rw [ih (by grind) (nextLeft_lt _ (by grind)), fencedSpans_nextLeft]
    simp only [fencedSpans, spansOf_cons]
    rw [subtractSpans.eq_3]
    simp [reaches, inside, beyond, written, wide]

/-- `REGION_SubtractO` appends the difference of the two bands. -/
theorem rects_subtractO (array : RectArray) (second : List Rect) (top bottom : Int)
    (inhabited : ∀ rect ∈ first, rect.left < rect.right) :
    (subtractO array first second top bottom).rects =
      array.rects ++ stripRects top bottom (subtractSpans (spansOf first) (spansOf second)) := by
  unfold subtractO
  rw [rects_subtractLoop array second top bottom inhabited]
  · rw [fencedSpans_nextLeft]
  · exact nextLeft_lt 0 inhabited

theorem edges_of_mem_stripRects (member : rect ∈ stripRects top bottom spans) :
    rect.top = top ∧ rect.bottom = bottom := by
  obtain ⟨_, -, rfl⟩ := mem_map.mp member
  exact ⟨rfl, rfl⟩

theorem exists_band_of_mem_rectsOf (member : rect ∈ rectsOf bands) :
    ∃ band ∈ bands, rect ∈ stripRects band.top band.bottom band.spans :=
  mem_flatMap.mp member

theorem bandOf_append (bottom : Int) (occupied : spans ≠ []) {rest : List Rect}
    (differs : ∀ rect ∈ rest.head?, rect.top ≠ top) :
    bandOf (stripRects top bottom spans ++ rest) = stripRects top bottom spans ∧
      afterBand (stripRects top bottom spans ++ rest) = rest := by
  obtain ⟨span, later, shape⟩ := exists_cons_of_ne_nil occupied
  have sameTop : ∀ rect ∈ stripRects top bottom spans, (rect.top == top) = true := by
    intro _ member
    simp [(edges_of_mem_stripRects member).1]
  have stopped : rest.takeWhile (fun other => other.top == top) = [] ∧
      rest.dropWhile (fun other => other.top == top) = rest := by
    cases rest with
    | nil => simp
    | cons rect =>
      have := differs rect (by simp)
      simp [this]
  have starts : stripRects top bottom spans ++ rest =
      ⟨span.left, top, span.right, bottom⟩ :: (stripRects top bottom later ++ rest) := by
    rw [shape]
    rfl
  constructor
  · rw [starts, bandOf, ← starts, takeWhile_append_of_pos sameTop, stopped.1, append_nil]
  · rw [starts, afterBand, ← starts, dropWhile_append_of_pos sameTop, stopped.2]

theorem Stacked.top_ne_of_mem_tail (stacked : Stacked (band :: rest)) :
    ∀ rect ∈ (rectsOf rest).head?, rect.top ≠ band.top := by
  obtain ⟨valid, below, -⟩ := stacked_cons.mp stacked
  intro _ isHead
  obtain ⟨lower, lowerMember, rectMember⟩ :=
    exists_band_of_mem_rectsOf (mem_of_mem_head? isHead)
  have := (edges_of_mem_stripRects rectMember).1
  have := below lower lowerMember
  have := valid.tall
  omega

theorem Stacked.bandOf_rectsOf (stacked : Stacked (band :: rest)) :
    bandOf (rectsOf (band :: rest)) = stripRects band.top band.bottom band.spans ∧
      afterBand (rectsOf (band :: rest)) = rectsOf rest := by
  exact bandOf_append band.bottom (stacked.valid band (by simp)).occupied
    (Stacked.top_ne_of_mem_tail stacked)

/-- The index of the first rectangle of the last band. -/
def bandStart (bands : List (Band Int Int)) : Nat :=
  (rectsOf bands.dropLast).length

/-- The pairwise comparison of two bands decides whether they agree. -/
theorem all_zip_stripRects (top bottom nextTop nextBottom : Int) {first second : List (Span Int)}
    (sameLength : second.length = first.length) :
    (((stripRects top bottom first).zip
      (stripRects nextTop nextBottom second)).all fun pair =>
          pair.1.left == pair.2.left && pair.1.right == pair.2.right) =
        true ↔
      first = second := by
  induction first generalizing second with
  | nil => simp [length_eq_zero_iff.mp sameLength]
  | cons span _ ih =>
    cases second with
    | nil => simp at sameLength
    | cons other =>
      have sameRest := ih (Nat.succ.inj sameLength)
      cases span
      cases other
      simp [stripRects_cons, sameRest, Span.mk.injEq]

theorem map_zip_stripRects (top bottom nextTop nextBottom : Int) (spans : List (Span Int)) :
    ((stripRects top bottom spans).zip
      (stripRects nextTop nextBottom spans)).map
        (fun pair => { pair.1 with bottom := pair.2.bottom }) =
      stripRects top nextBottom spans := by
  induction spans with
  | nil => rfl
  | cons _ _ ih => simp [ih]

theorem Stacked.rectsOf_eq_nil (stacked : Stacked bands) : rectsOf bands = [] ↔ bands = [] := by
  cases bands with
  | nil => simp
  | cons band =>
    have occupied := (stacked.valid band (by simp)).occupied
    simp [stripRects, occupied]

theorem Stacked.rectsOf_injective {first second : List (Band Int Int)}
    (firstStacked : Stacked first) (secondStacked : Stacked second)
    (same : rectsOf first = rectsOf second) : first = second := by
  induction first generalizing second with
  | nil => exact ((Stacked.rectsOf_eq_nil secondStacked).mp same.symm).symm
  | cons band _ ih =>
    cases second with
    | nil => exact (Stacked.rectsOf_eq_nil firstStacked).mp same
    | cons other =>
      obtain ⟨strip, later⟩ := Stacked.bandOf_rectsOf firstStacked
      obtain ⟨otherStrip, otherLater⟩ := Stacked.bandOf_rectsOf secondStacked
      rw [same, otherStrip] at strip
      rw [same, otherLater] at later
      have sameRest :=
        ih (stacked_cons.mp firstStacked).2.2 (stacked_cons.mp secondStacked).2.2 later.symm
      have sameSpans : other.spans = band.spans := by simpa using congrArg spansOf strip
      obtain ⟨_, _, shape⟩ :=
        exists_cons_of_ne_nil (firstStacked.valid band (by simp)).occupied
      rw [sameSpans, shape, stripRects_cons, stripRects_cons,
        cons.injEq, Rect.mk.injEq] at strip
      cases band
      cases other
      simp_all

/--
`REGION_Coalesce` on two bands with their rectangles written out: the lower
one is fused with the upper one exactly when they touch and agree.
-/
theorem coalesce_bands {others : List Rect} {last new : Band Int Int}
    (shape : array.rects =
      earlier ++ stripRects last.top last.bottom last.spans ++
        (stripRects new.top new.bottom new.spans ++ others)) (lastOccupied : last.spans ≠ [])
    (newOccupied : new.spans ≠ []) (differs : ∀ rect ∈ others.head?, rect.top ≠ new.top) :
    coalesce array earlier.length (earlier.length + last.spans.length) =
      if last.bottom = new.top ∧ last.spans = new.spans then
        ({ array with
            rects := earlier ++ stripRects last.top new.bottom last.spans ++ others },
          if others = [] then earlier.length else lastBandStart array.rects)
      else
        (array,
          if others = [] then earlier.length + last.spans.length
          else lastBandStart array.rects) := by
  have cut : array.rects.drop (earlier.length + last.spans.length) =
      stripRects new.top new.bottom new.spans ++ others := by
    rw [shape]
    exact drop_left' (by simp)
  have prevBand : (array.rects.drop earlier.length).take last.spans.length =
      stripRects last.top last.bottom last.spans := by
    rw [shape, append_assoc, drop_left]
    exact take_left' (by simp)
  have kept : array.rects.take earlier.length = earlier := by
    rw [shape, append_assoc, take_left]
  obtain ⟨curBand, after⟩ := bandOf_append new.bottom newOccupied differs
  unfold coalesce
  simp only [Nat.add_sub_cancel_left, cut, prevBand, kept, curBand, after, length_stripRects]
  split
  next prevShape curShape =>
    have prevEdges := edges_of_mem_stripRects (prevShape ▸ mem_cons_self)
    have curEdges := edges_of_mem_stripRects (curShape ▸ mem_cons_self)
    rw [prevEdges.2, curEdges.1]
    by_cases agree : last.bottom = new.top ∧ last.spans = new.spans
    · have comparable : new.spans.length = last.spans.length ∧ last.bottom = new.top :=
        ⟨congrArg length agree.2.symm, agree.1⟩
      have matched :=
        (all_zip_stripRects last.top last.bottom new.top new.bottom comparable.1).mpr agree.2
      rw [if_pos comparable, if_pos matched, if_pos agree, ← agree.2, map_zip_stripRects]
      by_cases noOthers : others = [] <;> simp [noOthers]
    · rw [if_neg agree]
      split
      next touching =>
        have unmatched :=
          mt (all_zip_stripRects last.top last.bottom new.top new.bottom
            touching.1).mp (fun same => agree ⟨touching.2, same⟩)
        rw [if_neg unmatched]
      · rfl
  next notBoth =>
    obtain ⟨_, _, lastShape⟩ := exists_cons_of_ne_nil lastOccupied
    obtain ⟨_, _, newShape⟩ := exists_cons_of_ne_nil newOccupied
    rw [lastShape, newShape] at notBoth
    exact (notBoth _ _ _ _ rfl rfl).elim

/--
`REGION_Coalesce` fuses a band written behind the last one like `pushBand`;
when nothing else follows, it returns the start of the last band.
-/
theorem coalesce_eq_pushBand {done : List (Band Int Int)} (new : Band Int Int)
    (later : List (Band Int Int)) (shape : array.rects = rectsOf done ++ rectsOf (new :: later))
    (occupied : ∀ band ∈ done, band.spans ≠ []) (stacked : Stacked (new :: later)) :
    (coalesce array (bandStart done) (rectsOf done).length).1.rects =
        rectsOf (pushBand done new ++ later) ∧
      (later = [] →
        (coalesce array (bandStart done) (rectsOf done).length).2 =
          bandStart (pushBand done new)) := by
  rcases eq_nil_or_concat' done with rfl | ⟨earlier, last, concat⟩
  · have unchanged : coalesce array (bandStart []) (rectsOf []).length =
        (array, if afterBand array.rects = [] then 0 else lastBandStart array.rects) := by
      simp [coalesce, bandStart]
    have rest := (Stacked.bandOf_rectsOf stacked).2
    rw [unchanged]
    constructor
    · simpa [pushBand] using shape
    · intro noLater
      subst noLater
      rw [rectsOf_nil, nil_append] at shape
      rw [shape, rest]
      simp [pushBand, bandStart]
  · subst concat
    have fused :=
      coalesce_bands
        (by simpa using shape)
        (occupied last (by simp))
        (stacked.valid new (by simp)).occupied
        (Stacked.top_ne_of_mem_tail stacked)
    have start : bandStart (earlier ++ [last]) = (rectsOf earlier).length := by simp [bandStart]
    have length :
        (rectsOf (earlier ++ [last])).length = (rectsOf earlier).length + last.spans.length := by
      simp
    rw [start, length, fused, pushBand_concat]
    split
    next agree =>
      refine ⟨by simp, ?_⟩
      intro noLater
      simp [noLater, bandStart]
    · refine ⟨by simpa using shape, ?_⟩
      intro noLater
      simp [noLater, bandStart]

end Winex.Gdi
