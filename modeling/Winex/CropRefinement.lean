import Winex.BandClip
import Winex.RegionCrop
import Winex.RegionEdit

namespace Winex.Gdi

open Banding List

/-!
# Cropping computes the clipped band list

On the array of a stacked band list the filtering pass of `REGION_CropAndOffsetRegion`
writes the rectangles of the clipped list, moved by the offset, with their tight
bounding box.  The pass is first described without an offset.
-/

/-- The sides of the clip cut a rectangle of the region. -/
def cutRect (rect lpr : Rect) : Option Rect :=
  if lpr.left < rect.right ∧ lpr.right > rect.left then
    some ⟨max lpr.left rect.left, lpr.top, min lpr.right rect.right, lpr.bottom⟩
  else
    none

variable {rect : Rect} {needed : Rect → Bool} (off : Point) {bands : List (Band Int Int)}

theorem cropRect_of_fits {off : Point} {lpr : Rect} (rectFits : Fits off rect)
    (fits : Fits off lpr) : cropRect off rect lpr = (cutRect rect lpr).map (shiftRect off) := by
  unfold cropRect cutRect
  split
  · have leftEq :
        (if lpr.left > rect.left then lpr.left else rect.left) = max lpr.left rect.left := by grind
    have rightEq :
        (if lpr.right < rect.right then lpr.right else rect.right) = min lpr.right rect.right := by
      grind
    rw [leftEq, rightEq, wrapInt_of_fits fits.2.1,
      wrapInt_of_fits fits.2.2.2, wrapInt_of_fits, wrapInt_of_fits]
    · rfl
    all_goals
      unfold Fits FitsInt at *
      omega
  · rfl

theorem fixupBand_append (edit : Rect → Rect) {edited rest : List Rect}
    (allNeed : ∀ rect ∈ edited, needed rect = true)
    (stops : ∀ rect ∈ rest.head?, needed rect = false) :
    fixupBand needed edit (edited ++ rest) = edited.map edit ++ rest := by
  induction edited with
  | nil =>
    cases rest with
    | nil => rfl
    | cons rect => simp [fixupBand, stops rect (by simp)]
  | cons rect _ ih =>
    simp [fixupBand, allNeed rect (by simp), ih
      fun other member => allNeed other (by simp [member])]

variable {edit : Rect → Rect} {rects : List Rect} {extents : Rect}

theorem fixupBand_map {neededAfter : Rect → Bool} {editAfter move : Rect → Rect}
    (sameTest : ∀ rect, neededAfter (move rect) = needed rect)
    (sameEdit : ∀ rect, editAfter (move rect) = move (edit rect)) (rects : List Rect) :
    fixupBand neededAfter editAfter (rects.map move) = (fixupBand needed edit rects).map move := by
  induction rects with
  | nil => rfl
  | cons _ _ ih =>
    simp only [map_cons, fixupBand, sameTest, sameEdit]
    split
    · simp [ih]
    · simp

theorem fixupTop_map_shiftRect (top : Int) (rects : List Rect) :
    fixupTop (top + off.y) (rects.map (shiftRect off)) =
      (fixupTop top rects).map (shiftRect off) := by
  apply fixupBand_map <;> simp [shiftRect]

theorem fixupBottom_map_shiftRect (bottom : Int) (rects : List Rect) :
    fixupBottom (bottom + off.y) (rects.map (shiftRect off)) =
      (fixupBottom bottom rects).map (shiftRect off) := by
  unfold fixupBottom
  rw [← map_reverse, fixupBand_map, map_reverse] <;> simp [shiftRect]

theorem foldl_widenExtents_shiftRect (rects : List Rect) (box : Rect) :
    (rects.map (shiftRect off)).foldl widenExtents (shiftRect off box) =
      shiftRect off (rects.foldl widenExtents box) := by
  induction rects generalizing box with
  | nil => rfl
  | cons _ _ ih =>
    rw [map_cons, foldl_cons, foldl_cons, ← ih]
    simp only [widenExtents, shiftRect]
    grind

/-- The vertical edges play no part in the running sides. -/
theorem foldl_widenExtents_sides {others : List Rect}
    (sameSides : rects.map (fun rect => (rect.left, rect.right)) =
      others.map fun rect => (rect.left, rect.right)) (box other : Rect)
    (sameLeft : box.left = other.left) (sameRight : box.right = other.right) :
    (rects.foldl widenExtents box).left = (others.foldl widenExtents other).left ∧
      (rects.foldl widenExtents box).right = (others.foldl widenExtents other).right := by
  induction rects generalizing others box other with
  | nil =>
    obtain rfl : others = [] := by simpa using sameSides
    exact ⟨sameLeft, sameRight⟩
  | cons rect _ ih =>
    obtain ⟨_, _, rfl, sameHead, sameRest⟩ := map_eq_cons_iff.mp sameSides.symm
    rw [Prod.mk.injEq] at sameHead
    apply ih sameRest.symm (widenExtents box rect)
    · simp [widenExtents, sameLeft, sameHead.1]
    · simp [widenExtents, sameRight, sameHead.2]

/-- The contents of a crop without an offset. -/
def cutContents (rect extents : Rect) (bands : List Rect) : RegionContents :=
  match bands.filterMap (cutRect rect) with
  | [] => ⟨.nullRegion, emptyExtents, []⟩
  | first :: rest =>
    let sides := (first :: rest).foldl widenExtents ⟨extents.right, 0, extents.left, 0⟩
    let fixed := fixupBottom rect.bottom (fixupTop rect.top (first :: rest))
    { type :=
        if (first :: rest).length > 1 then .complexRegion
        else .simpleRegion
      extents := ⟨sides.left, (fixed.headD first).top, sides.right, (fixed.getLastD first).bottom⟩
      rects := fixed }

theorem map_fixupBand {part : Rect → α} (kept : ∀ rect, part (edit rect) = part rect)
    (rects : List Rect) : (fixupBand needed edit rects).map part = rects.map part := by
  induction rects with
  | nil => rfl
  | cons _ _ ih =>
    unfold fixupBand
    split
    · simp [kept, ih]
    · rfl

theorem fixup_sides (top bottom : Int) (rects : List Rect) :
    (fixupBottom bottom (fixupTop top rects)).map (fun rect => (rect.left, rect.right)) =
      rects.map fun rect => (rect.left, rect.right) := by
  unfold fixupBottom fixupTop
  rw [map_reverse, map_fixupBand, ← map_reverse, reverse_reverse, map_fixupBand]
  · exact fun _ => rfl
  · exact fun _ => rfl

theorem fixup_ne_nil (top bottom : Int) (nonempty : rects ≠ []) :
    fixupBottom bottom (fixupTop top rects) ≠ [] := by
  intro empty
  have sides := fixup_sides top bottom rects
  rw [empty, map_nil, eq_comm, map_eq_nil_iff] at sides
  exact nonempty sides

/-- Cropping with an offset is cropping followed by the move. -/
theorem clipContents_of_fits {off : Point} {bands : List Rect} (rectFits : Fits off rect)
    (extentsFits : Fits off extents) (bandsFit : ∀ lpr ∈ bands, Fits off lpr) :
    clipContents off rect extents bands = shiftContents off (cutContents rect extents bands) := by
  have cropped : bands.filterMap (cropRect off rect) =
      (bands.filterMap (cutRect rect)).map (shiftRect off) := by
    rw [map_filterMap]
    exact filterMap_congr fun lpr member => cropRect_of_fits rectFits (bandsFit lpr member)
  unfold clipContents cutContents
  rw [cropped]
  cases bands.filterMap (cutRect rect) with
  | nil => simp [shiftContents]
  | cons first rest =>
    have sides :=
      foldl_widenExtents_sides
        (Eq.refl (((first :: rest).map (shiftRect off)).map fun rect => (rect.left, rect.right)))
        ⟨wrapInt (extents.right + off.x), 0, wrapInt (extents.left + off.x), 0⟩
        (shiftRect off ⟨extents.right, 0, extents.left, 0⟩)
        (wrapInt_of_fits extentsFits.2.2.1)
        (wrapInt_of_fits extentsFits.1)
    rw [foldl_widenExtents_shiftRect] at sides
    have fixed : fixupBottom (wrapInt (rect.bottom + off.y))
          (fixupTop (wrapInt (rect.top + off.y)) ((first :: rest).map (shiftRect off))) =
        (fixupBottom rect.bottom (fixupTop rect.top (first :: rest))).map (shiftRect off) := by
      rw [wrapInt_of_fits rectFits.2.1, wrapInt_of_fits rectFits.2.2.2,
        fixupTop_map_shiftRect, fixupBottom_map_shiftRect]
    have nonempty := fixup_ne_nil rect.top rect.bottom (cons_ne_nil first rest)
    rw [map_cons] at sides fixed
    simp only [map_cons, sides, fixed]
    have headEq := head?_eq_some_head nonempty
    have lastEq := getLast?_eq_some_getLast nonempty
    simp only [shiftContents, nonempty, if_false, headD_eq_head?_getD, getLastD_eq_getLast?,
      head?_map, getLast?_map, headEq, lastEq, Option.map_some, Option.getD_some, length_cons,
      length_map]
    rfl

theorem cutContents_eq_contentsOf {bands : List Rect} (sorted : VerticallySorted
      (fixupBottom rect.bottom (fixupTop rect.top (bands.filterMap (cutRect rect))))) (meets :
      ∀ lpr ∈ bands.filterMap (cutRect rect), lpr.left ≤ extents.right ∧ extents.left ≤ lpr.right) :
    cutContents rect extents bands =
      contentsOf
        (fixupBottom rect.bottom (fixupTop rect.top (bands.filterMap (cutRect rect)))) := by
  unfold cutContents
  generalize bands.filterMap (cutRect rect) = cut at *
  cases cut with
  | nil => rfl
  | cons first rest =>
    have sides := fixup_sides rect.top rect.bottom (first :: rest)
    have nonempty := fixup_ne_nil rect.top rect.bottom (cons_ne_nil first rest)
    dsimp only
    generalize fixupBottom rect.bottom (fixupTop rect.top (first :: rest)) = fixed at *
    have headEq := head?_eq_some_head nonempty
    have lastEq := getLast?_eq_some_getLast nonempty
    have sameLength : fixed.length = (first :: rest).length := by simpa using congrArg length sides
    obtain ⟨left, right⟩ :=
      foldl_widenExtents_sides sides.symm
        ⟨extents.right, 0, extents.left, 0⟩
        ⟨extents.right, 0, extents.left, 0⟩ rfl rfl
    obtain ⟨source, sourceMember, sameSides⟩ :
        ∃ source ∈ first :: rest, (source.left, source.right) =
          ((fixed.head nonempty).left, (fixed.head nonempty).right) := by
      rw [← mem_map, ← sides]
      exact mem_map_of_mem (head_mem nonempty)
    have tight :=
      tightBox_foldl_widenExtents sorted
        ⟨extents.right, 0, extents.left, 0⟩ headEq lastEq
        ⟨_, head_mem nonempty, by grind⟩
        ⟨_, head_mem nonempty, by grind⟩
    rw [← left, ← right] at tight
    have unique := tight.unique (tightBox_extentsOf sorted)
    rw [headD_eq_head?_getD, getLastD_eq_getLast?, headEq, lastEq, Option.getD_some,
      Option.getD_some, unique, contentsOf, sameLength]
    simp [typeOfCount]

/-- The upward scan passes a strip as a whole. -/
theorem skipBands_stripRects (clipTop : Int) (top bottom : Int) {spans : List (Span Int)}
    (occupied : spans ≠ []) (rest : List Rect) :
    skipBands clipTop (stripRects top bottom spans ++ rest) =
      if bottom ≤ clipTop then skipBands clipTop rest
      else some (stripRects top bottom spans ++ rest) := by
  split
  next above =>
    clear occupied
    induction spans with
    | nil => rfl
    | cons _ _ ih => simpa [skipBands, above] using ih
  next below =>
    obtain ⟨_, _, shape⟩ := exists_cons_of_ne_nil occupied
    simp [shape, skipBands, below]

/-- The bands that end below the upper clip edge are at the end. -/
theorem skipBands_rectsOf (stacked : Stacked bands) (clipTop : Int) :
    skipBands clipTop (rectsOf bands) =
      if bands.filter (fun band => clipTop < band.bottom) = [] then none
      else
        some (rectsOf (bands.filter fun band => clipTop < band.bottom)) := by
  induction bands with
  | nil => rfl
  | cons band rest ih =>
    obtain ⟨valid, _, restStacked⟩ := stacked_cons.mp stacked
    rw [rectsOf_cons, skipBands_stripRects clipTop _ _ valid.occupied]
    by_cases above : band.bottom ≤ clipTop
    · have dropped : ¬ clipTop < band.bottom := not_lt.mpr above
      simp [above, dropped, ih restStacked]
    have kept : (band :: rest).filter (fun band => clipTop < band.bottom) = band :: rest := by
      rw [filter_eq_self]
      intro lower member
      have pending := stacked.pending_of_head (not_le.mp above) lower member
      simpa using pending
    simp [above, kept]

/-- The bands that start above the lower clip edge are at the front. -/
theorem takeWhile_rectsOf (stacked : Stacked bands) (clipBottom : Int) :
    (rectsOf bands).takeWhile (fun lpr => lpr.top < clipBottom) =
      rectsOf (bands.filter fun band => band.top < clipBottom) := by
  induction bands with
  | nil => rfl
  | cons band rest ih =>
    obtain ⟨valid, below, restStacked⟩ := stacked_cons.mp stacked
    by_cases above : band.top < clipBottom
    · have all : ∀ rect ∈ stripRects band.top band.bottom band.spans,
          decide (rect.top < clipBottom) = true := by
        intro _ member
        simpa [(edges_of_mem_stripRects member).1] using above
      rw [rectsOf_cons, takeWhile_append_of_pos all, ih restStacked]
      simp [above]
    have noneKept : (band :: rest).filter (fun band => band.top < clipBottom) = [] := by
      rw [filter_eq_nil_iff]
      intro lower member
      have tall := valid.tall
      rcases mem_cons.mp member with isHead | inRest
      · simpa [isHead] using above
      · have := below lower inRest
        simp
        omega
    obtain ⟨_, _, shape, edges⟩ := Stacked.exists_head stacked
    rw [noneKept, shape, takeWhile_cons_of_neg]
    · rfl
    · simpa [edges.1] using above

/-- A band that meets the clip, cut at the sides of the clip only. -/
def cutBandSides (rect : Rect) (band : Band Int Int) : Option (Band Int Int) :=
  if (band.top < rect.bottom ∧ rect.top < band.bottom) ∧
      clipSpans rect.left rect.right band.spans ≠ [] then
    some ⟨band.top, band.bottom, clipSpans rect.left rect.right band.spans⟩
  else
    none

theorem filterMap_cutRect_stripRects (rect : Rect) (top bottom : Int) (spans : List (Span Int)) :
    (stripRects top bottom spans).filterMap (cutRect rect) =
      stripRects top bottom (clipSpans rect.left rect.right spans) := by
  induction spans with
  | nil => rfl
  | cons span _ ih =>
    rw [stripRects_cons, filterMap_cons, ih]
    by_cases meets : span.left < rect.right ∧ rect.left < span.right <;>
      simp [cutRect, clipSpans, cutSpan, meets]

/-- The bands that meet the clip. -/
def metBands (rect : Rect) (bands : List (Band Int Int)) : List (Band Int Int) :=
  bands.filter fun band => decide (band.top < rect.bottom) && decide (rect.top < band.bottom)

theorem filterMap_cutRect_rectsOf (rect : Rect) (bands : List (Band Int Int)) :
    (rectsOf (metBands rect bands)).filterMap (cutRect rect) =
      rectsOf (bands.filterMap (cutBandSides rect)) := by
  unfold metBands
  induction bands with
  | nil => rfl
  | cons band _ ih =>
    by_cases meets : band.top < rect.bottom ∧ rect.top < band.bottom
    · by_cases empty : clipSpans rect.left rect.right band.spans = [] <;>
        simp [cutBandSides, meets, empty, filterMap_cutRect_stripRects, ih]
    have passed :
        (decide (band.top < rect.bottom) && decide (rect.top < band.bottom)) = false := by
      simpa using meets
    simp [cutBandSides, meets, passed, ih]

theorem stacked_cutBandSides (wide : rect.left < rect.right) (stacked : Stacked bands) :
    Stacked (bands.filterMap (cutBandSides rect)) := by
  constructor
  · intro _ member
    obtain ⟨source, sourceMember, cut⟩ := mem_filterMap.mp member
    have valid := stacked.valid source sourceMember
    simp only [cutBandSides] at cut
    split at cut
    next meets =>
      obtain rfl := Option.some.inj cut
      exact ⟨valid.tall, meets.2, separated_clipSpans wide valid.separated⟩
    · cases cut
  · rw [pairwise_filterMap]
    refine stacked.ordered.imp ?_
    intro _ _ _ _ firstCut _ secondCut
    simp only [cutBandSides] at firstCut secondCut
    grind

/-- The upper fix-up loop lowers the tops that stick out of the clip. -/
theorem fixupTop_rectsOf (stacked : Stacked bands) {top : Int}
    (reach : ∀ band ∈ bands, top < band.bottom) :
    fixupTop top (rectsOf bands) =
      rectsOf (bands.map fun band => { band with top := max band.top top }) := by
  cases bands with
  | nil => rfl
  | cons first rest =>
    obtain ⟨-, below, _⟩ := stacked_cons.mp stacked
    have firstReaches := reach first (by simp)
    have restSame : rest.map (fun band => { band with top := max band.top top }) = rest := by
      refine (map_congr_left fun band member => ?_).trans (map_id rest)
      have := below band member
      rw [max_eq_left (by omega)]
      rfl
    have restStops : ∀ rect ∈ (rectsOf rest).head?, decide (rect.top < top) = false := by
      intro _ member
      obtain ⟨band, inRest, inStrip⟩ := exists_band_of_mem_rectsOf (mem_of_mem_head? member)
      have := below band inRest
      rw [(edges_of_mem_stripRects inStrip).1, decide_eq_false_iff_not]
      omega
    rw [map_cons, restSame, rectsOf_cons, rectsOf_cons, fixupTop]
    by_cases sticksOut : first.top < top
    · rw [fixupBand_append _ ?_ restStops]
      · simp [stripRects, spanRect, max_eq_right (le_of_lt sticksOut)]
      · intro _ member
        simpa [(edges_of_mem_stripRects member).1] using sticksOut
    obtain ⟨_, _, shape, edges⟩ := Stacked.exists_head stacked
    rw [rectsOf_cons] at shape
    rw [max_eq_left (not_lt.mp sticksOut), shape]
    simp [fixupBand, edges.1, sticksOut]

/-- The lower fix-up loop lifts the bottoms that stick out of the clip. -/
theorem fixupBottom_rectsOf (stacked : Stacked bands) {bottom : Int}
    (reach : ∀ band ∈ bands, band.top < bottom) :
    fixupBottom bottom (rectsOf bands) =
      rectsOf
        (bands.map fun band =>
          { band with bottom := min band.bottom bottom }) := by
  rcases eq_nil_or_concat bands with rfl | ⟨earlier, last, rfl⟩
  · rfl
  rw [concat_eq_append] at *
  have lastReaches := reach last (by simp)
  have above : ∀ band ∈ earlier, band.bottom ≤ last.top := by
    intro band member
    exact (pairwise_append.mp stacked.ordered).2.2 band member last (by simp)
  have earlierSame : earlier.map (fun band =>
          { band with bottom := min band.bottom bottom }) =
        earlier := by
    refine (map_congr_left fun band member => ?_).trans (map_id earlier)
    have := above band member
    rw [min_eq_left (by omega)]
    rfl
  have earlierStops :
      ∀ rect ∈ (rectsOf earlier).reverse.head?, decide (rect.bottom > bottom) = false := by
    intro _ member
    obtain ⟨band, inEarlier, inStrip⟩ :=
      exists_band_of_mem_rectsOf (mem_reverse.mp (mem_of_mem_head? member))
    have := above band inEarlier
    rw [(edges_of_mem_stripRects inStrip).2, decide_eq_false_iff_not]
    omega
  rw [map_append, earlierSame, rectsOf_append, rectsOf_append, fixupBottom, reverse_append]
  by_cases sticksOut : bottom < last.bottom
  · rw [fixupBand_append _ ?_ earlierStops]
    · simp [stripRects, spanRect, min_eq_right (le_of_lt sticksOut)]
    · intro rect member
      have inStrip : rect ∈ stripRects last.top last.bottom last.spans := by simpa using member
      simpa [(edges_of_mem_stripRects inStrip).2] using sticksOut
  rw [← nil_append (_ ++ _), fixupBand_append _ (by simp)]
  · simp [min_eq_left (not_lt.mp sticksOut)]
  · intro rect member
    have inList : rect ∈ rectsOf (earlier ++ [last]) := by
      have := mem_of_mem_head? member
      simpa [or_comm] using this
    obtain ⟨band, inBands, inStrip⟩ := exists_band_of_mem_rectsOf inList
    rw [(edges_of_mem_stripRects inStrip).2, decide_eq_false_iff_not]
    rcases mem_append.mp inBands with inEarlier | isLast
    · have := above band inEarlier
      omega
    · rw [mem_singleton.mp isLast]
      exact sticksOut

theorem fixup_rectsOf (wide : rect.left < rect.right) (tall : rect.top < rect.bottom)
    (stacked : Stacked bands) :
    fixupBottom rect.bottom (fixupTop rect.top (rectsOf (bands.filterMap (cutBandSides rect)))) =
      rectsOf (clipBands rect.left rect.right rect.top rect.bottom bands) := by
  have sidesStacked := stacked_cutBandSides wide stacked
  have meets : ∀ band ∈ bands.filterMap (cutBandSides rect),
      band.top < rect.bottom ∧ rect.top < band.bottom := by
    intro _ member
    obtain ⟨source, -, cut⟩ := mem_filterMap.mp member
    simp only [cutBandSides] at cut
    grind
  have loweredStacked : Stacked
      ((bands.filterMap (cutBandSides rect)).map fun band =>
          { band with top := max band.top rect.top }) := by
    constructor
    · intro _ member
      obtain ⟨source, sourceMember, rfl⟩ := mem_map.mp member
      have valid := sidesStacked.valid source sourceMember
      exact ⟨max_lt valid.tall (meets source sourceMember).2, valid.occupied, valid.separated⟩
    · rw [pairwise_map]
      exact sidesStacked.ordered.imp fun apart => le_trans apart (le_max_left _ _)
  rw [fixupTop_rectsOf sidesStacked fun band member => (meets band member).2,
    fixupBottom_rectsOf loweredStacked]
  · rw [map_map, map_filterMap, clipBands]
    congr 1
    refine filterMap_congr fun band _ => ?_
    simp only [cutBandSides, cutBand]
    split <;> rfl
  · intro _ member
    obtain ⟨source, sourceMember, rfl⟩ := mem_map.mp member
    exact max_lt (meets source sourceMember).1 tall

/-- The two scans find the rectangles of the bands that meet the clip. -/
theorem clippedBands_rectsOf (rect : Rect) (stacked : Stacked bands)
    (reached : ∃ band ∈ bands, rect.top < band.bottom) :
    clippedBands rect (rectsOf bands) = some (rectsOf (metBands rect bands)) := by
  obtain ⟨band, member, reaches⟩ := reached
  have nonempty : bands.filter (fun band => rect.top < band.bottom) ≠ [] :=
    ne_nil_of_mem (mem_filter.mpr ⟨member, by simpa using reaches⟩)
  have belowStacked : Stacked (bands.filter fun band => rect.top < band.bottom) :=
    ⟨fun band member => stacked.valid band (mem_filter.mp member).1, stacked.ordered.filter _⟩
  rw [clippedBands, skipBands_rectsOf stacked, if_neg nonempty,
    Option.map_some, takeWhile_rectsOf belowStacked, filter_filter, metBands]

theorem crop_banded {contents : RegionContents} (stacked : Stacked bands)
    (rects : contents.rects = rectsOf bands) (tight : TightBox contents.rects contents.extents)
    (nonempty : rect.Nonempty) (meets : ExtentCheck rect contents.extents)
    (occupied : contents.rects ≠ []) :
    ∃ met, clippedBands rect contents.rects = some met ∧
      (∀ lpr ∈ met, lpr ∈ contents.rects) ∧
      cutContents rect contents.extents met =
        contentsOf (rectsOf (clipBands rect.left rect.right rect.top rect.bottom bands)) := by
  have reached : ∃ band ∈ bands, rect.top < band.bottom := by
    obtain ⟨lpr, member, bottom⟩ := tight.bottomReached occupied
    rw [rects] at member
    obtain ⟨band, bandMember, inStrip⟩ := exists_band_of_mem_rectsOf member
    refine ⟨band, bandMember, ?_⟩
    rw [← (edges_of_mem_stripRects inStrip).2, bottom]
    exact meets.2.2.2
  have found := clippedBands_rectsOf rect stacked reached
  have fixed := fixup_rectsOf nonempty.1 nonempty.2 stacked
  rw [← filterMap_cutRect_rectsOf] at fixed
  have kept : ∀ lpr ∈ rectsOf (metBands rect bands), lpr ∈ contents.rects := by
    intro _ member
    obtain ⟨band, bandMember, inStrip⟩ := exists_band_of_mem_rectsOf member
    rw [rects]
    exact mem_flatMap.mpr ⟨band, (mem_filter.mp bandMember).1, inStrip⟩
  generalize rectsOf (metBands rect bands) = met at *
  refine ⟨met, rects ▸ found, kept, ?_⟩
  rw [← fixed]
  apply cutContents_eq_contentsOf
  · rw [fixed]
    exact Stacked.verticallySorted (stacked_clipBands nonempty.1 nonempty.2 stacked)
  · intro _ member
    obtain ⟨source, sourceMember, cut⟩ := mem_filterMap.mp member
    have inside := tight.encloses source (kept source sourceMember)
    have inhabited := inhabited_rectsOf stacked source (rects ▸ kept source sourceMember)
    simp only [cutRect] at cut
    split at cut
    · obtain rfl := Option.some.inj cut
      dsimp only
      omega
    · cases cut

end Winex.Gdi
