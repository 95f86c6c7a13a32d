import Winex.RegionAlias

namespace Winex.Gdi

open Banding List

/-!
# Extents of banded regions

`REGION_SetExtents` computes the tight bounding box of a banded array, and
`REGION_UnionRegion` gets it from the boxes of its sources.  Both follow from a
description of the tight box by the pixels it encloses.
-/

/-- The box encloses the pixels, and each of its edges touches one. -/
structure PixelBox (contains : Int → Int → Prop) (box : Rect) : Prop where
  encloses : ∀ {x y}, contains x y → box.InRect x y
  leftTouched : ∃ y, contains box.left y
  topTouched : ∃ x, contains x box.top
  rightTouched : ∃ y, contains (box.right - 1) y
  bottomTouched : ∃ x, contains x (box.bottom - 1)

/-- Every rectangle contains a pixel. -/
def Inhabited (rects : List Rect) : Prop :=
  ∀ rect ∈ rects, rect.left < rect.right ∧ rect.top < rect.bottom

variable {rects : List Rect}

/-- The upper left and the lower right pixel of a rectangle. -/
theorem Inhabited.corners {rect : Rect} (inhabited : Inhabited rects) (member : rect ∈ rects) :
    InRects rects rect.left rect.top ∧ InRects rects (rect.right - 1) (rect.bottom - 1) := by
  obtain ⟨_, _⟩ := inhabited rect member
  constructor <;> refine ⟨rect, member, ?_⟩ <;> simp only [Rect.InRect] <;> omega

theorem tightBox_iff_pixelBox (inhabited : Inhabited rects) (nonempty : rects ≠ []) (box : Rect) :
    TightBox rects box ↔ PixelBox (InRects rects) box := by
  constructor
  · intro tight
    refine ⟨?_, ?_, ?_, ?_, ?_⟩
    · rintro _ _ ⟨rect, member, contains⟩
      have := tight.encloses rect member
      simp only [Rect.InRect] at contains ⊢
      omega
    · obtain ⟨rect, member, reached⟩ := tight.leftReached nonempty
      exact ⟨rect.top, reached ▸ (inhabited.corners member).1⟩
    · obtain ⟨rect, member, reached⟩ := tight.topReached nonempty
      exact ⟨rect.left, reached ▸ (inhabited.corners member).1⟩
    · obtain ⟨rect, member, reached⟩ := tight.rightReached nonempty
      exact ⟨rect.bottom - 1, reached ▸ (inhabited.corners member).2⟩
    · obtain ⟨rect, member, reached⟩ := tight.bottomReached nonempty
      exact ⟨rect.right - 1, reached ▸ (inhabited.corners member).2⟩
  · intro pixels
    have encloses : ∀ rect ∈ rects, box.left ≤ rect.left ∧ box.top ≤ rect.top ∧
        rect.right ≤ box.right ∧ rect.bottom ≤ box.bottom := by
      intro rect member
      have upper := pixels.encloses (inhabited.corners member).1
      have lower := pixels.encloses (inhabited.corners member).2
      simp only [Rect.InRect] at upper lower
      omega
    obtain ⟨_, leftRect, leftMember, leftContains⟩ := pixels.leftTouched
    obtain ⟨_, topRect, topMember, topContains⟩ := pixels.topTouched
    obtain ⟨_, rightRect, rightMember, rightContains⟩ := pixels.rightTouched
    obtain ⟨_, bottomRect, bottomMember, bottomContains⟩ := pixels.bottomTouched
    simp only [Rect.InRect] at leftContains topContains rightContains bottomContains
    have leftEnclosed := encloses leftRect leftMember
    have topEnclosed := encloses topRect topMember
    have rightEnclosed := encloses rightRect rightMember
    have bottomEnclosed := encloses bottomRect bottomMember
    exact
      { encloses := encloses
        leftReached := fun _ => ⟨leftRect, leftMember, by omega⟩
        topReached := fun _ => ⟨topRect, topMember, by omega⟩
        rightReached := fun _ => ⟨rightRect, rightMember, by omega⟩
        bottomReached := fun _ => ⟨bottomRect, bottomMember, by omega⟩
        whenEmpty := fun empty => absurd empty nonempty }

variable {bands : List (Band Int Int)} {rect : Rect}

theorem inhabited_rectsOf (stacked : Stacked bands) : Inhabited (rectsOf bands) := by
  intro _ member
  obtain ⟨band, bandMember, rectMember⟩ := exists_band_of_mem_rectsOf member
  obtain ⟨span, spanMember, rfl⟩ := mem_map.mp rectMember
  have valid := stacked.valid band bandMember
  exact ⟨valid.separated.inhabited span spanMember, valid.tall⟩

theorem PixelBox.unite {first second : Int → Int → Prop} {firstBox secondBox : Rect}
    (firstPixels : PixelBox first firstBox) (secondPixels : PixelBox second secondBox) :
    PixelBox (fun x y => first x y ∨ second x y) (uniteExtents firstBox secondBox) := by
  have touched {p q : Int → Int → Prop} {a b c : Int} (choice : c = a ∨ c = b)
      (inFirst : ∃ i, p a i) (inSecond : ∃ i, q b i) : ∃ i, p c i ∨ q c i := by
    rcases choice with rfl | rfl
    · exact inFirst.imp fun _ => .inl
    · exact inSecond.imp fun _ => .inr
  refine ⟨?_, ?_, ?_, ?_, ?_⟩
  · rintro _ _ (inFirst | inSecond)
    · have := firstPixels.encloses inFirst
      simp only [Rect.InRect, uniteExtents] at *
      omega
    · have := secondPixels.encloses inSecond
      simp only [Rect.InRect, uniteExtents] at *
      omega
  · exact touched (min_choice _ _) firstPixels.leftTouched secondPixels.leftTouched
  · exact @touched (fun y x => first x y) (fun y x => second x y) _ _ _ (min_choice _ _)
      firstPixels.topTouched secondPixels.topTouched
  · exact @touched (fun x y => first (x - 1) y) (fun x y => second (x - 1) y) _ _ _
      (max_choice _ _) firstPixels.rightTouched secondPixels.rightTouched
  · exact @touched (fun y x => first x (y - 1)) (fun y x => second x (y - 1)) _ _ _
      (max_choice _ _) firstPixels.bottomTouched secondPixels.bottomTouched

/-- The loop of `REGION_SetExtents` moves the left and right edges only. -/
theorem foldl_widenExtents (rects : List Rect) (box : Rect) :
    (rects.foldl widenExtents box).top = box.top ∧
      (rects.foldl widenExtents box).bottom = box.bottom := by
  induction rects generalizing box with
  | nil => simp
  | cons _ _ ih => simp [ih, widenExtents]

/-- The loop leaves the least value it met of a side that it pulls down. -/
theorem foldl_widenExtents_least (side : Rect → Int)
    (widens : ∀ box rect, side (widenExtents box rect) = min (side box) (side rect))
    (rects : List Rect) (box : Rect) :
    side (rects.foldl widenExtents box) ≤ side box ∧
      (∀ rect ∈ rects, side (rects.foldl widenExtents box) ≤ side rect) ∧
      (side (rects.foldl widenExtents box) = side box ∨
        ∃ rect ∈ rects, side rect = side (rects.foldl widenExtents box)) := by
  induction rects generalizing box with
  | nil => simp
  | cons rect rest ih =>
    obtain ⟨bounded, least, reached⟩ := ih (widenExtents box rect)
    rw [widens] at bounded reached
    simp only [foldl_cons, mem_cons, forall_eq_or_imp, exists_eq_or_imp]
    refine ⟨by omega, ⟨by omega, least⟩, ?_⟩
    rcases reached with _ | found
    · omega
    · exact .inr (.inr found)

/-- Banding puts the lowest top first and the greatest bottom last. -/
structure VerticallySorted (rects : List Rect) : Prop where
  first : ∀ rect ∈ rects.head?, ∀ other ∈ rects, rect.top ≤ other.top
  last : ∀ rect ∈ rects.getLast?, ∀ other ∈ rects, other.bottom ≤ rect.bottom

/--
The running sides of any start box that some rectangle reaches out of, and the
outer edges of the first and last rectangle, are a tight box.
-/
theorem tightBox_foldl_widenExtents (sorted : VerticallySorted rects) (box : Rect)
    {first last : Rect} (isFirst : first ∈ rects.head?) (isLast : last ∈ rects.getLast?)
    (leftMet : ∃ rect ∈ rects, rect.left ≤ box.left)
    (rightMet : ∃ rect ∈ rects, box.right ≤ rect.right) :
    TightBox rects
      ⟨(rects.foldl widenExtents box).left, first.top,
        (rects.foldl widenExtents box).right, last.bottom⟩ := by
  have firstMember := mem_of_mem_head? isFirst
  have lastMember := mem_of_getLast? isLast
  obtain ⟨-, least, leftReached⟩ := foldl_widenExtents_least Rect.left
    (fun box rect => by unfold widenExtents; grind) rects box
  obtain ⟨-, widest, rightReached⟩ := foldl_widenExtents_least (-·.right)
    (fun box rect => by unfold widenExtents; grind) rects box
  simp only [Int.neg_le_neg_iff, Int.neg_inj] at widest rightReached
  exact
    { encloses := fun rect member =>
        ⟨least rect member, sorted.first first isFirst rect member,
          widest rect member, sorted.last last isLast rect member⟩
      leftReached := fun _ => by
        rcases leftReached with start | found
        · obtain ⟨rect, member, met⟩ := leftMet
          exact ⟨rect, member, le_antisymm (start ▸ met) (least rect member)⟩
        · exact found
      topReached := fun _ => ⟨first, firstMember, rfl⟩
      rightReached := fun _ => by
        rcases rightReached with start | found
        · obtain ⟨rect, member, met⟩ := rightMet
          exact ⟨rect, member, le_antisymm (widest rect member) (start ▸ met)⟩
        · exact found
      bottomReached := fun _ => ⟨last, lastMember, rfl⟩
      whenEmpty := fun empty => by simp [empty] at firstMember }

/-- On vertically sorted rectangles `REGION_SetExtents` is tight. -/
theorem tightBox_extentsOf (sorted : VerticallySorted rects) :
    TightBox rects (extentsOf rects) := by
  cases rects with
  | nil => exact ⟨by simp, by simp, by simp, by simp, by simp, fun _ => rfl⟩
  | cons first rest =>
    have nonempty := cons_ne_nil first rest
    have isFirst : first ∈ (first :: rest).head? := rfl
    have isLast := getLast?_eq_some_getLast nonempty
    have lastMember := getLast_mem nonempty
    unfold extentsOf
    dsimp only
    generalize (first :: rest).getLast nonempty = last at *
    obtain ⟨top, bottom⟩ :=
      foldl_widenExtents (first :: rest) ⟨first.left, first.top, last.right, last.bottom⟩
    have tight :=
      tightBox_foldl_widenExtents sorted
        ⟨first.left, first.top, last.right, last.bottom⟩ isFirst isLast
        ⟨first, by simp, le_refl _⟩ ⟨last, lastMember, le_refl _⟩
    generalize (first :: rest).foldl widenExtents
      ⟨first.left, first.top, last.right, last.bottom⟩ = box at *
    rwa [← top, ← bottom] at tight

theorem Stacked.top_le_of_mem_rectsOf {band : Band Int Int} {rest : List (Band Int Int)}
    (stacked : Stacked (band :: rest)) (member : rect ∈ rectsOf (band :: rest)) :
    band.top ≤ rect.top := by
  obtain ⟨lower, lowerMember, rectMember⟩ := exists_band_of_mem_rectsOf member
  obtain ⟨valid, below, -⟩ := stacked_cons.mp stacked
  rw [(edges_of_mem_stripRects rectMember).1]
  rcases mem_cons.mp lowerMember with isHead | inRest
  · rw [isHead]
  · exact le_trans (le_of_lt valid.tall) (below lower inRest)

theorem Stacked.bottom_le_of_mem_rectsOf {earlier : List (Band Int Int)} {last : Band Int Int}
    (stacked : Stacked (earlier ++ [last])) (member : rect ∈ rectsOf (earlier ++ [last])) :
    rect.bottom ≤ last.bottom := by
  obtain ⟨upper, upperMember, rectMember⟩ := exists_band_of_mem_rectsOf member
  have ordered := (pairwise_append.mp stacked.ordered).2.2
  rw [(edges_of_mem_stripRects rectMember).2]
  rcases mem_append.mp upperMember with inEarlier | isLast
  · exact le_trans (ordered upper inEarlier last (by simp))
      (le_of_lt (stacked.valid last (by simp)).tall)
  · rw [mem_singleton.mp isLast]

theorem Stacked.verticallySorted (stacked : Stacked bands) : VerticallySorted (rectsOf bands) := by
  constructor
  · intro _ isHead _ member
    cases bands with
    | nil => simp at isHead
    | cons =>
      obtain ⟨head, _, shape, edges⟩ := Stacked.exists_head stacked
      rw [shape, head?_cons, Option.mem_def, Option.some.injEq] at isHead
      rw [← isHead, edges.1]
      exact Stacked.top_le_of_mem_rectsOf stacked member
  · intro rect isLast _ member
    rcases eq_nil_or_concat' bands with empty | ⟨_, last, shape⟩
    · simp [empty] at isLast
    subst shape
    have occupied := (stacked.valid last (by simp)).occupied
    have rectMember : rect ∈ stripRects last.top last.bottom last.spans := by
      apply mem_of_mem_getLast?
      simpa [getLast?_append, stripRects, occupied] using isLast
    rw [(edges_of_mem_stripRects rectMember).2]
    exact Stacked.bottom_le_of_mem_rectsOf stacked member

end Winex.Gdi
