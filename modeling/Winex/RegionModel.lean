import Winex.BandSweep

namespace Winex.Gdi

open Banding

/-!
# Regions as rectangle arrays

A `WINEREGION` is an array of rectangles with a cached bounding box and a type.  The
rectangles in use are a list; the capacity recorded in `size` is kept beside it.  `INT`
coordinates are integers, which are only compared; the few places that add to them say
what overflow does.

The array of a well-formed region lists the rectangles of a canonical band list, row by
row.
-/

/-- `RECT`: half-open in both directions. -/
structure Rect where
  left : Int
  top : Int
  right : Int
  bottom : Int
  deriving DecidableEq

/-- The type codes a region can carry. -/
inductive RgnType where
  | nullRegion
  | simpleRegion
  | complexRegion
  deriving DecidableEq

/-- What a region describes: its rectangles, their box and the type. -/
structure RegionContents where
  type : RgnType
  extents : Rect
  rects : List Rect
  deriving DecidableEq

/-- `WINEREGION`, with the used part of the array in `rects`. -/
structure WineRegion extends RegionContents where
  size : Nat
  deriving DecidableEq

/-- The number of rectangles in use. -/
def RegionContents.numRects (region : RegionContents) : Nat :=
  region.rects.length

/-- `INRECT`: the rectangle contains the pixel. -/
def Rect.InRect (rect : Rect) (x y : Int) : Prop :=
  rect.right > x ∧ rect.left ≤ x ∧ rect.bottom > y ∧ rect.top ≤ y

instance (rect : Rect) (x y : Int) : Decidable (rect.InRect x y) :=
  inferInstanceAs (Decidable (_ ∧ _ ∧ _ ∧ _))

/-- `EXTENTCHECK`: the two rectangles overlap. -/
def ExtentCheck (first second : Rect) : Prop :=
  first.right > second.left ∧
    first.left < second.right ∧
    first.bottom > second.top ∧
    first.top < second.bottom

instance (first second : Rect) : Decidable (ExtentCheck first second) :=
  inferInstanceAs (Decidable (_ ∧ _ ∧ _ ∧ _))

/-- The box `EMPTY_REGION` and `REGION_SetExtents` store for no rectangles. -/
def emptyExtents : Rect :=
  ⟨0, 0, 0, 0⟩

/-- The type the region code derives from a rectangle count. -/
def typeOfCount (numRects : Nat) : RgnType :=
  if numRects = 0 then .nullRegion
  else if numRects > 1 then .complexRegion
  else .simpleRegion

/-- The pixels of a rectangle list. -/
def InRects (rects : List Rect) (x y : Int) : Prop :=
  ∃ rect ∈ rects, rect.InRect x y

/-- The pixels of a region. -/
def RegionContents.Contains (region : RegionContents) (x y : Int) : Prop :=
  InRects region.rects x y

/-- The rectangle of one span of a strip. -/
def spanRect (top bottom : Int) (span : Span Int) : Rect :=
  ⟨span.left, top, span.right, bottom⟩

/-- The rectangles of one strip, from left to right. -/
def stripRects (top bottom : Int) (spans : List (Span Int)) : List Rect :=
  spans.map (spanRect top bottom)

/-- The rectangle array described by a band list. -/
def rectsOf (bands : List (Band Int Int)) : List Rect :=
  bands.flatMap fun band => stripRects band.top band.bottom band.spans

@[simp] theorem rectsOf_nil : rectsOf [] = [] :=
  rfl

@[simp] theorem rectsOf_cons (band : Band Int Int) (rest : List (Band Int Int)) :
    rectsOf (band :: rest) = stripRects band.top band.bottom band.spans ++ rectsOf rest := by
  simp [rectsOf]

@[simp] theorem rectsOf_append (first second : List (Band Int Int)) :
    rectsOf (first ++ second) = rectsOf first ++ rectsOf second := by
  simp [rectsOf]

@[simp] theorem length_stripRects (top bottom : Int) (spans : List (Span Int)) :
    (stripRects top bottom spans).length = spans.length := by
  simp [stripRects]

theorem inRects_rectsOf (bands : List (Band Int Int)) (x y : Int) :
    InRects (rectsOf bands) x y ↔ InBands bands x y := by
  simp only [InRects, InBands, rectsOf, List.mem_flatMap, stripRects, List.mem_map]
  constructor
  · rintro ⟨_, ⟨band, member, span, spanMember, rfl⟩, contains⟩
    obtain ⟨beforeRight, fromLeft, aboveBottom, fromTop⟩ := contains
    exact ⟨band, member, ⟨fromTop, aboveBottom⟩, span, spanMember, fromLeft, beforeRight⟩
  · rintro ⟨band, member, ⟨fromTop, aboveBottom⟩, span, spanMember, fromLeft, beforeRight⟩
    exact ⟨spanRect band.top band.bottom span,
      ⟨band, member, span, spanMember, rfl⟩,
      beforeRight, fromLeft, aboveBottom, fromTop⟩

/-- Every rectangle lies inside the box and each of its edges is reached.  No rectangles
have the box of `EMPTY_REGION`. -/
structure TightBox (rects : List Rect) (box : Rect) : Prop where
  encloses : ∀ rect ∈ rects,
    box.left ≤ rect.left ∧ box.top ≤ rect.top ∧ rect.right ≤ box.right ∧ rect.bottom ≤ box.bottom
  leftReached : rects ≠ [] → ∃ rect ∈ rects, rect.left = box.left
  topReached : rects ≠ [] → ∃ rect ∈ rects, rect.top = box.top
  rightReached : rects ≠ [] → ∃ rect ∈ rects, rect.right = box.right
  bottomReached : rects ≠ [] → ∃ rect ∈ rects, rect.bottom = box.bottom
  whenEmpty : rects = [] → box = emptyExtents

instance (rects : List Rect) (box : Rect) : Decidable (TightBox rects box) :=
  decidable_of_iff
    ((∀ rect ∈ rects, box.left ≤ rect.left ∧ box.top ≤ rect.top ∧
          rect.right ≤ box.right ∧ rect.bottom ≤ box.bottom) ∧
      (rects ≠ [] →
        (∃ rect ∈ rects, rect.left = box.left) ∧
          (∃ rect ∈ rects, rect.top = box.top) ∧
          (∃ rect ∈ rects, rect.right = box.right) ∧
          ∃ rect ∈ rects, rect.bottom = box.bottom) ∧
      (rects = [] → box = emptyExtents))
    ⟨fun all =>
        ⟨all.1, fun nonempty => (all.2.1 nonempty).1,
          fun nonempty => (all.2.1 nonempty).2.1,
          fun nonempty => (all.2.1 nonempty).2.2.1,
          fun nonempty => (all.2.1 nonempty).2.2.2, all.2.2⟩,
      fun tight =>
        ⟨tight.encloses,
          fun nonempty =>
            ⟨tight.leftReached nonempty, tight.topReached nonempty,
              tight.rightReached nonempty, tight.bottomReached nonempty⟩,
          tight.whenEmpty⟩⟩

theorem TightBox.unique {rects : List Rect} {first second : Rect}
    (firstTight : TightBox rects first) (secondTight : TightBox rects second) : first = second := by
  by_cases empty : rects = []
  · rw [firstTight.whenEmpty empty, secondTight.whenEmpty empty]
  have encloses :=
    fun rect member =>
      And.intro (firstTight.encloses rect member) (secondTight.encloses rect member)
  have firstReached :=
    And.intro (firstTight.leftReached empty)
      (And.intro (firstTight.topReached empty)
        (And.intro (firstTight.rightReached empty) (firstTight.bottomReached empty)))
  have secondReached :=
    And.intro (secondTight.leftReached empty)
      (And.intro (secondTight.topReached empty)
        (And.intro (secondTight.rightReached empty) (secondTight.bottomReached empty)))
  cases first
  cases second
  grind

/--
A region whose rectangles are sorted in bands of separated rectangles, with
tight extents.  Touching bands may still agree.
-/
structure RegionContents.Banded (region : RegionContents) : Prop where
  bands : ∃ bands, Stacked bands ∧ region.rects = rectsOf bands
  extents : TightBox region.rects region.extents

/--
A well-formed region: sorted bands of separated nonempty rectangles, no two
touching bands with the same spans, and tight extents.
-/
structure RegionContents.WellFormed (region : RegionContents) : Prop where
  bands : ∃ bands, Canonical bands ∧ region.rects = rectsOf bands
  extents : TightBox region.rects region.extents

theorem RegionContents.WellFormed.unique {first second : RegionContents}
    (firstWellFormed : first.WellFormed) (secondWellFormed : second.WellFormed)
    (samePixels : ∀ x y, first.Contains x y ↔ second.Contains x y) :
    first.rects = second.rects ∧ first.extents = second.extents := by
  obtain ⟨firstBands, firstCanonical, firstRects⟩ := firstWellFormed.bands
  obtain ⟨secondBands, secondCanonical, secondRects⟩ := secondWellFormed.bands
  have sameBands : firstBands = secondBands := by
    apply firstCanonical.unique secondCanonical
    intro x y
    rw [← inRects_rectsOf, ← inRects_rectsOf, ← firstRects, ← secondRects]
    exact samePixels x y
  have sameRects : first.rects = second.rects := by rw [firstRects, secondRects, sameBands]
  have secondBox := secondWellFormed.extents
  rw [← sameRects] at secondBox
  exact ⟨sameRects, firstWellFormed.extents.unique secondBox⟩

end Winex.Gdi
