import Winex.RegionBox

namespace Winex.Gdi

open Banding List

/-!
# Correctness of `CombineRgn`

On well-formed sources every operation of `CombineRgn` leaves a well-formed region with
the pixels it stands for.  The type is recomputed where the sweep runs; where a source
is handed over unchanged, so is its type.
-/

/-- A well-formed region for a set of pixels. -/
structure RegionContents.Describes (region : RegionContents)
    (pixels : Int → Int → Prop) : Prop where
  wellFormed : region.WellFormed
  contains_iff : ∀ x y, region.Contains x y ↔ pixels x y

/-- The type of a region agrees with its rectangle count. -/
def RegionContents.TypeAgrees (region : RegionContents) : Prop :=
  region.type = typeOfCount region.numRects

instance (region : RegionContents) : Decidable region.TypeAgrees :=
  inferInstanceAs (Decidable (_ = _))

variable {region : RegionContents}

theorem RegionContents.WellFormed.banded (wellFormed : region.WellFormed) : region.Banded := by
  obtain ⟨bands, canonical, rects⟩ := wellFormed.bands
  exact ⟨⟨bands, canonical.toStacked, rects⟩, wellFormed.extents⟩

theorem RegionContents.WellFormed.describes (wellFormed : region.WellFormed) :
    region.Describes region.Contains :=
  ⟨wellFormed, fun _ _ => Iff.rfl⟩

variable {others pixels : Int → Int → Prop} {x y : Int} {bands : List (Band Int Int)}

theorem RegionContents.Describes.congr (describes : region.Describes pixels)
    (same : ∀ x y, pixels x y ↔ others x y) : region.Describes others :=
  ⟨describes.wellFormed, fun x y => (describes.contains_iff x y).trans (same x y)⟩

theorem RegionContents.Describes.eq (describes : region.Describes pixels) :
    pixels = region.Contains :=
  funext₂ fun x y => propext (describes.contains_iff x y).symm

theorem RegionContents.Banded.numRects_eq_zero (banded : region.Banded) :
    region.numRects = 0 ↔ ∀ x y, ¬ region.Contains x y := by
  obtain ⟨bands, stacked, rects⟩ := banded.bands
  have inhabited := inhabited_rectsOf stacked
  rw [← rects] at inhabited
  rw [RegionContents.numRects, length_eq_zero_iff]
  constructor
  · intro empty _ _ contains
    simp [RegionContents.Contains, InRects, empty] at contains
  · intro noPixel
    rw [eq_nil_iff_forall_not_mem]
    intro rect member
    exact noPixel rect.left rect.top (inhabited.corners member).1

theorem RegionContents.Banded.inRect_extents (banded : region.Banded)
    (contains : region.Contains x y) : region.extents.InRect x y := by
  obtain ⟨rect, member, inRect⟩ := contains
  have := banded.extents.encloses rect member
  simp only [Rect.InRect] at inRect ⊢
  omega

theorem RegionContents.Banded.pixelBox (banded : region.Banded) (nonempty : region.numRects ≠ 0) :
    PixelBox region.Contains region.extents := by
  obtain ⟨bands, stacked, rects⟩ := banded.bands
  have inhabited := inhabited_rectsOf stacked
  rw [← rects] at inhabited
  refine (tightBox_iff_pixelBox inhabited ?_ _).mp banded.extents
  intro empty
  exact nonempty (by simp [RegionContents.numRects, empty])

theorem TrivialReject.disjoint {first second : RegionContents} (reject : TrivialReject first second)
    (firstBanded : first.Banded) (secondBanded : second.Banded) (x y : Int) :
    ¬ (first.Contains x y ∧ second.Contains x y) := by
  rintro ⟨inFirst, inSecond⟩
  rcases reject with firstEmpty | secondEmpty | _
  · exact firstBanded.numRects_eq_zero.mp firstEmpty x y inFirst
  · exact secondBanded.numRects_eq_zero.mp secondEmpty x y inSecond
  · have inFirstBox := firstBanded.inRect_extents inFirst
    have inSecondBox := secondBanded.inRect_extents inSecond
    simp only [ExtentCheck, Rect.InRect] at *
    omega

/-- The bands a sweep over two banded regions computes. -/
structure SweepBands (rects : List Rect) (pixels : Int → Int → Prop)
    (bands : List (Band Int Int)) : Prop where
  rects : rects = rectsOf bands
  stacked : Stacked bands
  inBands_iff : ∀ x y, InBands bands x y ↔ pixels x y

section Sweep

variable {funcs : RegionFuncs} {op : SweepOp Int} {combine : Prop → Prop → Prop}
  (implements : Implements funcs op) (correct : op.Correct combine) {first second : RegionContents}

include implements correct

theorem exists_sweepBands {firstBands secondBands : List (Band Int Int)}
    (firstStacked : Stacked firstBands) (secondStacked : Stacked secondBands)
    (firstRects : first.rects = rectsOf firstBands)
    (secondRects : second.rects = rectsOf secondBands)
    (firstBox : TightBox first.rects first.extents)
    (secondBox : TightBox second.rects second.extents) :
    ∃ bands, SweepBands (sweepRects funcs first second)
        (fun x y => combine (first.Contains x y) (second.Contains x y))
        bands ∧
      (Coalesced firstBands → Coalesced secondBands → Coalesced bands) ∧
      (firstBands = secondBands → Coalesced bands) := by
  have topsAbove : ∀ {region : RegionContents} {bands : List (Band Int Int)}, Stacked bands →
      region.rects = rectsOf bands →
      TightBox region.rects region.extents →
      ∀ band ∈ bands, region.extents.top ≤ band.top := by
    intro _ _ stacked rects box band member
    obtain ⟨span, _, shape⟩ := exists_cons_of_ne_nil (stacked.valid band member).occupied
    refine (box.encloses ⟨span.left, band.top, span.right, band.bottom⟩ ?_).2.1
    rw [rects]
    exact mem_flatMap.mpr ⟨band, member, by simp [shape]⟩
  have firstFresh := topsAbove firstStacked firstRects firstBox
  have secondFresh := topsAbove secondStacked secondRects secondBox
  unfold sweepRects
  generalize edgeEq : (if first.extents.top < second.extents.top then
    first.extents.top else second.extents.top) = edge
  have edgeBounds : edge ≤ first.extents.top ∧ edge ≤ second.extents.top := by grind
  replace firstFresh : ∀ band ∈ firstBands, edge ≤ band.top :=
    fun band member => le_trans edgeBounds.1 (firstFresh band member)
  replace secondFresh : ∀ band ∈ secondBands, edge ≤ band.top :=
    fun band member => le_trans edgeBounds.2 (secondFresh band member)
  have ready := SweepReady.start firstStacked secondStacked firstFresh secondFresh
  have stacked := stacked_sweepBands correct ready
  refine ⟨sweepBands op [] firstBands secondBands edge, ⟨?_, stacked.1, ?_⟩, stacked.2, ?_⟩
  · rw [firstRects, secondRects]
    exact rects_regionSweep implements correct ready ⟨rfl, rfl⟩
  · intro x y
    rw [RegionContents.Contains, RegionContents.Contains, firstRects,
      secondRects, inRects_rectsOf, inRects_rectsOf]
    exact inBands_sweepBands_start firstStacked secondStacked firstFresh secondFresh correct x y
  · intro same
    subst same
    exact coalesced_sweepBands_self correct ready

theorem exists_canonical_sweep (firstWellFormed : first.WellFormed)
    (secondWellFormed : second.WellFormed) :
    ∃ bands, Canonical bands ∧
      SweepBands (sweepRects funcs first second)
        (fun x y => combine (first.Contains x y) (second.Contains x y))
        bands := by
  obtain ⟨_, firstCanonical, firstRects⟩ := firstWellFormed.bands
  obtain ⟨_, secondCanonical, secondRects⟩ := secondWellFormed.bands
  obtain ⟨bands, swept, coalesced, -⟩ :=
    exists_sweepBands implements correct firstCanonical.toStacked
      secondCanonical.toStacked firstRects secondRects
      firstWellFormed.extents secondWellFormed.extents
  exact ⟨bands,
    ⟨swept.stacked, coalesced firstCanonical.coalesced secondCanonical.coalesced⟩,
    swept⟩

end Sweep

theorem wellFormed_contentsOf (canonical : Canonical bands) :
    (contentsOf (rectsOf bands)).WellFormed :=
  ⟨⟨bands, canonical, rfl⟩, tightBox_extentsOf (Stacked.verticallySorted canonical.toStacked)⟩

theorem describes_contentsOf {rects : List Rect} (canonical : Canonical bands)
    (swept : SweepBands rects pixels bands) : (contentsOf rects).Describes pixels := by
  rw [swept.rects]
  refine ⟨wellFormed_contentsOf canonical, ?_⟩
  intro x y
  exact (inRects_rectsOf bands x y).trans (swept.inBands_iff x y)

/-- `EMPTY_REGION` describes the empty set of pixels. -/
theorem describes_contentsOf_nil : (contentsOf []).Describes fun _ _ => False := by
  refine ⟨wellFormed_contentsOf canonical_nil, ?_⟩
  simp [RegionContents.Contains, contentsOf, InRects]

section Operations

variable {first second : RegionContents} {pixels others : Int → Int → Prop}
  (firstDescribes : first.Describes pixels) (secondDescribes : second.Describes others)

include firstDescribes secondDescribes

theorem describes_intersectContents :
    (intersectContents first second).Describes fun x y =>
      pixels x y ∧ others x y := by
  obtain rfl := firstDescribes.eq
  obtain rfl := secondDescribes.eq
  unfold intersectContents
  split
  next reject =>
    refine describes_contentsOf_nil.congr fun x y => iff_of_false id ?_
    exact reject.disjoint firstDescribes.wellFormed.banded secondDescribes.wellFormed.banded x y
  · obtain ⟨_, canonical, swept⟩ :=
      exists_canonical_sweep implements_intersectFuncs intersectOp_correct
        firstDescribes.wellFormed secondDescribes.wellFormed
    exact describes_contentsOf canonical swept

theorem describes_subtractContents :
    (subtractContents first second).Describes fun x y =>
      pixels x y ∧ ¬ others x y := by
  obtain rfl := firstDescribes.eq
  obtain rfl := secondDescribes.eq
  unfold subtractContents
  split
  next reject =>
    refine firstDescribes.congr fun x y => ?_
    have disjoint :=
      reject.disjoint firstDescribes.wellFormed.banded secondDescribes.wellFormed.banded x y
    tauto
  · obtain ⟨_, canonical, swept⟩ :=
      exists_canonical_sweep implements_subtractFuncs subtractOp_correct
        firstDescribes.wellFormed secondDescribes.wellFormed
    exact describes_contentsOf canonical swept

end Operations

variable {first second : RegionContents}

/-- A single rectangle that covers the other extents covers all its pixels. -/
theorem Subsumes.contains (subsumes : Subsumes first second) (firstBanded : first.Banded)
    (secondBanded : second.Banded) (contains : second.Contains x y) : first.Contains x y := by
  obtain ⟨single, _, _, _, _⟩ := subsumes
  obtain ⟨_, rects⟩ := length_eq_one_iff.mp single
  have inBox := secondBanded.inRect_extents contains
  have box := firstBanded.extents
  rw [rects] at box
  obtain ⟨_, leftMember, _⟩ := box.leftReached (by simp)
  obtain ⟨_, topMember, _⟩ := box.topReached (by simp)
  obtain ⟨_, rightMember, _⟩ := box.rightReached (by simp)
  obtain ⟨_, bottomMember, _⟩ := box.bottomReached (by simp)
  rw [mem_singleton] at leftMember topMember rightMember bottomMember
  subst leftMember topMember rightMember bottomMember
  refine ⟨_, rects ▸ mem_singleton_self _, ?_⟩
  simp only [Rect.InRect] at inBox ⊢
  omega

theorem describes_unionContents (firstDescribes : first.Describes pixels)
    (secondDescribes : second.Describes others) :
    (unionContents first second).Describes fun x y =>
      pixels x y ∨ others x y := by
  obtain rfl := firstDescribes.eq
  obtain rfl := secondDescribes.eq
  have firstBanded := firstDescribes.wellFormed.banded
  have secondBanded := secondDescribes.wellFormed.banded
  unfold unionContents
  split
  next empty =>
    refine secondDescribes.congr fun x y => ?_
    simp [firstBanded.numRects_eq_zero.mp empty x y]
  next firstNonempty =>
  split
  next empty =>
    refine firstDescribes.congr fun x y => ?_
    simp [secondBanded.numRects_eq_zero.mp empty x y]
  next secondNonempty =>
  split
  next subsumes =>
    refine firstDescribes.congr fun x y => ?_
    exact ⟨Or.inl, fun either => either.elim id (subsumes.contains firstBanded secondBanded)⟩
  split
  next subsumes =>
    refine secondDescribes.congr fun x y => ?_
    exact ⟨Or.inr, fun either => either.elim (subsumes.contains secondBanded firstBanded) id⟩
  · obtain ⟨bands, canonical, swept⟩ :=
      exists_canonical_sweep implements_unionFuncs uniteOp_correct
        firstDescribes.wellFormed secondDescribes.wellFormed
    have contains : ∀ x y, InRects (sweepRects unionFuncs first second) x y ↔
        first.Contains x y ∨ second.Contains x y := by
      intro _ _
      rw [swept.rects, inRects_rectsOf, swept.inBands_iff]
    have inhabited := inhabited_rectsOf canonical.toStacked
    rw [← swept.rects] at inhabited
    have box := (firstBanded.pixelBox firstNonempty).unite (secondBanded.pixelBox secondNonempty)
    refine ⟨⟨⟨bands, canonical, swept.rects⟩, ?_⟩, contains⟩
    · refine (tightBox_iff_pixelBox inhabited ?_ _).mpr ?_
      · -- The box touches a pixel, so there is a rectangle.
        intro empty
        obtain ⟨y, touched⟩ := box.leftTouched
        have := (contains _ _).mpr touched
        simp [empty, InRects] at this
      · have sameBox : InRects (sweepRects unionFuncs first second) =
            fun x y => first.Contains x y ∨ second.Contains x y :=
          funext₂ fun x y => propext (contains x y)
        rw [← sameBox] at box
        exact box

/-- The pixels each mode of `CombineRgn` stands for. -/
def RgnMode.combine (mode : RgnMode) (first second : Prop) : Prop :=
  match mode with
  | .rgnAnd => first ∧ second
  | .rgnOr => first ∨ second
  | .rgnXor => (first ∧ ¬ second) ∨ (second ∧ ¬ first)
  | .rgnDiff => first ∧ ¬ second
  | .rgnCopy => first

/-- Every mode computes the pixels it stands for. -/
theorem describes_combineContents (mode : RgnMode) (firstWellFormed : first.WellFormed)
    (secondWellFormed : second.WellFormed) :
    (combineContents mode first second).Describes fun x y =>
      mode.combine (first.Contains x y) (second.Contains x y) := by
  have firstDescribes := firstWellFormed.describes
  have secondDescribes := secondWellFormed.describes
  cases mode with
  | rgnAnd => exact describes_intersectContents firstDescribes secondDescribes
  | rgnOr => exact describes_unionContents firstDescribes secondDescribes
  | rgnXor =>
    exact describes_unionContents
      (describes_subtractContents firstDescribes secondDescribes)
      (describes_subtractContents secondDescribes firstDescribes)
  | rgnDiff => exact describes_subtractContents firstDescribes secondDescribes
  | rgnCopy => exact firstDescribes

/-- The source record whose contents `CombineRgn` hands over unchanged. -/
def copiedSource (mode : RgnMode) (sameRecord : Bool) (first second : RegionContents) :
    Option RegionContents :=
  match mode with
  | .rgnAnd => none
  | .rgnOr =>
    if sameRecord ∨ first.numRects = 0 then some second
    else if second.numRects = 0 then some first
    else if Subsumes first second then some first
    else if Subsumes second first then some second
    else none
  | .rgnXor =>
    if first.numRects = 0 then some second
    else if second.numRects = 0 then some first
    else none
  | .rgnDiff =>
    if TrivialReject first second then some first else none
  | .rgnCopy => some first

theorem typeAgrees_contentsOf (rects : List Rect) : (contentsOf rects).TypeAgrees :=
  rfl

theorem typeAgrees_subtractContents (swept : ¬ TrivialReject first second) :
    (subtractContents first second).TypeAgrees := by
  rw [subtractContents, if_neg swept]
  exact typeAgrees_contentsOf _

theorem typeAgrees_unionContents (firstAgrees : first.TypeAgrees)
    (secondAgrees : second.TypeAgrees) : (unionContents first second).TypeAgrees := by
  unfold unionContents
  split_ifs <;> first | assumption | rfl

theorem Subsumes.extentCheck (subsumes : Subsumes first second) (secondBanded : second.Banded)
    (nonempty : second.numRects ≠ 0) : ExtentCheck first.extents second.extents := by
  have box := secondBanded.pixelBox nonempty
  obtain ⟨_, touched⟩ := box.leftTouched
  have inBox := box.encloses touched
  simp only [Subsumes, Rect.InRect, ExtentCheck] at *
  omega

theorem ExtentCheck.symm {first second : Rect} (check : ExtentCheck first second) :
    ExtentCheck second first := by
  simp only [ExtentCheck] at *
  omega

/-- The symmetric difference of two nonempty regions has a recomputed type. -/
theorem typeAgrees_xorContents (firstBanded : first.Banded) (secondBanded : second.Banded)
    (firstNonempty : first.numRects ≠ 0) (secondNonempty : second.numRects ≠ 0) :
    (xorContents first second).TypeAgrees := by
  unfold xorContents
  by_cases check : ExtentCheck first.extents second.extents
  · have swept : ¬ TrivialReject first second := by
      simp [TrivialReject, firstNonempty, secondNonempty, check]
    have sweptBack : ¬ TrivialReject second first := by
      simp [TrivialReject, firstNonempty, secondNonempty, check.symm]
    exact typeAgrees_unionContents (typeAgrees_subtractContents swept)
      (typeAgrees_subtractContents sweptBack)
  · -- With disjoint extents both differences are copies, and the union of
    -- the copies is swept because neither can subsume the other.
    have reject : TrivialReject first second := Or.inr (.inr check)
    have rejectBack : TrivialReject second first := Or.inr (.inr fun back => check back.symm)
    have notFirst : ¬ Subsumes first second := fun subsumes =>
      check (subsumes.extentCheck secondBanded secondNonempty)
    have notSecond : ¬ Subsumes second first := fun subsumes =>
      check (subsumes.extentCheck firstBanded firstNonempty).symm
    rw [subtractContents, if_pos reject, subtractContents, if_pos rejectBack, unionContents,
      if_neg firstNonempty, if_neg secondNonempty, if_neg notFirst, if_neg notSecond]
    rfl

end Winex.Gdi
