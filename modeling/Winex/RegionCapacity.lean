import Winex.RegionHeap

namespace Winex.Gdi

open List

/-!
# Capacity of the array under construction

The rectangles an operation writes do not depend on the capacity of the array, and every
write goes through `RectArray.append`, which stays in bounds if the array started with a
positive capacity.  With capacity zero, the first write is out of bounds.
-/

/-- Everything the region operations do to the array they write to. -/
inductive Writes (start : RectArray) : RectArray → Prop where
  | nothing : Writes start start
  | append {array : RectArray} (writes : Writes start array) (rect : Rect) :
      Writes start (array.append rect)
  | rewrite
      {array : RectArray}
      (writes : Writes start array)
      {rects : List Rect}
      (notLonger : rects.length ≤ array.rects.length)
      (notEmptied : array.rects ≠ [] → rects ≠ []) :
      Writes start { array with rects := rects }

namespace Writes

theorem trans {first second third : RectArray} (firstWrites : Writes first second)
    (secondWrites : Writes second third) : Writes first third := by
  induction secondWrites with
  | nothing => exact firstWrites
  | append _ rect ih => exact ih.append rect
  | rewrite _ notLonger notEmptied ih =>
    exact ih.rewrite notLonger notEmptied

end Writes

/-- All writes were in bounds, and there is room to grow by doubling. -/
structure RectArray.Roomy (array : RectArray) : Prop where
  positive : 0 < array.size
  fits : array.numRects ≤ array.size
  inBounds : array.inBounds = true

/-- Capacity zero: whatever has been written was out of bounds. -/
structure RectArray.Starved (array : RectArray) : Prop where
  zero : array.size = 0
  inBounds_iff : array.inBounds = true ↔ array.rects = []

variable {start array : RectArray}

theorem Writes.roomy (writes : Writes start array) (roomy : start.Roomy) :
    array.Roomy := by
  induction writes with
  | nothing => exact roomy
  | append _ rect ih =>
    obtain ⟨positive, fits, inBounds⟩ := ih
    rename_i array _
    have grown : array.numRects < array.memCheck ∧ 0 < array.memCheck := by
      unfold RectArray.memCheck
      split <;> omega
    refine ⟨grown.2, ?_, by simp [RectArray.append, inBounds, grown.1]⟩
    simpa [RectArray.numRects, RectArray.append, Nat.succ_le_iff] using grown.1
  | rewrite _ notLonger _ ih =>
    obtain ⟨positive, fits, inBounds⟩ := ih
    exact ⟨positive, le_trans notLonger fits, inBounds⟩

theorem Writes.starved (writes : Writes start array)
    (starved : start.Starved) : array.Starved := by
  induction writes with
  | nothing => exact starved
  | append _ _ ih =>
    have zero := ih.zero
    constructor <;> simp [RectArray.append, RectArray.memCheck, zero]
  | rewrite _ notLonger notEmptied ih =>
    refine ⟨ih.zero, ih.inBounds_iff.trans ⟨?_, ?_⟩⟩
    · intro empty
      rw [empty, length_nil, Nat.le_zero, length_eq_zero_iff] at notLonger
      exact notLonger
    · exact fun empty => not_imp_not.mp notEmptied empty

variable (array : RectArray) {func : Option NonOverlapFunc} {funcs : RegionFuncs}

/-- `MERGERECT` appends a rectangle or stretches the last one. -/
theorem writes_mergeRect (rect : Rect) (top bottom : Int) :
    Writes array (mergeRect array rect top bottom) := by
  unfold mergeRect
  split
  next isLast =>
    split
    · split
      · obtain ⟨_, shape⟩ := getLast?_eq_some_iff.mp isLast
        exact Writes.nothing.rewrite (by simp [shape]) (by simp)
      · exact .nothing
    · exact Writes.nothing.append _
  · exact Writes.nothing.append _

theorem writes_copyBand (rects : List Rect) (top bottom : Int) :
    Writes array (copyBand array rects top bottom) := by
  induction rects generalizing array with
  | nil => exact .nothing
  | cons _ _ ih =>
    exact (Writes.nothing.append _).trans (ih _)

variable (first second : List Rect)

/-- `REGION_IntersectO` only appends. -/
theorem writes_intersectO (top bottom : Int) :
    Writes array (intersectO array first second top bottom) := by
  fun_induction intersectO array first second top bottom with
  | case1 | case2 => exact .nothing
  | case3 _ _ _ _ _ _ _ written _ ih
  | case4 _ _ _ _ _ _ _ written _ _ ih
  | case5 _ _ _ _ _ _ _ written _ _ ih =>
    refine Writes.trans ?_ ih
    unfold written
    split
    · exact Writes.nothing.append _
    · exact .nothing

/-- `REGION_UnionO` writes through `MERGERECT`. -/
theorem writes_unionO (top bottom : Int) :
    Writes array (unionO array first second top bottom) := by
  fun_induction unionO array first second top bottom with
  | case1 => exact .nothing
  | case2 array rect _ ih
  | case3 array rect _ ih
  | case4 array rect _ _ _ _ ih
  | case5 array _ _ rect _ _ ih =>
    exact (writes_mergeRect array rect top bottom).trans ih

/-- `REGION_SubtractO` only appends. -/
theorem writes_subtractLoop (left : Int) (first second : List Rect) (top bottom : Int) :
    Writes array (subtractLoop array left first second top bottom) := by
  fun_induction subtractLoop array left first second top bottom with
  | case1 => exact .nothing
  | case2 _ _ _ _ ih =>
    exact (Writes.nothing.append _).trans ih
  | case3 _ _ _ _ _ _ _ ih
  | case4 _ _ _ _ _ _ _ _ _ ih
  | case5 _ _ _ _ _ _ _ _ _ ih =>
    exact ih
  | case6 _ _ _ _ _ _ _ _ _ _ _ ih
  | case7 _ _ _ _ _ _ _ _ _ _ _ ih =>
    exact (Writes.nothing.append _).trans ih
  | case8 _ _ _ _ _ _ _ _ _ written ih =>
    refine Writes.trans ?_ ih
    unfold written
    split
    · exact Writes.nothing.append _
    · exact .nothing

/-- Coalescing rewrites the array in place and never lengthens it. -/
theorem writes_coalesce (prevStart curStart : Nat) :
    Writes array (coalesce array prevStart curStart).1 := by
  unfold coalesce
  dsimp only
  split
  next prevShape curShape =>
    split
    · split
      · refine Writes.nothing.rewrite ?_ (by simp [prevShape, curShape])
        have ordered : prevStart < curStart := by
          by_contra reversed
          simp [Nat.sub_eq_zero_of_le (not_lt.mp reversed)] at prevShape
        have parts := congrArg length (bandOf_append_afterBand (array.rects.drop curStart))
        simp only [length_append, length_drop] at parts
        simp [length_zip]
        omega
      · exact .nothing
    · exact .nothing
  · exact .nothing

theorem writes_coalesceFrom (prevBand curBand : Nat) :
    Writes array (coalesceFrom array prevBand curBand).1 := by
  unfold coalesceFrom
  split
  · exact writes_coalesce array prevBand curBand
  · exact .nothing

/-- The callbacks write to the array in no other way. -/
structure RegionFuncs.Write (funcs : RegionFuncs) : Prop where
  overlap :
    ∀ array first second top bottom, Writes array (funcs.overlapFunc array first second top bottom)
  nonOverlap1 : ∀ func ∈ funcs.nonOverlap1Func, func = copyBand
  nonOverlap2 : ∀ func ∈ funcs.nonOverlap2Func, func = copyBand

theorem write_intersectFuncs : intersectFuncs.Write where
  overlap := writes_intersectO
  nonOverlap1 := by simp [intersectFuncs]
  nonOverlap2 := by simp [intersectFuncs]

theorem write_unionFuncs : unionFuncs.Write where
  overlap := writes_unionO
  nonOverlap1 := by simp [unionFuncs, unionNonO]
  nonOverlap2 := by simp [unionFuncs, unionNonO]

theorem write_subtractFuncs : subtractFuncs.Write where
  overlap array first := writes_subtractLoop array (nextLeft 0 first) first
  nonOverlap1 := by simp [subtractFuncs, subtractNonO1]
  nonOverlap2 := by simp [subtractFuncs]

variable (copies : ∀ callback ∈ func, callback = copyBand)

include copies in
theorem writes_callNonOverlap (array : RectArray) (band : List Rect) (top bottom : Int) :
    Writes array (callNonOverlap func array band top bottom) := by
  cases func with
  | none => exact .nothing
  | some callback =>
    rw [copies callback rfl]
    exact writes_copyBand array band top bottom

theorem writes_appendBands (rects : List Rect) (ybot : Int) :
    Writes array (appendBands copyBand array rects ybot) := by
  fun_induction appendBands copyBand array rects ybot with
  | case1 => exact .nothing
  | case2 array _ _ ih =>
    exact (writes_copyBand array _ _ _).trans ih

include copies in
theorem writes_appendRest (array : RectArray) (rects : List Rect) (ybot : Int) :
    Writes array (appendRest func array rects ybot) := by
  cases func with
  | none => exact .nothing
  | some callback =>
    rw [copies callback rfl]
    exact writes_appendBands array rects ybot

theorem writes_regionRound (write : funcs.Write) (array : RectArray) (prevBand : Nat) (r1 r2 : Rect)
    (band1 band2 : List Rect) (ybot : Int) :
    Writes array (regionRound funcs array prevBand r1 r2 band1 band2 ybot).1 := by
  have lone : Writes array (nonOverlapStep funcs array r1 r2 band1 band2 ybot).1 := by
    unfold nonOverlapStep
    split
    · dsimp only
      split
      · exact writes_callNonOverlap write.nonOverlap1 _ _ _ _
      · exact .nothing
    split
    · dsimp only
      split
      · exact writes_callNonOverlap write.nonOverlap2 _ _ _ _
      · exact .nothing
    · exact .nothing
  unfold regionRound
  dsimp only
  refine Writes.trans ?_ (writes_coalesceFrom _ _ _)
  refine (lone.trans (writes_coalesceFrom _ prevBand array.numRects)).trans ?_
  split
  · exact write.overlap _ _ _ _ _
  · exact .nothing

theorem writes_regionSweep (write : funcs.Write) (array : RectArray) (prevBand : Nat)
    (first second : List Rect) (ybot : Int) :
    Writes array (regionSweep funcs array prevBand first second ybot) := by
  fun_induction regionSweep funcs array prevBand first second ybot with
  | case1 | case2 =>
    refine Writes.trans ?_ (writes_coalesceFrom _ _ _)
    split
    · exact writes_appendRest write.nonOverlap1 _ _ _
    · split
      · exact writes_appendRest write.nonOverlap2 _ _ _
      · exact .nothing
  | case3 array prevBand ybot r1 _ r2 _ _ _ _ _ ih =>
    exact (writes_regionRound write array prevBand r1 r2 _ _ ybot).trans ih

/-- A function whose rectangles depend on those of the given array only. -/
def RectsOnly (write : RectArray → RectArray) : Prop :=
  ∀ {first second : RectArray}, first.rects = second.rects →
    (write first).rects = (write second).rects

theorem rectsOnly_mergeRect (rect : Rect) (top bottom : Int) :
    RectsOnly fun array => mergeRect array rect top bottom := by
  intro _ second same
  dsimp only
  unfold mergeRect
  rw [same]
  cases second.rects.getLast? with
  | none => simp [same]
  | some =>
    dsimp only
    split
    · split
      · rfl
      · exact same
    · simp [same]

theorem rectsOnly_copyBand (rects : List Rect) (top bottom : Int) :
    RectsOnly fun array => copyBand array rects top bottom := by
  intro _ _ same
  simp only [rects_copyBand, same]

variable (rects1 rects2 : List Rect)

theorem rectsOnly_unionO (top bottom : Int) :
    RectsOnly fun array => unionO array rects1 rects2 top bottom := by
  intro first second same
  dsimp only
  fun_induction unionO first rects1 rects2 top bottom generalizing second with
  | case1 => simpa [unionO] using same
  | case2 _ rect _ ih
  | case3 _ rect _ ih =>
    rw [unionO]
    exact ih (rectsOnly_mergeRect rect top bottom same)
  | case4 _ rect _ _ _ before ih
  | case5 _ _ _ rect _ before ih =>
    rw [unionO]
    simp only [before, if_true, if_false]
    exact ih (rectsOnly_mergeRect rect top bottom same)

theorem rectsOnly_subtractLoop (left : Int) (rects1 rects2 : List Rect) (top bottom : Int) :
    RectsOnly fun array =>
      subtractLoop array left rects1 rects2 top bottom := by
  intro first second same
  dsimp only
  fun_induction subtractLoop first left rects1 rects2 top bottom generalizing second with
  | case1 => simpa [subtractLoop] using same
  | case2 _ _ _ _ ih =>
    rw [subtractLoop]
    exact ih (by simp [same])
  | case3 _ _ _ _ _ _ missed ih =>
    rw [subtractLoop]
    simp only [missed, if_true]
    exact ih same
  | case4 _ _ _ _ _ _ reaches before covered ih
  | case5 _ _ _ _ _ _ reaches before covered ih =>
    rw [subtractLoop.eq_3]
    simp only [reaches, before, covered, if_true, if_false]
    exact ih same
  | case6 array left r1 rest1 r2 rest2 reaches inside overlaps written covered
  | case7 array left r1 rest1 r2 rest2 reaches inside overlaps written covered =>
    rename_i ih
    rw [subtractLoop.eq_3]
    simp only [reaches, inside, overlaps, covered, if_true, if_false]
    exact ih (by simp [written, same])
  | case8 array left r1 rest1 r2 rest2 reaches inside beyond written =>
    rename_i ih
    rw [subtractLoop.eq_3]
    simp only [reaches, inside, beyond, if_false]
    refine ih ?_
    by_cases wide : r1.right > left <;> simp [written, wide, same]

/-- Coalescing looks at the rectangles only. -/
theorem coalesceFrom_congr {first second : RectArray} (same : first.rects = second.rects)
    (prevBand curBand : Nat) :
    (coalesceFrom first prevBand curBand).1.rects = (coalesceFrom second prevBand curBand).1.rects ∧
      (coalesceFrom first prevBand curBand).2 = (coalesceFrom second prevBand curBand).2 := by
  unfold coalesceFrom coalesce RectArray.numRects
  rw [same]
  split
  · dsimp only
    split
    · split
      · split
        · exact ⟨rfl, rfl⟩
        · exact ⟨same, rfl⟩
      · exact ⟨same, rfl⟩
    · exact ⟨same, rfl⟩
  · exact ⟨same, rfl⟩

/-- All callbacks look at the rectangles only. -/
structure RegionFuncs.RectsOnly (funcs : RegionFuncs) : Prop extends funcs.Write where
  overlapRects : ∀ first second top bottom,
    Gdi.RectsOnly fun array => funcs.overlapFunc array first second top bottom

theorem rectsOnly_intersectFuncs : intersectFuncs.RectsOnly where
  toWrite := write_intersectFuncs
  overlapRects _ _ _ _ _ _ same := by simp only [intersectFuncs, rects_intersectO, same]

theorem rectsOnly_unionFuncs : unionFuncs.RectsOnly where
  toWrite := write_unionFuncs
  overlapRects := rectsOnly_unionO

theorem rectsOnly_subtractFuncs : subtractFuncs.RectsOnly where
  toWrite := write_subtractFuncs
  overlapRects first := rectsOnly_subtractLoop (nextLeft 0 first) first

include copies in
theorem rectsOnly_callNonOverlap (band : List Rect) (top bottom : Int) :
    RectsOnly fun array => callNonOverlap func array band top bottom := by
  cases func with
  | none => exact fun same => same
  | some callback =>
    rw [copies callback rfl]
    exact rectsOnly_copyBand band top bottom

theorem rectsOnly_appendBands (rects : List Rect) (ybot : Int) :
    RectsOnly fun array => appendBands copyBand array rects ybot := by
  intro first second same
  dsimp only
  fun_induction appendBands copyBand first rects ybot generalizing second with
  | case1 => simpa [appendBands] using same
  | case2 _ _ _ ih =>
    rw [appendBands]
    exact ih (rectsOnly_copyBand _ _ _ same)

include copies in
theorem rectsOnly_appendRest (rects : List Rect) (ybot : Int) :
    RectsOnly fun array => appendRest func array rects ybot := by
  cases func with
  | none => exact fun same => same
  | some callback =>
    rw [copies callback rfl]
    exact rectsOnly_appendBands rects ybot

section Congruence

variable {funcs : RegionFuncs} (rectsOnly : funcs.RectsOnly) {first second : RectArray}
  (same : first.rects = second.rects)

include rectsOnly same

theorem nonOverlapStep_congr (r1 r2 : Rect) (band1 band2 : List Rect) (ybot : Int) :
    (nonOverlapStep funcs first r1 r2 band1 band2 ybot).1.rects =
      (nonOverlapStep funcs second r1 r2 band1 band2 ybot).1.rects := by
  unfold nonOverlapStep
  split
  · dsimp only
    split
    · exact rectsOnly_callNonOverlap rectsOnly.nonOverlap1 _ _ _ same
    · exact same
  split
  · dsimp only
    split
    · exact rectsOnly_callNonOverlap rectsOnly.nonOverlap2 _ _ _ same
    · exact same
  · exact same

variable (prevBand : Nat)

theorem regionRound_congr (r1 r2 : Rect) (band1 band2 : List Rect) (ybot : Int) :
    (regionRound funcs first prevBand r1 r2 band1 band2 ybot).1.rects =
        (regionRound funcs second prevBand r1 r2 band1 band2 ybot).1.rects ∧
      (regionRound funcs first prevBand r1 r2 band1 band2 ybot).2 =
        (regionRound funcs second prevBand r1 r2 band1 band2 ybot).2 := by
  have lone := nonOverlapStep_congr rectsOnly same r1 r2 band1 band2 ybot
  have sameCount : first.numRects = second.numRects := congrArg length same
  obtain ⟨coalesced, start⟩ := coalesceFrom_congr lone prevBand second.numRects
  unfold regionRound
  simp only [nonOverlapStep_ytop, sameCount, start]
  have sameBand := congrArg length coalesced
  unfold RectArray.numRects at *
  rw [sameBand]
  split
  · exact coalesceFrom_congr (rectsOnly.overlapRects _ _ _ _ coalesced) _ _
  · exact coalesceFrom_congr coalesced _ _

variable (rects1 rects2 : List Rect)

theorem finishRegionOp_congr (ybot : Int) :
    (finishRegionOp funcs first prevBand rects1 rects2 ybot).rects =
      (finishRegionOp funcs second prevBand rects1 rects2 ybot).rects := by
  unfold finishRegionOp RectArray.numRects
  simp only [same]
  refine (coalesceFrom_congr ?_ _ _).1
  split
  · exact rectsOnly_appendRest rectsOnly.nonOverlap1 _ _ same
  · split
    · exact rectsOnly_appendRest rectsOnly.nonOverlap2 _ _ same
    · exact same

/-- The rectangles of a sweep do not depend on the capacity of its array. -/
theorem regionSweep_congr (ybot : Int) :
    (regionSweep funcs first prevBand rects1 rects2 ybot).rects =
      (regionSweep funcs second prevBand rects1 rects2 ybot).rects := by
  fun_induction regionSweep funcs first prevBand rects1 rects2 ybot generalizing second with
  | case1 | case2 =>
    rw [regionSweep]
    exact finishRegionOp_congr rectsOnly same _ _ _ _
  | case3 array prevBand ybot r1 rest1 r2 rest2 =>
    rename_i ih
    obtain ⟨rects, start⟩ :=
      regionRound_congr rectsOnly same prevBand r1 r2
        (bandOf (r1 :: rest1)) (bandOf (r2 :: rest2)) ybot
    rw [regionSweep.eq_3 funcs second]
    simp only [← start]
    exact ih rects

end Congruence

end Winex.Gdi
