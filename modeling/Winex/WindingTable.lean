import Winex.Crossings
import Winex.PolygonModel

namespace Winex.Gdi

open Banding List

/-!
# The winding edge table

`REGION_computeWAET` links the active edges at which the winding number enters or leaves
zero.  Following the links meets exactly these edges while the edges are only stepped.
-/

/-- The summand of an entry in a winding number. -/
def EdgeTableEntry.direction (entry : EdgeTableEntry) : Int :=
  if entry.clockWise then 1 else -1

/-- The entries at which the winding number enters or leaves zero. -/
abbrev turningEntries (isInside : Int) (aet : List EdgeTableEntry) : List EdgeTableEntry :=
  turningPoints EdgeTableEntry.direction isInside aet

/-- The place of the first of some entries. -/
def firstId (entries : List EdgeTableEntry) : Option Nat :=
  entries.head?.map EdgeTableEntry.id

/-- The flag `inside` says that the winding number is zero. -/
theorem computeWAETFrom_cons (active : EdgeTableEntry) (rest : List EdgeTableEntry)
    (pWETE : Option Nat) (isInside : Int) (links : WindingLinks) :
    computeWAETFrom (active :: rest) pWETE (decide (isInside = 0)) isInside links =
      if isInside = 0 ↔ isInside + active.direction = 0 then
        computeWAETFrom rest pWETE
          (decide (isInside + active.direction = 0))
          (isInside + active.direction) links
      else
        computeWAETFrom rest (some active.id)
          (decide (isInside + active.direction = 0))
          (isInside + active.direction)
          (links.link pWETE (some active.id)) := by
  have next : (if active.clockWise = true then isInside + 1 else isInside - 1) =
      isInside + active.direction := by
    unfold EdgeTableEntry.direction
    split <;> omega
  rw [computeWAETFrom, next]
  generalize isInside + active.direction = sum
  by_cases before : isInside = 0 <;> by_cases after : sum = 0 <;> simp [before, after]

variable (aet : List EdgeTableEntry)

theorem computeWAETFrom_of_not_mem (pWETE : Option Nat) (isInside : Int)
    (links : WindingLinks) {id : Nat} (notLast : pWETE ≠ some id)
    (notListed : ∀ entry ∈ aet, entry.id ≠ id) :
    computeWAETFrom aet pWETE (decide (isInside = 0)) isInside links id = links id := by
  have unlinked : ∀ target, links.link pWETE target id = links id := by
    intro _
    cases pWETE with
    | none => rfl
    | some last =>
      have differs : id ≠ last := by
        rintro rfl
        exact notLast rfl
      simp [WindingLinks.link, differs]
  induction aet generalizing pWETE isInside links with
  | nil => exact unlinked none
  | cons _ _ ih =>
    obtain ⟨notFirst, notRest⟩ := forall_mem_cons.mp notListed
    rw [computeWAETFrom_cons]
    split
    · exact ih _ _ _ notLast notRest unlinked
    rw [ih _ _ _ (by simpa using notFirst) notRest]
    · exact unlinked _
    · intro _
      simp [WindingLinks.link, Ne.symm notFirst]

variable {aet : List EdgeTableEntry}

/-- What the links lead to after they were computed. -/
theorem computeWAETFrom_spec (distinct : (aet.map EdgeTableEntry.id).Nodup) (pWETE : Option Nat)
    (isInside : Int) (links : WindingLinks) (fresh : ∀ entry ∈ aet, pWETE ≠ some entry.id) :
    (∀ last, pWETE = some last →
      computeWAETFrom aet pWETE (decide (isInside = 0)) isInside links last =
        firstId (turningEntries isInside aet)) ∧
      windingEdges
          (computeWAETFrom aet pWETE (decide (isInside = 0)) isInside links)
          (firstId (turningEntries isInside aet)) aet =
        turningEntries isInside aet := by
  induction aet generalizing pWETE isInside links with
  | nil =>
    refine ⟨?_, rfl⟩
    rintro _ rfl
    simp [computeWAETFrom, WindingLinks.link, firstId, turningPoints]
  | cons active rest ih =>
    obtain ⟨notRepeated, restDistinct⟩ := nodup_cons.mp (map_cons ▸ distinct)
    obtain ⟨notFirst, notRest⟩ := forall_mem_cons.mp fresh
    have restDiffers : ∀ entry ∈ rest, entry.id ≠ active.id := by
      intro entry member same
      exact notRepeated (mem_map.mpr ⟨entry, member, same⟩)
    rw [computeWAETFrom_cons, turningEntries, turningPoints]
    split
    next stays =>
      obtain ⟨linked, followed⟩ := ih restDistinct pWETE (isInside + active.direction) links notRest
      refine ⟨linked, ?_⟩
      rw [windingEdges, if_neg]
      · exact followed
      · -- The next entry linked comes later in the table.
        intro isActive
        obtain ⟨entry, isFirst, same⟩ := Option.map_eq_some_iff.mp isActive
        exact restDiffers entry
          ((turningPoints_sublist _ _ _).subset (mem_of_mem_head? isFirst)) same
    next turns =>
      obtain ⟨linked, followed⟩ :=
        ih restDistinct (some active.id)
          (isInside + active.direction)
          (links.link pWETE (some active.id))
          (fun entry member => by simpa using (restDiffers entry member).symm)
      constructor
      · rintro _ rfl
        rw [computeWAETFrom_of_not_mem _ _ _ _ (by simpa using Ne.symm notFirst)
          (fun entry member => by simpa using (notRest entry member).symm)]
        simp [WindingLinks.link, firstId]
      · rw [firstId, head?_cons, Option.map_some, windingEdges, if_pos rfl, linked active.id rfl]
        exact congrArg (active :: ·) followed

/-- Following the links from the first entry meets the turning entries. -/
def Linked (links : WindingLinks) (aet : List EdgeTableEntry) : Prop :=
  windingEdges links (firstId aet) aet = turningEntries 0 aet

theorem firstId_turningEntries :
    firstId (turningEntries 0 aet) = firstId aet := by
  cases aet with
  | nil => rfl
  | cons active =>
    have turns : ¬ ((0 : Int) = 0 ↔ 0 + active.direction = 0) := by
      unfold EdgeTableEntry.direction
      split <;> simp
    rw [turningEntries, turningPoints]
    rw [if_neg turns]
    rfl

/-- `REGION_computeWAET` links any active edge table. -/
theorem linked_computeWAET (distinct : (aet.map EdgeTableEntry.id).Nodup) (links : WindingLinks) :
    Linked (computeWAET aet links) aet := by
  have followed := (computeWAETFrom_spec distinct none 0 links (by simp)).2
  rw [firstId_turningEntries] at followed
  exact followed

section Step

variable (step : EdgeTableEntry → EdgeTableEntry) (sameId : ∀ entry, (step entry).id = entry.id)
  (sameDirection : ∀ entry, (step entry).direction = entry.direction)

include sameId in
theorem windingEdges_map (links : WindingLinks) (pWETE : Option Nat) (aet : List EdgeTableEntry) :
    windingEdges links pWETE (aet.map step) = (windingEdges links pWETE aet).map step := by
  induction aet generalizing pWETE with
  | nil => rfl
  | cons _ _ ih =>
    rw [map_cons, windingEdges, windingEdges, sameId]
    split
    · rw [ih, map_cons]
    · exact ih _

include sameDirection in
theorem turningEntries_map (isInside : Int) (aet : List EdgeTableEntry) :
    turningEntries isInside (aet.map step) = (turningEntries isInside aet).map step := by
  induction aet generalizing isInside with
  | nil => rfl
  | cons active _ ih =>
    rw [map_cons, turningEntries, turningPoints, turningEntries, turningPoints, sameDirection]
    split
    · exact ih _
    · exact congrArg (step active :: ·) (ih _)

include sameId sameDirection in
theorem Linked.map {links : WindingLinks} {aet : List EdgeTableEntry} (linked : Linked links aet) :
    Linked links (aet.map step) := by
  have sameFirst : firstId (aet.map step) = firstId aet := by cases aet <;> simp [firstId, sameId]
  rw [Linked, sameFirst, windingEdges_map step sameId, linked,
    turningEntries_map step sameDirection]

end Step

end Winex.Gdi
