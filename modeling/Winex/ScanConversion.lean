import Winex.ActiveEdges

namespace Winex.Gdi

open Banding List

/-!
# The scanline loop

At the start of a scanline the active edge table holds the edges entered before that are
not finished.  Entering the edges of the scanline completes it; evaluating them removes
the finished ones and steps the others.  The points buffered are the columns of all
active edges, or, by the winding rule, of those at which the winding number enters or
leaves zero.
-/

/-- The coordinates of the edge are `INT`s, and stepping does not overflow. -/
structure Edge.Fits (edge : Edge) : Prop where
  top : FitsInt edge.top.y
  bottom : FitsInt edge.bottom.y
  steps : StepsFit (edge.bottom.y - edge.top.y) edge.top.x edge.bottom.x

variable {edge : Edge} {y : Int}

theorem Edge.Fits.minorAxis_entryAt (fits : edge.Fits) (active : edge.Active y) (id : Nat) :
    (entryAt y (edge, id)).bres.minorAxis = ⌈edge.abscissa y⌉ := by
  have height : FitsInt (edge.bottom.y - edge.top.y) := by
    have := fits.steps.height
    unfold FitsInt at *
    omega
  obtain ⟨_, _⟩ := active
  have rows : ((y - edge.top.y).toNat : Int) = y - edge.top.y := Int.toNat_of_nonneg (by omega)
  have stepped := fits.steps.minorAxis_iterate (y - edge.top.y).toNat (by omega)
  have exactRows : ((y - edge.top.y).toNat : ℚ) = (y : ℚ) - edge.top.y := by
    exact_mod_cast congrArg (Int.cast : Int → ℚ) rows
  dsimp only [entryAt]
  rw [wrapInt_of_fits height, stepped, exactRows, Int.cast_sub, Edge.abscissa]

/-- The entries of the edges a scanline crosses. -/
def activeEntries (pooled : List (Edge × Nat)) (y : Int) : List EdgeTableEntry :=
  (pooled.filter fun edge => edge.1.Active y).map (entryAt y)

/-- The entries of the edges a scanline crosses below their top. -/
def continuingEntries (pooled : List (Edge × Nat)) (y : Int) : List EdgeTableEntry :=
  (pooled.filter fun edge => edge.1.top.y < y ∧ y < edge.1.bottom.y).map (entryAt y)

theorem activeEntries_perm (pooled : List (Edge × Nat)) (y : Int) :
    (activeEntries pooled y).Perm
      (continuingEntries pooled y ++
        (pooled.filter fun edge => edge.1.top.y = y).map (entryAt y)) := by
  have split :=
    filter_append_perm (fun edge : Edge × Nat => edge.1.top.y < y)
      (pooled.filter fun edge => edge.1.Active y)
  rw [filter_filter, filter_filter] at split
  unfold activeEntries continuingEntries
  rw [← map_append]
  refine (split.map (entryAt y)).symm.trans (List.Perm.of_eq ?_)
  congr 2
  · refine filter_congr fun edge _ => ?_
    rw [Bool.eq_iff_iff]
    simp only [Bool.and_eq_true, decide_eq_true_eq]
    unfold Edge.Active
    omega
  · refine filter_congr fun edge _ => ?_
    have := edge.1.tall
    rw [Bool.eq_iff_iff]
    simp only [Bool.and_eq_true, Bool.not_eq_true', decide_eq_true_eq, decide_eq_false_iff_not]
    unfold Edge.Active
    omega

theorem Edge.Fits.evaluateEdge_entryAt (fits : edge.Fits) (active : edge.Active y) (id : Nat) :
    evaluateEdge y (entryAt y (edge, id)) =
      if edge.bottom.y = y + 1 then none
      else some (entryAt (y + 1) (edge, id)) := by
  have last : wrapInt (edge.bottom.y - 1) = edge.bottom.y - 1 := by
    have := edge.tall
    have := fits.top
    have := fits.bottom
    apply wrapInt_of_fits
    unfold FitsInt at *
    omega
  have rows : (y + 1 - edge.top.y).toNat = (y - edge.top.y).toNat + 1 := by
    have := active.1
    omega
  unfold evaluateEdge
  by_cases finished : edge.bottom.y = y + 1
  · rw [if_pos finished, if_pos]
    dsimp only [entryAt]
    omega
  rw [if_neg finished, if_neg]
  · dsimp only [entryAt]
    rw [rows, Function.iterate_succ_apply']
  · dsimp only [entryAt]
    omega

theorem edgesAt_eq_nil {scanlines : List ScanLineList}
    (elsewhere : ∀ pSLL ∈ scanlines, pSLL.scanline ≠ y) : edgesAt scanlines y = [] := by
  rw [edgesAt, filter_eq_nil_iff.mpr, flatMap_nil]
  intro pSLL member
  simpa using elsewhere pSLL member

/-- The active edges and pending buckets at the start of a scanline. -/
structure Scanning (pooled : List (Edge × Nat)) (y : Int) (aet : List EdgeTableEntry)
    (pSLL : List ScanLineList) : Prop where
  active : aet.Perm (continuingEntries pooled y)
  sorted : SortedByColumn aet
  pending : HoldsEdges pSLL (pooled.filter fun edge => y ≤ edge.1.top.y)

/-- The active edges and pending buckets once the edges are entered. -/
structure Entered (pooled : List (Edge × Nat)) (y : Int) (aet : List EdgeTableEntry)
    (pSLL : List ScanLineList) : Prop where
  active : aet.Perm (activeEntries pooled y)
  sorted : SortedByColumn aet
  pending : HoldsEdges pSLL (pooled.filter fun edge => y + 1 ≤ edge.1.top.y)

section Enter

variable {pooled : List (Edge × Nat)} {y : Int} {aet : List EdgeTableEntry}
  {pSLL : List ScanLineList}

variable (scanning : Scanning pooled y aet pSLL)
include scanning

theorem Scanning.le_scanline : ∀ bucket ∈ pSLL, y ≤ bucket.scanline := by
  intro bucket member
  obtain ⟨ete, _, shape⟩ := exists_cons_of_ne_nil (scanning.pending.occupied bucket member)
  have inBucket : ete ∈ edgesAt pSLL bucket.scanline := by
    refine mem_flatMap.mpr ⟨bucket, ?_, by simp [shape]⟩
    exact mem_filter.mpr ⟨member, by simp⟩
  obtain ⟨_, inPool, -⟩ :=
    mem_map.mp ((scanning.pending.buckets bucket.scanline).mem_iff.mp inBucket)
  simp at inPool
  omega

theorem Scanning.pending_later {rest : List ScanLineList}
    (ascending : rest.Pairwise fun upper lower => upper.scanline < lower.scanline)
    (subset : ∀ bucket ∈ rest, bucket ∈ pSLL ∧ y < bucket.scanline)
    (same : ∀ later, y < later → edgesAt rest later = edgesAt pSLL later) :
    HoldsEdges rest (pooled.filter fun edge => y + 1 ≤ edge.1.top.y) where
  ascending := ascending
  buckets := by
    intro later
    by_cases below : y < later
    · rw [same later below]
      refine (scanning.pending.buckets later).trans (List.Perm.of_eq ?_)
      rw [filter_filter, filter_filter]
      congr 1
      refine filter_congr fun edge _ => ?_
      rw [Bool.eq_iff_iff]
      simp
      omega
    · rw [edgesAt_eq_nil, filter_filter, filter_eq_nil_iff.mpr]
      · rfl
      · intro _ _
        simp
        omega
      · intro bucket member
        have := (subset bucket member).2
        omega
  sorted := fun bucket member => scanning.pending.sorted bucket (subset bucket member).1
  occupied := fun bucket member => scanning.pending.occupied bucket (subset bucket member).1

theorem Scanning.active_append : (aet ++ edgesAt pSLL y).Perm (activeEntries pooled y) := by
  refine (scanning.active.append (scanning.pending.buckets y)).trans ?_
  refine List.Perm.trans (List.Perm.of_eq ?_) (activeEntries_perm _ _).symm
  rw [filter_filter]
  congr 2
  refine filter_congr fun edge _ => ?_
  simp
  omega

theorem Scanning.enter :
    Entered pooled y (enterEdges y aet pSLL).1 (enterEdges y aet pSLL).2.1 := by
  have complete := scanning.active_append
  have bounded := scanning.le_scanline
  unfold enterEdges
  cases pSLL with
  | nil =>
    have empty : edgesAt [] y = [] := rfl
    rw [empty, append_nil] at complete
    exact ⟨complete, scanning.sorted,
      scanning.pending_later List.Pairwise.nil (by simp) fun _ _ => rfl⟩
  | cons bucket rest =>
    obtain ⟨first, restAscending⟩ := pairwise_cons.mp scanning.pending.ascending
    have reached := bounded bucket (by simp)
    dsimp only
    split
    next here =>
      have onlyHead : edgesAt (bucket :: rest) y = bucket.edgelist := by
        rw [edgesAt_cons, if_pos here.symm, edgesAt_eq_nil, append_nil]
        intro later member
        have := first later member
        omega
      rw [onlyHead] at complete
      rw [loadAET_eq]
      refine ⟨(merge_perm_append _).trans (perm_append_comm.trans complete),
        (scanning.pending.sorted bucket (by simp)).merge scanning.sorted, ?_⟩
      refine scanning.pending_later restAscending ?_ ?_
      · intro later member
        exact ⟨by simp [member], here ▸ first later member⟩
      · intro _ _
        rw [edgesAt_cons, if_neg (by omega), nil_append]
    next elsewhere =>
      have below : ∀ later ∈ bucket :: rest, y < later.scanline := by
        refine forall_mem_cons.mpr ⟨by omega, fun later inRest => ?_⟩
        have := first later inRest
        omega
      have empty : edgesAt (bucket :: rest) y = [] := by
        apply edgesAt_eq_nil
        intro later member
        exact ne_of_gt (below later member)
      rw [empty, append_nil] at complete
      exact ⟨complete, scanning.sorted,
        scanning.pending_later scanning.pending.ascending
          (fun later member => ⟨member, below later member⟩)
          fun _ _ => rfl⟩

omit scanning

theorem enterEdges_of_not_entered (notEntered : (enterEdges y aet pSLL).2.2 = false) :
    (enterEdges y aet pSLL).1 = aet := by
  unfold enterEdges at *
  cases pSLL with
  | nil => rfl
  | cons bucket rest =>
    dsimp only at *
    split at notEntered
    · cases notEntered
    · rename_i elsewhere
      rw [if_neg elsewhere]

end Enter

section Scan

variable {pooled : List (Edge × Nat)} (fits : ∀ edge ∈ pooled, edge.1.Fits)

include fits

/-- Evaluating the active edges leaves those the next scanline crosses. -/
theorem filterMap_evaluateEdge (y : Int) :
    (activeEntries pooled y).filterMap (evaluateEdge y) = continuingEntries pooled (y + 1) := by
  unfold activeEntries continuingEntries
  induction pooled with
  | nil => rfl
  | cons edge _ ih =>
    obtain ⟨edge, id⟩ := edge
    have restEdges := ih fun other member => fits other (by simp [member])
    by_cases active : edge.Active y
    · have evaluated := (fits (edge, id) (by simp)).evaluateEdge_entryAt active id
      have started := active.1
      have unfinished := active.2
      rw [filter_cons_of_pos (by simpa using active), map_cons]
      by_cases finished : edge.bottom.y = y + 1
      · rw [if_pos finished] at evaluated
        rw [filterMap_cons_none evaluated, restEdges, filter_cons_of_neg]
        simp
        omega
      rw [if_neg finished] at evaluated
      rw [filterMap_cons_some evaluated, restEdges, filter_cons_of_pos, map_cons]
      simp
      omega
    · rw [filter_cons_of_neg (by simpa using active), restEdges, filter_cons_of_neg]
      unfold Edge.Active at active
      simp
      omega

theorem Entered.next {y : Int} {aet : List EdgeTableEntry} {pSLL : List ScanLineList}
    (entered : Entered pooled y aet pSLL) :
    Scanning pooled (y + 1) (insertionSort (aet.filterMap (evaluateEdge y))).1 pSLL where
  active := by
    refine (insertionSortFrom_perm [] false _).trans ?_
    rw [← filterMap_evaluateEdge fits]
    exact entered.active.filterMap _
  sorted := sortedByColumn_insertionSortFrom false _ List.Pairwise.nil
  pending := entered.pending

end Scan

end Winex.Gdi
