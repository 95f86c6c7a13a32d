import Mathlib.Data.List.Sort
import Winex.Bresenham
import Winex.PolygonEdges

namespace Winex.Gdi

open List

/-!
# Edge table and active edge table

Every edge is in the bucket of its top scanline.  While the scanlines are walked, the
active edge table holds exactly the edges the current scanline crosses, each stepped to
it, sorted by column.
-/

/-- The entries are sorted by column. -/
def SortedByColumn (aet : List EdgeTableEntry) : Prop :=
  aet.Pairwise fun earlier later => earlier.bres.minorAxis ≤ later.bres.minorAxis

variable (ete : EdgeTableEntry) {aet before : List EdgeTableEntry} {scanlines : List ScanLineList}

/-- The columns of two entries are in a relation. -/
abbrev Columns (relation : Int → Int → Prop) : EdgeTableEntry → EdgeTableEntry → Prop :=
  Order.Preimage (·.bres.minorAxis) relation

variable (edgelist : List EdgeTableEntry)

theorem insertEdge_eq :
    insertEdge ete edgelist = edgelist.orderedInsert (Columns (· ≤ ·)) ete := by
  fun_induction insertEdge ete edgelist with
  | case1 => rfl
  | case2 _ _ before ih => exact ih ▸ (if_neg (not_le.mpr before)).symm
  | case3 _ _ notBefore => exact (if_pos (not_lt.mp notBefore)).symm

theorem insertEdge_perm :
    (insertEdge ete edgelist).Perm (ete :: edgelist) :=
  insertEdge_eq ete edgelist ▸ perm_orderedInsert ..

theorem loadAET_eq (aet etes : List EdgeTableEntry) :
    loadAET aet etes = etes.merge aet (Columns (· ≤ ·) · ·) := by
  fun_induction loadAET aet etes with
  | case1 => rw [nil_merge]
  | case2 ete rest ih => rw [ih, merge_right, merge_right]
  | case3 _ _ _ _ before ih => rw [ih, cons_merge_cons_neg _ _ _ (by simpa using before)]
  | case4 _ _ _ _ notBefore ih => rw [ih, cons_merge_cons_pos _ _ _ (by simpa using notBefore)]

variable (inserted : EdgeTableEntry)

theorem chaseBack_eq (before : List EdgeTableEntry) :
    (chaseBack inserted before).1 = before.orderedInsert (Columns (· ≥ ·)) inserted := by
  fun_induction chaseBack inserted before with
  | case1 => rfl
  | case2 _ _ greater ih => exact ih ▸ (if_neg (not_le.mpr greater)).symm
  | case3 _ _ notGreater => exact (if_pos (not_lt.mp notGreater)).symm

theorem chaseBack_perm (before : List EdgeTableEntry) :
    (chaseBack inserted before).1.Perm (inserted :: before) :=
  chaseBack_eq inserted before ▸ perm_orderedInsert ..

theorem sortedByColumn_chaseBack (sorted : SortedByColumn before.reverse) :
    SortedByColumn (chaseBack inserted before).1.reverse := by
  rw [chaseBack_eq]
  exact pairwise_reverse.mpr ((pairwise_reverse.mp sorted).orderedInsert inserted before)

theorem chaseBack_of_not_moved {inserted : EdgeTableEntry}
    (still : (chaseBack inserted before).2 = false) :
    (chaseBack inserted before).1 = inserted :: before := by
  cases before with
  | nil => rfl
  | cons back rest =>
    unfold chaseBack at *
    split at still
    · cases still
    · rename_i notGreater
      rw [if_neg notGreater]

theorem insertionSortFrom_perm (before : List EdgeTableEntry) (changed : Bool)
    (aet : List EdgeTableEntry) :
    (insertionSortFrom before changed aet).1.Perm (before ++ aet) := by
  induction aet generalizing before changed with
  | nil => simp [insertionSortFrom, reverse_perm before]
  | cons inserted rest ih =>
    have moved := chaseBack_perm inserted before
    exact (ih _ _).trans ((moved.append_right rest).trans perm_middle.symm)

theorem sortedByColumn_insertionSortFrom (changed : Bool) (aet : List EdgeTableEntry)
    (sorted : SortedByColumn before.reverse) :
    SortedByColumn (insertionSortFrom before changed aet).1 := by
  induction aet generalizing before changed with
  | nil => exact sorted
  | cons inserted _ ih =>
    exact ih _ (sortedByColumn_chaseBack inserted sorted)

/-- Sorting reports no change only if it made none. -/
theorem insertionSortFrom_of_not_changed {changed : Bool}
    (still : (insertionSortFrom before changed aet).2 = false) :
    changed = false ∧ (insertionSortFrom before changed aet).1 = before.reverse ++ aet := by
  induction aet generalizing before changed with
  | nil => simpa [insertionSortFrom] using still
  | cons _ _ ih =>
    unfold insertionSortFrom at still ⊢
    obtain ⟨unchanged, rests⟩ := ih still
    rw [Bool.or_eq_false_iff] at unchanged
    rw [rests, chaseBack_of_not_moved unchanged.2]
    exact ⟨unchanged.1, by simp⟩

/-- The entry of an edge at a place in the pool, stepped to a scanline. -/
def entryAt (y : Int) (pooled : Edge × Nat) : EdgeTableEntry where
  id := pooled.2
  ymax := wrapInt (pooled.1.bottom.y - 1)
  bres :=
    bresIncrPgon^[(y - pooled.1.top.y).toNat]
      (bresInitPgon (wrapInt (pooled.1.bottom.y - pooled.1.top.y)) pooled.1.top.x pooled.1.bottom.x)
  clockWise := pooled.1.clockWise

/-- The entries in the bucket of a scanline. -/
def edgesAt (scanlines : List ScanLineList) (y : Int) : List EdgeTableEntry :=
  (scanlines.filter fun pSLL => pSLL.scanline = y).flatMap ScanLineList.edgelist

theorem edgesAt_cons (pSLL : ScanLineList) (rest : List ScanLineList) (y : Int) :
    edgesAt (pSLL :: rest) y =
      (if pSLL.scanline = y then pSLL.edgelist else []) ++ edgesAt rest y := by
  unfold edgesAt
  split
  next here => simp [here]
  next elsewhere => simp [elsewhere]

/-- The buckets hold the edges of the pool by their top scanlines. -/
structure HoldsEdges (scanlines : List ScanLineList) (pooled : List (Edge × Nat)) : Prop where
  ascending : scanlines.Pairwise fun upper lower => upper.scanline < lower.scanline
  buckets :
    ∀ y, (edgesAt scanlines y).Perm ((pooled.filter fun edge => edge.1.top.y = y).map (entryAt y))
  sorted : ∀ pSLL ∈ scanlines, SortedByColumn pSLL.edgelist
  occupied : ∀ pSLL ∈ scanlines, pSLL.edgelist ≠ []

theorem edgesAt_insertEdgeInET (scanline y : Int) (scanlines : List ScanLineList) :
    (edgesAt (insertEdgeInET ete scanline scanlines) y).Perm
      ((if scanline = y then [ete] else []) ++ edgesAt scanlines y) := by
  fun_induction insertEdgeInET ete scanline scanlines with
  | case1 => rw [edgesAt_cons]
  | case2 _ _ _ ih =>
    rw [edgesAt_cons, edgesAt_cons]
    refine (ih.append_left _).trans ?_
    rw [← append_assoc, ← append_assoc]
    exact perm_append_comm.append_right _
  | case3 => rw [edgesAt_cons]
  | case4 pSLL =>
    have same : pSLL.scanline = scanline := by omega
    rw [edgesAt_cons, edgesAt_cons, same, ← append_assoc]
    refine List.Perm.append_right _ ?_
    split
    · exact insertEdge_perm ete pSLL.edgelist
    · exact List.Perm.refl _

theorem scanline_of_mem_insertEdgeInET {ete : EdgeTableEntry} {scanline : Int} {pSLL : ScanLineList}
    (member : pSLL ∈ insertEdgeInET ete scanline scanlines) :
    pSLL.scanline = scanline ∨ ∃ old ∈ scanlines, old.scanline = pSLL.scanline := by
  fun_induction insertEdgeInET ete scanline scanlines with
  | case1 => simp_all
  | case2 | case3 | case4 => grind

theorem ascending_insertEdgeInET (scanline : Int)
    (ascending : scanlines.Pairwise fun upper lower => upper.scanline < lower.scanline) :
    (insertEdgeInET ete scanline scanlines).Pairwise fun upper lower =>
      upper.scanline < lower.scanline := by
  fun_induction insertEdgeInET ete scanline scanlines with
  | case1 => exact pairwise_singleton _ _
  | case2 _ _ _ ih =>
    obtain ⟨first, restAscending⟩ := pairwise_cons.mp ascending
    refine pairwise_cons.mpr ⟨fun pSLL member => ?_, ih restAscending⟩
    rcases scanline_of_mem_insertEdgeInET member with
      isNew | ⟨old, oldMember, same⟩
    · rwa [isNew]
    · rw [← same]
      exact first old oldMember
  | case3 _ _ _ behind =>
    refine pairwise_cons.mpr ⟨forall_mem_cons.mpr ⟨behind, fun pSLL inRest => ?_⟩, ascending⟩
    exact lt_trans behind ((pairwise_cons.mp ascending).1 pSLL inRest)
  | case4 head =>
    have same : head.scanline = scanline := by omega
    obtain ⟨first, restAscending⟩ := pairwise_cons.mp ascending
    exact pairwise_cons.mpr ⟨fun pSLL member => same ▸ first pSLL member, restAscending⟩

/-- What holds of every bucket holds after an insertion that keeps it. -/
theorem forall_insertEdgeInET (property : List EdgeTableEntry → Prop) {ete : EdgeTableEntry}
    (alone : property [ete])
    (inserted : ∀ edgelist, property edgelist → property (insertEdge ete edgelist)) (scanline : Int)
    {scanlines : List ScanLineList} (all : ∀ pSLL ∈ scanlines, property pSLL.edgelist) :
    ∀ pSLL ∈ insertEdgeInET ete scanline scanlines, property pSLL.edgelist := by
  fun_induction insertEdgeInET ete scanline scanlines with
  | case1 => simpa using alone
  | case2 _ _ _ ih =>
    rw [forall_mem_cons] at all ⊢
    exact ⟨all.1, ih all.2⟩
  | case3 =>
    rw [forall_mem_cons]
    exact ⟨alone, all⟩
  | case4 =>
    rw [forall_mem_cons] at all ⊢
    exact ⟨inserted _ all.1, all.2⟩

/-- The table after an edge was entered. -/
theorem HoldsEdges.insert {pooled : List (Edge × Nat)} (holds : HoldsEdges scanlines pooled)
    (edge : Edge) (id : Nat) :
    HoldsEdges
      (insertEdgeInET (entryAt edge.top.y (edge, id)) edge.top.y scanlines)
      (pooled ++ [(edge, id)]) where
  ascending := ascending_insertEdgeInET _ _ holds.ascending
  buckets := by
    intro y
    refine (edgesAt_insertEdgeInET _ _ _ _).trans ?_
    rw [filter_append, map_append]
    refine perm_append_comm.trans ?_
    refine (holds.buckets y).append ?_
    by_cases here : edge.top.y = y <;> simp [here]
  sorted :=
    forall_insertEdgeInET SortedByColumn (pairwise_singleton _ _)
      (fun edgelist sorted => insertEdge_eq _ edgelist ▸ sorted.orderedInsert _ edgelist) _
      holds.sorted
  occupied := by
    refine forall_insertEdgeInET (· ≠ []) (cons_ne_nil _ _)
      (fun edgelist _ empty => ?_) _ holds.occupied
    simpa [empty] using (insertEdge_perm (entryAt edge.top.y (edge, id)) edgelist).length_eq

variable {first second : Point} {state : EdgeTable × Nat}

theorem addEdge_of_some (et : EdgeTable) (pETEs : Nat) {edge : Edge}
    (between : Edge.between first second = some edge) :
    addEdge (et, pETEs) (first, second) =
      ({ scanlines :=
            insertEdgeInET (entryAt edge.top.y (edge, pETEs)) edge.top.y et.scanlines
         ymax := if first.y > et.ymax then first.y else et.ymax
         ymin := if first.y < et.ymin then first.y else et.ymin },
        pETEs + 1) := by
  obtain ⟨down, rfl⟩ | ⟨up, rfl⟩ := Edge.of_between between
  · simp [addEdge, entryAt, not_lt_of_gt down, ne_of_gt down]
  · simp [addEdge, entryAt, up, ne_of_gt up]

/-- The edge table of some steps. -/
structure TableOf (steps : List (Point × Point)) (state : EdgeTable × Nat) : Prop where
  holds : HoldsEdges state.1.scanlines (stepEdges steps).zipIdx
  next : state.2 = (stepEdges steps).length
  bounds : ∀ step ∈ steepSteps steps, state.1.ymin ≤ step.1.y ∧ step.1.y ≤ state.1.ymax

theorem TableOf.addEdge {steps : List (Point × Point)} (table : TableOf steps state)
    (step : Point × Point) : TableOf (steps ++ [step]) (Gdi.addEdge state step) := by
  obtain ⟨first, second⟩ := step
  obtain ⟨et, pETEs⟩ := state
  obtain ⟨holds, next, bounds⟩ := table
  have steep :
      steepSteps (steps ++ [(first, second)]) = steepSteps steps ++ steepSteps [(first, second)] :=
    filter_append ..
  by_cases flat : first.y = second.y
  · have noEdge : stepEdges (steps ++ [(first, second)]) = stepEdges steps := by
      rw [stepEdges_append, stepEdges_cons, Edge.between_of_eq flat]
      simp
    have noStep : steepSteps [(first, second)] = [] := by simp [steepSteps, flat]
    rw [show Gdi.addEdge (et, pETEs) (first, second) = (et, pETEs) by simp [Gdi.addEdge, flat]]
    exact ⟨noEdge ▸ holds, noEdge ▸ next, by rw [steep, noStep, append_nil]; exact bounds⟩
  obtain ⟨edge, between⟩ := Edge.exists_between flat
  have newEdge : stepEdges (steps ++ [(first, second)]) = stepEdges steps ++ [edge] := by
    rw [stepEdges_append, stepEdges_cons, between]
    simp
  have newStep : steepSteps [(first, second)] = [(first, second)] := by simp [steepSteps, flat]
  rw [addEdge_of_some et pETEs between]
  refine ⟨?_, ?_, ?_⟩
  · rw [newEdge, zipIdx_append, zipIdx_singleton]
    dsimp only at next ⊢
    rw [next, Nat.zero_add]
    exact holds.insert edge _
  · rw [newEdge, length_append]
    exact congrArg (· + 1) next
  · rw [steep, newStep]
    intro step member
    rcases mem_append.mp member with isOld | isNew
    · have := bounds step isOld
      grind
    · grind

theorem tableOf_foldl {earlier : List (Point × Point)} (table : TableOf earlier state)
    (steps : List (Point × Point)) : TableOf (earlier ++ steps) (steps.foldl addEdge state) := by
  induction steps generalizing earlier state with
  | nil => simpa using table
  | cons step _ ih =>
    have later := ih (table.addEdge step)
    rwa [append_assoc] at later

/-- `REGION_CreateETandAET` enters all edges of the polygons. -/
theorem tableOf_createETandAET {polygons : List (List Point)}
    (vertices : ∀ polygon ∈ polygons, 2 ≤ polygon.length) :
    ∃ pETEs, TableOf (loopSteps polygons)
      (createETandAET polygons.flatten (polygons.map List.length), pETEs) := by
  have pairs := polygonPairs_flatten [] vertices
  have start : TableOf [] (⟨smallCoordinate, largeCoordinate, []⟩, 0) :=
    ⟨⟨List.Pairwise.nil, fun y => List.Perm.refl _, by simp, by simp⟩, rfl, by simp [steepSteps]⟩
  have table := tableOf_foldl start (loopSteps polygons)
  rw [nil_append, length_nil] at pairs
  exact ⟨_, by rw [createETandAET, pairs]; exact table⟩

end Winex.Gdi
