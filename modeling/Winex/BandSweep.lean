import Winex.BandList

namespace Winex.Banding

open List

/-!
# The band sweep

Two canonical band lists are swept from top to bottom.  Between two consecutive band
edges each list contributes one row of spans: a strip met by one list only is copied or
skipped, a strip met by both is computed by the overlap function, and every new band is
fused with the band above if the two touch and agree.
-/

variable [LinearOrder α] [LinearOrder β]

/-- Append a band, extending the last one instead when the two agree. -/
def pushBand (bands : List (Band α β)) (new : Band α β) : List (Band α β) :=
  match bands.getLast? with
  | none => [new]
  | some last =>
    if last.bottom = new.top ∧ last.spans = new.spans then
      bands.dropLast ++ [⟨last.top, new.bottom, last.spans⟩]
    else
      bands ++ [new]

theorem pushBand_concat (earlier : List (Band α β)) (last new : Band α β) :
    pushBand (earlier ++ [last]) new =
      if last.bottom = new.top ∧ last.spans = new.spans then
        earlier ++ [⟨last.top, new.bottom, last.spans⟩]
      else
        earlier ++ [last] ++ [new] := by
  simp [pushBand]

theorem pushBand_eq_concat (bands : List (Band α β)) (new : Band α β) :
    ∃ earlier top, pushBand bands new = earlier ++ [⟨top, new.bottom, new.spans⟩] := by
  unfold pushBand
  cases bands.getLast? with
  | none => exact ⟨[], new.top, rfl⟩
  | some last =>
    dsimp only
    split
    next agree => exact ⟨bands.dropLast, last.top, by rw [agree.2]⟩
    · exact ⟨bands, new.top, rfl⟩

variable {bands done rest first second : List (Band α β)} {new : Band α β} {bottom edge top : β}

theorem inBands_pushBand (stacked : Stacked bands) (tall : new.top < new.bottom) (x : α) (y : β) :
    InBands (pushBand bands new) x y ↔ InBands bands x y ∨ new.Contains x y := by
  rcases eq_nil_or_concat' bands with rfl | ⟨_, last, rfl⟩
  · simp [pushBand]
  have lastTall := (stacked.valid last (by simp)).tall
  rw [pushBand_concat]
  split
  next agree =>
    simp only [inBands_append, inBands_cons, inBands_nil, or_false, Band.Contains]
    grind
  · simp [or_assoc]

theorem canonical_pushBand (canonical : Canonical bands) (valid : new.Valid)
    (above : ∀ band ∈ bands, band.bottom ≤ new.top) : Canonical (pushBand bands new) := by
  rcases eq_nil_or_concat' bands with rfl | ⟨_, last, rfl⟩
  · refine ⟨stacked_cons.mpr ⟨valid, by simp, stacked_nil⟩, ?_⟩
    simp [pushBand, Coalesced]
  obtain ⟨⟨bandsValid, ordered⟩, coalesced⟩ := canonical
  have lastValid := bandsValid last (by simp)
  have tall := valid.tall
  have lastTall := lastValid.tall
  rw [pushBand_concat]
  split
  next agree =>
    refine ⟨⟨?_, ?_⟩, ?_⟩
    · refine forall_mem_append.mpr ⟨(forall_mem_append.mp bandsValid).1, ?_⟩
      exact forall_mem_singleton.mpr ⟨by grind, lastValid.occupied, lastValid.separated⟩
    · simp only [pairwise_append, mem_singleton] at ordered ⊢
      grind
    · -- The extended band keeps its top and spans, which is all its upper
      -- neighbour is compared with.
      rw [Coalesced, isChain_append] at coalesced ⊢
      refine ⟨coalesced.1, isChain_singleton _, ?_⟩
      intro upper upperLast lower lowerHead
      simp only [head?_cons, Option.mem_def, Option.some.injEq] at lowerHead
      subst lower
      exact coalesced.2.2 upper upperLast last (by simp)
  next disagree =>
    refine ⟨⟨?_, ?_⟩, ?_⟩
    · exact forall_mem_append.mpr ⟨bandsValid, forall_mem_singleton.mpr valid⟩
    · refine pairwise_append.mpr ⟨ordered, pairwise_singleton _ _, fun upper member => ?_⟩
      exact forall_mem_singleton.mpr (above upper member)
    · rw [Coalesced, isChain_append]
      refine ⟨coalesced, isChain_singleton _, ?_⟩
      intro upper upperLast lower isNew
      simp only [getLast?_append, getLast?_singleton,
        Option.some_or, Option.mem_def, Option.some.injEq] at upperLast
      simp only [head?_cons, Option.mem_def, Option.some.injEq] at isNew
      subst upper lower
      exact fun touching same => disagree ⟨touching, same⟩

theorem bottom_le_of_mem_pushBand (new : Band α β) {bound : β}
    (bandsBound : ∀ band ∈ bands, band.bottom ≤ bound) (newBound : new.bottom ≤ bound) :
    ∀ band ∈ pushBand bands new, band.bottom ≤ bound := by
  unfold pushBand
  cases bands.getLast? with
  | none => simpa using newBound
  | some =>
    dsimp only
    split
    · refine forall_mem_append.mpr ⟨fun band inEarlier => ?_, forall_mem_singleton.mpr newBound⟩
      exact bandsBound band ((dropLast_sublist bands).subset inEarlier)
    · exact forall_mem_append.mpr ⟨bandsBound, forall_mem_singleton.mpr newBound⟩

/-- Push a strip unless it is empty. -/
def emitStrip (bands : List (Band α β)) (top bottom : β) (spans : List (Span α)) :
    List (Band α β) :=
  if spans = [] then bands else pushBand bands ⟨top, bottom, spans⟩

/--
The list under construction: canonical, and so far entirely above the line
`edge`.
-/
structure Built (bands : List (Band α β)) (edge : β) : Prop where
  canonical : Canonical bands
  above : ∀ band ∈ bands, band.bottom ≤ edge

theorem Built.emitStrip (built : Built bands edge) (below : edge ≤ top) (tall : top < bottom)
    {spans : List (Span α)} (separated : Separated spans) :
    Built (emitStrip bands top bottom spans) bottom := by
  have above : ∀ band ∈ bands, band.bottom ≤ top :=
    fun band member => le_trans (built.above band member) below
  have aboveBottom : ∀ band ∈ bands, band.bottom ≤ bottom :=
    fun band member => le_trans (above band member) (le_of_lt tall)
  unfold Banding.emitStrip
  split
  · exact ⟨built.canonical, aboveBottom⟩
  next occupied =>
    exact ⟨canonical_pushBand built.canonical ⟨tall, occupied, separated⟩ above,
      bottom_le_of_mem_pushBand _ aboveBottom (le_refl _)⟩

theorem inBands_emitStrip (stacked : Stacked bands) (tall : top < bottom) (spans : List (Span α))
    (x : α) (y : β) :
    InBands (emitStrip bands top bottom spans) x y ↔
      InBands bands x y ∨ ((top ≤ y ∧ y < bottom) ∧ Covers spans x) := by
  unfold emitStrip
  split
  next empty =>
    subst empty
    simp
  · exact inBands_pushBand stacked tall x y

theorem Built.mono {lower : β} (built : Built bands edge) (below : edge ≤ lower) :
    Built bands lower :=
  ⟨built.canonical, fun band member => le_trans (built.above band member) below⟩

/-- How a sweep treats strips met by both lists and by one list only. -/
structure SweepOp (α : Type*) where
  overlap : List (Span α) → List (Span α) → List (Span α)
  keepFirst : Bool
  keepSecond : Bool

/-- A sweep operation computes a pointwise combination of two sets. -/
structure SweepOp.Correct (op : SweepOp α) (combine : Prop → Prop → Prop) : Prop where
  separated :
    ∀ {first second}, Separated first → Separated second → Separated (op.overlap first second)
  covers : ∀ {first second}, Separated first → Separated second →
    ∀ x, Covers (op.overlap first second) x ↔ combine (Covers first x) (Covers second x)
  firstOnly : ∀ covered, combine covered False ↔ op.keepFirst = true ∧ covered
  secondOnly : ∀ covered, combine False covered ↔ op.keepSecond = true ∧ covered

/--
The strip above the next common row: it belongs to the list whose current
band starts first.
-/
def emitLone (op : SweepOp α) (done : List (Band α β)) (first second : Band α β) (edge : β) :
    List (Band α β) :=
  if first.top < second.top then
    if max first.top edge ≠ min first.bottom second.top ∧
        op.keepFirst = true then
      emitStrip done (max first.top edge) (min first.bottom second.top) first.spans
    else
      done
  else if second.top < first.top then
    if max second.top edge ≠ min second.bottom first.top ∧
        op.keepSecond = true then
      emitStrip done (max second.top edge) (min second.bottom first.top) second.spans
    else
      done
  else
    done

/-- One round of the sweep: the lone strip, then the common one. -/
def emitRound (op : SweepOp α) (done : List (Band α β)) (first second : Band α β) (edge : β) :
    List (Band α β) :=
  let lone := emitLone op done first second edge
  let top := max first.top second.top
  let bottom := min first.bottom second.bottom
  if top < bottom then
    emitStrip lone top bottom (op.overlap first.spans second.spans)
  else
    lone

/-- Append what is left of one list once the other is exhausted. -/
def emitRest (keep : Bool) (done rest : List (Band α β)) (edge : β) : List (Band α β) :=
  match rest with
  | [] => done
  | band :: later =>
    if keep = true then
      pushBand done ⟨max band.top edge, band.bottom, band.spans⟩ ++ later
    else
      done

/-- Sweep two band lists below `edge`, extending the bands already done. -/
def sweepBands (op : SweepOp α) (done : List (Band α β)) :
    List (Band α β) → List (Band α β) → β → List (Band α β)
  | [], second, edge => emitRest op.keepSecond done second edge
  | first :: firstRest, [], edge => emitRest op.keepFirst done (first :: firstRest) edge
  | first :: firstRest, second :: secondRest, edge =>
    let round := emitRound op done first second edge
    if first.bottom < second.bottom then
      sweepBands op round firstRest (second :: secondRest) first.bottom
    else if second.bottom < first.bottom then
      sweepBands op round (first :: firstRest) secondRest second.bottom
    else
      sweepBands op round firstRest secondRest first.bottom
  termination_by first second => first.length + second.length

/-- Two bands that both reach below the edge, at most one of which started above it. -/
structure Meets (first second : Band α β) (edge : β) : Prop where
  firstValid : first.Valid
  secondValid : second.Valid
  firstPending : edge < first.bottom
  secondPending : edge < second.bottom
  fresh : edge ≤ max first.top second.top

section Round

variable {combine : Prop → Prop → Prop} {op : SweepOp α} {done : List (Band α β)}
variable {first second : Band α β} {edge : β}

/-- The lone strip ends where the common row starts or a band ends. -/
theorem Built.emitLone (op : SweepOp α) (built : Built done edge)
    (meets : Meets first second edge) :
    Built (emitLone op done first second edge)
      (min (max first.top second.top) (min first.bottom second.bottom)) := by
  obtain ⟨firstValid, secondValid, firstPending, secondPending, fresh⟩ := meets
  have firstTall := firstValid.tall
  have secondTall := secondValid.tall
  have unchanged := built.mono (le_min fresh (le_of_lt (lt_min firstPending secondPending)))
  unfold Banding.emitLone
  split
  next before =>
    split
    next emitted =>
      refine (built.emitStrip (le_max_right _ _) ?_ firstValid.separated).mono ?_ <;> grind
    · exact unchanged
  · split
    next before =>
      split
      next emitted =>
        refine (built.emitStrip (le_max_right _ _) ?_ secondValid.separated).mono ?_ <;> grind
      · exact unchanged
    · exact unchanged

/-- The lone strip holds the combination above the next common row. -/
theorem inBands_emitLone (correct : op.Correct combine) (stacked : Stacked done)
    (meets : Meets first second edge) (x : α) (y : β) :
    InBands (emitLone op done first second edge) x y ↔
      InBands done x y ∨
        ((edge ≤ y ∧ y < min first.bottom second.bottom) ∧
          y < max first.top second.top ∧
          combine (first.Contains x y) (second.Contains x y)) := by
  obtain ⟨firstValid, secondValid, _, _, _⟩ := meets
  have firstTall := firstValid.tall
  have secondTall := secondValid.tall
  have misses {band : Band α β} (above : y < band.top) : ¬ band.Contains x y :=
    fun contains => not_lt_of_ge contains.1.1 above
  unfold emitLone
  rcases lt_trichotomy first.top second.top with firstFirst | same | secondFirst
  · -- Above the second band only the first list can contribute.
    have reduced (above : y < second.top) :
        combine (first.Contains x y) (second.Contains x y) ↔
          op.keepFirst = true ∧ first.Contains x y := by
      rw [← correct.firstOnly, iff_false_intro (misses above)]
    simp only [firstFirst, if_true]
    split
    next emitted =>
      rw [inBands_emitStrip stacked (by grind)]
      simp only [Band.Contains] at reduced ⊢
      grind
    · simp only [Band.Contains] at reduced ⊢
      grind
  · have neither (above : y < first.top) :
        ¬ combine (first.Contains x y) (second.Contains x y) := by
      rw [iff_false_intro (misses above), iff_false_intro (misses (same ▸ above)),
        correct.firstOnly]
      exact fun kept => kept.2
    simp only [← same, lt_irrefl, if_false, max_self]
    tauto
  · rw [max_eq_left secondFirst.le]
    have reduced (above : y < first.top) :
        combine (first.Contains x y) (second.Contains x y) ↔
          op.keepSecond = true ∧ second.Contains x y := by
      rw [← correct.secondOnly, iff_false_intro (misses above)]
    simp only [not_lt_of_gt secondFirst, secondFirst, if_true, if_false]
    split
    next emitted =>
      rw [inBands_emitStrip stacked (by grind)]
      simp only [Band.Contains] at reduced ⊢
      grind
    · simp only [Band.Contains] at reduced ⊢
      grind

theorem Built.emitRound (correct : op.Correct combine) (built : Built done edge)
    (meets : Meets first second edge) :
    Built (emitRound op done first second edge) (min first.bottom second.bottom) := by
  have lone := built.emitLone op meets
  unfold Banding.emitRound
  dsimp only
  split
  next overlapping =>
    exact (lone.mono (min_le_left _ _)).emitStrip (le_refl _) overlapping
      (correct.separated meets.firstValid.separated meets.secondValid.separated)
  next apart => exact lone.mono (min_le_right _ _)

/-- One round adds the combination between the old and the new edge. -/
theorem inBands_emitRound (correct : op.Correct combine) (built : Built done edge)
    (meets : Meets first second edge) (x : α) (y : β) :
    InBands (emitRound op done first second edge) x y ↔
      InBands done x y ∨
        ((edge ≤ y ∧ y < min first.bottom second.bottom) ∧
          combine (first.Contains x y) (second.Contains x y)) := by
  have lone := built.emitLone op meets
  have lonePoints := inBands_emitLone correct built.canonical.toStacked meets x y
  have fresh := meets.fresh
  -- At and below the common row both bands are present.
  have common : max first.top second.top ≤ y →
      y < min first.bottom second.bottom →
      (combine (first.Contains x y) (second.Contains x y) ↔
        Covers (op.overlap first.spans second.spans) x) := by
    intro _ _
    rw [correct.covers meets.firstValid.separated meets.secondValid.separated]
    have firstRow : first.Contains x y ↔ Covers first.spans x := by
      simp only [Band.Contains]
      grind
    have secondRow : second.Contains x y ↔ Covers second.spans x := by
      simp only [Band.Contains]
      grind
    rw [firstRow, secondRow]
  unfold emitRound
  dsimp only
  split
  next overlapping =>
    rw [inBands_emitStrip lone.canonical.toStacked overlapping]
    grind
  next apart =>
    grind

end Round

/--
The unfinished rest of one list completes the construction; only the rest can
hold touching bands that agree.
-/
theorem stacked_emitRest (keep : Bool) (built : Built done edge) (stacked : Stacked rest)
    (pending : ∀ band ∈ rest, edge < band.bottom) :
    Stacked (emitRest keep done rest edge) ∧
      (Coalesced rest → Coalesced (emitRest keep done rest edge)) := by
  cases rest with
  | nil => exact ⟨built.canonical.toStacked, fun _ => built.canonical.coalesced⟩
  | cons band =>
    unfold emitRest
    dsimp only
    split
    · obtain ⟨valid, below, laterStacked⟩ := stacked_cons.mp stacked
      have cutValid : Band.Valid (⟨max band.top edge, band.bottom, band.spans⟩ : Band α β) :=
        ⟨max_lt valid.tall (pending band (by simp)), valid.occupied, valid.separated⟩
      have aboveCut : ∀ upper ∈ done, upper.bottom ≤ max band.top edge :=
        fun upper member => le_trans (built.above upper member) (le_max_right _ _)
      have pushed := canonical_pushBand built.canonical cutValid aboveCut
      have pushedBound :=
        bottom_le_of_mem_pushBand
          ⟨max band.top edge, band.bottom, band.spans⟩
          (fun upper member => le_trans (aboveCut upper member) (le_of_lt cutValid.tall))
          (le_refl _)
      refine ⟨⟨?_, ?_⟩, ?_⟩
      · exact forall_mem_append.mpr ⟨pushed.valid, laterStacked.valid⟩
      · rw [pairwise_append]
        exact ⟨pushed.ordered, laterStacked.ordered,
          fun upper upperMember lower lowerMember =>
            le_trans (pushedBound upper upperMember) (below lower lowerMember)⟩
      · -- The pushed band ends like `band`, so its successor in the rest
        -- already differs from it.
        intro coalesced
        obtain ⟨_, top, shape⟩ :=
          pushBand_eq_concat done ⟨max band.top edge, band.bottom, band.spans⟩
        rw [Coalesced, isChain_cons] at coalesced
        rw [Coalesced, isChain_append]
        refine ⟨pushed.coalesced, coalesced.2, ?_⟩
        intro upper upperLast lower lowerHead
        rw [shape] at upperLast
        simp only [getLast?_append, getLast?_singleton,
          Option.some_or, Option.mem_def, Option.some.injEq] at upperLast
        subst upper
        exact coalesced.1 lower lowerHead
    · exact ⟨built.canonical.toStacked, fun _ => built.canonical.coalesced⟩

/-- The rest contributes its own points, if they are kept at all. -/
theorem inBands_emitRest {keep : Bool} (built : Built done edge) (stacked : Stacked rest)
    (pending : ∀ band ∈ rest, edge < band.bottom) (x : α) (y : β) :
    InBands (emitRest keep done rest edge) x y ↔
      InBands done x y ∨ (edge ≤ y ∧ keep = true ∧ InBands rest x y) := by
  cases rest with
  | nil => simp [emitRest]
  | cons band later =>
    have cutTall : max band.top edge < band.bottom :=
      max_lt (stacked.valid band (by simp)).tall (pending band (by simp))
    have belowEdge : InBands later x y → edge ≤ y := by
      intro inLater
      have := stacked.bottom_le_of_inBands_tail inLater
      order
    unfold emitRest
    dsimp only
    split
    · rw [inBands_append, inBands_pushBand built.canonical.toStacked cutTall, inBands_cons]
      simp only [Band.Contains]
      grind
    next notKept => simp [notKept]

theorem Stacked.pending_of_below (stacked : Stacked rest) (below : ∀ band ∈ rest, edge ≤ band.top) :
    ∀ band ∈ rest, edge < band.bottom :=
  fun band member => lt_of_le_of_lt (below band member) (stacked.valid band member).tall

theorem Stacked.pending_of_head {band : Band α β} (stacked : Stacked (band :: rest))
    (pending : edge < band.bottom) : ∀ lower ∈ band :: rest, edge < lower.bottom := by
  obtain ⟨-, below, restStacked⟩ := stacked_cons.mp stacked
  refine forall_mem_cons.mpr ⟨pending, fun lower inRest => ?_⟩
  exact lt_trans pending (restStacked.pending_of_below below lower inRest)

/-- The situation a sweep is in between two rounds. -/
structure SweepReady (done first second : List (Band α β)) (edge : β) : Prop where
  built : Built done edge
  firstStacked : Stacked first
  secondStacked : Stacked second
  firstPending : ∀ band ∈ first, edge < band.bottom
  secondPending : ∀ band ∈ second, edge < band.bottom
  fresh : (∀ band ∈ first, edge ≤ band.top) ∨ ∀ band ∈ second, edge ≤ band.top

namespace SweepReady

variable {op : SweepOp α} {combine : Prop → Prop → Prop}
  {done firstRest secondRest : List (Band α β)} {first second : Band α β} {edge : β}

variable (ready : SweepReady done (first :: firstRest) (second :: secondRest) edge)
include ready

theorem meets : Meets first second edge where
  firstValid := ready.firstStacked.valid first (by simp)
  secondValid := ready.secondStacked.valid second (by simp)
  firstPending := ready.firstPending first (by simp)
  secondPending := ready.secondPending second (by simp)
  fresh := by
    rcases ready.fresh with firstFresh | secondFresh
    · exact le_trans (firstFresh first (by simp)) (le_max_left _ _)
    · exact le_trans (secondFresh second (by simp)) (le_max_right _ _)

variable (correct : op.Correct combine)
include correct

theorem advanceFirst (firstEnds : first.bottom < second.bottom) :
    SweepReady (emitRound op done first second edge)
      firstRest (second :: secondRest) first.bottom := by
  obtain ⟨-, below, restStacked⟩ := stacked_cons.mp ready.firstStacked
  have roundBuilt := ready.built.emitRound correct ready.meets
  rw [min_eq_left (le_of_lt firstEnds)] at roundBuilt
  exact
    { built := roundBuilt
      firstStacked := restStacked
      secondStacked := ready.secondStacked
      firstPending := restStacked.pending_of_below below
      secondPending := ready.secondStacked.pending_of_head firstEnds
      fresh := Or.inl below }

theorem advanceSecond (secondEnds : second.bottom < first.bottom) :
    SweepReady (emitRound op done first second edge)
      (first :: firstRest) secondRest second.bottom := by
  obtain ⟨-, below, restStacked⟩ := stacked_cons.mp ready.secondStacked
  have roundBuilt := ready.built.emitRound correct ready.meets
  rw [min_eq_right (le_of_lt secondEnds)] at roundBuilt
  exact
    { built := roundBuilt
      firstStacked := ready.firstStacked
      secondStacked := restStacked
      firstPending := ready.firstStacked.pending_of_head secondEnds
      secondPending := restStacked.pending_of_below below
      fresh := Or.inr below }

theorem advanceBoth (together : first.bottom = second.bottom) :
    SweepReady (emitRound op done first second edge) firstRest secondRest first.bottom := by
  obtain ⟨-, firstBelow, firstStacked⟩ := stacked_cons.mp ready.firstStacked
  obtain ⟨-, secondBelow, secondStacked⟩ := stacked_cons.mp ready.secondStacked
  have roundBuilt := ready.built.emitRound correct ready.meets
  rw [min_eq_left (le_of_eq together)] at roundBuilt
  exact
    { built := roundBuilt
      firstStacked := firstStacked
      secondStacked := secondStacked
      firstPending := firstStacked.pending_of_below firstBelow
      secondPending := secondStacked.pending_of_below (together ▸ secondBelow)
      fresh := Or.inl firstBelow }

end SweepReady

theorem inBands_round_then {combine : Prop → Prop → Prop} (correct : op.Correct combine)
    {firstRest secondRest firstLeft secondLeft : List (Band α β)} {first second : Band α β}
    (ready : SweepReady done (first :: firstRest) (second :: secondRest) edge) {x : α} {y : β}
    (firstRow : min first.bottom second.bottom ≤ y →
      (InBands firstLeft x y ↔ InBands (first :: firstRest) x y))
    (secondRow : min first.bottom second.bottom ≤ y →
      (InBands secondLeft x y ↔ InBands (second :: secondRest) x y)) :
    InBands (emitRound op done first second edge) x y ∨
        (min first.bottom second.bottom ≤ y ∧
          combine (InBands firstLeft x y) (InBands secondLeft x y)) ↔
      InBands done x y ∨
        (edge ≤ y ∧
          combine (InBands (first :: firstRest) x y) (InBands (second :: secondRest) x y)) := by
  have meets := ready.meets
  rw [inBands_emitRound correct ready.built meets]
  by_cases below : min first.bottom second.bottom ≤ y
  · have belowEdge : edge ≤ y :=
      le_trans (le_of_lt (lt_min meets.firstPending meets.secondPending)) below
    have notAbove : ¬ y < min first.bottom second.bottom := not_lt.mpr below
    rw [firstRow below, secondRow below]
    simp [below, belowEdge, notAbove]
  · -- Above the new edge a row is decided by the two current bands.
    have above := not_le.mp below
    rw [ready.firstStacked.inBands_above_bottom (lt_of_lt_of_le above (min_le_left _ _)),
      ready.secondStacked.inBands_above_bottom (lt_of_lt_of_le above (min_le_right _ _))]
    simp [below, above]

variable {op : SweepOp α} {combine : Prop → Prop → Prop}

/-- The sweep contains the combination of both point sets below its edge. -/
theorem inBands_sweepBands (correct : op.Correct combine)
    (ready : SweepReady done first second edge) (x : α) (y : β) :
    InBands (sweepBands op done first second edge) x y ↔
      InBands done x y ∨ (edge ≤ y ∧ combine (InBands first x y) (InBands second x y)) := by
  fun_induction sweepBands op done first second edge with
  | case1 =>
    rw [inBands_emitRest ready.built ready.secondStacked ready.secondPending,
      iff_false_intro (inBands_nil x y), correct.secondOnly]
  | case2 =>
    rw [inBands_emitRest ready.built ready.firstStacked ready.firstPending,
      iff_false_intro (inBands_nil x y), correct.firstOnly]
  | case3 _ _ _ _ _ _ _ firstEnds ih =>
    rw [ih (ready.advanceFirst correct firstEnds)]
    have bottom := min_eq_left (le_of_lt firstEnds)
    rw [← bottom]
    apply inBands_round_then correct ready
    · intro below
      exact (Stacked.inBands_tail_row (bottom ▸ below) x).symm
    · exact fun _ => Iff.rfl
  | case4 _ _ _ _ _ _ _ _ secondEnds ih =>
    rw [ih (ready.advanceSecond correct secondEnds)]
    have bottom := min_eq_right (le_of_lt secondEnds)
    rw [← bottom]
    apply inBands_round_then correct ready
    · exact fun _ => Iff.rfl
    · intro below
      exact (Stacked.inBands_tail_row (bottom ▸ below) x).symm
  | case5 _ first _ second _ _ _ _ _ ih =>
    have together : first.bottom = second.bottom := by order
    rw [ih (ready.advanceBoth correct together)]
    have bottom := min_eq_left (le_of_eq together)
    rw [← bottom]
    apply inBands_round_then correct ready
    · intro below
      exact (Stacked.inBands_tail_row (bottom ▸ below) x).symm
    · intro below
      exact (Stacked.inBands_tail_row (together ▸ bottom ▸ below) x).symm

theorem stacked_sweepBands (correct : op.Correct combine)
    (ready : SweepReady done first second edge) :
    Stacked (sweepBands op done first second edge) ∧
      (Coalesced first → Coalesced second → Coalesced (sweepBands op done first second edge)) := by
  fun_induction sweepBands op done first second edge with
  | case1 =>
    obtain ⟨stacked, coalesced⟩ :=
      stacked_emitRest op.keepSecond ready.built ready.secondStacked ready.secondPending
    exact ⟨stacked, fun _ => coalesced⟩
  | case2 =>
    obtain ⟨stacked, coalesced⟩ :=
      stacked_emitRest op.keepFirst ready.built ready.firstStacked ready.firstPending
    exact ⟨stacked, fun firstCoalesced _ => coalesced firstCoalesced⟩
  | case3 _ _ _ _ _ _ _ firstEnds ih =>
    obtain ⟨stacked, coalesced⟩ := ih (ready.advanceFirst correct firstEnds)
    exact ⟨stacked, fun firstCoalesced secondCoalesced =>
      coalesced firstCoalesced.tail secondCoalesced⟩
  | case4 _ _ _ _ _ _ _ _ secondEnds ih =>
    obtain ⟨stacked, coalesced⟩ := ih (ready.advanceSecond correct secondEnds)
    exact ⟨stacked, fun firstCoalesced secondCoalesced =>
      coalesced firstCoalesced secondCoalesced.tail⟩
  | case5 _ first _ second _ _ _ _ _ ih =>
    have together : first.bottom = second.bottom := by order
    obtain ⟨stacked, coalesced⟩ := ih (ready.advanceBoth correct together)
    exact ⟨stacked, fun firstCoalesced secondCoalesced =>
      coalesced firstCoalesced.tail secondCoalesced.tail⟩

theorem coalesced_sweepBands_self (correct : op.Correct combine)
    (ready : SweepReady done bands bands edge) :
    Coalesced (sweepBands op done bands bands edge) := by
  induction bands generalizing done edge with
  | nil =>
    rw [sweepBands]
    exact ready.built.canonical.coalesced
  | cons _ _ ih =>
    rw [sweepBands]
    simp only [lt_irrefl, if_false]
    exact ih (ready.advanceBoth correct rfl)

variable (firstStacked : Stacked first) (secondStacked : Stacked second)
  (firstFresh : ∀ band ∈ first, edge ≤ band.top) (secondFresh : ∀ band ∈ second, edge ≤ band.top)
include firstStacked secondStacked firstFresh secondFresh

theorem SweepReady.start : SweepReady [] first second edge where
  built := ⟨canonical_nil, by simp⟩
  firstStacked := firstStacked
  secondStacked := secondStacked
  firstPending := firstStacked.pending_of_below firstFresh
  secondPending := secondStacked.pending_of_below secondFresh
  fresh := Or.inl firstFresh

/-- A sweep from above both lists contains exactly the combination. -/
theorem inBands_sweepBands_start (correct : op.Correct combine) (x : α) (y : β) :
    InBands (sweepBands op [] first second edge) x y ↔
      combine (InBands first x y) (InBands second x y) := by
  rw [inBands_sweepBands correct
      (SweepReady.start firstStacked secondStacked firstFresh secondFresh),
    iff_false_intro (inBands_nil x y), false_or]
  constructor
  · exact fun combined => combined.2
  · intro combined
    refine ⟨?_, combined⟩
    -- A row above both lists is empty in both, hence in the combination.
    by_contra above
    have misses {bands : List (Band α β)} (fresh : ∀ band ∈ bands, edge ≤ band.top) :
        ¬ InBands bands x y := by
      rintro ⟨band, member, contains⟩
      exact above (le_trans (fresh band member) contains.1.1)
    rw [iff_false_intro (misses firstFresh), iff_false_intro (misses secondFresh),
      correct.firstOnly] at combined
    exact combined.2

omit firstStacked secondStacked firstFresh secondFresh

/-- Rows met by both lists are intersected, all others are dropped. -/
def intersectOp : SweepOp α where
  overlap := intersectSpans
  keepFirst := false
  keepSecond := false

/-- Rows met by both lists are united, all others are kept. -/
def uniteOp : SweepOp α where
  overlap := uniteSpans
  keepFirst := true
  keepSecond := true

/-- The rows of the second list are subtracted from those of the first. -/
def subtractOp : SweepOp α where
  overlap := subtractSpans
  keepFirst := true
  keepSecond := false

theorem intersectOp_correct : (intersectOp : SweepOp α).Correct And where
  separated := separated_intersectSpans
  covers := covers_intersectSpans
  firstOnly := by simp [intersectOp]
  secondOnly := by simp [intersectOp]

theorem uniteOp_correct : (uniteOp : SweepOp α).Correct Or where
  separated := separated_uniteSpans
  covers := covers_uniteSpans
  firstOnly := by simp [uniteOp]
  secondOnly := by simp [uniteOp]

theorem subtractOp_correct :
    (subtractOp : SweepOp α).Correct fun first second => first ∧ ¬ second where
  separated := separated_subtractSpans
  covers := covers_subtractSpans
  firstOnly := by simp [subtractOp]
  secondOnly := by simp [subtractOp]

end Winex.Banding
