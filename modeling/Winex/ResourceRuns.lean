import Winex.ResourceInvariant

namespace Winex.Resource

open Function (update update_comm update_idem)
open Interleaving BitVec

/-!
# Runs of a resource

In every run of up to 65535 threads in which `iNumberActive` does not overflow, a writer
holds the resource alone, `iNumberActive` is what the threads hold, and no waiter is
forgotten.  It overflows when the holds come to `2 ^ 31`: a writer that nests deeper is
taken for readers.
-/

variable {Thread : Type} [Fintype Thread]

/-- The local states added up. -/
def totals (locals : Thread → Local) : Totals where
  exclusive := tally Local.exclusive locals
  shared := tally Local.shared locals
  granted := tally (fun loc => loc.stage.granted) locals
  waitsShared := tally (fun loc => loc.stage.waitsShared) locals
  waitsExclusive := tally (fun loc => loc.stage.waitsExclusive) locals
  trying := tally (fun loc => loc.stage.trying) locals

/-- `iNumberActive` does not overflow. -/
def Within (config : Config Thread RwLock Local) : Prop :=
  (totals config.locals).exclusive + readers config.shared (totals config.locals) < 2 ^ 31

instance (config : Config Thread RwLock Local) : Decidable (Within config) :=
  inferInstanceAs (Decidable (_ < _))

/-- The invariant. -/
structure Sound (ids : ThreadIds Thread) (config : Config Thread RwLock Local) : Prop where
  balanced : Balanced config.shared (totals config.locals)
  owner :
    ∀ thread, 0 < (config.locals thread).exclusive → config.shared.hOwningThreadId = ids.id thread
  holding : ∀ thread, (config.locals thread).stage = .releaseResource → (config.locals thread).Holds

theorem sound_initial (ids : ThreadIds Thread) : Sound ids (initial Thread) := by
  have zeros : ∀ measure : Local → Nat,
      measure ⟨0, 0, .outside⟩ = 0 → tally measure (initial Thread).locals = 0 :=
    fun measure zero => tally_eq_zero_iff.mpr fun _ => zero
  have start : totals (initial Thread).locals = ⟨0, 0, 0, 0, 0, 0⟩ := by
    simp only [totals]
    rw [zeros _ rfl, zeros _ rfl, zeros _ rfl, zeros _ rfl, zeros _ rfl, zeros _ rfl]
  refine ⟨?_, fun _ deep => absurd deep (Nat.lt_irrefl 0), ?_⟩
  · rw [start]
    change Balanced initialRwLock ⟨0, 0, 0, 0, 0, 0⟩
    constructor <;> decide
  · intro _ stage
    exact absurd stage (by simp [initial])

section Steps

variable {ids : ThreadIds Thread} {config : Config Thread RwLock Local}

theorem fits_of_within (few : Fintype.card Thread ≤ maxTokens) (within : Within config) :
    Fits config.shared (totals config.locals) := by
  have readerOnce : ∀ loc : Local, loc.stage.waitsShared ≤ 1 := by
    intro loc
    cases loc.stage <;> simp
  have writerOnce : ∀ loc : Local, loc.stage.waitsExclusive ≤ 1 := by
    intro loc
    cases loc.stage <;> simp
  exact ⟨within, (tally_le_card readerOnce _).trans few, (tally_le_card writerOnce _).trans few⟩

theorem exclusive_pos {thread : Thread} (deep : 0 < (config.locals thread).exclusive) :
    0 < (totals config.locals).exclusive :=
  deep.trans_le (le_tally Local.exclusive config.locals thread)

variable (sound : Sound ids config)
include sound

variable [DecidableEq Thread] {thread : Thread}

omit sound in
theorem totals_moved (locals : Thread → Local) (thread : Thread) (loc : Local) :
    (totals locals).Moved (totals (update locals thread loc)) (locals thread) loc where
  exclusive := tally_update _ locals thread loc
  shared := tally_update _ locals thread loc
  granted := tally_update (fun loc => loc.stage.granted) locals thread loc
  waitsShared := tally_update (fun loc => loc.stage.waitsShared) locals thread loc
  waitsExclusive := tally_update (fun loc => loc.stage.waitsExclusive) locals thread loc
  trying := tally_update (fun loc => loc.stage.trying) locals thread loc

variable {rwl : RwLock} {loc : Local} {choice : Call}

/-- A step is sound if the numbers are, and the writer still stands there. -/
theorem Sound.moved
    (balanced : (totals config.locals).Moved
        (totals (update config.locals thread loc))
        (config.locals thread) loc →
      Balanced rwl (totals (update config.locals thread loc)))
    (owner : 0 < loc.exclusive → rwl.hOwningThreadId = ids.id thread)
    (others : rwl.hOwningThreadId = config.shared.hOwningThreadId ∨
      ∀ other, other ≠ thread → (config.locals other).exclusive = 0 := by exact .inl rfl)
    (holding : loc.stage = .releaseResource → loc.Holds := by simp) :
    Sound ids (config.moved thread rwl loc) := by
  refine ⟨balanced (totals_moved _ _ _), ?_, ?_⟩
  · refine forall_moved
      (P := fun other (loc : Local) => 0 < loc.exclusive → _ = ids.id other)
      owner fun other different deep => ?_
    rcases others with same | none
    · rw [moved_shared, same]
      exact sound.owner other deep
    · exact absurd (none other different) deep.ne'
  · exact forall_moved
      (P := fun _ (loc : Local) => loc.stage = .releaseResource → loc.Holds)
      holding fun other _ => sound.holding other

variable {fWait : Bool}

theorem sound_queueExclusive (taken :
      ¬ ((totals config.locals).exclusive = 0 ∧ readers config.shared (totals config.locals) = 0))
    (stage : (config.locals thread).stage = .acquireExclusive fWait) {rwl : RwLock} {loc : Local}
    (moved : (match queueExclusive fWait config.shared with
        | (after, .acquired) => some (after, (config.locals thread).addExclusive)
        | (after, .refused) => some (after, (config.locals thread).goTo .outside)
        | (after, .queued) => some (after, (config.locals thread).goTo .waitExclusive)) =
        some (rwl, loc)) : Sound ids (config.moved thread rwl loc) := by
  cases fWait with
  | true =>
    cases moved
    exact sound.moved (sound.balanced.queueWriter taken stage) (sound.owner thread)
  | false =>
    cases moved
    exact sound.moved (sound.balanced.refuse (.inl stage)) (sound.owner thread)

variable (fits : Fits config.shared (totals config.locals))
include fits

/-- `RtlAcquireResourceExclusive` -/
theorem sound_acquireExclusive (stage : (config.locals thread).stage = .acquireExclusive fWait)
    (moved : advance ids thread choice config.shared (config.locals thread) = some (rwl, loc)) :
    Sound ids (config.moved thread rwl loc) := by
  have freeIff := sound.balanced.active_eq_zero_iff fits
  have writerIff := sound.balanced.active_neg_iff fits
  simp only [advance, stage, acquireExclusive] at moved
  by_cases free : config.shared.iNumberActive = 0
  · rw [if_pos free] at moved
    cases moved
    have unheld := freeIff.mp free
    refine sound.moved
      (fun moved => sound.balanced.takeExclusive unheld stage moved _)
      (fun _ => rfl) (.inr fun other _ => ?_)
    exact tally_eq_zero_iff.mp unheld.1 other
  · rw [if_neg free] at moved
    by_cases writer : config.shared.iNumberActive.toInt < 0
    · rw [if_pos writer] at moved
      by_cases own : config.shared.hOwningThreadId = ids.id thread
      · rw [if_pos own] at moved
        cases moved
        exact sound.moved (sound.balanced.nest (writerIff.mp writer) (.inl stage)) (fun _ => own)
      · rw [if_neg own] at moved
        exact sound_queueExclusive sound (freeIff.not.mp free) stage moved
    · rw [if_neg writer] at moved
      exact sound_queueExclusive sound (freeIff.not.mp free) stage moved

/-- `RtlAcquireResourceShared` -/
theorem sound_acquireShared {woken : Bool}
    (stage : (config.locals thread).stage = .acquireShared fWait woken)
    (moved : advance ids thread choice config.shared (config.locals thread) = some (rwl, loc)) :
    Sound ids (config.moved thread rwl loc) := by
  have writerIff := sound.balanced.active_neg_iff fits
  simp only [advance, stage, acquireShared] at moved
  by_cases writer : config.shared.iNumberActive.toInt < 0
  · have deep := writerIff.mp writer
    simp only [if_pos writer] at moved
    by_cases own : config.shared.hOwningThreadId = ids.id thread
    · rw [if_pos own] at moved
      cases moved
      exact sound.moved (sound.balanced.nest deep (.inr ⟨woken, stage⟩)) (fun _ => own)
    rw [if_neg own] at moved
    cases fWait with
    | true =>
      cases moved
      exact sound.moved (sound.balanced.queueReader deep stage) (sound.owner thread)
    | false =>
      cases moved
      cases woken with
      | false =>
        exact sound.moved (sound.balanced.refuse (.inr ⟨false, stage⟩)) (sound.owner thread)
      | true =>
        -- a woken reader is counted, so no writer can be there
        have mine := le_tally (fun loc => loc.stage.granted) config.locals thread
        have oneMode := sound.balanced.oneMode
        rw [stage] at mine
        change 1 ≤ (totals config.locals).granted at mine
        unfold readers at oneMode
        omega
  · have noWriter : (totals config.locals).exclusive = 0 := by omega
    simp only [if_neg writer] at moved
    cases woken with
    | true =>
      cases moved
      exact sound.moved (sound.balanced.returnGranted stage) (sound.owner thread)
    | false =>
      cases moved
      exact sound.moved (sound.balanced.takeShared noWriter stage) (sound.owner thread)

/-- `RtlReleaseResource` -/
theorem sound_releaseResource (stage : (config.locals thread).stage = .releaseResource) :
    Sound ids
      (config.moved thread (releaseResource config.shared) (config.locals thread).removeHold) := by
  have value := sound.balanced.toInt_active fits
  have oneMode := sound.balanced.oneMode
  have holds : 0 < _ + _ := sound.holding thread stage
  by_cases writer : 0 < (config.locals thread).exclusive
  · have deep := exclusive_pos writer
    have mine : (config.locals thread).exclusive ≤ (totals config.locals).exclusive :=
      le_tally Local.exclusive config.locals thread
    have owner := releaseWriter_owner config.shared
    rw [releaseResource, if_neg (by omega), if_pos (by omega), Local.removeHold, if_pos writer]
    by_cases last : config.shared.iNumberActive + 1 = 0
    · have minusOne : config.shared.iNumberActive = -1 := by bv_omega
      have signed : (-1 : BitVec 32).toInt = -1 := by decide
      rw [minusOne, signed] at value
      have one : tally Local.exclusive config.locals ≤ 1 := by
        change (totals config.locals).exclusive ≤ 1
        omega
      refine sound.moved (sound.balanced.releaseWriter fits stage writer)
        (fun still => ?_) (.inr fun other different => ?_)
      · dsimp only at still
        omega
      · exact Nat.eq_zero_of_not_pos fun deep => different (eq_of_tally_le_one one deep writer)
    · rw [if_neg last] at owner
      exact sound.moved (sound.balanced.releaseWriter fits stage writer)
        (fun _ => owner.trans (sound.owner thread writer)) (.inl owner)
  · have mine := le_tally Local.shared config.locals thread
    have sum : (config.locals thread).shared ≤ (totals config.locals).shared := mine
    have noWriter : (totals config.locals).exclusive = 0 := by
      unfold readers at oneMode
      omega
    have reader : 0 < (config.locals thread).shared := by omega
    have active : 0 < config.shared.iNumberActive.toInt := by
      unfold readers at value
      omega
    rw [releaseResource, if_pos active, Local.removeHold, if_neg writer]
    exact sound.moved (sound.balanced.releaseReader fits noWriter stage reader)
      (fun deep => absurd deep writer) (.inl (releaseReader_owner _))

/-- Every step keeps the invariant. -/
theorem sound_advance
    (moved : advance ids thread choice config.shared (config.locals thread) = some (rwl, loc)) :
    Sound ids (config.moved thread rwl loc) := by
  cases stage : (config.locals thread).stage with
  | outside =>
    simp only [advance, stage, Option.map_eq_some_iff] at moved
    obtain ⟨next, called, same⟩ := moved
    cases same
    obtain ⟨sameExclusive, -, -, -, -, holding⟩ := call_spec called
    exact sound.moved (sound.balanced.call stage called)
      (sameExclusive ▸ sound.owner thread) (.inl rfl) holding
  | acquireExclusive => exact sound_acquireExclusive sound fits stage moved
  | waitExclusive =>
    simp only [advance, stage] at moved
    split at moved
    next signalled =>
      cases moved
      exact sound.moved (sound.balanced.wakeWriter signalled stage) (sound.owner thread)
    · cases moved
  | acquireShared => exact sound_acquireShared sound fits stage moved
  | waitShared =>
    simp only [advance, stage] at moved
    split at moved
    next signalled =>
      cases moved
      exact sound.moved (sound.balanced.wakeReader signalled stage) (sound.owner thread)
    · cases moved
  | releaseResource =>
    simp only [advance, stage] at moved
    cases moved
    exact sound_releaseResource sound fits stage

end Steps

/-! ## The runs -/

variable [DecidableEq Thread]

theorem sound_of_reached {ids : ThreadIds Thread} {config : Config Thread RwLock Local}
    (few : Fintype.card Thread ≤ maxTokens)
    (reached : Reached (advance ids) Within (initial Thread) config) : Sound ids config :=
  reached.invariant (sound_initial ids)
    fun _ _ _ _ _ sound within moved => sound_advance sound (fits_of_within few within) moved

section Exclusion

variable {ids : ThreadIds Thread} {config : Config Thread RwLock Local}

/--
A writer holds the resource alone, and `iNumberActive` is the number of holds
of readers, granted ones included, or minus the depth of the writer.
-/
theorem resource_exclusive (few : Fintype.card Thread ≤ 65535)
    (reached : Reached (advance ids) Within (initial Thread) config) (within : Within config) :
    (∀ thread, 0 < (config.locals thread).exclusive →
          (∀ other, other ≠ thread → ¬ (config.locals other).Holds) ∧
            config.shared.iNumberActive.toInt = -((config.locals thread).exclusive : Int)) ∧
      ((∀ thread, (config.locals thread).exclusive = 0) →
        config.shared.iNumberActive.toInt =
          tally Local.shared config.locals + config.shared.sharedTokens +
            tally (fun loc => loc.stage.granted) config.locals) := by
  have sound := sound_of_reached few reached
  have fits := fits_of_within few within
  have value := sound.balanced.toInt_active fits
  have oneMode := sound.balanced.oneMode
  refine ⟨fun thread writer => ?_, fun noWriter => ?_⟩
  · have deep := exclusive_pos writer
    have noReader : readers config.shared (totals config.locals) = 0 := by omega
    have alone : ∀ other, other ≠ thread → (config.locals other).exclusive = 0 := by
      refine fun other different => Nat.eq_zero_of_not_pos fun deepToo => ?_
      exact different (ids.distinct
        ((sound.owner other deepToo).symm.trans (sound.owner thread writer)))
    have sum : (totals config.locals).exclusive = (config.locals thread).exclusive :=
      Finset.sum_eq_single thread (fun other _ => alone other) (by simp)
    refine ⟨fun other different holds => ?_, by omega⟩
    have unread : (config.locals other).shared ≤ (totals config.locals).shared :=
      le_tally Local.shared config.locals other
    have flat := alone other different
    unfold Local.Holds at holds
    unfold readers at noReader
    omega
  · have free : (totals config.locals).exclusive = 0 := tally_eq_zero_iff.mpr noWriter
    rw [value, free]
    simp only [readers, totals]
    omega

/-- One of two threads is the writer. -/
theorem resource_exclusive_writer :
    ∃ config : Config (Fin 2) RwLock Local,
      Reached (advance (numbered 2 two_small)) Within (initial (Fin 2)) config ∧
        ¬ (config.locals 1).Holds ∧
        config.shared.iNumberActive.toInt = -((1 : Nat) : Int) := by
  obtain ⟨config, reached, within, inside⟩ :=
    (Reached.start : Reached (advance (numbered 2 two_small)) Within _ (initial _)).exists_of_run
      (List.flatten [times 2 0 (.acquireExclusive true), times 2 1 (.acquireShared true)])
      (fun config => Within config ∧ (config.locals 0).exclusive = 1) (by decide +kernel)
  have writer := (resource_exclusive (by decide) reached within).1 0
  rw [inside] at writer
  obtain ⟨alone, active⟩ := writer Nat.one_pos
  exact ⟨config, reached, alone 1 (by decide), active⟩

/--
No waiter is forgotten: where nobody holds the resource, no token is left and
nobody works inside, nobody is blocked.
-/
theorem resource_wakes (few : Fintype.card Thread ≤ 65535)
    (reached : Reached (advance ids) Within (initial Thread) config)
    (unheld : ∀ thread, ¬ (config.locals thread).Holds)
    (noExclusiveToken : config.shared.exclusiveTokens = 0)
    (noSharedToken : config.shared.sharedTokens = 0)
    (settled : ∀ thread, (config.locals thread).stage = .outside ∨
      (config.locals thread).stage = .waitExclusive ∨
      (config.locals thread).stage = .waitShared) :
    ∀ thread, (config.locals thread).stage = .outside := by
  obtain ⟨-, -, queueShared, queueExclusive, carriesShared,
    carriesExclusive⟩ := (sound_of_reached few reached).balanced
  have noWriter : (totals config.locals).exclusive = 0 :=
    tally_eq_zero_iff.mpr fun thread => by
      have free := unheld thread
      unfold Local.Holds at free
      omega
  have noReader : (totals config.locals).shared = 0 :=
    tally_eq_zero_iff.mpr fun thread => by
      have free := unheld thread
      unfold Local.Holds at free
      omega
  have noGrant : (totals config.locals).granted = 0 :=
    tally_eq_zero_iff.mpr fun thread => by
      rcases settled thread with stage | stage | stage <;> rw [stage] <;> rfl
  have noTry : (totals config.locals).trying = 0 :=
    tally_eq_zero_iff.mpr fun thread => by
      rcases settled thread with stage | stage | stage <;> rw [stage] <;> rfl
  have free : readers config.shared (totals config.locals) = 0 := by
    unfold readers
    omega
  have noExclusive : (totals config.locals).waitsExclusive = 0 := by omega
  have noShared : (totals config.locals).waitsShared = 0 := by omega
  intro thread
  have unqueued := tally_eq_zero_iff.mp noExclusive thread
  have unqueuedToo := tally_eq_zero_iff.mp noShared thread
  rcases settled thread with stage | stage | stage
  · exact stage
  · rw [stage] at unqueued
    exact absurd unqueued Nat.one_ne_zero
  · rw [stage] at unqueuedToo
    exact absurd unqueuedToo Nat.one_ne_zero

/-- A writer came and went, and with it the reader it woke. -/
theorem resource_wakes_reader :
    ∃ config : Config (Fin 2) RwLock Local,
      Reached (advance (numbered 2 two_small)) Within (initial (Fin 2)) config ∧
        config.shared.sharedTokens = 0 ∧
        ∀ thread, (config.locals thread).stage = .outside := by
  obtain ⟨config, reached, writer, reader, noExclusiveToken, noSharedToken⟩ :=
    (Reached.start : Reached (advance (numbered 2 two_small)) Within _ (initial _)).exists_of_run
      (List.flatten
        [times 2 0 (.acquireExclusive true), times 2 1 (.acquireShared true),
          times 2 0 .releaseResource, times 2 1 (.acquireShared true),
          times 2 1 .releaseResource])
      (fun config =>
        config.locals 0 = ⟨0, 0, .outside⟩ ∧
          config.locals 1 = ⟨0, 0, .outside⟩ ∧
          config.shared.exclusiveTokens = 0 ∧
          config.shared.sharedTokens = 0)
      (by decide +kernel)
  refine ⟨config, reached, noSharedToken,
    resource_wakes (by decide) reached ?_ noExclusiveToken noSharedToken ?_⟩
  · exact Fin.forall_fin_two.mpr ⟨by rw [writer]; decide, by rw [reader]; decide⟩
  · exact Fin.forall_fin_two.mpr ⟨.inl (by rw [writer]), .inl (by rw [reader])⟩

end Exclusion

/-! ## Overflow -/

section Overflow

/-- The first of two threads nests, and the second one never came. -/
def nested (count : Nat) : Config (Fin 2) RwLock Local where
  shared := ⟨-BitVec.ofNat 32 (count + 1), 0, 0, (numbered 2 two_small).id 0, 0, 0⟩
  locals := update (fun _ => ⟨0, 0, .outside⟩) 0 ⟨count + 1, 0, .outside⟩

theorem run_first :
    run (advance (numbered 2 two_small)) (fun _ => True) (initial (Fin 2))
        (List.replicate 2 (0, .acquireExclusive true)) =
      some (nested 0) := by
  simp [run, step, advance, call, acquireExclusive, initial, initialRwLock,
    nested, Config.moved, Local.goTo, Local.addExclusive]

variable {count : Nat}

theorem run_nested (small : count < 2 ^ 31) :
    run (advance (numbered 2 two_small)) (fun _ => True) (nested count)
        (List.replicate 2 (0, .acquireExclusive true)) =
      some (nested (count + 1)) := by
  have taken : ¬ BitVec.ofNat 32 (count + 1) = 0#32 := by bv_omega
  have writer : (-BitVec.ofNat 32 (count + 1)).toInt < 0 := by
    rw [toInt_eq_toNat_cond, toNat_neg, toNat_ofNat]
    omega
  have deeper : -BitVec.ofNat 32 (count + 1) - 1#32 = -BitVec.ofNat 32 (count + 1 + 1) := by
    bv_omega
  simp [run, step, advance, call, acquireExclusive, nested, Config.moved,
    Local.goTo, Local.addExclusive, taken, writer, deeper]

/-- A writer can nest up to `2 ^ 31 + 1` times. -/
theorem reached_nested (count : Nat) (small : count ≤ 2 ^ 31) :
    Reached (advance (numbered 2 two_small)) (fun _ => True) (initial (Fin 2)) (nested count) := by
  induction count with
  | zero => exact reached_of_run run_first
  | succ _ ih =>
    exact (ih (by omega)).trans (reached_of_run (run_nested small))

/--
The writer has nested until `iNumberActive` became positive, and gives its
levels back.  Meanwhile a reader waits.
-/
def unwound (count : Nat) : Config (Fin 2) RwLock Local where
  shared := ⟨BitVec.ofNat 32 count, 0, 1, (numbered 2 two_small).id 0, 0, 0⟩
  locals :=
    update (update (fun _ => ⟨0, 0, .outside⟩) 1 ⟨0, 0, .waitShared⟩) 0 ⟨count + 2, 0, .outside⟩

theorem run_turned :
    run (advance (numbered 2 two_small)) (fun _ => True)
        (nested (2 ^ 31 - 1))
        (List.replicate 2 (1, .acquireShared true) ++
          List.replicate 2 (0, .acquireExclusive true)) =
      some (unwound (2 ^ 31 - 1)) := by
  have order : ∀ (locals : Fin 2 → Local) (first second third : Local),
      update (update (update locals 0 first) 1 second) 0 third =
        update (update locals 1 second) 0 third := by
    intro _ _ _ _
    rw [update_comm (show (0 : Fin 2) ≠ 1 by decide), update_idem]
  simp [run, step, advance, call, acquireExclusive, acquireShared, nested,
    unwound, Config.moved, Local.goTo, Local.addExclusive, numbered, order]

theorem run_unwound (small : count + 1 < 2 ^ 31) :
    run (advance (numbered 2 two_small)) (fun _ => True) (unwound (count + 1))
        (List.replicate 2 (0, .releaseResource)) =
      some (unwound count) := by
  have reader : 0 < (BitVec.ofNat 32 (count + 1)).toInt := by
    rw [toInt_eq_toNat_cond, toNat_ofNat]
    omega
  have less : BitVec.ofNat 32 (count + 1) - 1#32 = BitVec.ofNat 32 count := by bv_omega
  simp [run, step, advance, call, releaseResource, releaseReader, unwound,
    Config.moved, Local.goTo, Local.removeHold, Local.Holds, reader, less]

theorem reached_unwound (count rest : Nat) (small : count + rest < 2 ^ 31) :
    Reached (advance (numbered 2 two_small)) (fun _ => True)
      (unwound (count + rest)) (unwound rest) := by
  induction count with
  | zero =>
    rw [Nat.zero_add]
    exact .start
  | succ _ ih =>
    have shorter := ih (by omega)
    rw [Nat.succ_add] at small ⊢
    exact (reached_of_run (run_unwound small)).trans shorter

/-- A writer that nests too deep is taken for readers, and a reader joins it. -/
theorem resource_reader_joins_writer :
    ∃ config : Config (Fin 2) RwLock Local,
      Reached (advance (numbered 2 two_small)) (fun _ => True) (initial (Fin 2)) config ∧
        0 < (config.locals 0).exclusive ∧
        0 < (config.locals 1).shared :=
  (reached_nested (2 ^ 31) le_rfl).exists_of_run (times 2 1 (.acquireShared false)) _
    (by decide +kernel)

/--
The levels of a writer that nested too deep are given back like holds of
readers, and the last one does not wake the reader that waits.
-/
theorem resource_forgets_reader :
    ∃ config : Config (Fin 2) RwLock Local,
      Reached (advance (numbered 2 two_small)) (fun _ => True) (initial (Fin 2)) config ∧
        ((¬ (config.locals 0).Holds ∧ ¬ (config.locals 1).Holds) ∧
          config.shared.exclusiveTokens = 0 ∧
          config.shared.sharedTokens = 0 ∧
          (config.locals 0).stage = .outside ∧
          (config.locals 1).stage = .waitShared) := by
  have turned := (reached_nested (2 ^ 31 - 1) (by decide)).trans (reached_of_run run_turned)
  have unwinds : Reached _ _ (unwound (2 ^ 31 - 1)) (unwound 0) :=
    reached_unwound (2 ^ 31 - 1) 0 (by decide)
  exact (turned.trans unwinds).exists_of_run (times 4 0 .releaseResource) _ (by decide +kernel)

end Overflow

end Winex.Resource
