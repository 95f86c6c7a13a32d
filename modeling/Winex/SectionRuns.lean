import Winex.SectionSteps

namespace Winex.Section

open Interleaving

/-!
# Runs of a critical section

In every run in which `LockCount` does not overflow, at most one thread owns the
section, the fields of a section nobody works on are right, no wake-up is lost, and the
semaphore is never released twice.  A thread that enters `2 ^ 32` times brings
`LockCount` back to -1, and then the next thread is let in.
-/

variable {Thread : Type} [Fintype Thread] [DecidableEq Thread]

/-- Each thread is outside the functions or blocked in the wait. -/
def Quiet (config : Config Thread Shared Local) : Prop :=
  ∀ thread,
    (config.locals thread).stage = .outside ∨ ∃ sem, (config.locals thread).stage = .waiting sem

theorem sound_of_reached {ids : ThreadIds Thread} {spinCount : BitVec 32}
    {config : Config Thread Shared Local}
    (reached : Reached (advance ids) Within (initial Thread spinCount) config) : Sound ids config :=
  reached.invariant (sound_initial ids spinCount)
    fun _ _ _ _ _ sound within moved => sound_advance sound within moved

section Quiet

omit [DecidableEq Thread]

variable {ids : ThreadIds Thread} {config : Config Thread Shared Local}

omit [Fintype Thread] in
theorem Quiet.owns_iff (quiet : Quiet config) (thread : Thread) :
    (config.locals thread).Owns ↔ 0 < (config.locals thread).depth := by
  unfold Local.Owns
  rcases quiet thread with stage | ⟨sem, stage⟩ <;> rw [stage] <;> simp [Stage.acquired]

theorem Quiet.raised_eq (quiet : Quiet config) :
    tally Local.raised config.locals =
      tally Local.depth config.locals + tally Local.blocked config.locals := by
  refine (Finset.sum_congr rfl fun thread _ => ?_).trans Finset.sum_add_distrib
  unfold Local.raised Local.blocked
  rcases quiet thread with stage | ⟨sem, stage⟩ <;> rw [stage] <;> rfl

variable {thread : Thread}

theorem Sound.depth_eq (sound : Sound ids config) (owns : (config.locals thread).Owns) :
    tally Local.depth config.locals = (config.locals thread).depth := by
  refine Finset.sum_eq_single thread (fun other _ different => ?_) (by simp)
  refine Nat.eq_zero_of_not_pos fun deep => different ?_
  exact sound.unique (.inl deep) owns

theorem Sound.quiet_owner (sound : Sound ids config) (within : Within config) (quiet : Quiet config)
    (owns : (config.locals thread).Owns) :
    config.shared.crit.recursionCount.toNat = (config.locals thread).depth ∧
      config.shared.crit.owningThread = ids.id thread ∧
      config.shared.crit.lockCount.toInt + 1 =
        (config.locals thread).depth + tally Local.blocked config.locals := by
  have fits := sound.fits thread
  have deep := (quiet.owns_iff thread).mp owns
  have total := quiet.raised_eq
  rw [sound.depth_eq owns] at total
  have bound : tally Local.raised config.locals ≤ 2 ^ 31 := within
  have counter := sound.lockCount_toInt within
  have outside : (config.locals thread).stage = .outside := by
    rcases quiet thread with stage | ⟨_, stage⟩
    · exact stage
    · have flat := fits.shaped
      simp only [Local.Shaped, stage] at flat
      omega
  refine ⟨?_, fits.named.mpr ?_, by omega⟩
  · have counted : (config.locals thread).counted =
        some (BitVec.ofNat 32 (config.locals thread).depth) := by
      simp only [Local.counted, outside]
      exact if_pos deep
    rw [fits.counted _ counted, BitVec.toNat_ofNat]
    exact Nat.mod_eq_of_lt (by omega)
  · simp only [Local.Named, outside]
    exact deep

/-- The fields of a quiet section without an owner. -/
theorem Sound.quiet_free (sound : Sound ids config) (within : Within config) (quiet : Quiet config)
    (free : ∀ thread, ¬ (config.locals thread).Owns) :
    config.shared.crit.recursionCount = 0 ∧
      config.shared.crit.owningThread = 0 ∧
      config.shared.crit.lockCount.toInt + 1 = tally Local.blocked config.locals := by
  have total := quiet.raised_eq
  have flat : tally Local.depth config.locals = 0 :=
    tally_eq_zero_iff.mpr fun thread => Nat.eq_zero_of_not_pos fun deep => free thread (.inl deep)
  have counter := sound.lockCount_toInt within
  refine ⟨sound.idle ?_, ?_, by omega⟩
  · exact tally_eq_zero_iff.mpr fun thread => owner_of_not_owns (free thread)
  · exact sound.owningThread_eq_zero fun thread named => free thread named.owns

theorem Stage.raised_of_awaiting {stage : Stage} (awaiting : stage.awaiting = true) :
    stage.raised = 1 := by
  cases stage with
  | spinLoad | spin | waiting => rfl
  | tryExchange caller | tryCompare caller =>
    cases caller with
    | direct => cases awaiting
    | spinning => rfl
  | semaphoreLoad purpose | semaphoreCreate purpose
  | semaphoreInstall purpose =>
    cases purpose with
    | wait => rfl
    | unwait => cases awaiting
  | _ => cases awaiting

theorem Local.Awaits.raised_pos {loc : Local} (awaits : loc.Awaits) : 0 < loc.raised := by
  unfold Local.raised
  rcases awaits with awaiting | ⟨contested, -⟩
  · rw [Stage.raised_of_awaiting awaiting]
    exact Nat.succ_pos _
  · rw [contested]
    exact Nat.succ_pos _

theorem Sound.baton_around (sound : Sound ids config) (raised : 0 < (config.locals thread).raised) :
    (∃ other, (config.locals other).Owns) ∨
      0 < config.shared.tokens config.shared.crit.lockSemaphore ∨
      ∃ other, (config.locals other).stage.releasing = true := by
  have total := le_tally Local.raised config.locals thread
  have baton := sound.baton
  rw [if_neg (by omega)] at baton
  by_contra lost
  simp only [not_or, not_exists] at lost
  obtain ⟨noOwner, _, noReleaser⟩ := lost
  have owners : tally Local.owner config.locals = 0 :=
    tally_eq_zero_iff.mpr fun other => owner_of_not_owns (noOwner other)
  have releasers : tally Local.releaser config.locals = 0 :=
    tally_eq_zero_iff.mpr fun other => if_neg (noReleaser other)
  omega

end Quiet

/-! ## The runs -/

section Exclusion

variable {ids : ThreadIds Thread} {spinCount : BitVec 32} {config : Config Thread Shared Local}

/--
At most one thread owns the section, and while nobody works on it the fields
are the owner's depth and identifier and the number of levels and waiters.
-/
theorem section_exclusive (reached : Reached (advance ids) Within (initial Thread spinCount) config)
    (within : Within config) :
    (∀ thread other, (config.locals thread).Owns → (config.locals other).Owns → thread = other) ∧
      (Quiet config →
        (∀ thread, (config.locals thread).Owns →
              config.shared.crit.recursionCount.toNat = (config.locals thread).depth ∧
                config.shared.crit.owningThread = ids.id thread ∧
                config.shared.crit.lockCount.toInt + 1 =
                  (config.locals thread).depth + tally Local.blocked config.locals) ∧
          ((∀ thread, ¬ (config.locals thread).Owns) →
            config.shared.crit.recursionCount = 0 ∧
              config.shared.crit.owningThread = 0 ∧
              config.shared.crit.lockCount.toInt + 1 = tally Local.blocked config.locals)) := by
  have sound := sound_of_reached reached
  refine ⟨fun _ _ owns ownsToo => sound.unique owns ownsToo, fun quiet => ?_⟩
  exact ⟨fun _ owns => sound.quiet_owner within quiet owns, sound.quiet_free within quiet⟩

/-- One thread enters, and another one is blocked. -/
theorem exists_blocked :
    ∃ config : Config (Fin 2) Shared Local,
      Reached (advance (numbered 2 two_small)) Within (initial (Fin 2) 0) config ∧
        Within config ∧ config.locals 0 = ⟨1, .outside⟩ ∧ config.locals 1 = ⟨0, .waiting 1⟩ ∧
        tally Local.blocked config.locals = 1 :=
  Reached.start.exists_of_run (List.flatten [times 3 0 .enter, times 7 1 .enter]) _
    (by decide +kernel)

/-- One thread is inside and another one blocked. -/
theorem section_exclusive_blocked :
    ∃ config : Config (Fin 2) Shared Local,
      Reached (advance (numbered 2 two_small)) Within (initial (Fin 2) 0) config ∧
        (config.locals 0).Owns ∧
        Quiet config ∧
        config.shared.crit.lockCount.toInt + 1 = 1 + 1 := by
  obtain ⟨config, reached, within, inside, blocked, waiters⟩ := exists_blocked
  have owns : (config.locals 0).Owns := .inl (inside ▸ Nat.one_pos)
  have quiet : Quiet config :=
    Fin.forall_fin_two.mpr
      ⟨.inl (congrArg Local.stage inside), .inr ⟨1, congrArg Local.stage blocked⟩⟩
  have fields := ((section_exclusive reached within).2 quiet).1 0 owns
  refine ⟨config, reached, owns, quiet, ?_⟩
  rw [fields.2.2, inside, waiters]
  rfl

/--
No wake-up is lost, the semaphore never holds more than one token, and it can
be released whenever a thread is about to.
-/
theorem section_wakes (reached : Reached (advance ids) Within (initial Thread spinCount) config) :
    (∀ thread, (config.locals thread).Awaits →
          (∃ other, (config.locals other).Owns) ∨
            0 < config.shared.tokens config.shared.crit.lockSemaphore ∨
            ∃ other, (config.locals other).stage.releasing = true) ∧
      (∀ sem, config.shared.tokens sem ≤ 1) ∧
      (∀ thread sem,
        (config.locals thread).stage = .unwait sem → config.shared.tokens sem + 1 ≤ 1) ∧
      ∀ thread, (config.locals thread).stage ≠ .raisedStatus := by
  have sound := sound_of_reached reached
  refine ⟨fun _ awaits => sound.baton_around awaits.raised_pos, ?_, ?_, ?_⟩
  · intro sem
    by_cases installed : sem = config.shared.crit.lockSemaphore
    · have baton := sound.baton
      rw [installed]
      split at baton <;> omega
    · rw [sound.empty sem (.inr installed)]
      omega
  · intro thread sem stage
    have here : config.locals thread = ⟨(config.locals thread).depth, .unwait sem⟩ := by
      rw [← stage]
    rw [(sound_unwait sound here).1]
  · intro thread stage
    have shaped := (sound.fits thread).shaped
    simp only [Local.Shaped, stage] at shaped

/-- One thread is inside and another one waits for it to wake it up. -/
theorem section_wakes_blocked :
    ∃ config : Config (Fin 2) Shared Local,
      Reached (advance (numbered 2 two_small)) Within (initial (Fin 2) 0) config ∧
        (config.locals 1).Awaits ∧
        ((∃ other, (config.locals other).Owns) ∨
          0 < config.shared.tokens config.shared.crit.lockSemaphore ∨
          ∃ other, (config.locals other).stage.releasing = true) := by
  obtain ⟨config, reached, -, -, blocked, -⟩ := exists_blocked
  have awaits : (config.locals 1).Awaits := .inl (by rw [blocked]; rfl)
  exact ⟨config, reached, awaits, (section_wakes reached).1 1 awaits⟩

end Exclusion

/-! ## Overflow -/

section Overflow

omit [Fintype Thread]

variable (ids : ThreadIds Thread) (thread : Thread)

/-- A thread has entered `count + 1` times, and the others never. -/
def nested (count : Nat) : Config Thread Shared Local where
  shared :=
    ⟨⟨BitVec.ofNat 32 count, BitVec.ofNat 32 (count + 1), ids.id thread, 0, 0⟩, 0, fun _ => 0⟩
  locals := Function.update (fun _ => ⟨0, .outside⟩) thread ⟨count + 1, .outside⟩

theorem run_first :
    run (advance ids) (fun _ => True) (initial Thread 0)
        [(thread, .enter), (thread, .enter), (thread, .enter)] =
      some (nested ids thread 0) := by
  simp [run, step, advance, call, initial, initialSection, nested, Config.moved,
    Shared.setLockCount, Shared.setRecursionCount, Shared.setOwningThread, Shared.withSection]

variable {count : Nat}

theorem run_nested (small : count + 1 < 2 ^ 32) :
    run (advance ids) (fun _ => True) (nested ids thread count)
        [(thread, .enter), (thread, .enter), (thread, .enter), (thread, .enter)] =
      some (nested ids thread (count + 1)) := by
  have contested : ¬ BitVec.ofNat 32 count + 1#32 = 0#32 := by bv_omega
  simp [run, step, advance, call, nested, Config.moved, contested, Shared.setLockCount,
    Shared.setRecursionCount, Shared.withSection, BitVec.ofNat_add]

/-- A thread can enter up to `2 ^ 32` times. -/
theorem reached_nested (small : count < 2 ^ 32) :
    Reached (advance ids) (fun _ => True) (initial Thread 0) (nested ids thread count) := by
  induction count with
  | zero => exact reached_of_run (run_first ids thread)
  | succ _ ih =>
    exact (ih (by omega)).trans (reached_of_run (run_nested ids thread small))

end Overflow

/-- After `2 ^ 32` levels the counter is at -1 and lets another thread in. -/
theorem section_lets_second_owner_in :
    ∃ config : Config (Fin 2) Shared Local,
      Reached (advance (numbered 2 two_small)) (fun _ => True) (initial (Fin 2) 0) config ∧
        (config.locals 0).Owns ∧
        (config.locals 1).Owns :=
  (reached_nested (numbered 2 two_small) 0 (by decide : 2 ^ 32 - 1 < 2 ^ 32)).exists_of_run
    (times 3 1 .enter) _ (by decide +kernel)

theorem five_small : 5 < 2 ^ 32 := by decide

/-- The first thread is inside `2 ^ 32` times.  Two more are let in, and two contest.  Both
of the second pair leave and release the semaphore, the last one beyond its maximum. -/
theorem section_releases_twice :
    ∃ config : Config (Fin 5) Shared Local,
      Reached (advance (numbered 5 five_small)) (fun _ => True) (initial (Fin 5) 0) config ∧
        (config.locals 2).stage = .raisedStatus :=
  (reached_nested (numbered 5 five_small) 0 (by decide : 2 ^ 32 - 1 < 2 ^ 32)).exists_of_run
    (List.flatten
      [times 1 1 .enter, times 3 0 .leave, times 1 2 .enter,
        times 1 3 .enter, times 1 4 .enter, times 2 1 .enter,
        times 8 1 .leave, times 2 2 .enter, times 6 2 .leave])
    _ (by decide +kernel)

end Winex.Section
