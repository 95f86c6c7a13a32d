import Winex.CriticalSection

namespace Winex.Section

open Function (update update_self)
open Interleaving Nat BitVec

/-!
# The invariant of a critical section

`LockCount + 1` is the number of increments not taken back.  As long as it is not 0,
exactly one baton is around: a thread that owns the section, a thread about to release
the semaphore, or a token.  `OwningThread` and `RecursionCount` are written by the owner
alone.
-/

variable {Thread : Type}

/-! ## What a stage says about the fields -/

/-- The thread has stored its identifier and not cleared it. -/
def Local.Named (loc : Local) : Prop :=
  match loc.stage with
  | .tryRecursion _ | .wokenRecursion => True
  | .leaveLower => False
  | _ => 0 < loc.depth

/-- The `RecursionCount` the owner left. -/
def Local.counted (loc : Local) : Option (BitVec 32) :=
  match loc.stage with
  | .enterOwner => some 1
  | .enterRecursion | .tryOwner _ | .tryRecursion _
  | .wokenOwner | .wokenRecursion => none
  | .leaveNested => some (BitVec.ofNat 32 (loc.depth - 1))
  | .leaveClear | .leaveLower => some 0
  | _ => if 0 < loc.depth then some (BitVec.ofNat 32 loc.depth) else none

/-- The depths and registers that go with a stage.  The spin loop never enters the section,
since the thread itself has raised `LockCount`; releasing the semaphore succeeds. -/
def Local.Shaped (loc : Local) : Prop :=
  match loc.stage with
  | .outside | .contested | .tryExchange .direct | .tryCompare .direct => True
  | .nestLoad | .tryRaise .direct | .tryNestLoad .direct => 0 < loc.depth
  | .nestStore count | .tryNestStore .direct count | .leaveStore count =>
    0 < loc.depth ∧ count = BitVec.ofNat 32 loc.depth
  | .leaveNested => 1 < loc.depth
  | .leaveClear | .leaveLower => loc.depth = 1
  | .tryOwner (.spinning _) | .tryRecursion (.spinning _)
  | .tryRaise (.spinning _) | .tryNestLoad (.spinning _)
  | .tryNestStore (.spinning _) _ | .raisedStatus => False
  | _ => loc.depth = 0

/-- The semaphore handles in a thread's registers. -/
def Local.Handled (loc : Local) (shared : Shared) : Prop :=
  match loc.stage with
  | .waiting sem | .unwait sem => sem = shared.crit.lockSemaphore ∧ sem ≠ 0
  | .semaphoreInstall _ sem => sem ≠ 0 ∧ sem ≤ shared.created
  | _ => True

/-- The fields of the section are what the stage of a thread says. -/
structure Fits (ident : BitVec 32) (shared : Shared) (loc : Local) : Prop where
  shaped : loc.Shaped
  named : shared.crit.owningThread = ident ↔ loc.Named
  counted : ∀ count ∈ loc.counted, shared.crit.recursionCount = count
  handled : loc.Handled shared

/-- The invariant. -/
structure Sound [Fintype Thread] (ids : ThreadIds Thread)
    (config : Config Thread Shared Local) : Prop where
  count : config.shared.crit.lockCount + 1 = BitVec.ofNat 32 (tally Local.raised config.locals)
  baton : tally Local.owner config.locals + tally Local.releaser config.locals +
    config.shared.tokens config.shared.crit.lockSemaphore =
    if tally Local.raised config.locals = 0 then 0 else 1
  idle : tally Local.owner config.locals = 0 → config.shared.crit.recursionCount = 0
  owning :
    config.shared.crit.owningThread = 0 ∨ ∃ thread, config.shared.crit.owningThread = ids.id thread
  fits : ∀ thread, Fits (ids.id thread) config.shared (config.locals thread)
  installed : config.shared.crit.lockSemaphore ≤ config.shared.created
  empty : ∀ sem, sem = 0 ∨ sem ≠ config.shared.crit.lockSemaphore → config.shared.tokens sem = 0

/-- `LockCount` has not overflowed. -/
def Within [Fintype Thread] (config : Config Thread Shared Local) : Prop :=
  tally Local.raised config.locals ≤ 2 ^ 31

instance [Fintype Thread] (config : Config Thread Shared Local) : Decidable (Within config) :=
  inferInstanceAs (Decidable (_ ≤ _))

theorem sound_initial [Fintype Thread] (ids : ThreadIds Thread) (spinCount : BitVec 32) :
    Sound ids (initial Thread spinCount) := by
  have noRaise : tally Local.raised (initial Thread spinCount).locals = 0 :=
    tally_eq_zero_iff.mpr fun _ => rfl
  have noOwner : tally Local.owner (initial Thread spinCount).locals = 0 :=
    tally_eq_zero_iff.mpr fun _ => rfl
  have noReleaser : tally Local.releaser (initial Thread spinCount).locals = 0 :=
    tally_eq_zero_iff.mpr fun _ => rfl
  refine ⟨?_, ?_, fun _ => rfl, .inl rfl, fun thread => ?_, le_rfl, fun _ _ => rfl⟩
  · rw [noRaise]
    change (-1 : BitVec 32) + 1 = BitVec.ofNat 32 0
    decide
  · rw [noRaise, noOwner, noReleaser]
    rfl
  · refine ⟨trivial, ?_, fun count member => ?_, trivial⟩
    · exact iff_of_false (ids.nonzero thread).symm (lt_irrefl 0)
    · exact absurd member (by simp [Local.counted, initial])

/-! ## One owner -/

variable {loc : Local}

theorem owner_pos_iff : 0 < loc.owner ↔ loc.Owns := by
  unfold Local.owner
  split
  next owns => exact iff_of_true one_pos owns
  next free => exact iff_of_false (lt_irrefl 0) free

theorem owner_of_owns (owns : loc.Owns) : loc.owner = 1 :=
  if_pos owns

theorem owner_of_not_owns (free : ¬ loc.Owns) : loc.owner = 0 :=
  if_neg free

theorem Local.Named.owns (named : loc.Named) : loc.Owns := by
  unfold Local.Named at named
  split at named
  next stage => exact .inr (by rw [stage]; rfl)
  next stage => exact .inr (by rw [stage]; rfl)
  · exact named.elim
  · exact .inl named

theorem counted_eq_none (shaped : loc.Shaped) (free : ¬ loc.Owns) : loc.counted = none := by
  have flat : ¬ 0 < loc.depth := fun deep => free (.inl deep)
  unfold Local.counted
  split
  next stage => exact absurd (.inr (by rw [stage]; rfl)) free
  case h_7 stage =>
      simp only [Local.Shaped, stage] at shaped
      omega
  case h_8 stage =>
      simp only [Local.Shaped, stage] at shaped
      omega
  case h_9 stage =>
      simp only [Local.Shaped, stage] at shaped
      omega
  case h_10 => exact if_neg flat
  all_goals rfl

section Moves

variable [Fintype Thread] {ids : ThreadIds Thread} {config : Config Thread Shared Local}

namespace Sound

variable (sound : Sound ids config)
include sound

theorem unique {thread other : Thread} (owns : (config.locals thread).Owns)
    (ownsToo : (config.locals other).Owns) : thread = other := by
  refine eq_of_tally_le_one ?_ (owner_pos_iff.mpr owns) (owner_pos_iff.mpr ownsToo)
  have baton := sound.baton
  split at baton <;> omega

theorem owningThread_eq_zero (free : ∀ thread, ¬ (config.locals thread).Named) :
    config.shared.crit.owningThread = 0 := by
  rcases sound.owning with zero | ⟨thread, owner⟩
  · exact zero
  · exact absurd ((sound.fits thread).named.mp owner) (free thread)

theorem lockCount_eq_iff (within : Within config) :
    config.shared.crit.lockCount = -1 ↔ tally Local.raised config.locals = 0 := by
  have count := sound.count
  have bound : tally Local.raised config.locals ≤ 2 ^ 31 := within
  constructor
  · intro free
    rw [free] at count
    have zero := congrArg BitVec.toNat count
    simp only [toNat_ofNat] at zero
    have left : ((-1 : BitVec 32) + 1).toNat = 0 := by decide
    omega
  · intro zero
    bv_omega

/-- The counter read as a signed number. -/
theorem lockCount_toInt (within : Within config) :
    config.shared.crit.lockCount.toInt + 1 = tally Local.raised config.locals := by
  have count := sound.count
  have bound : tally Local.raised config.locals ≤ 2 ^ 31 := within
  have value := congrArg BitVec.toNat count
  simp only [toNat_ofNat, toNat_add] at value
  rw [toInt_eq_toNat_cond]
  have one : (1 : BitVec 32).toNat = 1 := rfl
  split <;> omega

end Sound

/-- What the stage of a thread says survives the steps of the others. -/
theorem Fits.others {ident : BitVec 32} {shared shared' : Shared} {loc : Local}
    (fits : Fits ident shared loc)
    (owner : shared'.crit.owningThread = ident ↔ shared.crit.owningThread = ident)
    (recursion : loc.counted = none ∨ shared'.crit.recursionCount = shared.crit.recursionCount)
    (semaphore :
      shared.crit.lockSemaphore = 0 ∨ shared'.crit.lockSemaphore = shared.crit.lockSemaphore)
    (created : shared.created ≤ shared'.created) : Fits ident shared' loc := by
  refine ⟨fits.shaped, owner.trans fits.named, fun count member => ?_, ?_⟩
  · rcases recursion with unsaid | same
    · rw [unsaid] at member
      exact absurd member (by simp)
    · rw [same]
      exact fits.counted count member
  · have handled := fits.handled
    unfold Local.Handled at handled ⊢
    split at handled
    case h_3 => exact ⟨handled.1, handled.2.trans created⟩
    case h_4 => trivial
    all_goals
      rcases semaphore with unset | same
      · exact absurd (handled.1.trans unset) handled.2
      · exact ⟨handled.1.trans same.symm, handled.2⟩

/-! ## The kinds of steps -/

/-- What a step on the counter or the semaphores does to the other fields. -/
structure Shared.Synced (shared shared' : Shared) : Prop where
  owningThread : shared'.crit.owningThread = shared.crit.owningThread
  recursionCount : shared'.crit.recursionCount = shared.crit.recursionCount
  lockSemaphore :
    shared.crit.lockSemaphore = 0 ∨ shared'.crit.lockSemaphore = shared.crit.lockSemaphore
  created : shared.created ≤ shared'.created
  installed : shared'.crit.lockSemaphore ≤ shared'.created
  empty : ∀ sem, sem = 0 ∨ sem ≠ shared'.crit.lockSemaphore → shared'.tokens sem = 0

variable [DecidableEq Thread] {thread : Thread} {shared' : Shared} {loc loc' : Local}
variable (sound : Sound ids config) (here : config.locals thread = loc)
include here

/-- The counts after a step of one thread. -/
theorem tallies (loc' : Local) :
    tally Local.raised (update config.locals thread loc') + loc.raised =
        tally Local.raised config.locals + loc'.raised ∧
      tally Local.owner (update config.locals thread loc') + loc.owner =
        tally Local.owner config.locals + loc'.owner ∧
      tally Local.releaser (update config.locals thread loc') + loc.releaser =
        tally Local.releaser config.locals + loc'.releaser := by
  subst here
  exact ⟨tally_update .., tally_update .., tally_update ..⟩

include sound

/-- A step that leaves the counter and the semaphores alone. -/
theorem Sound.keep (lockCount : shared'.crit.lockCount = config.shared.crit.lockCount)
    (lockSemaphore : shared'.crit.lockSemaphore = config.shared.crit.lockSemaphore)
    (tokens : shared'.tokens = config.shared.tokens)
    (created : shared'.created = config.shared.created) (raised : loc'.raised = loc.raised)
    (owner : loc'.owner = loc.owner) (releaser : loc'.releaser = loc.releaser)
    (fields : shared'.crit = config.shared.crit ∨
      loc.Owns ∧
        (shared'.crit.owningThread = config.shared.crit.owningThread ∨
          shared'.crit.owningThread = ids.id thread ∨
          shared'.crit.owningThread = 0)) (fits : Fits (ids.id thread) shared' loc') :
    Sound ids (config.moved thread shared' loc') := by
  obtain ⟨raises, owners, releasers⟩ := tallies here loc'
  subst here
  rw [raised, add_right_cancel_iff] at raises
  rw [owner, add_right_cancel_iff] at owners
  rw [releaser, add_right_cancel_iff] at releasers
  constructor
  case count =>
    simp only [Config.moved, lockCount, raises]
    exact sound.count
  case baton =>
    simp only [Config.moved, lockSemaphore, tokens, raises, owners, releasers]
    exact sound.baton
  case idle =>
    simp only [Config.moved, owners]
    intro noOwner
    rcases fields with same | ⟨owns, -⟩
    · rw [same]
      exact sound.idle noOwner
    · exact absurd (tally_eq_zero_iff.mp noOwner thread) (owner_pos_iff.mpr owns).ne'
  case owning =>
    rcases fields with same | ⟨owns, same | self | cleared⟩
    · rw [moved_shared, same]
      exact sound.owning
    · rw [moved_shared, same]
      exact sound.owning
    · exact .inr ⟨thread, self⟩
    · exact .inl cleared
  case fits =>
    refine forall_moved fits fun other different => ?_
    have before := sound.fits other
    rcases fields with same | ⟨owns, owning⟩
    · refine before.others (by rw [moved_shared, same])
        (.inr (by rw [moved_shared, same])) (.inr lockSemaphore) created.ge
    have free : ¬ (config.locals other).Owns :=
      fun ownsToo => different (sound.unique ownsToo owns)
    have elsewhere : config.shared.crit.owningThread ≠ ids.id other :=
      fun owner => free (before.named.mp owner).owns
    refine before.others (iff_of_false ?_ elsewhere)
      (.inl (counted_eq_none before.shaped free)) (.inr lockSemaphore)
      created.ge
    rw [moved_shared]
    rcases owning with same | self | cleared
    · rwa [same]
    · rw [self]
      exact fun equal => different (ids.distinct equal).symm
    · rw [cleared]
      exact (ids.nonzero other).symm
  case installed =>
    simp only [Config.moved, lockSemaphore, created]
    exact sound.installed
  case empty =>
    simp only [Config.moved, lockSemaphore, tokens]
    exact sound.empty

omit here in
/-- A step on the counter or the semaphores. -/
theorem Sound.sync (synced : config.shared.Synced shared')
    (count : shared'.crit.lockCount + 1 =
      BitVec.ofNat 32 (tally Local.raised (update config.locals thread loc')))
    (baton : tally Local.owner (update config.locals thread loc') +
          tally Local.releaser (update config.locals thread loc') +
          shared'.tokens shared'.crit.lockSemaphore =
        if tally Local.raised (update config.locals thread loc') = 0
        then 0 else 1)
    (idle : tally Local.owner (update config.locals thread loc') = 0 →
      config.shared.crit.recursionCount = 0) (fits : Fits (ids.id thread) shared' loc') :
    Sound ids (config.moved thread shared' loc') := by
  refine ⟨count, baton, ?_, ?_, ?_, synced.installed, synced.empty⟩
  · rw [moved_shared, synced.recursionCount]
    exact idle
  · rw [moved_shared, synced.owningThread]
    exact sound.owning
  · refine forall_moved fits fun other _ => ?_
    exact (sound.fits other).others (by rw [moved_shared, synced.owningThread])
      (.inr synced.recursionCount) synced.lockSemaphore synced.created

/-- The counter goes up, and the first one in has the section. -/
theorem Sound.raise (raised : loc'.raised = loc.raised + 1)
    (owner : loc'.owner = loc.owner + if tally Local.raised config.locals = 0 then 1 else 0)
    (releaser : loc'.releaser = loc.releaser)
    (fits :
      Fits (ids.id thread) (config.shared.setLockCount (config.shared.crit.lockCount + 1)) loc') :
    Sound ids
      (config.moved thread
        (config.shared.setLockCount (config.shared.crit.lockCount + 1))
        loc') := by
  obtain ⟨_, _, _⟩ := tallies here loc'
  have baton := sound.baton
  have raisedMore : tally Local.raised (update config.locals thread loc') =
      tally Local.raised config.locals + 1 := by omega
  refine sound.sync ⟨rfl, rfl, .inr rfl, le_rfl, sound.installed, sound.empty⟩ ?_ ?_ ?_ fits
  · rw [raisedMore, ofNat_add, ← sound.count]
    rfl
  · rw [raisedMore, if_neg (succ_ne_zero _)]
    change _ + config.shared.tokens config.shared.crit.lockSemaphore = 1
    split at owner <;> split at baton <;> omega
  · intro _
    exact sound.idle (by omega)

/-- The owner takes one of its increments back.  If it gives the section up with that, it
passes the baton on when it is wanted. -/
theorem Sound.lower (raised : loc'.raised + 1 = loc.raised) (owned : loc.owner = 1)
    (passed : loc'.owner + loc'.releaser =
      loc.releaser + if tally Local.raised config.locals = 1 then 0 else 1)
    (cleared : loc'.owner = 1 ∨ config.shared.crit.recursionCount = 0)
    (fits :
      Fits (ids.id thread) (config.shared.setLockCount (config.shared.crit.lockCount - 1)) loc') :
    Sound ids
      (config.moved thread
        (config.shared.setLockCount (config.shared.crit.lockCount - 1))
        loc') := by
  obtain ⟨_, _, _⟩ := tallies here loc'
  have baton := sound.baton
  have count := sound.count
  rw [if_neg (by omega)] at baton
  refine sound.sync ⟨rfl, rfl, .inr rfl, le_rfl, sound.installed, sound.empty⟩ ?_ ?_ ?_ fits
  · change config.shared.crit.lockCount - 1 + 1 = _
    bv_omega
  · change _ + config.shared.tokens config.shared.crit.lockSemaphore = _
    split at passed <;> split <;> omega
  · intro _
    rcases cleared with _ | cleared
    · exact sound.idle (by omega)
    · exact cleared

theorem Sound.semaphore (crit : shared'.crit.lockCount = config.shared.crit.lockCount)
    (synced : config.shared.Synced shared') (raised : loc'.raised = loc.raised)
    (balance : loc'.owner + loc'.releaser + shared'.tokens shared'.crit.lockSemaphore =
      loc.owner + loc.releaser + config.shared.tokens config.shared.crit.lockSemaphore)
    (kept : loc.owner ≤ loc'.owner) (fits : Fits (ids.id thread) shared' loc') :
    Sound ids (config.moved thread shared' loc') := by
  obtain ⟨raises, _, _⟩ := tallies here loc'
  rw [raised, add_right_cancel_iff] at raises
  refine sound.sync synced ?_ ?_ ?_ fits
  · rw [crit, raises]
    exact sound.count
  · rw [raises, ← sound.baton]
    omega
  · intro _
    exact sound.idle (by omega)

end Moves

end Winex.Section
