import Winex.SectionInvariant

namespace Winex.Section

open Interleaving

/-!
# Every step of a critical section keeps the invariant

A stage that only loads, or that stores what it alone may store, changes no count; the
others move the counter, the baton or the semaphore.
-/

variable {Thread : Type} [Fintype Thread] [DecidableEq Thread] {ids : ThreadIds Thread}
variable {config : Config Thread Shared Local}
variable {thread : Thread} {depth : Nat} {ident : BitVec 32} {shared : Shared} {loc : Local}

variable {loc' : Local} {count : BitVec 32} {stage : Stage} {caller : Caller}

theorem Fits.stay (fits : Fits ident shared loc) (named : loc'.Named ↔ loc.Named)
    (counted : loc'.counted = loc.counted) (shaped : loc'.Shaped) (handled : loc'.Handled shared) :
    Fits ident shared loc' :=
  ⟨shaped, fits.named.trans named.symm, counted ▸ fits.counted, handled⟩

theorem Fits.counter (fits : Fits ident shared loc) (count : BitVec 32) :
    Fits ident (shared.setLockCount count) loc :=
  fits.others Iff.rfl (.inr rfl) (.inr rfl) le_rfl

theorem fits_entered (owner : shared.crit.owningThread = ident)
    (recursion : shared.crit.recursionCount = BitVec.ofNat 32 (depth + 1)) :
    Fits ident shared ⟨depth + 1, .outside⟩ := by
  refine ⟨trivial, iff_of_true owner (Nat.succ_pos depth), ?_, trivial⟩
  rintro _ ⟨⟩
  exact recursion

/-- The count of a thread inside, as `RecursionCount` has it. -/
theorem Fits.recursion (fits : Fits ident shared loc)
    (counted : loc.counted = some (BitVec.ofNat 32 loc.depth)) :
    shared.crit.recursionCount = BitVec.ofNat 32 loc.depth :=
  fits.counted _ counted

omit [DecidableEq Thread] in
theorem raised_le_tally (here : config.locals thread = loc) :
    loc.raised ≤ tally Local.raised config.locals := by
  rw [← here]
  exact le_tally Local.raised config.locals thread

variable {loc : Local} {choice : Call} {shared : Shared} {purpose : Purpose} {sem : Nat}
variable (sound : Sound ids config)
include sound

omit [DecidableEq Thread] in
theorem Sound.fitsAt (here : config.locals thread = loc) : Fits (ids.id thread) config.shared loc :=
  here ▸ sound.fits thread

theorem Sound.load (here : config.locals thread = loc) (raised : loc'.raised = loc.raised)
    (owner : loc'.owner = loc.owner) (releaser : loc'.releaser = loc.releaser)
    (named : loc'.Named ↔ loc.Named) (counted : loc'.counted = loc.counted)
    (shaped : loc'.Shaped) (handled : loc'.Handled config.shared) :
    Sound ids (config.moved thread config.shared loc') :=
  sound.keep here rfl rfl rfl rfl raised owner releaser (.inl rfl)
    ((sound.fitsAt here).stay named counted shaped handled)

/-- The owner stores `RecursionCount` and is outside, one level deeper. -/
theorem Sound.entered (here : config.locals thread = ⟨depth, stage⟩) (raised : stage.raised = 1)
    (owns : Local.Owns ⟨depth, stage⟩) (releaser : Local.releaser ⟨depth, stage⟩ = 0)
    (owner : config.shared.crit.owningThread = ids.id thread)
    (counted : count = BitVec.ofNat 32 (depth + 1)) :
    Sound ids
      (config.moved thread (config.shared.setRecursionCount count) ⟨depth + 1, .outside⟩) := by
  refine sound.keep here rfl rfl rfl rfl ?_ ?_ releaser.symm
    (.inr ⟨owns, .inl rfl⟩) (fits_entered owner counted)
  · simp only [Local.raised, raised]
    rfl
  · rw [owner_of_owns owns, owner_of_owns (.inl (Nat.succ_pos depth))]

omit sound in
/-- One level more than a depth that `RecursionCount` has. -/
theorem ofNat_succ (depth : Nat) : BitVec.ofNat 32 depth + 1 = BitVec.ofNat 32 (depth + 1) :=
  (BitVec.ofNat_add depth 1).symm

/-! ## Calls from outside -/

theorem sound_call (within : Within config) (here : config.locals thread = ⟨depth, .outside⟩)
    (moved : call config.shared depth choice = some (shared, loc)) :
    Sound ids (config.moved thread shared loc) := by
  have fits := sound.fitsAt here
  cases choice with
  | enter =>
    have mine : depth + 0 ≤ _ := raised_le_tally here
    simp only [call] at moved
    split at moved
    next first =>
      have free : tally Local.raised config.locals = 0 :=
        (sound.lockCount_eq_iff within).mp (by bv_omega)
      obtain rfl : depth = 0 := by omega
      cases moved
      refine sound.raise here rfl (by rw [if_pos free]; rfl) rfl (Fits.counter ?_ _)
      exact fits.stay Iff.rfl rfl rfl trivial
    next contested =>
      cases moved
      refine sound.raise here rfl ?_ rfl (Fits.counter ?_ _)
      · rw [if_neg]
        · rfl
        · intro free
          rw [(sound.lockCount_eq_iff within).mpr free] at contested
          exact contested (by decide)
      · exact fits.stay Iff.rfl rfl trivial trivial
  | tryEnter =>
    cases moved
    exact sound.load here rfl rfl rfl Iff.rfl rfl trivial trivial
  | leave =>
    simp only [call] at moved
    split at moved
    next deep =>
      cases moved
      exact sound.load here rfl rfl rfl Iff.rfl rfl ⟨deep, fits.recursion (if_pos deep)⟩ trivial
    · exact absurd moved (by simp)

/-! ## `RtlTryEnterCriticalSection` -/

theorem sound_tryExchange (within : Within config)
    (here : config.locals thread = ⟨depth, .tryExchange caller⟩) (moved :
      advance ids thread choice config.shared ⟨depth, .tryExchange caller⟩ = some (shared, loc)) :
    Sound ids (config.moved thread shared loc) := by
  have fits := sound.fitsAt here
  have mine : depth + caller.raised ≤ _ := raised_le_tally here
  simp only [advance] at moved
  split at moved
  next first =>
    have free := (sound.lockCount_eq_iff within).mp first
    obtain rfl : depth = 0 := by omega
    cases moved
    cases caller with
    | direct =>
      have raised : config.shared.crit.lockCount + 1 = 0 := by
        rw [first]
        decide
      rw [← raised]
      refine sound.raise here rfl (by rw [if_pos free]; rfl) rfl (Fits.counter ?_ _)
      exact fits.stay Iff.rfl rfl rfl trivial
    | spinning =>
      -- the thread itself has raised the counter
      exact absurd mine (by rw [free]; simp [Caller.raised])
  · cases moved
    cases caller <;> exact sound.load here rfl rfl rfl Iff.rfl rfl fits.shaped trivial

theorem sound_tryCompare (here : config.locals thread = ⟨depth, .tryCompare caller⟩) (moved :
      advance ids thread choice config.shared ⟨depth, .tryCompare caller⟩ = some (shared, loc)) :
    Sound ids (config.moved thread shared loc) := by
  have fits := sound.fitsAt here
  simp only [advance] at moved
  split at moved
  next own =>
    have deep : 0 < depth := fits.named.mp own
    cases moved
    cases caller with
    | direct => exact sound.load here rfl rfl rfl Iff.rfl rfl deep trivial
    | spinning =>
      have flat : depth = 0 := fits.shaped
      omega
  · cases moved
    cases caller <;> exact sound.load here rfl rfl rfl Iff.rfl rfl fits.shaped trivial

/-! ## The semaphore -/

omit sound in
theorem setTokens_self (shared : Shared) (sem count : Nat) :
    (shared.setTokens sem count).tokens sem = count :=
  Function.update_self ..

omit [DecidableEq Thread] in
theorem Sound.empty_setTokens (proper : config.shared.crit.lockSemaphore ≠ 0) (count : Nat) :
    ∀ sem, sem = 0 ∨ sem ≠ config.shared.crit.lockSemaphore →
      (config.shared.setTokens config.shared.crit.lockSemaphore count).tokens sem = 0 := by
  intro sem unused
  rw [← sound.empty sem unused]
  refine Function.update_of_ne ?_ _ _
  rcases unused with zero | unused
  · rw [zero]
    exact proper.symm
  · exact unused

/-- `get_semaphore` returns the installed semaphore. -/
theorem sound_semaphoreReturn
    (among : stage = .semaphoreLoad purpose ∨ ∃ sem, stage = .semaphoreInstall purpose sem)
    (here : config.locals thread = ⟨depth, stage⟩)
    (installed : config.shared.crit.lockSemaphore ≠ 0) :
    Sound ids
      (config.moved thread config.shared
        ⟨depth, semaphoreReturn purpose config.shared.crit.lockSemaphore⟩) := by
  have fits := sound.fitsAt here
  rcases among with rfl | ⟨sem, rfl⟩ <;> cases purpose <;>
    exact sound.load here rfl rfl rfl Iff.rfl rfl fits.shaped ⟨rfl, installed⟩

theorem sound_semaphoreCreate (here : config.locals thread = ⟨depth, .semaphoreCreate purpose⟩) :
    Sound ids
      (config.moved thread
        ({ config.shared with created := config.shared.created + 1 }.setTokens
          (config.shared.created + 1) 0)
        ⟨depth, .semaphoreInstall purpose (config.shared.created + 1)⟩) := by
  have fits := sound.fitsAt here
  have installed := sound.installed
  have unused : Function.update config.shared.tokens (config.shared.created + 1) 0 =
      config.shared.tokens := by
    rw [Function.update_eq_self_iff]
    exact (sound.empty _ (.inr (by omega))).symm
  refine sound.semaphore here rfl
    ⟨rfl, rfl, .inr rfl, Nat.le_succ _, installed.trans (Nat.le_succ _), ?_⟩ ?_ ?_ ?_ ?_
  · simp only [Shared.setTokens, unused]
    exact sound.empty
  · cases purpose <;> rfl
  · simp only [Shared.setTokens, unused]
    cases purpose <;> rfl
  · cases purpose <;> exact le_rfl
  · refine ⟨?_, fits.named, fits.counted, ?_⟩
    · cases purpose <;> exact fits.shaped
    · exact ⟨Nat.succ_ne_zero _, le_rfl⟩

theorem sound_semaphoreInstall
    (here : config.locals thread = ⟨depth, .semaphoreInstall purpose sem⟩)
    (missing : config.shared.crit.lockSemaphore = 0) :
    Sound ids
      (config.moved thread (config.shared.setLockSemaphore sem)
        ⟨depth, semaphoreReturn purpose sem⟩) := by
  have fits := sound.fitsAt here
  obtain ⟨proper, given⟩ : sem ≠ 0 ∧ sem ≤ config.shared.created := fits.handled
  have noTokens : ∀ sem, config.shared.tokens sem = 0 := by
    intro other
    by_cases zero : other = 0
    · exact sound.empty other (.inl zero)
    · exact sound.empty other (.inr (by rwa [missing]))
  refine sound.semaphore here rfl
    ⟨rfl, rfl, .inl missing, le_rfl, given, fun other _ => noTokens other⟩ ?_ ?_ ?_ ?_
  · cases purpose <;> rfl
  · have before := noTokens config.shared.crit.lockSemaphore
    have after := noTokens sem
    change _ + config.shared.tokens sem = _
    rw [before, after]
    cases purpose <;> rfl
  · cases purpose <;> exact le_rfl
  · cases purpose <;> exact ⟨fits.shaped, fits.named, fits.counted, rfl, proper⟩

theorem sound_waiting (here : config.locals thread = ⟨depth, .waiting sem⟩)
    (signalled : 0 < config.shared.tokens sem) :
    Sound ids
      (config.moved thread
        (config.shared.setTokens sem (config.shared.tokens sem - 1))
        ⟨depth, .wokenOwner⟩) := by
  have fits := sound.fitsAt here
  obtain ⟨rfl, proper⟩ : sem = config.shared.crit.lockSemaphore ∧ sem ≠ 0 := fits.handled
  obtain rfl : depth = 0 := fits.shaped
  refine sound.semaphore here rfl
    ⟨rfl, rfl, .inr rfl, le_rfl, sound.installed, sound.empty_setTokens proper _⟩ rfl ?_
    (Nat.zero_le 1)
    ⟨rfl, fits.named, fits.counted, trivial⟩
  change 1 + 0 + (config.shared.setTokens _ _).tokens config.shared.crit.lockSemaphore = 0 + 0 + _
  rw [setTokens_self]
  omega

/-- The thread that gave the section up releases the semaphore. -/
theorem sound_unwait (here : config.locals thread = ⟨depth, .unwait sem⟩) :
    config.shared.tokens sem = 0 ∧
      Sound ids
        (config.moved thread
          (config.shared.setTokens sem (config.shared.tokens sem + 1))
          ⟨depth, .outside⟩) := by
  have fits := sound.fitsAt here
  obtain ⟨rfl, proper⟩ : sem = config.shared.crit.lockSemaphore ∧ sem ≠ 0 := fits.handled
  obtain rfl : depth = 0 := fits.shaped
  have mine := le_tally Local.releaser config.locals thread
  rw [here] at mine
  have baton := sound.baton
  have unsignalled : config.shared.tokens config.shared.crit.lockSemaphore = 0 := by
    change 1 ≤ _ at mine
    split at baton <;> omega
  refine ⟨unsignalled, ?_⟩
  refine sound.semaphore here rfl
    ⟨rfl, rfl, .inr rfl, le_rfl, sound.installed, sound.empty_setTokens proper _⟩ rfl ?_ le_rfl
    ⟨trivial, fits.named, fits.counted, trivial⟩
  change 0 + 0 + (config.shared.setTokens _ _).tokens config.shared.crit.lockSemaphore = 0 + 1 + _
  rw [setTokens_self]
  omega

/-! ## `RtlLeaveCriticalSection` -/

theorem sound_leaveStore (within : Within config)
    (here : config.locals thread = ⟨depth, .leaveStore count⟩) (moved :
      advance ids thread choice config.shared ⟨depth, .leaveStore count⟩ = some (shared, loc)) :
    Sound ids (config.moved thread shared loc) := by
  have fits := sound.fitsAt here
  obtain ⟨deep, rfl⟩ : 0 < depth ∧ count = BitVec.ofNat 32 depth := fits.shaped
  have mine : depth + 0 ≤ _ := raised_le_tally here
  have bound : tally Local.raised config.locals ≤ 2 ^ 31 := within
  have less : BitVec.ofNat 32 depth - 1 = BitVec.ofNat 32 (depth - 1) := by bv_omega
  simp only [advance, less] at moved
  split at moved
  next last =>
    have flat : depth = 1 := by bv_omega
    cases moved
    refine sound.keep here rfl rfl rfl rfl rfl rfl rfl
      (.inr ⟨.inl deep, .inl rfl⟩) ⟨flat, fits.named, ?_, trivial⟩
    rintro count ⟨⟩
    exact last
  next nested =>
    have deeper : 1 < depth := by
      by_contra flat
      obtain rfl : depth = 1 := by omega
      exact nested rfl
    cases moved
    refine sound.keep here rfl rfl rfl rfl rfl rfl rfl
      (.inr ⟨.inl deep, .inl rfl⟩) ⟨deeper, fits.named, ?_, trivial⟩
    rintro _ ⟨⟩
    rfl

theorem sound_leaveNested (here : config.locals thread = ⟨depth, .leaveNested⟩) :
    Sound ids
      (config.moved thread
        (config.shared.setLockCount (config.shared.crit.lockCount - 1))
        ⟨depth - 1, .outside⟩) := by
  have fits := sound.fitsAt here
  have deep : 1 < depth := fits.shaped
  have still : 0 < depth - 1 := by omega
  have inside : 0 < depth := by omega
  have mine : depth + 0 ≤ _ := raised_le_tally here
  have owns := owner_of_owns (.inl still : Local.Owns ⟨depth - 1, .outside⟩)
  refine sound.lower here ?_ (owner_of_owns (.inl inside)) ?_ (.inl owns) (Fits.counter ?_ _)
  · change depth - 1 + 0 + 1 = depth + 0
    omega
  · rw [owns, if_neg (by omega)]
    rfl
  · refine ⟨trivial, ?_, ?_, trivial⟩
    · exact fits.named.trans (iff_of_true inside still)
    · intro count member
      refine fits.counted count ?_
      rwa [show Local.counted ⟨depth - 1, .outside⟩ = _ from if_pos still] at member

theorem sound_leaveLower (within : Within config)
    (here : config.locals thread = ⟨depth, .leaveLower⟩)
    (moved : advance ids thread choice config.shared ⟨depth, .leaveLower⟩ = some (shared, loc)) :
    Sound ids (config.moved thread shared loc) := by
  have fits := sound.fitsAt here
  obtain rfl : depth = 1 := fits.shaped
  have mine : 1 + 0 ≤ _ := raised_le_tally here
  have counter := sound.lockCount_toInt within
  have cleared := fits.counted 0 rfl
  have unnamed : config.shared.crit.owningThread = ids.id thread ↔ 0 < 0 :=
    fits.named.trans (iff_of_false id (Nat.lt_irrefl 0))
  simp only [advance] at moved
  split at moved
  next wanted =>
    cases moved
    refine sound.lower here rfl rfl ?_ (.inr cleared) ⟨rfl, unnamed, by rintro count ⟨⟩, trivial⟩
    rw [if_neg (by omega)]
    rfl
  next unwanted =>
    cases moved
    refine sound.lower here rfl rfl ?_ (.inr cleared)
      ⟨trivial, unnamed, by rintro count ⟨⟩, trivial⟩
    rw [if_pos (by omega)]
    rfl

/-! ## All stages -/

/-- Every step keeps the invariant. -/
theorem sound_advance (within : Within config)
    (moved : advance ids thread choice config.shared (config.locals thread) = some (shared, loc)) :
    Sound ids (config.moved thread shared loc) := by
  have fits := sound.fits thread
  obtain ⟨depth, stage, here⟩ : ∃ depth stage, config.locals thread = ⟨depth, stage⟩ := ⟨_, _, rfl⟩
  rw [here] at fits moved
  cases stage with
  | outside => exact sound_call sound within here moved
  | enterRecursion =>
    cases moved
    refine sound.keep here rfl rfl rfl rfl rfl rfl rfl
      (.inr ⟨.inr rfl, .inl rfl⟩) ⟨fits.shaped, fits.named, ?_, trivial⟩
    rintro count ⟨⟩
    rfl
  | enterOwner =>
    cases moved
    obtain rfl : depth = 0 := fits.shaped
    exact sound.keep here rfl rfl rfl rfl rfl rfl rfl
      (.inr ⟨.inr rfl, .inr (.inl rfl)⟩)
      (fits_entered rfl (fits.counted 1 rfl))
  | contested =>
    simp only [advance] at moved
    split at moved
    next own =>
      cases moved
      exact sound.load here rfl rfl rfl Iff.rfl rfl (fits.named.mp own) trivial
    next foreign =>
      cases moved
      have flat : depth = 0 := Nat.eq_zero_of_not_pos fun deep => foreign (fits.named.mpr deep)
      exact sound.load here rfl rfl rfl Iff.rfl rfl flat trivial
  | nestLoad =>
    cases moved
    have deep : 0 < depth := fits.shaped
    exact sound.load here rfl rfl rfl Iff.rfl rfl ⟨deep, fits.recursion (if_pos deep)⟩ trivial
  | nestStore count =>
    cases moved
    obtain ⟨deep, rfl⟩ : 0 < depth ∧ count = BitVec.ofNat 32 depth := fits.shaped
    exact sound.entered here rfl (.inl deep) rfl (fits.named.mpr deep) (ofNat_succ depth)
  | spinLoad =>
    cases moved
    exact sound.load here rfl rfl rfl Iff.rfl rfl fits.shaped trivial
  | spin =>
    simp only [advance] at moved
    split at moved <;> cases moved <;>
      exact sound.load here rfl rfl rfl Iff.rfl rfl fits.shaped trivial
  | tryExchange => exact sound_tryExchange sound within here moved
  | tryOwner caller =>
    cases caller with
    | direct =>
      cases moved
      exact sound.keep here rfl rfl rfl rfl rfl rfl rfl
        (.inr ⟨.inr rfl, .inr (.inl rfl)⟩)
        ⟨fits.shaped, iff_of_true rfl trivial, by rintro count ⟨⟩, trivial⟩
    | spinning => exact absurd fits.shaped id
  | tryRecursion caller =>
    cases caller with
    | direct =>
      cases moved
      obtain rfl : depth = 0 := fits.shaped
      exact sound.entered here rfl (.inr rfl) rfl (fits.named.mpr trivial) rfl
    | spinning => exact absurd fits.shaped id
  | tryCompare => exact sound_tryCompare sound here moved
  | tryRaise caller =>
    cases caller with
    | direct =>
      cases moved
      have deep : 0 < depth := fits.shaped
      have mine : depth + 0 ≤ _ := raised_le_tally here
      refine sound.raise here rfl (by rw [if_neg (by omega)]; rfl) rfl (Fits.counter ?_ _)
      exact fits.stay Iff.rfl rfl deep trivial
    | spinning => exact absurd fits.shaped id
  | tryNestLoad caller =>
    cases caller with
    | direct =>
      cases moved
      have deep : 0 < depth := fits.shaped
      exact sound.load here rfl rfl rfl Iff.rfl rfl ⟨deep, fits.recursion (if_pos deep)⟩ trivial
    | spinning => exact absurd fits.shaped id
  | tryNestStore caller count =>
    cases caller with
    | direct =>
      cases moved
      obtain ⟨deep, rfl⟩ : 0 < depth ∧ count = BitVec.ofNat 32 depth := fits.shaped
      exact sound.entered here rfl (.inl deep) rfl (fits.named.mpr deep) (ofNat_succ depth)
    | spinning => exact absurd fits.shaped id
  | semaphoreLoad purpose =>
    simp only [advance] at moved
    split at moved
    · cases moved
      cases purpose <;>
        exact sound.load here rfl rfl rfl Iff.rfl rfl fits.shaped trivial
    next installed =>
      cases moved
      exact sound_semaphoreReturn sound (.inl rfl) here installed
  | semaphoreCreate =>
    cases moved
    exact sound_semaphoreCreate sound here
  | semaphoreInstall _ sem =>
    simp only [advance] at moved
    split at moved
    next missing =>
      cases moved
      exact sound_semaphoreInstall sound here missing
    next installed =>
      cases moved
      exact sound_semaphoreReturn sound (.inr ⟨sem, rfl⟩) here installed
  | waiting =>
    simp only [advance] at moved
    split at moved
    next signalled =>
      cases moved
      exact sound_waiting sound here signalled
    · exact absurd moved (by simp)
  | wokenOwner =>
    cases moved
    exact sound.keep here rfl rfl rfl rfl rfl rfl rfl
      (.inr ⟨.inr rfl, .inr (.inl rfl)⟩)
      ⟨fits.shaped, iff_of_true rfl trivial, by rintro count ⟨⟩, trivial⟩
  | wokenRecursion =>
    cases moved
    obtain rfl : depth = 0 := fits.shaped
    exact sound.entered here rfl (.inr rfl) rfl (fits.named.mpr trivial) rfl
  | leaveStore => exact sound_leaveStore sound within here moved
  | leaveNested =>
    cases moved
    exact sound_leaveNested sound here
  | leaveClear =>
    cases moved
    obtain rfl : depth = 1 := fits.shaped
    exact sound.keep here rfl rfl rfl rfl rfl rfl rfl
      (.inr ⟨.inl Nat.one_pos, .inr (.inr rfl)⟩)
      ⟨rfl, iff_of_false (ids.nonzero thread).symm id, fits.counted, trivial⟩
  | leaveLower => exact sound_leaveLower sound within here moved
  | unwait =>
    obtain ⟨_, released⟩ := sound_unwait sound here
    simp only [advance] at moved
    rw [if_pos (by omega)] at moved
    cases moved
    exact released
  | raisedStatus => exact absurd moved (by simp [advance])

end Winex.Section
