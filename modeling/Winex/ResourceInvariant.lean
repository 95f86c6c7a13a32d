import Winex.ResourceLock

namespace Winex.Resource

open Interleaving

/-!
# The invariant of a resource

`iNumberActive` counts the holds of the readers, those granted by a release included, or
it is minus the depth of the one writer.  While readers are queued and no writer holds
the resource, a writer is queued, woken or on its way; and a queued writer of a free
resource has a token or another writer on its way before it.  So whoever has to wake the
rest exists.
-/

attribute [simp] Local.goTo Local.addShared Local.addExclusive
attribute [simp] Stage.granted Stage.waitsShared Stage.waitsExclusive Stage.trying

/-! ## Numbers -/

/-- The local states added up over the threads. -/
structure Totals where
  exclusive : Nat
  shared : Nat
  granted : Nat
  waitsShared : Nat
  waitsExclusive : Nat
  trying : Nat

/-- How the totals change when one thread changes its local state. -/
@[mk_iff]
structure Totals.Moved (totals after : Totals) (old new : Local) : Prop where
  exclusive : after.exclusive + old.exclusive = totals.exclusive + new.exclusive
  shared : after.shared + old.shared = totals.shared + new.shared
  granted : after.granted + old.stage.granted = totals.granted + new.stage.granted
  waitsShared : after.waitsShared + old.stage.waitsShared =
    totals.waitsShared + new.stage.waitsShared
  waitsExclusive : after.waitsExclusive + old.stage.waitsExclusive =
    totals.waitsExclusive + new.stage.waitsExclusive
  trying : after.trying + old.stage.trying = totals.trying + new.stage.trying

/-- The holds of readers, also of those granted but not yet returned. -/
def readers (rwl : RwLock) (totals : Totals) : Nat :=
  totals.shared + rwl.sharedTokens + totals.granted

/-- What the invariant says about the numbers. -/
structure Balanced (rwl : RwLock) (totals : Totals) : Prop where
  active :
    rwl.iNumberActive + BitVec.ofNat 32 totals.exclusive = BitVec.ofNat 32 (readers rwl totals)
  oneMode : totals.exclusive = 0 ∨ readers rwl totals = 0
  queueShared : totals.waitsShared = rwl.uSharedWaiters + rwl.sharedTokens
  queueExclusive : totals.waitsExclusive = rwl.uExclusiveWaiters + rwl.exclusiveTokens
  carriesShared : totals.exclusive = 0 → 0 < rwl.uSharedWaiters →
    0 < rwl.uExclusiveWaiters + rwl.exclusiveTokens + totals.trying
  carriesExclusive : totals.exclusive = 0 → readers rwl totals = 0 → 0 < rwl.uExclusiveWaiters →
    0 < rwl.exclusiveTokens + totals.trying

/-- The holds do not overflow `iNumberActive`, the waiters not the semaphores. -/
structure Fits (rwl : RwLock) (totals : Totals) : Prop where
  holds : totals.exclusive + readers rwl totals < 2 ^ 31
  waitsShared : totals.waitsShared ≤ maxTokens
  waitsExclusive : totals.waitsExclusive ≤ maxTokens

section Sign

variable {rwl : RwLock} {totals : Totals} (balanced : Balanced rwl totals)
include balanced

variable (fits : Fits rwl totals)
include fits

/-- `iNumberActive` read as a signed number. -/
theorem Balanced.toInt_active :
    rwl.iNumberActive.toInt = (readers rwl totals : Int) - totals.exclusive := by
  have bound := fits.holds
  have value := congrArg BitVec.toNat balanced.active
  simp only [BitVec.toNat_add, BitVec.toNat_ofNat] at value
  rw [BitVec.toInt_eq_toNat_cond]
  split <;> omega

theorem Balanced.active_eq_zero_iff :
    rwl.iNumberActive = 0 ↔ totals.exclusive = 0 ∧ readers rwl totals = 0 := by
  have value := balanced.toInt_active fits
  have oneMode := balanced.oneMode
  rw [← BitVec.toInt_inj]
  change rwl.iNumberActive.toInt = 0 ↔ _
  omega

theorem Balanced.active_neg_iff : rwl.iNumberActive.toInt < 0 ↔ 0 < totals.exclusive := by
  have value := balanced.toInt_active fits
  have oneMode := balanced.oneMode
  omega

end Sign

/-! ## The numbers after each step -/

section Numbers

variable {rwl : RwLock} {totals after : Totals} {old : Local}

variable (balanced : Balanced rwl totals)
include balanced

theorem Balanced.sameHolds {rwl' : RwLock} (active : rwl'.iNumberActive = rwl.iNumberActive)
    (carriesShared : totals.exclusive = 0 → 0 < rwl'.uSharedWaiters →
      0 < rwl'.uExclusiveWaiters + rwl'.exclusiveTokens + after.trying)
    (carriesExclusive : totals.exclusive = 0 → readers rwl totals = 0 →
      0 < rwl'.uExclusiveWaiters → 0 < rwl'.exclusiveTokens + after.trying)
    (exclusive : after.exclusive = totals.exclusive := by omega)
    (holds : readers rwl' after = readers rwl totals := by simp only [readers]; omega)
    (queueShared : after.waitsShared = rwl'.uSharedWaiters + rwl'.sharedTokens := by grind)
    (queueExclusive :
      after.waitsExclusive = rwl'.uExclusiveWaiters + rwl'.exclusiveTokens := by grind) :
    Balanced rwl' after := by
  refine ⟨?_, ?_, queueShared, queueExclusive, ?_, ?_⟩
  · rw [active, exclusive, holds]
    exact balanced.active
  · rw [exclusive, holds]
    exact balanced.oneMode
  · rw [exclusive]
    exact carriesShared
  · rw [exclusive, holds]
    exact carriesExclusive

variable {choice : Call} {new : Local}

omit balanced in
theorem call_spec (called : call old choice = some new) :
    new.exclusive = old.exclusive ∧ new.shared = old.shared ∧
      new.stage.granted = 0 ∧ new.stage.waitsShared = 0 ∧
      new.stage.waitsExclusive = 0 ∧
      (new.stage = .releaseResource → new.Holds) := by
  cases choice with
  | acquireExclusive fWait | acquireShared fWait =>
    cases called
    exact ⟨rfl, rfl, rfl, rfl, rfl, by simp⟩
  | releaseResource =>
    simp only [call] at called
    split at called
    next holds =>
      cases called
      exact ⟨rfl, rfl, rfl, rfl, rfl, fun _ => holds⟩
    · exact absurd called (by simp)

theorem Balanced.call (outside : old.stage = .outside) (called : call old choice = some new)
    (moved : totals.Moved after old new) : Balanced rwl after := by
  obtain ⟨_, _, noGrant, noReader, noWriter, -⟩ := call_spec called
  rw [Totals.moved_iff, outside, noGrant, noReader, noWriter] at moved
  simp at moved
  obtain ⟨-, -, _, _, carriesShared, carriesExclusive⟩ := id balanced
  refine balanced.sameHolds rfl ?_ ?_
  · intro free queued
    omega
  · intro free unread queued
    omega

variable {fWait : Bool}

/-- A writer takes the free resource. -/
theorem Balanced.takeExclusive (free : totals.exclusive = 0 ∧ readers rwl totals = 0)
    (stage : old.stage = .acquireExclusive fWait) (moved : totals.Moved after old old.addExclusive)
    (ident : BitVec 32) :
    Balanced { rwl with iNumberActive := -1, hOwningThreadId := ident } after := by
  simp [Totals.moved_iff, stage] at moved
  obtain ⟨-, -, _, _, -⟩ := id balanced
  have one : after.exclusive = 1 := by omega
  have noReader : readers { rwl with iNumberActive := -1, hOwningThreadId := ident } after = 0 := by
    unfold readers at free ⊢
    dsimp only
    omega
  refine ⟨?_, .inr noReader, ?_, ?_, by omega, by omega⟩
  · rw [one, noReader]
    change (-1 : BitVec 32) + BitVec.ofNat 32 1 = BitVec.ofNat 32 0
    decide
  all_goals
    dsimp only
    omega

theorem Balanced.nest (writer : 0 < totals.exclusive)
    (stage : old.stage = .acquireExclusive fWait ∨ ∃ woken, old.stage = .acquireShared fWait woken)
    (moved : totals.Moved after old old.addExclusive) :
    Balanced { rwl with iNumberActive := rwl.iNumberActive - 1 } after := by
  have noWait : old.stage.waitsShared = 0 ∧ old.stage.waitsExclusive = 0 := by
    rcases stage with stage | ⟨woken, stage⟩ <;> rw [stage] <;> exact ⟨rfl, rfl⟩
  rw [Totals.moved_iff, noWait.1, noWait.2] at moved
  simp at moved
  obtain ⟨active, _, _, _, -⟩ := id balanced
  have before : readers rwl totals = 0 := by omega
  have noReader : readers { rwl with iNumberActive := rwl.iNumberActive - 1 } after = 0 := by
    unfold readers at before ⊢
    dsimp only
    omega
  refine ⟨?_, .inr noReader, ?_, ?_, by omega, by omega⟩
  · bv_omega
  all_goals
    dsimp only
    omega

theorem Balanced.queueWriter (taken : ¬ (totals.exclusive = 0 ∧ readers rwl totals = 0))
    (stage : old.stage = .acquireExclusive true)
    (moved : totals.Moved after old (old.goTo .waitExclusive)) :
    Balanced { rwl with uExclusiveWaiters := rwl.uExclusiveWaiters + 1 } after := by
  simp [Totals.moved_iff, stage] at moved
  obtain ⟨-, -, _, _, -⟩ := id balanced
  refine balanced.sameHolds rfl ?_ ?_
  · dsimp only
    omega
  · intro noWriter noReader
    exact absurd ⟨noWriter, noReader⟩ taken

/-- A call that gives up without the resource. -/
theorem Balanced.refuse
    (stage : old.stage = .acquireExclusive false ∨ ∃ fWait, old.stage = .acquireShared fWait false)
    (moved : totals.Moved after old (old.goTo .outside)) : Balanced rwl after := by
  have idle : old.stage.granted = 0 ∧ old.stage.waitsShared = 0 ∧
      old.stage.waitsExclusive = 0 ∧ old.stage.trying = 0 := by
    rcases stage with stage | ⟨fWait, stage⟩ <;> rw [stage] <;> exact ⟨rfl, rfl, rfl, rfl⟩
  have same : after = totals := by
    cases after
    simp_all [Totals.moved_iff]
  rw [same]
  exact balanced

/-- A reader takes the resource. -/
theorem Balanced.takeShared (noWriter : totals.exclusive = 0)
    (stage : old.stage = .acquireShared fWait false)
    (moved : totals.Moved after old old.addShared) :
    Balanced { rwl with iNumberActive := rwl.iNumberActive + 1 } after := by
  obtain ⟨active, _, _, _, carriesShared, -⟩ := balanced
  simp [Totals.moved_iff, stage] at moved
  have stillNone : after.exclusive = 0 := by omega
  have more : readers { rwl with iNumberActive := rwl.iNumberActive + 1 } after =
      readers rwl totals + 1 := by
    unfold readers
    dsimp only
    omega
  refine ⟨?_, .inl stillNone, ?_, ?_, ?_, by omega⟩
  · bv_omega
  · dsimp only
    omega
  · dsimp only
    omega
  · intro _ queued
    have carried := carriesShared noWriter queued
    dsimp only
    omega

/-- A woken reader returns: the release has counted it. -/
theorem Balanced.returnGranted (stage : old.stage = .acquireShared fWait true)
    (moved : totals.Moved after old old.addShared) : Balanced rwl after := by
  simp [Totals.moved_iff, stage] at moved
  obtain ⟨-, -, _, _, carriesShared, carriesExclusive⟩ := id balanced
  refine balanced.sameHolds rfl ?_ ?_ <;> omega

theorem Balanced.queueReader (writer : 0 < totals.exclusive) {woken : Bool}
    (stage : old.stage = .acquireShared fWait woken)
    (moved : totals.Moved after old (old.goTo .waitShared)) :
    Balanced { rwl with uSharedWaiters := rwl.uSharedWaiters + 1 } after := by
  obtain ⟨active, _, _, _, -⟩ := balanced
  simp [Totals.moved_iff, stage] at moved
  have before : readers rwl totals = 0 := by omega
  have noReader : readers { rwl with uSharedWaiters := rwl.uSharedWaiters + 1 } after = 0 := by
    unfold readers at before ⊢
    dsimp only
    omega
  have sameExclusive : after.exclusive = totals.exclusive := by omega
  refine ⟨?_, .inr noReader, ?_, ?_, by omega, by omega⟩
  · rw [sameExclusive, noReader, ← before]
    exact active
  all_goals
    dsimp only
    omega

theorem Balanced.wakeWriter (signalled : 0 < rwl.exclusiveTokens)
    (stage : old.stage = .waitExclusive)
    (moved : totals.Moved after old (old.goTo (.acquireExclusive true))) :
    Balanced { rwl with exclusiveTokens := rwl.exclusiveTokens - 1 } after := by
  simp [Totals.moved_iff, stage] at moved
  obtain ⟨-, -, _, _, -⟩ := id balanced
  refine balanced.sameHolds rfl ?_ ?_ <;> dsimp only <;> omega

theorem Balanced.wakeReader (signalled : 0 < rwl.sharedTokens) (stage : old.stage = .waitShared)
    (moved : totals.Moved after old (old.goTo (.acquireShared true true))) :
    Balanced { rwl with sharedTokens := rwl.sharedTokens - 1 } after := by
  simp [Totals.moved_iff, stage] at moved
  obtain ⟨-, -, _, _, carriesShared, carriesExclusive⟩ := id balanced
  refine balanced.sameHolds rfl ?_ ?_ <;> dsimp only <;> omega

omit balanced in
theorem releaseSemaphore_eq {tokens count : Nat} (room : tokens + count ≤ maxTokens) :
    releaseSemaphore tokens count = tokens + count :=
  if_pos room

/-- A reader gives one of its holds back. -/
theorem Balanced.releaseReader (fits : Fits rwl totals) (noWriter : totals.exclusive = 0)
    (stage : old.stage = .releaseResource) (reader : 0 < old.shared)
    (moved : totals.Moved after old { old with shared := old.shared - 1, stage := .outside }) :
    Balanced (releaseReader rwl) after := by
  simp [Totals.moved_iff, stage] at moved
  obtain ⟨active, _, _, _, carriesShared, -⟩ := id balanced
  have stillNone : after.exclusive = 0 := by omega
  have sum : readers rwl totals = after.shared + rwl.sharedTokens + after.granted + 1 := by
    unfold readers
    omega
  have less : rwl.iNumberActive - 1 =
      BitVec.ofNat 32 (after.shared + rwl.sharedTokens + after.granted) := by bv_omega
  have bound := fits.holds
  unfold Resource.releaseReader
  dsimp only
  split
  next last =>
    split
    next queued =>
      have room : rwl.exclusiveTokens + 1 ≤ maxTokens := by
        have waiters := fits.waitsExclusive
        omega
      refine ⟨?_, .inl stillNone, ?_, ?_, ?_, ?_⟩ <;>
        simp only [wakeExclusive, readers, releaseSemaphore_eq room]
      · bv_omega
      all_goals omega
    · refine ⟨?_, .inl stillNone, ?_, ?_, ?_, ?_⟩ <;> simp only [readers]
      · bv_omega
      all_goals omega
  next more =>
    have someReader : after.shared + rwl.sharedTokens + after.granted ≠ 0 := by
      intro zero
      rw [less, zero] at more
      exact more rfl
    refine ⟨?_, .inl stillNone, ?_, ?_, ?_, ?_⟩ <;> simp only [readers]
    · bv_omega
    all_goals omega

/-- The writer gives one of its levels back. -/
theorem Balanced.releaseWriter (fits : Fits rwl totals) (stage : old.stage = .releaseResource)
    (writer : 0 < old.exclusive)
    (moved :
      totals.Moved after old { old with exclusive := old.exclusive - 1, stage := .outside }) :
    Balanced (releaseWriter rwl) after := by
  simp [Totals.moved_iff, stage] at moved
  obtain ⟨active, _, _, _, -⟩ := id balanced
  have noReader : readers rwl totals = 0 := by omega
  have bound := fits.holds
  have less : rwl.iNumberActive + 1 + BitVec.ofNat 32 after.exclusive = 0 := by
    have sum : totals.exclusive = after.exclusive + 1 := by omega
    bv_omega
  have stillNone : after.shared + rwl.sharedTokens + after.granted = 0 := by
    unfold readers at noReader
    omega
  unfold Resource.releaseWriter
  dsimp only
  split
  next last =>
    have noWriter : after.exclusive = 0 := by bv_omega
    split
    next queued =>
      have room : rwl.exclusiveTokens + 1 ≤ maxTokens := by
        have waiters := fits.waitsExclusive
        omega
      refine ⟨?_, .inl noWriter, ?_, ?_, ?_, ?_⟩ <;>
        simp only [wakeExclusive, readers, releaseSemaphore_eq room]
      · rw [stillNone, less]
        rfl
      all_goals omega
    next noWaiter =>
      split
      · have room : rwl.sharedTokens + rwl.uSharedWaiters ≤ maxTokens := by
          have waiters := fits.waitsShared
          omega
        refine ⟨?_, .inl noWriter, ?_, ?_, ?_, ?_⟩ <;>
          simp only [wakeShared, readers, releaseSemaphore_eq room]
        · bv_omega
        all_goals omega
      · refine ⟨?_, .inl noWriter, ?_, ?_, ?_, ?_⟩ <;> simp only [readers]
        · rw [stillNone, less]
          rfl
        all_goals omega
  next more =>
    have stillWriter : after.exclusive ≠ 0 := by
      intro zero
      exact more (by bv_omega)
    refine ⟨?_, .inr stillNone, ?_, ?_, ?_, ?_⟩ <;> simp only [readers]
    · rw [stillNone, less]
      rfl
    all_goals omega

omit balanced in
/-- Only a writer that leaves for good clears `hOwningThreadId`. -/
theorem releaseWriter_owner (rwl : RwLock) :
    (releaseWriter rwl).hOwningThreadId =
      if rwl.iNumberActive + 1 = 0 then 0 else rwl.hOwningThreadId := by
  unfold releaseWriter
  dsimp only
  split_ifs <;> rfl

omit balanced in
theorem releaseReader_owner (rwl : RwLock) :
    (releaseReader rwl).hOwningThreadId = rwl.hOwningThreadId := by
  unfold releaseReader
  dsimp only
  split_ifs <;> rfl

end Numbers

end Winex.Resource
