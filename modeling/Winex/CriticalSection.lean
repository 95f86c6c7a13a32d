import Winex.Interleaving

namespace Winex.Section

open Interleaving

/-!
# Critical sections

`RtlEnterCriticalSection`, `RtlTryEnterCriticalSection` and `RtlLeaveCriticalSection`,
one memory access a step, in the order of the i386 code.  `RecursionCount` is changed by
plain instructions, each a load and a store.

The fields are 32 bits wide.  `LockCount` starts at -1; the decrement on the way out is
followed by `jge`, which looks at the signed result before it is cut.  A wait returns
only by consuming a token, and the creation of a semaphore succeeds.
-/

/-- The fields of `RTL_CRITICAL_SECTION` that the three functions use. -/
structure CriticalSection where
  lockCount : BitVec 32
  recursionCount : BitVec 32
  owningThread : BitVec 32
  /-- The handle of the semaphore, 0 before it is created. -/
  lockSemaphore : Nat
  spinCount : BitVec 32
  deriving DecidableEq

/-- The section, and the semaphores of the kernel. -/
structure Shared where
  crit : CriticalSection
  /-- Handles 1 up to this one have been given out. -/
  created : Nat
  /-- The count of each semaphore. -/
  tokens : Nat → Nat

/-- Who calls `get_semaphore`. -/
inductive Purpose
  /-- `RtlpWaitForCriticalSection` -/
  | wait
  /-- `RtlpUnWaitCriticalSection` -/
  | unwait
  deriving DecidableEq

/-- Who calls `RtlTryEnterCriticalSection`. -/
inductive Caller
  | direct
  /-- The spin loop of `EnterContestedCriticalSection`. -/
  | spinning (dwCount : BitVec 32)
  deriving DecidableEq

/-- What a thread does next. -/
inductive Stage
  | outside
  /-- `RtlEnterCriticalSection`: `LockCount` became 0, store `RecursionCount`. -/
  | enterRecursion
  /-- Store `OwningThread`. -/
  | enterOwner
  /-- `EnterContestedCriticalSection`: compare `OwningThread`. -/
  | contested
  /-- `crit->RecursionCount++`, load and store. -/
  | nestLoad
  | nestStore (count : BitVec 32)
  /-- `dwCount = crit->SpinCount` -/
  | spinLoad
  | spin (dwCount : BitVec 32)
  /-- `RtlTryEnterCriticalSection`: compare and exchange `LockCount`. -/
  | tryExchange (caller : Caller)
  | tryOwner (caller : Caller)
  | tryRecursion (caller : Caller)
  | tryCompare (caller : Caller)
  | tryRaise (caller : Caller)
  | tryNestLoad (caller : Caller)
  | tryNestStore (caller : Caller) (count : BitVec 32)
  /-- `get_semaphore`: load `LockSemaphore`. -/
  | semaphoreLoad (purpose : Purpose)
  | semaphoreCreate (purpose : Purpose)
  | semaphoreInstall (purpose : Purpose) (sem : Nat)
  /-- `WaitForSingleObject` -/
  | waiting (sem : Nat)
  /-- `EnterContestedCriticalSection` behind the wait: the two stores. -/
  | wokenOwner
  | wokenRecursion
  /-- `RtlLeaveCriticalSection`: the store of `decl RecursionCount`. -/
  | leaveStore (count : BitVec 32)
  | leaveNested
  | leaveClear
  | leaveLower
  /-- `NtReleaseSemaphore` -/
  | unwait (sem : Nat)
  /-- `RtlRaiseStatus`, the semaphore could not be released. -/
  | raisedStatus
  deriving DecidableEq

/-- A thread: how often it has entered, and where it is. -/
structure Local where
  /-- Calls that entered the section, less those that left it. -/
  depth : Nat
  stage : Stage
  deriving DecidableEq

/-- The functions a thread may call. -/
inductive Call
  | enter
  | tryEnter
  | leave
  deriving DecidableEq

namespace Shared

variable (shared : Shared)

/-- Change the section. -/
def withSection (crit : CriticalSection) : Shared :=
  { shared with crit := crit }

/-- Store `LockCount`. -/
def setLockCount (count : BitVec 32) : Shared :=
  shared.withSection { shared.crit with lockCount := count }

/-- Store `RecursionCount`. -/
def setRecursionCount (count : BitVec 32) : Shared :=
  shared.withSection { shared.crit with recursionCount := count }

/-- Store `OwningThread`. -/
def setOwningThread (owner : BitVec 32) : Shared :=
  shared.withSection { shared.crit with owningThread := owner }

/-- Store `LockSemaphore`. -/
def setLockSemaphore (sem : Nat) : Shared :=
  shared.withSection { shared.crit with lockSemaphore := sem }

/-- Set the count of a semaphore. -/
def setTokens (sem count : Nat) : Shared :=
  { shared with tokens := Function.update shared.tokens sem count }

end Shared

/-- `RtlTryEnterCriticalSection` returns to its caller. -/
def tryReturn (caller : Caller) (depth : Nat) (ret : Bool) : Local :=
  match caller, ret with
  | .direct, false => ⟨depth, .outside⟩
  | .spinning dwCount, false => ⟨depth, .spin (dwCount - 1)⟩
  | _, true => ⟨depth + 1, .outside⟩

/-- `get_semaphore` returns to its caller. -/
def semaphoreReturn (purpose : Purpose) (sem : Nat) : Stage :=
  match purpose with
  | .wait => .waiting sem
  | .unwait => .unwait sem

/-- A call from outside, up to its first access to the section. -/
def call (shared : Shared) (depth : Nat) : Call → Option (Shared × Local)
  | .enter =>
    -- lock; incl LockCount
    let count := shared.crit.lockCount + 1
    if count = 0 then
      some (shared.setLockCount count, ⟨depth, .enterRecursion⟩)
    else
      some (shared.setLockCount count, ⟨depth, .contested⟩)
  | .tryEnter => some (shared, ⟨depth, .tryExchange .direct⟩)
  | .leave =>
    if 0 < depth then
      some (shared, ⟨depth, .leaveStore shared.crit.recursionCount⟩)
    else
      none

/-- The next step of a thread. -/
def advance {Thread : Type} (ids : ThreadIds Thread) : Program Thread Call Shared Local :=
  fun thread choice shared loc =>
    let crit := shared.crit
    let self := ids.id thread
    let depth := loc.depth
    match loc.stage with
    | .outside => call shared depth choice
    | .enterRecursion => some (shared.setRecursionCount 1, ⟨depth, .enterOwner⟩)
    | .enterOwner => some (shared.setOwningThread self, ⟨depth + 1, .outside⟩)
    | .contested =>
      if crit.owningThread = self then
        some (shared, ⟨depth, .nestLoad⟩)
      else
        some (shared, ⟨depth, .spinLoad⟩)
    | .nestLoad => some (shared, ⟨depth, .nestStore crit.recursionCount⟩)
    | .nestStore count => some (shared.setRecursionCount (count + 1), ⟨depth + 1, .outside⟩)
    | .spinLoad => some (shared, ⟨depth, .spin crit.spinCount⟩)
    | .spin dwCount =>
      if dwCount = 0 then
        some (shared, ⟨depth, .semaphoreLoad .wait⟩)
      else
        some (shared, ⟨depth, .tryExchange (.spinning dwCount)⟩)
    | .tryExchange caller =>
      if crit.lockCount = -1 then
        some (shared.setLockCount 0, ⟨depth, .tryOwner caller⟩)
      else
        some (shared, ⟨depth, .tryCompare caller⟩)
    | .tryOwner caller => some (shared.setOwningThread self, ⟨depth, .tryRecursion caller⟩)
    | .tryRecursion caller => some (shared.setRecursionCount 1, tryReturn caller depth true)
    | .tryCompare caller =>
      if crit.owningThread = self then
        some (shared, ⟨depth, .tryRaise caller⟩)
      else
        some (shared, tryReturn caller depth false)
    | .tryRaise caller =>
      some (shared.setLockCount (crit.lockCount + 1), ⟨depth, .tryNestLoad caller⟩)
    | .tryNestLoad caller => some (shared, ⟨depth, .tryNestStore caller crit.recursionCount⟩)
    | .tryNestStore caller count =>
      some (shared.setRecursionCount (count + 1), tryReturn caller depth true)
    | .semaphoreLoad purpose =>
      if crit.lockSemaphore = 0 then
        some (shared, ⟨depth, .semaphoreCreate purpose⟩)
      else
        some (shared, ⟨depth, semaphoreReturn purpose crit.lockSemaphore⟩)
    | .semaphoreCreate purpose =>
      -- NtCreateSemaphore with an initial count of 0, which is taken to succeed
      let sem := shared.created + 1
      some ({ shared with created := sem }.setTokens sem 0, ⟨depth, .semaphoreInstall purpose sem⟩)
    | .semaphoreInstall purpose sem =>
      if crit.lockSemaphore = 0 then
        some (shared.setLockSemaphore sem, ⟨depth, semaphoreReturn purpose sem⟩)
      else
        -- somebody beat us to it
        some (shared, ⟨depth, semaphoreReturn purpose crit.lockSemaphore⟩)
    | .waiting sem =>
      if 0 < shared.tokens sem then
        some (shared.setTokens sem (shared.tokens sem - 1), ⟨depth, .wokenOwner⟩)
      else
        none
    | .wokenOwner => some (shared.setOwningThread self, ⟨depth, .wokenRecursion⟩)
    | .wokenRecursion => some (shared.setRecursionCount 1, ⟨depth + 1, .outside⟩)
    | .leaveStore count =>
      if count - 1 = 0 then
        some (shared.setRecursionCount (count - 1), ⟨depth, .leaveClear⟩)
      else
        some (shared.setRecursionCount (count - 1), ⟨depth, .leaveNested⟩)
    | .leaveNested => some (shared.setLockCount (crit.lockCount - 1), ⟨depth - 1, .outside⟩)
    | .leaveClear => some (shared.setOwningThread 0, ⟨depth, .leaveLower⟩)
    | .leaveLower =>
      -- lock; decl LockCount; jge
      if 0 ≤ crit.lockCount.toInt - 1 then
        some (shared.setLockCount (crit.lockCount - 1), ⟨depth - 1, .semaphoreLoad .unwait⟩)
      else
        some (shared.setLockCount (crit.lockCount - 1), ⟨depth - 1, .outside⟩)
    | .unwait sem =>
      -- the semaphore is created with a maximum count of 1
      if shared.tokens sem + 1 ≤ 1 then
        some (shared.setTokens sem (shared.tokens sem + 1), ⟨depth, .outside⟩)
      else
        some (shared, ⟨depth, .raisedStatus⟩)
    | .raisedStatus => none

/-- `RtlInitializeCriticalSectionAndSpinCount` -/
def initialSection (spinCount : BitVec 32) : CriticalSection where
  lockCount := -1
  recursionCount := 0
  owningThread := 0
  lockSemaphore := 0
  spinCount := spinCount

/-- An initialised section, and all threads outside. -/
def initial (Thread : Type) (spinCount : BitVec 32) : Config Thread Shared Local where
  shared := ⟨initialSection spinCount, 0, fun _ => 0⟩
  locals := fun _ => ⟨0, .outside⟩

/-! ## What a thread holds -/

/-- The thread has the section: it entered, or is on its way out of the call. -/
def Stage.acquired : Stage → Bool
  | .enterRecursion | .enterOwner | .tryOwner _ | .tryRecursion _
  | .wokenOwner | .wokenRecursion => true
  | _ => false

variable (loc : Local)

/-- The thread owns the section. -/
def Local.Owns : Prop :=
  0 < loc.depth ∨ loc.stage.acquired = true

instance (loc : Local) : Decidable loc.Owns :=
  inferInstanceAs (Decidable (_ ∨ _))

/-- The thread lowered `LockCount` and has yet to release the semaphore. -/
def Stage.releasing : Stage → Bool
  | .semaphoreLoad .unwait | .semaphoreCreate .unwait
  | .semaphoreInstall .unwait _ | .unwait _ => true
  | _ => false

/-- The thread is on its way to the wait, or in it. -/
def Stage.awaiting : Stage → Bool
  | .spinLoad | .spin _ | .tryExchange (.spinning _)
  | .tryCompare (.spinning _) | .semaphoreLoad .wait | .semaphoreCreate .wait
  | .semaphoreInstall .wait _ | .waiting _ => true
  | _ => false

/-- The thread raised `LockCount` and waits for the semaphore or is about to. -/
def Local.Awaits : Prop :=
  loc.stage.awaiting = true ∨ loc.stage = .contested ∧ loc.depth = 0

/-- Increments of `LockCount` a call of `RtlTryEnterCriticalSection` came with. -/
def Caller.raised : Caller → Nat
  | .direct => 0
  | .spinning _ => 1

/-- Increments of `LockCount` made by the call in progress. -/
def Stage.raised : Stage → Nat
  | .enterRecursion | .enterOwner | .contested | .nestLoad | .nestStore _
  | .spinLoad | .spin _ | .semaphoreLoad .wait | .semaphoreCreate .wait
  | .semaphoreInstall .wait _ | .waiting _ | .wokenOwner
  | .wokenRecursion => 1
  | .tryExchange caller | .tryCompare caller | .tryRaise caller => caller.raised
  | .tryOwner caller | .tryRecursion caller | .tryNestLoad caller
  | .tryNestStore caller _ => caller.raised + 1
  | _ => 0

/-- Increments of `LockCount` by a thread that it has not taken back. -/
def Local.raised : Nat :=
  loc.depth + loc.stage.raised

/-- Count the threads that own the section. -/
def Local.owner : Nat :=
  if loc.Owns then 1 else 0

/-- Count the threads that have yet to release the semaphore. -/
def Local.releaser : Nat :=
  if loc.stage.releasing then 1 else 0

/-- Count the threads blocked in the wait. -/
def Local.blocked : Nat :=
  match loc.stage with
  | .waiting _ => 1
  | _ => 0

end Winex.Section
