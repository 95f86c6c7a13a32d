import Winex.Interleaving

namespace Winex.Resource

open Interleaving

/-!
# Resources: locks for many readers or one writer

`RtlAcquireResourceExclusive`, `RtlAcquireResourceShared` and `RtlReleaseResource`.
What they do inside `rtlCS` is one step.  The waits for the two semaphores lie outside,
so between a release and the wake-up other threads can take the resource.

`iNumberActive` is a 32-bit integer: the number of readers, or minus the nesting depth
of the writer.  The numbers of waiters are bounded by the number of threads and are
natural numbers.
-/

/-- The fields of `RTL_RWLOCK`, and the counts of its two semaphores. -/
structure RwLock where
  iNumberActive : BitVec 32
  uExclusiveWaiters : Nat
  uSharedWaiters : Nat
  hOwningThreadId : BitVec 32
  /-- The count of `hExclusiveReleaseSemaphore`. -/
  exclusiveTokens : Nat
  /-- The count of `hSharedReleaseSemaphore`. -/
  sharedTokens : Nat
  deriving DecidableEq

/-- `RtlInitializeResource` -/
def initialRwLock : RwLock where
  iNumberActive := 0
  uExclusiveWaiters := 0
  uSharedWaiters := 0
  hOwningThreadId := 0
  exclusiveTokens := 0
  sharedTokens := 0

/-- The maximum count both semaphores are created with. -/
def maxTokens : Nat := 65535

/-- `NtReleaseSemaphore`, which changes nothing beyond the maximum. -/
def releaseSemaphore (tokens count : Nat) : Nat :=
  if tokens + count ≤ maxTokens then tokens + count else tokens

/-- What a thread finds out inside `rtlCS`. -/
inductive Answer
  | acquired
  | refused
  /-- The thread counted itself as a waiter. -/
  | queued
  deriving DecidableEq

/-- `rwl->uExclusiveWaiters++`, if the caller wants to wait. -/
def queueExclusive (fWait : Bool) (rwl : RwLock) : RwLock × Answer :=
  if fWait then
    ({ rwl with uExclusiveWaiters := rwl.uExclusiveWaiters + 1 }, .queued)
  else
    (rwl, .refused)

/-- `RtlAcquireResourceExclusive` from `start` on. -/
def acquireExclusive (ident : BitVec 32) (fWait : Bool) (rwl : RwLock) : RwLock × Answer :=
  if rwl.iNumberActive = 0 then
    ({ rwl with iNumberActive := -1, hOwningThreadId := ident }, .acquired)
  else if rwl.iNumberActive.toInt < 0 then
    if rwl.hOwningThreadId = ident then
      ({ rwl with iNumberActive := rwl.iNumberActive - 1 }, .acquired)
    else
      queueExclusive fWait rwl
  else
    queueExclusive fWait rwl

/--
`RtlAcquireResourceShared` from `start` on.  A reader woken from its wait was
counted by the release already.
-/
def acquireShared (ident : BitVec 32) (fWait woken : Bool) (rwl : RwLock) : RwLock × Answer :=
  if rwl.iNumberActive.toInt < 0 then
    if rwl.hOwningThreadId = ident then
      ({ rwl with iNumberActive := rwl.iNumberActive - 1 }, .acquired)
    else if fWait then
      ({ rwl with uSharedWaiters := rwl.uSharedWaiters + 1 }, .queued)
    else
      (rwl, .refused)
  else if woken then
    (rwl, .acquired)
  else
    ({ rwl with iNumberActive := rwl.iNumberActive + 1 }, .acquired)

/-- `wake_exclusive` -/
def wakeExclusive (rwl : RwLock) : RwLock :=
  { rwl with
    uExclusiveWaiters := rwl.uExclusiveWaiters - 1
    exclusiveTokens := releaseSemaphore rwl.exclusiveTokens 1 }

/-- All queued readers are counted as active and woken. -/
def wakeShared (rwl : RwLock) : RwLock :=
  { rwl with
    iNumberActive := BitVec.ofNat 32 rwl.uSharedWaiters
    uSharedWaiters := 0
    sharedTokens := releaseSemaphore rwl.sharedTokens rwl.uSharedWaiters }

/-- `RtlReleaseResource` by a reader. -/
def releaseReader (rwl : RwLock) : RwLock :=
  let rwl := { rwl with iNumberActive := rwl.iNumberActive - 1 }
  if rwl.iNumberActive = 0 then
    if rwl.uExclusiveWaiters ≠ 0 then wakeExclusive rwl else rwl
  else
    rwl

/-- `RtlReleaseResource` by a writer. -/
def releaseWriter (rwl : RwLock) : RwLock :=
  let rwl := { rwl with iNumberActive := rwl.iNumberActive + 1 }
  if rwl.iNumberActive = 0 then
    let rwl := { rwl with hOwningThreadId := 0 }
    if rwl.uExclusiveWaiters ≠ 0 then
      wakeExclusive rwl
    else if rwl.uSharedWaiters ≠ 0 then
      wakeShared rwl
    else
      rwl
  else
    rwl

/-- `RtlReleaseResource` -/
def releaseResource (rwl : RwLock) : RwLock :=
  if 0 < rwl.iNumberActive.toInt then
    releaseReader rwl
  else if rwl.iNumberActive.toInt < 0 then
    releaseWriter rwl
  else
    rwl

/-! ## Threads -/

/-- Where a thread is. -/
inductive Stage
  | outside
  /-- `start` of `RtlAcquireResourceExclusive`. -/
  | acquireExclusive (fWait : Bool)
  /-- The wait for `hExclusiveReleaseSemaphore`. -/
  | waitExclusive
  /-- `start` of `RtlAcquireResourceShared`, before or after a wait. -/
  | acquireShared (fWait woken : Bool)
  /-- The wait for `hSharedReleaseSemaphore`. -/
  | waitShared
  | releaseResource
  deriving DecidableEq

/-- A thread: what it holds, and where it is. -/
structure Local where
  /-- The nesting depth of a writer. -/
  exclusive : Nat
  /-- The holds of a reader. -/
  shared : Nat
  stage : Stage
  deriving DecidableEq

/-- The functions a thread may call. -/
inductive Call
  | acquireExclusive (fWait : Bool)
  | acquireShared (fWait : Bool)
  | releaseResource
  deriving DecidableEq

namespace Local

/-- The thread holds the resource. -/
def Holds (loc : Local) : Prop :=
  0 < loc.exclusive + loc.shared

instance (loc : Local) : Decidable loc.Holds :=
  inferInstanceAs (Decidable (_ < _))

/-- The thread goes to another stage. -/
def goTo (loc : Local) (stage : Stage) : Local :=
  { loc with stage := stage }

/-- One more level as a writer. -/
def addExclusive (loc : Local) : Local :=
  { loc with exclusive := loc.exclusive + 1, stage := .outside }

/-- One more hold as a reader. -/
def addShared (loc : Local) : Local :=
  { loc with shared := loc.shared + 1, stage := .outside }

/-- One hold less. -/
def removeHold (loc : Local) : Local :=
  if 0 < loc.exclusive then
    { loc with exclusive := loc.exclusive - 1, stage := .outside }
  else
    { loc with shared := loc.shared - 1, stage := .outside }

end Local

/-- A call from outside; only a thread that holds the resource releases it. -/
def call (loc : Local) : Call → Option Local
  | .acquireExclusive fWait => some (loc.goTo (.acquireExclusive fWait))
  | .acquireShared fWait => some (loc.goTo (.acquireShared fWait false))
  | .releaseResource =>
    if loc.Holds then some (loc.goTo .releaseResource) else none

/-- The next step of a thread. -/
def advance {Thread : Type} (ids : ThreadIds Thread) : Program Thread Call RwLock Local :=
  fun thread choice rwl loc =>
    match loc.stage with
    | .outside => (call loc choice).map fun next => (rwl, next)
    | .acquireExclusive fWait =>
      match acquireExclusive (ids.id thread) fWait rwl with
      | (after, .acquired) => some (after, loc.addExclusive)
      | (after, .refused) => some (after, loc.goTo .outside)
      | (after, .queued) => some (after, loc.goTo .waitExclusive)
    | .waitExclusive =>
      if 0 < rwl.exclusiveTokens then
        some ({ rwl with exclusiveTokens := rwl.exclusiveTokens - 1 },
          loc.goTo (.acquireExclusive true))
      else
        none
    | .acquireShared fWait woken =>
      match acquireShared (ids.id thread) fWait woken rwl with
      | (after, .acquired) =>
        -- a writer that acquires once more nests
        if rwl.iNumberActive.toInt < 0 then
          some (after, loc.addExclusive)
        else
          some (after, loc.addShared)
      | (after, .refused) => some (after, loc.goTo .outside)
      | (after, .queued) => some (after, loc.goTo .waitShared)
    | .waitShared =>
      if 0 < rwl.sharedTokens then
        some ({ rwl with sharedTokens := rwl.sharedTokens - 1 },
          loc.goTo (.acquireShared true true))
      else
        none
    | .releaseResource => some (releaseResource rwl, loc.removeHold)

/-- An initialised resource, and all threads outside. -/
def initial (Thread : Type) : Config Thread RwLock Local where
  shared := initialRwLock
  locals := fun _ => ⟨0, 0, .outside⟩

/-! ## What the invariant counts -/

namespace Stage

/-- A reader granted by a release that has not returned yet. -/
@[simp] def granted : Stage → Nat
  | .acquireShared _ true => 1
  | _ => 0

/-- A reader in its wait. -/
@[simp] def waitsShared : Stage → Nat
  | .waitShared => 1
  | _ => 0

/-- A writer in its wait. -/
@[simp] def waitsExclusive : Stage → Nat
  | .waitExclusive => 1
  | _ => 0

/-- A writer that will try, and wait if it fails. -/
@[simp] def trying : Stage → Nat
  | .acquireExclusive true => 1
  | _ => 0

end Stage

end Winex.Resource
