import Winex.Interleaving
import Winex.Linearizability

namespace Winex.SList

open Interleaving Linear

/-!
# Interlocked singly linked lists

`RtlInterlockedPushEntrySList`, `RtlInterlockedPopEntrySList` and
`RtlInterlockedFlushSList`, one memory access a step.  `Depth` and `Sequence` share a
word that is changed by an addition of its own, after the exchange, which compares the
pointer alone.  A client pushes an entry only while it has it.
-/

/-- The functions of a list. -/
inductive Op (Entry : Type)
  | push (entry : Entry)
  | pop
  | flush
  deriving DecidableEq

/-- What they return; of a flush the entries linked to the returned one. -/
inductive Res (Entry : Type)
  | pushed (oldHead : Option Entry)
  | popped (item : Option Entry)
  | flushed (items : List Entry)
  deriving DecidableEq

/-- What a thread does next. -/
inductive Stage (Entry : Type)
  | outside
  /-- `oldHead = ListHead->s.Next.Next` -/
  | pushLoad (entry : Entry)
  /-- `ListEntry->Next = oldHead` -/
  | pushStore (entry : Entry) (oldHead : Option Entry)
  /-- Load `ListEntry->Next` for the comparison. -/
  | pushCompare (entry : Entry) (oldHead : Option Entry)
  | pushExchange (entry : Entry) (oldHead compare : Option Entry)
  /-- Add to `Depth` and `Sequence`. -/
  | pushCount (oldHead : Option Entry)
  /-- `item = ListHead->s.Next.Next` -/
  | popLoad
  /-- Load `item->Next`. -/
  | popNext (item : Entry)
  | popExchange (item : Entry) (next : Option Entry)
  | popCount (item : Entry)
  | flushLoad
  | flushExchange (head : Entry)
  /-- Count the entries flushed, and at their end subtract them. -/
  | flushWalk (item : Option Entry) (seen : List Entry) (depth : BitVec 16)
  deriving DecidableEq

/-- The list head, the entries, and what the clients saw and have. -/
structure Shared (Thread Entry : Type) where
  /-- `ListHead->s.Next.Next` -/
  head : Option Entry
  /-- The `Next` field of each entry. -/
  next : Entry → Option Entry
  /-- `Depth` in the low and `Sequence` in the high half. -/
  depth : BitVec 32
  /-- The entries given to a push and not returned since. -/
  inUse : Entry → Bool
  /-- The calls and returns, latest first. -/
  history : List (Event Thread (Op Entry) (Res Entry))

variable {Thread Entry : Type} [DecidableEq Thread] [DecidableEq Entry]

namespace Shared

variable (shared : Shared Thread Entry)

/-- Record a call. -/
def call (thread : Thread) (op : Op Entry) : Shared Thread Entry :=
  { shared with history := .call thread op :: shared.history }

/-- Record a return. -/
def ret (thread : Thread) (res : Res Entry) : Shared Thread Entry :=
  { shared with history := .ret thread res :: shared.history }

/-- `InterlockedExchangeAdd` on `Depth` and `Sequence`. -/
def addDepth (value : BitVec 32) : Shared Thread Entry :=
  { shared with depth := shared.depth + value }

/-- The client has these entries back. -/
def giveBack (items : List Entry) : Shared Thread Entry :=
  { shared with
    inUse := fun entry => shared.inUse entry && !items.contains entry }

end Shared

/-- A call from outside. -/
def call (thread : Thread) (shared : Shared Thread Entry) :
    Op Entry → Option (Shared Thread Entry × Stage Entry)
  | .push entry =>
    if shared.inUse entry then
      none
    else
      some ({ shared with
          inUse := Function.update shared.inUse entry true }.call thread (.push entry),
        .pushLoad entry)
  | .pop => some (shared.call thread .pop, .popLoad)
  | .flush => some (shared.call thread .flush, .flushLoad)

/-- The next step of a thread. -/
def advance : Program Thread (Op Entry) (Shared Thread Entry) (Stage Entry) :=
  fun thread choice shared stage =>
    match stage with
    | .outside => call thread shared choice
    | .pushLoad entry => some (shared, .pushStore entry shared.head)
    | .pushStore entry oldHead =>
      some ({ shared with next := Function.update shared.next entry oldHead },
        .pushCompare entry oldHead)
    | .pushCompare entry oldHead => some (shared, .pushExchange entry oldHead (shared.next entry))
    | .pushExchange entry oldHead compare =>
      let exchanged :=
        if shared.head = compare then
          { shared with head := some entry }
        else
          shared
      if shared.head = oldHead then
        some (exchanged, .pushCount oldHead)
      else
        some (exchanged, .pushLoad entry)
    | .pushCount oldHead => some ((shared.addDepth 0x10001).ret thread (.pushed oldHead), .outside)
    | .popLoad =>
      match shared.head with
      | none => some (shared.ret thread (.popped none), .outside)
      | some item => some (shared, .popNext item)
    | .popNext item => some (shared, .popExchange item (shared.next item))
    | .popExchange item next =>
      if shared.head = some item then
        some ({ shared with head := next }, .popCount item)
      else
        some (shared, .popLoad)
    | .popCount item =>
      some (((shared.addDepth (-1)).giveBack [item]).ret thread (.popped (some item)), .outside)
    | .flushLoad =>
      match shared.head with
      | none => some (shared.ret thread (.flushed []), .outside)
      | some head => some (shared, .flushExchange head)
    | .flushExchange head =>
      if shared.head = some head then
        some ({ shared with head := none }, .flushWalk (some head) [] 0)
      else
        some (shared, .flushLoad)
    | .flushWalk (some item) seen depth =>
      some (shared, .flushWalk (shared.next item) (seen ++ [item]) (depth + 1))
    | .flushWalk none seen depth =>
      some (((shared.addDepth (-depth.setWidth 32)).giveBack seen).ret thread (.flushed seen),
        .outside)

/-- `RtlInitializeSListHead`, with the entries as the clients left them. -/
def initial (next : Entry → Option Entry) : Config Thread (Shared Thread Entry) (Stage Entry) where
  shared := ⟨none, next, 0, fun _ => false, []⟩
  locals := fun _ => .outside

/-! ## The sequential object -/

/-- A stack of entries. -/
def stack : Object (List Entry) (Op Entry) (Res Entry) where
  initial := []
  apply
    | items, .push entry => (entry :: items, .pushed items.head?)
    | items, .pop => (items.tail, .popped items.head?)
    | items, .flush => ([], .flushed items)

/-- `Depth` -/
def Shared.queryDepth (shared : Shared Thread Entry) : BitVec 16 :=
  shared.depth.setWidth 16

/-! ## The hazard -/

/-- The entry a thread is about to link in. -/
def Stage.pushing : Stage Entry → Option Entry
  | .pushLoad entry | .pushStore entry _ | .pushCompare entry _
  | .pushExchange entry _ _ => some entry
  | _ => none

/-- The entry a thread is about to exchange for the successor it has loaded. -/
def Stage.popping : Stage Entry → Option Entry
  | .popExchange item _ => some item
  | _ => none

/-- No thread pushes an entry whose successor a pop has loaded before. -/
def NoHazard (config : Config Thread (Shared Thread Entry) (Stage Entry)) : Prop :=
  ∀ thread other entry,
    (config.locals thread).pushing = some entry → (config.locals other).popping ≠ some entry

end Winex.SList
