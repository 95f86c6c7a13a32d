import Winex.SListModel

namespace Winex.SList

open Interleaving Linear List
open Function (update update_of_ne update_self)

/-!
# An interlocked list simulates a stack

The list reached from the head is the stack after the points passed so far.  The point
of a push or a pop is its successful exchange, that of a flush the exchange that empties
the list, and an empty list is met by its load.

Every entry in use is in the stack or in the hands of one thread.  So its `Next` field
is stable while it is in the stack, and the successor a pop has loaded is right if the
entry was not taken out and pushed again in between.
-/

variable {Thread Entry : Type}

/-- Following `next` from `start` meets exactly the given entries. -/
def Chained (next : Entry → Option Entry) : Option Entry → List Entry → Prop
  | start, [] => start = none
  | start, entry :: rest => start = some entry ∧ Chained next (next entry) rest

variable {items : List Entry}

variable {next next' : Entry → Option Entry} {start : Option Entry} {inUse : Entry → Bool}
  {status : Thread → Status (Op Entry) (Res Entry)} {thread : Thread} {items' : List Entry}

theorem Chained.congr (chained : Chained next start items)
    (agree : ∀ entry ∈ items, next' entry = next entry) : Chained next' start items := by
  induction items generalizing start with
  | nil => exact chained
  | cons entry _ ih =>
    refine ⟨chained.1, ?_⟩
    rw [agree entry (by simp)]
    exact ih chained.2 fun other member => agree other (by simp [member])

theorem Chained.head_eq (chained : Chained next start items) : start = items.head? := by
  cases items with
  | nil => exact chained
  | cons => exact chained.1

/-! ## Who has which entry -/

/-- The entries in the hands of a thread. -/
def held : Status (Op Entry) (Res Entry) → List Entry
  | .pending (.push entry) => [entry]
  | .done (.popped (some item)) => [item]
  | .done (.flushed items) => items
  | _ => []

/-- Each entry in use is in one place. -/
structure Owned (inUse : Entry → Bool) (items : List Entry)
    (status : Thread → Status (Op Entry) (Res Entry)) : Prop where
  nodup : items.Nodup
  apart : ∀ thread, (items ++ held (status thread)).Nodup
  alone :
    ∀ thread other, thread ≠ other → ∀ entry ∈ held (status thread), entry ∉ held (status other)
  used : ∀ entry ∈ items, inUse entry = true
  heldUsed : ∀ thread, ∀ entry ∈ held (status thread), inUse entry = true

theorem Owned.not_mem (owned : Owned inUse items status) {entry : Entry}
    (member : entry ∈ held (status thread)) : entry ∉ items :=
  fun inStack => (nodup_append.mp (owned.apart thread)).2.2 entry inStack entry member rfl

/--
A thread changes its status and with it the stack: the entries that are then
in the stack or in its hands were there before or were not in use.
-/
theorem Owned.move [DecidableEq Thread] {inUse' : Entry → Bool} (owned : Owned inUse items status)
    {next : Status (Op Entry) (Res Entry)} (nodup : (items' ++ held next).Nodup) (source :
      ∀ entry ∈ items' ++ held next, entry ∈ items ++ held (status thread) ∨ inUse entry = false)
    (used : ∀ entry ∈ items' ++ held next, inUse' entry = true)
    (others : ∀ other, other ≠ thread → ∀ entry ∈ held (status other), inUse' entry = true) :
    Owned inUse' items' (update status thread next) := by
  have elsewhere :
      ∀ other, other ≠ thread → ∀ entry ∈ held (status other), entry ∉ items' ++ held next := by
    intro other different entry member inside
    rcases source entry inside with before | unused
    · rcases mem_append.mp before with inStack | inHand
      · exact owned.not_mem member inStack
      · exact owned.alone other thread different entry member inHand
    · rw [owned.heldUsed other entry member] at unused
      exact absurd unused (by simp)
  refine ⟨nodup.of_append_left, fun other => ?_, fun first second different => ?_,
    fun entry member => used entry (by simp [member]), fun other => ?_⟩
  · by_cases same : other = thread
    · rw [same, update_self]
      exact nodup
    rw [update_of_ne same]
    have hands := (nodup_append.mp (owned.apart other)).2.1
    refine nodup_append.mpr ⟨nodup.of_append_left, hands, ?_⟩
    rintro entry inStack _ member rfl
    exact elsewhere other same entry member (by simp [inStack])
  · by_cases mine : first = thread
    · have other : second ≠ thread := fun equal => different (mine.trans equal.symm)
      rw [mine, update_self, update_of_ne other]
      intro entry member inHand
      exact elsewhere second other entry inHand (by simp [member])
    rw [update_of_ne mine]
    intro entry member
    by_cases same : second = thread
    · rw [same, update_self]
      intro inHand
      exact elsewhere first mine entry member (by simp [inHand])
    · rw [update_of_ne same]
      exact owned.alone first second different entry member
  · by_cases same : other = thread
    · rw [same, update_self]
      exact fun entry member => used entry (by simp [member])
    · rw [update_of_ne same]
      exact others other same

section Moves

variable [DecidableEq Thread] {inUse : Entry → Bool} {items : List Entry}
variable {status : Thread → Status (Op Entry) (Res Entry)}
variable {thread : Thread} {next : Status (Op Entry) (Res Entry)} (owned : Owned inUse items status)
include owned

theorem Owned.same (same : held next = held (status thread)) :
    Owned inUse items (update status thread next) := by
  refine owned.move ?_ ?_ ?_ fun other _ => owned.heldUsed other
  · rw [same]
    exact owned.apart thread
  · rw [same]
    exact fun _ member => .inl member
  · rw [same]
    exact forall_mem_append.mpr ⟨owned.used, owned.heldUsed thread⟩

variable {entry : Entry}

/-- A client hands an entry over to be pushed. -/
theorem Owned.claim [DecidableEq Entry] (unused : inUse entry = false)
    (claimed : held next = [entry]) :
    Owned (update inUse entry true) items (update status thread next) := by
  have fresh : entry ∉ items := by
    intro inStack
    rw [owned.used entry inStack] at unused
    exact absurd unused (by simp)
  have kept : ∀ other, inUse other = true → update inUse entry true other = true := by
    intro other _
    by_cases equal : other = entry
    · rw [equal, update_self]
    · rwa [update_of_ne equal]
  refine owned.move ?_ ?_ ?_ fun other _ item member => kept item (owned.heldUsed other item member)
  · rw [claimed, nodup_append]
    refine ⟨owned.nodup, nodup_singleton entry, ?_⟩
    rintro _ inStack _ member rfl
    rw [mem_singleton.mp member] at inStack
    exact fresh inStack
  · rw [claimed]
    refine forall_mem_append.mpr ⟨fun item inStack => ?_, forall_mem_singleton.mpr (.inr unused)⟩
    exact .inl (mem_append_left _ inStack)
  · rw [claimed]
    refine forall_mem_append.mpr ⟨fun item inStack => kept item (owned.used item inStack), ?_⟩
    exact forall_mem_singleton.mpr (update_self ..)

theorem Owned.publish (had : held (status thread) = [entry]) (gone : held next = []) :
    Owned inUse (entry :: items) (update status thread next) := by
  have before := owned.apart thread
  have perm : (items ++ [entry]).Perm (entry :: items) := perm_append_singleton entry items
  rw [had] at before
  refine owned.move ?_ ?_ ?_ fun other _ => owned.heldUsed other
  · rw [gone, append_nil]
    exact perm.nodup_iff.mp before
  · rw [gone, append_nil, had]
    exact fun item member => .inl (perm.mem_iff.mpr member)
  · rw [gone, append_nil]
    exact forall_mem_cons.mpr ⟨owned.heldUsed thread _ (by simp [had]), owned.used⟩

omit owned in
/-- Entries go from the front of the stack to the hands of the thread. -/
theorem Owned.takeOut (taken : List Entry) {rest : List Entry}
    (owned : Owned inUse (taken ++ rest) status) (holds : held next = taken) :
    Owned inUse rest (update status thread next) := by
  have perm : (taken ++ rest).Perm (rest ++ taken) := perm_append_comm
  refine owned.move ?_ ?_ ?_ fun other _ => owned.heldUsed other
  · rw [holds]
    exact perm.nodup_iff.mp owned.nodup
  · rw [holds]
    exact fun item member => .inl (mem_append_left _ (perm.mem_iff.mpr member))
  · rw [holds]
    exact fun item member => owned.used item (perm.mem_iff.mpr member)

theorem Owned.giveBack [DecidableEq Entry] (thread : Thread) (gone : held next = []) :
    Owned
      (fun entry => inUse entry && !(held (status thread)).contains entry)
      items (update status thread next) := by
  refine owned.move ?_ ?_ ?_ fun other different entry member => ?_
  · rw [gone, append_nil]
    exact owned.nodup
  · rw [gone, append_nil]
    exact fun entry member => .inl (mem_append_left _ member)
  · rw [gone, append_nil]
    intro entry member
    have outside : entry ∉ held (status thread) := fun inHand => owned.not_mem inHand member
    simp [owned.used entry member, outside]
  · have outside := owned.alone other thread different entry member
    simp [owned.heldUsed other entry member, outside]

end Moves

/-! ## The simulation -/

/-- What the stage of a thread says about the list and its operation. -/
def Matches (next : Entry → Option Entry) (items : List Entry)
    (status : Status (Op Entry) (Res Entry)) :
    Stage Entry → Prop
  | .outside => status = .idle
  | .pushLoad entry | .pushStore entry _ => status = .pending (.push entry)
  | .pushCompare entry oldHead => status = .pending (.push entry) ∧ next entry = oldHead
  | .pushExchange entry oldHead compare =>
    status = .pending (.push entry) ∧ next entry = oldHead ∧ compare = oldHead
  | .pushCount oldHead => status = .done (.pushed oldHead)
  | .popLoad | .popNext _ => status = .pending .pop
  | .popExchange item successor => status = .pending .pop ∧ (item ∈ items → next item = successor)
  | .popCount item => status = .done (.popped (some item))
  | .flushLoad | .flushExchange _ => status = .pending .flush
  | .flushWalk item seen depth =>
    depth = BitVec.ofNat 16 seen.length ∧
      ∃ rest, Chained next item rest ∧ status = .done (.flushed (seen ++ rest))

/-- Entries linked in and not yet added to `Depth`. -/
def uncountedIn : Status (Op Entry) (Res Entry) → Nat
  | .done (.pushed _) => 1
  | _ => 0

/-- Entries taken out and not yet subtracted from `Depth`. -/
def uncountedOut : Status (Op Entry) (Res Entry) → Nat
  | .done (.popped (some _)) => 1
  | .done (.flushed items) => items.length
  | _ => 0

/-- The list simulates the stack after the points passed so far. -/
structure Simulates [Fintype Thread] [DecidableEq Thread] [DecidableEq Entry]
    (config : Config Thread (Shared Thread Entry) (Stage Entry)) (items : List Entry)
    (status : Thread → Status (Op Entry) (Res Entry)) : Prop where
  linearized : Linearized stack config.shared.history items status
  chained : Chained config.shared.next config.shared.head items
  owned : Owned config.shared.inUse items status
  matched : ∀ thread, Matches config.shared.next items (status thread) (config.locals thread)
  depth : config.shared.queryDepth + BitVec.ofNat 16 (tally uncountedIn status) =
    BitVec.ofNat 16 (items.length + tally uncountedOut status)

/-- A thread's stage says the same where the fields it relies on are the same. -/
theorem Matches.congr {items : List Entry} {status : Status (Op Entry) (Res Entry)}
    {stage : Stage Entry} (matched : Matches next items status stage)
    (hands : ∀ entry ∈ held status, next' entry = next entry)
    (popping : ∀ item ∈ stage.popping, item ∈ items' → item ∈ items ∧ next' item = next item) :
    Matches next' items' status stage := by
  cases stage with
  | pushCompare entry =>
    obtain ⟨pending, stored⟩ := matched
    refine ⟨pending, ?_⟩
    rw [hands entry (by rw [pending]; simp [held])]
    exact stored
  | pushExchange entry =>
    obtain ⟨pending, stored, compared⟩ := matched
    refine ⟨pending, ?_, compared⟩
    rw [hands entry (by rw [pending]; simp [held])]
    exact stored
  | popExchange item =>
    refine ⟨matched.1, fun inStack => ?_⟩
    obtain ⟨before, same⟩ := popping item rfl inStack
    rw [same]
    exact matched.2 before
  | flushWalk =>
    obtain ⟨counted, rest, chained, done⟩ := matched
    refine ⟨counted, rest, chained.congr fun entry member => ?_, done⟩
    exact hands entry (by rw [done]; simp [held, member])
  | _ => exact matched

section Steps

variable [Fintype Thread] [DecidableEq Thread] [DecidableEq Entry]
variable {config : Config Thread (Shared Thread Entry) (Stage Entry)}
variable {items items' : List Entry} {status : Thread → Status (Op Entry) (Res Entry)}
variable {thread : Thread} {next : Status (Op Entry) (Res Entry)}
variable {shared : Shared Thread Entry} {stage : Stage Entry}
variable (simulates : Simulates config items status)
include simulates

theorem Simulates.moved
    (linearized : Linearized stack shared.history items' (update status thread next))
    (chained : Chained shared.next shared.head items')
    (owned : Owned shared.inUse items' (update status thread next))
    (mine : Matches shared.next items' next stage)
    (depth :
      ∀ ins outs, ins + uncountedIn (status thread) = tally uncountedIn status + uncountedIn next →
        outs + uncountedOut (status thread) = tally uncountedOut status + uncountedOut next →
        shared.queryDepth + BitVec.ofNat 16 ins = BitVec.ofNat 16 (items'.length + outs))
    (popping : ∀ other, other ≠ thread →
      ∀ item ∈ (config.locals other).popping, item ∈ items' →
        item ∈ items ∧ shared.next item = config.shared.next item := by
          exact fun _ _ _ _ inStack => ⟨inStack, rfl⟩)
    (hands : ∀ other, other ≠ thread →
      ∀ entry ∈ held (status other), shared.next entry = config.shared.next entry := by
        exact fun _ _ _ _ => rfl) :
    Simulates (config.moved thread shared stage) items' (update status thread next) := by
  refine ⟨linearized, chained, owned, fun other => ?_,
    depth _ _ (tally_update _ _ _ _) (tally_update _ _ _ _)⟩
  by_cases same : other = thread
  · rw [same, update_self, moved_locals_self]
    exact mine
  · rw [update_of_ne same, moved_locals_ne same]
    exact (simulates.matched other).congr (hands other same) (popping other same)

/-- A step that passes no point; the fields the others rely on stay. -/
theorem Simulates.silent (history : shared.history = config.shared.history)
    (inUse : shared.inUse = config.shared.inUse)
    (query : shared.queryDepth = config.shared.queryDepth)
    (chained : Chained shared.next shared.head items)
    (mine : Matches shared.next items (status thread) stage)
    (hands : ∀ other, other ≠ thread →
      ∀ entry ∈ held (status other), shared.next entry = config.shared.next entry)
    (stack : ∀ item ∈ items, shared.next item = config.shared.next item) :
    Simulates (config.moved thread shared stage) items status := by
  refine ⟨?_, chained, ?_, fun other => ?_, ?_⟩
  · rw [moved_shared, history]
    exact simulates.linearized
  · rw [moved_shared, inUse]
    exact simulates.owned
  · by_cases same : other = thread
    · rw [same, moved_locals_self]
      exact mine
    · rw [moved_locals_ne same]
      exact (simulates.matched other).congr (hands other same)
        fun item _ inStack => ⟨inStack, stack item inStack⟩
  · rw [moved_shared, query]
    exact simulates.depth

theorem Simulates.load (mine : Matches config.shared.next items (status thread) stage) :
    Simulates (config.moved thread config.shared stage) items status :=
  simulates.silent rfl rfl rfl simulates.chained mine (fun _ _ _ _ => rfl) fun _ _ => rfl

/-! ## Calls -/

theorem simulates_call (here : config.locals thread = .outside) {op : Op Entry}
    (moved : call thread config.shared op = some (shared, stage)) :
    Simulates (config.moved thread shared stage) items (update status thread (.pending op)) := by
  have idle : status thread = .idle := by
    have matched := simulates.matched thread
    rwa [here] at matched
  have depth : ∀ ins outs,
      ins + uncountedIn (status thread) = tally uncountedIn status + uncountedIn (.pending op) →
      outs + uncountedOut (status thread) = tally uncountedOut status + uncountedOut (.pending op) →
      config.shared.queryDepth + BitVec.ofNat 16 ins = BitVec.ofNat 16 (items.length + outs) := by
    rw [idle]
    rintro _ _ rfl rfl
    exact simulates.depth
  have linearized := simulates.linearized.call idle op
  cases op with
  | push =>
    simp only [call] at moved
    split at moved
    · exact absurd moved (by simp)
    rename_i unused
    cases moved
    exact simulates.moved linearized simulates.chained
      (simulates.owned.claim (by simpa using unused) rfl) rfl depth
  | pop | flush =>
    cases moved
    exact simulates.moved linearized simulates.chained
      (simulates.owned.same (by rw [idle]; rfl)) rfl depth

end Steps

end Winex.SList
