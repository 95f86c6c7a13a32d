import Winex.HeapCalls

namespace Winex.OldHeap

/-!
# Runs of calls on a heap

A session is a heap with the blocks its client may still use.  After any calls on live
blocks the heap is well formed, as long as the system commits what is asked for.

For requests close to four gigabytes the sums of sizes wrap around, and a small block is
returned.  A reallocation that grows in place changes the heap before it commits the
memory; if the system refuses, the change stays.
-/

/-! ## Sessions -/

/-- A call to the heap. -/
inductive Call where
  | allocate (flags : Flags) (size : Nat)
  | reAllocate (flags : Flags) (ptr : Option Nat) (size : Nat)
  | free (ptr : Option Nat)

/-- A heap and the blocks that its client has. -/
structure Session where
  heap : Heap
  live : List Nat

/-- The session after an allocation; a block given up is dropped. -/
def Session.keep (session : Session) (gone : Option Nat) : Heap × Reply → Session
  | (heap, .block ptr) => ⟨heap, ptr :: session.live.filter fun other => decide (some other ≠ gone)⟩
  | (heap, _) => ⟨heap, session.live⟩

/-- One call. -/
def Session.call (system : System) (session : Session) : Call → Session
  | .allocate flags size => session.keep none (allocateHeap system session.heap flags size)
  | .reAllocate flags ptr size =>
    session.keep ptr (reAllocateHeap system session.heap flags ptr size)
  | .free ptr =>
    let result := freeHeap system session.heap ptr
    if result.2 then
      ⟨result.1, session.live.filter fun other => decide (some other ≠ ptr)⟩
    else ⟨result.1, session.live⟩

/-- The calls of a correct client: `NULL` or a live block, and sizes below 2^31. -/
def Session.Allows (session : Session) : Call → Prop
  | .allocate _ size => size < 0x80000000
  | .reAllocate _ ptr size => (∀ block ∈ ptr, block ∈ session.live) ∧ size < 0x80000000
  | .free ptr => ∀ block ∈ ptr, block ∈ session.live

/-- A system that commits all memory it is asked for and reserves free memory. -/
structure System.Grants (system : System) (heap : Heap) : Prop where
  fresh : system.Fresh heap
  commits : ∀ address size, system.commit address size = true

/-- The sessions that begin with the creation of a heap.  An address given by the
caller is a range of memory the process has.  The client may write to its blocks. -/
inductive Reaches : Session → Prop where
  | create {system : System} {memory : Memory} {flags : Flags} {addr : Option Nat}
      {totalSize commitSize : Nat} {heap : Heap} : (∀ address, addr = some address →
      UserRange address (roundSizes commitSize (if totalSize = 0 then 0x110000 else totalSize)).2) →
      (∀ size address, system.reserve size = some address → UserRange address size) →
      createHeap system memory flags addr totalSize commitSize = some heap → Reaches ⟨heap, []⟩
  | call {session : Session} {system : System} {call : Call} : Reaches session →
      system.Grants session.heap → session.Allows call → Reaches (session.call system call)
  | write {session : Session} {ptr length offset : Nat} (value : Nat) : Reaches session →
      ptr ∈ session.live → sizeHeap session.heap ptr = some length → offset < length →
      Reaches { session with
        heap := session.heap.setMemory (session.heap.memory.write (ptr + offset) value) }

/-- The heap is well formed and its blocks in use are those the client has. -/
structure Session.Describes (session : Session) (arenas : Arenas) : Prop where
  wellFormed : WellFormed session.heap arenas
  live : ∀ ptr, ptr ∈ session.live ↔
    ∃ header extent, ptr = header + 8 ∧ arenas header = some ⟨.used, extent⟩

variable {arenas : Arenas} {extent header size : Nat} {heap' heap : Heap} {session : Session}
  {classes : Nat → List Nat} {flags : Flags} {system : System}

/-- A call that put a block in the place of an old one. -/
theorem Session.Describes.replace {arenas' : Arenas} {old : Nat} {gone : Option Nat}
    (describes : session.Describes arenas)
    (replaces : Replaces session.heap arenas old heap' arenas' header extent)
    (dropped : ∀ other extent', other ≠ header → Used arenas other extent' →
      (other ≠ old ↔ some (other + 8) ≠ gone)) :
    Session.Describes
      ⟨heap', (header + 8) ::
        session.live.filter fun other => decide (some other ≠ gone)⟩ arenas' := by
  refine ⟨⟨replaces.sound, replaces.whole⟩, ?_⟩
  intro _
  simp only [List.mem_cons, List.mem_filter, decide_eq_true_eq, describes.live]
  constructor
  · rintro (rfl | ⟨⟨other, extent', rfl, here⟩, stays⟩)
    · exact ⟨header, extent, rfl, replaces.block⟩
    · by_cases same : other = header
      · subst same
        exact ⟨other, extent, rfl, replaces.block⟩
      · exact ⟨other, extent', rfl, (replaces.others other extent' same).mpr
          ⟨(dropped other extent' same here).mpr stays, here⟩⟩
  · rintro ⟨other, extent', rfl, there⟩
    by_cases same : other = header
    · exact .inl (by rw [same])
    · obtain ⟨stays, here⟩ := (replaces.others other extent' same).mp there
      exact .inr ⟨⟨other, extent', rfl, here⟩, (dropped other extent' same here).mp stays⟩

theorem Session.Describes.allocate (describes : session.Describes arenas)
    (fresh : system.Fresh session.heap) (small : size < 0x80000000) :
    ∃ arenas',
      (session.keep none (allocateHeap system session.heap flags size)).Describes arenas' := by
  obtain ⟨_, sound⟩ := describes.wellFormed.sound
  have whole : Whole arenas := describes.wellFormed.whole
  rcases run : allocateHeap system session.heap flags size with ⟨_, reply⟩
  cases reply with
  | block =>
    obtain ⟨arenas', _, _, rfl, replaces, -, _, -⟩ :=
      sound.allocateHeap whole fresh (by omega) (by omega) run
    refine ⟨arenas', describes.replace replaces ?_⟩
    intro _ _ off _
    simp [off]
  | null | raised =>
    obtain rfl := allocateHeap_unchanged run (by simp)
    exact ⟨arenas, describes⟩

theorem System.Grants.not_refused (grants : system.Grants session.heap) (ptr extent size : Nat) :
    ¬CommitRefused system session.heap arenas ptr extent size := by
  rintro ⟨-, -, _, -, -, refused⟩
  unfold OldHeap.commit at refused
  simp only [grants.commits, if_true] at refused
  split at refused <;> split at refused <;> cases refused

variable {ptr : Option Nat}

theorem Session.Describes.reAllocate (describes : session.Describes arenas)
    (grants : system.Grants session.heap) (owns : ∀ block ∈ ptr, block ∈ session.live)
    (small : size < 0x80000000) :
    ∃ arenas',
      (session.keep ptr (reAllocateHeap system session.heap flags ptr size)).Describes arenas' := by
  rcases ptr with _ | ptr
  · exact describes.allocate grants.fresh small
  obtain ⟨_, sound⟩ := describes.wellFormed.sound
  have whole : Whole arenas := describes.wellFormed.whole
  obtain ⟨old, extent, rfl, here⟩ := (describes.live ptr).mp (owns ptr rfl)
  rcases run : reAllocateHeap system session.heap flags (some (old + 8)) size with
    ⟨heap', reply⟩
  have refused := (sound.reAllocateHeap_refused whole here run).mpr
    (grants.not_refused old extent (blockSize size))
  cases reply with
  | block =>
    obtain ⟨arenas', _, extent', rfl, replaces, -⟩ :=
      sound.reAllocateHeap whole grants.fresh here (by omega) (by omega) run
    refine ⟨arenas', describes.replace replaces ?_⟩
    simp
  | null | raised =>
    obtain rfl := refused (by simp)
    exact ⟨arenas, describes⟩

theorem Session.Describes.free (describes : session.Describes arenas)
    (owns : ∀ block ∈ ptr, block ∈ session.live) :
    ∃ arenas', (session.call system (.free ptr)).Describes arenas' := by
  rcases ptr with _ | ptr
  · refine ⟨arenas, describes.wellFormed, ?_⟩
    simp [Session.call, freeHeap, describes.live]
  obtain ⟨_, sound⟩ := describes.wellFormed.sound
  have whole : Whole arenas := describes.wellFormed.whole
  obtain ⟨_, _, rfl, here⟩ := (describes.live ptr).mp (owns ptr rfl)
  obtain ⟨_, arenas', classes', run, sound', whole', used, -⟩ :=
    sound.freeHeap whole system here
  refine ⟨arenas', ?_⟩
  simp only [Session.call, run, if_true]
  refine ⟨⟨⟨classes', sound'⟩, whole'⟩, ?_⟩
  intro _
  simp only [List.mem_filter, decide_eq_true_eq, describes.live, used]
  constructor
  · rintro ⟨⟨header, extent', rfl, there⟩, off⟩
    refine ⟨header, extent', rfl, ?_, there⟩
    rintro rfl
    exact off rfl
  · rintro ⟨header, extent', rfl, off, there⟩
    refine ⟨⟨header, extent', rfl, there⟩, ?_⟩
    simpa using off

/-- Every heap that can be reached is well formed. -/
theorem Reaches.describes (reaches : Reaches session) : ∃ arenas, session.Describes arenas := by
  induction reaches with
  | create given reserved created =>
    obtain ⟨arenas, classes, sound, whole, unused⟩ := sound_of_createHeap given reserved created
    refine ⟨arenas, ⟨⟨classes, sound⟩, whole⟩, ?_⟩
    simp [unused]
  | @call session system call _ grants allows ih =>
    obtain ⟨_, describes⟩ := ih
    cases call with
    | allocate => exact describes.allocate grants.fresh allows
    | reAllocate => exact describes.reAllocate grants allows.1 allows.2
    | free => exact describes.free allows
  | write value _ isLive sized inside ih =>
    obtain ⟨arenas, ⟨⟨classes, sound⟩, whole⟩, live⟩ := ih
    obtain ⟨header, extent, rfl, here⟩ := (live _).mp isLive
    cases (sound.sizeHeap whole here).symm.trans sized
    exact ⟨arenas,
      ⟨⟨classes, sound.write (.inl ⟨header, extent, here, by omega, by omega⟩) value⟩, whole⟩, live⟩

/-- After every sequence of calls on live blocks the heap is well formed, with the live
blocks in use, and validation succeeds. -/
theorem reached_heap_valid {session : Session} (reaches : Reaches session) :
    (∃ arenas, WellFormed session.heap arenas ∧
      ∀ ptr, ptr ∈ session.live ↔
        ∃ header extent, ptr = header + 8 ∧ arenas header = some ⟨.used, extent⟩) ∧
      validateHeap session.heap none = true := by
  obtain ⟨arenas, describes⟩ := reaches.describes
  obtain ⟨_, sound⟩ := describes.wellFormed.sound
  exact ⟨⟨arenas, describes.wellFormed, describes.live⟩,
    sound.validateHeap describes.wellFormed.whole⟩

/-- A system with plenty of committed memory that reserves nothing. -/
def plainSystem : System := ⟨fun _ => none, fun _ _ => true, fun _ _ => true⟩

/-- A new heap at a given address, of the given sizes. -/
def plainHeap (commitSize totalSize : Nat) : Heap :=
  (createHeap plainSystem (fun _ => 0) {} (some 0x110000) totalSize commitSize).getD
    (blankHeap (fun _ => 0) 0)

theorem reaches_plainHeap {commitSize totalSize : Nat} (positive : totalSize ≠ 0)
    (range : UserRange 0x110000 (roundSizes commitSize totalSize).2) :
    Reaches ⟨plainHeap commitSize totalSize, []⟩ := by
  refine @Reaches.create plainSystem (fun _ => 0) {} (some 0x110000) totalSize commitSize _ ?_ ?_ ?_
  · rintro address ⟨⟩
    rw [if_neg positive]
    exact range
  · nofun
  · have created : (createHeap plainSystem (fun _ => 0) {} (some 0x110000) totalSize
        commitSize).isSome := by
      simp [createHeap, createSubHeap, initSubHeap, plainSystem, blankHeap]
    obtain ⟨_, isHeap⟩ := Option.isSome_iff_exists.mp created
    unfold plainHeap
    rw [isHeap, Option.getD_some]

theorem plainSystem_grants (heap : Heap) : plainSystem.Grants heap where
  fresh := nofun
  commits := fun _ _ => rfl

/-- A heap of 0x110000 bytes, of which 0x10000 are committed, with one block. -/
def oneBlock : Session :=
  Session.call plainSystem ⟨plainHeap 0x10000 0x110000, []⟩ (.allocate {} 100)

theorem reaches_oneBlock : Reaches oneBlock := by
  have range : UserRange 0x110000 (roundSizes 0x10000 0x110000).2 := by
    unfold UserRange
    decide +kernel
  have allowed : Session.Allows ⟨plainHeap 0x10000 0x110000, []⟩ (.allocate {} 100) := by
    change 100 < 0x80000000
    decide
  exact (reaches_plainHeap (by decide) range).call (plainSystem_grants _) allowed

/-- A block that grows past the part of the heap committed at first. -/
theorem reached_heap_valid_grown :
    validateHeap
      (oneBlock.call plainSystem (.reAllocate {} (some 0x110094) 0x20000)).heap none = true := by
  have allowed : oneBlock.Allows (.reAllocate {} (some 0x110094) 0x20000) :=
    ⟨by decide, by decide⟩
  exact (reached_heap_valid (reaches_oneBlock.call (plainSystem_grants _) allowed)).2

/-! ## Allocations -/

/-- What an allocation promises: the block lies in the committed part of a sub-heap and in
no other block, it has at least the size asked for, it is zero if that was asked for, and
the other blocks are kept. -/
structure Served (flags : Flags) (size : Nat) (heap : Heap) (arenas : Arenas) (heap' : Heap)
    (arenas' : Arenas) (ptr : Nat) : Prop where
  wellFormed : WellFormed heap' arenas'
  inside :
    ∃ sub ∈ heap'.subheaps, sub.start ≤ ptr ∧ ptr + size ≤ sub.base + heap'.commitSize sub.base
  reported : ∃ length, sizeHeap heap' ptr = some length ∧ size ≤ length
  apart : ∀ other extent, arenas other = some ⟨.used, extent⟩ →
    ptr + size ≤ other + 8 ∨ other + extent ≤ ptr
  zero : (flags.zeroMemory || heap.flags.zeroMemory) = true →
    ∀ word, ptr ≤ word → word < ptr + size → heap'.memory word = 0
  others : ∀ other extent, arenas other = some ⟨.used, extent⟩ ↔
    arenas' other = some ⟨.used, extent⟩ ∧ other + 8 ≠ ptr
  contents : ∀ other extent word, arenas other = some ⟨.used, extent⟩ →
    other + 8 ≤ word → word < other + extent → heap'.memory word = heap.memory word

/-- A block that was taken into use by an allocation that does not wrap. -/
theorem Sound.served (sound : Sound heap arenas classes) (whole : Whole arenas)
    (fresh : system.Fresh heap) {ptr : Nat} (small : size ≤ 0xfffeffc8)
    (run : allocateHeap system heap flags size = (heap', .block ptr)) :
    ∃ arenas', Served flags size heap arenas heap' arenas' ptr := by
  obtain ⟨arenas', header, extent, rfl, replaces, large, unused, zero⟩ :=
    sound.allocateHeap whole fresh (by omega) (fun _ => small) run
  obtain ⟨classes', sound'⟩ := replaces.sound
  have wide := (sound'.placed.measure replaces.block).1
  have stays : ∀ other extent', Used arenas other extent' →
      other ≠ header ∧ Used arenas' other extent' := by
    intro other extent' here
    have off : other ≠ header := by
      rintro rfl
      exact unused extent' here
    exact ⟨off, (replaces.others other extent' off).mpr ⟨off, here⟩⟩
  refine ⟨arenas', ⟨⟨classes', sound'⟩, replaces.whole⟩, ?_, ?_, ?_, ?_, ?_, ?_⟩
  · obtain ⟨sub, subIn, inSub⟩ := sound'.placed.exists_sub replaces.block
    have above := (sound'.placed.within subIn inSub replaces.block).1
    have committed := sound'.committed.used sub subIn header extent inSub.1 inSub.2 replaces.block
    exact ⟨sub, subIn, by omega, by omega⟩
  · exact ⟨extent - 8, sound'.sizeHeap replaces.whole replaces.block, large⟩
  · intro other extent' here
    obtain ⟨off, there⟩ := stays other extent' here
    have apart := sound'.placed.extent_apart there replaces.block off
    omega
  · intro asked word above _
    exact zero asked word above (by omega)
  · intro other extent'
    constructor
    · intro here
      obtain ⟨off, there⟩ := stays other extent' here
      exact ⟨there, by omega⟩
    · rintro ⟨there, off⟩
      exact ((replaces.others other extent' (by omega)).mp there).2
  · intro other extent' word here above below
    have off := (stays other extent' here).1
    exact replaces.contents other extent' word off off here above below

/-- An allocation without a result changes nothing, and one that returns a block keeps its
promise exactly for the sizes whose sums do not wrap around. -/
theorem allocateHeap_served_iff {heap heap' : Heap} {arenas : Arenas} {system : System}
    {flags : Flags} {size : Nat} {reply : Reply} (wellFormed : WellFormed heap arenas)
    (fresh : system.Fresh heap) (run : allocateHeap system heap flags size = (heap', reply)) :
    ((∀ ptr, reply ≠ .block ptr) → heap' = heap) ∧
      ∀ ptr, reply = .block ptr →
        ((∃ arenas', Served flags size heap arenas heap' arenas' ptr) ↔ size ≤ 0xfffeffc8) := by
  obtain ⟨_, sound⟩ := wellFormed.sound
  refine ⟨allocateHeap_unchanged run, ?_⟩
  rintro _ rfl
  constructor
  · rintro ⟨_, served⟩
    -- no sub-heap is larger than the address space
    obtain ⟨_, sound'⟩ := served.wellFormed.sound
    obtain ⟨sub, subIn, _, _⟩ := served.inside
    have bounds := sound'.placed.bounded sub subIn
    have committed := sound'.committed.bounded sub subIn
    unfold SubHeap.stop SubHeap.start at *
    omega
  · intro small
    exact sound.served wellFormed.whole fresh small run

/-- An ordinary request on a heap with one block. -/
theorem allocateHeap_served_oneBlock :
    ∃ arenas ptr, WellFormed oneBlock.heap arenas ∧ plainSystem.Fresh oneBlock.heap ∧
      (allocateHeap plainSystem oneBlock.heap {} 0x20000).2 = .block ptr ∧
      ∃ arenas', Served {} 0x20000 oneBlock.heap arenas
        (allocateHeap plainSystem oneBlock.heap {} 0x20000).1 arenas' ptr := by
  obtain ⟨arenas, describes⟩ := reaches_oneBlock.describes
  have fresh := (plainSystem_grants oneBlock.heap).fresh
  have reply : (allocateHeap plainSystem oneBlock.heap {} 0x20000).2 = .block 0x110100 := by
    decide +kernel
  refine ⟨arenas, 0x110100, describes.wellFormed, fresh, reply, ?_⟩
  exact ((allocateHeap_served_iff describes.wellFormed fresh Prod.mk.eta.symm).2 0x110100
    reply).mpr (by decide)

/-- A request for 0xffffffff bytes returns a block of 24 bytes. -/
theorem allocateHeap_wraps :
    ∃ arenas, WellFormed oneBlock.heap arenas ∧ plainSystem.Fresh oneBlock.heap ∧
      (allocateHeap plainSystem oneBlock.heap {} 0xffffffff).2 = .block 0x110100 ∧
      sizeHeap (allocateHeap plainSystem oneBlock.heap {} 0xffffffff).1 0x110100 = some 24 ∧
      ¬∃ arenas', Served {} 0xffffffff oneBlock.heap arenas
        (allocateHeap plainSystem oneBlock.heap {} 0xffffffff).1 arenas' 0x110100 := by
  obtain ⟨arenas, describes⟩ := reaches_oneBlock.describes
  have size : sizeHeap (allocateHeap plainSystem oneBlock.heap {} 0xffffffff).1 0x110100 =
      some 24 := by decide +kernel
  refine ⟨arenas, describes.wellFormed, (plainSystem_grants _).fresh, by decide +kernel, size, ?_⟩
  rintro ⟨_, served⟩
  obtain ⟨_, reported, _⟩ := served.reported
  rw [size] at reported
  cases reported
  omega

/-! ## Reallocations -/

/-- What a reallocation promises: the block has at least the size asked for, at the same
address if that was asked for, with the old contents and, if that was asked for, zeros
behind them, and the other blocks are kept. -/
structure Resized (flags : Flags) (size : Nat) (heap : Heap) (arenas : Arenas) (header extent : Nat)
    (heap' : Heap) (arenas' : Arenas) (new length : Nat) : Prop where
  wellFormed : WellFormed heap' arenas'
  block : arenas' (new - 8) = some ⟨.used, length + 8⟩ ∧ 8 ≤ new
  reported : sizeHeap heap' new = some length
  large : size ≤ length
  inPlace : (flags.reallocInPlaceOnly || heap.flags.reallocInPlaceOnly) = true → new = header + 8
  kept : ∀ offset < min (extent - 8) length,
    heap'.memory (new + offset) = heap.memory (header + 8 + offset)
  zero : (flags.zeroMemory || heap.flags.zeroMemory) = true →
    ∀ offset, extent - 8 ≤ offset → offset < length → heap'.memory (new + offset) = 0
  others : ∀ other extent', other ≠ header ∧ arenas other = some ⟨.used, extent'⟩ →
    arenas' other = some ⟨.used, extent'⟩ ∧ other + 8 ≠ new ∧
    ∀ word, other + 8 ≤ word → word < other + extent' → heap'.memory word = heap.memory word
  only : ∀ other extent', arenas' other = some ⟨.used, extent'⟩ → other + 8 ≠ new →
    other ≠ header ∧ arenas other = some ⟨.used, extent'⟩

theorem Sound.resized (sound : Sound heap arenas classes) (whole : Whole arenas)
    (fresh : system.Fresh heap) {new : Nat} (here : Used arenas header extent)
    (small : size < 0x80000000)
    (run : reAllocateHeap system heap flags (some (header + 8)) size = (heap', .block new))
    : ∃ arenas' length, Resized flags size heap arenas header extent heap' arenas' new length := by
  obtain ⟨arenas', header', extent', rfl, replaces, large, inPlace, kept, zero⟩ :=
    sound.reAllocateHeap whole fresh here (by omega) (by omega) run
  obtain ⟨classes', sound'⟩ := replaces.sound
  have wide := (sound'.placed.measure replaces.block).1
  refine ⟨arenas', extent' - 8, ⟨⟨classes', sound'⟩, replaces.whole⟩, ?_,
    sound'.sizeHeap replaces.whole replaces.block, large, ?_, ?_, zero, ?_, ?_⟩
  · rw [Nat.add_sub_cancel, Nat.sub_add_cancel (by omega)]
    exact ⟨replaces.block, by omega⟩
  · intro asked
    rw [inPlace asked]
  · intro offset _
    exact kept offset (by omega) (by omega)
  · rintro other extent'' ⟨off, isUsed⟩
    have off' : other ≠ header' := by
      rintro rfl
      exact off (replaces.taken extent'' isUsed)
    refine ⟨(replaces.others other extent'' off').mpr ⟨off, isUsed⟩, by omega, ?_⟩
    intro word above below
    exact replaces.contents other extent'' word off' off isUsed above below
  · intro other extent'' there _
    exact (replaces.others other extent'' (by omega)).mp there

/-- A reallocation resizes the block, or fails and changes nothing, exactly if the system
does not refuse memory to a block that swallows the arena behind it. -/
theorem reAllocateHeap_resized_iff {heap heap' : Heap} {arenas : Arenas} {system : System}
    {flags : Flags} {header extent size : Nat} {reply : Reply} (wellFormed : WellFormed heap arenas)
    (fresh : system.Fresh heap) (live : arenas header = some ⟨.used, extent⟩)
    (small : size < 0x80000000)
    (run : reAllocateHeap system heap flags (some (header + 8)) size = (heap', reply)) :
    ((∀ new, reply = .block new →
        ∃ arenas' length, Resized flags size heap arenas header extent heap' arenas' new length) ∧
      ((∀ new, reply ≠ .block new) → heap' = heap)) ↔
      ¬CommitRefused system heap arenas header extent (blockSize size) := by
  obtain ⟨_, sound⟩ := wellFormed.sound
  have refused := sound.reAllocateHeap_refused wellFormed.whole live run
  constructor
  · rintro ⟨-, unchanged⟩
    exact refused.mp unchanged
  · intro served
    refine ⟨?_, refused.mpr served⟩
    rintro _ rfl
    exact sound.resized wellFormed.whole fresh live small run

/-- The block of `oneBlock` in its layout. -/
theorem oneBlock_layout :
    ∃ arenas extent, WellFormed oneBlock.heap arenas ∧ arenas 0x11008c = some ⟨.used, extent⟩ := by
  obtain ⟨arenas, describes⟩ := reaches_oneBlock.describes
  obtain ⟨header, extent, _, here⟩ :=
    (describes.live 0x110094).mp (by decide +kernel)
  obtain rfl : header = 0x11008c := by omega
  exact ⟨arenas, extent, describes.wellFormed, here⟩

/-- A block that is asked to shrink. -/
theorem reAllocateHeap_resized_shrunk :
    ∃ arenas extent, WellFormed oneBlock.heap arenas ∧ arenas 0x11008c = some ⟨.used, extent⟩ ∧
      ∃ arenas' length, Resized {} 24 oneBlock.heap arenas 0x11008c extent
        (reAllocateHeap plainSystem oneBlock.heap {} (some 0x110094) 24).1 arenas'
        0x110094 length := by
  obtain ⟨arenas, extent, wellFormed, here⟩ := oneBlock_layout
  have reply : (reAllocateHeap plainSystem oneBlock.heap {} (some 0x110094) 24).2 =
      .block 0x110094 := by decide +kernel
  refine ⟨arenas, extent, wellFormed, here, ?_⟩
  exact ((reAllocateHeap_resized_iff wellFormed (plainSystem_grants _).fresh here (by decide)
    Prod.mk.eta.symm).mpr ((plainSystem_grants _).not_refused _ _ _)).1 0x110094 reply

/-- A system that commits nothing. -/
def exhaustedSystem : System := ⟨fun _ => none, fun _ _ => false, fun _ _ => true⟩

/-- A reallocation that fails, after which the block has swallowed the rest of the
heap. -/
theorem reAllocateHeap_swallows :
    ∃ arenas extent, WellFormed oneBlock.heap arenas ∧ arenas 0x11008c = some ⟨.used, extent⟩ ∧
      exhaustedSystem.Fresh oneBlock.heap ∧
      (reAllocateHeap exhaustedSystem oneBlock.heap {} (some 0x110094) 0x20000).2 = .null ∧
      sizeHeap oneBlock.heap 0x110094 = some 100 ∧
      sizeHeap (reAllocateHeap exhaustedSystem oneBlock.heap {} (some 0x110094) 0x20000).1
        0x110094 = some 0x10ff6c := by
  obtain ⟨arenas, extent, wellFormed, here⟩ := oneBlock_layout
  exact ⟨arenas, extent, wellFormed, here, nofun, by decide +kernel, by decide +kernel,
    by decide +kernel⟩

/-- When the client has given back all blocks, every sub-heap is one free arena again. -/
theorem emptied_heap_merged {session : Session} (reaches : Reaches session)
    (emptied : session.live = []) :
    ∀ sub ∈ session.heap.subheaps,
      session.heap.memory sub.start = sub.stop - sub.start - 16 + 1 ∧
      session.heap.memory (sub.start + 4) = freeMagic := by
  intro sub subIn
  obtain ⟨arenas, describes⟩ := reaches.describes
  obtain ⟨classes, sound⟩ := describes.wellFormed.sound
  have free : ∀ ptr arena, arenas ptr = some arena → Free arenas ptr arena.extent := by
    rintro ptr ⟨kind, extent⟩ here
    cases kind with
    | free => exact here
    | gap => exact absurd here (describes.wellFormed.whole ptr extent)
    | used =>
      have isLive := (describes.live (ptr + 8)).mpr ⟨ptr, extent, rfl, here⟩
      simp [emptied] at isLive
  obtain ⟨⟨kind, extent⟩, first⟩ := sound.placed.first sub subIn
  have here := free _ _ first
  have bounds := sound.placed.bounded sub subIn
  have inSub : sub.Contains sub.start := ⟨Nat.le_add_right _ _, bounds.2.1⟩
  obtain ⟨-, inside, more⟩ := sound.placed.within subIn inSub here
  have whole : sub.start + extent = sub.stop := by
    refine inside.antisymm (Nat.le_of_not_lt fun less => ?_)
    obtain ⟨next, there⟩ := more less
    exact sound.tagged.separate _ _ _ here (free _ _ there)
  rw [← whole, Nat.add_sub_cancel_left]
  exact sound.tagged.free _ _ here

/-- The only block is freed. -/
theorem emptied_heap_merged_oneBlock :
    (oneBlock.call plainSystem (.free (some 0x110094))).heap.memory 0x11008c = 0x10ff65 := by
  have allowed : oneBlock.Allows (.free (some 0x110094)) := by
    rintro _ ⟨⟩
    decide +kernel
  exact (emptied_heap_merged (reaches_oneBlock.call (plainSystem_grants _) allowed)
    (by decide +kernel) _ (List.mem_cons_self)).1

/-! ## Full heaps -/

/-- The search of `HEAP_FindFreeBlock`, from the list for the size on. -/
def search (heap : Heap) (size : Nat) : Option Nat :=
  searchFreeList heap.memory (heap.head 0) size 0x100000000
    (heap.memory (heap.head (entryOf size) + 8))

/-- An allocation fails only because the arena it found cannot be committed, or because no
free arena has room for the block. -/
def FailsIfFull (system : System) (heap : Heap) (arenas : Arenas) (flags : Flags) (size : Nat) :
    Prop :=
  (∀ ptr, (allocateHeap system heap flags size).2 ≠ .block ptr) →
    (∃ arena sub, search heap (blockSize size) = some arena ∧ findSubHeap heap arena = some sub ∧
      commit system heap sub (add32 (add32 (arena + 8) (blockSize size)) 24) = none) ∨
    ∀ ptr extent, arenas ptr = some ⟨.free, extent⟩ → extent - 8 < blockSize size

theorem allocateHeap_fails_iff :
    (∀ ptr, (allocateHeap system heap flags size).2 ≠ .block ptr) ↔
      findFreeBlock system heap (blockSize size) = none := by
  unfold allocateHeap
  dsimp only
  cases findFreeBlock system heap (blockSize size) with
  | none => exact iff_of_true (noMemory_ne_block _) rfl
  | some => simp

/-- A request has to find a free arena with room for it, if there is one, on its own list or
on one of the larger ones. -/
theorem failsIfFull_iff (system : System) {heap : Heap} {arenas : Arenas}
    (wellFormed : WellFormed heap arenas) (fixed : heap.flags.growable = false) (flags : Flags)
    {size : Nat} (small : size < 0x80000000) :
    FailsIfFull system heap arenas flags size ↔
      ((∃ ptr extent, arenas ptr = some ⟨.free, extent⟩ ∧ blockSize size ≤ extent - 8) →
        ∃ ptr extent, arenas ptr = some ⟨.free, extent⟩ ∧ blockSize size ≤ extent - 8 ∧
          entryOf (blockSize size) ≤ entryOf (extent - 16)) := by
  obtain ⟨classes, sound⟩ := wellFormed.sound
  obtain ⟨bounds, -⟩ := blockSize_bounds (by omega : size ≤ 0xfffffffc)
  rw [FailsIfFull, allocateHeap_fails_iff, findFreeBlock]
  generalize blockSize size = size at bounds ⊢
  have searched := sound.searchFreeList (entryOf_lt bounds.2) size
  unfold search
  generalize found : searchFreeList heap.memory (heap.head 0) size 0x100000000
    (heap.memory (heap.head (entryOf size) + 8)) = result at searched ⊢
  cases result with
  | none =>
    have unseen : ¬ ∃ ptr extent, Free arenas ptr extent ∧ size ≤ extent - 8 ∧
        entryOf size ≤ entryOf (extent - 16) := by
      rintro ⟨ptr, accepted⟩
      obtain ⟨isIn, fits⟩ := (sound.accepts_iff bounds).mpr accepted
      exact List.find?_eq_none.mp searched.symm ptr isIn (decide_eq_true fits)
    simp [fixed, unseen]
  | some arena =>
    obtain ⟨extent, here, accepted⟩ := sound.arena_of_search bounds found
    refine iff_of_true (fun failed => .inl ⟨arena, ?_⟩) fun _ => ⟨arena, extent, here, accepted⟩
    obtain ⟨sub, subIn, inSub⟩ := sound.placed.exists_sub here
    have isSub := sound.findSubHeap subIn inSub
    change (findSubHeap heap arena).bind (fun sub => (commit system heap sub _).map _) = none
      at failed
    rw [isSub, Option.bind_some, Option.map_eq_none_iff] at failed
    exact ⟨sub, rfl, isSub, failed⟩

/-- The block has grown up to an arena of 0x30 bytes at the end of the heap. -/
def crowded : Heap :=
  (oneBlock.call plainSystem (.reAllocate {} (some 0x110094) 0x10ff3c)).heap

theorem crowded_layout :
    ∃ arenas, WellFormed crowded arenas ∧ arenas 0x21ffd0 = some ⟨.free, 0x30⟩ := by
  have allowed : oneBlock.Allows (.reAllocate {} (some 0x110094) 0x10ff3c) :=
    ⟨by decide, by decide⟩
  obtain ⟨arenas, wellFormed, -⟩ := (reaches_oneBlock.call (plainSystem_grants _) allowed).describes
  obtain ⟨classes, sound⟩ := wellFormed.sound
  obtain ⟨word, found⟩ : crowded.memory 0x21ffd0 = 0x21 ∧ search crowded 0x20 = some 0x21ffd0 := by
    decide +kernel
  obtain ⟨extent, free, large, -⟩ := sound.arena_of_search (by decide) found
  obtain rfl : extent = 0x30 := by
    have := word.symm.trans (sound.tagged.free _ _ free).1
    omega
  exact ⟨arenas, wellFormed, free⟩

/-- A request for a small block. -/
theorem failsIfFull_crowded :
    ∃ arenas, WellFormed crowded arenas ∧ FailsIfFull plainSystem crowded arenas {} 0x18 := by
  obtain ⟨arenas, wellFormed, free⟩ := crowded_layout
  exact ⟨arenas, wellFormed, (failsIfFull_iff plainSystem wellFormed (by decide +kernel) {}
    (by decide)).mpr fun _ => ⟨_, _, free, by decide, by decide⟩⟩

/-- A request for all that the free arena can hold, which is on the list for 0x20 bytes. -/
theorem not_failsIfFull_crowded :
    ∃ arenas, WellFormed crowded arenas ∧ crowded.flags.growable = false ∧
      ¬ FailsIfFull plainSystem crowded arenas {} 0x28 := by
  obtain ⟨arenas, wellFormed, free⟩ := crowded_layout
  obtain ⟨failed, unseen, fixed⟩ : (allocateHeap plainSystem crowded {} 0x28).2 = .null ∧
      search crowded (blockSize 0x28) = none ∧ crowded.flags.growable = false := by
    decide +kernel
  refine ⟨arenas, wellFormed, fixed, fun holds => ?_⟩
  rcases holds (by simp [failed]) with ⟨_, _, found, -⟩ | full
  · cases unseen.symm.trans found
  · exact absurd (full _ _ free) (by decide)

end Winex.OldHeap
