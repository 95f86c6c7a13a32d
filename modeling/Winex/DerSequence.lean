import Winex.ByteMemory
import Winex.DerWalk

namespace Winex.Asn

open ByteMemory List Set

/-!
# Decoding sequences

`CRYPT_AsnDecodeSequence` decodes the items of a sequence, each with the decoder that a
table names for it: first without a structure, to learn how much space they need, and
then with one, handing each item the next part of the space behind it.
-/

/-- A decoder of type `InternalDecodeFunc`: what it reports in `*pcbStructInfo` and
`*pcbDecoded` when `pvStructInfo` is `NULL`, and what it reports and does to memory with a
structure and the room there is. -/
structure Decoder where
  size : Input → Nat → Except Failure (Nat × Nat)
  fill : Input → Nat → Nat → Nat → Memory → Except Failure (Nat × Nat) × Memory

/-- `struct AsnDecodeSequenceItem`, without the member `size`. -/
structure SequenceItem where
  tag : UInt8
  offset : Nat
  decodeFunc : Option Decoder
  minSize : Nat
  optional : Bool
  hasPointer : Bool
  pointerOffset : Nat

/-- `ALIGN_DWORD_PTR` -/
def alignDwordPtr (size : Nat) : Nat :=
  (size + 3) % 0x100000000 / 4 * 4

/-- `items[i].size` behind a successful call of the decoder. -/
def SequenceItem.sizeAfter (item : SequenceItem) (size : Nat) : Nat :=
  if size < item.minSize then item.minSize
  else if item.minSize < size then alignDwordPtr size
  else size

/-- The variables of `CRYPT_AsnDecodeSequenceItems`: `ptr - pbEncoded`, which is also
`decoded`, `nextData` and memory; and the dynamic areas handed to items. -/
structure Pass where
  position : Nat
  nextData : Nat
  memory : Memory
  handed : List (Nat × Nat)

/-- `ptr += count; decoded += count` -/
def Pass.advance (pass : Pass) (count : Nat) : Pass :=
  { pass with position := (pass.position + count) % 0x100000000 }

/-- The item's data pointer is set to `nextData`. -/
def Pass.setPointer (pass : Pass) (target : Option Nat) (item : SequenceItem) : Pass :=
  match target with
  | none => pass
  | some pvStructInfo =>
    if pass.nextData ≠ 0 ∧ item.hasPointer then
      { pass with
        memory := storeWord pass.memory (pvStructInfo + item.pointerOffset) pass.nextData }
    else pass

/-- `nextData` behind an item of the given size. -/
def Pass.handOver (pass : Pass) (item : SequenceItem) (size : Nat) : Pass :=
  if pass.nextData ≠ 0 ∧ item.hasPointer then
    { pass with
      nextData :=
        if item.minSize < size then (pass.nextData + (size - item.minSize)) % 0x100000000
        else pass.nextData
      handed := pass.handed ++ [(pass.nextData, size - item.minSize)] }
  else pass

/-- A decoder is called with a structure or without one. -/
def Decoder.call (decoder : Decoder) (input : Input) (len : Nat) (target : Option Nat) (room : Nat)
    (memory : Memory) : Except Failure (Nat × Nat) × Memory :=
  match target with
  | none => (decoder.size input len, memory)
  | some pvStructInfo => decoder.fill input len pvStructInfo room memory

/-- The call of an item's decoder in `CRYPT_AsnDecodeSequenceItems`, and what follows. -/
def callItem (here : Input) (itemEncodedLen : Nat) (target : Option Nat) (item : SequenceItem)
    (decodeFunc : Decoder) (size : Nat) (pass : Pass) : Except Failure Nat × Pass :=
  match decodeFunc.call here itemEncodedLen (target.map (· + item.offset)) size
      pass.memory with
  | (.ok (size, itemDecoded), memory) =>
    let pass := { pass with memory := memory }.handOver item (item.sizeAfter size)
    if itemEncodedLen < itemDecoded then (.error .corrupt, pass)
    else (.ok (item.sizeAfter size), pass.advance itemDecoded)
  | (.error failure, memory) =>
    if item.optional ∧ failure = .badTag then
      (.ok item.minSize, { pass with memory := memory })
    else (.error failure, { pass with memory := memory })

/-- One round of the loop of `CRYPT_AsnDecodeSequenceItems`: `items[i].size` afterwards. -/
def decodeItem (input : Input) (cbEncoded : Nat) (target : Option Nat) (item : SequenceItem)
    (size : Nat) (pass : Pass) : Except Failure Nat × Pass :=
  let left := subWord cbEncoded pass.position
  let here := input.drop pass.position
  if left ≠ 0 then
    match getLengthIndefinite here left with
    | .error failure => (.error failure, pass)
    | .ok itemLen =>
      if here 0 = item.tag ∨ item.tag = 0 then
        let itemEncodedLen :=
          if itemLen = indefiniteLength then left else encodedLength here itemLen
        let pass := pass.setPointer target item
        match item.decodeFunc with
        | some decodeFunc => callItem here itemEncodedLen target item decodeFunc size pass
        | none =>
          if itemLen = indefiniteLength then (.error .corrupt, pass)
          else (.ok item.minSize, pass.advance itemEncodedLen)
      else if item.optional then (.ok item.minSize, pass)
      else (.error .badTag, pass)
  else if item.optional then (.ok item.minSize, pass)
  else (.error .corrupt, pass)

/-- Go on with the next round unless the last one has failed. -/
def andThen {α β σ : Type} (outcome : Except Failure α × σ) (next : α → σ → Except Failure β × σ) :
    Except Failure β × σ :=
  match outcome with
  | (.error failure, state) => (.error failure, state)
  | (.ok value, state) => next value state

/-- `CRYPT_AsnDecodeSequenceItems`: the sizes of the items afterwards. -/
def decodeSequenceItems (input : Input) (cbEncoded : Nat) (target : Option Nat) :
    List (SequenceItem × Nat) → Pass → Except Failure (List Nat) × Pass
  | [], pass => (.ok [], pass)
  | (item, size) :: rest, pass =>
    andThen (decodeItem input cbEncoded target item size pass) fun size pass =>
      andThen (decodeSequenceItems input cbEncoded target rest pass) fun sizes pass =>
        (.ok (size :: sizes), pass)

/-- The variables of the call without a structure. -/
def Pass.sizing : Pass :=
  ⟨0, 0, fun _ => 0, []⟩

/-- What the first pass of `CRYPT_AsnDecodeSequence` finds: the sizes of the items,
`dataLen` and `cbDecoded`. -/
structure Sizes where
  sizes : List Nat
  dataLen : Nat
  cbDecoded : Nat

/-- The end-of-contents octets that are looked for behind the first pass. -/
def endOfContents (ptr : Input) (cbEncoded dataLen cbDecoded : Nat) : Except Failure Nat :=
  if dataLen = indefiniteLength then
    if subWord cbEncoded 2 < cbDecoded then .error .corrupt
    else if ptr cbDecoded ≠ 0 ∨ ptr (cbDecoded + 1) ≠ 0 then .error .corrupt
    else .ok ((cbDecoded + 2) % 0x100000000)
  else .ok cbDecoded

/-- `dataLen`, the rest of the input if the length is indefinite. -/
def sequenceDataLen (len cbEncoded : Nat) : Nat :=
  if len = indefiniteLength then cbEncoded else len

variable (items : List SequenceItem)

/-- The first pass of `CRYPT_AsnDecodeSequence`. -/
def sequenceSizes (input : Input) (cbEncoded : Nat) : Except Failure Sizes :=
  if cbEncoded = 0 then .error .eod
  else if input 0 ≠ 0x30 then .error .badTag
  else
    match getLengthIndefinite input cbEncoded with
    | .error failure => .error failure
    | .ok len =>
      let lenBytes := getLenBytes (input 1)
      let ptr := input.drop (1 + lenBytes)
      let cbEncoded := subWord cbEncoded (1 + lenBytes)
      let dataLen := sequenceDataLen len cbEncoded
      if len ≠ indefiniteLength ∧ cbEncoded < len then .error .corrupt
      else
        match decodeSequenceItems ptr dataLen none (items.map (·, 0)) .sizing with
        | (.error failure, _) => .error failure
        | (.ok sizes, pass) =>
          match endOfContents ptr cbEncoded dataLen pass.position with
          | .error failure => .error failure
          | .ok cbDecoded =>
            if len ≠ indefiniteLength ∧ cbDecoded ≠ dataLen then .error .corrupt
            else .ok ⟨sizes, dataLen, cbDecoded⟩

/-- `structSize` -/
def structSize : Nat :=
  items.foldl (fun size item => max size ((item.offset + item.minSize) % 0x100000000)) 0

/-- `bytesNeeded` -/
def sequenceBytesNeeded (sizes : List Nat) : Nat :=
  ((items.zip sizes).foldl
    (fun needed (item, size) =>
        if item.minSize < size then (needed + (size - item.minSize)) % 0x100000000
        else needed) 0 +
    structSize items) % 0x100000000

/-- `*pcbDecoded` -/
def sequenceDecoded (input : Input) (sizes : Sizes) : Nat :=
  (1 + getLenBytes (input 1) + sizes.cbDecoded) % 0x100000000

/-- `CRYPT_AsnDecodeSequence` without a structure. -/
def sequenceSize (input : Input) (cbEncoded : Nat) : Except Failure (Nat × Nat) :=
  match sequenceSizes items input cbEncoded with
  | .error failure => .error failure
  | .ok sizes => .ok (sequenceBytesNeeded items sizes.sizes, sequenceDecoded input sizes)

/-- The structure that is filled, the room there is, and `startingPointer`. -/
structure Target where
  pvStructInfo : Nat
  room : Nat
  startingPointer : Nat

/-- Where the dynamic data of the items begin. -/
def Target.nextData (target : Target) (items : List SequenceItem) : Nat :=
  if target.startingPointer ≠ 0 then target.startingPointer
  else target.pvStructInfo + structSize items

/-- `CRYPT_AsnDecodeSequence` with a structure. -/
def sequenceFill (input : Input) (cbEncoded : Nat) (target : Target) (memory : Memory)
    : Except Failure (Nat × Nat) × Pass :=
  match sequenceSizes items input cbEncoded with
  | .error failure => (.error failure, ⟨0, 0, memory, []⟩)
  | .ok sizes =>
    let bytesNeeded := sequenceBytesNeeded items sizes.sizes
    if target.room < bytesNeeded then (.error .moreData, ⟨0, 0, memory, []⟩)
    else
      match decodeSequenceItems (input.drop (1 + getLenBytes (input 1))) sizes.dataLen
          (some target.pvStructInfo) (items.zip sizes.sizes)
          ⟨0, target.nextData items, clear memory target.pvStructInfo (structSize items), []⟩ with
      | (.error failure, pass) => (.error failure, pass)
      | (.ok _, pass) => (.ok (bytesNeeded, sequenceDecoded input sizes), pass)

/-! ## The contract of the decoders -/

/-- Where the dynamic data of a decoder go: from the pointer in the given slot of its
structure on. -/
def dataArea (slot : Option Nat) (pvStructInfo count : Nat) (memory : Memory) : Set Nat :=
  match slot with
  | none => ∅
  | some slot => area (loadWord memory (pvStructInfo + slot)) count

/-- The structure and the dynamic data lie below 2^32, and the data pointer is not
`NULL`. -/
def Addressable (slot : Option Nat) (pvStructInfo minSize count : Nat) (memory : Memory) : Prop :=
  pvStructInfo + minSize < 0x100000000 ∧
    ∀ offset, slot = some offset →
      loadWord memory (pvStructInfo + offset) ≠ 0 ∧
        loadWord memory (pvStructInfo + offset) + count < 0x100000000

/-- The two-pass contract of a decoder on an input.  Without a structure it reports a size,
at least `minSize` and small enough to be rounded up, and how much it consumes.  With at
least that much room it reports the same, and fills only `minSize` bytes of the structure
and the rest of the size from its data pointer on, of which a decoder without a data pointer
has none.  It fails again where it has found a wrong tag. -/
structure Honours (decoder : Decoder) (minSize : Nat) (slot : Option Nat) (input : Input)
    (len : Nat) : Prop where
  sized : ∀ size decoded, decoder.size input len = .ok (size, decoded) →
    minSize ≤ size ∧ size ≤ 0xfffffffc ∧ (slot = none → size = minSize)
  filled : ∀ size decoded, decoder.size input len = .ok (size, decoded) →
    ∀ pvStructInfo room memory, size ≤ room →
    Addressable slot pvStructInfo minSize (size - minSize) memory →
    ∃ after, decoder.fill input len pvStructInfo room memory = (.ok (size, decoded), after) ∧
    ChangesOnly (area pvStructInfo minSize ∪ dataArea slot pvStructInfo (size - minSize) memory)
    memory after
  skipped : decoder.size input len = .error .badTag → ∀ pvStructInfo room memory,
    decoder.fill input len pvStructInfo room memory = (.error .badTag, memory)

/-- The slot of an item's data pointer in its own part of the structure. -/
def SequenceItem.slot (item : SequenceItem) : Option Nat :=
  if item.hasPointer then some (item.pointerOffset - item.offset) else none

/-- An entry of a table: its member and its data pointer lie in the structure, and its
decoder honours the contract on every part of the input. -/
structure SequenceItem.Honest (item : SequenceItem) (input : Input) : Prop where
  member : item.offset + item.minSize < 0x100000000
  pointer : item.hasPointer → item.offset ≤ item.pointerOffset ∧
    item.pointerOffset + 4 ≤ item.offset + item.minSize
  honours : ∀ decoder, item.decodeFunc = some decoder →
    ∀ position len, Honours decoder item.minSize item.slot (input.drop position) len

/-! ## The filling pass -/

/-- Areas one behind the other between two addresses. -/
def Stacked : Nat → List (Nat × Nat) → Nat → Prop
  | low, [], high => low ≤ high
  | low, (address, count) :: rest, high => low ≤ address ∧ Stacked (address + count) rest high

variable {high low unused : Nat}

theorem Stacked.append {middle : Nat} {first second : List (Nat × Nat)}
    (below : Stacked low first middle) (above : Stacked middle second high) :
    Stacked low (first ++ second) high := by
  induction first generalizing low with
  | nil =>
    have less : low ≤ middle := below
    cases second with
    | nil => exact less.trans above
    | cons => exact ⟨less.trans above.1, above.2⟩
  | cons _ _ ih => exact ⟨below.1, ih below.2⟩

theorem Stacked.pairwise {areas : List (Nat × Nat)} (stacked : Stacked low areas high) :
    low ≤ high ∧ (∀ entry ∈ areas, low ≤ entry.1 ∧ entry.1 + entry.2 ≤ high) ∧
      areas.Pairwise Apart := by
  induction areas generalizing low with
  | nil => exact ⟨stacked, nofun, .nil⟩
  | cons _ _ ih =>
    obtain ⟨_, above⟩ := stacked
    obtain ⟨_, inside, disjoint⟩ := ih above
    refine ⟨by omega, ?_, ?_⟩
    · rw [forall_mem_cons]
      refine ⟨by omega, fun entry isEntry => ?_⟩
      have := inside entry isEntry
      omega
    · refine .cons (fun entry isEntry => ?_) disjoint
      have := inside entry isEntry
      intro _ first second
      have := first.2
      have := second.1
      omega

variable {item : SequenceItem} {size pvStructInfo : Nat} {before after : Pass} (pass : Pass)
variable {pass' : Pass} {input : Input} {cbEncoded : Nat} {sizes : List Nat}
variable {items}

theorem le_sizeAfter (enough : item.minSize ≤ size) (small : size ≤ 0xfffffffc) :
    size ≤ item.sizeAfter size := by
  unfold SequenceItem.sizeAfter alignDwordPtr
  rw [if_neg (by omega)]
  split <;> omega

/-- The filling pass for an item to which the sizing pass gave a size: it comes to the same
position, hands the item the next part of the space, and changes only the item's member and
that part. -/
structure Fills (item : SequenceItem) (pvStructInfo size position : Nat) (before after : Pass) :
    Prop where
  position : after.position = position
  nextData : after.nextData = before.nextData + (size - item.minSize)
  memory : ChangesOnly (area (pvStructInfo + item.offset) item.minSize ∪
    area before.nextData (size - item.minSize)) before.memory after.memory
  handed : ∃ more, after.handed = before.handed ++ more ∧
    Stacked before.nextData more after.nextData

theorem Fills.skip (nextData : after.nextData = before.nextData)
    (handed : after.handed = before.handed)
    (memory : ChangesOnly (area (pvStructInfo + item.offset) item.minSize) before.memory
      after.memory) : Fills item pvStructInfo item.minSize after.position before after where
  position := rfl
  nextData := by rw [nextData, Nat.sub_self, Nat.add_zero]
  memory := memory.mono subset_union_left
  handed := ⟨[], by rw [handed, append_nil], nextData.ge⟩

theorem Pass.position_handOver_advance (item : SequenceItem) (size count : Nat) :
    ((pass.handOver item size).advance count).position = (pass.position + count) % 0x100000000 := by
  unfold Pass.handOver Pass.advance
  split <;> rfl

theorem Pass.handOver_of_pointer (positive : pass.nextData ≠ 0) (has : item.hasPointer = true)
    (room : pass.nextData + (size - item.minSize) < 0x100000000) :
    pass.handOver item size =
      { pass with
        nextData := pass.nextData + (size - item.minSize)
        handed := pass.handed ++ [(pass.nextData, size - item.minSize)] } := by
  unfold Pass.handOver
  rw [if_pos ⟨positive, has⟩]
  congr 1
  split
  · exact Nat.mod_eq_of_lt room
  · omega

theorem callItem_fills {here : Input} {len : Nat} {decoder : Decoder}
    (honours : Honours decoder item.minSize item.slot here len) {pass : Pass}
    (sized : callItem here len none item decoder unused pass = (.ok size, pass'))
    (same : before.position = pass.position) (positive : before.nextData ≠ 0)
    (pointer : item.hasPointer → item.offset ≤ item.pointerOffset ∧
      loadWord before.memory (pvStructInfo + item.pointerOffset) = before.nextData)
    (member : pvStructInfo + item.offset + item.minSize < 0x100000000)
    (room : before.nextData + (size - item.minSize) < 0x100000000) :
    ∃ after, callItem here len (some pvStructInfo) item decoder size before =
      (.ok size, after) ∧ Fills item pvStructInfo size pass'.position before after := by
  have slots (offset : Nat) (isSlot : item.slot = some offset) :
      item.hasPointer = true ∧ pvStructInfo + item.offset + offset =
        pvStructInfo + item.pointerOffset := by
    unfold SequenceItem.slot at isSlot
    split at isSlot
    next has =>
      have := (pointer has).1
      cases isSlot
      exact ⟨has, by omega⟩
    · cases isSlot
  unfold callItem Decoder.call at sized ⊢
  simp only [Option.map_none, Option.map_some] at sized ⊢
  cases answer : decoder.size here len with
  | error =>
    rw [answer] at sized
    simp only at sized
    split at sized
    next optional =>
      cases sized
      rw [optional.2] at answer
      rw [honours.skipped answer]
      simp only [optional.1, and_self, if_true]
      have fills : Fills item pvStructInfo item.minSize before.position before before :=
        .skip rfl rfl (.refl _ _)
      rw [same] at fills
      exact ⟨_, rfl, fills⟩
    · cases sized
  | ok report =>
    obtain ⟨reported, decoded⟩ := report
    rw [answer] at sized
    simp only at sized
    split at sized
    · cases sized
    rename_i within
    cases sized
    obtain ⟨enough, small, alone⟩ := honours.sized reported decoded answer
    have grows := le_sizeAfter enough small
    have addressable : Addressable item.slot (pvStructInfo + item.offset) item.minSize
        (reported - item.minSize) before.memory := by
      refine ⟨member, fun offset isSlot => ?_⟩
      obtain ⟨has, index⟩ := slots offset isSlot
      rw [index, (pointer has).2]
      exact ⟨positive, by omega⟩
    obtain ⟨after, filled, changes⟩ :=
      honours.filled reported decoded answer _ _ before.memory grows addressable
    rw [filled]
    simp only
    rw [if_neg within, Pass.position_handOver_advance]
    refine ⟨_, rfl, ?_⟩
    rw [← same]
    cases has : item.hasPointer with
    | true =>
      have isSlot : item.slot = some (item.pointerOffset - item.offset) := if_pos has
      have index := (slots _ isSlot).2
      have data : dataArea item.slot (pvStructInfo + item.offset)
          (reported - item.minSize) before.memory =
          area before.nextData (reported - item.minSize) := by
        rw [isSlot, dataArea, index, (pointer has).2]
      rw [data] at changes
      rw [Pass.handOver_of_pointer { before with memory := after } positive has room]
      refine ⟨rfl, rfl, ?_, ?_⟩
      · exact changes.mono (union_subset_union_right _ area_subset)
      · exact ⟨_, rfl, le_rfl, le_rfl⟩
    | false =>
      have isSlot : item.slot = none := if_neg (by simp [has])
      have least : item.sizeAfter reported = item.minSize := by
        rw [alone isSlot]
        simp [SequenceItem.sizeAfter]
      rw [isSlot, dataArea, union_empty] at changes
      rw [Pass.handOver, if_neg (by simp [has]), least]
      refine ⟨rfl, by simp [Pass.advance], ?_, ?_⟩
      · exact changes.mono subset_union_left
      · exact ⟨[], (append_nil _).symm, le_rfl⟩

theorem setPointer_fields (target : Option Nat) (item : SequenceItem) :
    (pass.setPointer target item).position = pass.position ∧
      (pass.setPointer target item).nextData = pass.nextData ∧
      (pass.setPointer target item).handed = pass.handed := by
  unfold Pass.setPointer
  split
  · exact ⟨rfl, rfl, rfl⟩
  · split <;> exact ⟨rfl, rfl, rfl⟩

theorem Fills.of_setPointer {position : Nat}
    (pointer : item.hasPointer → item.offset ≤ item.pointerOffset ∧
      item.pointerOffset + 4 ≤ item.offset + item.minSize)
    (fills : Fills item pvStructInfo size position
      (before.setPointer (some pvStructInfo) item) after) :
    Fills item pvStructInfo size position before after := by
  obtain ⟨-, nextData, handed⟩ := setPointer_fields before (some pvStructInfo) item
  have changes : ChangesOnly (area (pvStructInfo + item.offset) item.minSize) before.memory
      (before.setPointer (some pvStructInfo) item).memory := by
    unfold Pass.setPointer
    simp only
    split
    next has =>
      obtain ⟨_, _⟩ := pointer has.2
      exact (changesOnly_storeWord _ _ _).mono area_subset
    · exact .refl _ _
  refine ⟨fills.position, ?_, ?_, ?_⟩
  · rw [fills.nextData, nextData]
  · have later := fills.memory
    rw [nextData] at later
    exact (changes.mono subset_union_left).trans later
  · have later := fills.handed
    rwa [handed, nextData] at later

theorem decodeItem_fills (honest : item.Honest input) {pass : Pass}
    (sized : decodeItem input cbEncoded none item unused pass = (.ok size, pass'))
    (same : before.position = pass.position) (positive : before.nextData ≠ 0)
    (member : pvStructInfo + item.offset + item.minSize < 0x100000000)
    (room : before.nextData + (size - item.minSize) < 0x100000000) :
    ∃ after, decodeItem input cbEncoded (some pvStructInfo) item size before =
      (.ok size, after) ∧ Fills item pvStructInfo size pass'.position before after := by
  have skips : Fills item pvStructInfo item.minSize pass.position before before := by
    rw [← same]
    exact .skip rfl rfl (.refl _ _)
  have setting := setPointer_fields before (some pvStructInfo) item
  unfold decodeItem at sized ⊢
  simp only [same] at sized ⊢
  split at sized
  next left =>
    rw [if_pos left]
    split at sized
    · cases sized
    rename_i itemLen _
    split at sized
    next tagged =>
      simp only [if_pos tagged]
      split at sized
      next decoder isDecoder =>
        have pointer : item.hasPointer → item.offset ≤ item.pointerOffset ∧
            loadWord (before.setPointer (some pvStructInfo) item).memory
              (pvStructInfo + item.pointerOffset) =
              (before.setPointer (some pvStructInfo) item).nextData := by
          intro has
          refine ⟨(honest.pointer has).1, ?_⟩
          simp only [Pass.setPointer]
          rw [if_pos ⟨positive, has⟩]
          exact loadWord_storeWord _ _ (by omega)
        obtain ⟨after, filled, fills⟩ :=
          callItem_fills (honest.honours decoder isDecoder _ _) sized
            (setting.1.trans same) (setting.2.1 ▸ positive) pointer member
            (setting.2.1 ▸ room)
        exact ⟨after, filled, fills.of_setPointer honest.pointer⟩
      · split at sized
        · cases sized
        next definite =>
          cases sized
          simp only [if_neg definite]
          refine ⟨_, rfl, .of_setPointer honest.pointer ?_⟩
          generalize hidden : before.setPointer (some pvStructInfo) item = ready
          rw [hidden] at setting
          have position : (pass.setPointer none item).position = ready.position :=
            (setting.1.trans same).symm
          generalize encodedLength (input.drop pass.position) itemLen = count
          have fills : Fills item pvStructInfo item.minSize (ready.advance count).position
              ready (ready.advance count) := .skip rfl rfl (.refl _ _)
          have advanced : ((pass.setPointer none item).advance count).position =
              (ready.advance count).position :=
            congrArg (fun position => (position + count) % 0x100000000) position
          rw [advanced]
          exact fills
    next untagged =>
      split at sized
      next optional =>
        cases sized
        rw [if_neg untagged, if_pos optional]
        exact ⟨_, rfl, skips⟩
      · cases sized
  next atEnd =>
    rw [if_neg atEnd]
    split at sized
    next optional =>
      cases sized
      rw [if_pos optional]
      exact ⟨_, rfl, skips⟩
    · cases sized

/-- The dynamic sizes of items, with no bound. -/
def dynamicSize : List (SequenceItem × Nat) → Nat
  | [] => 0
  | (item, size) :: rest => (size - item.minSize) + dynamicSize rest

theorem andThen_ok {α β σ : Type} {outcome : Except Failure α × σ}
    {next : α → σ → Except Failure β × σ} {value : β} {after : σ} :
    andThen outcome next = (.ok value, after) ↔
      ∃ first middle, outcome = (.ok first, middle) ∧ next first middle = (.ok value, after) := by
  obtain ⟨result, _⟩ := outcome
  cases result with
  | error failure | ok first => simp [andThen]

theorem decodeSequenceItems_cons {target : Option Nat} {items : List (SequenceItem × Nat)}
    {pass : Pass} :
    decodeSequenceItems input cbEncoded target ((item, size) :: items) pass = (.ok sizes, after) ↔
      ∃ first middle rest, decodeItem input cbEncoded target item size pass = (.ok first, middle) ∧
        decodeSequenceItems input cbEncoded target items middle = (.ok rest, after) ∧
        first :: rest = sizes := by
  simp only [decodeSequenceItems, andThen_ok, Prod.mk.injEq, Except.ok.injEq, exists_and_left,
    exists_eq_right_right]

variable (honest : ∀ item ∈ items, item.Honest input)

include honest in
theorem decodeSequenceItems_fills {pass : Pass}
    (sized : decodeSequenceItems input cbEncoded none (items.map (·, 0)) pass = (.ok sizes, pass'))
    {pvStructInfo structSize : Nat} (same : before.position = pass.position)
    (positive : before.nextData ≠ 0)
    (members : ∀ item ∈ items, item.offset + item.minSize ≤ structSize)
    (struct : pvStructInfo + structSize < 0x100000000)
    (room : before.nextData + dynamicSize (items.zip sizes) < 0x100000000) :
    ∃ after, decodeSequenceItems input cbEncoded (some pvStructInfo) (items.zip sizes) before =
        (.ok sizes, after) ∧
      after.position = pass'.position ∧
      after.nextData = before.nextData + dynamicSize (items.zip sizes) ∧
      ChangesOnly (area pvStructInfo structSize ∪
        area before.nextData (dynamicSize (items.zip sizes))) before.memory after.memory ∧
      ∃ more, after.handed = before.handed ++ more ∧
        Stacked before.nextData more after.nextData := by
  induction items generalizing sizes pass before with
  | nil =>
    cases sized
    exact ⟨before, rfl, same, rfl, .refl _ _, [], (append_nil _).symm, le_rfl⟩
  | cons item _ ih =>
    rw [forall_mem_cons] at honest members
    rw [map_cons, decodeSequenceItems_cons] at sized
    obtain ⟨_, _, _, first, rest, rfl⟩ := sized
    simp only [zip_cons_cons, dynamicSize] at room ⊢
    obtain ⟨_, filled, fills⟩ := decodeItem_fills honest.1 first same positive
      (by omega : pvStructInfo + item.offset + item.minSize < 0x100000000) (by omega)
    obtain ⟨after, filledRest, position, nextData, memory, more, handed, stacked⟩ :=
      ih honest.2 rest fills.position
        (by rw [fills.nextData]; omega) members.2 (by rw [fills.nextData]; omega)
    obtain ⟨here, handedHere, stackedHere⟩ := fills.handed
    refine ⟨after, ?_, position, ?_, ?_, here ++ more, ?_, ?_⟩
    · exact decodeSequenceItems_cons.mpr ⟨_, _, _, filled, filledRest, rfl⟩
    · rw [nextData, fills.nextData, Nat.add_assoc]
    · rw [fills.nextData] at memory
      refine (fills.memory.mono ?_).trans (memory.mono ?_)
      · exact union_subset_union area_subset area_subset
      · exact union_subset_union le_rfl area_subset
    · rw [handed, handedHere, append_assoc]
    · exact stackedHere.append stacked

/-! ## Both passes -/

theorem member_le_structSize (members : ∀ item ∈ items, item.offset + item.minSize < 0x100000000) :
    ∀ item ∈ items, item.offset + item.minSize ≤ structSize items := by
  have grows (start : Nat) :
      let last := items.foldl
        (fun size item => max size ((item.offset + item.minSize) % 0x100000000)) start
      start ≤ last ∧ ∀ item ∈ items, item.offset + item.minSize ≤ last := by
    induction items generalizing start with
    | nil => exact ⟨le_rfl, nofun⟩
    | cons item _ ih =>
      rw [forall_mem_cons] at members
      obtain ⟨low, rest⟩ :=
        ih members.2 (max start ((item.offset + item.minSize) % 0x100000000))
      rw [Nat.mod_eq_of_lt members.1] at low rest
      simp only [foldl_cons, forall_mem_cons, Nat.mod_eq_of_lt members.1]
      exact ⟨(le_max_left _ _).trans low, (le_max_right _ _).trans low, rest⟩
  exact (grows 0).2

/-- The size reported for a structure, if it can be counted. -/
theorem sequenceBytesNeeded_eq
    (fits : dynamicSize (items.zip sizes) + structSize items < 0x100000000) :
    sequenceBytesNeeded items sizes = dynamicSize (items.zip sizes) + structSize items := by
  have sums (entries : List (SequenceItem × Nat)) (start : Nat)
      (small : start + dynamicSize entries < 0x100000000) :
      entries.foldl
        (fun needed (item, size) =>
          if item.minSize < size then (needed + (size - item.minSize)) % 0x100000000
          else needed) start = start + dynamicSize entries := by
    induction entries generalizing start with
    | nil => rfl
    | cons entry _ ih =>
      obtain ⟨item, size⟩ := entry
      simp only [dynamicSize] at small ⊢
      have next : (if item.minSize < size then
          (start + (size - item.minSize)) % 0x100000000 else start) =
            start + (size - item.minSize) := by split <;> omega
      rw [foldl_cons, next, ih _ (by omega), Nat.add_assoc]
  rw [sequenceBytesNeeded, sums _ 0 (by omega), Nat.zero_add, Nat.mod_eq_of_lt fits]

theorem SequenceItem.Honest.drop (honest : item.Honest input) (count : Nat) :
    item.Honest (input.drop count) where
  __ := honest
  honours := by
    intro decoder isDecoder _ _
    rw [Input.drop_drop]
    exact honest.honours decoder isDecoder _ _

/-- A sequence that is accepted: its items are, and a definite length is used up. -/
theorem of_sequenceSizes {sizes : Sizes}
    (sized : sequenceSizes items input cbEncoded = .ok sizes) :
    (∃ pass, decodeSequenceItems (input.drop (1 + getLenBytes (input 1))) sizes.dataLen none
      (items.map (·, 0)) .sizing = (.ok sizes.sizes, pass)) ∧
    ∀ len, getLengthIndefinite input cbEncoded = .ok len → len ≠ indefiniteLength →
      sizes.cbDecoded = len := by
  unfold sequenceSizes at sized
  simp only at sized
  iterate 3
    split at sized
    · cases sized
  rename_i len read
  iterate 2
    split at sized
    · cases sized
  rename_i accepted
  iterate 2
    split at sized
    · cases sized
  rename_i consumed
  cases sized
  refine ⟨⟨_, accepted⟩, fun len read' definite => ?_⟩
  cases read.symm.trans read'
  have isLen (rest : Nat) : sequenceDataLen len rest = len := if_neg definite
  rw [isLen] at consumed
  exact not_not.mp fun other => consumed ⟨definite, other⟩

/-- The space of a call fits: the structure lies in memory, and so do the dynamic data. -/
structure Target.InMemory (target : Target) (items : List SequenceItem) (needed : Nat) : Prop where
  room : needed ≤ target.room
  struct : target.pvStructInfo + structSize items < 0x100000000
  data : target.nextData items + (needed - structSize items) < 0x100000000
  notNull : target.nextData items ≠ 0

/-- The filling call reports the same again, changes only the structure and as much dynamic
data as was reported, and hands the items disjoint parts of these. -/
structure FillsStructure (outcome : Except Failure (Nat × Nat) × Pass)
    (needed decoded pvStructInfo structSize data : Nat) (memory : Memory) : Prop where
  result : outcome.1 = .ok (needed, decoded)
  changes : ChangesOnly (area pvStructInfo structSize ∪ area data (needed - structSize)) memory
    outcome.2.memory
  inside : ∀ entry ∈ outcome.2.handed,
    data ≤ entry.1 ∧ entry.1 + entry.2 ≤ data + (needed - structSize)
  disjoint : outcome.2.handed.Pairwise Apart

/-- The sizes of the items, rounded up, and the structure can be counted in a `DWORD`. -/
def SequenceFits (items : List SequenceItem) (input : Input) (cbEncoded : Nat) : Prop :=
  ∀ sizes, sequenceSizes items input cbEncoded = .ok sizes →
    dynamicSize (items.zip sizes.sizes) + structSize items < 0x100000000

include honest in
/-- The filling call after a sizing call that was accepted. -/
theorem sequenceFill_fills (fits : SequenceFits items input cbEncoded) {needed decoded : Nat}
    (sized : sequenceSize items input cbEncoded = .ok (needed, decoded)) {target : Target}
    (inMemory : target.InMemory items needed) (memory : Memory) :
    FillsStructure (sequenceFill items input cbEncoded target memory) needed decoded
      target.pvStructInfo (structSize items) (target.nextData items) memory := by
  unfold sequenceSize at sized
  split at sized
  · cases sized
  rename_i sizes accepted
  cases sized
  have small := fits sizes accepted
  have size := sequenceBytesNeeded_eq small
  obtain ⟨_, struct, data, notNull⟩ := inMemory
  have dynamic : sequenceBytesNeeded items sizes.sizes - structSize items =
      dynamicSize (items.zip sizes.sizes) := by omega
  rw [dynamic] at data
  obtain ⟨⟨_, first⟩, -⟩ := of_sequenceSizes accepted
  obtain ⟨after, filled, -, nextData, changes, _, handed, stacked⟩ :=
    decodeSequenceItems_fills (fun item isItem => (honest item isItem).drop _) first
      (rfl : (Pass.mk 0 (target.nextData items)
        (clear memory target.pvStructInfo (structSize items)) []).position = 0) notNull
      (member_le_structSize fun item isItem => (honest item isItem).member) struct data
  have outcome : sequenceFill items input cbEncoded target memory =
      (.ok (sequenceBytesNeeded items sizes.sizes, sequenceDecoded input sizes), after) := by
    unfold sequenceFill
    simp only [accepted, filled]
    rw [if_neg (by omega)]
  rw [nextData] at stacked
  obtain ⟨-, inside, disjoint⟩ := stacked.pairwise
  rw [outcome]
  refine ⟨rfl, ?_, ?_, ?_⟩
  · rw [dynamic]
    exact ((changesOnly_clear _ _ _).mono subset_union_left).trans changes
  · rw [dynamic, handed]
    exact inside
  · rw [handed]
    exact disjoint

/-- A decoder for a sequence, with the first data pointer of its structure in the given
slot. -/
def sequenceDecoder (items : List SequenceItem) (slot : Nat) : Decoder where
  size := sequenceSize items
  fill input len pvStructInfo room memory :=
    let target := ⟨pvStructInfo, room, loadWord memory (pvStructInfo + slot)⟩
    let outcome := sequenceFill items input len target memory
    (outcome.1, outcome.2.memory)

include honest in
theorem sequenceDecoder_honours
    (small : ∀ sizes, sequenceSizes items input cbEncoded = .ok sizes →
      dynamicSize (items.zip sizes.sizes) + structSize items ≤ 0xfffffffc) (slot : Nat) :
    Honours (sequenceDecoder items slot) (structSize items) (some slot) input cbEncoded := by
  have fits : SequenceFits items input cbEncoded := by
    intro sizes accepted
    have := small sizes accepted
    omega
  refine ⟨?_, ?_, ?_⟩
  · intro _ _ sized
    simp only [sequenceDecoder, sequenceSize] at sized
    split at sized
    · cases sized
    rename_i sizes accepted
    cases sized
    have := small sizes accepted
    rw [sequenceBytesNeeded_eq (fits sizes accepted)]
    exact ⟨by omega, by omega, nofun⟩
  · intro size _ sized pvStructInfo room memory enough addressable
    obtain ⟨notNull, data⟩ := addressable.2 slot rfl
    have nextData : Target.nextData ⟨pvStructInfo, room, loadWord memory (pvStructInfo + slot)⟩
        items = loadWord memory (pvStructInfo + slot) := if_pos notNull
    have filled := sequenceFill_fills honest fits sized
      (⟨enough, addressable.1, nextData.symm ▸ data, nextData.symm ▸ notNull⟩ :
        Target.InMemory ⟨pvStructInfo, room, loadWord memory (pvStructInfo + slot)⟩ items size)
      memory
    refine ⟨_, Prod.ext filled.result rfl, ?_⟩
    have changes := filled.changes
    rw [nextData] at changes
    exact changes
  · intro refused _ _ _
    simp only [sequenceDecoder, sequenceSize] at refused
    split at refused
    next accepted =>
      cases refused
      simp only [sequenceDecoder, sequenceFill, accepted]
    · cases refused

end Winex.Asn
