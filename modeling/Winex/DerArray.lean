import Winex.DerSequence

namespace Winex.Asn

open ByteMemory Looping List Nat Set

/-!
# Decoding arrays

`CRYPT_AsnDecodeArray` decodes the elements of an array with one decoder.  The sizing
pass goes on behind the encoding of an element, the filling pass behind the bytes that
the decoder has consumed; it puts the dynamic data of the elements behind them.
-/

/-- `struct AsnArrayDescriptor` -/
structure ArrayDescriptor where
  tag : UInt8
  countOffset : Nat
  arrayOffset : Nat
  minArraySize : Nat
  decodeFunc : Decoder
  itemSize : Nat
  hasPointer : Bool
  pointerOffset : Nat

/-- `struct AsnArrayItemSize` -/
structure ArrayItemSize where
  encodedLen : Nat
  size : Nat
deriving DecidableEq

/-- The variables of the sizing pass; `position` is `ptr - pbEncoded`. -/
structure ArraySizing where
  position : Nat
  decoded : Nat
  bytesNeeded : Nat
  itemSizes : List ArrayItemSize
deriving DecidableEq

/-- `itemEncoded`, all that is left of the input if the length is indefinite. -/
def itemEncodedLen (here : Input) (left itemDataLen : Nat) : Nat :=
  if itemDataLen = indefiniteLength then left else encodedLength here itemDataLen

variable (arrayDesc : ArrayDescriptor)

/-- An element is sized. -/
def sizeElement (here : Input) (left : Nat) (state : ArraySizing) :
    ArraySizing ⊕ Except Failure ArraySizing :=
  match getLengthIndefinite here left with
  | .error failure => .inr (.error failure)
  | .ok itemDataLen =>
    match arrayDesc.decodeFunc.size here (itemEncodedLen here left itemDataLen) with
    | .error failure => .inr (.error failure)
    | .ok (size, itemDecoded) =>
      .inl ⟨(state.position + itemEncodedLen here left itemDataLen) % 0x100000000,
        (state.decoded + itemDecoded) % 0x100000000,
        (state.bytesNeeded + size) % 0x100000000,
        state.itemSizes ++ [⟨itemEncodedLen here left itemDataLen, size⟩]⟩

variable (input : Input)

/-- One round of the sizing pass. -/
def arraySizeStep (cbEncoded dataLen : Nat) (state : ArraySizing)
    : ArraySizing ⊕ Except Failure ArraySizing :=
  if dataLen = indefiniteLength ∧ input state.position = 0 then
    if input (state.position + 1) ≠ 0 then .inr (.error .corrupt)
    else .inr (.ok { state with decoded := (state.decoded + 2) % 0x100000000 })
  else if dataLen ≠ indefiniteLength ∧
      dataLen ≤ subWord state.position (1 + getLenBytes (input 1)) then .inr (.ok state)
  else
    sizeElement arrayDesc (input.drop state.position) (subWord cbEncoded state.position) state

/-- The variables in front of the sizing pass. -/
def ArraySizing.start : ArraySizing :=
  ⟨1 + getLenBytes (input 1), 1 + getLenBytes (input 1), arrayDesc.minArraySize, []⟩

/-- The sizing pass of `CRYPT_AsnDecodeArray`, for so many rounds: `dataLen`, and the
variables behind it. -/
def arraySizes (cbEncoded fuel : Nat) : Option (Except Failure (Nat × ArraySizing)) :=
  if cbEncoded = 0 then some (.error .eod)
  else if arrayDesc.tag ≠ 0 ∧ input 0 ≠ arrayDesc.tag then some (.error .badTag)
  else
    match getLengthIndefinite input cbEncoded with
    | .error failure => some (.error failure)
    | .ok dataLen =>
      if dataLen = 0 then some (.ok (0, .start arrayDesc input))
      else
        (run (arraySizeStep arrayDesc input cbEncoded dataLen) fuel
          (.start arrayDesc input)).map fun result => result.map fun state => (dataLen, state)

/-- `CRYPT_AsnDecodeArray` without a structure. -/
def arraySize (cbEncoded fuel : Nat) : Option (Except Failure (Nat × Nat)) :=
  (arraySizes arrayDesc input cbEncoded fuel).map fun result =>
    result.map fun (_, state) => (state.bytesNeeded, state.decoded)

/-- The item's data pointer is set to `nextData`. -/
def setItemPointer (address nextData : Nat) (memory : Memory) : Memory :=
  if arrayDesc.hasPointer then storeWord memory (address + arrayDesc.pointerOffset) nextData
  else memory

/-- The variables of the filling pass behind an element. -/
def nextElement (pass : Pass) (size itemDecoded : Nat) : Pass where
  position := (pass.position + itemDecoded) % 0x100000000
  nextData := (pass.nextData + subWord size arrayDesc.itemSize) % 0x100000000
  memory := pass.memory
  handed :=
    if arrayDesc.hasPointer then
      pass.handed ++ [(pass.nextData, size - arrayDesc.itemSize)]
    else pass.handed

/-- One round of the filling pass. -/
def fillElement (address : Nat) (item : ArrayItemSize) (pass : Pass) : Except Failure Unit × Pass :=
  let outcome :=
    arrayDesc.decodeFunc.fill (input.drop pass.position) item.encodedLen address item.size
      (setItemPointer arrayDesc address pass.nextData pass.memory)
  andThen (outcome.1, { pass with memory := outcome.2 }) fun report pass =>
    (.ok (), nextElement arrayDesc pass report.1 report.2)

/-- The loop of the filling pass from an element on. -/
def fillItems (arrayDesc : ArrayDescriptor) (input : Input) (dataLen rgItems : Nat) :
    Nat → List ArrayItemSize → Pass → Except Failure Unit × Pass
  | _, [], pass => (.ok (), pass)
  | index, item :: rest, pass =>
    if dataLen ≤ subWord pass.position (1 + getLenBytes (input 1)) then (.ok (), pass)
    else
      andThen
        (fillElement arrayDesc input (rgItems + index * arrayDesc.itemSize) item pass)
        fun _ pass => fillItems arrayDesc input dataLen rgItems (index + 1) rest pass

/-- `CRYPT_AsnDecodeArray` with a structure and the room there is.  The structure holds
the array pointer. -/
def arrayFill (cbEncoded fuel pvStructInfo room : Nat) (memory : Memory)
    : Option (Except Failure (Nat × Nat) × Pass) :=
  (arraySizes arrayDesc input cbEncoded fuel).map fun result =>
    match result with
    | .error failure => (.error failure, ⟨0, 0, memory, []⟩)
    | .ok (dataLen, state) =>
      if room < state.bytesNeeded then (.error .moreData, ⟨0, 0, memory, []⟩)
      else
        let cItems := state.itemSizes.length
        let memory := storeWord memory pvStructInfo cItems
        let rgItems :=
          loadWord memory (pvStructInfo + (arrayDesc.arrayOffset - arrayDesc.countOffset))
        andThen
          (fillItems arrayDesc input dataLen rgItems 0 state.itemSizes
            ⟨1 + getLenBytes (input 1),
              (rgItems + cItems * arrayDesc.itemSize) % 0x100000000, memory, []⟩)
          fun _ pass => (.ok (state.bytesNeeded, state.decoded), pass)

/-! ## The sizing pass -/

/-- Where the sizing pass is behind elements. -/
def endOf : Nat → List ArrayItemSize → Nat
  | position, [] => position
  | position, item :: rest => endOf ((position + item.encodedLen) % 0x100000000) rest

/-- The decoder has given elements their sizes, from a position on. -/
def SizedFrom (arrayDesc : ArrayDescriptor) (input : Input) (dataLen : Nat) :
    Nat → List ArrayItemSize → Prop
  | _, [] => True
  | position, item :: rest =>
    subWord position (1 + getLenBytes (input 1)) < dataLen ∧
      (∃ decoded, arrayDesc.decodeFunc.size (input.drop position) item.encodedLen =
        .ok (item.size, decoded)) ∧
      SizedFrom arrayDesc input dataLen ((position + item.encodedLen) % 0x100000000) rest

/-- The sizes of elements, with no bound. -/
def totalSize : List ArrayItemSize → Nat
  | [] => 0
  | item :: rest => item.size + totalSize rest

theorem endOf_concat (position : Nat) (items : List ArrayItemSize) (item : ArrayItemSize) :
    endOf position (items ++ [item]) = (endOf position items + item.encodedLen) % 0x100000000 := by
  induction items generalizing position with
  | nil => rfl
  | cons _ _ ih => exact ih _

theorem totalSize_concat (items : List ArrayItemSize) (item : ArrayItemSize) :
    totalSize (items ++ [item]) = totalSize items + item.size := by
  induction items with
  | nil => simp [totalSize]
  | cons _ _ ih =>
    simp [totalSize, ih]
    omega

variable {arrayDesc input} {dataLen : Nat}
variable {items : List ArrayItemSize} {state next : ArraySizing} {cbEncoded fuel decoded : Nat}

variable {item : ArrayItemSize} {position address : Nat}

theorem SizedFrom.concat (sized : SizedFrom arrayDesc input dataLen position items)
    (last : SizedFrom arrayDesc input dataLen (endOf position items) [item]) :
    SizedFrom arrayDesc input dataLen position (items ++ [item]) := by
  induction items generalizing position with
  | nil => exact last
  | cons _ _ ih => exact ⟨sized.1, sized.2.1, ih sized.2.2 last⟩

/-- What the variables of the sizing pass say. -/
structure ArraySizing.Describes (arrayDesc : ArrayDescriptor) (input : Input) (dataLen : Nat)
    (state : ArraySizing) : Prop where
  sized : SizedFrom arrayDesc input dataLen (1 + getLenBytes (input 1)) state.itemSizes
  position : state.position = endOf (1 + getLenBytes (input 1)) state.itemSizes
  needed : state.bytesNeeded = (arrayDesc.minArraySize + totalSize state.itemSizes) % 0x100000000

theorem sizeElement_cases (arrayDesc : ArrayDescriptor) (here : Input) (left : Nat)
    (state : ArraySizing) :
    (∃ failure, sizeElement arrayDesc here left state = .inr (.error failure)) ∨
      ∃ itemEncoded size itemDecoded,
        arrayDesc.decodeFunc.size here itemEncoded = .ok (size, itemDecoded) ∧
        sizeElement arrayDesc here left state =
          .inl ⟨(state.position + itemEncoded) % 0x100000000,
            (state.decoded + itemDecoded) % 0x100000000,
            (state.bytesNeeded + size) % 0x100000000,
            state.itemSizes ++ [⟨itemEncoded, size⟩]⟩ := by
  unfold sizeElement
  cases getLengthIndefinite here left with
  | error failure => exact .inl ⟨failure, rfl⟩
  | ok itemDataLen =>
    dsimp only
    cases answer : arrayDesc.decodeFunc.size here (itemEncodedLen here left itemDataLen) with
    | error failure => exact .inl ⟨failure, rfl⟩
    | ok report => exact .inr ⟨_, report.1, report.2, answer, rfl⟩

/-- A round of the sizing pass that goes on has sized an element of the contents. -/
theorem arraySizeStep_next
    (went : arraySizeStep arrayDesc input cbEncoded dataLen state = .inl next) :
    (dataLen ≠ indefiniteLength → subWord state.position (1 + getLenBytes (input 1)) < dataLen) ∧
    sizeElement arrayDesc (input.drop state.position) (subWord cbEncoded state.position)
      state = .inl next := by
  unfold arraySizeStep at went
  split at went
  · split at went <;> exact absurd went Sum.inr_ne_inl
  split at went
  · exact absurd went Sum.inr_ne_inl
  next inside =>
    refine ⟨fun definite => ?_, went⟩
    by_contra outside
    exact inside ⟨definite, not_lt.mp outside⟩

theorem arraySizeStep_last (definite : dataLen ≠ indefiniteLength) {last : ArraySizing}
    (stops : arraySizeStep arrayDesc input cbEncoded dataLen state = .inr (.ok last)) :
    last = state := by
  unfold arraySizeStep at stops
  split at stops
  next isIndefinite => exact absurd isIndefinite.1 definite
  · split at stops
    · exact (Except.ok.inj (Sum.inr.inj stops)).symm
    rcases sizeElement_cases arrayDesc (input.drop state.position)
      (subWord cbEncoded state.position) state with ⟨_, failed⟩ | ⟨_, _, _, -, sized⟩
    · cases failed.symm.trans stops
    · cases sized.symm.trans stops

/-- One round of the sizing pass keeps what the variables say. -/
theorem ArraySizing.Describes.step (definite : dataLen ≠ indefiniteLength)
    (describes : state.Describes arrayDesc input dataLen)
    (went : arraySizeStep arrayDesc input cbEncoded dataLen state = .inl next) :
    next.Describes arrayDesc input dataLen := by
  obtain ⟨sized, position, needed⟩ := describes
  obtain ⟨inside, element⟩ := arraySizeStep_next went
  rcases sizeElement_cases arrayDesc (input.drop state.position)
    (subWord cbEncoded state.position) state with
    ⟨_, failed⟩ | ⟨itemEncoded, size, itemDecoded, answer, isNext⟩
  · cases failed.symm.trans element
  cases isNext.symm.trans element
  rw [position] at inside answer
  refine ⟨sized.concat ⟨inside definite, ⟨itemDecoded, answer⟩, trivial⟩, ?_, ?_⟩
  · rw [endOf_concat, position]
  · rw [totalSize_concat, needed, mod_add_mod, add_assoc]

theorem arraySizes_describes (small : arrayDesc.minArraySize < 0x100000000)
    (accepted : arraySizes arrayDesc input cbEncoded fuel = some (.ok (dataLen, state)))
    (definite : dataLen ≠ indefiniteLength) : state.Describes arrayDesc input dataLen := by
  have start : (ArraySizing.start arrayDesc input).Describes arrayDesc input dataLen :=
    ⟨trivial, rfl, (mod_eq_of_lt small).symm⟩
  unfold arraySizes at accepted
  iterate 3
    split at accepted
    · cases accepted
  split at accepted
  · cases accepted
    exact start
  obtain ⟨result, ended, mapped⟩ := Option.map_eq_some_iff.mp accepted
  cases result with
  | error => cases mapped
  | ok =>
    cases mapped
    obtain ⟨_, meets, stops⟩ := Meets.of_run ended
    have describes := meets.invariant (ArraySizing.Describes arrayDesc input dataLen)
      start (fun _ _ _ describes went => describes.step definite went)
    rw [arraySizeStep_last definite stops]
    exact describes

/-! ## The filling pass -/

/-- The slot of an element's data pointer. -/
def ArrayDescriptor.slot (arrayDesc : ArrayDescriptor) : Option Nat :=
  if arrayDesc.hasPointer then some arrayDesc.pointerOffset else none

/-- The data pointer of an element lies in the element, the count and the array pointer lie
in the structure, and the decoder honours the contract on every part of the input. -/
structure ArrayDescriptor.Honest (arrayDesc : ArrayDescriptor) (input : Input) : Prop where
  pointer : arrayDesc.hasPointer → arrayDesc.pointerOffset + 4 ≤ arrayDesc.itemSize
  array : arrayDesc.countOffset + 4 ≤ arrayDesc.arrayOffset ∧
    arrayDesc.arrayOffset + 4 ≤ arrayDesc.countOffset + arrayDesc.minArraySize
  small : arrayDesc.minArraySize < 0x100000000
  honours : ∀ position len,
    Honours arrayDesc.decodeFunc arrayDesc.itemSize arrayDesc.slot (input.drop position) len

/-- Behind every element but the last the filling pass is where the sizing pass was: the
decoder has consumed exactly the element's encoding. -/
def ConsumesElements (arrayDesc : ArrayDescriptor) (input : Input) : Nat → List ArrayItemSize → Prop
  | _, [] => True
  | _, [_] => True
  | position, item :: next :: rest =>
    (∀ size decoded, arrayDesc.decodeFunc.size (input.drop position) item.encodedLen =
      .ok (size, decoded) → decoded = item.encodedLen) ∧
    ConsumesElements arrayDesc input ((position + item.encodedLen) % 0x100000000) (next :: rest)

/-- The dynamic sizes of elements, with no bound. -/
def dynamicSizes (arrayDesc : ArrayDescriptor) : List ArrayItemSize → Nat
  | [] => 0
  | item :: rest => (item.size - arrayDesc.itemSize) + dynamicSizes arrayDesc rest

variable (honest : arrayDesc.Honest input)

/-- Setting the data pointer of an element prepares the call of its decoder. -/
theorem setItemPointer_spec {nextData count : Nat}
    (pointer : arrayDesc.hasPointer → arrayDesc.pointerOffset + 4 ≤ arrayDesc.itemSize)
    (inside : address + arrayDesc.itemSize < 0x100000000) (notNull : nextData ≠ 0)
    (room : nextData + count < 0x100000000) (memory : Memory) :
    Addressable arrayDesc.slot address arrayDesc.itemSize count
        (setItemPointer arrayDesc address nextData memory) ∧
      ChangesOnly (area address arrayDesc.itemSize) memory
        (setItemPointer arrayDesc address nextData memory) ∧
      dataArea arrayDesc.slot address count (setItemPointer arrayDesc address nextData memory) ⊆
        area nextData count := by
  unfold ArrayDescriptor.slot setItemPointer
  split
  next has =>
    have fits := pointer has
    have stored := loadWord_storeWord memory (address + arrayDesc.pointerOffset)
      (by omega : nextData < 0x100000000)
    refine ⟨⟨inside, ?_⟩, ?_, ?_⟩
    · intro _ isSlot
      cases isSlot
      rw [stored]
      exact ⟨notNull, room⟩
    · exact (changesOnly_storeWord _ _ _).mono area_subset
    · rw [dataArea, stored]
  · exact ⟨⟨inside, fun _ isSlot => by cases isSlot⟩, .refl _ _, empty_subset _⟩

include honest in
theorem fillElement_fills {pass : Pass}
    (sized : arrayDesc.decodeFunc.size (input.drop pass.position) item.encodedLen =
      .ok (item.size, decoded)) (inside : address + arrayDesc.itemSize < 0x100000000)
    (notNull : pass.nextData ≠ 0)
    (room : pass.nextData + (item.size - arrayDesc.itemSize) < 0x100000000) :
    ∃ after, fillElement arrayDesc input address item pass = (.ok (), after) ∧
      after.position = (pass.position + decoded) % 0x100000000 ∧
      after.nextData = pass.nextData + (item.size - arrayDesc.itemSize) ∧
      ChangesOnly (area address arrayDesc.itemSize ∪
        area pass.nextData (item.size - arrayDesc.itemSize)) pass.memory after.memory ∧
      ∃ more, after.handed = pass.handed ++ more ∧ Stacked pass.nextData more after.nextData := by
  have honours := honest.honours pass.position item.encodedLen
  obtain ⟨enough, _, _⟩ := honours.sized _ _ sized
  have advanced : (pass.nextData + subWord item.size arrayDesc.itemSize) % 0x100000000 =
      pass.nextData + (item.size - arrayDesc.itemSize) := by
    rw [subWord_eq enough]
    exact mod_eq_of_lt room
  obtain ⟨addressable, pointerSet, data⟩ :=
    setItemPointer_spec honest.pointer inside notNull room pass.memory
  obtain ⟨after, filled, changes⟩ := honours.filled _ _ sized address item.size _ le_rfl addressable
  refine ⟨nextElement arrayDesc { pass with memory := after } item.size decoded, ?_, rfl,
    advanced, ?_, ?_⟩
  · unfold fillElement
    rw [filled]
    rfl
  · exact (pointerSet.mono subset_union_left).trans
      (changes.mono (union_subset_union_right _ data))
  · cases has : arrayDesc.hasPointer with
    | true => exact ⟨_, if_pos has, le_rfl, advanced.ge⟩
    | false =>
      refine ⟨[], ?_, (le_add_right _ _).trans advanced.ge⟩
      rw [append_nil]
      exact if_neg (by simp [has])

include honest in
theorem fillItems_fills {rgItems index : Nat} (pass : Pass)
    (sized : SizedFrom arrayDesc input dataLen pass.position items)
    (consumes : ConsumesElements arrayDesc input pass.position items)
    (elements : rgItems + (index + items.length) * arrayDesc.itemSize < 0x100000000)
    (notNull : pass.nextData ≠ 0)
    (room : pass.nextData + dynamicSizes arrayDesc items < 0x100000000) :
    ∃ after, fillItems arrayDesc input dataLen rgItems index items pass = (.ok (), after) ∧
      after.nextData = pass.nextData + dynamicSizes arrayDesc items ∧
      ChangesOnly
        (area (rgItems + index * arrayDesc.itemSize) (items.length * arrayDesc.itemSize) ∪
          area pass.nextData (dynamicSizes arrayDesc items)) pass.memory after.memory ∧
      ∃ more, after.handed = pass.handed ++ more ∧ Stacked pass.nextData more after.nextData := by
  induction items generalizing index pass with
  | nil => exact ⟨pass, rfl, rfl, .refl _ _, [], (append_nil _).symm, le_rfl⟩
  | cons item rest ih =>
    obtain ⟨_, ⟨_, answer⟩, sizedRest⟩ := sized
    rw [length_cons] at elements ⊢
    have product : (index + (rest.length + 1)) * arrayDesc.itemSize =
        index * arrayDesc.itemSize + arrayDesc.itemSize + rest.length * arrayDesc.itemSize := by
      ring
    have shift : (index + 1) * arrayDesc.itemSize =
        index * arrayDesc.itemSize + arrayDesc.itemSize := by ring
    have count : (rest.length + 1) * arrayDesc.itemSize =
        rest.length * arrayDesc.itemSize + arrayDesc.itemSize := by ring
    simp only [dynamicSizes] at room ⊢
    obtain ⟨middle, filled, position, nextData, changes, here, handed, stacked⟩ :=
      fillElement_fills honest answer
        (by omega : rgItems + index * arrayDesc.itemSize + arrayDesc.itemSize < 0x100000000)
        notNull (by omega)
    have goesOn : fillItems arrayDesc input dataLen rgItems index (item :: rest) pass =
        fillItems arrayDesc input dataLen rgItems (index + 1) rest middle := by
      rw [fillItems, if_neg (by omega), filled]
      rfl
    cases rest with
    | nil =>
      -- behind the last element it does not matter how much was consumed
      refine ⟨middle, goesOn, ?_, ?_, here, handed, stacked⟩
      · simpa [dynamicSizes] using nextData
      · simpa [dynamicSizes] using changes
    | cons next rest =>
      obtain ⟨consumed, consumesRest⟩ := consumes
      have same : middle.position = (pass.position + item.encodedLen) % 0x100000000 := by
        rw [position, consumed _ _ answer]
      rw [← same] at sizedRest consumesRest
      have elementsRest : rgItems + (index + 1 + (next :: rest).length) *
          arrayDesc.itemSize < 0x100000000 := by
        rw [add_mul]
        omega
      obtain ⟨after, filledRest, nextDataRest, changesRest, more, handedRest, stackedRest⟩ :=
        ih _ sizedRest consumesRest elementsRest (by rw [nextData]; omega) (by rw [nextData]; omega)
      refine ⟨after, goesOn.trans filledRest, ?_, ?_, here ++ more, ?_, ?_⟩
      · rw [nextDataRest, nextData, add_assoc]
      · refine (changes.mono ?_).trans (changesRest.mono ?_) <;>
          exact union_subset_union area_subset area_subset
      · rw [handedRest, handed, append_assoc]
      · exact stacked.append stackedRest

/-! ## Both passes -/

include honest in
theorem totalSize_eq (sized : SizedFrom arrayDesc input dataLen position items) :
    totalSize items = items.length * arrayDesc.itemSize + dynamicSizes arrayDesc items := by
  induction items generalizing position with
  | nil => simp [totalSize, dynamicSizes]
  | cons _ rest ih =>
    obtain ⟨-, ⟨_, answer⟩, sizedRest⟩ := sized
    have enough := ((honest.honours _ _).sized _ _ answer).1
    have count : (rest.length + 1) * arrayDesc.itemSize =
        rest.length * arrayDesc.itemSize + arrayDesc.itemSize := by ring
    rw [totalSize, dynamicSizes, length_cons, ih sizedRest]
    omega

/-- The space of a call fits: the structure lies in memory, and so do the elements and
their dynamic data, from the array pointer in the structure on. -/
structure ArrayInMemory (arrayDesc : ArrayDescriptor) (needed pvStructInfo room : Nat)
    (memory : Memory) : Prop where
  room : needed ≤ room
  struct : pvStructInfo + arrayDesc.minArraySize < 0x100000000
  notNull : loadWord memory (pvStructInfo + (arrayDesc.arrayOffset - arrayDesc.countOffset)) ≠ 0
  data : loadWord memory (pvStructInfo + (arrayDesc.arrayOffset - arrayDesc.countOffset)) +
    (needed - arrayDesc.minArraySize) < 0x100000000

/-- The sizes of the elements and the structure can be counted in a `DWORD`, and every
element but the last is consumed whole. -/
def ArrayFits (arrayDesc : ArrayDescriptor) (input : Input) (cbEncoded fuel : Nat) : Prop :=
  ∀ dataLen state, arraySizes arrayDesc input cbEncoded fuel = some (.ok (dataLen, state)) →
    dataLen ≠ indefiniteLength ∧
      arrayDesc.minArraySize + totalSize state.itemSizes < 0x100000000 ∧
      ConsumesElements arrayDesc input (1 + getLenBytes (input 1)) state.itemSizes

include honest in
/-- The filling call after a sizing call that was accepted. -/
theorem arrayFill_fills (fits : ArrayFits arrayDesc input cbEncoded fuel) {needed : Nat}
    (sized : arraySize arrayDesc input cbEncoded fuel = some (.ok (needed, decoded)))
    {pvStructInfo room : Nat} {memory : Memory}
    (inMemory : ArrayInMemory arrayDesc needed pvStructInfo room memory) :
    ∃ outcome, arrayFill arrayDesc input cbEncoded fuel pvStructInfo room memory = some outcome ∧
      FillsStructure outcome needed decoded pvStructInfo arrayDesc.minArraySize
        (loadWord memory (pvStructInfo + (arrayDesc.arrayOffset - arrayDesc.countOffset)))
        memory := by
  obtain ⟨result, accepted, mapped⟩ := Option.map_eq_some_iff.mp sized
  cases result with
  | error => cases mapped
  | ok found =>
    obtain ⟨dataLen, state⟩ := found
    cases mapped
    obtain ⟨definite, small, consumes⟩ := fits dataLen state accepted
    obtain ⟨_, _, _, data⟩ := inMemory
    have describes := arraySizes_describes honest.small accepted definite
    have size : state.bytesNeeded = arrayDesc.minArraySize + totalSize state.itemSizes := by
      rw [describes.needed, mod_eq_of_lt small]
    have total := totalSize_eq honest describes.sized
    have dynamic : state.bytesNeeded - arrayDesc.minArraySize =
        totalSize state.itemSizes := by omega
    obtain ⟨_, _⟩ := honest.array
    have counted := changesOnly_storeWord memory pvStructInfo state.itemSizes.length
    have pointer := counted.loadWord_eq
      (fun other inside both => by
        have := inside.1
        have := both.2
        omega :
        ∀ other ∈ area (pvStructInfo + (arrayDesc.arrayOffset - arrayDesc.countOffset)) 4,
          other ∉ area pvStructInfo 4)
    generalize isItems : loadWord memory
      (pvStructInfo + (arrayDesc.arrayOffset - arrayDesc.countOffset)) = rgItems at *
    have begins : (rgItems + state.itemSizes.length * arrayDesc.itemSize) % 0x100000000 =
        rgItems + state.itemSizes.length * arrayDesc.itemSize :=
      mod_eq_of_lt (by omega)
    obtain ⟨after, filled, nextData, changes, _, handed, stacked⟩ :=
      fillItems_fills honest
        ⟨1 + getLenBytes (input 1), rgItems + state.itemSizes.length * arrayDesc.itemSize,
          storeWord memory pvStructInfo state.itemSizes.length, []⟩
        describes.sized consumes
        (by rw [zero_add]; omega : rgItems + (0 + state.itemSizes.length) *
          arrayDesc.itemSize < 0x100000000)
        (by dsimp only; omega) (by dsimp only; omega)
    refine ⟨(.ok (state.bytesNeeded, state.decoded), after), ?_, ?_⟩
    · unfold arrayFill
      rw [accepted, Option.map_some]
      dsimp only
      rw [if_neg (by omega), pointer, begins, filled]
      rfl
    · rw [nextData] at stacked
      dsimp only at changes stacked
      obtain ⟨-, inside, disjoint⟩ := stacked.pairwise
      refine ⟨rfl, ?_, ?_, ?_⟩
      · rw [dynamic]
        refine (counted.mono ?_).trans (changes.mono ?_)
        · exact subset_union_of_subset_left area_subset _
        · refine union_subset ?_ ?_ <;>
            exact subset_union_of_subset_right area_subset _
      · rw [dynamic, handed]
        intro entry isEntry
        have := inside entry isEntry
        omega
      · rw [handed]
        exact disjoint

/-- After an accepted sizing call both decoders fill their structures, inside the space they
have reported and with disjoint parts of it for the items, if that space can be counted and
every element of an array but the last is consumed whole. -/
theorem twoPass_fills (input : Input) (cbEncoded : Nat) :
    (∀ items : List SequenceItem,
      (∀ item ∈ items, item.Honest input) → SequenceFits items input cbEncoded →
      ∀ needed decoded, sequenceSize items input cbEncoded = .ok (needed, decoded) →
      ∀ target : Target, target.InMemory items needed → ∀ memory,
        FillsStructure (sequenceFill items input cbEncoded target memory) needed decoded
          target.pvStructInfo (structSize items) (target.nextData items) memory) ∧
    ∀ (arrayDesc : ArrayDescriptor) (fuel : Nat),
      arrayDesc.Honest input → ArrayFits arrayDesc input cbEncoded fuel →
      ∀ needed decoded, arraySize arrayDesc input cbEncoded fuel = some (.ok (needed, decoded)) →
      ∀ pvStructInfo room memory, ArrayInMemory arrayDesc needed pvStructInfo room memory →
        ∃ outcome, arrayFill arrayDesc input cbEncoded fuel pvStructInfo room memory =
            some outcome ∧
          FillsStructure outcome needed decoded pvStructInfo arrayDesc.minArraySize
            (loadWord memory (pvStructInfo + (arrayDesc.arrayOffset - arrayDesc.countOffset)))
            memory := by
  constructor
  · intro _ honest fits _ _ sized _ inMemory memory
    exact sequenceFill_fills honest fits sized inMemory memory
  · intro _ _ honest fits _ _ sized _ _ _ inMemory
    exact arrayFill_fills honest fits sized inMemory

/-- A decoder for an array whose sizing pass takes at most so many rounds. -/
def arrayDecoder (arrayDesc : ArrayDescriptor) (fuel : Nat) : Decoder where
  size input cbEncoded := (arraySize arrayDesc input cbEncoded fuel).getD (.error .eod)
  fill input cbEncoded pvStructInfo room memory :=
    match arrayFill arrayDesc input cbEncoded fuel pvStructInfo room memory with
    | none => (.error .eod, memory)
    | some outcome => (outcome.1, outcome.2.memory)

include honest in
theorem arrayDecoder_honours (fits : ArrayFits arrayDesc input cbEncoded fuel)
    (small : ∀ dataLen state,
      arraySizes arrayDesc input cbEncoded fuel = some (.ok (dataLen, state)) →
        arrayDesc.minArraySize + totalSize state.itemSizes ≤ 0xfffffffc) :
    Honours (arrayDecoder arrayDesc fuel) arrayDesc.minArraySize
      (some (arrayDesc.arrayOffset - arrayDesc.countOffset)) input cbEncoded := by
  have accepts {size decoded : Nat}
      (sized : (arrayDecoder arrayDesc fuel).size input cbEncoded = .ok (size, decoded)) :
      arraySize arrayDesc input cbEncoded fuel = some (.ok (size, decoded)) := by
    simp only [arrayDecoder] at sized
    cases run : arraySize arrayDesc input cbEncoded fuel <;> rw [run] at sized
    · cases sized
    · exact congrArg some sized
  refine ⟨?_, ?_, ?_⟩
  · intro _ _ sized
    obtain ⟨result, accepted, mapped⟩ := Option.map_eq_some_iff.mp (accepts sized)
    cases result with
    | error => cases mapped
    | ok found =>
      obtain ⟨dataLen, state⟩ := found
      cases mapped
      have bound := small dataLen state accepted
      have describes := arraySizes_describes honest.small accepted (fits dataLen state accepted).1
      rw [describes.needed, mod_eq_of_lt (by omega)]
      exact ⟨by omega, bound, nofun⟩
  · intro _ _ sized _ _ memory enough addressable
    obtain ⟨notNull, data⟩ := addressable.2 _ rfl
    obtain ⟨outcome, run, filled⟩ := arrayFill_fills honest fits (accepts sized)
      ⟨enough, addressable.1, notNull, data⟩
    refine ⟨outcome.2.memory, ?_, filled.changes⟩
    simp only [arrayDecoder, run, filled.result]
  · intro refused _ _ _
    simp only [arrayDecoder, arraySize, arrayFill] at refused ⊢
    generalize arraySizes arrayDesc input cbEncoded fuel = run at refused ⊢
    cases run with
    | none => cases refused
    | some result =>
      cases result with
      | error =>
        cases refused
        rfl
      | ok => cases refused

/-! ## Examples -/

/-- What `CRYPT_AsnDecodeBool` reports. -/
def boolSize (input : Input) (cbEncoded : Nat) : Except Failure (Nat × Nat) :=
  if cbEncoded < 3 then .error .corrupt
  else if 1 < getLenBytes (input 1) then .error .corrupt
  else if 1 < (input 1).toNat then .error .corrupt
  else .ok (4, 3)

/-- `CRYPT_AsnDecodeBool` -/
def decodeBool : Decoder where
  size := boolSize
  fill input cbEncoded pvStructInfo room memory :=
    match boolSize input cbEncoded with
    | .error failure => (.error failure, memory)
    | .ok report =>
      if room < 4 then (.error .moreData, memory)
      else (.ok report, storeWord memory pvStructInfo (if input 2 = 0 then 0 else 1))

theorem boolSize_ok {size : Nat} (sized : boolSize input cbEncoded = .ok (size, decoded)) :
    size = 4 ∧ decoded = 3 := by
  unfold boolSize at sized
  iterate 3
    split at sized
    · cases sized
  cases sized
  exact ⟨rfl, rfl⟩

/-- The decoder for truth values honours the contract. -/
theorem decodeBool_honours (input : Input) (cbEncoded : Nat) :
    Honours decodeBool 4 none input cbEncoded := by
  refine ⟨?_, ?_, ?_⟩
  · intro _ _ sized
    obtain ⟨rfl, rfl⟩ := boolSize_ok sized
    exact ⟨le_rfl, by decide, fun _ => rfl⟩
  · intro size decoded sized pvStructInfo _ memory _ _
    have accepted : boolSize input cbEncoded = .ok (size, decoded) := sized
    obtain ⟨rfl, rfl⟩ := boolSize_ok sized
    refine ⟨storeWord memory pvStructInfo (if input 2 = 0 then 0 else 1), ?_, ?_⟩
    · simp only [decodeBool, accepted]
      rw [if_neg (by omega)]
    · exact (changesOnly_storeWord _ _ _).mono subset_union_left
  · intro refused
    have failed : boolSize input cbEncoded = .error .badTag := refused
    unfold boolSize at failed
    split_ifs at failed <;> cases failed

/-- A structure with a truth value. -/
def boolTable : List SequenceItem :=
  [⟨0x01, 0, some decodeBool, 4, false, false, 0⟩]

theorem boolTable_honest (input : Input) : ∀ item ∈ boolTable, item.Honest input := by
  refine forall_mem_singleton.mpr ⟨by decide, nofun, ?_⟩
  rintro _ ⟨⟩ _ _
  exact decodeBool_honours _ _

/-- An array of truth values. -/
def boolArray : ArrayDescriptor :=
  ⟨0x30, 0, 4, 8, decodeBool, 4, false, 0⟩

/-- Two truth values. -/
def twoBools : Input :=
  .ofList [0x30, 0x06, 0x01, 0x01, 0xff, 0x01, 0x01, 0x00]

theorem boolArray_honest (input : Input) : boolArray.Honest input :=
  ⟨nofun, by decide, by decide, fun _ _ => decodeBool_honours _ _⟩

theorem arraySizes_twoBools :
    arraySizes boolArray twoBools 8 3 = some (.ok (6, ⟨8, 8, 16, [⟨3, 4⟩, ⟨3, 4⟩]⟩)) := by
  decide +kernel

theorem boolArray_fits : ArrayFits boolArray twoBools 8 3 := by
  intro _ _ accepted
  cases arraySizes_twoBools.symm.trans accepted
  refine ⟨by decide, by decide, ?_, trivial⟩
  intro _ _ sized
  simp only [boolArray, decodeBool] at sized
  exact (boolSize_ok sized).2

/-- A structure and an array of truth values are filled. -/
theorem twoPass_fills_bool :
    FillsStructure
      (sequenceFill boolTable (.ofList [0x30, 0x03, 0x01, 0x01, 0xff]) 5 ⟨0x1000, 4, 0⟩
        fun _ => 0) 4 5 0x1000 4 0x1004 (fun _ => 0) ∧
    ∃ outcome, arrayFill boolArray twoBools 8 3 0x1000 16
        (storeWord (fun _ => 0) 0x1004 0x2000) = some outcome ∧
      FillsStructure outcome 16 8 0x1000 8 0x2000 (storeWord (fun _ => 0) 0x1004 0x2000) := by
  constructor
  · refine (twoPass_fills _ 5).1 boolTable (boolTable_honest _) (fun _ accepted => ?_) 4 5
      (by decide +kernel) ⟨0x1000, 4, 0⟩ ⟨by decide, by decide, by decide, by decide⟩ _
    cases accepted
    decide
  · exact (twoPass_fills _ 8).2 boolArray 3 (boolArray_honest _) boolArray_fits 16 8
      (by decide +kernel) 0x1000 16 _ ⟨by decide, by decide, by decide +kernel, by decide +kernel⟩

/-- A structure with a truth value as a member of its own. -/
theorem sequenceDecoder_honours_bool :
    Honours (sequenceDecoder boolTable 0) 4 (some 0) (.ofList [0x30, 0x03, 0x01, 0x01, 0xff])
      5 := by
  refine sequenceDecoder_honours (boolTable_honest _) (fun sizes accepted => ?_) 0
  cases accepted
  decide

/-- An array of two truth values. -/
theorem arrayDecoder_honours_bool :
    Honours (arrayDecoder boolArray 3) 8 (some 4) twoBools 8 := by
  refine arrayDecoder_honours (boolArray_honest _) boolArray_fits fun _ _ accepted => ?_
  cases arraySizes_twoBools.symm.trans accepted
  decide

/-- A decoder for octet strings that consumes only their header. -/
def headerDecoder : Decoder where
  size input _ := if input 0 = 0x04 then .ok (4, 2) else .error .badTag
  fill input _ _ _ memory := (if input 0 = 0x04 then .ok (4, 2) else .error .badTag, memory)

/-- An array of octet strings. -/
def headerArray : ArrayDescriptor :=
  ⟨0x30, 0, 4, 8, headerDecoder, 4, false, 0⟩

/-- The decoder honours the contract and the sizing call accepts two elements, but the
filling call looks for the second one inside the first. -/
theorem arrayFill_fails :
    (∀ input, headerArray.Honest input) ∧
    arraySize headerArray
      (.ofList [0x30, 0x06, 0x04, 0x01, 0xaa, 0x04, 0x01, 0xbb]) 8 3 = some (.ok (16, 6)) ∧
    ArrayInMemory headerArray 16 0x1000 16 (storeWord (fun _ => 0) 0x1004 0x2000) ∧
    (arrayFill headerArray
      (.ofList [0x30, 0x06, 0x04, 0x01, 0xaa, 0x04, 0x01, 0xbb]) 8 3 0x1000 16
      (storeWord (fun _ => 0) 0x1004 0x2000)).map Prod.fst = some (.error .badTag) := by
  refine ⟨fun input => ⟨nofun, by decide, by decide, fun position len => ⟨?_, ?_, ?_⟩⟩,
    by decide +kernel,
    ⟨by decide, by decide, by decide +kernel, by decide +kernel⟩,
    by decide +kernel⟩
  · intro _ _ sized
    simp only [headerArray, headerDecoder] at sized
    split at sized
    · cases sized
      exact ⟨le_rfl, by decide, fun _ => rfl⟩
    · cases sized
  · intro _ _ sized _ _ memory _ _
    simp only [headerArray, headerDecoder] at sized ⊢
    rw [sized]
    exact ⟨memory, rfl, .refl _ _⟩
  · intro refused _ _ _
    simp only [headerArray, headerDecoder] at refused ⊢
    rw [refused]

end Winex.Asn
