import Winex.DerArray

namespace Winex.Asn

open Looping List

/-!
# Values of definite and indefinite length

What the decoders make of values in the basic encoding rules.  A value has a definite
length, or its contents are values followed by end-of-contents octets.
-/

/-- The values whose lengths the decoders can read. -/
inductive Readable : List UInt8 → Prop where
  | definite {tag : UInt8} {field content : List UInt8} : tag ≠ 0 →
      LengthField field content.length → field.length ≤ 5 → Readable (tag :: (field ++ content))
  | indefinite {tag : UInt8} {values : List (List UInt8)} : tag ≠ 0 →
      (∀ value ∈ values, Readable value) → Readable (tag :: 0x80 :: (values.flatten ++ [0, 0]))

/-- A value with a length field in the long form and no contents: it is refused where
the input ends behind it. -/
def LongEmpty (value : List UInt8) : Prop :=
  ∃ tag field, value = tag :: field ∧ 2 ≤ field.length ∧ LengthField field 0

/-! ## One value -/

/-- The variables of `CRYPT_FindEncodedLen` at an offset. -/
def Find.at (cbEncoded offset levels : Nat) : Find :=
  ⟨offset, cbEncoded - offset, levels, offset⟩

theorem Find.at_skip {cbEncoded offset count : Nat} (word : cbEncoded < 0x100000000)
    (inside : offset + count ≤ cbEncoded) (old levels : Nat) :
    (Find.at cbEncoded offset old).skip count levels =
      Find.at cbEncoded (offset + count) levels := by
  simp only [Find.at, Find.skip]
  rw [subWord_eq, Nat.mod_eq_of_lt (by omega), Nat.sub_sub]

section Rounds

variable {input : Input} {cbEncoded offset levels len count : Nat} {old : Nat}

theorem findStep_definite (word : cbEncoded < 0x100000000) (left : offset < cbEncoded)
    (read : getLengthIndefinite (input.drop offset) (cbEncoded - offset) = .ok len)
    (definite : len ≠ indefiniteLength) (length : encodedLength (input.drop offset) len = count)
    (inside : offset + count ≤ cbEncoded) (after : levelsAfter (input.drop offset) old = levels) :
    findStep input (.at cbEncoded offset old) =
      if levels = 0 then .inr (.ok (offset + count))
      else .inl (.at cbEncoded (offset + count) levels) := by
  have more : cbEncoded - offset ≠ 0 := (Nat.sub_pos_of_lt left).ne'
  have skipped := Find.at_skip word inside old levels
  simp only [Find.at] at skipped
  simp only [findStep, Find.at, read, after, length]
  rw [if_neg more, if_neg definite, skipped]
  split
  next isLast =>
    rw [isLast]
    rfl
  · rfl

theorem findStep_indefinite (old : Nat) (word : cbEncoded < 0x100000000)
    (left : offset + 2 ≤ cbEncoded)
    (read : getLengthIndefinite (input.drop offset) (cbEncoded - offset) = .ok indefiniteLength)
    (octets : getLenBytes (input.drop offset 1) = 1) :
    findStep input (.at cbEncoded offset old) = .inl (.at cbEncoded (offset + 2) (old + 1)) := by
  have more : cbEncoded - offset ≠ 0 := by omega
  have skipped := Find.at_skip word left old (old + 1)
  simp only [Find.at] at skipped
  simp only [findStep, Find.at, read, octets, if_true]
  rw [if_neg more, skipped]

theorem read_endOfContents (levels : Nat) (holds : (input.drop offset).Holds [0, 0])
    (left : offset + 2 ≤ cbEncoded) :
    getLengthIndefinite (input.drop offset) (cbEncoded - offset) = .ok 0 ∧
      encodedLength (input.drop offset) 0 = 2 ∧
      levelsAfter (input.drop offset) (levels + 1) = levels := by
  have first : input.drop offset 0 = 0 := holds 0 _ rfl
  have second : input.drop offset 1 = 0 := holds 1 _ rfl
  refine ⟨?_, ?_, ?_⟩
  · unfold getLengthIndefinite
    rw [if_neg (by omega), second]
    simp
    omega
  · rw [encodedLength, second]
    rfl
  · rw [levelsAfter, first, second]
    simp

end Rounds

variable {here : Input} {tag : UInt8} {field : List UInt8} {left : Nat} {input : Input}
variable {cbEncoded : Nat} {value : List UInt8} {offset : Nat} {arrayDesc : ArrayDescriptor}

variable {content : List UInt8} {items : List SequenceItem} {len dataLen : Nat}
  {state : ArraySizing} {elements : List (List UInt8)}

theorem read_definite (isField : LengthField field content.length) (short : field.length ≤ 5)
    (holds : here.Holds (tag :: (field ++ content))) (word : left < 0x100000000)
    (enough : (tag :: (field ++ content)).length ≤ left)
    (follows : LongEmpty (tag :: (field ++ content)) → (tag :: (field ++ content)).length < left) :
    here 0 = tag ∧ getLengthIndefinite here left = .ok content.length ∧
      content.length ≠ indefiniteLength ∧ getLenBytes (here 1) = field.length ∧
      encodedLength here content.length = (tag :: (field ++ content)).length := by
  simp only [length_cons, length_append] at enough follows ⊢
  have header : here.Holds (tag :: field) := by exact holds.append.1
  have small : content.length < indefiniteLength := by
    unfold indefiniteLength
    omega
  have space : field.length = 1 ∨ 2 + field.length ≤ left := by
    by_cases one : field.length = 1
    · exact .inl one
    by_cases empty : content.length = 0
    · have isEmpty := eq_nil_of_length_eq_zero empty
      subst isEmpty
      have := isField.length_pos
      have := follows ⟨tag, field, by rw [append_nil], by omega, isField⟩
      omega
    · omega
  obtain ⟨read, octets⟩ := isField.read header short small (by omega) space
  refine ⟨holds 0 tag rfl, read, Nat.ne_of_lt small, octets, ?_⟩
  rw [encodedLength]
  omega

theorem read_indefinite {rest : List UInt8} (holds : here.Holds (tag :: 0x80 :: rest))
    (enough : 2 ≤ left) :
    getLengthIndefinite here left = .ok indefiniteLength ∧ getLenBytes (here 1) = 1 := by
  have first : here 1 = 0x80 := holds 1 _ rfl
  unfold getLengthIndefinite getLenBytes
  rw [first, if_neg (by omega)]
  exact ⟨rfl, rfl⟩

theorem meets_flatten {levels : Nat} {values : List (List UInt8)}
    (skips : ∀ value ∈ values, ∀ offset, (input.drop offset).Holds value →
      offset + value.length + 2 ≤ cbEncoded →
      Meets (findStep input) (.at cbEncoded offset levels)
        (.at cbEncoded (offset + value.length) levels)) {offset : Nat}
    (holds : (input.drop offset).Holds values.flatten)
    (inside : offset + values.flatten.length + 2 ≤ cbEncoded) :
    Meets (findStep input) (.at cbEncoded offset levels)
      (.at cbEncoded (offset + values.flatten.length) levels) := by
  induction values generalizing offset with
  | nil => exact .start
  | cons _ _ ih =>
    rw [forall_mem_cons] at skips
    rw [flatten_cons] at holds inside ⊢
    rw [length_append] at inside ⊢
    obtain ⟨here, there⟩ := holds.append
    rw [Input.drop_drop] at there
    rw [← Nat.add_assoc]
    exact (skips.1 offset here (by omega)).trans (ih skips.2 there (by omega))

theorem Readable.lastRound (readable : Readable value) (levels : Nat)
    (word : cbEncoded < 0x100000000) (holds : (input.drop offset).Holds value)
    (inside : offset + value.length ≤ cbEncoded)
    (follows : LongEmpty value → offset + value.length < cbEncoded) :
    ∃ last, Meets (findStep input) (.at cbEncoded offset levels) last ∧
      findStep input last =
        if levels = 0 then .inr (.ok (offset + value.length))
        else .inl (.at cbEncoded (offset + value.length) levels) := by
  induction readable generalizing offset levels with
  | @definite tag field content notZero isField short =>
    obtain ⟨isTag, read, definite, -, length⟩ :=
      read_definite isField short holds (by omega : cbEncoded - offset < 0x100000000)
        (by omega) (fun long => by have := follows long; omega)
    have same : levelsAfter (input.drop offset) levels = levels := by
      refine if_neg ?_
      rw [isTag]
      exact fun both => notZero both.1
    exact ⟨_, .start, findStep_definite word (by simp at inside; omega) read definite length
      inside same⟩
  | @indefinite tag values notZero readable ih =>
    simp only [length_cons, length_append, length_nil] at inside ⊢
    obtain ⟨read, octets⟩ := read_indefinite holds (by omega : 2 ≤ cbEncoded - offset)
    have behind := (Input.holds_cons.mp (Input.holds_cons.mp holds).2).2
    obtain ⟨contents, ending⟩ := behind.append
    rw [Input.drop_drop] at ending
    have opens := findStep_indefinite levels word (by omega) read octets
    have walks : Meets (findStep input) (.at cbEncoded (offset + 1 + 1) (levels + 1))
        (.at cbEncoded (offset + 1 + 1 + values.flatten.length) (levels + 1)) := by
      refine meets_flatten (fun value isValue offset holds inside => ?_) contents (by omega)
      obtain ⟨_, met, skips⟩ :=
        ih value isValue (levels + 1) holds (by omega) fun _ => by omega
      exact met.next (skips.trans (if_neg (Nat.succ_ne_zero levels)))
    obtain ⟨readEnd, lengthEnd, levelsEnd⟩ :=
      read_endOfContents levels ending
        (by omega : offset + 1 + 1 + values.flatten.length + 2 ≤ cbEncoded)
    have closes := findStep_definite word (by omega) readEnd (by decide) lengthEnd (by omega)
      levelsEnd
    have total : offset + 1 + 1 + values.flatten.length + 2 =
        offset + (values.flatten.length + (0 + 1 + 1) + 1 + 1) := by omega
    rw [total] at closes
    exact ⟨_, (Meets.next .start opens).trans walks, closes⟩

/-! ## Arrays -/

/-- A value of definite length. -/
def DefiniteValue (value : List UInt8) : Prop :=
  ∃ tag field content, value = tag :: (field ++ content) ∧ tag ≠ 0 ∧
    LengthField field content.length ∧ field.length ≤ 5

/-- The bytes handed to the decoder of an element: all that is left of the input if its
length is indefinite. -/
def elementLength (value : List UInt8) (left : Nat) : Nat :=
  if value[1]? = some 0x80 then left else value.length

theorem LengthField.head_ne (isField : LengthField field len) : field[0]? ≠ some 0x80 := by
  cases isField with
  | @short byte small =>
    intro same
    cases same
    exact absurd small (by decide)
  | @long octets one many =>
    intro same
    have first := congrArg UInt8.toNat (Option.some.inj same)
    rw [toNat_ofNat (by omega)] at first
    have : (0x80 : UInt8).toNat = 0x80 := rfl
    omega

theorem DefiniteValue.elementLength_eq (definite : DefiniteValue value) (left : Nat) :
    elementLength value left = value.length := by
  obtain ⟨_, _, _, rfl, -, isField, -⟩ := definite
  refine if_neg ?_
  have positive := isField.length_pos
  rw [getElem?_cons_succ, getElem?_append_left (by omega)]
  exact isField.head_ne

theorem Readable.element (readable : Readable value) (word : left < 0x100000000)
    (holds : here.Holds value) (inside : value.length ≤ left)
    (follows : LongEmpty value → value.length < left) :
    ∃ len, getLengthIndefinite here left = .ok len ∧
      itemEncodedLen here left len = elementLength value left := by
  cases readable with
  | @definite tag field content notZero isField short =>
    obtain ⟨-, read, definite, -, length⟩ := read_definite isField short holds word inside follows
    have whole : DefiniteValue (tag :: (field ++ content)) :=
      ⟨tag, field, content, rfl, notZero, isField, short⟩
    refine ⟨_, read, ?_⟩
    rw [whole.elementLength_eq, ← length]
    exact if_neg definite
  | @indefinite tag values notZero readable =>
    simp only [length_cons] at inside
    obtain ⟨read, -⟩ := read_indefinite holds (by omega : 2 ≤ left)
    have handed : itemEncodedLen here left indefiniteLength = left := if_pos rfl
    have rest : elementLength (tag :: 0x80 :: (values.flatten ++ [0, 0])) left = left := if_pos rfl
    exact ⟨_, read, handed.trans rest.symm⟩

theorem DefiniteValue.readable (definite : DefiniteValue value) : Readable value := by
  obtain ⟨_, _, _, rfl, notZero, isField, short⟩ := definite
  exact .definite notZero isField short

theorem Readable.bounds (readable : Readable value) :
    2 ≤ value.length ∧ ∃ tag rest, value = tag :: rest ∧ tag ≠ 0 := by
  cases readable with
  | @definite tag field content notZero isField short =>
    have := isField.length_pos
    simp only [length_cons, length_append]
    exact ⟨by omega, _, _, rfl, notZero⟩
  | @indefinite tag values notZero readable =>
    simp only [length_cons]
    exact ⟨by omega, _, _, rfl, notZero⟩

/-- The decoder accepts the elements, from an offset on. -/
def AcceptsElements (decoder : Decoder) (input : Input) (cbEncoded : Nat) :
    Nat → List (List UInt8) → Prop
  | _, [] => True
  | offset, value :: rest =>
    (∃ size decoded, decoder.size (input.drop offset)
      (elementLength value (cbEncoded - offset)) = .ok (size, decoded)) ∧
    AcceptsElements decoder input cbEncoded (offset + value.length) rest

theorem AcceptsElements.append {decoder : Decoder} {front back : List (List UInt8)}
    (accepts : AcceptsElements decoder input cbEncoded offset (front ++ back)) :
    AcceptsElements decoder input cbEncoded offset front ∧
      AcceptsElements decoder input cbEncoded (offset + front.flatten.length) back := by
  induction front generalizing offset with
  | nil => exact ⟨trivial, accepts⟩
  | cons _ _ ih =>
    obtain ⟨here, there⟩ := ih accepts.2
    rw [flatten_cons, length_append, ← Nat.add_assoc]
    exact ⟨⟨accepts.1, here⟩, there⟩

theorem sizeElement_element (readable : Readable value) (word : cbEncoded < 0x100000000)
    (holds : (input.drop offset).Holds value) (inside : offset + value.length ≤ cbEncoded)
    (follows : LongEmpty value → offset + value.length < cbEncoded)
    (accepts : ∃ size decoded, arrayDesc.decodeFunc.size (input.drop offset)
      (elementLength value (cbEncoded - offset)) = .ok (size, decoded))
    (here' : state.position = offset) :
    ∃ next, sizeElement arrayDesc (input.drop state.position)
        (subWord cbEncoded state.position) state = .inl next ∧
      next.position = (offset + elementLength value (cbEncoded - offset)) % 0x100000000 ∧
      next.itemSizes.length = state.itemSizes.length + 1 := by
  obtain ⟨_, read, length⟩ := readable.element (by omega : cbEncoded - offset < 0x100000000)
    holds (by omega) (fun long => by have := follows long; omega)
  obtain ⟨_, _, accepted⟩ := accepts
  rw [here', subWord_eq (by omega) word]
  unfold sizeElement
  simp only [read, length, accepted]
  refine ⟨_, rfl, ?_, ?_⟩
  · rw [here']
  · rw [length_append, length_singleton]

theorem meets_elements {first last : Nat} (word : cbEncoded < 0x100000000)
    (goesOn : ∀ state, first ≤ state.position → state.position < last →
      input state.position ≠ 0 → arraySizeStep arrayDesc input cbEncoded dataLen state =
        sizeElement arrayDesc (input.drop state.position) (subWord cbEncoded state.position) state)
    (definite : ∀ element ∈ elements, DefiniteValue element) {offset : Nat}
    (accepts : AcceptsElements arrayDesc.decodeFunc input cbEncoded offset elements)
    (holds : (input.drop offset).Holds elements.flatten) (behind : first ≤ offset)
    (before : offset + elements.flatten.length ≤ last)
    (inside : offset + elements.flatten.length + 2 ≤ cbEncoded) (here' : state.position = offset) :
    ∃ after, Meets (arraySizeStep arrayDesc input cbEncoded dataLen) state after ∧
      after.position = offset + elements.flatten.length ∧
      after.itemSizes.length = state.itemSizes.length + elements.length := by
  induction elements generalizing offset state with
  | nil => exact ⟨state, .start, here', rfl⟩
  | cons _ _ ih =>
    rw [forall_mem_cons] at definite
    rw [flatten_cons] at holds before inside ⊢
    rw [length_append] at before inside ⊢
    obtain ⟨here, there⟩ := holds.append
    rw [Input.drop_drop] at there
    have readable := definite.1.readable
    obtain ⟨_, tag, _, isValue, notZero⟩ := readable.bounds
    have isTag : input offset = tag := by
      rw [isValue] at here
      exact (Input.holds_cons.mp here).1
    obtain ⟨next, sized, position, counted⟩ :=
      sizeElement_element readable word here (by omega) (fun _ => by omega) accepts.1 here'
    rw [definite.1.elementLength_eq, Nat.mod_eq_of_lt (by omega)] at position
    have went := (goesOn state (by omega) (by omega)
      (by rw [here', isTag]; exact notZero)).trans sized
    obtain ⟨after, meets, ends, countedRest⟩ :=
      ih definite.2 accepts.2 there (by omega) (by omega) (by omega) position
    refine ⟨after, (Meets.next .start went).trans meets, ?_, ?_⟩
    · rw [ends, Nat.add_assoc]
    · rw [length_cons]
      omega

/-- The result of the sizing pass over contents that are not empty. -/
theorem arraySizes_of_meets (notEmpty : cbEncoded ≠ 0)
    (tagged : arrayDesc.tag = 0 ∨ arrayDesc.tag = input 0)
    (read : getLengthIndefinite input cbEncoded = .ok dataLen) (nonempty : dataLen ≠ 0)
    {last : ArraySizing}
    (meets : Meets (arraySizeStep arrayDesc input cbEncoded dataLen) (.start arrayDesc input) state)
    (stops : arraySizeStep arrayDesc input cbEncoded dataLen state = .inr (.ok last)) :
    ∃ rounds, ∀ fuel, rounds < fuel →
      arraySizes arrayDesc input cbEncoded fuel = some (.ok (dataLen, last)) := by
  obtain ⟨rounds, runs⟩ := meets.run_eq stops
  refine ⟨rounds, fun fuel enough => ?_⟩
  unfold arraySizes
  rw [if_neg notEmpty, if_neg fun both => tagged.elim both.1 (both.2 ·.symm), read]
  dsimp only
  rw [if_neg nonempty, runs fuel enough]
  rfl

/-- `CRYPT_AsnDecodeArray` finds all elements of an array of definite length, if only the
last of them has an indefinite length. -/
theorem arraySizes_definite (tagged : arrayDesc.tag = 0 ∨ arrayDesc.tag = tag)
    (isField : LengthField field elements.flatten.length) (short : field.length ≤ 5)
    (definite : ∀ element ∈ elements.dropLast, DefiniteValue element)
    (readable : ∀ element ∈ elements, Readable element) (word : cbEncoded < 0x100000000)
    (holds : input.Holds (tag :: (field ++ elements.flatten)))
    (inside : (tag :: (field ++ elements.flatten)).length ≤ cbEncoded)
    (follows : (LongEmpty (tag :: (field ++ elements.flatten)) ∨
      ∃ last ∈ elements.getLast?, LongEmpty last) →
      (tag :: (field ++ elements.flatten)).length < cbEncoded)
    (accepts : AcceptsElements arrayDesc.decodeFunc input cbEncoded (1 + field.length) elements) :
    ∃ rounds, ∀ fuel, rounds < fuel → ∃ state,
      arraySizes arrayDesc input cbEncoded fuel = some (.ok (elements.flatten.length, state)) ∧
        state.itemSizes.length = elements.length := by
  obtain ⟨isTag, read, isDefinite, octets, -⟩ :=
    read_definite isField short holds word inside (fun long => follows (.inl long))
  have contents : (input.drop (1 + field.length)).Holds elements.flatten := by
    rw [← cons_append] at holds
    have behind := holds.append.2
    rwa [length_cons, Nat.add_comm] at behind
  simp only [length_cons, length_append] at inside follows
  rw [← isTag] at tagged
  obtain rfl | ⟨front, last, rfl⟩ := eq_nil_or_concat' elements
  · -- an array without elements has empty contents
    refine ⟨0, fun fuel _ => ⟨.start arrayDesc input, ?_, rfl⟩⟩
    unfold arraySizes
    rw [if_neg (by omega), if_neg fun both => tagged.elim both.1 (both.2 ·.symm), read]
    rfl
  rw [dropLast_concat] at definite
  simp only [getLast?_concat, Option.mem_def, Option.some.injEq, exists_eq_left'] at follows
  have lastReadable := readable last (by simp)
  obtain ⟨_, _, _, _, _⟩ := lastReadable.bounds
  have flat : (front ++ [last]).flatten = front.flatten ++ last := by simp
  have size : (front ++ [last]).flatten.length = front.flatten.length + last.length := by
    rw [flat, length_append]
  obtain ⟨acceptsFront, acceptsLast⟩ := accepts.append
  rw [flat] at contents
  obtain ⟨holdsFront, holdsLast⟩ := contents.append
  rw [Input.drop_drop] at holdsLast
  have goesOn (state : ArraySizing) (behind : 1 + field.length ≤ state.position)
      (before : state.position < 1 + field.length + (front ++ [last]).flatten.length) :
      arraySizeStep arrayDesc input cbEncoded (front ++ [last]).flatten.length state =
        sizeElement arrayDesc (input.drop state.position)
          (subWord cbEncoded state.position) state := by
    unfold arraySizeStep
    rw [if_neg (fun both => isDefinite both.1), if_neg]
    rw [octets, subWord_eq behind]
    omega
  obtain ⟨middle, meets, position, counted⟩ :=
    meets_elements word (fun state behind before _ => goesOn state behind before) definite
      acceptsFront holdsFront le_rfl (by omega) (by omega)
      (by rw [ArraySizing.start, octets] :
        (ArraySizing.start arrayDesc input).position = 1 + field.length)
  obtain ⟨final, sized, ends, countedLast⟩ :=
    sizeElement_element lastReadable word holdsLast (by omega)
      (fun isLong => by have := follows (.inr isLong); omega) acceptsLast.1 position
  have went := (goesOn middle (by omega) (by omega)).trans sized
  have stops : arraySizeStep arrayDesc input cbEncoded (front ++ [last]).flatten.length
      final = .inr (.ok final) := by
    have past : (front ++ [last]).flatten.length ≤
        subWord final.position (1 + getLenBytes (input 1)) := by
      rw [ends, octets]
      unfold elementLength
      split <;> rw [subWord_eq] <;> omega
    unfold arraySizeStep
    rw [if_neg (fun both => isDefinite both.1), if_pos ⟨isDefinite, past⟩]
  obtain ⟨rounds, runs⟩ := arraySizes_of_meets (by omega) tagged read (by omega)
    (meets.next went) stops
  refine ⟨rounds, fun fuel enough => ⟨final, runs fuel enough, ?_⟩⟩
  rw [countedLast, counted]
  simp [ArraySizing.start]

/-- `CRYPT_AsnDecodeArray` finds all elements of an array of indefinite length, if all of
them have definite lengths. -/
theorem arraySizes_indefinite (tagged : arrayDesc.tag = 0 ∨ arrayDesc.tag = tag)
    (definite : ∀ element ∈ elements, DefiniteValue element) (word : cbEncoded < 0x100000000)
    (holds : input.Holds (tag :: 0x80 :: (elements.flatten ++ [0, 0])))
    (inside : (tag :: 0x80 :: (elements.flatten ++ [0, 0])).length ≤ cbEncoded)
    (accepts : AcceptsElements arrayDesc.decodeFunc input cbEncoded 2 elements) :
    ∃ rounds, ∀ fuel, rounds < fuel → ∃ state,
      arraySizes arrayDesc input cbEncoded fuel = some (.ok (indefiniteLength, state)) ∧
        state.itemSizes.length = elements.length := by
  simp only [length_cons, length_append, length_nil] at inside
  obtain ⟨read, octets⟩ := read_indefinite holds (by omega : 2 ≤ cbEncoded)
  have isTag : input 0 = tag := holds 0 tag rfl
  rw [← isTag] at tagged
  have split : tag :: 0x80 :: (elements.flatten ++ [0, 0]) =
      [tag, 0x80] ++ (elements.flatten ++ [0, 0]) := rfl
  rw [split] at holds
  obtain ⟨contents, ending⟩ := holds.append.2.append
  have goesOn (state : ArraySizing) (notZero : input state.position ≠ 0) :
      arraySizeStep arrayDesc input cbEncoded indefiniteLength state =
        sizeElement arrayDesc (input.drop state.position)
          (subWord cbEncoded state.position) state := by
    unfold arraySizeStep
    rw [if_neg (fun both => notZero both.2), if_neg (fun both => both.1 rfl)]
  obtain ⟨middle, meets, position, counted⟩ :=
    meets_elements word (fun state _ _ notZero => goesOn state notZero) definite
      accepts contents (Nat.zero_le _) le_rfl (by omega)
      (by rw [ArraySizing.start, octets] : (ArraySizing.start arrayDesc input).position = 2)
  have first : input middle.position = 0 := by
    rw [position]
    exact ending 0 0 rfl
  have second : input (middle.position + 1) = 0 := by
    rw [position]
    exact ending 1 0 rfl
  have stops : arraySizeStep arrayDesc input cbEncoded indefiniteLength middle =
      .inr (.ok { middle with decoded := (middle.decoded + 2) % 0x100000000 }) := by
    unfold arraySizeStep
    rw [if_pos ⟨rfl, first⟩, if_neg (fun different => different second)]
  obtain ⟨rounds, runs⟩ := arraySizes_of_meets (by omega) tagged read (by decide) meets stops
  refine ⟨rounds, fun fuel enough => ⟨_, runs fuel enough, ?_⟩⟩
  simpa [ArraySizing.start] using counted

/-- The decoders account for the bytes of values they can read: `CRYPT_FindEncodedLen` for
every value, `CRYPT_AsnDecodeSequence` for a definite length, and `CRYPT_AsnDecodeArray` for
every element, if only the last one of an array of definite length, and none of another, has
an indefinite length. -/
theorem values_accounted :
    (∀ (value : List UInt8) (input : Input) (cbEncoded : Nat),
      Readable value → cbEncoded < 0x100000000 → input.Holds value →
      value.length ≤ cbEncoded → (LongEmpty value → value.length < cbEncoded) →
      ∃ rounds, ∀ fuel, rounds < fuel →
        findEncodedLen input cbEncoded fuel = some (.ok value.length)) ∧
    (∀ (items : List SequenceItem) (field content : List UInt8) (input : Input)
      (cbEncoded needed decoded : Nat),
      LengthField field content.length → field.length ≤ 5 → cbEncoded < 0x100000000 →
      input.Holds (0x30 :: (field ++ content)) →
      (0x30 :: (field ++ content)).length ≤ cbEncoded →
      (LongEmpty (0x30 :: (field ++ content)) → (0x30 :: (field ++ content)).length < cbEncoded) →
      sequenceSize items input cbEncoded = .ok (needed, decoded) →
      decoded = (0x30 :: (field ++ content)).length) ∧
    (∀ (arrayDesc : ArrayDescriptor) (tag : UInt8) (field : List UInt8)
      (elements : List (List UInt8)) (input : Input) (cbEncoded : Nat),
      (arrayDesc.tag = 0 ∨ arrayDesc.tag = tag) →
      LengthField field elements.flatten.length → field.length ≤ 5 →
      (∀ element ∈ elements.dropLast, DefiniteValue element) →
      (∀ element ∈ elements, Readable element) → cbEncoded < 0x100000000 →
      input.Holds (tag :: (field ++ elements.flatten)) →
      (tag :: (field ++ elements.flatten)).length ≤ cbEncoded →
      ((LongEmpty (tag :: (field ++ elements.flatten)) ∨
        ∃ last ∈ elements.getLast?, LongEmpty last) →
        (tag :: (field ++ elements.flatten)).length < cbEncoded) →
      AcceptsElements arrayDesc.decodeFunc input cbEncoded (1 + field.length) elements →
      ∃ rounds, ∀ fuel, rounds < fuel → ∃ state,
        arraySizes arrayDesc input cbEncoded fuel = some (.ok (elements.flatten.length, state)) ∧
          state.itemSizes.length = elements.length) ∧
    ∀ (arrayDesc : ArrayDescriptor) (tag : UInt8) (elements : List (List UInt8))
      (input : Input) (cbEncoded : Nat),
      (arrayDesc.tag = 0 ∨ arrayDesc.tag = tag) →
      (∀ element ∈ elements, DefiniteValue element) → cbEncoded < 0x100000000 →
      input.Holds (tag :: 0x80 :: (elements.flatten ++ [0, 0])) →
      (tag :: 0x80 :: (elements.flatten ++ [0, 0])).length ≤ cbEncoded →
      AcceptsElements arrayDesc.decodeFunc input cbEncoded 2 elements →
      ∃ rounds, ∀ fuel, rounds < fuel → ∃ state,
        arraySizes arrayDesc input cbEncoded fuel = some (.ok (indefiniteLength, state)) ∧
          state.itemSizes.length = elements.length := by
  refine ⟨?_, ?_, ?_, ?_⟩
  · intro value input cbEncoded readable word holds inside follows
    have whole : input.drop 0 = input := by
      funext i
      rw [Input.drop, Nat.zero_add]
    rw [← whole] at holds
    obtain ⟨_, met, stops⟩ := readable.lastRound 0 word holds (by omega)
      fun long => by have := follows long; omega
    rw [if_pos rfl, Nat.zero_add] at stops
    exact met.run_eq stops
  · intro _ _ _ _ _ _ _ isField short word holds inside follows sized
    obtain ⟨-, read, definite, octets, -⟩ := read_definite isField short holds word inside follows
    unfold sequenceSize at sized
    split at sized
    · cases sized
    rename_i accepted
    cases sized
    have consumed := (of_sequenceSizes accepted).2 _ read definite
    simp only [length_cons, length_append] at inside ⊢
    rw [sequenceDecoded]
    omega
  · exact fun _ _ _ _ _ _ => arraySizes_definite
  · exact fun _ _ _ _ _ => arraySizes_indefinite

/-- Sequences of indefinite length in one another, and an array of indefinite length. -/
theorem values_accounted_indefinite :
    (∃ rounds, ∀ fuel, rounds < fuel →
      findEncodedLen (.ofList [0x30, 0x80, 0x30, 0x80, 0, 0, 0, 0]) 8 fuel = some (.ok 8)) ∧
    ∃ rounds, ∀ fuel, rounds < fuel → ∃ state,
      arraySizes boolArray (.ofList [0x30, 0x80, 0x01, 0x01, 0xff, 0, 0]) 7 fuel =
          some (.ok (indefiniteLength, state)) ∧
        state.itemSizes.length = 1 := by
  constructor
  · refine values_accounted.1 [0x30, 0x80, 0x30, 0x80, 0, 0, 0, 0] _ 8 ?_ (by decide)
      (Input.holds_ofList _) (by decide) ?_
    · have inner : Readable (0x30 :: 0x80 :: (flatten [] ++ [0, 0])) :=
        .indefinite (by decide) nofun
      exact .indefinite (by decide) (forall_mem_singleton.mpr inner)
    · rintro ⟨_, _, same, -, isField⟩
      cases same
      exact absurd rfl isField.head_ne
  · refine values_accounted.2.2.2 boolArray 0x30 [[0x01, 0x01, 0xff]] _ 7 (.inr rfl) ?_
      (by decide) (Input.holds_ofList _) (by decide) ⟨⟨4, 3, by decide +kernel⟩, trivial⟩
    refine forall_mem_singleton.mpr ⟨0x01, [0x01], [0xff], rfl, by decide, ?_, by decide⟩
    exact .short (by decide)

/-- An array of structures with a truth value. -/
def boolStructArray : ArrayDescriptor :=
  ⟨0x30, 0, 4, 8, sequenceDecoder boolTable 0, 4, false, 0⟩

/-- A length of five octets is refused, the end-of-contents octets of a sequence are not
counted, and behind an element of indefinite length no other is looked for. -/
theorem values_miscounted :
    findEncodedLen (.ofList [0x04, 0x85, 0, 0, 0, 0, 0x01, 0xaa]) 8 2 = some (.error .large) ∧
    sequenceSize boolTable (.ofList [0x30, 0x80, 0x01, 0x01, 0xff, 0, 0]) 7 = .ok (4, 5) ∧
    (arraySizes boolStructArray
      (.ofList [0x30, 0x0c, 0x30, 0x80, 0x01, 0x01, 0xff, 0, 0, 0x30, 0x03, 0x01, 0x01, 0xff])
      14 3).map (fun result => result.toOption.map fun found => found.2.itemSizes.length) =
        some (some 1) := by
  decide +kernel

end Winex.Asn
