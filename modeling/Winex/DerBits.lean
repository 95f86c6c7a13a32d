import Winex.DerWalk

namespace Winex.Asn

open List Nat

/-!
# Bit strings

`CRYPT_AsnEncodeBits` and `CRYPT_AsnDecodeBits`, with buffers of the size they ask for.
The encoder takes any number of unused bits.
-/

/-- `CRYPT_BIT_BLOB` -/
structure BitBlob where
  data : List UInt8
  cUnusedBits : Nat

/-- `0xff << unusedBits`, which is undefined where the `int` overflows, masks the last byte. -/
def maskLast (unusedBits : Nat) (data : List UInt8) : Option (List UInt8) :=
  if data = [] then some []
  else if 24 ≤ unusedBits then none
  else some (data.modify (data.length - 1) (· &&& UInt8.ofNat (0xff <<< unusedBits)))

/-- `dataBytes` and `unusedBits` -/
def bitsShape (cbData cUnusedBits : Nat) : Nat × Nat :=
  if cUnusedBits = 0 then (cbData, 0)
  else if cUnusedBits < cbData * 8 then
    ((cbData * 8 - cUnusedBits) / 8 + 1,
      (if 8 ≤ cUnusedBits then cUnusedBits / 8 else cUnusedBits) % 0x100)
  else (0, 0)

/-- `CRYPT_AsnEncodeBits` -/
def encodeBits (blob : BitBlob) : Option (List UInt8) :=
  let (dataBytes, unusedBits) := bitsShape blob.data.length blob.cUnusedBits
  (maskLast unusedBits (blob.data.take dataBytes)).map fun bytes =>
    0x03 :: encodeLen (dataBytes + 1) ++ UInt8.ofNat unusedBits :: bytes

/-- `CRYPT_AsnDecodeBits` with `CRYPT_AsnDecodeBitsInternal`. -/
def decodeBits (input : Input) (cbEncoded : Nat) (noCopy : Bool) :
    Option (Except Failure BitBlob) :=
  if cbEncoded = 0 then some (.error .corrupt)
  else if input 0 ≠ 0x03 then some (.error .badTag)
  else
    match getLen input cbEncoded with
    | .error failure => some (.error failure)
    | .ok dataLen =>
      let lenBytes := getLenBytes (input 1)
      let cUnusedBits := (input (1 + lenBytes)).toNat
      let data := (range (subWord dataLen 1)).map (input.drop (2 + lenBytes))
      (if noCopy then some data else maskLast cUnusedBits data).map fun data =>
        .ok ⟨data, cUnusedBits⟩

/-- A bit of the data, where the first one is the most significant bit of the first byte. -/
def bitAt (data : List UInt8) (i : Nat) : Bool :=
  (data.getD (i / 8) 0).toNat.testBit (7 - i % 8)

/-- The number of bits a blob stands for. -/
def BitBlob.count (blob : BitBlob) : Nat :=
  8 * blob.data.length - blob.cUnusedBits

def BitBlob.bits (blob : BitBlob) : List Bool :=
  (range blob.count).map (bitAt blob.data)

/-- The blob read back stands for the same bits, and has zeros behind them. -/
def BitsRoundTrip (blob : BitBlob) (noCopy : Bool) : Prop :=
  ∃ bytes, encodeBits blob = some bytes ∧ ∀ input : Input, input.Holds bytes →
    ∃ read, decodeBits input bytes.length noCopy = some (.ok read) ∧
      read.bits = blob.bits ∧ ∀ i, read.count ≤ i → bitAt read.data i = false

variable {data masked : List UInt8} {unusedBits : Nat}

theorem testBit_mask {byte : UInt8} {bit : Nat} (inByte : bit < 8) :
    (byte &&& UInt8.ofNat (0xff <<< unusedBits)).toNat.testBit bit =
      (byte.toNat.testBit bit && decide (unusedBits ≤ bit)) := by
  rw [UInt8.toNat_and, testBit_and, UInt8.toNat_ofNat', testBit_mod_two_pow,
    testBit_shiftLeft, testBit_two_pow_sub_one 8]
  grind

theorem bitAt_of_le {i : Nat} (behind : 8 * data.length ≤ i) : bitAt data i = false := by
  rw [bitAt, getD_eq_getElem?_getD, getElem?_eq_none (by omega)]
  exact zero_testBit _

theorem maskLast_again (isMasked : maskLast unusedBits data = some masked) :
    masked.length = data.length ∧ maskLast unusedBits masked = some masked := by
  unfold maskLast at isMasked
  split at isMasked
  next empty =>
    cases isMasked
    exact ⟨by rw [empty], rfl⟩
  split at isMasked <;> cases isMasked
  refine ⟨length_modify .., ?_⟩
  rw [maskLast, if_neg (by simpa), if_neg ‹_›, length_modify, modify_modify_eq]
  congr 2
  funext byte
  simp [UInt8.and_assoc]

/-- What the mask leaves of the bits. -/
theorem bitAt_maskLast (inByte : unusedBits ≤ 8) :
    ∃ masked, maskLast unusedBits data = some masked ∧
      ∀ i, bitAt masked i = (bitAt data i && decide (i < 8 * data.length - unusedBits)) := by
  unfold maskLast
  split
  next empty => exact ⟨[], rfl, fun i => by simp [empty, bitAt_of_le]⟩
  · rw [if_neg (by omega)]
    refine ⟨_, rfl, fun i => ?_⟩
    by_cases inside : i / 8 < data.length
    · simp only [bitAt, getD_eq_getElem?_getD, getElem?_modify, getElem?_eq_getElem inside,
        Option.map_eq_map, Option.map_some, Option.getD_some]
      split
      · rw [testBit_mask (by omega), decide_eq_decide.2]
        omega
      · rw [decide_eq_true (by omega), Bool.and_true]
    · rw [bitAt_of_le (by rw [length_modify]; omega), bitAt_of_le (by omega), Bool.false_and]

/-- The count that is written for the unused bits is the one for the bytes written. -/
def Consistent (cbData cUnusedBits : Nat) : Prop :=
  8 * cbData ≤ cUnusedBits ∨ cUnusedBits < 8 ∨ cUnusedBits / 8 % 0x100 = (cUnusedBits + 7) % 8 + 1

theorem bitsShape_spec {cbData cUnusedBits dataBytes : Nat}
    (shape : bitsShape cbData cUnusedBits = (dataBytes, unusedBits)) :
    dataBytes ≤ cbData ∧ unusedBits < 0x100 ∧ (Consistent cbData cUnusedBits → unusedBits ≤ 8) ∧
      (8 * dataBytes - unusedBits = 8 * cbData - cUnusedBits ↔ Consistent cbData cUnusedBits) := by
  unfold bitsShape at shape
  unfold Consistent
  split at shape
  · cases shape
    omega
  split at shape
  · split at shape <;> cases shape <;> omega
  · cases shape
    omega

theorem Input.Holds.read {input : Input} (holds : input.Holds data) :
    (range data.length).map input = data := by
  refine ext_getElem (by simp) fun i _ inside => ?_
  rw [getElem_map, getElem_range]
  exact holds i _ (getElem?_eq_getElem inside)

theorem decodeBits_eq {input : Input} {bytes : List UInt8} (inByte : unusedBits < 0x100)
    (small : data.length < 0x10000000) (isMasked : maskLast unusedBits data = some data)
    (isEncoded : 0x03 :: encodeLen (data.length + 1) ++ UInt8.ofNat unusedBits :: data = bytes)
    (holds : input.Holds bytes) (noCopy : Bool) :
    decodeBits input bytes.length noCopy = some (.ok ⟨data, unusedBits⟩) := by
  have size : bytes.length = 1 + encodeLenSize (data.length + 1) + (data.length + 1) := by
    simp [← isEncoded, encodeLen_length]
    omega
  have short := encodeLenSize_le_five (by omega : data.length + 1 < 0x100000000)
  rw [← isEncoded] at holds
  obtain ⟨header, rest⟩ := holds.append
  obtain ⟨isUnused, contents⟩ := Input.holds_cons.1 rest
  obtain ⟨length, octets⟩ := getLen_encodeLen header (by omega) size.ge
  have read := contents.read
  rw [length_cons, encodeLen_length] at isUnused read
  rw [add_comm] at isUnused
  rw [add_assoc, add_comm] at read
  have tag : input 0 = 0x03 := holds 0 _ rfl
  have count : subWord (data.length + 1) 1 = data.length :=
    subWord_eq
  simp only [decodeBits, tag, length, octets, count, isUnused, read, toNat_ofNat inByte, isMasked]
  simp [size]

/-- Bits are read back exactly if the count written for the unused bits fits the bytes. -/
theorem bitsRoundTrip_iff (blob : BitBlob) (small : blob.data.length < 0x10000000) (noCopy : Bool) :
    BitsRoundTrip blob noCopy ↔ Consistent blob.data.length blob.cUnusedBits := by
  rcases shape : bitsShape blob.data.length blob.cUnusedBits with ⟨dataBytes, unusedBits⟩
  obtain ⟨atMost, inByte, fits, counts⟩ := bitsShape_spec shape
  have taken : (blob.data.take dataBytes).length = dataBytes := length_take_of_le atMost
  simp only [BitsRoundTrip, encodeBits, shape, Option.map_eq_some_iff]
  constructor
  · rintro ⟨_, ⟨masked, isMasked, rfl⟩, reads⟩
    obtain ⟨length, again⟩ := maskLast_again isMasked
    rw [taken] at length
    subst length
    obtain ⟨read, filled, same, -⟩ := reads _ (Input.holds_ofList _)
    rw [decodeBits_eq inByte (by omega) again rfl (Input.holds_ofList _)] at filled
    cases filled
    have lengths := congrArg List.length same
    simp only [BitBlob.bits, BitBlob.count, length_map, length_range] at lengths
    exact counts.1 lengths
  · intro consistent
    obtain ⟨masked, isMasked, bits⟩ :=
      @bitAt_maskLast (blob.data.take dataBytes) _ (fits consistent)
    obtain ⟨length, again⟩ := maskLast_again isMasked
    rw [taken] at length bits
    subst length
    refine ⟨_, ⟨masked, isMasked, rfl⟩, fun input holds => ⟨⟨masked, unusedBits⟩,
      decodeBits_eq inByte (by omega) again rfl holds noCopy, ?_, fun i behind => ?_⟩⟩
    · simp only [BitBlob.bits, BitBlob.count, counts.2 consistent]
      refine map_congr_left fun i inside => ?_
      rw [mem_range, ← counts.2 consistent] at inside
      rw [bits, decide_eq_true inside, Bool.and_true]
      simp [bitAt, getElem?_take, if_pos (by omega : i / 8 < masked.length)]
    · rw [BitBlob.count] at behind
      rw [bits, decide_eq_false (not_lt.2 behind), Bool.and_false]

/-- Nine unused bits leave seven of two bytes. -/
theorem bitsRoundTrip_nine : BitsRoundTrip ⟨[0xff, 0xff], 9⟩ false :=
  (bitsRoundTrip_iff ⟨[0xff, 0xff], 9⟩ (by decide) false).2 (.inr (.inr rfl))

/-- Eight unused bits are written as one, for two bytes. -/
theorem encodeBits_eight :
    encodeBits ⟨[0xff, 0xff], 8⟩ = some [0x03, 0x03, 0x01, 0xff, 0xfe] ∧
      (decodeBits (.ofList [0x03, 0x03, 0x01, 0xff, 0xfe]) 5 false).map
        (·.map BitBlob.bits) = some (.ok (replicate 15 true)) ∧
      BitBlob.bits ⟨[0xff, 0xff], 8⟩ = replicate 8 true :=
  ⟨rfl, rfl, rfl⟩

end Winex.Asn
