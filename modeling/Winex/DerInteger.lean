import Winex.DerWalk

namespace Winex.Asn

open ByteNumber List Option

/-!
# Integers

The encoders and decoders for integers of any length, `CRYPT_AsnEncodeInteger` and
`CRYPT_AsnEncodeUnsignedInteger` with their counterparts in `decode.c`.  A blob is
the memory from `pbData` on and the number `cbData` of its bytes, the least
significant one first.
-/

/-! ## The encoders -/

/-- The loops that lop off leading bytes. -/
def strip (data : Input) (byte : UInt8) : Nat → Nat
  | 0 => 0
  | count + 1 => if data count = byte then strip data byte count else count + 1

/-- `significantBytes`, and `padByte` if `pad` is set. -/
structure Shape where
  significantBytes : Nat
  pad : Option UInt8
deriving DecidableEq

variable (data : Input)

/-- The first part of `CRYPT_AsnEncodeInteger`.  An index is a `DWORD`. -/
def integerShape (cbData : Nat) : Shape :=
  if cbData = 0 then ⟨0, none⟩
  else if 0x80 ≤ (data (cbData - 1)).toNat then
    -- negative, lop off leading 0xffs
    let significantBytes := strip data 0xff cbData
    ⟨significantBytes, if (data (subWord significantBytes 1)).toNat < 0x80 then some 0xff else none⟩
  else
    -- positive, lop off leading zeroes
    let significantBytes := strip data 0 cbData
    let significantBytes := if significantBytes = 0 then 1 else significantBytes
    ⟨significantBytes, if 0x7f < (data (significantBytes - 1)).toNat then some 0 else none⟩

/-- The first part of `CRYPT_AsnEncodeUnsignedInteger`. -/
def unsignedShape (cbData : Nat) : Shape :=
  if cbData = 0 then ⟨0, none⟩
  else
    let significantBytes := strip data 0 cbData
    let significantBytes := if significantBytes = 0 then 1 else significantBytes
    ⟨significantBytes, if 0x7f < (data (significantBytes - 1)).toNat then some 0 else none⟩

namespace Shape

/-- The length handed to `CRYPT_EncodeLen`. -/
def contentLength (shape : Shape) : Nat :=
  match shape.pad with
  | none => shape.significantBytes
  | some _ => (shape.significantBytes + 1) % 0x100000000

/-- `bytesNeeded` -/
def bytesNeeded (shape : Shape) : Nat :=
  let bytesNeeded := (1 + encodeLenSize shape.contentLength + shape.significantBytes) % 0x100000000
  match shape.pad with
  | none => bytesNeeded
  | some _ => (bytesNeeded + 1) % 0x100000000

end Shape

/-- The loop that writes the bytes from the most significant one on. -/
def countDown (data : Input) : Nat → List UInt8
  | 0 => []
  | count + 1 => data count :: countDown data count

/-- The bytes both encoders write. -/
def Shape.written (shape : Shape) (data : Input) : List UInt8 :=
  0x02 :: (encodeLen shape.contentLength ++
    (shape.pad.toList ++ countDown data shape.significantBytes))

/-- The second part of both encoders: `*pcbEncoded` afterwards, and the bytes written.  In
the sizing call `pbEncoded` is `NULL`. -/
def encodeShape (shape : Shape) : Option Nat → Nat × Except Failure (List UInt8)
  | none => (shape.bytesNeeded, .ok [])
  | some space =>
    if space < shape.bytesNeeded then (shape.bytesNeeded, .error .moreData)
    else (shape.bytesNeeded, .ok (shape.written data))

/-- `CRYPT_AsnEncodeInteger` -/
def encodeInteger (cbData : Nat) (space : Option Nat) : Nat × Except Failure (List UInt8) :=
  encodeShape data (integerShape data cbData) space

/-- `CRYPT_AsnEncodeUnsignedInteger` -/
def encodeUnsignedInteger (cbData : Nat) (space : Option Nat) : Nat × Except Failure (List UInt8) :=
  encodeShape data (unsignedShape data cbData) space

/-! ## The decoders -/

variable (input : Input)

/-- The bytes of a blob: `dataLen` octets behind the header, the last one first. -/
def readBlob (lenBytes dataLen count : Nat) : List UInt8 :=
  (List.range count).map fun i => input (1 + lenBytes + dataLen - i - 1)

/-- `CRYPT_AsnDecodeIntegerInternal`: `*pcbStructInfo` afterwards, and the blob.  In the
sizing call `pvStructInfo` is `NULL`. -/
def decodeIntegerInternal (cbEncoded : Nat) (space : Option Nat) :
    Except Failure (Nat × List UInt8) :=
  match getLen input cbEncoded with
  | .error failure => .error failure
  | .ok dataLen =>
    let bytesNeeded := (dataLen + 8) % 0x100000000
    match space with
    | none => .ok (bytesNeeded, [])
    | some space =>
      if space < bytesNeeded then .error .moreData
      else .ok (bytesNeeded, readBlob input (getLenBytes (input 1)) dataLen dataLen)

/-- `CRYPT_AsnDecodeInteger`: a sizing call, a check of the space, and the call that
fills the blob. -/
def decodeInteger (cbEncoded : Nat) (space : Option Nat) : Except Failure (Nat × List UInt8) :=
  if input 0 ≠ 0x02 then .error .badTag
  else
    match decodeIntegerInternal input cbEncoded none with
    | .error failure => .error failure
    | .ok (bytesNeeded, _) =>
      match space with
      | none => .ok (bytesNeeded, [])
      | some space =>
        if space < bytesNeeded then .error .moreData
        else decodeIntegerInternal input cbEncoded (some bytesNeeded)

/-- `CRYPT_AsnDecodeUnsignedIntegerInternal` -/
def decodeUnsignedIntegerInternal (cbEncoded : Nat) (space : Option Nat) :
    Except Failure (Nat × List UInt8) :=
  if input 0 ≠ 0x02 then .error .badTag
  else
    match getLen input cbEncoded with
    | .error failure => .error failure
    | .ok dataLen =>
      let bytesNeeded := (dataLen + 8) % 0x100000000
      let lenBytes := getLenBytes (input 1)
      match space with
      | none => .ok (bytesNeeded, [])
      | some space =>
        if space < bytesNeeded then .error .moreData
        else
          -- remove leading zero byte if it exists
          let cbData := if dataLen ≠ 0 ∧ input (1 + lenBytes) = 0 then dataLen - 1 else dataLen
          .ok (bytesNeeded, readBlob input lenBytes dataLen cbData)

/-- `CRYPT_AsnDecodeUnsignedInteger` -/
def decodeUnsignedInteger (cbEncoded : Nat) (space : Option Nat) :
    Except Failure (Nat × List UInt8) :=
  match decodeUnsignedIntegerInternal input cbEncoded none with
  | .error failure => .error failure
  | .ok (bytesNeeded, _) =>
    match space with
    | none => .ok (bytesNeeded, [])
    | some space =>
      if space < bytesNeeded then .error .moreData
      else decodeUnsignedIntegerInternal input cbEncoded (some bytesNeeded)

/-! ## The bytes that are encoded -/

/-- A blob without its leading copies of a byte. -/
theorem exists_stripped (bytes : List UInt8) (byte : UInt8) :
    ∃ low count, bytes = low ++ List.replicate count byte ∧ low.getLast? ≠ some byte := by
  induction bytes using reverseRecOn with
  | nil => exact ⟨[], 0, rfl, nofun⟩
  | append_singleton init top ih =>
    by_cases isByte : top = byte
    · obtain ⟨low, count, rfl, last⟩ := ih
      refine ⟨low, count + 1, ?_, last⟩
      rw [isByte, append_assoc, replicate_succ']
    · refine ⟨init ++ [top], 0, (append_nil _).symm, ?_⟩
      simpa using isByte

variable {data} {low : List UInt8} {count : Nat} {top : UInt8} {bytes : List UInt8}
variable {input} {blob : List UInt8}

/-- The loops stop behind the last byte that is kept. -/
theorem strip_eq {byte : UInt8} (holds : data.Holds (low ++ List.replicate count byte))
    (last : low.getLast? ≠ some byte) : strip data byte (low.length + count) = low.length := by
  induction count with
  | zero =>
    obtain rfl | ⟨init, top, rfl⟩ := eq_nil_or_concat' low
    · rfl
    have isTop : data init.length = top := holds.append.1.last
    simp only [getLast?_append, getLast?_singleton, some_or,
      ne_eq, Option.some.injEq] at last
    simp [strip, isTop, last]
  | succ _ ih =>
    rw [replicate_succ', ← append_assoc] at holds
    have isByte := holds.last
    rw [length_append, length_replicate] at isByte
    rw [← Nat.add_assoc, strip, if_pos isByte]
    exact ih holds.append.1

theorem countDown_eq (holds : data.Holds low) : countDown data low.length = low.reverse := by
  induction low using reverseRecOn with
  | nil => rfl
  | append_singleton _ _ ih =>
    rw [length_append, length_singleton, countDown, holds.last, ih holds.append.1, reverse_append]
    rfl

/-- Whatever lies behind the blob, the encoder writes the given contents, of which all but a
pad byte are the first bytes of the blob. -/
def Describes (shape : Input → Shape) (bytes content : List UInt8) : Prop :=
  ∃ (low : List UInt8) (pad : Option UInt8), content = low ++ pad.toList ∧
    ∀ data : Input, data.Holds bytes → shape data = ⟨low.length, pad⟩ ∧ data.Holds low

theorem minimal_of_top (low : List UInt8) (notZero : top ≠ 0) (notFf : top ≠ 0xff) :
    Minimal (low ++ [top]) := by
  obtain rfl | ⟨init, _, rfl⟩ := eq_nil_or_concat' low
  · exact .single top
  · exact .reduced init ⟨fun zero => notZero zero.1, fun ff => notFf ff.1⟩

theorem describes_zeros (count : Nat) :
    Describes (fun data => unsignedShape data (count + 1)) (List.replicate (count + 1) 0) [0] := by
  refine ⟨[0], none, rfl, fun data holds => ?_⟩
  have stripped : strip data 0 (length [] + (count + 1)) = 0 := strip_eq holds nofun
  have first : data 0 = 0 := holds 0 0 rfl
  rw [length_nil, Nat.zero_add] at stripped
  refine ⟨?_, ?_⟩
  · unfold unsignedShape
    simp [stripped, first]
  · exact holds.append.1

/-- The part of a blob below its leading zeros, if there is one. -/
theorem describes_unsigned (low : List UInt8) (notZero : top ≠ 0) (count : Nat) :
    Describes (fun data => unsignedShape data ((low ++ [top]).length + count))
      (low ++ [top] ++ List.replicate count 0)
      (low ++ [top] ++ (if 0x7f < top.toNat then some 0 else none : Option UInt8).toList) := by
  refine ⟨low ++ [top], _, rfl, fun data holds => ⟨?_, holds.append.1⟩⟩
  have stripped := strip_eq holds (by simpa using notZero)
  have isTop := holds.append.1.last
  rw [length_append, length_singleton] at stripped ⊢
  unfold unsignedShape
  simp only [stripped]
  rw [if_neg (by omega), if_neg (by omega), Nat.add_sub_cancel, isTop]

theorem exists_unsigned_content (nonempty : bytes ≠ []) :
    ∃ content, Describes (fun data => unsignedShape data bytes.length) bytes content ∧
      Minimal content ∧ unsigned content = unsigned bytes ∧
      signed content = unsigned bytes := by
  obtain ⟨low, count, rfl, last⟩ := exists_stripped bytes 0
  rw [unsigned_append_zeros]
  obtain rfl | ⟨low, top, rfl⟩ := eq_nil_or_concat' low
  · cases count with
    | zero => exact absurd rfl nonempty
    | succ count =>
      refine ⟨[0], ?_, .single 0, rfl, rfl⟩
      simpa using describes_zeros count
  have notZero : top ≠ 0 := by simpa using last
  have size : (low ++ [top] ++ replicate count 0).length = (low ++ [top]).length + count := by
    rw [length_append, length_replicate]
  rw [size]
  refine ⟨_, describes_unsigned low notZero count, ?_⟩
  split
  next large =>
    refine ⟨.reduced low ⟨fun ⟨_, small⟩ => by omega, nofun⟩,
      unsigned_append_zeros _ 1, signed_append_zeros _ 0⟩
  rename_i small
  rw [toList_none, append_nil]
  refine ⟨minimal_of_top low notZero ?_, rfl, signed_eq_unsigned (by omega)⟩
  rintro rfl
  exact small (by decide)

/-- The part of a negative blob below its leading copies of 0xff. -/
theorem describes_negative {init : List UInt8} {last : UInt8}
    (isBytes : init ++ [last] = low ++ [top] ++ List.replicate count 0xff)
    (word : (init ++ [last]).length < 0x100000000) (negative : 0x80 ≤ last.toNat)
    (notFf : top ≠ 0xff) :
    Describes (fun data => integerShape data (init ++ [last]).length) (init ++ [last])
      (low ++ [top] ++ (if top.toNat < 0x80 then some 0xff else none : Option UInt8).toList) := by
  refine ⟨low ++ [top], _, rfl, fun data holds => ?_⟩
  have isLast := holds.last
  have lengths := congrArg length isBytes
  rw [isBytes] at holds
  have stripped := strip_eq holds (by simpa using notFf)
  have isTop := holds.append.1.last
  refine ⟨?_, holds.append.1⟩
  simp only [length_append, length_singleton, length_replicate] at *
  have below : subWord (low.length + 1) 1 = low.length := subWord_eq
  unfold integerShape
  rw [if_neg (by omega), Nat.add_sub_cancel, isLast, if_pos negative, lengths]
  simp only [stripped, below, isTop]

/-- The contents written for a two's complement number: some byte of the blob must
not be 0xff. -/
theorem exists_integer_content (nonempty : bytes ≠ []) (word : bytes.length < 0x100000000)
    (notFf : ∃ byte ∈ bytes, byte ≠ 0xff) :
    ∃ content, Describes (fun data => integerShape data bytes.length) bytes content ∧
      Minimal content ∧ signed content = signed bytes := by
  obtain ⟨init, last, rfl⟩ := (eq_nil_or_concat' bytes).resolve_left nonempty
  by_cases negative : 0x80 ≤ last.toNat
  · obtain ⟨low, count, isBytes, ends⟩ := exists_stripped (init ++ [last]) 0xff
    obtain rfl | ⟨low, top, rfl⟩ := eq_nil_or_concat' low
    · obtain ⟨byte, isByte, different⟩ := notFf
      rw [isBytes] at isByte
      exact absurd (eq_of_mem_replicate isByte) different
    have topNotFf : top ≠ 0xff := by simpa using ends
    refine ⟨_, describes_negative isBytes word negative topNotFf, ?_⟩
    split
    next small =>
      refine ⟨.reduced low ⟨nofun, fun ⟨_, large⟩ => by omega⟩, ?_⟩
      cases count with
      | zero =>
        -- the byte kept would be the last one of the blob, which is negative
        rw [replicate_zero, append_nil] at isBytes
        obtain ⟨-, same⟩ := append_inj' isBytes rfl
        cases same
        omega
      | succ =>
        rw [isBytes, signed_append_ffs]
        rfl
    next large =>
      rw [toList_none, append_nil]
      refine ⟨minimal_of_top low ?_ topNotFf, ?_⟩
      · rintro rfl
        exact large (by decide)
      · cases count with
        | zero => rw [isBytes, replicate_zero, append_nil]
        | succ => rw [isBytes, signed_append_ffs, signed_append_ff (by omega)]
  · obtain ⟨content, described, minimal, -, value⟩ := exists_unsigned_content nonempty
    refine ⟨content, ?_, minimal, ?_⟩
    · obtain ⟨low, pad, isContent, agrees⟩ := described
      refine ⟨low, pad, isContent, fun data holds => ?_⟩
      rw [← (agrees data holds).1]
      refine ⟨?_, (agrees data holds).2⟩
      simp only [integerShape, unsignedShape, length_append, length_singleton,
        Nat.add_sub_cancel, holds.last]
      have more : init.length + 1 ≠ 0 := Nat.succ_ne_zero _
      rw [if_neg more, if_neg negative, if_neg more]
    · rw [value, signed_eq_unsigned (by omega)]

/-! ## The encoding -/

/-- The encoding of an integer: the tag, the length and the contents, of which the most
significant byte comes first. -/
def derInteger (content : List UInt8) : List UInt8 :=
  0x02 :: (encodeLen content.length ++ content.reverse)

theorem derInteger_length (content : List UInt8) :
    (derInteger content).length = 1 + encodeLenSize content.length + content.length := by
  simp [derInteger, length_reverse, encodeLen_length]
  omega

/-- An encoder that finds the given contents asks for the space of their encoding in its
sizing call, and writes it if it has that space. -/
theorem encodeShape_eq {shape : Input → Shape} {content : List UInt8}
    (described : Describes shape bytes content) (word : (derInteger content).length < 0x100000000)
    (holds : data.Holds bytes) :
    encodeShape data (shape data) none = ((derInteger content).length, .ok []) ∧
      ∀ space, (derInteger content).length ≤ space →
        encodeShape data (shape data) (some space) =
          ((derInteger content).length, .ok (derInteger content)) := by
  obtain ⟨low, pad, rfl, agrees⟩ := described
  obtain ⟨isShape, kept⟩ := agrees data holds
  have size := derInteger_length (low ++ pad.toList)
  rw [isShape]
  have contents : Shape.contentLength ⟨low.length, pad⟩ = (low ++ pad.toList).length := by
    cases pad with
    | none => simp [Shape.contentLength]
    | some =>
      simp only [toList_some, length_append, length_singleton] at size word ⊢
      exact Nat.mod_eq_of_lt (by dsimp only; omega)
  have needed : Shape.bytesNeeded ⟨low.length, pad⟩ = (derInteger (low ++ pad.toList)).length := by
    rw [Shape.bytesNeeded, contents]
    cases pad with
    | none =>
      simp at size word ⊢
      omega
    | some =>
      simp [toList_some] at size word ⊢
      omega
  have written : Shape.written ⟨low.length, pad⟩ data = derInteger (low ++ pad.toList) := by
    rw [Shape.written, contents, countDown_eq kept, derInteger, reverse_append]
    cases pad <;> rfl
  constructor
  · rw [encodeShape, needed]
  · intro _ _
    rw [encodeShape, needed, written, if_neg (by omega)]

theorem readBlob_eq {header content : List UInt8} (holds : input.Holds (header ++ content.reverse))
    {lenBytes : Nat} (size : header.length = 1 + lenBytes) (few : count ≤ content.length) :
    readBlob input lenBytes content.length count = content.take count := by
  refine ext_getElem? fun i => ?_
  unfold readBlob
  rw [getElem?_map, getElem?_take]
  by_cases inside : i < count
  · rw [getElem?_range inside, if_pos inside, map_some,
      getElem?_eq_getElem (by omega : i < content.length)]
    refine congrArg some (holds _ _ ?_)
    rw [getElem?_append_right (by omega), getElem?_reverse (by omega), List.getElem?_eq_some_iff]
    refine ⟨by omega, ?_⟩
    congr 1
    omega
  · rw [if_neg inside, getElem?_eq_none (by simpa using inside)]
    rfl

section Decoding

variable {content : List UInt8} (holds : input.Holds (derInteger content))
include holds

/-- The header of an encoded integer is read back. -/
theorem getLen_derInteger (word : (derInteger content).length < 0x100000000) :
    input 0 = 0x02 ∧ getLen input (derInteger content).length = .ok content.length ∧
      getLenBytes (input 1) = encodeLenSize content.length := by
  have size := derInteger_length content
  have header : input.Holds (0x02 :: encodeLen content.length) := by exact holds.append.1
  exact ⟨holds 0 _ rfl, getLen_encodeLen header word size.ge⟩

theorem readBlob_derInteger (few : count ≤ content.length) :
    readBlob input (encodeLenSize content.length) content.length count = content.take count := by
  rw [derInteger, ← cons_append] at holds
  refine readBlob_eq holds ?_ few
  rw [length_cons, encodeLen_length, Nat.add_comm]

theorem decodeInteger_derInteger (word : (derInteger content).length < 0x100000000)
    (small : content.length + 8 < 0x100000000) :
    decodeInteger input (derInteger content).length none = .ok (content.length + 8, []) ∧
      ∀ space, content.length + 8 ≤ space →
        decodeInteger input (derInteger content).length (some space) =
          .ok (content.length + 8, content) := by
  obtain ⟨tag, read, octets⟩ := getLen_derInteger holds word
  have blob := readBlob_derInteger holds le_rfl
  have needed : (content.length + 8) % 0x100000000 = content.length + 8 := Nat.mod_eq_of_lt small
  constructor
  · simp [decodeInteger, decodeIntegerInternal, tag, read, needed]
  · intro _ enough
    simp [decodeInteger, decodeIntegerInternal, tag, read, needed, octets, blob, enough]

theorem unsigned_take_of_zero (nonempty : content.length ≠ 0)
    (zero : input (1 + encodeLenSize content.length) = 0) :
    unsigned (content.take (content.length - 1)) = unsigned content := by
  obtain rfl | ⟨low, top, rfl⟩ := eq_nil_or_concat' content
  · exact absurd rfl nonempty
  rw [derInteger, ← cons_append] at holds
  have isTop := holds.append.2 0 top (by simp)
  rw [Input.drop, length_cons, encodeLen_length, Nat.add_comm _ 1, zero] at isTop
  subst isTop
  rw [length_append, length_singleton, Nat.add_sub_cancel, take_left]
  exact (unsigned_append_zeros low 1).symm

theorem decodeUnsignedInteger_derInteger (word : (derInteger content).length < 0x100000000)
    (small : content.length + 8 < 0x100000000) :
    decodeUnsignedInteger input (derInteger content).length none = .ok (content.length + 8, []) ∧
      ∃ blob, unsigned blob = unsigned content ∧ blob.length ≤ content.length ∧
        ∀ space, content.length + 8 ≤ space →
          decodeUnsignedInteger input (derInteger content).length (some space) =
            .ok (content.length + 8, blob) := by
  obtain ⟨tag, read, octets⟩ := getLen_derInteger holds word
  have needed : (content.length + 8) % 0x100000000 = content.length + 8 := Nat.mod_eq_of_lt small
  constructor
  · simp [decodeUnsignedInteger, decodeUnsignedIntegerInternal, tag, read, needed]
  · refine ⟨content.take (if content.length ≠ 0 ∧ input (1 + encodeLenSize content.length) = 0
      then content.length - 1 else content.length), ?_, length_take_le' _ _, ?_⟩
    · split
      next zero => exact unsigned_take_of_zero holds zero.1 zero.2
      · rw [take_length]
    · intro _ _
      have blob := readBlob_derInteger holds
        (by split <;> omega : (if content.length ≠ 0 ∧
          input (1 + encodeLenSize content.length) = 0
          then content.length - 1 else content.length) ≤ content.length)
      simp only [decodeUnsignedInteger, decodeUnsignedIntegerInternal, tag, read, needed, octets,
        ne_eq, not_true_eq_false, if_false]
      rw [if_neg (by omega), if_neg (by omega), ← blob]

end Decoding

/-! ## Round trips -/

/-- Whatever lies behind the blob, the sizing call of an encoder reports exactly the bytes
it writes when it has that much space.  They are the shortest encoding of the given number,
and the decoder returns for them a blob for which `Denotes` holds, in the space that it
reports. -/
def RoundTrips (encode : Input → Nat → Option Nat → Nat × Except Failure (List UInt8))
    (decode : Input → Nat → Option Nat → Except Failure (Nat × List UInt8)) (bytes : List UInt8)
    (value : Int) (Denotes : List UInt8 → Prop) : Prop :=
  ∃ content, (∀ data : Input, data.Holds bytes →
      encode data bytes.length none = ((derInteger content).length, .ok []) ∧
      ∀ space, (derInteger content).length ≤ space →
        encode data bytes.length (some space) =
          ((derInteger content).length, .ok (derInteger content))) ∧
    Minimal content ∧ signed content = value ∧
    ∀ input : Input, input.Holds (derInteger content) →
      ∃ size blob, decode input (derInteger content).length none = .ok (size, []) ∧
        (∀ space, size ≤ space →
          decode input (derInteger content).length (some space) = .ok (size, blob)) ∧
        Denotes blob ∧ blob.length + 8 ≤ size

/-- A number with a two's complement form of which the encoding and the decoded structure,
with the 8 bytes of its header, have a size below 2^32. -/
def RoomFor (value : Int) : Prop :=
  ∃ form : List UInt8, form ≠ [] ∧ form.length ≤ 0xfffffff7 ∧ signed form = value

theorem RoomFor.content {content : List UInt8} (room : RoomFor (signed content))
    (minimal : Minimal content) :
    (derInteger content).length < 0x100000000 ∧ content.length + 8 < 0x100000000 := by
  obtain ⟨_, nonempty, _, same⟩ := room
  have least := minimal.length_le nonempty same
  have size := derInteger_length content
  have few := encodeLenSize_le_five (by omega : content.length < 0x100000000)
  omega

theorem roomFor_of_blob (short : blob.length + 8 < 0x100000000) : RoomFor (signed blob) := by
  by_cases nonempty : blob = []
  · exact ⟨[0], nofun, by decide, by rw [nonempty]; rfl⟩
  · exact ⟨blob, nonempty, by omega, rfl⟩

variable {cbEncoded size : Nat}

/-- The sizes that the decoders report are `DWORD` values. -/
theorem decodeInteger_size_lt (run : decodeInteger input cbEncoded none = .ok (size, blob)) :
    size < 0x100000000 := by
  unfold decodeInteger decodeIntegerInternal at run
  split at run
  · cases run
  cases read : getLen input cbEncoded with
  | error =>
    rw [read] at run
    cases run
  | ok =>
    rw [read] at run
    cases run
    exact Nat.mod_lt _ (by decide)

/-- The encoder reads the byte in front of a blob of 0xff bytes only: the size it reports
depends on it. -/
theorem encodeInteger_ffs (holds : data.Holds (List.replicate (count + 1) 0xff)) :
    (encodeInteger data (count + 1) none).1 = if (data 0xffffffff).toNat < 0x80 then 3 else 2 := by
  have stripped : strip data 0xff (length [] + (count + 1)) = 0 := strip_eq holds nofun
  rw [length_nil, Nat.zero_add] at stripped
  rw [replicate_succ'] at holds
  have isLast := holds.last
  rw [length_replicate] at isLast
  have wraps : subWord 0 1 = 0xffffffff := by decide
  unfold encodeInteger integerShape
  rw [if_neg (Nat.succ_ne_zero count), Nat.add_sub_cancel, isLast, if_pos (by decide)]
  simp only [stripped, wraps]
  split <;> rfl

/-- `CRYPT_AsnEncodeInteger` reads only its blob, reports what it writes, and writes the
shortest encoding of its number, which `CRYPT_AsnDecodeInteger` reads back, exactly if some
byte of the blob is not 0xff and there is room for the number. -/
theorem encodeInteger_roundTrips_iff {bytes : List UInt8} (nonempty : bytes ≠ [])
    (word : bytes.length < 0x100000000) :
    RoundTrips encodeInteger decodeInteger bytes (signed bytes)
        (fun blob => signed blob = signed bytes) ↔
      (∃ byte ∈ bytes, byte ≠ 0xff) ∧ RoomFor (signed bytes) := by
  constructor
  · rintro ⟨content, encoded, -, -, decoded⟩
    constructor
    · by_contra allFf
      simp only [not_exists, not_and, not_not, ne_eq] at allFf
      obtain ⟨count, size⟩ := Nat.exists_eq_succ_of_ne_zero
        (fun empty => nonempty (length_eq_zero_iff.mp empty))
      have isFfs : bytes = replicate (count + 1) 0xff := eq_replicate_iff.mpr ⟨size, allFf⟩
      subst isFfs
      rw [length_replicate] at encoded word
      -- two memories that hold the blob and differ in front of it
      have first : Input.Holds (fun _ => 0xff) (replicate (count + 1) 0xff) := by
        intro _ _ isByte
        exact (eq_of_mem_replicate (mem_of_getElem? isByte)).symm
      have second : Input.Holds (fun i => if i = 0xffffffff then 0 else 0xff)
          (replicate (count + 1) 0xff) := by
        intro _ _ isByte
        have inside := (List.getElem?_eq_some_iff.mp isByte).1
        dsimp only
        rw [if_neg (by omega)]
        exact (eq_of_mem_replicate (mem_of_getElem? isByte)).symm
      have two := encodeInteger_ffs first
      have three := encodeInteger_ffs second
      rw [(encoded _ first).1] at two
      rw [(encoded _ second).1] at three
      rw [two] at three
      exact absurd three (by decide)
    · obtain ⟨_, _, sized, -, same, _⟩ := decoded _ (Input.holds_ofList _)
      have := decodeInteger_size_lt sized
      rw [← same]
      exact roomFor_of_blob (by omega)
  · rintro ⟨notFf, room⟩
    obtain ⟨content, described, minimal, same⟩ := exists_integer_content nonempty word notFf
    rw [← same] at room
    obtain ⟨small, needed⟩ := room.content minimal
    refine ⟨content, fun data holds => encodeShape_eq described small holds, minimal, same,
      fun input holds => ?_⟩
    obtain ⟨sized, filled⟩ := decodeInteger_derInteger holds small needed
    exact ⟨_, content, sized, filled, same, le_rfl⟩

/-- A negative number of two bytes. -/
theorem encodeInteger_roundTrips_negative :
    RoundTrips encodeInteger decodeInteger [0x7f, 0xff] (-129) (fun blob => signed blob = -129) :=
  (encodeInteger_roundTrips_iff (by decide) (by decide)).mpr
    ⟨⟨0x7f, by decide, by decide⟩, [0x7f, 0xff], by decide, by decide, rfl⟩

/-- The number -1 in one byte. -/
theorem encodeInteger_minusOne :
    ¬RoundTrips encodeInteger decodeInteger [0xff] (-1) (fun blob => signed blob = -1) := by
  rintro ⟨_, encoded, -⟩
  have first : Input.Holds (fun _ => 0xff) [0xff] := by
    intro _ _ isByte
    exact (mem_singleton.mp (mem_of_getElem? isByte)).symm
  have second : Input.Holds (fun i => if i = 0xffffffff then 0 else 0xff) [0xff] := by
    intro i _ isByte
    cases i with
    | zero => cases isByte; rfl
    | succ => cases isByte
  have two := congrArg Prod.fst (encoded _ first).1
  have three := congrArg Prod.fst (encoded _ second).1
  rw [← two] at three
  exact absurd three (by decide)

/-- `CRYPT_AsnEncodeUnsignedInteger` and `CRYPT_AsnDecodeUnsignedInteger` keep every number
there is room for, and `CRYPT_EncodeLen` writes the shortest length field there is, which
`CRYPT_GetLen` reads back. -/
theorem encodeUnsignedInteger_roundTrips :
    (∀ bytes : List UInt8, bytes ≠ [] → RoomFor (unsigned bytes) →
      RoundTrips encodeUnsignedInteger decodeUnsignedInteger bytes (unsigned bytes)
        (fun blob => unsigned blob = unsigned bytes)) ∧ ∀ len < 0x100000000,
      LengthField (encodeLen len) len ∧ (encodeLen len).length = encodeLenSize len ∧
      (∀ field, LengthField field len → encodeLenSize len ≤ field.length) ∧
      ∀ (input : Input) (tag : UInt8) (cbEncoded : Nat),
        input.Holds (tag :: encodeLen len) → cbEncoded < 0x100000000 →
        1 + encodeLenSize len + len ≤ cbEncoded →
        getLen input cbEncoded = .ok len ∧ getLenBytes (input 1) = encodeLenSize len := by
  constructor
  · intro _ nonempty room
    obtain ⟨content, described, minimal, value, same⟩ := exists_unsigned_content nonempty
    rw [← same] at room
    obtain ⟨small, needed⟩ := room.content minimal
    refine ⟨content, fun data holds => encodeShape_eq described small holds, minimal, same,
      fun input holds => ?_⟩
    obtain ⟨sized, blob, kept, _, filled⟩ := decodeUnsignedInteger_derInteger holds small needed
    exact ⟨_, blob, sized, filled, kept.trans value, by omega⟩
  · intro len word
    exact ⟨lengthField_encodeLen word, encodeLen_length len,
      fun field isField => isField.encodeLenSize_le word,
      fun _ _ _ holds fits enough => getLen_encodeLen holds fits enough⟩

/-- A number of two bytes that needs a pad byte, and its length. -/
theorem encodeUnsignedInteger_roundTrips_padded :
    RoundTrips encodeUnsignedInteger decodeUnsignedInteger [0x01, 0x80] 0x8001
      (fun blob => unsigned blob = 0x8001) ∧
    getLen (Input.ofList [0x02, 0x03, 0x00, 0x80, 0x01]) 5 = .ok 3 :=
  ⟨encodeUnsignedInteger_roundTrips.1 [0x01, 0x80] (by decide)
      ⟨[0x01, 0x80, 0x00], by decide, by decide, rfl⟩,
    ((encodeUnsignedInteger_roundTrips.2 3 (by decide)).2.2.2 _ 0x02 5
      (fun i byte isByte => by
        match i with
        | 0 => cases isByte; rfl
        | 1 => cases isByte; rfl
        | i + 2 => cases isByte) (by decide) (by decide)).1⟩

end Winex.Asn
