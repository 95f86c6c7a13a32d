import Winex.ByteNumber

namespace Winex.Asn

open ByteNumber List

/-!
# Lengths of encoded values

The length octets of ASN.1 values as `dlls/crypt32/decode.c` reads them and
`dlls/crypt32/encode.c` writes them.

An input is the memory from `pbEncoded` on and the number `cbEncoded` of its bytes; what
lies behind is arbitrary.  The length 0xffffffff stands for the indefinite form.
-/

/-- The memory from a pointer on. -/
abbrev Input := Nat → UInt8

/-- `ptr + count` -/
def Input.drop (input : Input) (count : Nat) : Input :=
  fun i => input (count + i)

/-- The given bytes, followed by zeros. -/
def Input.ofList (bytes : List UInt8) : Input :=
  fun i => bytes.getD i 0

variable (input : Input)

@[simp] theorem Input.drop_drop (first second : Nat) :
    (input.drop first).drop second = input.drop (first + second) := by
  funext i
  simp only [Input.drop, Nat.add_assoc]

/-- The values of `GetLastError` that the functions set. -/
inductive Failure where
  | corrupt
  | eod
  | large
  | badTag
  | moreData
  | asnError
deriving DecidableEq

/-- The difference of two `DWORD` values. -/
def subWord (first second : Nat) : Nat :=
  (first + 0x100000000 - second) % 0x100000000

theorem subWord_eq {first second : Nat} (less : second ≤ first := by omega)
    (word : first < 0x100000000 := by omega) :
    subWord first second = first - second := by
  unfold subWord
  omega

/-- `CMSG_INDEFINITE_LENGTH` -/
def indefiniteLength : Nat := 0xffffffff

/-- `GET_LEN_BYTES` -/
def getLenBytes (byte : UInt8) : Nat :=
  if byte.toNat ≤ 0x80 then 1 else 1 + byte.toNat % 0x80

/-- The loop of `CRYPT_GetLengthIndefinite` over the octets of a long length. -/
def readLength (input : Input) : Nat → Nat → Nat → Nat
  | 0, _, out => out
  | count + 1, position, out =>
    readLength input count (position + 1) (out * 0x100 % 0x100000000 + (input position).toNat)

/-- `CRYPT_GetLengthIndefinite` -/
def getLengthIndefinite (input : Input) (cbEncoded : Nat) : Except Failure Nat :=
  if cbEncoded ≤ 1 then .error .corrupt
  else if (input 1).toNat ≤ 0x7f then
    if cbEncoded < (input 1).toNat + 1 then .error .eod else .ok (input 1).toNat
  else if (input 1).toNat = 0x80 then .ok indefiniteLength
  else
    let lenLen := getLenBytes (input 1)
    if 5 < lenLen then .error .large
    else if cbEncoded < lenLen + 2 then .error .corrupt
    else
      let out := readLength input (lenLen - 1) 2 0
      -- the loop has counted `lenLen` down to 0
      if cbEncoded < (out + 0 + 1) % 0x100000000 then .error .eod else .ok out

/-- `CRYPT_GetLen` -/
def getLen (input : Input) (cbEncoded : Nat) : Except Failure Nat :=
  match getLengthIndefinite input cbEncoded with
  | .ok len => if len = indefiniteLength then .error .corrupt else .ok len
  | .error failure => .error failure

/-- The loop of `CRYPT_EncodeLen` that counts the significant bytes. -/
def significantBytes : Nat → Nat → Nat
  | 0, _ => 0
  | count + 1, temp =>
    if temp / 0x1000000 = 0 then significantBytes count (temp * 0x100 % 0x100000000)
    else count + 1

/-- The number of octets `CRYPT_EncodeLen` asks for. -/
def encodeLenSize (len : Nat) : Nat :=
  if len ≤ 0x7f then 1 else significantBytes 4 len + 1

/-- The loop of `CRYPT_EncodeLen` that writes a length from its last octet on. -/
def bigEndian : Nat → Nat → List UInt8
  | 0, _ => []
  | count + 1, len => bigEndian count (len / 0x100) ++ [UInt8.ofNat (len % 0x100)]

/-- The octets `CRYPT_EncodeLen` writes. -/
def encodeLen (len : Nat) : List UInt8 :=
  if len ≤ 0x7f then [UInt8.ofNat len]
  else UInt8.ofNat (significantBytes 4 len + 0x80) :: bigEndian (significantBytes 4 len) len

/-! ## Reading -/

theorem toNat_ofNat {value : Nat} (small : value < 0x100) : (UInt8.ofNat value).toNat = value :=
  UInt8.toNat_ofNat_of_lt' small

theorem readLength_lt (count position : Nat) {out : Nat}
    (small : out < 0x100000000) : readLength input count position out < 0x100000000 := by
  induction count generalizing position out with
  | zero => exact small
  | succ _ ih =>
    have := (input position).toNat_lt
    refine ih (position + 1) ?_
    omega

variable {input : Input} {cbEncoded len : Nat} {first : List UInt8} {byte : UInt8}
variable {field : List UInt8}

/-- The result fits in a `DWORD`. -/
theorem getLengthIndefinite_lt (run : getLengthIndefinite input cbEncoded = .ok len) :
    len < 0x100000000 := by
  unfold getLengthIndefinite at run
  simp only at run
  split at run
  · cases run
  split at run
  · split at run
    · cases run
    · cases run; omega
  split at run
  · cases run; decide
  iterate 3
    split at run
    · cases run
  cases run
  exact readLength_lt input _ _ (by decide)

theorem header_le (run : getLengthIndefinite input cbEncoded = .ok len) :
    1 + getLenBytes (input 1) ≤ cbEncoded := by
  unfold getLengthIndefinite at run
  simp only at run
  split at run
  · cases run
  split at run
  next short =>
    have : getLenBytes (input 1) = 1 := if_pos (by omega)
    omega
  · split at run
    next indefinite =>
      have : getLenBytes (input 1) = 1 := if_pos (by omega)
      omega
    · split at run
      · cases run
      split at run
      · cases run
      · omega

/-- The checks accept a definite length although the contents end behind the input: the
short form by one byte, the long form by up to as many as it has length octets. -/
def Overruns (input : Input) (cbEncoded : Nat) : Prop :=
  (1 ≤ (input 1).toNat ∧ (input 1).toNat ≤ 0x7f ∧ cbEncoded = (input 1).toNat + 1) ∨
    (0x81 ≤ (input 1).toNat ∧ (input 1).toNat ≤ 0x84 ∧
      (input 1).toNat - 0x80 + 3 ≤ cbEncoded ∧
      readLength input ((input 1).toNat - 0x80) 2 0 + 1 ≤ cbEncoded ∧
      cbEncoded < readLength input ((input 1).toNat - 0x80) 2 0 + 1 + ((input 1).toNat - 0x80 + 1))

theorem getLenBytes_of_long {byte : UInt8} (long : 0x81 ≤ byte.toNat) :
    getLenBytes byte = byte.toNat - 0x80 + 1 := by
  have := byte.toNat_lt
  unfold getLenBytes
  rw [if_neg (by omega)]
  omega

/-- The long form, cut to the lengths that a `DWORD` holds. -/
theorem getLengthIndefinite_long (long : 0x81 ≤ (input 1).toNat) (short : (input 1).toNat ≤ 0x84)
    (enough : (input 1).toNat - 0x80 + 3 ≤ cbEncoded) :
    getLengthIndefinite input cbEncoded =
      if cbEncoded <
          (readLength input ((input 1).toNat - 0x80) 2 0 + 1) % 0x100000000 then
        .error .eod
      else .ok (readLength input ((input 1).toNat - 0x80) 2 0) := by
  have lenLen := getLenBytes_of_long long
  unfold getLengthIndefinite
  simp only [lenLen, Nat.add_sub_cancel, Nat.add_zero]
  rw [if_neg (by omega), if_neg (by omega), if_neg (by omega), if_neg (by omega), if_neg (by omega)]

theorem getLengthIndefinite_long_refused (long : 0x81 ≤ (input 1).toNat)
    (refused : 0x84 < (input 1).toNat ∨ cbEncoded < (input 1).toNat - 0x80 + 3) :
    getLengthIndefinite input cbEncoded ≠ .ok len := by
  have lenLen := getLenBytes_of_long long
  unfold getLengthIndefinite
  simp only [lenLen]
  intro run
  split at run
  · cases run
  rw [if_neg (by omega), if_neg (by omega)] at run
  split at run
  · cases run
  rw [if_pos (by omega)] at run
  cases run

/-- What `CRYPT_GetLengthIndefinite` accepts as a definite length. -/
theorem getLengthIndefinite_definite_iff (definite : len ≠ indefiniteLength) :
    getLengthIndefinite input cbEncoded = .ok len ↔
      2 ≤ cbEncoded ∧
      (((input 1).toNat ≤ 0x7f ∧ (input 1).toNat = len ∧ len + 1 ≤ cbEncoded) ∨
        (0x81 ≤ (input 1).toNat ∧ (input 1).toNat ≤ 0x84 ∧
          (input 1).toNat - 0x80 + 3 ≤ cbEncoded ∧
          readLength input ((input 1).toNat - 0x80) 2 0 = len ∧ len + 1 ≤ cbEncoded)) := by
  unfold indefiniteLength at definite
  by_cases long : 0x81 ≤ (input 1).toNat
  · by_cases refused : 0x84 < (input 1).toNat ∨ cbEncoded < (input 1).toNat - 0x80 + 3
    · refine iff_of_false (getLengthIndefinite_long_refused long refused) ?_
      omega
    have read := readLength_lt input ((input 1).toNat - 0x80) 2 (by decide : 0 < 0x100000000)
    rw [getLengthIndefinite_long long (by omega) (by omega)]
    split
    · refine iff_of_false nofun ?_
      omega
    · rw [Except.ok.injEq]
      omega
  · unfold getLengthIndefinite indefiniteLength
    split
    · exact iff_of_false nofun (by omega)
    split
    · split
      · exact iff_of_false nofun (by omega)
      rw [Except.ok.injEq]
      omega
    · rw [if_pos (by omega), Except.ok.injEq]
      omega

/-- If a definite length is accepted, the tag, the length octets and the contents lie in
the input. -/
def HeaderFits (input : Input) (cbEncoded : Nat) : Prop :=
  ∀ len, getLengthIndefinite input cbEncoded = .ok len → len ≠ indefiniteLength →
    1 + getLenBytes (input 1) + len ≤ cbEncoded

/-- An accepted definite length fits in the input exactly if the header is not one of
those the checks are too weak for. -/
theorem headerFits_iff (word : cbEncoded < 0x100000000) :
    HeaderFits input cbEncoded ↔ ¬Overruns input cbEncoded := by
  constructor
  · intro fits overruns
    rcases overruns with ⟨_, short, _⟩ | ⟨long, short, _, _, _⟩
    · have lenLen : getLenBytes (input 1) = 1 := if_pos (by omega)
      have definite : (input 1).toNat ≠ indefiniteLength := by
        unfold indefiniteLength
        omega
      have := fits _ ((getLengthIndefinite_definite_iff definite).mpr (by omega)) definite
      omega
    · have lenLen := getLenBytes_of_long (by omega : 0x81 ≤ (input 1).toNat)
      have definite : readLength input ((input 1).toNat - 0x80) 2 0 ≠ indefiniteLength := by
        unfold indefiniteLength
        omega
      have := fits _ ((getLengthIndefinite_definite_iff definite).mpr (by omega)) definite
      omega
  · intro noOverrun _ run definite
    obtain ⟨_, _ | _⟩ := (getLengthIndefinite_definite_iff definite).mp run
    · have lenLen : getLenBytes (input 1) = 1 := if_pos (by omega)
      unfold Overruns at noOverrun
      omega
    · have lenLen := getLenBytes_of_long (by omega : 0x81 ≤ (input 1).toNat)
      unfold Overruns at noOverrun
      omega

/-! ## Writing -/

theorem bigEndian_length (count len : Nat) : (bigEndian count len).length = count := by
  induction count generalizing len with
  | zero => rfl
  | succ _ ih => simp [bigEndian, ih]

theorem encodeLen_length (len : Nat) : (encodeLen len).length = encodeLenSize len := by
  unfold encodeLen encodeLenSize
  split
  · rfl
  · simp [bigEndian_length]

theorem significantBytes_bounds (long : 0x7f < len) (word : len < 0x100000000) :
    1 ≤ significantBytes 4 len ∧ significantBytes 4 len ≤ 4 ∧
      0x100 ^ (significantBytes 4 len - 1) ≤ len ∧ len < 0x100 ^ significantBytes 4 len := by
  simp only [significantBytes]
  split
  · split
    · split
      · split
        · omega
        · omega
      · omega
    · omega
  · omega

theorem readLength_succ (count position out : Nat) :
    readLength input (count + 1) position out =
      readLength input count position out * 0x100 % 0x100000000 +
        (input (position + count)).toNat := by
  induction count generalizing position out with
  | zero => rfl
  | succ _ ih =>
    rw [readLength, ih (position + 1), ← readLength]
    congr 3
    omega

/-- The memory begins with the given bytes. -/
def Input.Holds (input : Input) (bytes : List UInt8) : Prop :=
  ∀ i byte, bytes[i]? = some byte → input i = byte

theorem Input.holds_ofList (bytes : List UInt8) : (Input.ofList bytes).Holds bytes := by
  intro _ _ isByte
  rw [Input.ofList, getD_eq_getElem?_getD, isByte]
  rfl

variable {second : List UInt8} {position : Nat} {tag : UInt8}

/-- What a prefix of the bytes is followed by. -/
theorem Input.holds_append :
    input.Holds (first ++ second) ↔ input.Holds first ∧ (input.drop first.length).Holds second := by
  constructor
  · intro holds
    constructor
    · intro i byte isByte
      refine holds i byte ?_
      rw [getElem?_append_left (List.getElem?_eq_some_iff.mp isByte).1]
      exact isByte
    · intro i byte isByte
      refine holds (first.length + i) byte ?_
      rw [getElem?_append_right (by omega), Nat.add_sub_cancel_left]
      exact isByte
  · rintro ⟨here, there⟩ i byte isByte
    by_cases inside : i < first.length
    · rw [getElem?_append_left inside] at isByte
      exact here i byte isByte
    · rw [getElem?_append_right (by omega)] at isByte
      have := there (i - first.length) byte isByte
      rwa [Input.drop, Nat.add_sub_cancel' (by omega)] at this

theorem Input.Holds.append (holds : input.Holds (first ++ second)) :
    input.Holds first ∧ (input.drop first.length).Holds second :=
  Input.holds_append.mp holds

theorem Input.holds_singleton : input.Holds [byte] ↔ input 0 = byte := by
  constructor
  · intro holds
    exact holds 0 byte rfl
  · intro isByte i _ isOther
    cases i with
    | zero => cases isOther; exact isByte
    | succ => cases isOther

theorem Input.holds_cons {bytes : List UInt8} :
    (input.drop position).Holds (byte :: bytes) ↔
      input position = byte ∧ (input.drop (position + 1)).Holds bytes := by
  rw [← singleton_append, Input.holds_append, Input.holds_singleton, Input.drop_drop]
  rfl

theorem Input.Holds.last (holds : input.Holds (first ++ [byte])) : input first.length = byte :=
  holds.append.2 0 byte rfl

theorem readLength_eq_unsigned (octets : List UInt8) (short : octets.length ≤ 4)
    (holds : (input.drop position).Holds octets) :
    readLength input octets.length position 0 = unsigned octets.reverse := by
  induction octets using reverseRecOn with
  | nil => rfl
  | append_singleton octets byte ih =>
    simp only [length_append, length_cons, length_nil] at short ⊢
    have small : unsigned octets.reverse < 0x100 ^ 3 := by
      refine lt_of_lt_of_le (unsigned_lt _) ?_
      rw [length_reverse]
      exact Nat.pow_le_pow_right (by decide) (by omega)
    have last : input (position + octets.length) = byte := holds.last
    rw [readLength_succ, ih (by omega) holds.append.1, last, reverse_append, unsigned_append]
    simp [reverse_cons, reverse_nil, unsigned_singleton]
    omega

/-- The length octets of a definite length, with the length they stand for: one octet
below 0x80, or the number of octets that follow and these octets. -/
inductive LengthField : List UInt8 → Nat → Prop where
  | short {byte : UInt8} : byte.toNat ≤ 0x7f → LengthField [byte] byte.toNat
  | long {octets : List UInt8} : 1 ≤ octets.length → octets.length ≤ 0x7e →
      LengthField (UInt8.ofNat (0x80 + octets.length) :: octets) (unsigned octets.reverse)

theorem LengthField.length_pos (isField : LengthField field len) : 1 ≤ field.length := by
  cases isField <;> simp

/-- A length field of at most four octets behind its first is read as the length it
stands for, unless nothing follows a long one. -/
theorem LengthField.read (isField : LengthField field len) (holds : input.Holds (tag :: field))
    (readable : field.length ≤ 5) (word : len < indefiniteLength)
    (enough : 1 + field.length + len ≤ cbEncoded)
    (follows : field.length = 1 ∨ 2 + field.length ≤ cbEncoded) :
    getLengthIndefinite input cbEncoded = .ok len ∧ getLenBytes (input 1) = field.length := by
  have definite : len ≠ indefiniteLength := Nat.ne_of_lt word
  rw [getLengthIndefinite_definite_iff definite]
  cases isField with
  | @short byte small =>
    have first : input 1 = byte := holds 1 byte rfl
    simp only [length_cons, length_nil] at enough ⊢
    rw [first]
    refine ⟨by omega, ?_⟩
    unfold getLenBytes
    rw [if_pos (by omega)]
  | @long octets one many =>
    have first : (input 1).toNat = 0x80 + octets.length := by
      rw [holds 1 _ rfl]
      exact toNat_ofNat (by omega)
    simp only [length_cons] at readable enough follows ⊢
    have split : tag :: UInt8.ofNat (0x80 + octets.length) :: octets =
        [tag, UInt8.ofNat (0x80 + octets.length)] ++ octets := rfl
    rw [split] at holds
    have read : readLength input octets.length 2 0 = unsigned octets.reverse :=
      readLength_eq_unsigned octets (by omega) holds.append.2
    rw [first, Nat.add_sub_cancel_left]
    unfold getLenBytes
    rw [if_neg (by omega)]
    omega

/-- The octets of a number stand for it. -/
theorem unsigned_bigEndian {count : Nat} (small : len < 0x100 ^ count) :
    unsigned (bigEndian count len).reverse = len := by
  induction count generalizing len with
  | zero =>
    simp [bigEndian, unsigned_nil]
    omega
  | succ _ ih =>
    rw [bigEndian, reverse_append, unsigned_append, ih (by omega)]
    simp [unsigned_singleton, toNat_ofNat (by omega : len % 0x100 < 0x100)]
    omega

theorem lengthField_encodeLen (word : len < 0x100000000) : LengthField (encodeLen len) len := by
  unfold encodeLen
  split
  next small =>
    have read : (UInt8.ofNat len).toNat = len := toNat_ofNat (by omega)
    have field : LengthField [UInt8.ofNat len] (UInt8.ofNat len).toNat := .short (by omega)
    rw [read] at field
    exact field
  next long =>
    obtain ⟨_, _, -, covers⟩ := significantBytes_bounds (by omega : 0x7f < len) word
    have size := bigEndian_length (significantBytes 4 len) len
    have field : LengthField (_ :: bigEndian (significantBytes 4 len) len) _ :=
      .long (by omega) (by omega)
    rw [unsigned_bigEndian covers, size, Nat.add_comm 0x80] at field
    exact field

theorem LengthField.encodeLenSize_le (isField : LengthField field len) (word : len < 0x100000000) :
    encodeLenSize len ≤ field.length := by
  have one := isField.length_pos
  unfold encodeLenSize
  split
  · exact one
  obtain ⟨-, -, least, -⟩ := significantBytes_bounds (by omega : 0x7f < len) word
  cases isField with
  | short => omega
  | @long octets =>
    have below := unsigned_lt octets.reverse
    rw [length_reverse] at below
    have exponents := (Nat.pow_lt_pow_iff_right (by decide : 1 < 0x100)).mp
      (lt_of_le_of_lt least below)
    simp
    omega

theorem encodeLenSize_le_five (word : len < 0x100000000) : encodeLenSize len ≤ 5 := by
  unfold encodeLenSize
  split
  · decide
  next long =>
    have := (significantBytes_bounds (by omega : 0x7f < len) word).2.1
    omega

/-- A written length is read back, and it takes as many octets as were written. -/
theorem getLen_encodeLen (holds : input.Holds (tag :: encodeLen len))
    (word : cbEncoded < 0x100000000) (enough : 1 + encodeLenSize len + len ≤ cbEncoded) :
    getLen input cbEncoded = .ok len ∧ getLenBytes (input 1) = encodeLenSize len := by
  have small : len < indefiniteLength := by
    unfold indefiniteLength
    omega
  have field := lengthField_encodeLen (by omega : len < 0x100000000)
  have size := encodeLen_length len
  have follows : encodeLenSize len = 1 ∨ 2 + encodeLenSize len ≤ cbEncoded := by
    by_cases short : len ≤ 0x7f
    · exact .inl (if_pos short)
    · omega
  have readable := encodeLenSize_le_five (by omega : len < 0x100000000)
  rw [← size] at enough follows readable ⊢
  obtain ⟨read, octets⟩ := field.read holds readable small enough follows
  rw [getLen, read]
  exact ⟨if_neg small.ne, octets⟩

end Winex.Asn
