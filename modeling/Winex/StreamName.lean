import Winex.MsiStrings

namespace Winex.Msi

open List

/-!
# Stream names

`encode_streamname` packs two characters of an alphabet of 64 into one `WCHAR` where it can,
and `decode_streamname` unpacks them.
-/

/-- `utf2mime`, where -1 is `none`. -/
def utf2mime (x : Nat) : Option Nat :=
  if 0x30 ≤ x ∧ x ≤ 0x39 then some (x - 0x30)
  else if 0x41 ≤ x ∧ x ≤ 0x5a then some (x - 0x41 + 10)
  else if 0x61 ≤ x ∧ x ≤ 0x7a then some (x - 0x61 + 10 + 26)
  else if x = 0x2e then some 62
  else if x = 0x5f then some 63
  else none

/-- `mime2utf` -/
def mime2utf (x : Nat) : UInt16 :=
  if x < 10 then UInt16.ofNat (x + 0x30)
  else if x < 36 then UInt16.ofNat (x - 10 + 0x41)
  else if x < 62 then UInt16.ofNat (x - 36 + 0x61)
  else if x = 62 then 0x2e
  else 0x5f

/-- The number of a character that is encoded. -/
def mimeOf (ch : UInt16) : Option Nat :=
  if ch < 0x80 then utf2mime ch.toNat else none

/-- The unit for one character, and the one for two. -/
def singleUnit (first : Nat) : UInt16 :=
  UInt16.ofNat (first + 0x4800)

def pairUnit (first second : Nat) : UInt16 :=
  UInt16.ofNat (first + 0x4800 + ((second + 0x3ffffc0) <<< 6))

/-- What a round of the loop in `encode_streamname` writes, and the characters left. -/
def encodeUnit (ch : UInt16) (rest : WString) : UInt16 × WString :=
  match mimeOf ch, rest with
  | none, _ => (ch, rest)
  | some first, [] => (singleUnit first, [])
  | some first, next :: others =>
    match mimeOf next with
    | none => (singleUnit first, rest)
    | some second => (pairUnit first second, others)

/-- The loop of `encode_streamname`: what it writes, and whether the name ends before the
count. -/
def encodeLoop : Nat → WString → WString × Bool
  | 0, _ => ([], false)
  | _ + 1, [] => ([0], true)
  | count + 1, ch :: rest =>
    let (unit, rest) := encodeUnit ch rest
    let (units, ended) := encodeLoop count rest
    (unit :: units, ended)

/-- A call of `encode_streamname`: the size of the buffer, what is written, and whether the
buffer is returned. -/
structure Encoded where
  count : Nat
  out : WString
  returned : Bool

/-- `encode_streamname` -/
def encodeStreamname (bTable : Bool) (name : WString) : Encoded :=
  if bTable then
    let (units, ended) := encodeLoop 0x1e name
    ⟨0x1f, 0x4840 :: units, ended⟩
  else
    let (units, ended) := encodeLoop (name.length + 2) name
    ⟨name.length + 2, units, ended⟩

/-- What `decode_streamname` writes for a unit. -/
def decodeUnit (ch : Nat) : WString :=
  if 0x3800 ≤ ch ∧ ch < 0x4840 then
    if 0x4800 ≤ ch then [mime2utf (ch - 0x4800)]
    else [mime2utf ((ch - 0x3800) &&& 0x3f), mime2utf (((ch - 0x3800) >>> 6) &&& 0x3f)]
  else [UInt16.ofNat ch]

/-- `decode_streamname` -/
def decodeStreamname : WString → WString
  | [] => []
  | ch :: rest => if ch = 0 then [] else decodeUnit ch.toNat ++ decodeStreamname rest

theorem length_encodeUnit (ch : UInt16) (rest : WString) :
    (encodeUnit ch rest).2.length ≤ rest.length := by
  unfold encodeUnit
  split
  · rfl
  · rfl
  · split <;> simp

/-- The encoded form of a name, without prefix and terminator. -/
def units : WString → WString
  | [] => []
  | ch :: rest => (encodeUnit ch rest).1 :: units (encodeUnit ch rest).2
termination_by name => name.length
decreasing_by exact Nat.lt_succ_of_le (length_encodeUnit ch rest)

theorem mime2utf_of_mimeOf {ch : UInt16} {number : Nat} (isNumber : mimeOf ch = some number) :
    number < 64 ∧ mime2utf number = ch := by
  have table : ∀ x < 0x80, ∀ number ∈ utf2mime x,
      number < 64 ∧ mime2utf number = UInt16.ofNat x := by
    decide +kernel
  unfold mimeOf at isNumber
  split at isNumber
  next ascii => simpa using table ch.toNat ascii number isNumber
  · cases isNumber

/-- The loop writes the encoded form, as far as the count goes. -/
theorem encodeLoop_eq (count : Nat) (name : WString) :
    encodeLoop count name =
      if (units name).length < count then (units name ++ [0], true)
      else ((units name).take count, false) := by
  induction count generalizing name with
  | zero => simp [encodeLoop]
  | succ count ih =>
    cases name with
    | nil => simp [encodeLoop, units]
    | cons ch rest =>
      simp only [encodeLoop, ih, units, length_cons, Nat.add_lt_add_iff_right, take_succ_cons]
      split <;> rfl

theorem length_units_le (name : WString) : (units name).length ≤ name.length := by
  fun_induction units name with
  | case1 => rfl
  | case2 ch rest ih => simpa using ih.trans (length_encodeUnit ch rest)

/-- A character that `decode_streamname` leaves as it is. -/
def Plain (ch : UInt16) : Prop :=
  ch ≠ 0 ∧ ¬(0x3800 ≤ ch.toNat ∧ ch.toNat < 0x4840)

theorem decodeUnit_pairUnit {first second : Nat} (small : first < 64) (small' : second < 64) :
    pairUnit first second ≠ 0 ∧
      decodeUnit (pairUnit first second).toNat = [mime2utf first, mime2utf second] := by
  have unit : (pairUnit first second).toNat = 0x3800 + (first + 64 * second) := by
    rw [pairUnit, UInt16.toNat_ofNat', Nat.shiftLeft_eq]
    omega
  have low : (first + 64 * second) &&& 0x3f = first := by
    rw [Nat.and_two_pow_sub_one_eq_mod _ 6]
    omega
  have high : ((first + 64 * second) >>> 6) &&& 0x3f = second := by
    rw [Nat.and_two_pow_sub_one_eq_mod _ 6, Nat.shiftRight_eq_div_pow]
    omega
  constructor
  · intro null
    rw [null, UInt16.toNat_zero] at unit
    omega
  · rw [unit, decodeUnit, if_pos (by omega), if_neg (by omega), Nat.add_sub_cancel_left, low, high]

/-- A unit gives back the characters it was made of. -/
theorem decodeUnit_encodeUnit {ch : UInt16} (rest : WString) (plain : Plain ch) :
    (encodeUnit ch rest).1 ≠ 0 ∧
      decodeUnit (encodeUnit ch rest).1.toNat ++ (encodeUnit ch rest).2 = ch :: rest := by
  have single : ∀ first < 64, singleUnit first ≠ 0 ∧
      decodeUnit (singleUnit first).toNat = [mime2utf first] := by
    decide +kernel
  unfold encodeUnit
  split
  · simp [decodeUnit, plain.1, plain.2]
  next first isFirst =>
    obtain ⟨small, rfl⟩ := mime2utf_of_mimeOf isFirst
    simp [single first small]
  next first next others isFirst =>
    obtain ⟨small, rfl⟩ := mime2utf_of_mimeOf isFirst
    split
    · simp [single first small]
    next second isSecond =>
      obtain ⟨small', rfl⟩ := mime2utf_of_mimeOf isSecond
      simp [decodeUnit_pairUnit small small']

theorem decodeStreamname_units {name : WString} (plain : ∀ ch ∈ name, Plain ch) :
    decodeStreamname (units name ++ [0]) = name := by
  fun_induction units name with
  | case1 => rfl
  | case2 ch rest ih =>
    obtain ⟨notNull, read⟩ := decodeUnit_encodeUnit rest (plain ch mem_cons_self)
    rw [cons_append, decodeStreamname, if_neg notNull, ih, read]
    rw [← read] at plain
    exact fun ch inRest => plain ch (mem_append_right _ inRest)

/-- A name survives the encoding, unless it is one of a table and its encoded form is too
long, and nothing is written outside the buffer. -/
theorem streamname_roundTrip (bTable : Bool) (name : WString) :
    let encoded := encodeStreamname bTable name
    encoded.out.length ≤ encoded.count ∧
      (encoded.returned = false ↔ bTable = true ∧ 0x1f < (units name).length + 2) ∧
      ((∀ ch ∈ name, Plain ch) → encoded.returned = true →
        decodeStreamname encoded.out = (if bTable then [0x4840] else []) ++ name) := by
  have shorter := length_units_le name
  cases bTable with
  | false =>
    have whole : encodeStreamname false name = ⟨name.length + 2, units name ++ [0], true⟩ := by
      simp [encodeStreamname, encodeLoop_eq, (by omega : (units name).length < name.length + 2)]
    rw [whole]
    refine ⟨?_, by simp, fun plain _ => decodeStreamname_units plain⟩
    simp only [length_append, length_singleton]
    omega
  | true =>
    by_cases short : (units name).length < 0x1e
    · have whole : encodeStreamname true name = ⟨0x1f, 0x4840 :: (units name ++ [0]), true⟩ := by
        simp [encodeStreamname, encodeLoop_eq, short]
      rw [whole]
      refine ⟨?_, iff_of_false nofun (by omega), fun plain _ => ?_⟩
      · simp only [length_cons, length_append, length_nil]
        omega
      · exact congrArg (0x4840 :: ·) (decodeStreamname_units plain)
    · simp [encodeStreamname, encodeLoop_eq, short]
      omega

/-- Three characters in two units, and a character that is not encoded. -/
theorem streamname_roundTrip_four :
    decodeStreamname (encodeStreamname true [0x41, 0x62, 0x63, 0x20]).out =
      [0x4840, 0x41, 0x62, 0x63, 0x20] :=
  (streamname_roundTrip true [0x41, 0x62, 0x63, 0x20]).2.2 (by simp [Plain])
    (by decide +kernel)

end Winex.Msi
