import Winex.DecimalText
import Winex.DerInteger

namespace Winex.Asn

open DecimalText List

/-!
# Object identifiers

`CRYPT_AsnEncodeOid` scans the dotted text of an object identifier, and
`CRYPT_AsnDecodeOidIgnoreTag` prints it.  The first two numbers share an octet.  The
others are written in base 128, and all octets but the last have the high bit set.
-/

/-! ## The encoder -/

/-- `if (*ptr == '.') ptr++` -/
def skipDot : List Char → List Char
  | '.' :: rest => rest
  | text => text

/-- `sscanf(pszObjId, "%d.%d%n", …)` -/
def scanFirstTwo (text : List Char) : Option (Int × Int × List Char) :=
  match scanInt text with
  | some (val1, '.' :: text) =>
    match scanInt text with
    | some (val2, rest) => some (val1, val2, rest)
    | none => none
  | _ => none

theorem skipDot_length_le (text : List Char) : (skipDot text).length ≤ text.length := by
  unfold skipDot
  split <;> simp

/-- The loops over the further numbers; both scan the same text. -/
def scanArcs (text : List Char) : Option (List Int) :=
  if text = [] then some []
  else
    match _scanned : scanInt text with
    | none => none
    | some (val, rest) => (scanArcs (skipDot rest)).map (val :: ·)
termination_by text.length
decreasing_by
  have := scanInt_shorter _scanned
  have := skipDot_length_le rest
  omega

/-- `numBytes` -/
def arcSize (val : Int) : Nat :=
  if 0x10000000 ≤ val then 5
  else if 0x200000 ≤ val then 4
  else if 0x4000 ≤ val then 3
  else if 0x80 ≤ val then 2
  else 1

/-- The octets of a number in front of its last one. -/
def continuing : Nat → Int → List UInt8
  | 0, _ => []
  | count + 1, val => continuing count (val / 0x80) ++ [UInt8.ofNat ((val % 0x80).toNat + 0x80)]

/-- The octets written for a number. -/
def arcBytes (val : Int) : List UInt8 :=
  continuing (arcSize val - 1) (val / 0x80) ++ [UInt8.ofNat (val % 0x80).toNat]

/-- The last part of `CRYPT_AsnEncodeOid`, with the contents and their size. -/
def encodeOidContent (needed : Nat) (content : List UInt8) (space : Option Nat) :
    Except Failure (Nat × List UInt8) :=
  let lenBytes := encodeLenSize needed
  let bytesNeeded := (needed + (1 + lenBytes)) % 0x100000000
  match space with
  | none => .ok (bytesNeeded, [])
  | some space =>
    if space < bytesNeeded then .error .moreData
    else .ok (bytesNeeded,
      0x06 :: (encodeLen (subWord (subWord bytesNeeded 1) lenBytes) ++ content))

/-- `CRYPT_AsnEncodeOid`: `*pcbEncoded` afterwards, and the bytes written.  In the sizing
call `pbEncoded` is `NULL`. -/
def encodeOid (pszObjId : Option (List Char)) (space : Option Nat) :
    Except Failure (Nat × List UInt8) :=
  match pszObjId with
  | none => encodeOidContent 0 [] space
  | some text =>
    match scanFirstTwo text with
    | none => .error .asnError
    | some (val1, val2, rest) =>
      match scanArcs (skipDot rest) with
      | none => .error .asnError
      | some arcs =>
        encodeOidContent
          (arcs.foldl (fun needed val => (needed + arcSize val) % 0x100000000) 1)
          (UInt8.ofNat ((val1 * 40 + val2) % 0x100).toNat :: arcs.flatMap arcBytes)
          space

/-! ## The decoder -/

/-- Where the inner loop of the decoder stops: `val`, the position of `ptr` and the
number of octets from there to the end of the contents. -/
structure Arc where
  val : Nat
  position : Nat
  remaining : Nat
deriving DecidableEq

/-- The inner loop of the decoder, over the octets with the high bit set. -/
def readArc (input : Input) : Nat → Nat → Nat → Arc
  | 0, position, val => ⟨val, position, 0⟩
  | remaining + 1, position, val =>
    if 0x80 ≤ (input position).toNat then
      readArc input remaining (position + 1)
        (val * 0x80 % 0x100000000 + (input position).toNat % 0x80)
    else ⟨val, position, remaining + 1⟩

theorem readArc_remaining_le (input : Input) (remaining position val : Nat) :
    (readArc input remaining position val).remaining ≤ remaining := by
  induction remaining generalizing position val with
  | zero => exact le_rfl
  | succ _ ih =>
    rw [readArc]
    split
    · exact Nat.le_succ_of_le (ih _ _)
    · exact le_rfl

/-- The loop of the decoder over the further numbers: the numbers, and `ret`. -/
def readArcs (input : Input) (remaining position : Nat) : List Nat × Bool :=
  if remaining = 0 then ([], true)
  else
    let arc := readArc input remaining position 0
    if arc.remaining = 0 then ([], false)
    else
      let (vals, ret) := readArcs input (arc.remaining - 1) (arc.position + 1)
      ((arc.val * 0x80 % 0x100000000 + (input arc.position).toNat) :: vals, ret)
termination_by remaining
decreasing_by
  have := readArc_remaining_le input remaining position 0
  omega

/-- `".%d"` -/
def arcText (val : Nat) : List Char :=
  '.' :: signedDecimal ((val : Int).bmod 0x100000000)

/-- `"%d.%d"` for the first octet. -/
def firstTwo (byte : UInt8) : List Char :=
  decimal (byte.toNat / 40) ++ '.' :: decimal (byte.toNat - byte.toNat / 40 * 40)

/-- What `snprintf` leaves of a text in a buffer of the given size. -/
def snprintf (size : Nat) (text : List Char) : List Char :=
  text.take (size - 1)

/-- `bytesNeeded`, for which the text is printed in buffers of 6 and 9 characters. -/
def oidBytesNeeded (first : UInt8) (vals : List Nat) : Nat :=
  vals.foldl (fun needed val => (needed + (snprintf 9 (arcText val)).length) % 0x100000000)
    (4 + ((snprintf 6 (firstTwo first)).length + 1))

/-- `CRYPT_AsnDecodeOidIgnoreTag`: `*pcbStructInfo` afterwards, and the text written, none
in the sizing call, in which `pvStructInfo` is `NULL`, and for empty contents. -/
def decodeOidIgnoreTag (input : Input) (cbEncoded : Nat) (space : Option Nat) :
    Except Failure (Nat × Option (List Char)) :=
  match getLen input cbEncoded with
  | .error failure => .error failure
  | .ok dataLen =>
    let lenBytes := getLenBytes (input 1)
    if dataLen = 0 then
      match space with
      | none => .ok (4, none)
      | some space => if space < 4 then .error .moreData else .ok (4, none)
    else
      let (vals, ret) := readArcs input (dataLen - 1) (2 + lenBytes)
      let first := input (1 + lenBytes)
      let bytesNeeded := oidBytesNeeded first vals
      match space with
      | none => if ret then .ok (bytesNeeded, none) else .error .corrupt
      | some space =>
        if space < bytesNeeded then .error .moreData
        else if ret then .ok (bytesNeeded, some (firstTwo first ++ vals.flatMap arcText))
        else .error .corrupt

/-- `CRYPT_AsnDecodeOidInternal` -/
def decodeOidInternal (input : Input) (cbEncoded : Nat) (space : Option Nat) :
    Except Failure (Nat × Option (List Char)) :=
  if input 0 = 0x06 then decodeOidIgnoreTag input cbEncoded space else .error .badTag

/-! ## Octets of numbers -/

/-- The octets of one number: all but the last have the high bit set. -/
inductive ArcOctets : List UInt8 → Prop where
  | intro {more : List UInt8} {last : UInt8} : (∀ byte ∈ more, 0x80 ≤ byte.toNat) →
      last.toNat < 0x80 → ArcOctets (more ++ [last])

/-- The number that octets stand for. -/
def arcNumber (octets : List UInt8) : Nat :=
  octets.foldl (fun number byte => number * 0x80 + byte.toNat % 0x80) 0

variable (octets : List UInt8) {input : Input} {position : Nat} {arcs : List Nat}
variable {first second arc : Nat}

theorem arcNumber_concat (byte : UInt8) :
    arcNumber (octets ++ [byte]) = arcNumber octets * 0x80 + byte.toNat % 0x80 := by
  simp [arcNumber]

/-- The decoder computes the numbers in 32 bits. -/
def arcVal (octets : List UInt8) : Nat :=
  arcNumber octets % 0x100000000

theorem arcVal_concat (byte : UInt8) :
    arcVal (octets ++ [byte]) = arcVal octets * 0x80 % 0x100000000 + byte.toNat % 0x80 := by
  rw [arcVal, arcVal, arcNumber_concat]
  omega

/-- The inner loop goes over the octets with the high bit set, and stops at the end or
at an octet without it. -/
theorem readArc_more (input : Input) (remaining position : Nat) (before : List UInt8) :
    ∃ more : List UInt8, (∀ byte ∈ more, 0x80 ≤ byte.toNat) ∧
      (input.drop position).Holds more ∧
      readArc input remaining position (arcVal before) =
        ⟨arcVal (before ++ more), position + more.length, remaining - more.length⟩ ∧
      (remaining ≤ more.length ∨ (input (position + more.length)).toNat < 0x80) := by
  induction remaining generalizing position before with
  | zero => exact ⟨[], nofun, nofun, by simp [readArc], .inl le_rfl⟩
  | succ _ ih =>
    by_cases high : 0x80 ≤ (input position).toNat
    · obtain ⟨more, allHigh, holds, read, _⟩ :=
        ih (position + 1) (before ++ [input position])
      refine ⟨input position :: more, ?_, ?_, ?_, ?_⟩
      · simpa using ⟨high, allHigh⟩
      · exact Input.holds_cons.mpr ⟨rfl, holds⟩
      · rw [readArc, if_pos high, ← arcVal_concat, read, append_assoc]
        simp
        omega
      · rw [length_cons]
        have index : position + (more.length + 1) = position + 1 + more.length := by omega
        rw [index]
        omega
    · refine ⟨[], nofun, nofun, ?_, .inr (by simpa using high)⟩
      rw [readArc, if_neg high]
      simp

/-- The inner loop over the octets of a number stops at the last one. -/
theorem readArc_eq (before : List UInt8) {more : List UInt8} {last : UInt8}
    (high : ∀ byte ∈ more, 0x80 ≤ byte.toNat) (low : last.toNat < 0x80)
    (holds : (input.drop position).Holds (more ++ [last])) (rest : Nat) :
    readArc input (more.length + (rest + 1)) position (arcVal before) =
      ⟨arcVal (before ++ more), position + more.length, rest + 1⟩ := by
  induction more generalizing position before with
  | nil =>
    have isLast : input position = last := (Input.holds_cons.mp holds).1
    rw [length_nil, Nat.zero_add, readArc, isLast, if_neg (by omega)]
    simp
  | cons byte more ih =>
    obtain ⟨isByte, holds⟩ := Input.holds_cons.mp holds
    rw [forall_mem_cons] at high
    have remaining : (byte :: more).length + (rest + 1) = more.length + (rest + 1) + 1 := by
      rw [length_cons]
      omega
    rw [remaining, readArc, isByte, if_pos high.1, ← arcVal_concat, ih _ high.2 holds, append_assoc]
    simp
    omega

variable {groups : List (List UInt8)} {cbEncoded : Nat}

theorem readArcs_eq (octets : ∀ group ∈ groups, ArcOctets group)
    (holds : (input.drop position).Holds groups.flatten) :
    readArcs input groups.flatten.length position = (groups.map arcVal, true) := by
  induction groups generalizing position with
  | nil =>
    rw [readArcs]
    rfl
  | cons _ groups ih =>
    rw [forall_mem_cons] at octets
    rw [flatten_cons] at holds ⊢
    obtain ⟨here, there⟩ := holds.append
    rw [Input.drop_drop] at there
    obtain @⟨more, last, high, low⟩ := octets.1
    have stops := readArc_eq [] high low here groups.flatten.length
    rw [nil_append] at stops
    have isLast : input (position + more.length) = last := here.last
    have sizes : (more ++ [last] ++ groups.flatten).length =
        more.length + (groups.flatten.length + 1) := by
      simp only [length_append, length_singleton]
      omega
    have next : position + (more ++ [last]).length = position + more.length + 1 := by
      rw [length_append, length_singleton, Nat.add_assoc]
    rw [next] at there
    rw [show arcVal [] = 0 from rfl] at stops
    rw [sizes, readArcs, if_neg (by omega)]
    simp only [stops, Nat.add_sub_cancel, isLast, ih octets.2 there, map_cons, arcVal_concat]
    rw [if_neg (by omega), Nat.mod_eq_of_lt low]

theorem exists_groups {remaining : Nat} (accepted : (readArcs input remaining position).2 = true) :
    ∃ groups : List (List UInt8), (∀ group ∈ groups, ArcOctets group) ∧
      groups.flatten.length = remaining ∧ (input.drop position).Holds groups.flatten := by
  induction remaining using Nat.strongRecOn generalizing position with
  | ind remaining ih =>
    rw [readArcs] at accepted
    split at accepted
    next empty => exact ⟨[], nofun, empty.symm, nofun⟩
    · obtain ⟨more, high, holds, read, _⟩ := readArc_more input remaining position []
      rw [show arcVal [] = 0 from rfl] at read
      simp only [read] at accepted
      split at accepted
      · cases accepted
      obtain ⟨groups, octets, size, there⟩ := ih _ (by omega) accepted
      refine ⟨(more ++ [input (position + more.length)]) :: groups, ?_, ?_, ?_⟩
      · rw [forall_mem_cons]
        exact ⟨.intro high (by omega), octets⟩
      · rw [flatten_cons, length_append, length_append, length_singleton]
        omega
      · rw [flatten_cons, append_assoc, Input.holds_append]
        refine ⟨holds, ?_⟩
        rw [Input.drop_drop, singleton_append, Input.holds_cons]
        exact ⟨rfl, there⟩

/-! ## The text -/

/-- The contents of the input are the given first octet and the octets of the given
numbers. -/
structure EncodedOid (input : Input) (cbEncoded : Nat) (first : UInt8)
    (groups : List (List UInt8)) : Prop where
  octets : ∀ group ∈ groups, ArcOctets group
  length : getLen input cbEncoded = .ok (groups.flatten.length + 1)
  holds : (input.drop (1 + getLenBytes (input 1))).Holds (first :: groups.flatten)

/-- The text that is printed. -/
def oidText (first : UInt8) (vals : List Nat) : List Char :=
  firstTwo first ++ vals.flatMap arcText

/-- What the decoder does with an object identifier. -/
theorem EncodedOid.decode {first : UInt8} (encoded : EncodedOid input cbEncoded first groups) :
    decodeOidIgnoreTag input cbEncoded none = .ok (oidBytesNeeded first (groups.map arcVal), none) ∧
      ∀ space, decodeOidIgnoreTag input cbEncoded (some space) =
        if space < oidBytesNeeded first (groups.map arcVal) then .error .moreData
        else .ok (oidBytesNeeded first (groups.map arcVal),
          some (oidText first (groups.map arcVal))) := by
  obtain ⟨isFirst, there⟩ := Input.holds_cons.mp encoded.holds
  have index : 1 + getLenBytes (input 1) + 1 = 2 + getLenBytes (input 1) := by omega
  rw [index] at there
  have read := readArcs_eq encoded.octets there
  unfold decodeOidIgnoreTag oidText
  simp only [encoded.length, isFirst, Nat.add_sub_cancel, read, Nat.succ_ne_zero, if_false,
    if_true, implies_true, and_self]

theorem exists_encodedOid {dataLen : Nat} (length : getLen input cbEncoded = .ok dataLen)
    (nonempty : dataLen ≠ 0) {needed : Nat}
    (sized : decodeOidIgnoreTag input cbEncoded none = .ok (needed, none)) :
    ∃ first groups, EncodedOid input cbEncoded first groups := by
  have accepted : (readArcs input (dataLen - 1) (2 + getLenBytes (input 1))).2 = true := by
    by_contra refused
    unfold decodeOidIgnoreTag at sized
    simp [length, nonempty, refused] at sized
  obtain ⟨groups, octets, size, _⟩ := exists_groups accepted
  refine ⟨input (1 + getLenBytes (input 1)), groups, octets, ?_, ?_⟩
  · rw [length, size, Nat.sub_add_cancel (by omega)]
  · rw [Input.holds_cons]
    refine ⟨rfl, ?_⟩
    have index : 1 + getLenBytes (input 1) + 1 = 2 + getLenBytes (input 1) := by omega
    rwa [index]

theorem firstTwo_length_le (first : UInt8) : (firstTwo first).length ≤ 4 := by
  have byte := first.toNat_lt
  have one : (decimal (first.toNat / 40)).length ≤ 1 :=
    (Nat.length_toDigits_le_iff (by decide) (by decide)).mpr (by omega)
  have two : (decimal (first.toNat - first.toNat / 40 * 40)).length ≤ 2 :=
    (Nat.length_toDigits_le_iff (by decide) (by decide)).mpr (by omega)
  simp [firstTwo]
  omega

/-- The size that is reported. -/
theorem oidBytesNeeded_eq (first : UInt8) (vals : List Nat) :
    oidBytesNeeded first vals =
      (5 + (firstTwo first).length +
        (vals.flatMap fun val => snprintf 9 (arcText val)).length) % 0x100000000 := by
  have short := firstTwo_length_le first
  have whole : snprintf 6 (firstTwo first) = firstTwo first := take_of_length_le (by omega)
  have sums (start : Nat) (small : start < 0x100000000) : vals.foldl (fun needed val =>
          (needed + (snprintf 9 (arcText val)).length) % 0x100000000) start =
        (start + (vals.flatMap fun val => snprintf 9 (arcText val)).length) %
          0x100000000 := by
    induction vals generalizing start with
    | nil => simp [Nat.mod_eq_of_lt small]
    | cons _ _ ih =>
      rw [foldl_cons, ih _ (Nat.mod_lt _ (by decide)), Nat.mod_add_mod,
        flatMap_cons, length_append, Nat.add_assoc]
  rw [oidBytesNeeded, whole, sums _ (by omega)]
  omega

/-- The text is cut where a number takes more than eight characters. -/
theorem cut_length (vals : List Nat) :
    (vals.flatMap fun val => snprintf 9 (arcText val)).length ≤ (vals.flatMap arcText).length ∧
      ((vals.flatMap arcText).length ≤ (vals.flatMap fun val => snprintf 9 (arcText val)).length ↔
        ∀ val ∈ vals, (arcText val).length ≤ 8) := by
  induction vals with
  | nil => simp
  | cons val _ ih =>
    obtain ⟨_, same⟩ := ih
    have cut : (snprintf 9 (arcText val)).length = min 8 (arcText val).length := length_take
    simp only [flatMap_cons, length_append, forall_mem_cons, cut]
    rw [← same]
    omega

/-- The number that octets stand for in an `int`. -/
def arcValue (octets : List UInt8) : Int :=
  (arcNumber octets : Int).bmod 0x100000000

theorem bmod_arcVal : (arcVal octets : Int).bmod 0x100000000 = arcValue octets := by
  rw [arcVal, Int.natCast_emod]
  exact Int.emod_bmod _ _

theorem arcText_length_le_iff :
    (arcText (arcVal octets)).length ≤ 8 ↔
      -1000000 < arcValue octets ∧ arcValue octets < 10000000 := by
  rw [arcText, bmod_arcVal, length_cons, Nat.succ_le_succ_iff, signedDecimal_length_le_iff _ 5]
  simp

/-- The text that the filling call writes lies, with its terminator, in the space that
the sizing call has reported. -/
def TextFits (input : Input) (cbEncoded : Nat) : Prop :=
  ∀ needed, decodeOidIgnoreTag input cbEncoded none = .ok (needed, none) →
    ∀ space size text, decodeOidIgnoreTag input cbEncoded (some space) = .ok (size, some text) →
      text.length + 1 ≤ needed - 4

/-- Nothing is written behind the reported space exactly if no number of the object
identifier needs more than seven characters, and the whole text can be counted. -/
theorem decodeOidIgnoreTag_textFits_iff (input : Input) (cbEncoded : Nat) :
    TextFits input cbEncoded ↔
      ∀ first groups, EncodedOid input cbEncoded first groups →
        (∀ group ∈ groups, -1000000 < arcValue group ∧ arcValue group < 10000000) ∧
          (oidText first (groups.map arcVal)).length + 5 < 0x100000000 := by
  have counts (first : UInt8) (groups : List (List UInt8)) :
      (oidText first (groups.map arcVal)).length + 1 ≤
          oidBytesNeeded first (groups.map arcVal) - 4 ↔
        (∀ group ∈ groups, -1000000 < arcValue group ∧ arcValue group < 10000000) ∧
          (oidText first (groups.map arcVal)).length + 5 < 0x100000000 := by
    obtain ⟨_, same⟩ := cut_length (groups.map arcVal)
    simp only [forall_mem_map, arcText_length_le_iff] at same
    rw [oidBytesNeeded_eq, oidText, length_append, ← same]
    omega
  constructor
  · intro fits first groups encoded
    have filled := encoded.decode.2 (oidBytesNeeded first (groups.map arcVal))
    rw [if_neg (lt_irrefl _)] at filled
    exact (counts first groups).mp (fits _ encoded.decode.1 _ _ _ filled)
  · intro condition _ sized _ _ _ filled
    cases length : getLen input cbEncoded with
    | error =>
      unfold decodeOidIgnoreTag at sized
      simp [length] at sized
    | ok dataLen =>
      by_cases empty : dataLen = 0
      · unfold decodeOidIgnoreTag at filled
        simp only [length, empty, if_true] at filled
        split at filled <;> cases filled
      obtain ⟨first, groups, encoded⟩ := exists_encodedOid length empty sized
      rw [encoded.decode.1] at sized
      rw [encoded.decode.2] at filled
      split at filled
      · cases filled
      cases sized
      cases filled
      exact (counts first groups).mpr (condition first groups encoded)

/-- The object identifier 1.2.10000000 is printed in one character more than was
counted. -/
theorem decodeOidIgnoreTag_overruns :
    ¬TextFits (Input.ofList [0x06, 0x05, 0x2a, 0x84, 0xe2, 0xad, 0x00]) 7 := by
  intro fits
  have written := fits 16 (by decide +kernel) 16 16 "1.2.10000000".toList (by decide +kernel)
  exact absurd written (by decide)

/-! ## Dotted text -/

/-- The numbers of an object identifier, as the source assumes them: an octet has room for
the first two, and an `int` for every other one. -/
structure ValidOid (first second : Nat) (arcs : List Nat) : Prop where
  first_le : first ≤ 2
  second_lt : first < 2 → second < 40
  octet : 40 * first + second < 0x100
  arcs_lt : ∀ arc ∈ arcs, arc < 0x80000000

/-- The further numbers in the text. -/
def dottedArcs (arcs : List Nat) : List Char :=
  arcs.flatMap fun arc => '.' :: decimal arc

/-- The text of an object identifier. -/
def dotted (first second : Nat) (arcs : List Nat) : List Char :=
  decimal first ++ '.' :: (decimal second ++ dottedArcs arcs)

theorem endsNumber_dottedArcs (arcs : List Nat) : EndsNumber (dottedArcs arcs) := by
  intro _ isHead
  cases arcs with
  | nil => cases isHead
  | cons =>
    cases isHead
    rfl

variable (small : ∀ arc ∈ arcs, arc < 0x80000000)

include small in
/-- The further numbers are scanned. -/
theorem scanArcs_dottedArcs : scanArcs (skipDot (dottedArcs arcs)) = some (arcs.map Int.ofNat) := by
  induction arcs with
  | nil =>
    rw [dottedArcs, flatMap_nil, skipDot, scanArcs]
    · rfl
    · nofun
  | cons arc arcs ih =>
    rw [forall_mem_cons] at small
    have rest : skipDot (dottedArcs (arc :: arcs)) = decimal arc ++ dottedArcs arcs := rfl
    have scanned := scanInt_decimal small.1 (endsNumber_dottedArcs arcs)
    have nonempty : decimal arc ++ dottedArcs arcs ≠ [] := by simp [decimal_ne_nil]
    rw [rest, scanArcs, if_neg nonempty]
    split
    next failed =>
      rw [scanned] at failed
      cases failed
    rename_i found
    rw [scanned] at found
    cases found
    rw [ih small.2]
    rfl

variable (valid : ValidOid first second arcs)

include valid in
theorem scanFirstTwo_dotted :
    scanFirstTwo (dotted first second arcs) =
      some ((first : Int), (second : Int), dottedArcs arcs) := by
  have octet := valid.octet
  have dot : EndsNumber ('.' :: (decimal second ++ dottedArcs arcs)) := by
    intro _ isHead
    cases isHead
    rfl
  rw [scanFirstTwo, dotted, scanInt_decimal (by omega) dot]
  simp only
  rw [scanInt_decimal (by omega) (endsNumber_dottedArcs arcs)]

/-! ## The octets of the numbers -/

theorem continuing_length (count : Nat) (val : Int) : (continuing count val).length = count := by
  induction count generalizing val with
  | zero => rfl
  | succ _ ih => rw [continuing, length_append, ih]; rfl

theorem continuing_spec {count number : Nat} (small : number < 0x80 ^ count) :
    (∀ byte ∈ continuing count number, 0x80 ≤ byte.toNat) ∧
      arcNumber (continuing count number) = number := by
  induction count generalizing number with
  | zero =>
    refine ⟨nofun, ?_⟩
    rw [continuing, arcNumber, foldl_nil]
    omega
  | succ count ih =>
    obtain ⟨high, value⟩ := ih (by omega : number / 0x80 < 0x80 ^ count)
    have digit : (UInt8.ofNat (((number : Int) % 0x80).toNat + 0x80)).toNat =
        number % 0x80 + 0x80 := by
      rw [toNat_ofNat (by omega)]
      omega
    have shifted : (number : Int) / 0x80 = (number / 0x80 : Nat) := rfl
    rw [continuing, arcNumber_concat, digit, shifted, value]
    refine ⟨?_, by omega⟩
    refine forall_mem_append.mpr ⟨high, forall_mem_singleton.mpr ?_⟩
    omega

/-- A number has as many digits in base 128 as the thresholds say. -/
theorem arcSize_bounds (small : arc < 0x80000000) :
    1 ≤ arcSize arc ∧ arc < 0x80 ^ arcSize arc ∧ 2 * arcSize arc ≤ (decimal arc).length + 1 := by
  have longer (places : Nat) (large : 10 ^ places ≤ arc) (positive : 0 < places) :
      places < (decimal arc).length := by
    by_contra short
    have := (Nat.length_toDigits_le_iff (by decide) positive).mp (Nat.not_lt.mp short)
    omega
  have one : 0 < (decimal arc).length := length_pos_iff.mpr (decimal_ne_nil arc)
  unfold arcSize
  split
  · have := longer 8 (by omega) (by decide)
    omega
  split
  · have := longer 6 (by omega) (by decide)
    omega
  split
  · have := longer 4 (by omega) (by decide)
    omega
  split
  · have := longer 2 (by omega) (by decide)
    omega
  · omega

theorem arcBytes_length (small : arc < 0x80000000) : (arcBytes arc).length = arcSize arc := by
  have := (arcSize_bounds small).1
  rw [arcBytes, length_append, continuing_length, length_singleton]
  omega

/-- The octets written for a number stand for it. -/
theorem arcBytes_spec (small : arc < 0x80000000) :
    ArcOctets (arcBytes arc) ∧ arcVal (arcBytes arc) = arc := by
  obtain ⟨positive, covers, -⟩ := arcSize_bounds small
  have shifted : (arc : Int) / 0x80 = (arc / 0x80 : Nat) := rfl
  have last : (UInt8.ofNat ((arc : Int) % 0x80).toNat).toNat = arc % 0x80 := by
    rw [toNat_ofNat (by omega)]
    omega
  have fewer : arc / 0x80 < 0x80 ^ (arcSize arc - 1) := by
    rw [← Nat.sub_add_cancel positive] at covers
    omega
  obtain ⟨high, value⟩ := continuing_spec fewer
  rw [arcBytes, shifted]
  refine ⟨.intro high (by omega), ?_⟩
  rw [arcVal, arcNumber_concat]
  omega

/-- The octets of the further numbers. -/
def arcGroups (arcs : List Nat) : List (List UInt8) :=
  arcs.map fun arc : Nat => arcBytes arc

include small in
theorem arcSizes_eq {start : Nat} (word : start < 0x100000000) :
    (arcs.map Int.ofNat).foldl (fun needed val => (needed + arcSize val) % 0x100000000) start =
      (start + (arcGroups arcs).flatten.length) % 0x100000000 := by
  induction arcs generalizing start with
  | nil => simp [arcGroups, Nat.mod_eq_of_lt word]
  | cons _ _ ih =>
    rw [forall_mem_cons] at small
    rw [map_cons, foldl_cons, ih small.2 (Nat.mod_lt _ (by decide)), Nat.mod_add_mod, arcGroups,
      arcGroups, map_cons, flatten_cons, length_append, arcBytes_length small.1, Nat.add_assoc]
    rfl

include small in
theorem arcBytes_length_le : 2 * (arcGroups arcs).flatten.length ≤ (dottedArcs arcs).length := by
  induction arcs with
  | nil => simp [arcGroups]
  | cons _ _ ih =>
    rw [forall_mem_cons] at small
    have := ih small.2
    have := (arcSize_bounds small.1).2.2
    simp [arcGroups, dottedArcs, arcBytes_length small.1] at *
    omega

/-- The encoding of an object identifier. -/
def derOid (content : List UInt8) : List UInt8 :=
  0x06 :: (encodeLen content.length ++ content)

theorem derOid_length (content : List UInt8) :
    (derOid content).length = content.length + (1 + encodeLenSize content.length) := by
  simp [derOid, encodeLen_length]
  omega

/-- The last part of the encoder, handed the size of the contents. -/
theorem encodeOidContent_eq {content : List UInt8} (word : (derOid content).length < 0x100000000) :
    encodeOidContent content.length content none = .ok ((derOid content).length, []) ∧
      ∀ space, (derOid content).length ≤ space →
        encodeOidContent content.length content (some space) =
          .ok ((derOid content).length, derOid content) := by
  have size := derOid_length content
  have needed : (content.length + (1 + encodeLenSize content.length)) % 0x100000000 =
      (derOid content).length := by
    rw [size] at word ⊢
    exact Nat.mod_eq_of_lt word
  have back : subWord (subWord (derOid content).length 1) (encodeLenSize content.length) =
      content.length := by
    rw [subWord_eq (by omega) word, subWord_eq]
    omega
  constructor
  · simp only [encodeOidContent, needed]
  · intro _ _
    simp only [encodeOidContent, needed, back]
    rw [if_neg (by omega)]
    rfl

/-- The contents of a valid object identifier. -/
def oidContent (first second : Nat) (arcs : List Nat) : List UInt8 :=
  UInt8.ofNat (40 * first + second) :: (arcGroups arcs).flatten

include valid in
/-- The encoding of a text in memory has a size below 2^32. -/
theorem derOid_lt (inMemory : (dotted first second arcs).length < 0x100000000) :
    (derOid (oidContent first second arcs)).length < 0x100000000 := by
  have sizes := arcBytes_length_le valid.arcs_lt
  have size := derOid_length (oidContent first second arcs)
  simp only [dotted, length_append, length_cons] at inMemory
  have length : (oidContent first second arcs).length = (arcGroups arcs).flatten.length + 1 := rfl
  have octets := encodeLenSize_le_five (by omega :
    (oidContent first second arcs).length < 0x100000000)
  omega

include valid in
/-- The encoder on the text of a valid object identifier. -/
theorem encodeOid_dotted (inMemory : (dotted first second arcs).length < 0x100000000)
    (space : Option Nat) :
    encodeOid (some (dotted first second arcs)) space =
      encodeOidContent (oidContent first second arcs).length (oidContent first second arcs)
        space := by
  have word := derOid_lt valid inMemory
  have size := derOid_length (oidContent first second arcs)
  have octet := valid.octet
  have byte : ((first : Int) * 40 + second) % 0x100 = (40 * first + second : Nat) := by omega
  have length : (oidContent first second arcs).length = 1 + (arcGroups arcs).flatten.length := by
    rw [oidContent, length_cons, Nat.add_comm]
  simp only [encodeOid, scanFirstTwo_dotted valid, scanArcs_dottedArcs valid.arcs_lt,
    arcSizes_eq valid.arcs_lt (by decide : 1 < 0x100000000), byte]
  rw [← length, Nat.mod_eq_of_lt (by omega), flatMap_def, map_map]
  rfl

/-! ## Round trips -/

include valid in
/-- The encoding is read as the octets of the numbers. -/
theorem encodedOid_of_holds (holds : input.Holds (derOid (oidContent first second arcs)))
    (word : (derOid (oidContent first second arcs)).length < 0x100000000) :
    EncodedOid input (derOid (oidContent first second arcs)).length
      (UInt8.ofNat (40 * first + second)) (arcGroups arcs) := by
  have size := derOid_length (oidContent first second arcs)
  rw [derOid, ← cons_append] at holds
  obtain ⟨header, content⟩ := holds.append
  obtain ⟨read, octets⟩ := getLen_encodeLen header word (by omega)
  refine ⟨?_, ?_, ?_⟩
  · intro _ isGroup
    obtain ⟨arc, isArc, rfl⟩ := mem_map.mp isGroup
    exact (arcBytes_spec (valid.arcs_lt arc isArc)).1
  · rw [read, oidContent, length_cons]
  · rw [length_cons, encodeLen_length, Nat.add_comm] at content
    rwa [octets]

include small in
theorem flatMap_arcText : ((arcGroups arcs).map arcVal).flatMap arcText = dottedArcs arcs := by
  have values : (arcGroups arcs).map arcVal = arcs := by
    rw [arcGroups, map_map]
    refine (map_congr_left fun arc isArc => ?_).trans (map_id arcs)
    exact (arcBytes_spec (small arc isArc)).2
  rw [values]
  refine flatMap_congr fun arc isArc => ?_
  have := small arc isArc
  have same : (arc : Int).bmod 0x100000000 = arc := by rw [Int.bmod_eq_of_le] <;> omega
  rw [arcText, same]
  rfl

include valid in
/-- The first octet is printed as the numbers it was made of, unless the second of them
is 40 or more. -/
theorem firstTwo_eq_iff (rest : List Char) :
    firstTwo (UInt8.ofNat (40 * first + second)) ++ rest =
        decimal first ++ '.' :: (decimal second ++ rest) ↔
      ¬(first = 2 ∧ 40 ≤ second) := by
  have bounds := valid.first_le
  have small := valid.second_lt
  rw [firstTwo, toNat_ofNat valid.octet]
  by_cases large : first = 2 ∧ 40 ≤ second
  · refine iff_of_false ?_ (fun not => not large)
    have octet := valid.octet
    have one {number : Nat} (digit : number < 10) :
        decimal number = [Nat.digitChar number] := Nat.toDigits_of_lt_base digit
    rw [one (by omega), one (by omega : first < 10), large.1]
    intro same
    have heads := head_eq_of_cons_eq same
    have : (40 * 2 + second) / 40 = 3 ∨ (40 * 2 + second) / 40 = 4 ∨
        (40 * 2 + second) / 40 = 5 ∨ (40 * 2 + second) / 40 = 6 := by omega
    rcases this with value | value | value | value <;>
      (rw [value] at heads; exact absurd heads (by decide))
  · refine iff_of_true ?_ large
    have quotient : (40 * first + second) / 40 = first := by omega
    have remainder : 40 * first + second - first * 40 = second := by omega
    rw [quotient, remainder, append_assoc, cons_append]

/-- The text is encoded, and decoding its encoding returns the text, in a structure that
has room for it. -/
def TextRoundTrips (text : List Char) : Prop :=
  ∃ size written, encodeOid (some text) none = .ok (size, []) ∧
    (∀ space, size ≤ space → encodeOid (some text) (some space) = .ok (size, written)) ∧
    ∀ input : Input, input.Holds written →
      ∃ needed, decodeOidInternal input size none = .ok (needed, none) ∧
        ∀ space, needed ≤ space → text.length + 5 ≤ space →
          decodeOidInternal input size (some space) = .ok (needed, some text)

/-- The text of a valid object identifier is kept exactly if its first number is not 2 or
its second is below 40.  A string in memory has fewer than 2^32 characters. -/
theorem textRoundTrips_iff {first second : Nat} {arcs : List Nat}
    (valid : ValidOid first second arcs)
    (inMemory : (dotted first second arcs).length < 0x100000000) :
    TextRoundTrips (dotted first second arcs) ↔ ¬(first = 2 ∧ 40 ≤ second) := by
  have word := derOid_lt valid inMemory
  obtain ⟨sized, filled⟩ := encodeOidContent_eq word
  rw [← encodeOid_dotted valid inMemory] at sized
  simp only [← encodeOid_dotted valid inMemory] at filled
  have decodes (input : Input)
      (holds : input.Holds (derOid (oidContent first second arcs))) (space : Option Nat) :
      decodeOidInternal input (derOid (oidContent first second arcs)).length space =
        decodeOidIgnoreTag input (derOid (oidContent first second arcs)).length space :=
    if_pos (holds 0 _ rfl)
  have text : oidText (UInt8.ofNat (40 * first + second)) ((arcGroups arcs).map arcVal) =
      firstTwo (UInt8.ofNat (40 * first + second)) ++ dottedArcs arcs := by
    rw [oidText, flatMap_arcText valid.arcs_lt]
  rw [← firstTwo_eq_iff valid (dottedArcs arcs)]
  constructor
  · rintro ⟨_, _, sized', filled', decoded⟩
    cases sized.symm.trans sized'
    cases (filled _ le_rfl).symm.trans (filled' _ le_rfl)
    have holds := Input.holds_ofList (derOid (oidContent first second arcs))
    have encoded := encodedOid_of_holds valid holds word
    obtain ⟨needed, -, fills⟩ := decoded _ holds
    have fill := fills (max needed ((dotted first second arcs).length + 5))
      (le_max_left _ _) (le_max_right _ _)
    rw [decodes _ holds, encoded.decode.2] at fill
    split at fill
    · cases fill
    rw [text] at fill
    exact Option.some.inj (Prod.ext_iff.mp (Except.ok.inj fill)).2
  · intro same
    refine ⟨_, _, sized, filled, fun input holds => ?_⟩
    have encoded := encodedOid_of_holds valid holds word
    refine ⟨_, (decodes input holds none).trans encoded.decode.1, fun space enough _ => ?_⟩
    rw [decodes input holds, encoded.decode.2, if_neg (by omega), text, same]
    rfl

/-- The object identifier of RSA. -/
theorem textRoundTrips_rsa : TextRoundTrips (dotted 1 2 [840, 113549, 1, 1, 1]) :=
  (textRoundTrips_iff ⟨by decide, by decide, by decide, by decide⟩ (by decide)).mpr (by decide)

/-- The text 2.100 comes back as 4.20. -/
theorem textRoundTrips_joint : ¬TextRoundTrips (dotted 2 100 []) := by
  rintro ⟨_, _, sized, filled, decoded⟩
  have sizedHere : encodeOid (some (dotted 2 100 [])) none = .ok (3, []) := by decide +kernel
  have filledHere : encodeOid (some (dotted 2 100 [])) (some 3) = .ok (3, [0x06, 0x01, 0xb4]) := by
    decide +kernel
  cases sizedHere.symm.trans sized
  cases filledHere.symm.trans (filled 3 le_rfl)
  obtain ⟨_, sizes, fills⟩ := decoded _ (Input.holds_ofList _)
  have neededHere : decodeOidInternal (Input.ofList [0x06, 0x01, 0xb4]) 3 none = .ok (9, none) := by
    decide +kernel
  have textHere : decodeOidInternal (Input.ofList [0x06, 0x01, 0xb4]) 3 (some 10) =
      .ok (9, some "4.20".toList) := by decide +kernel
  cases neededHere.symm.trans sizes
  exact absurd (textHere.symm.trans (fills 10 (by decide) (by decide))) (by decide)

end Winex.Asn
