import Mathlib.Data.List.Basic
import Mathlib.Tactic.IntervalCases

namespace Winex.Base64

open List

/-!
# Base64 texts

`CryptBinaryToStringA` writes base64 text in lines of 64 characters, for some formats
between a header line and a trailer line, whose place it computes before it writes.

A result `none` stands for something undefined: an `int` out of range, or a write
outside the buffer.
-/

/-- The bytes of a string literal, without the terminator. -/
def ascii (literal : String) : List UInt8 :=
  literal.toList.map fun char => UInt8.ofNat char.toNat

def certHeader : List UInt8 := ascii "-----BEGIN CERTIFICATE-----"

def certTrailer : List UInt8 := ascii "-----END CERTIFICATE-----"

def certRequestHeader : List UInt8 := ascii "-----BEGIN NEW CERTIFICATE REQUEST-----"

def certRequestTrailer : List UInt8 := ascii "-----END NEW CERTIFICATE REQUEST-----"

def x509Header : List UInt8 := ascii "-----BEGIN X509 CRL-----"

def x509Trailer : List UInt8 := ascii "-----END X509 CRL-----"

def b64 : List UInt8 :=
  ascii "ABCDEFGHIJKLMNOPQRSTUVWXYZabcdefghijklmnopqrstuvwxyz0123456789+/"

/-- The character for six bits. -/
def b64Char (bits : UInt8) : UInt8 :=
  b64.getD bits.toNat 0

/-- Bytes written into a buffer. -/
def writeAt (buffer : List UInt8) (position : Nat) (bytes : List UInt8) : Option (List UInt8) :=
  if position + bytes.length ≤ buffer.length then
    some (buffer.take position ++ bytes ++ buffer.drop (position + bytes.length))
  else none

/-- `strcpy`, which writes the terminator too. -/
def strcpy (buffer : List UInt8) (position : Nat) (text : List UInt8) : Option (List UInt8) :=
  writeAt buffer position (text ++ [0])

/-- `strlen` -/
def strlen (text : List UInt8) : Nat :=
  (text.takeWhile (· != 0)).length

/-- `strstr`: where the pattern, which has no terminator inside, is found first. -/
def strstr (text pattern : List UInt8) : Option Nat :=
  if pattern.isPrefixOf text then some 0
  else
    match text with
    | [] => none
    | char :: rest => if char = 0 then none else (strstr rest pattern).map (· + 1)

/-- The size that `encodeBase64A` asks for. -/
def needed (inLen sepLen : Nat) : Option Nat :=
  -- in_len * 8 is an int
  if 0x80000000 ≤ inLen * 8 then none
  else
    let bytes := (inLen * 8 + 5) / 6
    let padBytes := if bytes % 4 ≠ 0 then 4 - bytes % 4 else 0
    let needed := bytes + padBytes + 1
    some (needed + (needed / 64 + 1) * sepLen)

/-- The four characters for three bytes. -/
def fullGroup (d0 d1 d2 : UInt8) : List UInt8 :=
  [b64Char ((d0 >>> 2) &&& 0x3f),
    b64Char (((d0 <<< 4) &&& (0x30 : UInt8)) ||| ((d1 >>> 4) &&& (0x0f : UInt8))),
    b64Char (((d1 <<< 2) &&& (0x3c : UInt8)) ||| ((d2 >>> 6) &&& (0x03 : UInt8))),
    b64Char (d2 &&& 0x3f)]

/-- The loop of `encodeBase64A`: what is written for the groups of three bytes. -/
def fullGroups (sep : List UInt8) : Nat → Nat → List UInt8 → List UInt8
  | div + 1, i, d0 :: d1 :: d2 :: d =>
    (if i ≠ 0 ∧ i % 64 = 0 then sep else []) ++ fullGroup d0 d1 d2 ++ fullGroups sep div (i + 4) d
  | _, _, _ => []

/-- What is written for the bytes that are left. -/
def paddedGroup (padBytes : Nat) (d : List UInt8) : List UInt8 :=
  match padBytes, d with
  | 1, d0 :: d1 :: _ =>
    [b64Char ((d0 >>> 2) &&& 0x3f),
      b64Char (((d0 <<< 4) &&& (0x30 : UInt8)) ||| ((d1 >>> 4) &&& (0x0f : UInt8))),
      b64Char ((d1 <<< 2) &&& 0x3c),
      0x3d]
  | 2, d0 :: _ =>
    [b64Char ((d0 >>> 2) &&& 0x3f), b64Char ((d0 <<< 4) &&& 0x30), 0x3d, 0x3d]
  | _, _ => []

/-- The text that `encodeBase64A` writes before the last separator. -/
def base64Text (sep inBuf : List UInt8) : List UInt8 :=
  let bytes := (inBuf.length * 8 + 5) / 6
  let padBytes := if bytes % 4 ≠ 0 then 4 - bytes % 4 else 0
  let div := inBuf.length / 3
  fullGroups sep div 0 inBuf ++ paddedGroup padBytes (inBuf.drop (3 * div))

/-- What `encodeBase64A` returns: whether the buffer was large enough, `*out_len`, and the
buffer. -/
structure Encoded where
  success : Bool
  outLen : Nat
  outBuf : List UInt8

/-- `encodeBase64A`, writing at a position of the buffer. -/
def encodeBase64A (inBuf sep outBuf : List UInt8) (position outLen : Nat) : Option Encoded :=
  match needed inBuf.length sep.length with
  | none => none
  | some needed =>
    if outLen < needed then some ⟨false, needed, outBuf⟩
    else
      (writeAt outBuf position (base64Text sep inBuf ++ sep ++ [0])).map
        fun outBuf => ⟨true, needed, outBuf⟩

/-- The values of `GetLastError` that the functions set. -/
inductive Failure where
  | insufficientBuffer
  | invalidParameter
  | invalidData
  deriving DecidableEq

/-- What `CryptBinaryToStringA` returns, with `*pcchString` and the buffer. -/
structure StringResult where
  ret : Except Failure Unit
  pcchString : Nat
  pszString : Option (List UInt8)

/-- The line separator for the flags `CRYPT_STRING_NOCR` and `CRYPT_STRING_NOCRLF`. -/
def separator (dwFlags : UInt32) : List UInt8 :=
  if dwFlags &&& 0x80000000 ≠ 0 then [0x0a]
  else if dwFlags &&& 0x40000000 ≠ 0 then []
  else [0x0d, 0x0a]

/-- The format that the flags name. -/
def formatOf (dwFlags : UInt32) : UInt32 :=
  dwFlags &&& 0x0fffffff

/-- The header and the trailer of a format. -/
def headerAndTrailer (format : UInt32) : Option (List UInt8 × List UInt8) :=
  if format = 0 then some (certHeader, certTrailer)
  else if format = 3 then some (certRequestHeader, certRequestTrailer)
  else if format = 9 then some (x509Header, x509Trailer)
  else none

/-- A line and a separator copied into a buffer. -/
def writeLine (buffer : List UInt8) (position : Nat) (line sep : List UInt8) :
    Option (List UInt8) := do
  let buffer ← strcpy buffer position line
  strcpy buffer (position + line.length) sep

/-- How `BinaryToBase64A` writes the trailer: the buffer and `charsNeeded` after it. -/
def writeTrailer (buffer trailer sep : List UInt8) (ptr charsNeeded : Nat) :
    Option (List UInt8 × Nat) :=
  -- an extra terminator in front of the place for the trailer is removed
  if buffer.getD (ptr - 1) 0 = 0 then
    (writeLine buffer (ptr - 1) trailer sep).map fun buffer => (buffer, charsNeeded - 1)
  else (writeLine buffer ptr trailer sep).map fun buffer => (buffer, charsNeeded)

/-- The part of `BinaryToBase64A` that writes: the buffer and `charsNeeded` after it. -/
def writeText (pbBinary sep buffer : List UInt8) (charsNeeded : Nat) :
    Option (List UInt8 × List UInt8) → Option (List UInt8 × Nat)
  | none => do
      let encoded ← encodeBase64A pbBinary sep buffer 0 charsNeeded
      return (encoded.outBuf, charsNeeded)
  | some (header, trailer) => do
      let buffer ← writeLine buffer 0 header sep
      let ptr := header.length + sep.length
      let encoded ← encodeBase64A pbBinary sep buffer ptr charsNeeded
      writeTrailer encoded.outBuf trailer sep (ptr + encoded.outLen - 1) charsNeeded

/-- The size of the text with the lines of the header and the trailer. -/
def charsNeeded (needed : Nat) (sep : List UInt8) : Option (List UInt8 × List UInt8) → Nat
  | none => needed
  | some (header, trailer) => needed + (header.length + sep.length) + (trailer.length + sep.length)

/-- `BinaryToBase64A` -/
def binaryToBase64A (pbBinary : List UInt8) (dwFlags : UInt32) (pszString : Option (List UInt8))
    (pcchString : Nat) : Option StringResult :=
  let sep := separator dwFlags
  let frame := headerAndTrailer (formatOf dwFlags)
  match needed pbBinary.length sep.length with
  | none => none
  | some needed =>
    let charsNeeded := charsNeeded needed sep frame
    if charsNeeded ≤ pcchString then
      match pszString with
      -- written through a null pointer
      | none => none
      | some buffer =>
        (writeText pbBinary sep buffer charsNeeded frame).map
          fun (buffer, charsNeeded) => ⟨.ok (), charsNeeded - 1, some buffer⟩
    else if pszString.isSome then some ⟨.error .insufficientBuffer, charsNeeded, pszString⟩
    else some ⟨.ok (), charsNeeded, pszString⟩

/-- `EncodeBinaryToBinaryA` -/
def encodeBinaryToBinaryA (pbBinary : List UInt8) (pszString : Option (List UInt8))
    (pcchString : Nat) : Option StringResult :=
  if pcchString < pbBinary.length then
    if pszString.isSome then
      some ⟨.error .insufficientBuffer, pbBinary.length, pszString⟩
    else some ⟨.ok (), pbBinary.length, pszString⟩
  else if pbBinary = [] then some ⟨.ok (), 0, pszString⟩
  else
    match pszString with
    | none => none
    | some buffer =>
      (writeAt buffer 0 pbBinary).map fun buffer => ⟨.ok (), pbBinary.length, some buffer⟩

/-- `CryptBinaryToStringA` -/
def cryptBinaryToStringA (pbBinary : List UInt8) (dwFlags : UInt32)
    (pszString : Option (List UInt8)) (pcchString : Nat) : Option StringResult :=
  let format := formatOf dwFlags
  if format = 2 then encodeBinaryToBinaryA pbBinary pszString pcchString
  else if format = 1 ∨ format = 0 ∨ format = 3 ∨ format = 9 then
    binaryToBase64A pbBinary dwFlags pszString pcchString
  else some ⟨.error .invalidParameter, pcchString, pszString⟩

/-- `decodeBase64Byte` -/
def decodeBase64Byte (c : UInt8) : UInt8 :=
  if 0x41 ≤ c ∧ c ≤ 0x5a then c - 0x41
  else if 0x61 ≤ c ∧ c ≤ 0x7a then c - 0x61 + 26
  else if 0x30 ≤ c ∧ c ≤ 0x39 then c - 0x30 + 52
  else if c = 0x2b then 62
  else if c = 0x2f then 63
  else 64

/-- The bytes that four characters stand for. -/
def decodeGroup (d0 d1 d2 d3 : UInt8) : Option (List UInt8) :=
  let ip0 := decodeBase64Byte d0
  let ip1 := decodeBase64Byte d1
  let ip2 := decodeBase64Byte d2
  let ip3 := decodeBase64Byte d3
  if d2 = 0x3d then
    if 63 < ip0 ∨ 63 < ip1 then none
    else some [(ip0 <<< 2) ||| (ip1 >>> 4)]
  else if d3 = 0x3d then
    if 63 < ip0 ∨ 63 < ip1 ∨ 63 < ip2 then none
    else some [(ip0 <<< 2) ||| (ip1 >>> 4), (ip1 <<< 4) ||| (ip2 >>> 2)]
  else
    if 63 < ip0 ∨ 63 < ip1 ∨ 63 < ip2 ∨ 63 < ip3 then none
    else
      some [(ip0 <<< 2) ||| (ip1 >>> 4), (ip1 <<< 4) ||| (ip2 >>> 2), (ip2 <<< 6) ||| ip3]

/-- How many characters further the next block begins, if there is one. -/
def nextBlock (d : List UInt8) (len : Nat) : Option Nat :=
  if 6 ≤ len ∧ d.getD 4 0 = 0x0d ∧ d.getD 5 0 = 0x0a then some 6
  else if 5 ≤ len ∧ d.getD 4 0 = 0x0a then some 5
  else if 4 ≤ len ∧ d.getD 4 0 ≠ 0 then some 4
  else none

/-- `decodeBase64Block`: the bytes and where the next block begins.  The length is an
`int`. -/
def decodeBase64Block (d : List UInt8) (len : Nat) : Option (List UInt8 × Option Nat) :=
  if len < 4 ∨ 0x80000000 ≤ len then none
  else
    (decodeGroup (d.getD 0 0) (d.getD 1 0) (d.getD 2 0) (d.getD 3 0)).map
      fun bytes => (bytes, nextBlock d len)

variable {d : List UInt8} (sep : List UInt8)
variable {len : Nat} {bits c0 c1 c2 c3 : UInt8} {bytes : List UInt8}

theorem nextBlock_le {offset : Nat} (isNext : nextBlock d len = some offset) :
    4 ≤ offset ∧ offset ≤ len := by
  unfold nextBlock at isNext
  split_ifs at isNext <;> cases isNext <;> omega

theorem offset_le {offset : Nat} (block : decodeBase64Block d len = some (bytes, some offset)) :
    4 ≤ offset ∧ offset ≤ len := by
  unfold decodeBase64Block at block
  split at block
  · cases block
  obtain ⟨_, -, isNext⟩ := Option.map_eq_some_iff.mp block
  exact nextBlock_le (congrArg Prod.snd isNext)

/-- The loop of `Base64ToBinaryA`. -/
def base64Blocks (d : List UInt8) (len : Nat) : Option (List UInt8) :=
  match _block : decodeBase64Block d len with
  | none => none
  | some (bytes, none) => some bytes
  | some (bytes, some offset) =>
    if len - offset = 0 then some bytes
    else (base64Blocks (d.drop offset) (len - offset)).map (bytes ++ ·)
termination_by len
decreasing_by
  have := offset_le _block
  omega

variable (pszString : List UInt8) (cchString : Nat)

/-- `Base64ToBinaryA` -/
def base64ToBinaryA : Except Failure (List UInt8) :=
  match base64Blocks pszString cchString with
  | none => .error .invalidData
  | some bytes => .ok bytes

/-- A difference in 32 bits. -/
def dwordSub (first second : Nat) : Nat :=
  (first + 4294967296 - second) % 4294967296

/-- `Base64WithHeaderAndTrailerToBinaryA` -/
def base64WithHeaderAndTrailerToBinaryA (header trailer : List UInt8)
    : Except Failure (List UInt8) :=
  if header.length + trailer.length < cchString then
    match strstr pszString header with
    | none => .error .invalidData
    | some ptr =>
      let cchString := if pszString.getD (cchString - 1) 0 = 0x0a then cchString - 1 else cchString
      let cchString := if pszString.getD (cchString - 1) 0 = 0x0d then cchString - 1 else cchString
      let trailerSpot := cchString - trailer.length
      if trailer.isPrefixOf (pszString.drop trailerSpot) then
        let ptr := ptr + header.length
        let ptr := if pszString.getD ptr 0 = 0x0d then ptr + 1 else ptr
        let ptr := if pszString.getD ptr 0 = 0x0a then ptr + 1 else ptr
        base64ToBinaryA (pszString.drop ptr) (dwordSub cchString (ptr + trailer.length))
      else .error .invalidData
  else .error .invalidData

def base64HeaderToBinaryA : Except Failure (List UInt8) :=
  base64WithHeaderAndTrailerToBinaryA pszString cchString certHeader certTrailer

def base64RequestHeaderToBinaryA : Except Failure (List UInt8) :=
  base64WithHeaderAndTrailerToBinaryA pszString cchString certRequestHeader certRequestTrailer

def base64X509HeaderToBinaryA : Except Failure (List UInt8) :=
  base64WithHeaderAndTrailerToBinaryA pszString cchString x509Header x509Trailer

/-- `DecodeBinaryToBinaryA` -/
def decodeBinaryToBinaryA : Except Failure (List UInt8) :=
  .ok (pszString.take cchString)

/-- The next decoder if the first finds invalid data. -/
def orElseInvalid (first second : Except Failure (List UInt8)) : Except Failure (List UInt8) :=
  match first with
  | .error .invalidData => second
  | result => result

/-- `Base64AnyToBinaryA` -/
def base64AnyToBinaryA : Except Failure (List UInt8) :=
  orElseInvalid (base64HeaderToBinaryA pszString cchString) (base64ToBinaryA pszString cchString)

/-- `DecodeAnyA` -/
def decodeAnyA : Except Failure (List UInt8) :=
  orElseInvalid (base64AnyToBinaryA pszString cchString) (decodeBinaryToBinaryA pszString cchString)

/-- `CryptStringToBinaryA` into a buffer that is large enough, with `pdwSkip` and
`pdwFlags` null. -/
def cryptStringToBinaryA (dwFlags : UInt32) : Except Failure (List UInt8) :=
  let length := if cchString = 0 then strlen pszString else cchString
  -- only the bottom byte contains valid types
  if dwFlags &&& 0xfffffff0 ≠ 0 then .error .invalidData
  else if dwFlags = 6 then base64AnyToBinaryA pszString length
  else if dwFlags = 1 then base64ToBinaryA pszString length
  else if dwFlags = 0 then base64HeaderToBinaryA pszString length
  else if dwFlags = 3 then base64RequestHeaderToBinaryA pszString length
  else if dwFlags = 9 then base64X509HeaderToBinaryA pszString length
  else if dwFlags = 2 then decodeBinaryToBinaryA pszString length
  else if dwFlags = 7 then decodeAnyA pszString length
  else .error .invalidParameter

/-- The lengths for which room is asked for one separator too many: a line is full, or its
last group stands behind a full line. -/
def Overestimated (length : Nat) : Prop :=
  length % 48 = 0 ∨ 46 ≤ length % 48 ∨ (48 < length ∧ length % 48 ≤ 2)

instance (length : Nat) : Decidable (Overestimated length) :=
  inferInstanceAs (Decidable (_ ∨ _ ∨ _))

variable (d0 d1 d2 : UInt8)

/-- The bits of three bytes, distributed over four characters and put together again. -/
theorem regrouped :
    ((d0 >>> 2) &&& (0x3f : UInt8)) <<< 2 |||
        (((d0 <<< 4) &&& (0x30 : UInt8)) ||| ((d1 >>> 4) &&& (0x0f : UInt8))) >>> 4 = d0 ∧
      (((d0 <<< 4) &&& (0x30 : UInt8)) ||| ((d1 >>> 4) &&& (0x0f : UInt8))) <<< 4 |||
        (((d1 <<< 2) &&& (0x3c : UInt8)) ||| ((d2 >>> 6) &&& (0x03 : UInt8))) >>> 2 = d1 ∧
      (((d1 <<< 2) &&& (0x3c : UInt8)) ||| ((d2 >>> 6) &&& (0x03 : UInt8))) <<< 6 |||
        (d2 &&& (0x3f : UInt8)) = d2 := by
  refine ⟨?_, ?_, ?_⟩ <;>
  · apply UInt8.eq_of_toBitVec_eq
    apply BitVec.eq_of_getLsbD_eq
    intro i _
    interval_cases i <;> simp

/-- A character that neither ends a text nor a line. -/
def Printing (char : UInt8) : Prop :=
  char ≠ 0 ∧ char ≠ 0x0a ∧ char ≠ 0x0d

/-- The character of six bits is read back, and is not one with a meaning of its own. -/
theorem decodeBase64Byte_b64Char (six : bits < 64) :
    decodeBase64Byte (b64Char bits) = bits ∧ b64Char bits ≠ 0x3d ∧ Printing (b64Char bits) := by
  have table : ∀ number < 64, decodeBase64Byte (b64Char (UInt8.ofNat number)) = UInt8.ofNat number ∧
      b64Char (UInt8.ofNat number) ≠ 0x3d ∧ b64Char (UInt8.ofNat number) ≠ 0 ∧
      b64Char (UInt8.ofNat number) ≠ 0x0a ∧ b64Char (UInt8.ofNat number) ≠ 0x0d := by decide +kernel
  have entry := table bits.toNat six
  rwa [UInt8.ofNat_toNat] at entry

theorem and_lt (bits mask : UInt8) (small : mask < 64 := by decide) : bits &&& mask < 64 :=
  Nat.lt_of_le_of_lt Nat.and_le_right small

theorem or_lt {first second : UInt8} (firstSix : first < 64) (secondSix : second < 64) :
    first ||| second < 64 :=
  Nat.or_lt_two_pow (show first.toNat < 2 ^ 6 from firstSix) secondSix

theorem printing_b64Char (six : bits < 64) : Printing (b64Char bits) :=
  (decodeBase64Byte_b64Char six).2.2

theorem fullGroup_printing : ∀ char ∈ fullGroup d0 d1 d2, Printing char := by
  intro _ mem
  simp only [fullGroup, mem_cons, not_mem_nil, or_false] at mem
  obtain rfl | rfl | rfl | rfl := mem
  · exact printing_b64Char (and_lt _ _)
  · exact printing_b64Char (or_lt (and_lt _ _) (and_lt _ _))
  · exact printing_b64Char (or_lt (and_lt _ _) (and_lt _ _))
  · exact printing_b64Char (and_lt _ _)

theorem readSix (six : bits < 64) :
    decodeBase64Byte (b64Char bits) = bits ∧ b64Char bits ≠ 0x3d ∧ ¬63 < bits := by
  obtain ⟨read, notPad, -⟩ := decodeBase64Byte_b64Char six
  simp only [UInt8.lt_iff_toNat_lt, UInt8.reduceToNat] at six
  exact ⟨read, notPad, by simp only [UInt8.lt_iff_toNat_lt, UInt8.reduceToNat]; omega⟩

/-- Three bytes are read back. -/
theorem decodeGroup_full :
    ∃ c0 c1 c2 c3, fullGroup d0 d1 d2 = [c0, c1, c2, c3] ∧
      decodeGroup c0 c1 c2 c3 = some [d0, d1, d2] := by
  refine ⟨_, _, _, _, rfl, ?_⟩
  have six0 := readSix (and_lt (d0 >>> 2) 0x3f)
  have six1 := readSix (or_lt (and_lt (d0 <<< 4) 0x30) (and_lt (d1 >>> 4) 0x0f))
  have six2 := readSix (or_lt (and_lt (d1 <<< 2) 0x3c) (and_lt (d2 >>> 6) 0x03))
  have six3 := readSix (and_lt d2 0x3f)
  obtain ⟨first, second, third⟩ := regrouped d0 d1 d2
  simp only [decodeGroup, six0, six1, six2, six3, if_false, or_self, first, second, third]

/-- Two bytes are read back. -/
theorem decodeGroup_two (d0 d1 : UInt8) :
    ∃ c0 c1 c2 c3, paddedGroup 1 [d0, d1] = [c0, c1, c2, c3] ∧
      decodeGroup c0 c1 c2 c3 = some [d0, d1] := by
  refine ⟨_, _, _, _, rfl, ?_⟩
  have six0 := readSix (and_lt (d0 >>> 2) 0x3f)
  have six1 := readSix (or_lt (and_lt (d0 <<< 4) 0x30) (and_lt (d1 >>> 4) 0x0f))
  have six2 := readSix (and_lt (d1 <<< 2) 0x3c)
  obtain ⟨first, second, -⟩ := regrouped d0 d1 0
  rw [show (0 : UInt8) >>> 6 &&& 0x03 = 0 from rfl, UInt8.or_zero] at second
  simp only [decodeGroup, six0, six1, six2, if_false, if_true, or_self, first, second]

/-- One byte is read back. -/
theorem decodeGroup_one (d0 : UInt8) :
    ∃ c0 c1 c2 c3, paddedGroup 2 [d0] = [c0, c1, c2, c3] ∧ decodeGroup c0 c1 c2 c3 = some [d0] := by
  refine ⟨_, _, _, _, rfl, ?_⟩
  have six0 := readSix (and_lt (d0 >>> 2) 0x3f)
  have six1 := readSix (and_lt (d0 <<< 4) 0x30)
  have first := (regrouped d0 0 0).1
  rw [show (0 : UInt8) >>> 4 &&& 0x0f = 0 from rfl, UInt8.or_zero] at first
  simp only [decodeGroup, six0, six1, if_false, if_true, or_self, first]

/-- The separator that stands before the groups of some bytes. -/
def leading (sep : List UInt8) (i : Nat) (d : List UInt8) : List UInt8 :=
  if i ≠ 0 ∧ i % 64 = 0 ∧ 3 ≤ d.length then sep else []

/-- The groups of some bytes, with the separators between them. -/
def groups (sep : List UInt8) : Nat → List UInt8 → List UInt8
  | i, d0 :: d1 :: d2 :: d => fullGroup d0 d1 d2 ++ (leading sep (i + 4) d ++ groups sep (i + 4) d)
  | _, [d0, d1] => paddedGroup 1 [d0, d1]
  | _, [d0] => paddedGroup 2 [d0]
  | _, [] => []

theorem fullGroups_append (i : Nat) (d : List UInt8) :
    let bytes := (d.length * 8 + 5) / 6
    fullGroups sep (d.length / 3) i d ++
        paddedGroup (if bytes % 4 ≠ 0 then 4 - bytes % 4 else 0) (d.drop (3 * (d.length / 3))) =
      leading sep i d ++ groups sep i d := by
  induction i, d using groups.induct with
  | case1 i d0 d1 d2 d ih =>
    have div : (d0 :: d1 :: d2 :: d).length / 3 = d.length / 3 + 1 := by
      simp only [length_cons]
      omega
    have bytes : ((d0 :: d1 :: d2 :: d).length * 8 + 5) / 6 = (d.length * 8 + 5) / 6 + 4 := by
      simp only [length_cons]
      omega
    have rest : (d0 :: d1 :: d2 :: d).drop (3 * (d.length / 3 + 1)) =
        d.drop (3 * (d.length / 3)) := by rfl
    have first : leading sep i (d0 :: d1 :: d2 :: d) = if i ≠ 0 ∧ i % 64 = 0 then sep else [] := by
      simp [leading]
    dsimp only at ih ⊢
    rw [div, bytes, rest, fullGroups, first, groups, ← ih]
    simp
  | case2 | case3 => simp [leading, groups, fullGroups]
  | case4 => simp [leading, groups, fullGroups, paddedGroup]

theorem base64Text_eq (sep inBuf : List UInt8) : base64Text sep inBuf = groups sep 0 inBuf :=
  fullGroups_append sep 0 inBuf

/-- The length of the text, with the separators that are written. -/
theorem length_groups (j : Nat) (d : List UInt8) :
    (leading sep (4 * j) d ++ groups sep (4 * j) d).length =
      4 * ((d.length + 2) / 3) + ((j + d.length / 3 - 1) / 16 - (j - 1) / 16) * sep.length := by
  generalize isFour : 4 * j = i
  induction i, d using groups.induct generalizing j with
  | case1 i d0 d1 d2 d ih =>
    have next := ih (j + 1) (by omega)
    have first : (leading sep i (d0 :: d1 :: d2 :: d)).length =
        (j / 16 - (j - 1) / 16) * sep.length := by
      by_cases written : i ≠ 0 ∧ i % 64 = 0
      · rw [leading, if_pos ⟨written.1, written.2, by simp⟩,
          show j / 16 - (j - 1) / 16 = 1 by omega, Nat.one_mul]
      · rw [leading, if_neg fun all => written ⟨all.1, all.2.1⟩,
          show j / 16 - (j - 1) / 16 = 0 by omega, Nat.zero_mul]
        rfl
    have separators : (j + (d.length + 3) / 3 - 1) / 16 - (j - 1) / 16 =
        (j / 16 - (j - 1) / 16) + ((j + 1 + d.length / 3 - 1) / 16 - (j + 1 - 1) / 16) := by omega
    have full : (fullGroup d0 d1 d2).length = 4 := rfl
    rw [groups, length_append, length_append]
    simp only [length_cons]
    rw [separators, Nat.add_mul]
    omega
  | case2 i d0 d1 | case3 i d0 =>
    simp only [leading, groups, paddedGroup, length_cons, length_nil]
    simp
  | case4 => simp [leading, groups]

/-- The separators that there is room for and those between the groups. -/
theorem separators_eq {length : Nat} (positive : 0 < length) :
    (4 * ((length + 2) / 3) + 1) / 64 =
      (length / 3 - 1) / 16 + if Overestimated length then 1 else 0 := by
  split <;> rename_i more <;> unfold Overestimated at more <;> omega

/-- The text has one separator less than there is room for if the room is overestimated,
and otherwise just as many. -/
theorem needed_eq (notEmpty : d ≠ []) (small : d.length < 0x10000000) :
    needed d.length sep.length =
      some ((groups sep 0 d ++ sep).length + 1 +
        if Overestimated d.length then sep.length else 0) := by
  have positive := length_pos_iff.mpr notEmpty
  have written := length_groups sep 0 d
  rw [Nat.mul_zero, show leading sep 0 d = [] from if_neg fun all => all.1 rfl,
    nil_append, Nat.zero_add, Nat.zero_sub, Nat.zero_div, Nat.sub_zero] at written
  generalize d.length = length at *
  have chars : (length * 8 + 5) / 6 +
      (if (length * 8 + 5) / 6 % 4 ≠ 0 then 4 - (length * 8 + 5) / 6 % 4 else 0) =
        4 * ((length + 2) / 3) := by split <;> omega
  rw [needed, if_neg (by omega)]
  dsimp only
  rw [chars, length_append, written]
  rw [separators_eq positive, Nat.add_right_comm, Nat.add_mul, Nat.add_mul, Nat.one_mul]
  congr 1
  split <;> omega

/-- The separators. -/
def IsSeparator (sep : List UInt8) : Prop :=
  sep = [] ∨ sep = [0x0a] ∨ sep = [0x0d, 0x0a]

theorem isSeparator_separator (dwFlags : UInt32) : IsSeparator (separator dwFlags) := by
  unfold separator
  split
  · exact .inr (.inl rfl)
  · split
    · exact .inl rfl
    · exact .inr (.inr rfl)

theorem IsSeparator.length_le {sep : List UInt8} (isSeparator : IsSeparator sep) :
    sep.length ≤ 2 := by
  obtain rfl | rfl | rfl := isSeparator <;> simp

/-- One round of the loop over a group that is not the last. -/
theorem base64Blocks_group {sep more : List UInt8} (isSeparator : IsSeparator sep)
    (decoded : decodeGroup c0 c1 c2 c3 = some bytes)
    (begins : ∃ char rest, more = char :: rest ∧ Printing char) (positive : 0 < len)
    (small : 4 + sep.length + len < 0x80000000) :
    base64Blocks ([c0, c1, c2, c3] ++ (sep ++ more)) (4 + sep.length + len) =
      (base64Blocks more len).map (bytes ++ ·) := by
  obtain ⟨char, rest, rfl, notNull, notNewline, notReturn⟩ := begins
  have next : nextBlock ([c0, c1, c2, c3] ++ (sep ++ char :: rest)) (4 + sep.length + len) =
      some (4 + sep.length) := by
    obtain rfl | rfl | rfl := isSeparator
    · simp [nextBlock, notNull, notNewline, notReturn]
    · rw [nextBlock, if_neg (by simp), if_pos (by simp)]
      rfl
    · rw [nextBlock, if_pos (by simp)]
      rfl
  have block : decodeBase64Block ([c0, c1, c2, c3] ++ (sep ++ char :: rest))
      (4 + sep.length + len) = some (bytes, some (4 + sep.length)) := by
    rw [decodeBase64Block, if_neg (by omega), next]
    exact congrArg _ decoded
  have dropped : ([c0, c1, c2, c3] ++ (sep ++ char :: rest)).drop (4 + sep.length) =
      char :: rest := by
    rw [drop_append]
    simp
  rw [base64Blocks, block]
  dsimp only
  rw [if_neg (by omega), dropped, Nat.add_sub_cancel_left]

theorem base64Blocks_last {sep : List UInt8} (isSeparator : IsSeparator sep)
    (decoded : decodeGroup c0 c1 c2 c3 = some bytes) (rest : List UInt8) :
    base64Blocks ([c0, c1, c2, c3] ++ (sep ++ rest)) (4 + sep.length) = some bytes := by
  have next : nextBlock ([c0, c1, c2, c3] ++ (sep ++ rest)) (4 + sep.length) = none ∨
      nextBlock ([c0, c1, c2, c3] ++ (sep ++ rest)) (4 + sep.length) = some (4 + sep.length) := by
    obtain rfl | rfl | rfl := isSeparator
    · by_cases ended : rest[0]?.getD 0 = 0
      · exact .inl (by simp [nextBlock, ended])
      · exact .inr (by simp [nextBlock, ended])
    · exact .inr rfl
    · exact .inr rfl
  have short := isSeparator.length_le
  have block : decodeBase64Block ([c0, c1, c2, c3] ++ (sep ++ rest)) (4 + sep.length) =
      some (bytes, nextBlock ([c0, c1, c2, c3] ++ (sep ++ rest)) (4 + sep.length)) := by
    rw [decodeBase64Block, if_neg (by omega)]
    exact congrArg _ decoded
  rw [base64Blocks, block]
  obtain ended | exact := next
  · rw [ended]
  · rw [exact]
    dsimp only
    rw [if_pos (Nat.sub_self _)]

theorem groups_cons (i : Nat) (notEmpty : d ≠ []) :
    ∃ char rest, groups sep i d = char :: rest ∧ Printing char := by
  match d with
  | d0 :: d1 :: d2 :: d => exact ⟨_, _, rfl, fullGroup_printing d0 d1 d2 _ (.head _)⟩
  | [d0, d1] | [d0] => exact ⟨_, _, rfl, printing_b64Char (and_lt _ _)⟩

/-- The groups of a nonempty byte string, followed by a separator and anything else, are
read back. -/
theorem base64Blocks_groups {sep : List UInt8} (isSeparator : IsSeparator sep) (i : Nat)
    (notEmpty : d ≠ []) (rest : List UInt8)
    (small : (groups sep i d).length + sep.length < 0x80000000) :
    base64Blocks (groups sep i d ++ (sep ++ rest)) ((groups sep i d).length + sep.length) =
      some d := by
  induction i, d using groups.induct with
  | case1 i d0 d1 d2 d ih =>
    obtain ⟨c0, c1, c2, c3, text, decoded⟩ := decodeGroup_full d0 d1 d2
    by_cases last : d = []
    · subst last
      have whole : groups sep i [d0, d1, d2] = [c0, c1, c2, c3] := by simp [groups, leading, text]
      rw [whole]
      exact base64Blocks_last isSeparator decoded rest
    obtain ⟨char, _, more, printing⟩ := groups_cons sep (i + 4) last
    have positive : 0 < (groups sep (i + 4) d).length + sep.length := by
      rw [more, length_cons]
      omega
    have between : IsSeparator (leading sep (i + 4) d) := by
      unfold leading
      split
      · exact isSeparator
      · exact .inl rfl
    have whole : groups sep i (d0 :: d1 :: d2 :: d) =
        [c0, c1, c2, c3] ++ (leading sep (i + 4) d ++ groups sep (i + 4) d) := by rw [groups, text]
    have length : (groups sep i (d0 :: d1 :: d2 :: d)).length =
        4 + (leading sep (i + 4) d).length + (groups sep (i + 4) d).length := by
      rw [whole]
      simp
      omega
    have next := ih last (by omega)
    rw [length, Nat.add_assoc, whole, append_assoc, append_assoc,
      base64Blocks_group between decoded ⟨char, _, by rw [more]; rfl, printing⟩ positive
        (by omega), next]
    rfl
  | case2 _ d0 d1 =>
    obtain ⟨c0, c1, c2, c3, text, decoded⟩ := decodeGroup_two d0 d1
    rw [groups, text]
    exact base64Blocks_last isSeparator decoded rest
  | case3 _ d0 =>
    obtain ⟨_, _, _, _, text, decoded⟩ := decodeGroup_one d0
    rw [groups, text]
    exact base64Blocks_last isSeparator decoded rest
  | case4 => exact absurd rfl notEmpty

end Winex.Base64
