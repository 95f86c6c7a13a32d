import Mathlib.Data.Nat.Digits.Defs
import Mathlib.Tactic.Linarith

namespace Winex.DecimalText

open List Nat

/-!
# Decimal text

Numbers as `printf` and `scanf` write and read them with `%d`. A number that is followed
by something other than a digit is read back.
-/

/-- The decimal digits of a natural number. -/
def decimal (number : Nat) : List Char :=
  Nat.toDigits 10 number

/-- The text of an integer, with a sign if it is negative. -/
def signedDecimal : Int → List Char
  | .ofNat number => decimal number
  | .negSucc number => '-' :: decimal (number + 1)

/-- White space, which `%d` skips. -/
def isSpace (char : Char) : Bool :=
  char.toNat = 0x20 || (0x09 ≤ char.toNat && char.toNat ≤ 0x0d)

/-- A number without a sign, and the text behind it. -/
def scanDigits (text : List Char) : Option (Nat × List Char) :=
  if text.takeWhile Char.isDigit = [] then none
  else some (Nat.ofDigitChars 10 (text.takeWhile Char.isDigit) 0, text.dropWhile Char.isDigit)

/-- A number with an optional sign, and the text behind it. -/
def scanSigned : List Char → Option (Int × List Char)
  | '-' :: text => (scanDigits text).map fun (number, rest) => (-number, rest)
  | '+' :: text => (scanDigits text).map fun (number, rest) => (number, rest)
  | text => (scanDigits text).map fun (number, rest) => (number, rest)

/-- What `%d` reads into a 32-bit `int`, and the text behind it. -/
def scanInt (text : List Char) : Option (Int × List Char) :=
  (scanSigned (text.dropWhile isSpace)).map fun (number, rest) => (number.bmod 0x100000000, rest)

variable {number : Nat} {char : Char} {rest text : List Char}

theorem isDigit_of_mem_decimal (isChar : char ∈ decimal number) : char.isDigit = true :=
  isDigit_of_mem_toDigits (by decide) (by decide) isChar

theorem decimal_ne_nil (number : Nat) : decimal number ≠ [] :=
  toDigits_ne_nil

/-- A text that does not go on with a digit. -/
def EndsNumber (text : List Char) : Prop :=
  ∀ char, text.head? = some char → char.isDigit = false

theorem scanDigits_decimal (number : Nat) (ends : EndsNumber rest) :
    scanDigits (decimal number ++ rest) = some (number, rest) := by
  have all : ∀ char ∈ decimal number, char.isDigit = true := fun _ => isDigit_of_mem_decimal
  have taken : (decimal number ++ rest).takeWhile Char.isDigit = decimal number := by
    rw [takeWhile_append_of_pos all]
    cases rest with
    | nil => simp
    | cons char => simp [ends char rfl]
  have dropped : (decimal number ++ rest).dropWhile Char.isDigit = rest := by
    rw [dropWhile_append_of_pos all]
    cases rest with
    | nil => rfl
    | cons char => simp [ends char rfl]
  rw [scanDigits, taken, dropped, if_neg (decimal_ne_nil number), decimal,
    ofDigitChars_toDigits (by decide) (by decide)]

theorem scanSigned_of_isDigit (digit : char.isDigit = true) :
    scanSigned (char :: text) =
        (scanDigits (char :: text)).map fun (number, rest) => ((number : Int), rest) := by
  unfold scanSigned
  split
  next same =>
    cases same
    exact absurd digit (by decide)
  next same =>
    cases same
    exact absurd digit (by decide)
  · rfl

theorem isSpace_of_isDigit (digit : char.isDigit = true) : isSpace char = false := by
  simp only [Char.isDigit, Bool.and_eq_true, decide_eq_true_eq, ge_iff_le,
    UInt32.le_iff_toNat_le] at digit
  change 48 ≤ char.toNat ∧ char.toNat ≤ 57 at digit
  simp only [isSpace, Bool.or_eq_false_iff, Bool.and_eq_false_iff, decide_eq_false_iff_not]
  omega

/-- A number below 2^31 is read back. -/
theorem scanInt_decimal (small : number < 0x80000000) (ends : EndsNumber rest) :
    scanInt (decimal number ++ rest) = some ((number : Int), rest) := by
  have read := scanDigits_decimal number ends
  cases shape : decimal number with
  | nil => exact absurd shape (decimal_ne_nil number)
  | cons char =>
    have digit : char.isDigit = true := isDigit_of_mem_decimal (by rw [shape]; simp)
    rw [shape] at read
    have value : Int.bmod (number : Int) 0x100000000 = number := by rw [Int.bmod_eq_of_le] <;> omega
    rw [scanInt, cons_append, dropWhile_cons_of_neg
      (by rw [isSpace_of_isDigit digit]; decide), scanSigned_of_isDigit digit,
      ← cons_append, read]
    simp [value]

theorem scanDigits_shorter (read : scanDigits text = some (number, rest)) :
    rest.length < text.length := by
  unfold scanDigits at read
  split at read
  · cases read
  rename_i digits
  cases read
  have whole := congrArg length (takeWhile_append_dropWhile (p := Char.isDigit) (l := text))
  have := length_pos_iff.mpr digits
  rw [length_append] at whole
  omega

theorem scanSigned_shorter {number : Int} (read : scanSigned text = some (number, rest)) :
    rest.length < text.length := by
  unfold scanSigned at read
  split at read
  all_goals
    obtain ⟨⟨_, _⟩, scanned, same⟩ := Option.map_eq_some_iff.mp read
    cases same
    have := scanDigits_shorter scanned
    first
    | exact this
    | exact lt_succ_of_lt this

theorem scanInt_shorter {number : Int} (read : scanInt text = some (number, rest)) :
    rest.length < text.length := by
  obtain ⟨⟨_, _⟩, scanned, same⟩ := Option.map_eq_some_iff.mp read
  cases same
  exact lt_of_lt_of_le (scanSigned_shorter scanned) (dropWhile_suffix _).length_le

/-- How many characters the text of an integer has. -/
theorem signedDecimal_length_le_iff (number : Int) (count : Nat) :
    (signedDecimal number).length ≤ count + 2 ↔
      -(10 ^ (count + 1) : Nat) < number ∧ number < (10 ^ (count + 2) : Nat) := by
  have digits (value : Nat) (places : Nat) :
      (decimal value).length ≤ places + 1 ↔ value < 10 ^ (places + 1) :=
    length_toDigits_le_iff (by decide) (succ_pos places)
  cases number with
  | ofNat =>
    rw [signedDecimal, digits]
    have : 0 < 10 ^ (count + 1) := by positivity
    generalize 10 ^ (count + 1 + 1) = high
    rw [Int.ofNat_eq_natCast]
    omega
  | negSucc =>
    rw [signedDecimal, length_cons, succ_le_succ_iff, digits]
    have : 0 < 10 ^ (count + 2) := by positivity
    omega

/-- The text of `%0<width>d` for a number without a sign. -/
def padded (width number : Nat) : List Char :=
  (decimal number).leftpad width '0'

variable {width : Nat}

theorem padded_length (small : number < 10 ^ (width + 1)) :
    (padded (width + 1) number).length = width + 1 := by
  have digits : (decimal number).length ≤ width + 1 :=
    (length_toDigits_le_iff (by decide) (succ_pos width)).mpr small
  simp [padded, leftpad]
  omega

theorem isDigit_of_mem_padded (isChar : char ∈ padded width number) : char.isDigit = true := by
  rw [padded, leftpad, mem_append] at isChar
  obtain isZero | inDecimal := isChar
  · rw [eq_of_mem_replicate isZero]
    rfl
  · exact isDigit_of_mem_decimal inDecimal

theorem ofDigitChars_padded (width number : Nat) :
    Nat.ofDigitChars 10 (padded width number) 0 = number := by
  have zeros (count : Nat) (rest : List Char) :
      Nat.ofDigitChars 10 (replicate count '0' ++ rest) 0 = Nat.ofDigitChars 10 rest 0 := by
    induction count with
    | zero => rfl
    | succ _ ih => exact ih
  rw [padded, leftpad, zeros, decimal, ofDigitChars_toDigits (by decide) (by decide)]

end Winex.DecimalText
