import Mathlib.Data.Nat.Digits.Lemmas
import Mathlib.Data.Nat.Digits.Defs
import Mathlib.Tactic.Linarith
import Mathlib.Tactic.Ring

namespace Winex.ByteNumber

open List

/-!
# Numbers as bytes

Unsigned and two's complement numbers given by their bytes, the least significant one
first. Copies of the sign do not change a number, and one without such a copy has no
shorter form.
-/

/-- The unsigned number. -/
def unsigned (bytes : List UInt8) : Nat :=
  Nat.ofDigits 0x100 (bytes.map UInt8.toNat)

/-- A byte as a signed number. -/
def signedByte (byte : UInt8) : Int :=
  if byte.toNat < 0x80 then byte.toNat else byte.toNat - 0x100

/-- The two's complement number; its last byte has the sign. -/
def signed (bytes : List UInt8) : Int :=
  match bytes.getLast? with
  | none => 0
  | some top => unsigned bytes.dropLast + 0x100 ^ bytes.dropLast.length * signedByte top

@[simp] theorem unsigned_nil : unsigned [] = 0 := rfl

theorem unsigned_append (low high : List UInt8) :
    unsigned (low ++ high) = unsigned low + 0x100 ^ low.length * unsigned high := by
  simp [unsigned, Nat.ofDigits_append]

theorem unsigned_singleton (byte : UInt8) : unsigned [byte] = byte.toNat := by
  simp [unsigned]

variable (bytes low : List UInt8) {top : UInt8}

theorem unsigned_lt : unsigned bytes < 0x100 ^ bytes.length := by
  have bounded : ∀ digit ∈ bytes.map UInt8.toNat, digit < 0x100 := by
    intro _ isDigit
    obtain ⟨byte, -, rfl⟩ := mem_map.mp isDigit
    exact byte.toNat_lt
  simpa [unsigned] using Nat.ofDigits_lt_base_pow_length (by decide) bounded

variable (count : Nat)

theorem unsigned_append_zeros : unsigned (bytes ++ List.replicate count 0) = unsigned bytes := by
  have zeros : unsigned (replicate count 0) = 0 := by
    induction count with
    | zero => rfl
    | succ _ ih =>
      rw [replicate_succ, ← singleton_append, unsigned_append, ih, unsigned_singleton]
      rfl
  rw [unsigned_append, zeros, Nat.mul_zero, Nat.add_zero]

theorem signed_concat (top : UInt8) :
    signed (low ++ [top]) = unsigned low + 0x100 ^ low.length * signedByte top := by
  simp [signed]

theorem signed_range (top : UInt8) :
    -(0x80 * 0x100 ^ low.length) ≤ signed (low ++ [top]) ∧
      signed (low ++ [top]) < 0x80 * 0x100 ^ low.length := by
  have below : (unsigned low : Int) < 0x100 ^ low.length := by exact_mod_cast unsigned_lt low
  have sign : -0x80 ≤ signedByte top ∧ signedByte top ≤ 0x7f := by
    have := top.toNat_lt
    unfold signedByte
    split <;> omega
  rw [signed_concat]
  constructor <;> nlinarith

/-- The two most significant bytes are not a copy of the sign. -/
def Reduced (next top : UInt8) : Prop :=
  ¬(top = 0 ∧ next.toNat < 0x80) ∧ ¬(top = 0xff ∧ 0x80 ≤ next.toNat)

/-- A reduced number does not fit in one byte less. -/
theorem signed_reduced {next : UInt8} (reduced : Reduced next top) :
    signed (low ++ [next] ++ [top]) < -(0x80 * 0x100 ^ low.length) ∨
      0x80 * 0x100 ^ low.length ≤ signed (low ++ [next] ++ [top]) := by
  have below : (unsigned low : Int) < 0x100 ^ low.length := by exact_mod_cast unsigned_lt low
  have nextByte := next.toNat_lt
  have topByte := top.toNat_lt
  rw [signed_concat, unsigned_append, unsigned_singleton]
  simp only [length_append, length_cons, length_nil, pow_succ, zero_add]
  push_cast
  have notZero : top.toNat = 0 → 0x80 ≤ next.toNat := by
    intro isZero
    by_contra small
    exact reduced.1 ⟨UInt8.toNat_inj.mp isZero, by omega⟩
  have notFf : top.toNat = 0xff → next.toNat < 0x80 := by
    intro isFf
    by_contra large
    exact reduced.2 ⟨UInt8.toNat_inj.mp isFf, by omega⟩
  unfold signedByte
  split
  next small =>
    right
    by_cases isZero : top.toNat = 0
    · have := notZero isZero
      nlinarith
    · have : (1 : Int) ≤ top.toNat := by omega
      nlinarith
  next large =>
    left
    by_cases isFf : top.toNat = 0xff
    · have := notFf isFf
      nlinarith
    · have : (top.toNat : Int) ≤ 0xfe := by omega
      nlinarith

/-- A form without a copy of the sign: one byte, or more bytes of which the two most
significant ones are reduced. -/
inductive Minimal : List UInt8 → Prop where
  | single (byte : UInt8) : Minimal [byte]
  | reduced (low : List UInt8) {next top : UInt8} : Reduced next top →
      Minimal (low ++ [next] ++ [top])

/-- No other form of the same number is shorter. -/
theorem Minimal.length_le {bytes other : List UInt8} (minimal : Minimal bytes)
    (nonempty : other ≠ []) (same : signed other = signed bytes) : bytes.length ≤ other.length := by
  obtain ⟨low', top', rfl⟩ := (eq_nil_or_concat' other).resolve_left nonempty
  cases minimal with
  | single => simp
  | @reduced low next top reduced =>
    by_contra shorter
    simp only [length_append, length_cons, length_nil] at shorter
    have range := signed_range low' top'
    have outside := signed_reduced low reduced
    have powers : (0x100 : Int) ^ low'.length ≤ 0x100 ^ low.length :=
      pow_le_pow_right₀ (by decide) (by omega)
    omega

theorem signed_eq_unsigned {low : List UInt8} (positive : top.toNat < 0x80) :
    signed (low ++ [top]) = unsigned (low ++ [top]) := by
  rw [signed_concat, unsigned_append, unsigned_singleton, signedByte, if_pos positive]
  rfl

theorem signed_append_zeros : signed (bytes ++ List.replicate (count + 1) 0) = unsigned bytes := by
  rw [replicate_succ', ← append_assoc, signed_eq_unsigned (by decide),
    unsigned_append, unsigned_append_zeros]
  simp [unsigned]

theorem signed_append_ff {low : List UInt8} (negative : 0x80 ≤ top.toNat) :
    signed (low ++ [top] ++ [0xff]) = signed (low ++ [top]) := by
  have ff : signedByte 0xff = -1 := by decide
  rw [signed_concat, signed_concat, unsigned_append, unsigned_singleton, ff, signedByte,
    if_neg (by omega)]
  simp only [length_append, length_cons, length_nil, pow_succ]
  push_cast
  ring

theorem signed_append_ffs :
    signed (bytes ++ List.replicate (count + 1) 0xff) = signed (bytes ++ [0xff]) := by
  induction count with
  | zero => rfl
  | succ _ ih =>
    rw [replicate_succ', ← append_assoc, replicate_succ',
      ← append_assoc, signed_append_ff (by decide), ← ih,
      replicate_succ', ← append_assoc]

end Winex.ByteNumber
