import Mathlib.Data.Set.Function

namespace Winex.MixedRadix

/-!
# Mixed-radix numbers

A list of radices, the least significant first, splits every number below their product
into one digit for each.  The splitting is a bijection.
-/

/-- The product of the radices. -/
def volume : List Nat → Nat
  | [] => 1
  | radix :: radices => radix * volume radices

/-- There is one digit below each radix. -/
def Within : List Nat → List Nat → Prop
  | [], [] => True
  | radix :: radices, digit :: digits => digit < radix ∧ Within radices digits
  | _, _ => False

/-- The digits of a number. -/
def digits : List Nat → Nat → List Nat
  | [], _ => []
  | radix :: radices, number => number % radix :: digits radices (number / radix)

/-- The number that has the digits. -/
def number : List Nat → List Nat → Nat
  | radix :: radices, digit :: digits => digit + radix * number radices digits
  | _, _ => 0

theorem volume_append (first second : List Nat) :
    volume (first ++ second) = volume first * volume second := by
  induction first with
  | nil => simp [volume]
  | cons _ _ ih => simp [volume, ih, Nat.mul_assoc]

variable {radices : List Nat}

theorem volume_pos_iff : 0 < volume radices ↔ ∀ radix ∈ radices, 0 < radix := by
  induction radices with
  | nil => simp [volume]
  | cons _ _ ih =>
    rw [volume, Nat.pos_iff_ne_zero, Nat.mul_ne_zero_iff, ← Nat.pos_iff_ne_zero,
      ← Nat.pos_iff_ne_zero, ih, List.forall_mem_cons]

theorem within_digits {number : Nat} (below : number < volume radices) :
    Within radices (digits radices number) := by
  induction radices generalizing number with
  | nil => trivial
  | cons radix _ ih =>
    have positive : 0 < radix := by
      by_contra zero
      simp [volume, Nat.eq_zero_of_not_pos zero] at below
    exact ⟨Nat.mod_lt _ positive, ih (Nat.div_lt_of_lt_mul below)⟩

theorem number_digits {value : Nat} (below : value < volume radices) :
    number radices (digits radices value) = value := by
  induction radices generalizing value with
  | nil => exact (Nat.lt_one_iff.mp below).symm
  | cons radix _ ih =>
    rw [digits, number, ih (Nat.div_lt_of_lt_mul below)]
    exact Nat.mod_add_div value radix

variable {values : List Nat}

theorem number_lt (within : Within radices values) : number radices values < volume radices := by
  fun_induction Within radices values with
  | case1 => exact Nat.one_pos
  | case2 radix radices value values ih =>
    have rest := ih within.2
    calc value + radix * number radices values
        < radix + radix * number radices values := Nat.add_lt_add_right within.1 _
      _ = radix * (number radices values + 1) := by rw [Nat.mul_succ, Nat.add_comm]
      _ ≤ radix * volume radices := Nat.mul_le_mul_left _ rest
  | case3 => exact within.elim

theorem digits_number (within : Within radices values) :
    digits radices (number radices values) = values := by
  fun_induction Within radices values with
  | case1 => rfl
  | case2 radix _ _ _ ih =>
    have positive : 0 < radix := Nat.zero_lt_of_lt within.1
    rw [number, digits, Nat.add_mul_mod_self_left, Nat.mod_eq_of_lt within.1,
      Nat.add_mul_div_left _ _ positive, Nat.div_eq_of_lt within.1, Nat.zero_add, ih within.2]
  | case3 => exact within.elim

theorem bijOn_digits (radices : List Nat) :
    Set.BijOn (digits radices) {value | value < volume radices}
      {values | Within radices values} := by
  refine ⟨fun value below => within_digits below, ?_, ?_⟩
  · intro _ firstBelow _ secondBelow same
    rw [← number_digits firstBelow, ← number_digits secondBelow, same]
  · intro values within
    exact ⟨number radices values, number_lt within, digits_number within⟩

/-- The digit behind some radices: what is below the product up to it, divided by the
product before it. -/
theorem digits_append (before : List Nat) (radix : Nat) (after : List Nat) (value : Nat) :
    (digits (before ++ radix :: after) value)[before.length]? =
      some (value % (volume before * radix) / volume before) := by
  induction before generalizing value with
  | nil => simp [digits, volume]
  | cons _ _ ih =>
    rw [List.cons_append, digits, List.length_cons, List.getElem?_cons_succ, ih, volume,
      Nat.mod_mul_right_div_self, Nat.mod_mul_right_div_self, Nat.div_div_eq_div_mul]

end Winex.MixedRadix
