import Mathlib.Data.Set.Basic
import Mathlib.Order.Interval.Set.Basic

namespace Winex.ByteMemory

/-!
# Memory of bytes

Memory as a function on addresses, with 32-bit words stored from their least
significant byte on, and the statement that an operation changes only bytes of an
area.
-/

/-- The byte at every address. -/
abbrev Memory := Nat → UInt8

variable (memory : Memory)

/-- The word at an address. -/
def loadWord (address : Nat) : Nat :=
  (memory address).toNat + (memory (address + 1)).toNat * 0x100 +
    (memory (address + 2)).toNat * 0x10000 + (memory (address + 3)).toNat * 0x1000000

/-- Store a word at an address. -/
def storeWord (address value : Nat) : Memory :=
  fun other =>
    if other = address then UInt8.ofNat (value % 0x100)
    else if other = address + 1 then UInt8.ofNat (value / 0x100 % 0x100)
    else if other = address + 2 then UInt8.ofNat (value / 0x10000 % 0x100)
    else if other = address + 3 then UInt8.ofNat (value / 0x1000000 % 0x100)
    else memory other

/-- Clear so many bytes from an address on. -/
def clear (address count : Nat) : Memory :=
  fun other => if address ≤ other ∧ other < address + count then 0 else memory other

/-- So many bytes from an address on. -/
def area (address count : Nat) : Set Nat :=
  Set.Ico address (address + count)

/-- Two areas, given by their addresses and sizes, share no byte. -/
def Apart (first second : Nat × Nat) : Prop :=
  ∀ address ∈ area first.1 first.2, address ∉ area second.1 second.2

/-- Only bytes of the area are different afterwards. -/
def ChangesOnly (bytes : Set Nat) (before after : Memory) : Prop :=
  ∀ address, address ∉ bytes → after address = before address

theorem loadWord_storeWord (address : Nat) {value : Nat} (word : value < 0x100000000)
    : loadWord (storeWord memory address value) address = value := by
  have byte {number : Nat} (small : number < 0x100) : (UInt8.ofNat number).toNat = number :=
    UInt8.toNat_ofNat_of_lt' small
  simp [loadWord, storeWord, byte (Nat.mod_lt _ (by decide : 0 < 0x100))]
  omega

namespace ChangesOnly

variable {bytes larger : Set Nat} {before middle after : Memory}

theorem refl (bytes : Set Nat) (memory : Memory) : ChangesOnly bytes memory memory :=
  fun _ _ => rfl

theorem trans (first : ChangesOnly bytes before middle) (second : ChangesOnly bytes middle after) :
    ChangesOnly bytes before after :=
  fun address outside => (second address outside).trans (first address outside)

theorem mono (changes : ChangesOnly bytes before after) (covers : bytes ⊆ larger) :
    ChangesOnly larger before after :=
  fun address outside => changes address fun inside => outside (covers inside)

end ChangesOnly

theorem changesOnly_storeWord (address value : Nat) :
    ChangesOnly (area address 4) memory (storeWord memory address value) := by
  intro other outside
  have : ¬(address ≤ other ∧ other < address + 4) := outside
  unfold storeWord
  rw [if_neg (by omega), if_neg (by omega), if_neg (by omega), if_neg (by omega)]

theorem changesOnly_clear (address count : Nat) :
    ChangesOnly (area address count) memory (clear memory address count) := by
  intro _ outside
  exact if_neg outside

variable {address : Nat}

theorem area_subset {count address' count' : Nat} (low : address' ≤ address := by omega)
    (high : address + count ≤ address' + count' := by omega) :
    area address count ⊆ area address' count' :=
  fun _ ⟨first, last⟩ => ⟨low.trans first, lt_of_lt_of_le last high⟩

theorem ChangesOnly.loadWord_eq {bytes : Set Nat} {before after : Memory}
    (changes : ChangesOnly bytes before after) (outside : ∀ other ∈ area address 4, other ∉ bytes) :
    loadWord after address = loadWord before address := by
  have kept (offset : Nat) (inside : offset < 4) :
      after (address + offset) = before (address + offset) :=
    changes _ (outside _ ⟨Nat.le_add_right _ _, Nat.add_lt_add_left inside _⟩)
  have first : after address = before address := kept 0 (by decide)
  simp only [loadWord, first, kept 1 (by decide), kept 2 (by decide), kept 3 (by decide)]

end Winex.ByteMemory
