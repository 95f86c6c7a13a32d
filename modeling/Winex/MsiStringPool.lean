import Winex.MsiStrings

namespace Winex.Msi

open List Relation Option Nat

/-!
# Loading the string pool

`_StringPool` has a slot of two words for each string, and `_StringData` has the strings
one after the other.  A result `none` stands for an access outside of a stream or of the
table.
-/

/-- The code pages that `IsValidCodePage` knows, and what `MultiByteToWideChar` makes of
bytes, up to the first zero. -/
structure CodePages where
  isValid : Nat → Bool
  toWide : Nat → List UInt8 → WString

/-- What the slots of a string say, and if there are two of them. -/
structure PoolRecord where
  refs : Nat
  len : Nat
  long : Bool

section Streams

variable (codePages : CodePages) (pool data : List UInt8)

def poolWord (index : Nat) : Option Nat :=
  pool[2 * index]?.bind fun low =>
    pool[2 * index + 1]?.map fun high => low.toNat + 0x100 * high.toNat

/-- The record that begins in a slot.  If it has references and no length, the length is in
the next slot. -/
def poolRecord (i : Nat) : Option PoolRecord :=
  (poolWord pool (2 * i + 1)).bind fun refs =>
    (poolWord pool (2 * i)).bind fun len =>
      if len = 0 ∧ refs ≠ 0 then
        (poolWord pool (2 * i + 3)).bind fun high =>
          (poolWord pool (2 * i + 2)).map fun low => ⟨refs, 0x10000 * high + low, true⟩
      else some ⟨refs, len, false⟩

/-- The bytes that `msi_addstring` converts.  A length that is negative as an `int` is taken
from `strlen`. -/
def stringBytes (offset len : Nat) : Option (List UInt8) :=
  if len < 0x80000000 then
    if offset + len ≤ data.length then some ((data.drop offset).take len) else none
  else if 0 ∈ data.drop offset then some ((data.drop offset).takeWhile (· ≠ 0))
  else none

/-- `msi_addstring` for a given entry and persistent references. -/
def addstring (codepage n offset : Nat) (record : PoolRecord) (table : StringTable) :
    Option StringTable :=
  data[offset]?.bind fun first =>
    if first = 0 then some table
    else if table.strings.length ≤ n then none
    else if (table.entry n).IsFree then
      (stringBytes data offset record.len).map fun bytes =>
        let str := codePages.toWide codepage bytes
        { table.setEntry n str .persistent with
          strings := table.strings.set n ⟨record.refs, 0, str⟩ }
    else some table

/-- The loop of `msi_load_string_table`. -/
def loadStrings (codepage i n offset : Nat) (table : StringTable) : Option StringTable :=
  if i < pool.length / 4 then
    match poolRecord pool i with
    | none => none
    | some record =>
      if record.refs = 0 ∧ record.len = 0 then
        loadStrings codepage (i + 1) (n + 1) offset table
      else if data.length < (offset + record.len) % 0x100000000 then some table
      else
        match addstring codePages data codepage n offset record table with
        | none => none
        | some table =>
          loadStrings codepage (i + 1 + record.long.toNat) (n + 1)
            ((offset + record.len) % 0x100000000) table
  else some table
termination_by pool.length / 4 - i

/-- The code page, and `bytes_per_strref`. -/
def poolHeader : Option (Nat × Nat) :=
  if 4 < pool.length then
    (poolWord pool 1).bind fun high =>
      (poolWord pool 0).map fun low =>
        (low + 0x10000 * (high % 0x8000), if 0x8000 ≤ high then 3 else 2)
  else some (0, 2)

/-- `init_stringtable` for a valid code page. -/
def initStringtable (entries : Nat) : StringTable :=
  ⟨replicate (max entries 1) default, 1, fun _ => []⟩

/-- `msi_load_string_table`, which gives no table for an invalid code page. -/
def loadStringTable : Option (Option StringTable × Nat) :=
  (poolHeader pool).bind fun (codepage, bytesPerStrref) =>
    if codepage ≠ 0 ∧ ¬codePages.isValid codepage then some (none, bytesPerStrref)
    else
      (loadStrings codePages pool data codepage 1 1 0 (initStringtable (pool.length / 4))).map
        fun table => (some table, bytesPerStrref)

/-- A record and its string are followed by the next ones, if the check lets them pass. -/
def NextRecord (place place' : Nat × Nat) : Prop :=
  ∃ record ∈ poolRecord pool place.1, (place.2 + record.len) % 0x100000000 ≤ data.length ∧
    place' = (place.1 + 1 + record.long.toNat, (place.2 + record.len) % 0x100000000)

/-- The marker of a long string stands in the last slot. -/
def MarkerLast (i : Nat) : Prop :=
  i + 1 = pool.length / 4 ∧ poolWord pool (2 * i) = some 0 ∧ poolWord pool (2 * i + 1) ≠ some 0

/-- The strings that the check lets pass and that are not in the data: a long one of no length
at the end, one of 2^31 bytes or more with no zero behind its start, and one whose end is no
`DWORD`, which takes more than 2^31 bytes of data. -/
def StringBehind (offset len : Nat) : Prop :=
  (len = 0 ∧ offset = data.length) ∨ (0x80000000 ≤ len ∧ 0 ∉ data.drop offset) ∨
    (len < 0x80000000 ∧ max data.length 0xffffffff < offset + len ∧ data[offset]? ≠ some 0)

/-- A place of a slot and a string at which a stream is read behind its end. -/
def Overruns (place : Nat × Nat) : Prop :=
  MarkerLast pool place.1 ∨
    ∃ record ∈ poolRecord pool place.1, ¬(record.refs = 0 ∧ record.len = 0) ∧
      (place.2 + record.len) % 0x100000000 ≤ data.length ∧ StringBehind data place.2 record.len

end Streams

variable {codePages : CodePages} {pool data : List UInt8} {table : StringTable}
variable {codepage n offset : Nat}

theorem poolWord_isSome (pool : List UInt8) (index : Nat) (inside : 2 * index + 1 < pool.length) :
    ∃ word, poolWord pool index = some word := by
  unfold poolWord
  rw [getElem?_eq_getElem (by omega), getElem?_eq_getElem inside]
  exact ⟨_, rfl⟩

theorem poolWord_eq_none (behind : pool.length ≤ 2 * n + 1) : poolWord pool n = none := by
  simp [poolWord, getElem?_eq_none behind]

/-- A slot of the pool has a record, or it is the last one and has a marker. -/
theorem poolRecord_cases {i : Nat} (inside : i < pool.length / 4) :
    (∃ record, poolRecord pool i = some record ∧ (record.refs = 0 → record.long = false) ∧
        ¬MarkerLast pool i) ∨
      poolRecord pool i = none ∧ MarkerLast pool i := by
  obtain ⟨refs, isRefs⟩ := poolWord_isSome pool (2 * i + 1) (by omega)
  obtain ⟨len, isLen⟩ := poolWord_isSome pool (2 * i) (by omega)
  unfold poolRecord MarkerLast
  rw [isRefs, isLen, bind_some, bind_some]
  by_cases marker : len = 0 ∧ refs ≠ 0
  · rw [if_pos marker]
    by_cases last : i + 1 = pool.length / 4
    · exact .inr ⟨by rw [poolWord_eq_none (by omega)]; rfl, by simp [marker, last]⟩
    · obtain ⟨_, isHigh⟩ := poolWord_isSome pool (2 * i + 3) (by omega)
      obtain ⟨_, isLow⟩ := poolWord_isSome pool (2 * i + 2) (by omega)
      rw [isHigh, isLow]
      exact .inl ⟨_, rfl, fun noRefs => absurd noRefs marker.2, fun isLast => last isLast.1⟩
  · rw [if_neg marker]
    refine .inl ⟨_, rfl, fun _ => rfl, fun isLast => marker ?_⟩
    simpa using isLast.2

/-- What the check lets pass is added without an access outside, except for `StringBehind`. -/
theorem addstring_eq_some_iff (codePages : CodePages) (codepage : Nat) {record : PoolRecord}
    (inside : n < table.strings.length) (isFree : (table.entry n).IsFree)
    (least : offset ≤ data.length) (fits : (offset + record.len) % 0x100000000 ≤ data.length) :
    (∃ table', addstring codePages data codepage n offset record table = some table') ↔
      ¬StringBehind data offset record.len := by
  unfold addstring StringBehind
  by_cases atEnd : offset = data.length
  · subst atEnd
    simp only [getElem?_eq_none le_rfl, drop_length]
    simp
    omega
  have isFirst := getElem?_eq_getElem (l := data) (i := offset) (by omega)
  by_cases zero : data[offset] = 0
  · have inDrop : 0 ∈ data.drop offset := by
      rw [drop_eq_getElem_cons (by omega), zero]
      exact mem_cons_self
    simp [isFirst, zero, atEnd, inDrop]
  · simp only [isFirst, zero, bind_some, if_false, if_neg (not_le.mpr inside), isFree,
      if_true, stringBytes]
    split
    · split <;> simp [zero] <;> omega
    · split <;> simp_all

theorem entry_addstring {record : PoolRecord} {table' : StringTable}
    (added : addstring codePages data codepage n offset record table = some table') :
    table'.strings.length = table.strings.length ∧ ∀ m > n, table'.entry m = table.entry m := by
  obtain ⟨_, -, added⟩ := bind_eq_some_iff.mp added
  split at added
  · cases added
    exact ⟨rfl, fun _ _ => rfl⟩
  split at added
  · cases added
  split at added
  · obtain ⟨_, -, rfl⟩ := map_eq_some_iff.mp added
    refine ⟨length_set, fun m behind => ?_⟩
    simp only [StringTable.entry, getD_eq_getElem?_getD]
    rw [getElem?_set_ne (by omega)]
  · cases added
    exact ⟨rfl, fun _ _ => rfl⟩

/-- From a place on nothing overruns if it does not there, and from the next place on nothing
does. -/
theorem forall_reached_iff (place : Nat × Nat) :
    (∀ later, ReflTransGen (NextRecord pool data) place later → ¬Overruns pool data later) ↔
      ¬Overruns pool data place ∧ ∀ next, NextRecord pool data place next →
        ∀ later, ReflTransGen (NextRecord pool data) next later → ¬Overruns pool data later := by
  refine ⟨fun never => ⟨never place .refl, fun next isNext later reached => ?_⟩, ?_⟩
  · exact never later (.head isNext reached)
  · rintro ⟨here, behind⟩ later reached
    rcases reached.cases_head with rfl | ⟨next, isNext, rest⟩
    · exact here
    · exact behind next isNext later rest

theorem loadStrings_eq_some_iff (codePages : CodePages) (codepage i n offset : Nat)
    (table : StringTable) (before : n ≤ i) (length : pool.length / 4 ≤ table.strings.length)
    (free : ∀ m ≥ n, (table.entry m).IsFree)
    (least : offset ≤ data.length ∧ offset < 0x100000000) :
    (∃ table', loadStrings codePages pool data codepage i n offset table = some table') ↔
      ∀ place, ReflTransGen (NextRecord pool data) (i, offset) place →
        ¬Overruns pool data place := by
  unfold loadStrings
  rw [forall_reached_iff]
  split
  next inside =>
    rcases poolRecord_cases inside with ⟨record, isRecord, short, noMarker⟩ | ⟨isNone, marker⟩
    · have here : Overruns pool data (i, offset) ↔ ¬(record.refs = 0 ∧ record.len = 0) ∧
          (offset + record.len) % 0x100000000 ≤ data.length ∧
            StringBehind data offset record.len := by
        simp only [Overruns, noMarker, isRecord, mem_some_iff, false_or, exists_eq_left']
      have isNext (next : Nat × Nat) : NextRecord pool data (i, offset) next ↔
          (offset + record.len) % 0x100000000 ≤ data.length ∧
            next = (i + 1 + record.long.toNat, (offset + record.len) % 0x100000000) := by
        simp only [NextRecord, isRecord, mem_some_iff, exists_eq_left']
      simp only [here, isNext, isRecord, and_imp]
      split
      next empty =>
        rw [loadStrings_eq_some_iff codePages codepage (i + 1) (n + 1) offset table (by omega)
          length (fun m behind => free m (by omega)) least]
        simp [empty, short empty.1, mod_eq_of_lt least.2, least.1]
      split
      next long => simp [not_le.mpr long]
      rename_i full fits
      rw [not_lt] at fits
      have added := addstring_eq_some_iff codePages codepage (by omega) (free n le_rfl) least.1 fits
      cases isAdded : addstring codePages data codepage n offset record table with
      | none => simp_all
      | some table' =>
        obtain ⟨_, sameBehind⟩ := entry_addstring isAdded
        have rest := loadStrings_eq_some_iff codePages codepage
          (i + 1 + record.long.toNat) (n + 1) ((offset + record.len) % 0x100000000) table'
          (by omega) (by omega)
          (fun m behind => by
            rw [sameBehind m behind]
            exact free m (by omega))
          ⟨fits, mod_lt _ (by decide)⟩
        simp_all
    · simp [isNone, Overruns, marker]
  next behind =>
    have isNone : poolRecord pool i = none := by
      rw [poolRecord, poolWord_eq_none (by omega)]
      rfl
    simp [Overruns, NextRecord, MarkerLast, isNone]
    omega
termination_by pool.length / 4 - i

theorem poolHeader_eq_some (pool : List UInt8) : ∃ header, poolHeader pool = some header := by
  unfold poolHeader
  split
  next large =>
    obtain ⟨_, isHigh⟩ := poolWord_isSome pool 1 (by omega)
    obtain ⟨_, isLow⟩ := poolWord_isSome pool 0 (by omega)
    rw [isHigh, isLow]
    exact ⟨_, rfl⟩
  · exact ⟨_, rfl⟩

theorem entry_initStringtable (entries m : Nat) : ((initStringtable entries).entry m).IsFree := by
  simp only [StringTable.entry, initStringtable, getD_eq_getElem?_getD, getElem?_replicate]
  split <;> exact ⟨rfl, rfl⟩

/-- The string table is loaded without an access outside exactly if the code page is not
valid or none of the places that the loop comes to overruns. -/
theorem loadStringTable_within_iff (codePages : CodePages) (pool data : List UInt8) :
    (∃ loaded, loadStringTable codePages pool data = some loaded) ↔
      (∃ header ∈ poolHeader pool, header.1 ≠ 0 ∧ ¬codePages.isValid header.1) ∨
        ∀ place, ReflTransGen (NextRecord pool data) (1, 0) place → ¬Overruns pool data place := by
  obtain ⟨⟨codepage, _⟩, isHeader⟩ := poolHeader_eq_some pool
  unfold loadStringTable
  rw [isHeader, bind_some]
  dsimp only
  split
  next invalid => simp [invalid]
  rename_i valid
  rw [← loadStrings_eq_some_iff codePages codepage 1 1 0 (initStringtable (pool.length / 4))
    (le_refl 1) (by simp [initStringtable]) (fun m _ => entry_initStringtable _ m)
    ⟨zero_le _, by decide⟩]
  simp only [mem_some_iff, exists_eq_left', valid, false_or]
  simp

/-- The length of a string in the last slot is looked for behind the pool. -/
theorem loadStringTable_last_slot :
    loadStringTable ⟨fun _ => true, fun _ _ => []⟩ [0, 0, 0, 0, 0, 0, 1, 0] [] = none := by
  decide +kernel

end Winex.Msi
