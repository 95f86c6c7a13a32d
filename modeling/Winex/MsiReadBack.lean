import Winex.MsiInsert

namespace Winex.Msi

open List

/-!
# Reading an inserted row back

A new row has the values of the fields in its cells, with the strings added to the pool
from column to column.  It is read back if each value fits into its cell and is not the
one that stands for null.
-/

/-- The value of a cell. -/
def TableState.cell (state : TableState) (row i : Nat) : Nat :=
  (state.rows.getD row []).getD i 0

namespace Schema

variable {schema : Schema} {state : TableState}
variable {row i : Nat} {state' : TableState} {strings : StringTable}

theorem CellSet.getD {cell : Nat} (cellSet : CellSet state row i cell state') (other : Nat) :
    state'.rows.getD other [] =
      if row = other then (state.rows.getD other []).set i cell else state.rows.getD other [] := by
  rw [cellSet.rows, getD_eq_getElem?_getD, getD_eq_getElem?_getD, getElem?_modify]
  split
  · cases state.rows[other]? with
    | none | some cells => rfl
  · simp

theorem CellSet.length {cell : Nat} (cellSet : CellSet state row i cell state') (other : Nat) :
    (state'.rows.getD other []).length = (state.rows.getD other []).length := by
  rw [cellSet.getD]
  split
  · exact length_set
  · rfl

theorem CellSet.cell {cell : Nat} (cellSet : CellSet state row i cell state')
    (isCell : i < (state.rows.getD row []).length) (j : Nat) :
    state'.cell row j = if i = j then cell else state.cell row j := by
  rw [TableState.cell, cellSet.getD, if_pos rfl, TableState.cell]
  generalize state.rows.getD row [] = cells at *
  rw [getD_eq_getElem?_getD, getD_eq_getElem?_getD, getElem?_set]
  split <;> rfl

theorem addstringW_field (schema : Schema) (wellFormed : strings.WellFormed) (field : Field)
    (persistence : Persistence) :
    (∃ str, str ≠ [] ∧ field = .wstr str ∧
      strings.Added schema.collation str
        (strings.addstringW schema.collation field.getString persistence).1
        (strings.addstringW schema.collation field.getString persistence).2) ∨
    ((∀ str, field = .wstr str → str = []) ∧
      strings.addstringW schema.collation field.getString persistence = (strings, 0)) := by
  match field with
  | .wstr [] => exact .inr ⟨fun str isStr => (Field.wstr.inj isStr).symm, rfl⟩
  | .wstr (char :: rest) =>
    exact .inl ⟨_, cons_ne_nil _ _, rfl, wellFormed.addstringW (cons_ne_nil _ _) _⟩
  | .null | .int _ | .stream => exact .inr ⟨nofun, rfl⟩

theorem columnValue_extends (schema : Schema) (wellFormed : strings.WellFormed) (column : Column)
    (field : Field) (persistence : Persistence) :
    (schema.columnValue strings column field persistence).1.WellFormed ∧
      strings.Extends schema.collation (schema.columnValue strings column field persistence).1 ∧
      (strings.Distinct schema.collation →
        (schema.columnValue strings column field persistence).1.Distinct schema.collation) := by
  unfold columnValue
  -- only a string adds to the pool
  split_ifs <;> try exact ⟨wellFormed, .refl .., id⟩
  obtain ⟨_, -, -, added⟩ | ⟨-, nothing⟩ := schema.addstringW_field wellFormed field persistence
  · exact ⟨added.wellFormed, added.extended, added.distinct⟩
  · rw [nothing]
    exact ⟨wellFormed, .refl .., id⟩

/-- The string pool after the fields of so many columns from a column on. -/
def poolAfter (schema : Schema) (record : Record) (persistence : Persistence) :
    StringTable → Nat → Nat → StringTable
  | strings, _, 0 => strings
  | strings, i, count + 1 =>
    poolAfter schema record persistence
      (schema.columnValue strings (schema.column i) (record.field (i + 1)) persistence).1
      (i + 1) count

theorem poolAfter_extends (schema : Schema) (record : Record) (persistence : Persistence)
    (count i : Nat) (wellFormed : strings.WellFormed) :
    (schema.poolAfter record persistence strings i count).WellFormed ∧
      strings.Extends schema.collation (schema.poolAfter record persistence strings i count) ∧
      (strings.Distinct schema.collation →
        (schema.poolAfter record persistence strings i count).Distinct schema.collation) := by
  induction count generalizing strings i with
  | zero => exact ⟨wellFormed, .refl .., id⟩
  | succ _ ih =>
    obtain ⟨first, extended, distinct⟩ := schema.columnValue_extends wellFormed
      (schema.column i) (record.field (i + 1)) persistence
    obtain ⟨last, more, distinctLast⟩ := ih (i + 1) first
    exact ⟨last, extended.trans more, distinctLast ∘ distinct⟩

theorem poolAfter_succ (record : Record) (persistence : Persistence) (count : Nat)
    (strings : StringTable) (i : Nat) :
    schema.poolAfter record persistence strings i (count + 1) =
      (schema.columnValue (schema.poolAfter record persistence strings i count)
        (schema.column (i + count)) (record.field (i + count + 1)) persistence).1 := by
  induction count generalizing strings i with
  | zero => rfl
  | succ count ih =>
    rw [poolAfter, ih, Nat.add_right_comm i 1 count]
    rfl

theorem poolAfter_mono (wellFormed : strings.WellFormed) (record : Record)
    (persistence : Persistence) (i first count : Nat) :
    (schema.poolAfter record persistence strings i first).Extends schema.collation
      (schema.poolAfter record persistence strings i (first + count)) := by
  induction count with
  | zero => exact .refl ..
  | succ _ ih =>
    rw [← Nat.add_assoc, poolAfter_succ]
    exact ih.trans (schema.columnValue_extends
      (schema.poolAfter_extends record persistence _ i wellFormed).1 ..).2.1

/-- What is in the pool after a column stays there for the columns behind it. -/
theorem columnValue_later (wellFormed : strings.WellFormed) (record : Record)
    (persistence : Persistence) (inTable : i < schema.columns.length) :
    (schema.columnValue (schema.poolAfter record persistence strings 0 i) (schema.column i)
      (record.field (i + 1)) persistence).1.Extends schema.collation
        (schema.poolAfter record persistence strings 0 schema.columns.length) := by
  have more := schema.poolAfter_mono wellFormed record persistence 0 (i + 1)
    (schema.columns.length - (i + 1))
  rw [Nat.add_sub_cancel' inTable, poolAfter_succ, Nat.zero_add] at more
  exact more

variable {field : Field} {mask : Nat}

theorem not_kept_of_zero (unsorted : schema.order = none) (wellFormed : state.strings.WellFormed)
    (inTable : i < schema.columns.length) (isRow : row < state.rows.length)
    (supported : schema.Supported (schema.column i)) (isZero : state.cell row i = 0) :
    ¬schema.Kept state row i field := by
  rintro ⟨-, -, -, known⟩
  rw [fetchInt_supported unsorted inTable isRow supported, ← TableState.cell, isZero] at known
  obtain ⟨id, found, isZero⟩ := Option.map_eq_some_iff.mp known
  cases isZero
  cases isString : field.getString <;> rw [isString] at found
  · cases found
  · exact absurd (wellFormed.canonical found).1 (Nat.lt_irrefl 0)

theorem setColumns_fresh (unsorted : schema.order = none) (record : Record)
    (allMasked : ∀ i < schema.columns.length, mask &&& maskBit i ≠ 0) (persistence : Persistence)
    (count i : Nat) (state : TableState) (covered : i + count = schema.columns.length)
    (isRow : row < state.rows.length)
    (cells : (state.rows.getD row []).length = schema.columns.length)
    (zero : ∀ j, i ≤ j → state.cell row j = 0) (wellFormed : state.strings.WellFormed)
    (isPersistence : schema.persistenceOf state row = persistence)
    (succeeds : (schema.setColumns row record mask count i state).2 = .ok ()) :
    (schema.setColumns row record mask count i state).1.strings =
        schema.poolAfter record persistence state.strings i count ∧
      (∀ j < i, (schema.setColumns row record mask count i state).1.cell row j =
        state.cell row j) ∧
      ∀ k < count, schema.Supported (schema.column (i + k)) ∧
        (schema.setColumns row record mask count i state).1.cell row (i + k) =
          (schema.columnValue (schema.poolAfter record persistence state.strings i k)
            (schema.column (i + k)) (record.field (i + k + 1)) persistence).2 %
              256 ^ schema.bytesPerColumn (schema.column (i + k)) := by
  induction count generalizing i state with
  | zero => exact ⟨rfl, fun _ _ => rfl, nofun⟩
  | succ _ ih =>
    have isColumn : i < schema.columns.length := by omega
    rw [setColumns, if_neg (allMasked i isColumn)] at succeeds ⊢
    by_cases refuses : schema.Refuses (schema.column i) (record.field (i + 1))
    · obtain ⟨strings, -, failed⟩ := setColumn_refused isColumn isRow refuses
      rw [failed] at succeeds
      cases succeeds
    have supported : schema.Supported (schema.column i) := not_not.mp (not_or.mp refuses).1
    obtain ⟨kept, -⟩ | ⟨-, state', set, strings, cellSet⟩ :=
      setColumn_accepted isColumn isRow refuses
    · exact absurd kept
        (not_kept_of_zero unsorted wellFormed isColumn isRow supported (zero i le_rfl))
    rw [set] at succeeds ⊢
    rw [isPersistence] at strings cellSet
    have cell := cellSet.cell (by omega)
    have counts : SameCounts state state' := ⟨cellSet.data, cellSet.nonpersistentData⟩
    obtain ⟨pool, before, after⟩ := ih (i + 1) state' (by omega)
      (counts.rows ▸ isRow) (by rw [cellSet.length, cells])
      (fun j least => by rw [cell, if_neg (by omega), zero j (by omega)])
      (strings ▸ (schema.columnValue_extends wellFormed ..).1)
      (by rw [persistenceOf, counts.data, ← persistenceOf, isPersistence]) succeeds
    rw [strings] at pool after
    refine ⟨pool, fun j less => ?_, fun k less => ?_⟩
    · rw [before j (by omega), cell, if_neg (by omega)]
    · cases k with
      | zero => exact ⟨supported, (before i (by omega)).trans ((cell i).trans (if_pos rfl))⟩
      | succ k =>
        have next := after k (by omega)
        rw [show i + 1 + k = i + (k + 1) by omega] at next
        exact next

/-- By how much the integers of a column are moved. -/
def bias (column : Column) : UInt32 :=
  if column.dataSize = 2 then 0x8000 else 0x80000000

/-- Turning the highest bit around is adding it. -/
theorem xor_highest (value : UInt32) : value ^^^ 0x80000000 = value + 0x80000000 := by
  have small : value.toNat < 2 ^ 32 := value.toNat_lt
  apply UInt32.toNat_inj.mp
  rw [UInt32.toNat_xor, UInt32.toNat_add, show (0x80000000 : UInt32).toNat = 2 ^ 31 from rfl,
    Nat.add_comm]
  refine Nat.eq_of_testBit_eq fun j => ?_
  rw [Nat.testBit_xor, Nat.testBit_two_pow, Nat.testBit_mod_two_pow]
  rcases Nat.lt_trichotomy j 31 with less | rfl | more
  · simp [Nat.testBit_two_pow_add_gt less, show 31 ≠ j by omega, show j < 32 by omega]
  · rw [Nat.testBit_two_pow_add_eq]
    simp
  · have high : value.toNat.testBit j = false :=
      Nat.testBit_lt_two_pow (small.trans_le (Nat.pow_le_pow_right (by decide) more))
    simp [high, show 31 ≠ j by omega, show ¬j < 32 by omega]

section Integer

variable {column : Column} (notBinary : column.isBinary = false)
variable (notString : column.isString = false)
include notBinary notString

theorem bytesPerColumn_integer : schema.bytesPerColumn column = column.dataSize := by
  simp [bytesPerColumn, Column.bytes, notBinary, notString]

theorem columnValue_integer (notNull : field.isNull = false) (strings : StringTable)
    (persistence : Persistence) :
    (schema.columnValue strings column field persistence).2 =
      (field.getInteger + bias column).toNat := by
  rw [columnValue, bias, bytesPerColumn_integer notBinary notString]
  by_cases two : column.dataSize = 2
  · simp [notNull, notBinary, notString, two, UInt32.add_comm]
  · simp [notNull, notBinary, notString, two, ← xor_highest]

end Integer

/-- How the strings of a new row are counted. -/
def newPersistence (schema : Schema) (temporary : Bool) : Persistence :=
  if schema.persistent ∧ ¬temporary then .persistent else .nonpersistent

section ReadField

variable {row i : Nat} (unsorted : schema.order = none) (inTable : i < schema.columns.length)
variable (isRow : row < state.rows.length) (supported : schema.Supported (schema.column i))
variable (notBinary : (schema.column i).isBinary = false)
include unsorted inTable isRow supported notBinary

variable {field : Field}

end ReadField

theorem createNewRow_getD (schema : Schema) (state : TableState) (temporary : Bool) :
    (schema.createNewRow state temporary).1.rows.getD
      (schema.createNewRow state temporary).2 [] = .replicate schema.columns.length 0 := by
  unfold createNewRow
  cases temporary with
  | false => simp [TableState.rows, getD_eq_getElem?_getD]
  | true =>
    simp [TableState.rows, ← append_assoc, ← length_append, getElem?_concat_length]

theorem createNewRow_strings (schema : Schema) (state : TableState) (temporary : Bool) :
    (schema.createNewRow state temporary).1.strings = state.strings := by
  cases temporary <;> rfl

theorem createNewRow_cell (schema : Schema) (state : TableState) (temporary : Bool) (i : Nat) :
    (schema.createNewRow state temporary).1.cell (schema.createNewRow state temporary).2 i = 0 := by
  rw [TableState.cell, createNewRow_getD]
  simp only [getD_eq_getElem?_getD, getElem?_replicate]
  split <;> rfl

/-- All fields of a record are set in a new row. -/
def filled (schema : Schema) (state : TableState) (record : Record) (temporary : Bool) :
    TableState × Except Failure Unit :=
  schema.setColumns (schema.createNewRow state temporary).2 record
    (maskBit schema.columns.length - 1) schema.columns.length 0
    (schema.createNewRow state temporary).1

theorem filled_values (unsorted : schema.order = none) (few : schema.columns.length < 32)
    (wellFormed : state.strings.WellFormed) {record : Record} {temporary : Bool}
    (succeeds : (schema.filled state record temporary).2 = .ok ()) :
    (schema.filled state record temporary).1.strings = schema.poolAfter record
        (schema.newPersistence temporary) state.strings 0 schema.columns.length ∧
      ∀ i < schema.columns.length, schema.Supported (schema.column i) ∧
        (schema.filled state record temporary).1.cell (schema.createNewRow state temporary).2 i =
          (schema.columnValue
            (schema.poolAfter record (schema.newPersistence temporary) state.strings 0 i)
            (schema.column i) (record.field (i + 1)) (schema.newPersistence temporary)).2 %
              256 ^ schema.bytesPerColumn (schema.column i) := by
  have sameStrings := schema.createNewRow_strings state temporary
  have masked (j : Nat) (less : j < schema.columns.length) :
      maskBit schema.columns.length - 1 &&& maskBit j ≠ 0 := by
    rw [masked_iff]
    omega
  obtain ⟨pool, -, cells⟩ := setColumns_fresh unsorted record masked
    (schema.newPersistence temporary) schema.columns.length 0 _ (by omega)
    (schema.createNewRow_lt state temporary) (by rw [createNewRow_getD, length_replicate])
    (fun j _ => schema.createNewRow_cell state temporary j) (by rwa [sameStrings])
    (by unfold persistenceOf newPersistence createNewRow; cases temporary <;> simp) succeeds
  simp only [sameStrings, Nat.zero_add] at pool cells
  exact ⟨pool, cells⟩

/-- What reading back relies on: the view is not sorted, `lstrcmpW` compares plainly, each
string is in the pool once, and the counts of references have room. -/
structure Ready (schema : Schema) (state : TableState) : Prop where
  unsorted : schema.order = none
  plain : schema.collation = identity
  wellFormed : state.strings.WellFormed
  distinct : state.strings.Distinct schema.collation
  counts : state.strings.Roomy

theorem noRows_wellFormed : noRows.strings.WellFormed :=
  ⟨by decide, nofun⟩

/-- Two strings in an empty table. -/
theorem addAll_known_two :
    noRows.strings.Extends identity
      (.addAll identity noRows.strings [([0x41], .persistent), ([0x42], .nonpersistent)]) :=
  (StringTable.addAll_known noRows_wellFormed (by decide)).1

end Schema

end Winex.Msi
