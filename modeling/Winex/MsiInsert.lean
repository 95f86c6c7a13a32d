import Mathlib.Data.List.Basic
import Mathlib.Data.Nat.Bitwise
import Winex.MsiTable

namespace Winex.Msi

/-!
# Inserting rows

What setting one column does, what setting a row does from column to column, and when an
insertion that fails has left its traces.
-/

namespace Schema

variable {schema : Schema} {state : TableState}

/-- One cell of a row has a new value. -/
structure CellSet (state : TableState) (row i cell : Nat) (state' : TableState) : Prop where
  rows : state'.rows = state.rows.modify row fun cells => cells.set i cell
  data : state'.data.length = state.data.length
  nonpersistentData : state'.nonpersistentData.length = state.nonpersistentData.length

variable {row i : Nat}

/-- `TABLE_set_int` sets a cell whose size it knows. -/
theorem setInt_supported (state : TableState) (inTable : i < schema.columns.length)
    (isRow : row < state.rows.length) (supported : schema.Supported (schema.column i)) (val : Nat) :
    ∃ state', schema.setInt state row (i + 1) val = .ok state' ∧
      state'.strings = state.strings ∧
      CellSet state row i (val % 256 ^ schema.bytesPerColumn (schema.column i)) state' := by
  rw [setInt, if_neg (by omega), if_neg (by omega), Nat.add_sub_cancel,
    if_neg (not_not.mpr supported)]
  split
  next isTemporary =>
    refine ⟨_, rfl, rfl, ?_, rfl, List.length_modify ..⟩
    refine List.ext_getElem? fun k => ?_
    simp only [TableState.rows, List.getElem?_append, List.getElem?_modify]
    grind
  next isPersistent =>
    refine ⟨_, rfl, rfl, ?_, List.length_modify .., rfl⟩
    refine List.ext_getElem? fun k => ?_
    simp only [TableState.rows, List.getElem?_append, List.getElem?_modify]
    grind

theorem fetchInt_supported (unsorted : schema.order = none) (inTable : i < schema.columns.length)
    (isRow : row < state.rows.length) (supported : schema.Supported (schema.column i)) :
    schema.fetchInt state row (i + 1) = .ok ((state.rows.getD row []).getD i 0) := by
  rw [fetchInt, if_neg (by omega), if_neg (by omega), Nat.add_sub_cancel,
    if_neg (not_not.mpr supported), storedRow, unsorted]

/-- The value that `TABLE_set_row` stores for a field, and the string pool after it. -/
def columnValue (schema : Schema) (strings : StringTable) (column : Column) (field : Field)
    (persistence : Persistence) : StringTable × Nat :=
  if field.isNull then (strings, 0)
  else if column.isBinary then (strings, 1)
  else if column.isString then
    strings.addstringW schema.collation field.getString persistence
  else if schema.bytesPerColumn column = 2 then (strings, (0x8000 + field.getInteger).toNat)
  else (strings, (field.getInteger ^^^ 0x80000000).toNat)

/-- An integer that does not fit into two bytes. -/
def OutOfRange (schema : Schema) (column : Column) (field : Field) : Prop :=
  field.isNull = false ∧ column.isBinary = false ∧ column.isString = false ∧
    schema.bytesPerColumn column = 2 ∧ (0x8000 + field.getInteger) &&& 0xffff0000 ≠ 0

instance (schema : Schema) (column : Column) (field : Field) :
    Decidable (schema.OutOfRange column field) :=
  inferInstanceAs (Decidable (_ ∧ _))

/-- The columns that `TABLE_set_row` does not set: those of a size it does not know, and
those of two bytes if the field does not fit. -/
def Refuses (schema : Schema) (column : Column) (field : Field) : Prop :=
  ¬schema.Supported column ∨ schema.OutOfRange column field

instance (schema : Schema) (column : Column) (field : Field) :
    Decidable (schema.Refuses column field) :=
  inferInstanceAs (Decidable (_ ∨ _))

/-- How the strings of a row are counted. -/
def persistenceOf (schema : Schema) (state : TableState) (row : Nat) : Persistence :=
  if schema.persistent ∧ row < state.data.length then .persistent else .nonpersistent

/-- The cell has the string of the field already. -/
def Kept (schema : Schema) (state : TableState) (row i : Nat) (field : Field) : Prop :=
  field.isNull = false ∧ (schema.column i).isBinary = false ∧
    (schema.column i).isString = true ∧
    (state.strings.string2idW schema.collation field.getString).map .ok =
      some (schema.fetchInt state row (i + 1))

/-- The three ways through the body of the loop. -/
theorem setColumn_eq (schema : Schema) (state : TableState) (row i : Nat) (field : Field) :
    (schema.Kept state row i field ∧ schema.setColumn state row i field = (state, .ok ())) ∨
    (schema.OutOfRange (schema.column i) field ∧
      schema.setColumn state row i field = (state, .error .functionFailed)) ∨
    (¬schema.Kept state row i field ∧ ¬schema.OutOfRange (schema.column i) field ∧
      schema.setColumn state row i field =
        schema.store
          { state with
            strings := (schema.columnValue state.strings (schema.column i) field
              (schema.persistenceOf state row)).1 }
          row i
          (schema.columnValue state.strings (schema.column i) field
            (schema.persistenceOf state row)).2) := by
  unfold setColumn columnValue Kept OutOfRange persistenceOf
  dsimp only
  cases isNull : field.isNull with
  | true => simp
  | false =>
    cases isBinary : (schema.column i).isBinary with
    | true => simp
    | false =>
      cases isString : (schema.column i).isString with
      | true =>
        by_cases known : (state.strings.string2idW schema.collation field.getString).map
          .ok = some (schema.fetchInt state row (i + 1)) <;> simp [known]
      | false =>
        by_cases two : schema.bytesPerColumn (schema.column i) = 2
        · by_cases out : (0x8000 + field.getInteger) &&& 0xffff0000 ≠ 0 <;> simp [two, out]
        · simp [two]

section SetColumn

variable {row i : Nat} (inTable : i < schema.columns.length) (isRow : row < state.rows.length)
include inTable isRow

variable {field : Field}

theorem setColumn_refused (refuses : schema.Refuses (schema.column i) field) :
    ∃ strings, (strings = state.strings ∨
        strings = (schema.columnValue state.strings (schema.column i) field
          (schema.persistenceOf state row)).1) ∧
      schema.setColumn state row i field = ({ state with strings }, .error .functionFailed) := by
  obtain ⟨⟨-, -, isString, known⟩, -⟩ | ⟨-, refused⟩ | ⟨-, inRange, stored⟩ :=
    schema.setColumn_eq state row i field
  · -- a cell that was read has a size that is known
    obtain unsupported | ⟨-, -, notString, -⟩ := refuses
    · rw [fetchInt, if_neg (by omega), if_neg (by omega), Nat.add_sub_cancel,
        if_pos unsupported] at known
      cases isFound : state.strings.string2idW schema.collation field.getString with
      | none | some id =>
        rw [isFound] at known
        cases known
    · rw [isString] at notString
      cases notString
  · exact ⟨state.strings, .inl rfl, refused⟩
  · have unsupported := refuses.resolve_right inRange
    rw [stored]
    generalize schema.columnValue state.strings (schema.column i) field
      (schema.persistenceOf state row) = value
    rw [store, setInt, if_neg (by omega), if_neg (by exact isRow.not_ge), Nat.add_sub_cancel,
      if_pos unsupported]
    exact ⟨_, .inr rfl, rfl⟩

theorem setColumn_accepted (accepted : ¬schema.Refuses (schema.column i) field) :
    (schema.Kept state row i field ∧ schema.setColumn state row i field = (state, .ok ())) ∨
    (¬schema.Kept state row i field ∧
      ∃ state', schema.setColumn state row i field = (state', .ok ()) ∧
        state'.strings = (schema.columnValue state.strings (schema.column i) field
          (schema.persistenceOf state row)).1 ∧
        CellSet state row i
          ((schema.columnValue state.strings (schema.column i) field
            (schema.persistenceOf state row)).2 %
              256 ^ schema.bytesPerColumn (schema.column i)) state') := by
  obtain ⟨supported, inRange⟩ := not_or.mp accepted
  obtain kept | ⟨outOfRange, -⟩ | ⟨notKept, -, stored⟩ := schema.setColumn_eq state row i field
  · exact .inl kept
  · exact absurd outOfRange inRange
  · refine .inr ⟨notKept, ?_⟩
    generalize schema.columnValue state.strings (schema.column i) field
      (schema.persistenceOf state row) = value at *
    obtain ⟨state', set, sameStrings, cellSet⟩ := setInt_supported
      { state with strings := value.1 } inTable isRow (not_not.mp supported) value.2
    refine ⟨state', ?_, sameStrings, ⟨cellSet.rows, cellSet.data, cellSet.nonpersistentData⟩⟩
    rw [stored, store, set]

end SetColumn

/-- The numbers of rows of two states agree. -/
structure SameCounts (state state' : TableState) : Prop where
  data : state'.data.length = state.data.length
  nonpersistentData : state'.nonpersistentData.length = state.nonpersistentData.length

theorem SameCounts.rows {state' : TableState} (same : SameCounts state state') :
    state'.rows.length = state.rows.length := by
  rw [TableState.rows, TableState.rows, List.length_append, List.length_append, same.data,
    same.nonpersistentData]

variable (schema : Schema)

theorem setColumns_result {row : Nat} (record : Record) (mask count i : Nat) (state : TableState)
    (covered : i + count ≤ schema.columns.length) (isRow : row < state.rows.length) :
    SameCounts state (schema.setColumns row record mask count i state).1 ∧
      ((schema.setColumns row record mask count i state).2 ≠ .ok () ↔
        ∃ j ∈ List.range' i count, mask &&& maskBit j ≠ 0 ∧
          schema.Refuses (schema.column j) (record.field (j + 1))) := by
  induction count generalizing i state with
  | zero => exact ⟨⟨rfl, rfl⟩, by simp [setColumns]⟩
  | succ _ ih =>
    rw [setColumns, List.range'_succ, List.exists_mem_cons_iff]
    split
    next unmasked =>
      obtain ⟨same, fails⟩ := ih (i + 1) state (by omega) isRow
      exact ⟨same, fails.trans (or_iff_right fun both => both.1 unmasked).symm⟩
    rename_i masked
    by_cases refuses : schema.Refuses (schema.column i) (record.field (i + 1))
    · obtain ⟨_, -, failed⟩ := setColumn_refused (by omega) isRow refuses
      rw [failed]
      exact ⟨⟨rfl, rfl⟩, iff_of_true (fun ok => by cases ok) (.inl ⟨masked, refuses⟩)⟩
    rw [or_iff_right fun both => refuses both.2]
    obtain ⟨-, kept⟩ | ⟨-, state', set, -, cellSet⟩ :=
      setColumn_accepted (by omega) isRow refuses
    · rw [kept]
      exact ih (i + 1) state (by omega) isRow
    rw [set]
    have same : SameCounts state state' := ⟨cellSet.data, cellSet.nonpersistentData⟩
    obtain ⟨same', fails⟩ := ih (i + 1) state' (by omega) (same.rows ▸ isRow)
    exact ⟨⟨same'.data.trans same.data,
      same'.nonpersistentData.trans same.nonpersistentData⟩, fails⟩

theorem masked_iff (n i : Nat) : (maskBit n - 1) &&& maskBit i ≠ 0 ↔ i % 32 < n % 32 := by
  rw [maskBit, maskBit, Nat.and_two_pow, Nat.testBit_two_pow_sub_one]
  by_cases less : i % 32 < n % 32 <;> simp [less]

variable (state : TableState)

theorem setRow_all (row : Nat) (record : Record) :
    schema.setRow state row record (maskBit schema.columns.length - 1) =
      schema.setColumns row record (maskBit schema.columns.length - 1) schema.columns.length 0
        state := by
  refine if_neg ?_
  have positive : 0 < maskBit schema.columns.length := Nat.two_pow_pos _
  omega

theorem createNewRow_lt (temporary : Bool) :
    (schema.createNewRow state temporary).2 <
      (schema.createNewRow state temporary).1.rows.length := by
  unfold createNewRow
  cases temporary <;> simp [TableState.rows]

/-- The rows and the counts of references are the same. -/
structure Unchanged (state state' : TableState) : Prop where
  data : state'.data = state.data
  nonpersistentData : state'.nonpersistentData = state.nonpersistentData
  persistentRefcount : ∀ n, (state'.strings.entry n).persistentRefcount =
    (state.strings.entry n).persistentRefcount
  nonpersistentRefcount : ∀ n, (state'.strings.entry n).nonpersistentRefcount =
    (state.strings.entry n).nonpersistentRefcount

/-- An insertion that fails leaves no traces unless the record was found valid and one of
the columns that are set refuses its field. -/
theorem insertRow_unchanged_iff (record : Record)
    (temporary : Bool) :
    ((schema.insertRow state record temporary).2 ≠ .ok () →
      Unchanged state (schema.insertRow state record temporary).1) ↔
      ¬(schema.validateNew state record = .ok () ∧
        ∃ i < schema.columns.length, i % 32 < schema.columns.length % 32 ∧
          schema.Refuses (schema.column i) (record.field (i + 1))) := by
  cases isValid : schema.validateNew state record with
  | error =>
    simp only [insertRow, isValid]
    exact iff_of_true (fun _ => ⟨rfl, rfl, fun _ => rfl, fun _ => rfl⟩) fun both => by cases both.1
  | ok =>
    simp only [insertRow, isValid, setRow_all, true_and]
    obtain ⟨same, fails⟩ := schema.setColumns_result record
      (maskBit schema.columns.length - 1) schema.columns.length 0
      (schema.createNewRow state temporary).1 (by omega) (schema.createNewRow_lt state temporary)
    rw [fails, ← List.range_eq_range']
    simp only [List.mem_range, masked_iff]
    -- a row was added, so nothing that fails is unchanged
    have changed : ¬Unchanged state (schema.setColumns
        (schema.createNewRow state temporary).2 record (maskBit schema.columns.length - 1)
        schema.columns.length 0 (schema.createNewRow state temporary).1).1 := by
      intro unchanged
      have data := same.data
      have nonpersistentData := same.nonpersistentData
      rw [unchanged.data] at data
      rw [unchanged.nonpersistentData] at nonpersistentData
      cases temporary <;> simp [createNewRow] at data nonpersistentData
    exact imp_iff_not changed

/-- Strings that are equal only if they are the same. -/
def identity : Collation where
  equal first second := first == second
  refl str := beq_self_eq_true str
  symm same := beq_iff_eq.mpr (beq_iff_eq.mp same).symm
  trans same others := beq_iff_eq.mpr ((beq_iff_eq.mp same).trans (beq_iff_eq.mp others))

/-- A column with a key of two bytes. -/
def shortKeys : Schema where
  columns := [⟨0x2102⟩]
  persistent := true
  bytesPerStrref := 2
  strref := .inl rfl
  collation := identity

/-- An empty table. -/
def noRows : TableState :=
  ⟨⟨[default], 1, fun _ => []⟩, [], []⟩

/-- The number 40000 is refused for a column of two bytes, and a row of zeros stays. -/
theorem insertRow_leaves_row :
    (shortKeys.insertRow noRows ⟨[.int 40000]⟩ false).2 = .error .functionFailed ∧
    (shortKeys.insertRow noRows ⟨[.int 40000]⟩ false).1.data = [[0]] := by
  decide +kernel

end Schema

end Winex.Msi
