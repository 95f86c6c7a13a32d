import Mathlib.Data.List.Perm.Basic
import Winex.MsiReadBack

namespace Winex.Msi

open List Nat

/-!
# Keys

Before a row is inserted, `msi_record_to_row` turns its key fields into cells, which are
looked for; then `TABLE_set_row` turns the fields into cells again.  Where the two
agree, no two rows have the same key and each row is found by its key.
-/

namespace Schema

variable {schema : Schema} {state : TableState}

/-- Two rows agree on all key columns. -/
def SameKeys (schema : Schema) (cells cells' : List Nat) : Prop :=
  ∀ i < schema.columns.length, (schema.column i).isKey = true → cells.getD i 0 = cells'.getD i 0

/-- A value of a key column that is found again by what it is read as. -/
def KeyCell (schema : Schema) (strings : StringTable) (column : Column) (cell : Nat) : Prop :=
  if column.isString then
    ∃ str, str ≠ [] ∧ strings.stringLookupId cell = some str ∧
      strings.string2idW schema.collation (some str) = some cell
  else if column.dataSize = 2 then 0 < cell ∧ cell < 256 ^ 2
  else cell < 256 ^ column.dataSize

/-- A call that changes the table. -/
inductive Call where
  | insert (record : Record) (temporary : Bool)
  | delete (row : Nat)
  | update (record : Record) (row : Nat)

/-- The state after a call, whether it fails or not. -/
def call (schema : Schema) (state : TableState) : Call → TableState
  | .insert record temporary => (schema.insertRow state record temporary).1
  | .delete row => (state.deleteRow row).1
  | .update record row => (schema.tableUpdate state record row).1

/-- A key field whose two translations agree: a string with a reference that fits, or an
integer that fits and does not stand for null. -/
def GoodKey (schema : Schema) (before : StringTable) (persistence : Persistence) (column : Column)
    (field : Field) : Prop :=
  if column.isString then
    ∃ str, field = .wstr str ∧ str ≠ [] ∧
      (before.addstringW schema.collation (some str) persistence).2 < 256 ^ schema.bytesPerStrref
  else if column.dataSize = 2 then
    field.isNull = false ∧ 0 < (field.getInteger + bias column).toNat
  else
    (field.getInteger + bias column).toNat < 256 ^ column.dataSize

/-- The calls that keep the keys: not an insertion of a valid record that a column refuses,
whose keys are not good, or with more columns than the mask has bits.  The counts of
references have room. -/
def Meets (schema : Schema) (state : TableState) : Call → Prop
  | .insert record temporary =>
    schema.validateNew state record = .ok () →
      state.strings.Roomy ∧ schema.columns.length < 32 ∧
      ∀ i < schema.columns.length, ¬schema.Refuses (schema.column i) (record.field (i + 1)) ∧
        ((schema.column i).isKey = true →
          schema.GoodKey
            (schema.poolAfter record (schema.newPersistence temporary) state.strings 0 i)
            (schema.newPersistence temporary) (schema.column i) (record.field (i + 1)))
  | .delete _ => True
  | .update _ _ => state.strings.Roomy

/-- The states of runs that begin with an empty table and whose calls all keep the keys. -/
inductive Reached (schema : Schema) : TableState → Prop where
  | empty {strings : StringTable} : strings.WellFormed → Reached schema ⟨strings, [], []⟩
  | call {state : TableState} (call : Call) : Reached schema state → schema.Meets state call →
      Reached schema (schema.call state call)

/-- What all these states have in common. -/
structure KeysGood (schema : Schema) (state : TableState) : Prop where
  unsorted : schema.order = none
  wellFormed : state.strings.WellFormed
  lengths : ∀ cells ∈ state.rows, cells.length = schema.columns.length
  supported : ∀ cells ∈ state.rows, ∀ i < schema.columns.length, schema.Supported (schema.column i)
  keyCells : ∀ cells ∈ state.rows, ∀ i < schema.columns.length,
    (schema.column i).isKey = true → schema.KeyCell state.strings (schema.column i) (cells.getD i 0)
  distinct : state.rows.Pairwise fun cells cells' => ¬schema.SameKeys cells cells'

variable {column : Column} {strings : StringTable} {cell row i : Nat} {record : Record}
variable {state' : TableState} {field : Field} {before : StringTable} {persistence : Persistence}

variable (isKey : column.isKey = true)
include isKey

theorem isBinary_of_isKey : column.isBinary = false := by
  rw [Column.isBinary, decide_eq_false_iff_not]
  intro isBinary
  have key : column.type &&& 0x2000 = (column.type &&& 0xffffefff) &&& 0x2000 := by
    rw [UInt32.and_assoc]
    rfl
  rw [isBinary] at key
  rw [Column.isKey, decide_eq_true_eq] at isKey
  exact isKey key

theorem keyValue_integer (notString : column.isString = false) (field : Field) :
    schema.keyValue state column field = some (field.getInteger + bias column).toNat := by
  rw [keyValue, if_neg (not_not.mpr isKey), if_neg (by rw [notString]; simp), bias]
  split <;> rfl

theorem keyValue_string (isString : column.isString = true) (field : Field) :
    schema.keyValue state column field =
      state.strings.string2idW schema.collation field.getString := by
  rw [keyValue, if_neg (not_not.mpr isKey), if_pos ⟨isString, by
    rw [isBinary_of_isKey isKey]; decide⟩]

theorem bytesPerColumn_key (notString : column.isString = false) :
    schema.bytesPerColumn column = column.dataSize :=
  bytesPerColumn_integer (isBinary_of_isKey isKey) notString

theorem KeyCell.lt (notString : column.isString = false)
    (supported : schema.Supported column) (keyCell : schema.KeyCell strings column cell) :
    cell < 256 ^ column.dataSize ∧ cell < 2 ^ 32 := by
  rw [KeyCell, if_neg (by rw [notString]; decide)] at keyCell
  rw [Supported, bytesPerColumn_key isKey notString] at supported
  have fits : cell < 256 ^ column.dataSize := by
    split at keyCell
    next two => exact two ▸ keyCell.2
    · exact keyCell
  refine ⟨fits, fits.trans_le ?_⟩
  rcases supported with size | size | size <;>
    rw [size] <;> decide

omit isKey

theorem mapM_cases {α β : Type} (f : α → Option β) (list : List α) :
    (∃ data, list.mapM f = some data ∧ list.map f = data.map some) ∨
      (list.mapM f = none ∧ ∃ first ∈ list, f first = none) := by
  induction list with
  | nil => exact .inl ⟨[], rfl, rfl⟩
  | cons first rest ih =>
    rw [mapM_cons]
    cases isValue : f first with
    | none => exact .inr ⟨rfl, first, .head _, isValue⟩
    | some value =>
      obtain ⟨data, isData, same⟩ | ⟨isNone, other, mem, fails⟩ := ih
      · exact .inl ⟨value :: data, by rw [isData]; rfl, by rw [map_cons, isValue, same]; rfl⟩
      · exact .inr ⟨by rw [isNone]; rfl, other, .tail _ mem, fails⟩

theorem recordToRow_cases (schema : Schema) (state : TableState) (record : Record) :
    (∃ data, schema.recordToRow state record = some data ∧
      ∀ i < schema.columns.length,
        schema.keyValue state (schema.column i) (record.field (i + 1)) = some (data.getD i 0)) ∨
    (schema.recordToRow state record = none ∧
      ∃ i < schema.columns.length, (schema.column i).isKey = true ∧
        schema.keyValue state (schema.column i) (record.field (i + 1)) = none) := by
  obtain ⟨data, isData, same⟩ | ⟨isNone, i, mem, fails⟩ := mapM_cases
    (fun i => schema.keyValue state (schema.column i) (record.field (i + 1)))
    (range schema.columns.length)
  · refine .inl ⟨data, isData, fun i inTable => ?_⟩
    have value := congrArg (·[i]?) same
    simp only [getElem?_map, getElem?_range inTable, Option.map_some] at value
    obtain ⟨cell, isCell, isValue⟩ := Option.map_eq_some_iff.mp value.symm
    rw [← isValue, getD_eq_getElem?_getD, isCell]
    rfl
  · refine .inr ⟨isNone, i, mem_range.mp mem, not_not.mp fun notKey => ?_, fails⟩
    rw [keyValue, if_pos notKey] at fails
    cases fails

variable (unsorted : schema.order = none) (isRow : row < state.rows.length)
include unsorted isRow

variable (supported : ∀ i < schema.columns.length, schema.Supported (schema.column i))
include supported

/-- The loop of `msi_row_matches` over columns of known sizes. -/
theorem matchColumns_iff (data : List Nat) (count i : Nat) (ret : Bool)
    (covered : i + count = schema.columns.length) :
    schema.matchColumns state row data count i ret = true ↔
      (∀ j ∈ range' i count, (schema.column j).isKey = true → state.cell row j = data.getD j 0) ∧
        (ret = true ∨ ∃ j ∈ range' i count, (schema.column j).isKey = true) := by
  induction count generalizing i ret with
  | zero => simp [matchColumns]
  | succ _ ih =>
    rw [matchColumns, range'_succ, forall_mem_cons, exists_mem_cons_iff]
    have next (ret : Bool) := ih (i + 1) ret (by omega)
    by_cases isKey : (schema.column i).isKey = true
    · rw [if_neg (not_not.mpr isKey),
        fetchInt_supported unsorted (by omega) isRow (supported i (by omega)), ← TableState.cell]
      dsimp only
      by_cases same : state.cell row i = data.getD i 0
      · rw [if_neg (not_not.mpr same), next]
        simp [isKey, same]
      · rw [if_pos same]
        exact iff_of_false (by simp) fun both => same (both.1.1 isKey)
    · rw [if_pos isKey, next]
      simp [isKey]

theorem rowMatches_iff
    (hasKey : ∃ i < schema.columns.length, (schema.column i).isKey = true) (data : List Nat) :
    schema.rowMatches state row data = true ↔ schema.SameKeys (state.rows.getD row []) data := by
  rw [rowMatches, matchColumns_iff unsorted isRow supported data _ 0 _ (zero_add _),
    ← range_eq_range']
  simp only [mem_range]
  exact and_iff_left (.inr hasKey)

omit unsorted supported

theorem getD_mem : state.rows.getD row [] ∈ state.rows := by
  rw [getD_eq_getElem _ _ isRow]
  exact getElem_mem isRow

theorem getD_set_self (cells : List Nat) : (state.rows.set row cells).getD row [] = cells := by
  rw [getD_eq_getElem?_getD, getElem?_set_self isRow]
  rfl

variable (good : schema.KeysGood state)
variable (hasKey : ∃ i < schema.columns.length, (schema.column i).isKey = true)

include good in
theorem KeysGood.unique {row' : Nat} (isRow' : row' < state.rows.length)
    (same : schema.SameKeys (state.rows.getD row []) (state.rows.getD row' [])) : row = row' := by
  have distinct := pairwise_iff_getElem.mp good.distinct
  rw [getD_eq_getElem _ _ isRow, getD_eq_getElem _ _ isRow'] at same
  rcases lt_trichotomy row row' with less | equal | more
  · exact absurd same (distinct row row' isRow isRow' less)
  · exact equal
  · exact absurd (fun i inTable isKey => (same i inTable isKey).symm)
      (distinct row' row isRow' isRow more)

omit isRow

include good hasKey in
theorem of_findRow (isFound : schema.findRow state record = .ok row) :
    row < state.rows.length ∧
      ∀ i < schema.columns.length, (schema.column i).isKey = true →
        schema.keyValue state (schema.column i) (record.field (i + 1)) =
          some (state.cell row i) := by
  rw [findRow] at isFound
  obtain ⟨data, translated, values⟩ | ⟨translated, -⟩ := schema.recordToRow_cases state record
  · rw [translated] at isFound
    dsimp only at isFound
    split at isFound
    · cases isFound
    rename_i isRow'
    cases isFound
    have isRow := mem_range.mp (mem_of_find?_eq_some isRow')
    refine ⟨isRow, fun i inTable isKey => ?_⟩
    have isMatch := find?_some (p := fun other => schema.rowMatches state other data) isRow'
    rw [rowMatches_iff good.unsorted isRow (good.supported _ (getD_mem isRow)) hasKey] at isMatch
    rw [values i inTable, TableState.cell, isMatch i inTable isKey]
  · rw [translated] at isFound
    cases isFound

include good hasKey in
theorem of_not_findRow {failure : Failure} (notFound : schema.findRow state record = .error failure)
    (isRow : row < state.rows.length) :
    ∃ i < schema.columns.length, (schema.column i).isKey = true ∧
      schema.keyValue state (schema.column i) (record.field (i + 1)) ≠ some (state.cell row i) := by
  by_contra all
  push Not at all
  rw [findRow] at notFound
  obtain ⟨data, translated, values⟩ | ⟨-, i, inTable, isKey, isNone⟩ :=
    schema.recordToRow_cases state record
  · have isMatch : schema.rowMatches state row data = true := by
      rw [rowMatches_iff good.unsorted isRow (good.supported _ (getD_mem isRow)) hasKey]
      intro i inTable isKey
      have same := (values i inTable).symm.trans (all i inTable isKey)
      exact (Option.some.inj same).symm
    rw [translated] at notFound
    dsimp only at notFound
    split at notFound
    next isNone => exact find?_eq_none.mp isNone row (mem_range.mpr isRow) isMatch
    · cases notFound
  · rw [all i inTable isKey] at isNone
    cases isNone

theorem KeyCell.extended {strings' : StringTable} (keyCell : schema.KeyCell strings column cell)
    (extended : strings.Extends schema.collation strings') :
    schema.KeyCell strings' column cell := by
  unfold KeyCell at keyCell ⊢
  split_ifs at keyCell ⊢
  · obtain ⟨str, notEmpty, lookup, found⟩ := keyCell
    exact ⟨str, notEmpty, extended.lookup _ _ lookup, extended.string2idW _ _ found⟩
  all_goals exact keyCell

include good in
theorem KeysGood.sublist (strings : state'.strings = state.strings)
    (rows : state'.rows.Sublist state.rows) : schema.KeysGood state' where
  unsorted := good.unsorted
  wellFormed := strings ▸ good.wellFormed
  lengths cells mem := good.lengths cells (rows.subset mem)
  supported cells mem := good.supported cells (rows.subset mem)
  keyCells cells mem i inTable isKey :=
    strings ▸ good.keyCells cells (rows.subset mem) i inTable isKey
  distinct := good.distinct.sublist rows

include good in
theorem KeysGood.deleteRow (row : Nat) : schema.KeysGood (state.deleteRow row).1 := by
  unfold TableState.deleteRow
  split
  · exact good
  split
  · exact good.sublist rfl ((eraseIdx_sublist ..).append (.refl _))
  · exact good.sublist rfl ((List.Sublist.refl _).append (eraseIdx_sublist ..))

variable (wellFormed : state'.strings.WellFormed)
include wellFormed

variable (extended : state.strings.Extends schema.collation state'.strings)
include extended

include good in
/-- A row with another key may be put in anywhere. -/
theorem KeysGood.cons (cells : List Nat)
    (rows : state'.rows.Perm (cells :: state.rows)) (length : cells.length = schema.columns.length)
    (supported : ∀ i < schema.columns.length, schema.Supported (schema.column i))
    (keyCells : ∀ i < schema.columns.length, (schema.column i).isKey = true →
      schema.KeyCell state'.strings (schema.column i) (cells.getD i 0))
    (distinct : ∀ others ∈ state.rows, ¬schema.SameKeys cells others) : schema.KeysGood state' where
  unsorted := good.unsorted
  wellFormed := wellFormed
  lengths others mem := by
    obtain rfl | old := mem_cons.mp (rows.subset mem)
    · exact length
    · exact good.lengths others old
  supported _ _ := supported
  keyCells others mem i inTable isKey := by
    obtain rfl | old := mem_cons.mp (rows.subset mem)
    · exact keyCells i inTable isKey
    · exact (good.keyCells others old i inTable isKey).extended extended
  distinct := by
    rw [rows.pairwise_iff fun notSame same => notSame fun i inTable isKey =>
      (same i inTable isKey).symm]
    exact .cons distinct good.distinct

include good in
theorem KeysGood.set (isRow : row < state.rows.length) {cells : List Nat}
    (rows : state'.rows = state.rows.set row cells) (length : cells.length = schema.columns.length)
    (same : schema.SameKeys cells (state.rows.getD row [])) : schema.KeysGood state' := by
  have isOld := getD_eq_getElem _ [] isRow
  have mem := getD_mem isRow
  have others : state.rows.Perm (state.rows.getD row [] :: state.rows.eraseIdx row) :=
    isOld ▸ (getElem_cons_eraseIdx_perm isRow).symm
  have distinct := (others.pairwise_iff fun notSame same => notSame fun i inTable isKey =>
    (same i inTable isKey).symm).mp good.distinct
  have without : schema.KeysGood ⟨state.strings, state.rows.eraseIdx row, []⟩ :=
    good.sublist rfl (by
      rw [TableState.rows, append_nil]
      exact eraseIdx_sublist ..)
  refine without.cons wellFormed extended cells ?_ length (good.supported _ mem)
    (fun i inTable isKey => ?_) fun other isOther sameOther => ?_
  · rw [rows]
    exact (set_perm_cons_eraseIdx isRow cells).trans
      (.of_eq (congrArg (cells :: ·) (append_nil _).symm))
  · rw [same i inTable isKey]
    exact (good.keyCells _ mem i inTable isKey).extended extended
  · rw [TableState.rows, append_nil] at isOther
    refine rel_of_pairwise_cons distinct isOther fun i inTable isKey => ?_
    rw [← same i inTable isKey, sameOther i inTable isKey]

/-- One row changes, and strings are added. -/
structure ChangesRow (schema : Schema) (row : Nat) (state state' : TableState) : Prop where
  wellFormed : state'.strings.WellFormed
  extended : state.strings.Extends schema.collation state'.strings
  rows : ∃ cells, state'.rows = state.rows.set row cells ∧
    cells.length = (state.rows.getD row []).length

theorem ChangesRow.of_same (isRow : row < state.rows.length) (same : state'.rows = state.rows) :
    schema.ChangesRow row state state' := by
  refine ⟨wellFormed, extended, state.rows.getD row [], ?_, rfl⟩
  rw [same, getD_eq_getElem _ _ isRow]
  exact (set_getElem_self isRow).symm

omit wellFormed

omit extended

theorem setColumn_frame (schema : Schema) (wellFormed : state.strings.WellFormed)
    (inTable : i < schema.columns.length) (isRow : row < state.rows.length) (field : Field) :
    schema.ChangesRow row state (schema.setColumn state row i field).1 := by
  have value := schema.columnValue_extends wellFormed (schema.column i) field
    (schema.persistenceOf state row)
  by_cases refuses : schema.Refuses (schema.column i) field
  · obtain ⟨strings, isStrings, refused⟩ := setColumn_refused inTable isRow refuses
    rw [refused]
    obtain rfl | rfl := isStrings
    · exact .of_same wellFormed (.refl ..) isRow rfl
    · exact .of_same value.1 value.2.1 isRow rfl
  obtain ⟨-, kept⟩ | ⟨-, _, set, strings, cellSet⟩ :=
    setColumn_accepted inTable isRow refuses
  · rw [kept]
    exact .of_same wellFormed (.refl ..) isRow rfl
  rw [set]
  exact ⟨strings ▸ value.1, strings ▸ value.2.1, _, cellSet.rows.trans (modify_eq_set ..),
    length_set⟩

theorem setColumns_invariant (record : Record) (mask : Nat) (kept : TableState → Prop)
    (step : ∀ i < schema.columns.length, ∀ state, kept state →
      kept (schema.setColumn state row i (record.field (i + 1))).1) (count i : Nat)
    (state : TableState) (covered : i + count ≤ schema.columns.length) (holds : kept state) :
    kept (schema.setColumns row record mask count i state).1 := by
  induction count generalizing i state with
  | zero => exact holds
  | succ _ ih =>
    have next := step i (by omega) state holds
    rw [setColumns]
    split
    · exact ih (i + 1) state (by omega) holds
    split
    next state' went =>
      rw [went] at next
      exact ih (i + 1) state' (by omega) next
    next went =>
      rw [went] at next
      exact next

theorem ChangesRow.setColumn (changes : schema.ChangesRow row state state')
    (inTable : i < schema.columns.length) (isRow : row < state.rows.length) (field : Field) :
    schema.ChangesRow row state (schema.setColumn state' row i field).1 := by
  obtain ⟨wellFormed, extended, _, rows, length⟩ := changes
  have isRow' : row < state'.rows.length := by rwa [rows, length_set]
  obtain ⟨wellFormed', extended', cells', rows', length'⟩ :=
    schema.setColumn_frame wellFormed inTable isRow' field
  refine ⟨wellFormed', extended.trans extended', cells', ?_, ?_⟩
  · rw [rows', rows, set_set]
  · rw [length', rows, getD_set_self isRow, length]

theorem setColumns_frame (schema : Schema) (record : Record) (mask : Nat)
    (isRow : row < state.rows.length) (wellFormed : state.strings.WellFormed) :
    schema.ChangesRow row state
      (schema.setColumns row record mask schema.columns.length 0 state).1 :=
  setColumns_invariant record mask _ (fun _ isI _ changes => changes.setColumn isI isRow _)
    schema.columns.length 0 state (by omega) (.of_same wellFormed (.refl ..) isRow rfl)

include extended in
theorem keyValue_extended
    {value : Nat} (isValue : schema.keyValue state column field = some value) :
    schema.keyValue state' column field = some value := by
  unfold keyValue at isValue ⊢
  split_ifs at isValue ⊢
  · exact extended.string2idW _ _ isValue
  all_goals exact isValue

theorem columnValue_key (persistence : Persistence) (isKey : column.isKey = true)
    (notString : column.isString = false) (supported : schema.Supported column)
    (keyCell : schema.KeyCell strings column cell)
    (isValue : (field.getInteger + bias column).toNat = cell) :
    (schema.columnValue strings column field persistence).2 %
      256 ^ schema.bytesPerColumn column = cell := by
  have notBinary := isBinary_of_isKey isKey
  obtain ⟨fits, -⟩ := keyCell.lt isKey notString supported
  rw [bytesPerColumn_key isKey notString]
  cases isNull : field.isNull with
  | false => rw [columnValue_integer notBinary notString isNull, isValue, mod_eq_of_lt fits]
  | true =>
    obtain rfl : field = .null := by
      cases field with
      | null => rfl
      | int | wstr | stream => cases isNull
    rw [columnValue, if_pos isNull, zero_mod, ← isValue]
    rw [KeyCell, if_neg (by rw [notString]; decide), ← isValue] at keyCell
    rw [bias] at keyCell ⊢
    split at keyCell
    next two => exact absurd keyCell.2 (by decide)
    next notTwo =>
      rw [if_neg notTwo]
      rfl

theorem setColumn_keepsKeys (unsorted : schema.order = none) (inTable : i < schema.columns.length)
    (isRow : row < state.rows.length)
    (length : (state.rows.getD row []).length = schema.columns.length)
    (supported : schema.Supported (schema.column i))
    (key : (schema.column i).isKey = true →
      schema.KeyCell state.strings (schema.column i) (state.cell row i) ∧
      schema.keyValue state (schema.column i) field = some (state.cell row i)) (j : Nat)
    (isKey : (schema.column j).isKey = true) :
    (schema.setColumn state row i field).1.cell row j = state.cell row j := by
  by_cases refuses : schema.Refuses (schema.column i) field
  · obtain ⟨_, -, refused⟩ := setColumn_refused inTable isRow refuses
    rw [refused]
    rfl
  obtain ⟨-, kept⟩ | ⟨notKept, _, set, -, cellSet⟩ :=
    setColumn_accepted inTable isRow refuses
  · rw [kept]
  rw [set]
  refine (cellSet.cell (length ▸ inTable) j).trans ?_
  split
  next same =>
    subst same
    obtain ⟨keyCell, isValue⟩ := key isKey
    cases isString : (schema.column i).isString with
    | true =>
      -- the string is there already
      rw [keyValue_string isKey isString] at isValue
      refine absurd ⟨?_, isBinary_of_isKey isKey, isString, ?_⟩ notKept
      · cases field with
        | null => cases isValue
        | int | wstr | stream => rfl
      · rw [isValue, fetchInt_supported unsorted inTable isRow supported]
        rfl
    | false =>
      rw [keyValue_integer isKey isString] at isValue
      exact columnValue_key _ isKey isString supported keyCell (Option.some.inj isValue)
  · rfl

theorem setColumns_keepsKeys (unsorted : schema.order = none) (record : Record) (mask : Nat)
    (supported : ∀ i < schema.columns.length, schema.Supported (schema.column i))
    (isRow : row < state.rows.length) (wellFormed : state.strings.WellFormed)
    (length : (state.rows.getD row []).length = schema.columns.length)
    (keys : ∀ j < schema.columns.length, (schema.column j).isKey = true →
      schema.KeyCell state.strings (schema.column j) (state.cell row j) ∧
      schema.keyValue state (schema.column j) (record.field (j + 1)) = some (state.cell row j)) :
    ∀ j, (schema.column j).isKey = true →
      (schema.setColumns row record mask schema.columns.length 0 state).1.cell row j =
        state.cell row j := by
  refine (setColumns_invariant record mask
    (fun state' => schema.ChangesRow row state state' ∧
      ∀ j, (schema.column j).isKey = true → state'.cell row j = state.cell row j)
    (fun i isI state' ⟨changes, same⟩ => ⟨changes.setColumn isI isRow _, ?_⟩)
    schema.columns.length 0 state (by omega)
    ⟨.of_same wellFormed (.refl ..) isRow rfl, fun _ _ => rfl⟩).2
  obtain ⟨-, extended, _, rows, cellsLength⟩ := changes
  intro j isKey
  rw [← same j isKey]
  refine setColumn_keepsKeys unsorted isI ?_ ?_ (supported i isI) (fun isKey => ?_) j isKey
  · rwa [rows, length_set]
  · rw [rows, getD_set_self isRow, cellsLength, length]
  · rw [same i isKey]
    obtain ⟨keyCell, isValue⟩ := keys i isI isKey
    exact ⟨keyCell.extended extended, keyValue_extended extended isValue⟩

include good hasKey in
theorem KeysGood.tableUpdate (record : Record) (row : Nat) :
    schema.KeysGood (schema.tableUpdate state record row).1 := by
  unfold Schema.tableUpdate
  split
  · exact good
  rename_i isFound
  split
  · exact good
  obtain ⟨isRow, values⟩ := of_findRow good hasKey isFound
  have mem := getD_mem isRow
  rw [setRow_all]
  obtain ⟨wellFormed, extended, _, rows, length⟩ := schema.setColumns_frame record
    (maskBit schema.columns.length - 1) isRow good.wellFormed
  have keeps := setColumns_keepsKeys good.unsorted record (maskBit schema.columns.length - 1)
    (good.supported _ mem) isRow good.wellFormed (good.lengths _ mem)
    fun j isColumn isKey => ⟨good.keyCells _ mem j isColumn isKey, values j isColumn isKey⟩
  refine good.set wellFormed extended isRow rows (length.trans (good.lengths _ mem)) ?_
  intro j _ isKey
  have kept := keeps j isKey
  rw [TableState.cell, rows, getD_set_self isRow] at kept
  exact kept

/-- A word without high bits is small. -/
theorem toNat_lt_of_and {value : UInt32} (low : value &&& 0xffff0000 = 0) :
    value.toNat < 256 ^ 2 := by
  have small : value.toNat >>> 16 < 2 ^ 16 := by
    rw [shiftRight_eq_div_pow, div_lt_iff_lt_mul (by decide)]
    exact value.toNat_lt
  have high := congrArg (fun word : UInt32 => word.toNat >>> 16) low
  rw [UInt32.toNat_and, shiftRight_and_distrib,
    show (0xffff0000 : UInt32).toNat >>> 16 = 2 ^ 16 - 1 from rfl,
    and_two_pow_sub_one_of_lt_two_pow small, shiftRight_eq_div_pow] at high
  exact (div_eq_zero_iff_lt (by decide)).mp high

theorem GoodKey.integer (good : schema.GoodKey before persistence column field)
    (isKey : column.isKey = true) (notString : column.isString = false)
    (accepted : ¬schema.Refuses column field) (strings : StringTable) :
    schema.KeyCell strings column (field.getInteger + bias column).toNat := by
  have notBinary := isBinary_of_isKey isKey
  rw [GoodKey, if_neg (by rw [notString]; decide)] at good
  rw [KeyCell, if_neg (by rw [notString]; decide)]
  split at good
  next two =>
    rw [if_pos two]
    refine ⟨good.2, ?_⟩
    have inRange := (not_or.mp accepted).2
    rw [bias, if_pos two, UInt32.add_comm]
    refine toNat_lt_of_and (not_not.mp fun out => inRange ⟨good.1, notBinary, notString, ?_, out⟩)
    rw [bytesPerColumn_key isKey notString, two]
  next notTwo =>
    rw [if_neg notTwo]
    exact good

theorem GoodKey.string (wellFormed : before.WellFormed)
    (good : schema.GoodKey before persistence column field) (isKey : column.isKey = true)
    (isString : column.isString = true) :
    ∃ str, field = .wstr str ∧
      (schema.columnValue before column field persistence).1.string2idW schema.collation
        (some str) = some ((schema.columnValue before column field persistence).2 %
          256 ^ schema.bytesPerColumn column) := by
  have notBinary := isBinary_of_isKey isKey
  rw [GoodKey, if_pos isString] at good
  obtain ⟨str, rfl, notEmpty, fits⟩ := good
  refine ⟨str, rfl, ?_⟩
  have size : schema.bytesPerColumn column = schema.bytesPerStrref := by
    simp [bytesPerColumn, Column.bytes, notBinary, isString]
  have isValue : schema.columnValue before column (.wstr str) persistence =
      before.addstringW schema.collation (some str) persistence := by
    simp [columnValue, Field.isNull, notBinary, isString, Field.getString]
  rw [size, isValue, mod_eq_of_lt fits]
  exact (wellFormed.addstringW notEmpty persistence).found

theorem GoodKey.stored (wellFormed : before.WellFormed)
    (good : schema.GoodKey before persistence column field) (isKey : column.isKey = true)
    (accepted : ¬schema.Refuses column field) {last : StringTable}
    (lastWellFormed : last.WellFormed) (extended : state.strings.Extends schema.collation last)
    (after : (schema.columnValue before column field persistence).1.Extends schema.collation last)
    {cell : Nat}
    (isCell : cell = (schema.columnValue before column field persistence).2 %
      256 ^ schema.bytesPerColumn column) :
    schema.KeyCell last column cell ∧
      (schema.KeyCell state.strings column cell →
        schema.keyValue state column field = some cell) := by
  subst isCell
  cases isString : column.isString with
  | true =>
    obtain ⟨_, rfl, found⟩ := good.string wellFormed isKey isString
    have foundLast := after.string2idW _ _ found
    obtain ⟨-, notEmpty, lookup, known⟩ := lastWellFormed.canonical foundLast
    refine ⟨?_, fun keyCell => ?_⟩
    · rw [KeyCell, if_pos isString]
      exact ⟨_, notEmpty, lookup, known⟩
    · rw [KeyCell, if_pos isString] at keyCell
      obtain ⟨_, -, lookup, known⟩ := keyCell
      rw [keyValue_string isKey isString]
      exact extended.string2idW_of_found lastWellFormed lookup known foundLast
  | false =>
    have keyCell (strings : StringTable) := good.integer isKey isString accepted strings
    rw [columnValue_key persistence isKey isString (not_not.mp (not_or.mp accepted).1)
      (keyCell before) rfl]
    exact ⟨keyCell last, fun _ => keyValue_integer isKey isString field⟩

include good hasKey in
theorem KeysGood.insertRow {temporary : Bool}
    (meets : schema.Meets state (.insert record temporary)) :
    schema.KeysGood (schema.insertRow state record temporary).1 := by
  unfold Schema.insertRow
  split
  · exact good
  rename_i isValid
  obtain ⟨-, few, fields⟩ := meets isValid
  have notFound : ∃ failure, schema.findRow state record = .error failure := by
    unfold validateNew at isValid
    split at isValid
    · cases isValid
    split at isValid
    · cases isValid
    next failure isError => exact ⟨failure, isError⟩
  obtain ⟨_, notFound⟩ := notFound
  have isNew := schema.createNewRow_getD state temporary
  have isRow := schema.createNewRow_lt state temporary
  have erased : (schema.createNewRow state temporary).1.rows.eraseIdx
      (schema.createNewRow state temporary).2 = state.rows := by
    cases temporary <;> simp [createNewRow, TableState.rows, eraseIdx_append_of_length_le]
  have sameStrings := schema.createNewRow_strings state temporary
  dsimp only
  rw [setRow_all, ← filled]
  have succeeds : (schema.filled state record temporary).2 = .ok () := by
    obtain ⟨-, fails⟩ := schema.setColumns_result record
      (maskBit schema.columns.length - 1) schema.columns.length 0 _ (by omega) isRow
    refine not_not.mp (mt fails.mp ?_)
    rintro ⟨j, inTable, -, refused⟩
    exact (fields j (by simpa using inTable)).1 refused
  obtain ⟨pool, value⟩ := filled_values good.unsorted few good.wellFormed succeeds
  obtain ⟨wellFormed, extended, cells, rows, length⟩ := schema.setColumns_frame record
    (maskBit schema.columns.length - 1) isRow (sameStrings ▸ good.wellFormed)
  rw [← filled] at wellFormed extended rows
  generalize schema.filled state record temporary = result at *
  generalize schema.createNewRow state temporary = created at *
  rw [sameStrings] at extended
  have isCells (i : Nat) : result.1.cell created.2 i = cells.getD i 0 := by
    rw [TableState.cell, rows, getD_set_self isRow]
  simp only [isCells] at value
  have keys (i : Nat) (inTable : i < schema.columns.length)
      (isKey : (schema.column i).isKey = true) :
      schema.KeyCell result.1.strings (schema.column i) (cells.getD i 0) ∧
        (schema.KeyCell state.strings (schema.column i) (cells.getD i 0) →
          schema.keyValue state (schema.column i) (record.field (i + 1)) =
            some (cells.getD i 0)) := by
    obtain ⟨accepted, goodKey⟩ := fields i inTable
    refine (goodKey isKey).stored
      (schema.poolAfter_extends record _ i 0 good.wellFormed).1 isKey accepted wellFormed
      extended ?_ (value i inTable).2
    rw [pool]
    exact schema.columnValue_later good.wellFormed record _ inTable
  refine good.cons wellFormed extended cells ?_ ?_ (fun i inTable => (value i inTable).1)
    (fun i inTable isKey => (keys i inTable isKey).1) fun others mem same => ?_
  · rw [rows, ← erased]
    exact set_perm_cons_eraseIdx isRow cells
  · rw [length, isNew, length_replicate]
  · obtain ⟨row, isOldRow, isRowCells⟩ := getElem_of_mem mem
    have isOther : state.rows.getD row [] = others := by
      rw [getD_eq_getElem _ _ isOldRow, isRowCells]
    obtain ⟨i, inTable, isKey, different⟩ := of_not_findRow good hasKey notFound isOldRow
    have sameCell : cells.getD i 0 = state.cell row i := by
      rw [TableState.cell, isOther]
      exact same i inTable isKey
    refine different ?_
    rw [← sameCell]
    refine (keys i inTable isKey).2 ?_
    rw [sameCell, TableState.cell, isOther]
    exact good.keyCells others mem i inTable isKey

end Schema

end Winex.Msi
