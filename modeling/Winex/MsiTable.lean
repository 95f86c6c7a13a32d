import Winex.MsiStrings
import Winex.MsiView
import Mathlib.Algebra.Group.Nat.Defs

namespace Winex.Msi

/-!
# Tables of an installer database

A table has rows that are saved and rows that are not; their numbers follow each other.
A cell holds 0 for null, an integer moved into the positive range, or the id of a
string.  A row is the list of its cells; a sorted view reads the rows through the array
`reorder`, and writes them by their numbers.
-/

/-- A field of a record.  An `int` is given by its 32 bits. -/
inductive Field where
  | null
  | int (value : UInt32)
  | wstr (str : WString)
  | stream
  deriving DecidableEq

/-- A record, with its fields from number 1 on. -/
structure Record where
  fields : List Field
  deriving DecidableEq

/-- A field of a record; to all functions a field behind the end is null. -/
def Record.field (record : Record) (iField : Nat) : Field :=
  record.fields.getD (iField - 1) .null

/-- `MSI_NULL_INTEGER` -/
def nullInteger : UInt32 := 0x80000000

/-- The loop of `string2intW`. -/
def decimalDigits : UInt32 → WString → Option UInt32
  | x, [] => some x
  | x, char :: rest =>
    if char < 0x30 ∨ 0x39 < char then none
    else decimalDigits (x * 10 + (char - 0x30).toUInt32) rest

/-- `string2intW` -/
def string2intW : WString → Option UInt32
  | 0x2d :: rest => (decimalDigits 0 rest).map fun x => -x
  | str => decimalDigits 0 str

namespace Field

/-- `MSI_RecordIsNull` -/
def isNull : Field → Bool
  | null => true
  | _ => false

/-- `MSI_RecordGetInteger` -/
def getInteger : Field → UInt32
  | int value => value
  | wstr str => (string2intW str).getD nullInteger
  | _ => nullInteger

/-- `MSI_RecordGetString` -/
def getString : Field → Option WString
  | wstr str => some str
  | _ => none

end Field

/-- An `MSICOLUMNINFO`. -/
structure Column where
  type : UInt32
  deriving DecidableEq

namespace Column

variable (column : Column)

/-- `MSITYPE_IS_BINARY` -/
def isBinary : Bool :=
  column.type &&& 0xffffefff = 0x900

/-- `MSITYPE_STRING` -/
def isString : Bool :=
  column.type &&& 0x800 ≠ 0

/-- `MSITYPE_NULLABLE` -/
def isNullable : Bool :=
  column.type &&& 0x1000 ≠ 0

/-- `MSITYPE_KEY` -/
def isKey : Bool :=
  column.type &&& 0x2000 ≠ 0

/-- The size of an integer column. -/
def dataSize : Nat :=
  (column.type &&& 0xff).toNat

/-- `bytes_per_column`, for references to strings of a given size. -/
def bytes (bytesPerStrref : Nat) : Nat :=
  if column.isBinary then 2
  else if column.isString then bytesPerStrref
  else column.dataSize

end Column

/-- What the calls do not change about a table view: its columns, whether the table is saved,
how many bytes a reference to a string has, how strings are compared, and the array of the last
sort. -/
structure Schema where
  columns : List Column
  persistent : Bool
  bytesPerStrref : Nat
  strref : bytesPerStrref = 2 ∨ bytesPerStrref = 3
  collation : Collation
  order : Option (List Nat) := none

/-- The rows of a table, and the string pool of its database. -/
structure TableState where
  strings : StringTable
  data : List (List Nat)
  nonpersistentData : List (List Nat)

/-- The rows by their numbers. -/
def TableState.rows (state : TableState) : List (List Nat) :=
  state.data ++ state.nonpersistentData

/-- `TABLE_delete_row` -/
def TableState.deleteRow (state : TableState) (row : Nat) : TableState × Except Failure Unit :=
  if state.rows.length ≤ row then (state, .error .functionFailed)
  else if row < state.data.length then
    ({ state with data := state.data.eraseIdx row }, .ok ())
  else
    ({ state with
        nonpersistentData := state.nonpersistentData.eraseIdx (row - state.data.length) },
      .ok ())

namespace Schema

variable (schema : Schema)

/-- `bytes_per_column` -/
def bytesPerColumn (column : Column) : Nat :=
  column.bytes schema.bytesPerStrref

/-- The column with a number that counts from 0. -/
def column (i : Nat) : Column :=
  schema.columns.getD i ⟨0⟩

/-- The sizes of cells that the functions know. -/
def Supported (column : Column) : Prop :=
  schema.bytesPerColumn column = 2 ∨ schema.bytesPerColumn column = 3 ∨
    schema.bytesPerColumn column = 4

instance (column : Column) : Decidable (schema.Supported column) :=
  inferInstanceAs (Decidable (_ ∨ _ ∨ _))

/-- The stored row that the view shows at a position. -/
def storedRow (row : Nat) : Nat :=
  match schema.order with
  | none => row
  | some reorder => reorder.getD row 0

variable (state : TableState)

/-- `TABLE_fetch_int` -/
def fetchInt (row col : Nat) : Except Failure Nat :=
  if col = 0 ∨ schema.columns.length < col then .error .invalidParameter
  else if state.rows.length ≤ row then .error .noMoreItems
  else if ¬schema.Supported (schema.column (col - 1)) then .error .functionFailed
  else .ok ((state.rows.getD (schema.storedRow row) []).getD (col - 1) 0)

theorem of_fetchInt {schema : Schema} {state : TableState} {row col value : Nat}
    (fetched : schema.fetchInt state row col = .ok value) :
    row < state.rows.length ∧
      value = (state.rows.getD (schema.storedRow row) []).getD (col - 1) 0 := by
  unfold fetchInt at fetched
  iterate 3
    split at fetched
    · cases fetched
  · exact ⟨by omega, (Except.ok.inj fetched).symm⟩

/-- `TABLE_set_int`; the value is cut off to the size of the cell. -/
def setInt (row col val : Nat) : Except Failure TableState :=
  if col = 0 ∨ schema.columns.length < col then .error .invalidParameter
  else if state.rows.length ≤ row then .error .invalidParameter
  else if ¬schema.Supported (schema.column (col - 1)) then .error .functionFailed
  else
    let cell := val % 256 ^ schema.bytesPerColumn (schema.column (col - 1))
    if state.data.length ≤ row then
      .ok { state with
        nonpersistentData :=
          state.nonpersistentData.modify (row - state.data.length) fun cells =>
            cells.set (col - 1) cell }
    else
      .ok { state with data := state.data.modify row fun cells => cells.set (col - 1) cell }

/-- `TABLE_set_int` as the last step for a column, with what the state is after it. -/
def store (row i val : Nat) : TableState × Except Failure Unit :=
  match schema.setInt state row (i + 1) val with
  | .ok state => (state, .ok ())
  | .error failure => (state, .error failure)

/-- The body of the loop of `TABLE_set_row` for one column. -/
def setColumn (row i : Nat) (field : Field) : TableState × Except Failure Unit :=
  let column := schema.column i
  if field.isNull then schema.store state row i 0
  -- refers to the first key column
  else if column.isBinary then schema.store state row i 1
  else if column.isString then
    let persistence :=
      if schema.persistent ∧ row < state.data.length then Persistence.persistent
      else .nonpersistent
    let known := state.strings.string2idW schema.collation field.getString
    if known.map .ok = some (schema.fetchInt state row (i + 1)) then (state, .ok ())
    else
      let (strings, val) := state.strings.addstringW schema.collation field.getString persistence
      schema.store { state with strings } row i val
  else if schema.bytesPerColumn column = 2 then
    let val := 0x8000 + field.getInteger
    if val &&& 0xffff0000 ≠ 0 then (state, .error .functionFailed)
    else schema.store state row i val.toNat
  else schema.store state row i (field.getInteger ^^^ 0x80000000).toNat

/-- A bit of a mask, `1 << n` as the machine shifts. -/
def maskBit (n : Nat) : Nat :=
  2 ^ (n % 32)

/-- The loop of `TABLE_set_row` over so many columns from a column on. -/
def setColumns (row : Nat) (record : Record) (mask : Nat) :
    Nat → Nat → TableState → TableState × Except Failure Unit
  | 0, _, state => (state, .ok ())
  | count + 1, i, state =>
    -- only the fields in the mask are updated
    if mask &&& maskBit i = 0 then setColumns row record mask count (i + 1) state
    else
      match schema.setColumn state row i (record.field (i + 1)) with
      | (state, .ok ()) => setColumns row record mask count (i + 1) state
      | (state, .error failure) => (state, .error failure)

/-- `TABLE_set_row` -/
def setRow (row : Nat) (record : Record) (mask : Nat) : TableState × Except Failure Unit :=
  if maskBit schema.columns.length ≤ mask then (state, .error .invalidParameter)
  else schema.setColumns row record mask schema.columns.length 0 state

/-- `table_create_new_row`: the state and the number of the new row. -/
def createNewRow (temporary : Bool) : TableState × Nat :=
  let row := List.replicate schema.columns.length 0
  if temporary then
    ({ state with nonpersistentData := state.nonpersistentData ++ [row] },
      state.data.length + state.nonpersistentData.length)
  else ({ state with data := state.data ++ [row] }, state.data.length)

/-- The value of a key column of a record as a cell, if there can be one. -/
def keyValue (column : Column) (field : Field) : Option Nat :=
  if ¬column.isKey then some 0
  else if column.isString ∧ ¬column.isBinary then
    state.strings.string2idW schema.collation field.getString
  else if column.dataSize = 2 then some (field.getInteger + 0x8000).toNat
  else some (field.getInteger + 0x80000000).toNat

variable (record : Record)

/-- `msi_record_to_row` -/
def recordToRow : Option (List Nat) :=
  (List.range schema.columns.length).mapM fun i =>
    schema.keyValue state (schema.column i) (record.field (i + 1))

/-- The loop of `msi_row_matches`, with the result so far. -/
def matchColumns (state : TableState) (row : Nat) (data : List Nat) : Nat → Nat → Bool → Bool
  | 0, _, ret => ret
  | count + 1, i, ret =>
    if ¬(schema.column i).isKey then matchColumns state row data count (i + 1) ret
    else
      match schema.fetchInt state row (i + 1) with
      | .error _ => ret
      | .ok x =>
        if x ≠ data.getD i 0 then false
        else matchColumns state row data count (i + 1) true

/-- `msi_row_matches` -/
def rowMatches (row : Nat) (data : List Nat) : Bool :=
  schema.matchColumns state row data schema.columns.length 0 false

/-- `msi_table_find_row` -/
def findRow : Except Failure Nat :=
  match schema.recordToRow state record with
  | none => .error .functionFailed
  | some data =>
    match (List.range state.rows.length).find? fun row => schema.rowMatches state row data with
    | none => .error .functionFailed
    | some row => .ok row

/-- A field that the column does not allow to be missing. -/
def missing (column : Column) (field : Field) : Bool :=
  if column.isNullable then false
  else if column.isBinary then false
  else if column.isString then field.getString.getD [] = []
  else field.getInteger = nullInteger

/-- `table_validate_new` -/
def validateNew : Except Failure Unit :=
  if (List.range schema.columns.length).any fun i =>
      missing (schema.column i) (record.field (i + 1)) then
    .error .invalidData
  else
    match schema.findRow state record with
    | .ok _ => .error .functionFailed
    | .error _ => .ok ()

/-- `TABLE_insert_row` -/
def insertRow (temporary : Bool) : TableState × Except Failure Unit :=
  match schema.validateNew state record with
  | .error _ => (state, .error .functionFailed)
  | .ok () =>
    let (state, row) := schema.createNewRow state temporary
    schema.setRow state row record (maskBit schema.columns.length - 1)

/-- `msi_table_update` -/
def tableUpdate (row : Nat) : TableState × Except Failure Unit :=
  match schema.findRow state record with
  | .error _ => (state, .error .functionFailed)
  | .ok newRow =>
    -- the row cannot be changed
    if row ≠ newRow + 1 then (state, .error .functionFailed)
    else schema.setRow state newRow record (maskBit schema.columns.length - 1)

end Schema

end Winex.Msi
