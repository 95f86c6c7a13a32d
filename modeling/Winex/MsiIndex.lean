import Winex.MsiTable

namespace Winex.Msi

open List

/-!
# Table views and the indexes of their columns

For a search by value a column gets an index, a hash table with the rows in the order of
their numbers in each chain, which stays until a cell of the column is written or a row is
deleted.
-/

/-- An `MSICOLUMNHASHENTRY`, or an `MSIHASHENTRY`. -/
structure HashEntry where
  value : Nat
  row : Nat
  deriving DecidableEq

/-- `MSITABLE_HASH_TABLE_SIZE` and `MSI_HASH_TABLE_SIZE` -/
def hashTableSize : Nat := 37

/-- The chains of a hash table. -/
abbrev HashTable :=
  Nat → List HashEntry

/-- A table view: the table, the names of its columns, and the indexes of the columns. -/
structure TableView where
  schema : Schema
  names : List WString
  state : TableState
  hashTable : Nat → Option HashTable

namespace TableView

variable (view : TableView)

/-- The number of rows. -/
def rowCount : Nat :=
  view.state.rows.length

/-- The number of columns. -/
def numCols : Nat :=
  view.schema.columns.length

/-- `TABLE_fetch_int` of the table. -/
def fetchInt (row col : Nat) : Except Failure Nat :=
  view.schema.fetchInt view.state row col

/-- `VIEW_find_column` -/
def findColumn (name : WString) : Option Nat :=
  ((List.range view.numCols).find? fun i =>
    view.schema.collation.equal name (view.names.getD i [])).map (· + 1)

/-- A row at the end of the chain of its value. -/
def indexRow (col : Nat) (table : HashTable) (row : Nat) : HashTable :=
  match view.fetchInt row col with
  | .error _ => table
  | .ok value =>
    Function.update table (value % hashTableSize) (table (value % hashTableSize) ++ [⟨value, row⟩])

/-- The index that `TABLE_find_matching_rows` makes. -/
def buildIndex (col : Nat) : HashTable :=
  (List.range view.rowCount).foldl (view.indexRow col) fun _ => []

/-- The index in use after a search. -/
def indexOf (col : Nat) : HashTable :=
  (view.hashTable col).getD (view.buildIndex col)

/-- The view with an index for a column. -/
def withIndex (col : Nat) : TableView :=
  { view with hashTable := Function.update view.hashTable col (some (view.indexOf col)) }

end TableView

/-- The rows that `TABLE_find_matching_rows` gives one after the other. -/
def HashTable.matching (table : HashTable) (value : Nat) : List Nat :=
  ((table (value % hashTableSize)).filter fun entry => entry.value = value).map HashEntry.row

namespace TableView

variable {view : TableView}

theorem indexRow_matching (view : TableView) (col : Nat) (table : HashTable) (row value : Nat) :
    (view.indexRow col table row).matching value =
      table.matching value ++ [row].filter fun row => view.fetchInt row col = .ok value := by
  unfold indexRow
  cases fetched : view.fetchInt row col with
  | error => simp [fetched]
  | ok found =>
    simp only [HashTable.matching, filter_cons, filter_nil, fetched]
    by_cases same : found = value
    · subst same
      simp
    -- the entry is in another chain, or passed over in this one
    by_cases bucket : value % hashTableSize = found % hashTableSize
    · simp [bucket, same]
    · simp [Function.update_of_ne bucket, same]

theorem foldl_indexRow_matching (view : TableView) (col value : Nat) (rows : List Nat) :
    ∀ table : HashTable, HashTable.matching (rows.foldl (view.indexRow col) table) value =
      table.matching value ++ rows.filter fun row => view.fetchInt row col = .ok value := by
  induction rows with
  | nil =>
    simp
  | cons _ _ ih =>
    intro _
    rw [foldl_cons, ih, indexRow_matching, append_assoc, ← filter_append]
    rfl

theorem buildIndex_matching (view : TableView) (col value : Nat) :
    (view.buildIndex col).matching value =
      (List.range view.rowCount).filter fun row => view.fetchInt row col = .ok value := by
  rw [buildIndex, foldl_indexRow_matching]
  simp [HashTable.matching]

variable {col row : Nat}

theorem of_findColumn {name : WString} (found : view.findColumn name = some col) :
    0 < col ∧ col ≤ view.numCols := by
  obtain ⟨i, isI, rfl⟩ := Option.map_eq_some_iff.mp found
  exact ⟨Nat.succ_pos i, mem_range.mp (mem_of_find?_eq_some isI)⟩

theorem fetchInt_supported (existing : 0 < col ∧ col ≤ view.numCols)
    (supported : view.schema.Supported (view.schema.column (col - 1)))
    (inside : row < view.rowCount) : ∃ value, view.fetchInt row col = .ok value := by
  unfold numCols rowCount at *
  rw [fetchInt, Schema.fetchInt, if_neg (by omega), if_neg (by omega),
    if_neg (not_not_intro supported)]
  exact ⟨_, rfl⟩

theorem fetchInt_string (positive : 0 < col) (existing : col ≤ view.numCols)
    (isString : (view.schema.column (col - 1)).isString = true) (inside : row < view.rowCount) :
    ∃ value, view.fetchInt row col = .ok value := by
  have supported : view.schema.Supported (view.schema.column (col - 1)) := by
    have strref := view.schema.strref
    unfold Schema.Supported Schema.bytesPerColumn Column.bytes
    rw [isString]
    by_cases binary : (view.schema.column (col - 1)).isBinary = true
    · simp [binary]
    · simp [binary, Bool.false_eq_true]
      omega
  exact fetchInt_supported ⟨positive, existing⟩ supported inside

end TableView

end Winex.Msi
