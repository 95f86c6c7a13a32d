import Winex.ByteNumber
import Winex.MsiTable

namespace Winex.Msi.Statics

open List

/-!
# Two databases with references of different sizes

`bytes_per_column` takes the size of a reference to a string from the static
`_Columns_cols`, which `MSI_OpenDatabaseW` sets to that of the database it opens; no other
function sets it.  Except for `_Columns` itself, the offsets of the columns are computed
when the table is loaded.
-/

/-- `bytes_per_strref` of a database. -/
inductive Strref where
  | short
  | long
  deriving DecidableEq

/-- `sizeof(USHORT)` and `LONG_STR_BYTES` -/
def Strref.bytes : Strref → Nat
  | short => 2
  | long => 3

variable (statics : Strref)

/-- `bytes_per_column`; `statics` belongs to the database opened last. -/
def bytesPerColumn (column : Column) : Nat :=
  column.bytes statics.bytes

/-- An `MSICOLUMNINFO` with its offset. -/
abbrev Info :=
  Column × Nat

/-- `_Columns_cols` with the offsets of `msi_table_set_strref`. -/
def columnsCols : List Info :=
  [(⟨0x2940⟩, 0), (⟨0x2102⟩, statics.bytes), (⟨0x940⟩, statics.bytes + 2),
    (⟨0x102⟩, statics.bytes + 2 + statics.bytes)]

/-- `table_calc_column_offsets`, from an offset on. -/
def calcColumnOffsets (statics : Strref) : Nat → List Column → List Info
  | _, [] => []
  | offset, column :: rest =>
    (column, offset) :: calcColumnOffsets statics (offset + bytesPerColumn statics column) rest

/-- `_Columns`, or a table with columns of its own; `_Tables` has the column 0x940. -/
inductive Table where
  | default
  | own (columns : List Column)

/-- The `colinfo` of a table that was loaded with the statics `loaded`. -/
def Table.colinfo (loaded statics : Strref) : Table → List Info
  | default => columnsCols statics
  | own columns => calcColumnOffsets loaded 0 columns

/-- `msi_table_get_row_size` -/
def rowSize (colinfo : List Info) : Nat :=
  match colinfo.getLast? with
  | none => 0
  | some (column, offset) => offset + bytesPerColumn statics column

/-- The rows of a table, and the order and row size of a view. -/
structure View where
  data : List (List UInt8)
  nonpersistentData : List (List UInt8)
  reorder : Option (Nat → Nat)
  rowSize : Nat

def View.rows (view : View) : List (List UInt8) :=
  view.data ++ view.nonpersistentData

/-- `read_table_int`, or `none` where it reads behind the row. -/
def readTableInt (row : List UInt8) (offset bytes : Nat) : Option Nat :=
  if row.length < offset + bytes then none
  else some (ByteNumber.unsigned ((row.drop offset).take bytes))

/-- `TABLE_fetch_int` -/
def fetchInt (colinfo : List Info) (view : View) (row col : Nat) : Except Failure (Option Nat) :=
  if col = 0 then .error .invalidParameter
  else
    match colinfo[col - 1]? with
    | none => .error .invalidParameter
    | some (column, offset) =>
      if view.rows.length ≤ row then .error .noMoreItems
      else if view.rowSize ≤ offset then .error .functionFailed
      else
        let n := bytesPerColumn statics column
        if n ≠ 2 ∧ n ≠ 3 ∧ n ≠ 4 then .error .functionFailed
        else .ok (view.rows[view.reorder.elim row (· row)]?.bind (readTableInt · offset n))

/-- What `save_table` writes of a column; a byte behind a row is `none`. -/
def writtenBytes (data : List (List UInt8)) (info : Info) : List (Option UInt8) :=
  data.flatMap fun row =>
    [row[info.2]?, row[info.2 + 1]?] ++
      if bytesPerColumn statics info.1 = 4 then [row[info.2 + 2]?, row[info.2 + 3]?] else []

/-- `save_table` for a persistent table. -/
def saveTable (colinfo : List Info) (view : View) : List (Option UInt8) :=
  let rawsize := view.data.length * rowSize statics colinfo
  (colinfo.flatMap (writtenBytes statics view.data) ++ replicate rawsize (some 0)).take rawsize

/-- Opening a database with references of the size `opened` changes nothing for a table of
another.  The statics were `loaded` when the table was loaded, `viewed` when the view was
created, and are `statics` now. -/
def Unaffected (loaded viewed statics opened : Strref) (table : Table) : Prop :=
  ∀ view : View, view.rowSize = rowSize viewed (table.colinfo loaded viewed) →
    (∀ row ∈ view.rows, row.length = rowSize loaded (table.colinfo loaded loaded)) →
    (∀ row col, fetchInt statics (table.colinfo loaded statics) view row col =
      fetchInt opened (table.colinfo loaded opened) view row col) ∧
    saveTable statics (table.colinfo loaded statics) view =
      saveTable opened (table.colinfo loaded opened) view

/-- The column has references to strings. -/
def HasReferences (column : Column) : Prop :=
  column.isString = true ∧ column.isBinary = false

variable {statics} {opened : Strref} {info : Info}

theorem HasReferences.bytesPerColumn_eq {column : Column} (references : HasReferences column)
    (statics : Strref) : bytesPerColumn statics column = statics.bytes := by
  simp [bytesPerColumn, Column.bytes, references.1, references.2]

theorem HasReferences.le_bytesPerColumn {column : Column} (references : HasReferences column)
    (statics : Strref) : 2 ≤ bytesPerColumn statics column := by
  rw [references.bytesPerColumn_eq]
  cases statics <;> decide

theorem map_fst_calcColumnOffsets (start : Nat) (columns : List Column) :
    (calcColumnOffsets statics start columns).map Prod.fst = columns := by
  induction columns generalizing start with
  | nil => rfl
  | cons _ _ ih => rw [calcColumnOffsets, map_cons, ih]

/-- What is read of a column under two statics lies inside the row. -/
theorem le_rowSize (loaded statics : Strref) (start : Nat) (columns : List Column) :
    ∀ info ∈ calcColumnOffsets loaded start columns,
      info.2 + min (bytesPerColumn loaded info.1) (bytesPerColumn statics info.1) ≤
        rowSize statics (calcColumnOffsets loaded start columns) := by
  induction columns generalizing start with
  | nil => exact forall_mem_nil _
  | cons column rest ih =>
    cases rest with
    | nil => exact forall_mem_singleton.mpr (Nat.add_le_add_left (Nat.min_le_right ..) start)
    | cons next others =>
      have fits := ih (start + bytesPerColumn loaded column)
      have inside := (Nat.le_add_right ..).trans (fits _ mem_cons_self)
      refine forall_mem_cons.mpr ⟨?_, fits⟩
      exact (Nat.add_le_add_left (Nat.min_le_left ..) start).trans inside

/-- Some column of a table with references has them at a place that does not depend on the
statics. -/
theorem exists_reference {table : Table} (loaded : Strref)
    (isInfo : info ∈ table.colinfo loaded statics) (references : HasReferences info.1) :
    ∃ (i : Nat) (info : Info), HasReferences info.1 ∧ ∀ statics,
      (table.colinfo loaded statics)[i]? = some info ∧
        info.2 + 2 ≤ rowSize statics (table.colinfo loaded statics) := by
  cases table with
  | default =>
    have fits (statics) : 2 ≤ rowSize statics (columnsCols statics) := by cases statics <;> decide
    exact ⟨0, (⟨0x2940⟩, 0), by unfold HasReferences; decide, fun statics => ⟨rfl, fits statics⟩⟩
  | own columns =>
    obtain ⟨i, isAt⟩ := getElem?_of_mem isInfo
    refine ⟨i, info, references, fun statics => ⟨isAt, ?_⟩⟩
    have two := le_min (references.le_bytesPerColumn loaded) (references.le_bytesPerColumn statics)
    exact (Nat.add_le_add_left two _).trans (le_rowSize loaded statics 0 columns info isInfo)

/-- While its own database is the last one opened, a view reads the cells of its rows. -/
theorem fetchInt_eq_map {schema : Schema} {state : TableState} {view : View} {colinfo : List Info}
    (offsets : colinfo = calcColumnOffsets statics 0 schema.columns)
    (bytes : statics.bytes = schema.bytesPerStrref) (size : view.rowSize = rowSize statics colinfo)
    (lengths : ∀ row ∈ view.rows, row.length = view.rowSize)
    (cells : state.rows = view.rows.map fun row => colinfo.map fun info =>
      ByteNumber.unsigned ((row.drop info.2).take (bytesPerColumn statics info.1)))
    {row : Nat} (reorder : view.reorder.elim row (· row) = schema.storedRow row)
    (inside : row < view.rows.length → schema.storedRow row < view.rows.length) (col : Nat) :
    fetchInt statics colinfo view row col = (schema.fetchInt state row col).map some := by
  have columns : schema.columns = colinfo.map Prod.fst := by
    rw [offsets, map_fst_calcColumnOffsets]
  unfold fetchInt Schema.fetchInt Schema.column
  rw [columns, length_map, cells, length_map]
  by_cases zero : col = 0
  · simp [zero, Except.map]
  cases found : colinfo[col - 1]? with
  | none =>
    have behind := getElem?_eq_none_iff.mp found
    rw [if_neg zero, if_pos (.inr (by omega))]
    rfl
  | some info =>
    have isInfo := mem_of_getElem? found
    have fits := le_rowSize statics statics 0 schema.columns info (offsets ▸ isInfo)
    rw [← offsets, ← size, min_self] at fits
    obtain ⟨below, -⟩ := List.getElem?_eq_some_iff.mp found
    rw [if_neg zero, if_neg (by omega)]
    by_cases behind : view.rows.length ≤ row
    · simp [behind, Except.map]
    have stored := getElem?_eq_getElem (inside (by omega))
    have width : schema.bytesPerColumn info.1 = bytesPerColumn statics info.1 := by
      rw [Schema.bytesPerColumn, ← bytes]
      rfl
    simp only [behind, if_false, reorder, stored, readTableInt, Option.bind_some, Except.map,
      lengths _ (mem_of_getElem? stored), Schema.Supported, getD_eq_getElem?_getD, getElem?_map,
      found, Option.map_some, Option.getD_some, width, not_or]
    -- a column that begins behind the row has no bytes
    split_ifs <;> first | rfl | omega

/-- A row of ones shows how many bytes are read. -/
theorem readTableInt_ones {size offset : Nat} (fits : offset + 2 ≤ size)
    (same : readTableInt (replicate size 1) offset statics.bytes =
      readTableInt (replicate size 1) offset opened.bytes) : statics = opened := by
  have two : ¬size < offset + 2 := by omega
  have read (bytes) : ((replicate size (1 : UInt8)).drop offset).take bytes =
      replicate (min bytes (size - offset)) 1 := by rw [drop_replicate, take_replicate]
  cases statics <;> cases opened <;>
    simp only [readTableInt, Strref.bytes, length_replicate, read, two, if_false] at same ⊢
  all_goals
    split at same
    · cases same
    · rw [min_eq_left (by omega), min_eq_left (by omega)] at same
      revert same
      decide

theorem fetchInt_reference {colinfo : List Info} {i size : Nat} (isAt : colinfo[i]? = some info)
    (references : HasReferences info.1) (fits : info.2 + 2 ≤ size) (row : List UInt8) :
    fetchInt statics colinfo ⟨[row], [], none, size⟩ 0 (i + 1) =
      .ok (readTableInt row info.2 statics.bytes) := by
  have inside : ¬size ≤ info.2 := by omega
  cases statics <;>
    simp [fetchInt, isAt, View.rows, references.bytesPerColumn_eq, Strref.bytes,
      inside]

section Same

variable {colinfo : List Info}
  (same : ∀ info ∈ colinfo, bytesPerColumn statics info.1 = bytesPerColumn opened info.1)
include same

theorem fetchInt_congr (view : View) (row col : Nat) :
    fetchInt statics colinfo view row col = fetchInt opened colinfo view row col := by
  unfold fetchInt
  split
  · rfl
  split
  · rfl
  · rename_i isInfo
    rw [same _ (mem_of_getElem? isInfo)]

theorem saveTable_congr (view : View) :
    saveTable statics colinfo view = saveTable opened colinfo view := by
  have size : rowSize statics colinfo = rowSize opened colinfo := by
    unfold rowSize
    split
    · rfl
    · rename_i isLast
      rw [same _ (mem_of_getLast? isLast)]
  have written : colinfo.flatMap (writtenBytes statics view.data) =
      colinfo.flatMap (writtenBytes opened view.data) := by
    refine flatMap_congr fun info isInfo => ?_
    rw [writtenBytes, writtenBytes, same info isInfo]
  rw [saveTable, saveTable, size, written]

end Same

/-- Opening a database changes nothing exactly if its references have the size of those of the
last one, or the table has none. -/
theorem unaffected_iff (loaded viewed statics opened : Strref) (table : Table) :
    Unaffected loaded viewed statics opened table ↔
      statics = opened ∨ ∀ info ∈ table.colinfo loaded statics, ¬HasReferences info.1 := by
  constructor
  · intro unaffected
    by_contra! both
    obtain ⟨differ, info, isInfo, references⟩ := both
    obtain ⟨i, info, references, place⟩ := exists_reference loaded isInfo references
    have ones := (unaffected ⟨[replicate (rowSize loaded (table.colinfo loaded loaded)) 1], [],
      none, rowSize viewed (table.colinfo loaded viewed)⟩ rfl (by simp [View.rows])).1 0 (i + 1)
    rw [fetchInt_reference (place statics).1 references (place viewed).2,
      fetchInt_reference (place opened).1 references (place viewed).2] at ones
    exact differ (readTableInt_ones (place loaded).2 (Except.ok.inj ones))
  · rintro (rfl | without) view - -
    · exact ⟨fun _ _ => rfl, rfl⟩
    cases table with
    | default =>
      exact absurd (by unfold HasReferences; decide) (without (⟨0x2940⟩, 0) mem_cons_self)
    | own columns =>
      have same (info) (isInfo : info ∈ calcColumnOffsets loaded 0 columns) :
          bytesPerColumn statics info.1 = bytesPerColumn opened info.1 := by
        have noReferences := without info isInfo
        unfold bytesPerColumn Column.bytes HasReferences at *
        grind
      exact ⟨fetchInt_congr same view, saveTable_congr same view⟩

/-- A reference of two bytes, read while a database with long references is open. -/
theorem fetchInt_other_opened :
    let colinfo := (Table.own [⟨0x2d48⟩, ⟨0x1502⟩]).colinfo .short .short
    let view : View := ⟨[[1, 0, 5, 0x80]], [], none, rowSize .short colinfo⟩
    fetchInt .short colinfo view 0 1 = .ok (some 1) ∧
      fetchInt .long colinfo view 0 1 = .ok (some 0x50001) := by
  decide

end Winex.Msi.Statics
