import Winex.MsiInsert
import Mathlib.Data.List.Flatten
import Mathlib.Data.List.NodupEquivFin
import Mathlib.Order.WellFounded

namespace Winex.Msi.Storage

open List

/-!
# Saving and loading a table

The stream of a table has its columns one after the other.  `save_table` writes two
bytes of a cell, or four if the column has four, into a cleared buffer, and
`read_table_from_storage` reads as many bytes as the column has.
-/

/-- A row as the bytes of its cells. -/
abbrev Row :=
  List (List UInt8)

/-- The columns of a table one after the other. -/
def columnMajor (write : Nat → List UInt8 → List UInt8) : List Nat → List Row → List UInt8
  | [], _ => []
  | width :: rest, rows =>
    rows.flatMap (fun row => write width (row.headD [])) ++ columnMajor write rest (rows.map tail)

/-- What `save_table` writes of a cell. -/
def savedBytes (width : Nat) (cell : List UInt8) : List UInt8 :=
  cell.take 2 ++ if width = 4 then (cell.drop 2).take 2 else []

/-- `save_table` for a persistent table whose columns have these widths. -/
def saveTable (widths : List Nat) (rows : List Row) : List UInt8 :=
  let written := columnMajor savedBytes widths rows
  written ++ replicate (rows.length * widths.sum - written.length) 0

/-- The cells of a row, from the column with an offset on. -/
def loadRow (rawdata : List UInt8) (rowCount i : Nat) : Nat → List Nat → Row
  | _, [] => []
  | ofs, width :: rest =>
    (rawdata.drop (ofs * rowCount + i * width)).take width ::
      loadRow rawdata rowCount i (ofs + width) rest

/-- `read_table_from_storage`.  A table without columns is a division by zero. -/
def readTableFromStorage (widths : List Nat) (rawdata : List UInt8) : Option (List Row) :=
  if widths.sum = 0 then none
  else if rawdata.length % widths.sum ≠ 0 then none
  else
    let rowCount := rawdata.length / widths.sum
    if rowCount ≠ 0 ∧ ∃ width ∈ widths, width ≠ 2 ∧ width ≠ 3 ∧ width ≠ 4 then none
    else some ((range rowCount).map fun i => loadRow rawdata rowCount i 0 widths)

/-- Behind the first two bytes of the first column of three bytes there are only zeros. -/
def Survives : List Nat → List Row → Prop
  | [], _ => True
  | width :: rest, rows =>
    if width = 3 then
      ∀ byte ∈ (columnMajor (fun _ cell => cell) (width :: rest) rows).drop 2, byte = 0
    else Survives rest (rows.map tail)

/-- The widths that `bytes_per_column` gives. -/
def columnWidths (schema : Schema) : List Nat :=
  schema.columns.map schema.bytesPerColumn

/-- The cells have the widths of their columns. -/
def Shaped (widths : List Nat) (rows : List Row) : Prop :=
  ∀ row ∈ rows, row.map length = widths

variable {width : Nat} {widths : List Nat} {rows : List Row}

variable (shaped : Shaped (width :: widths) rows)
include shaped

theorem Shaped.tail : Shaped widths (rows.map tail) := by
  intro _ isRow
  obtain ⟨whole, isWhole, rfl⟩ := mem_map.mp isRow
  rw [map_tail, shaped whole isWhole, tail_cons]

variable {cell kept rest : List UInt8} {byte : UInt8} {count : Nat}

theorem Shaped.head (isCell : cell ∈ rows.map (·.headD [])) : cell.length = width := by
  obtain ⟨row, isRow, rfl⟩ := mem_map.mp isCell
  have widths := shaped row isRow
  cases row with
  | nil => cases widths
  | cons => exact (cons.inj widths).1

theorem length_heads : (rows.flatMap fun row => row.headD []).length = rows.length * width := by
  have sizes : (rows.map (·.headD [])).map length = replicate rows.length width := by
    rw [eq_replicate_iff, length_map, length_map]
    refine ⟨rfl, fun size isSize => ?_⟩
    obtain ⟨_, isCell, rfl⟩ := mem_map.mp isSize
    exact shaped.head isCell
  rw [flatMap_def, length_flatten, sizes, sum_replicate_nat]

omit shaped

theorem eq_append_iff_take_drop {raw first second : List UInt8} :
    raw = first ++ second ↔ raw.take first.length = first ∧ raw.drop first.length = second := by
  constructor
  · rintro rfl
    exact ⟨take_left, drop_left⟩
  · rintro ⟨isFirst, isSecond⟩
    rw [← take_append_drop first.length raw, isFirst, isSecond]

/-- Blocks that are read one after the other. -/
theorem map_take_eq_iff (cells : List (List UInt8)) (sizes : ∀ cell ∈ cells, cell.length = width)
    (raw : List UInt8) (length : cells.length * width ≤ raw.length) :
    (range cells.length).map (fun i => (raw.drop (i * width)).take width) = cells ↔
      raw.take (cells.length * width) = cells.flatten := by
  induction cells generalizing raw with
  | nil => simp
  | cons _ _ ih =>
    obtain ⟨size, sizes⟩ := forall_mem_cons.mp sizes
    rw [length_cons, Nat.succ_mul] at length
    have later (i : Nat) : (raw.drop ((i + 1) * width)).take width =
        ((raw.drop width).drop (i * width)).take width := by
      rw [drop_drop, Nat.succ_mul, Nat.add_comm]
    rw [length_cons, range_succ_eq_map, map_cons, map_map, flatten_cons, cons.injEq,
      eq_append_iff_take_drop, size, Nat.zero_mul, drop_zero, take_take, drop_take,
      Nat.succ_mul, Nat.min_eq_left (Nat.le_add_left _ _), Nat.add_sub_cancel,
      ← ih sizes _ (by rw [length_drop]; omega)]
    simp [Function.comp_def, later]

theorem map_cons_eq_iff (cell : Nat → List UInt8) (others : Nat → Row) (indices : List Nat)
    (notEmpty : ∀ row ∈ rows, row ≠ []) :
    indices.map (fun i => cell i :: others i) = rows ↔
      indices.map cell = rows.map (·.headD []) ∧ indices.map others = rows.map tail := by
  induction indices generalizing rows with
  | nil => cases rows <;> simp
  | cons _ _ ih =>
    match rows, notEmpty with
    | [], _ => simp
    | [] :: rows, notEmpty => exact absurd rfl (notEmpty [] mem_cons_self)
    | (head :: rest) :: rows, notEmpty =>
      have tails := ih fun row isRow => notEmpty row (mem_cons_of_mem _ isRow)
      simp only [map_cons, cons.injEq, tails, headD_cons, tail_cons]
      exact and_and_and_comm

/-- Reading the rows gives back rows exactly if the stream has their columns one after the
other. -/
theorem loadRow_eq_iff (shaped : Shaped widths rows) (rawdata : List UInt8) (ofs : Nat)
    (length : rawdata.length = (ofs + widths.sum) * rows.length) :
    (range rows.length).map (fun i => loadRow rawdata rows.length i ofs widths) = rows ↔
      rawdata.drop (ofs * rows.length) = columnMajor (fun _ cell => cell) widths rows := by
  induction widths generalizing ofs rows with
  | nil =>
    have empty : ∀ row ∈ rows, row = [] := fun row isRow => map_eq_nil_iff.mp (shaped row isRow)
    refine iff_of_true ?_ (drop_eq_nil_of_le (by simp [length]))
    rw [eq_replicate_of_mem empty]
    simp [loadRow]
  | cons width _ ih =>
    rw [sum_cons] at length
    have notEmpty : ∀ row ∈ rows, row ≠ [] := by
      rintro _ isRow rfl
      cases shaped [] isRow
    have later := ih shaped.tail (ofs + width) (by rw [length, length_map, Nat.add_assoc])
    have blocks := map_take_eq_iff (rows.map (·.headD [])) (fun _ => shaped.head)
      (rawdata.drop (ofs * rows.length)) (by
        rw [length_drop, length, length_map, Nat.add_mul, Nat.add_mul, Nat.mul_comm width]
        omega)
    have first := length_heads shaped
    simp only [length_map, drop_drop] at later blocks
    simp only [loadRow]
    rw [map_cons_eq_iff _ _ _ notEmpty, columnMajor, eq_append_iff_take_drop, first, drop_drop,
      ← Nat.mul_comm width, ← Nat.add_mul, ← later, Nat.mul_comm width, flatMap_def, blocks]

/-- A list that is a shorter one filled up with zeros has only zeros, if it has the elements
of the shorter one behind its first. -/
theorem eq_zero_of_shifted (sublist : kept <+ rest)
    (same : kept ++ replicate count 0 = byte :: rest) : ∀ other ∈ byte :: rest, other = 0 := by
  obtain ⟨place, isPlace⟩ := sublist_iff_exists_orderEmbedding_getElem?_eq.mp sublist
  -- an element is zero, or there is the same one further behind
  have zeros : ∀ left index other, left + index = (byte :: rest).length →
      (byte :: rest)[index]? = some other → other = 0 := by
    intro left
    induction left using Nat.strong_induction_on with
    | h _ ih =>
      intro index other _ isOther
      rw [← same, getElem?_append] at isOther
      split at isOther
      · rw [isPlace, ← getElem?_cons_succ (a := byte)] at isOther
        have behind : index ≤ place index := StrictMono.le_apply place.strictMono
        have inside := (List.getElem?_eq_some_iff.mp isOther).1
        exact ih ((byte :: rest).length - (place index + 1)) (by omega) _ other (by omega) isOther
      · exact eq_of_mem_replicate (mem_of_getElem? isOther)
  intro other isMember
  obtain ⟨index, isOther⟩ := mem_iff_getElem?.mp isMember
  have inside := (List.getElem?_eq_some_iff.mp isOther).1
  exact zeros ((byte :: rest).length - index) index other (by omega) isOther

variable (write : Nat → List UInt8 → List UInt8)

theorem columnMajor_cons_cons (width : Nat) (rest : List Nat) (row : Row) (others : List Row) :
    columnMajor write (width :: rest) (row :: others) =
      write width (row.headD []) ++ (others.flatMap (fun row => write width (row.headD [])) ++
        columnMajor write rest (row.tail :: others.map tail)) :=
  append_assoc ..

theorem savedBytes_sublist (width : Nat) (cell : List UInt8) : savedBytes width cell <+ cell := by
  conv_rhs => rw [← take_append_drop 2 cell]
  refine (Sublist.refl _).append ?_
  split
  · exact take_sublist _ _
  · exact nil_sublist _

theorem savedBytes_eq (isWidth : width = 2 ∨ width = 4) (size : cell.length = width) :
    savedBytes width cell = cell := by
  unfold savedBytes
  rcases isWidth with rfl | rfl
  · rw [if_neg (by decide), append_nil, take_of_length_le size.le]
  · rw [if_pos rfl, take_of_length_le (by rw [length_drop, size] : (cell.drop 2).length ≤ 2),
      take_append_drop]

theorem columnMajor_sublist (widths : List Nat) (rows : List Row) :
    columnMajor savedBytes widths rows <+ columnMajor (fun _ cell => cell) widths rows := by
  induction widths generalizing rows with
  | nil => exact .refl _
  | cons width _ ih =>
    exact (Sublist.flatMap_right rows fun row _ => savedBytes_sublist width _).append (ih _)

theorem length_columnMajor (shaped : Shaped widths rows) :
    (columnMajor (fun _ cell => cell) widths rows).length = rows.length * widths.sum := by
  induction widths generalizing rows with
  | nil => rfl
  | cons _ _ ih =>
    rw [columnMajor, length_append, length_heads shaped, ih shaped.tail, length_map, sum_cons,
      Nat.mul_add]

theorem columnMajor_nil (widths : List Nat) : columnMajor write widths [] = [] := by
  induction widths with
  | nil => rfl
  | cons _ _ ih => exact ih

theorem filled_iff (sublist : kept <+ rest) (length : kept.length + count = rest.length + 1) :
    kept ++ replicate count 0 = byte :: rest ↔ ∀ other ∈ byte :: rest, other = 0 := by
  refine ⟨eq_zero_of_shifted sublist, fun zeros => ?_⟩
  rw [eq_replicate_of_mem zeros, eq_replicate_of_mem fun other isOther =>
    zeros other (mem_cons_of_mem byte (sublist.subset isOther)), replicate_append_replicate,
    length, length_cons]

/-- What is written, filled up with zeros, is the whole table exactly if the bytes that are
left out and all behind them are zeros. -/
theorem columnMajor_saved_iff (shaped : Shaped widths rows)
    (supported : ∀ width ∈ widths, width = 2 ∨ width = 3 ∨ width = 4)
    (length : (columnMajor savedBytes widths rows).length + count =
      (columnMajor (fun _ cell => cell) widths rows).length) :
    columnMajor savedBytes widths rows ++ replicate count 0 =
        columnMajor (fun _ cell => cell) widths rows ↔ Survives widths rows := by
  induction widths generalizing rows with
  | nil => simpa [columnMajor, Survives] using length
  | cons width rest ih =>
    obtain ⟨_, supported⟩ := forall_mem_cons.mp supported
    rw [Survives]
    split
    next three =>
      subst three
      match rows, shaped with
      | [], _ =>
        simp only [columnMajor_nil, length_nil, Nat.zero_add] at length
        simp [columnMajor_nil, length]
      | row :: others, shaped =>
        match row, shaped row mem_cons_self with
        | [a, b, c] :: cells, _ =>
          have sublist := (Sublist.flatMap_right others fun row _ =>
            savedBytes_sublist 3 (row.headD [])).append
              (columnMajor_sublist rest (cells :: others.map tail))
          rw [columnMajor_cons_cons, columnMajor_cons_cons, tail_cons] at length
          rw [columnMajor_cons_cons, columnMajor_cons_cons, tail_cons]
          generalize _ ++ columnMajor savedBytes rest _ = kept at *
          generalize _ ++ columnMajor (fun _ cell => cell) rest _ = behind at *
          change (a :: b :: kept).length + count = (a :: b :: c :: behind).length at length
          change a :: b :: (kept ++ replicate count 0) = a :: b :: c :: behind ↔
            ∀ byte ∈ c :: behind, byte = 0
          simp only [length_cons] at length
          simp only [cons.injEq, true_and]
          exact filled_iff sublist (by omega)
    next notThree =>
      have whole : rows.flatMap (fun row => savedBytes width (row.headD [])) =
          rows.flatMap (fun row => row.headD []) := by
        refine flatMap_congr fun row isRow => savedBytes_eq ?_ (shaped.head (mem_map_of_mem isRow))
        omega
      simp only [columnMajor, whole, length_append, Nat.add_assoc] at length ⊢
      rw [append_assoc, append_cancel_left_eq]
      exact ih shaped.tail supported (Nat.add_left_cancel length)

/-- A table that is saved and loaded again is the same exactly if it has columns, and all
bytes behind the first two of the first column of three bytes are zeros. -/
theorem read_saved_iff (schema : Schema)
    (supported : ∀ column ∈ schema.columns, schema.Supported column) (rows : List Row)
    (shaped : Shaped (columnWidths schema) rows) :
    readTableFromStorage (columnWidths schema) (saveTable (columnWidths schema) rows) = some rows ↔
      schema.columns ≠ [] ∧ Survives (columnWidths schema) rows := by
  have known : ∀ width ∈ columnWidths schema,
      width = 2 ∨ width = 3 ∨ width = 4 := forall_mem_map.mpr supported
  have isEmpty : schema.columns = [] ↔ columnWidths schema = [] := map_eq_nil_iff.symm
  rw [Ne, isEmpty]
  generalize columnWidths schema = widths at *
  have fits := (columnMajor_sublist widths rows).length_le
  have total := length_columnMajor shaped
  have length : (saveTable widths rows).length = rows.length * widths.sum := by
    rw [saveTable, length_append, length_replicate]
    omega
  unfold readTableFromStorage
  match widths, known with
  | [], _ => simp
  | width :: rest, known =>
    have positive : 0 < (width :: rest).sum := by
      have least := known width mem_cons_self
      rw [sum_cons]
      omega
    rw [if_neg (Nat.ne_of_gt positive), length, if_neg (by simp), Nat.mul_div_cancel _ positive]
    rw [if_neg, Option.some.injEq, loadRow_eq_iff shaped _ 0, Nat.zero_mul, drop_zero, saveTable,
      columnMajor_saved_iff shaped known (by omega)]
    · simp
    · rw [length, Nat.zero_add, Nat.mul_comm]
    · rintro ⟨-, width, isWidth, _⟩
      have := known width isWidth
      omega

/-- A column of two bytes and one of four. -/
def shortAndLong : Schema :=
  { Schema.shortKeys with columns := [⟨0x2102⟩, ⟨0x0104⟩] }

/-- Two rows of them survive. -/
theorem read_saved_short :
    readTableFromStorage (columnWidths shortAndLong)
        (saveTable (columnWidths shortAndLong)
          [[[5, 0x80], [1, 0, 0, 0x80]], [[6, 0x80], [2, 0, 0, 0x80]]]) =
      some [[[5, 0x80], [1, 0, 0, 0x80]], [[6, 0x80], [2, 0, 0, 0x80]]] :=
  (read_saved_iff shortAndLong (by decide) _ (by unfold Shaped; decide)).mpr ⟨by decide, trivial⟩

/-- A column of strings and one of integers in a database with long references. -/
def longReferences : Schema :=
  { Schema.shortKeys with
    columns := [⟨0x2d48⟩, ⟨0x1502⟩]
    bytesPerStrref := 3
    strref := .inr rfl }

/-- The integer is written where the last byte of the reference belongs. -/
theorem read_saved_long :
    readTableFromStorage (columnWidths longReferences)
        (saveTable (columnWidths longReferences)
          [[[1, 0, 0], [5, 0x80]]]) = some [[[1, 0, 5], [0x80, 0]]] := by
  decide

end Winex.Msi.Storage
