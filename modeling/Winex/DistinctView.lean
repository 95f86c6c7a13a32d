import Mathlib.Data.List.Range
import Mathlib.Logic.Function.Basic
import Mathlib.Order.Basic
import Winex.MsiView

namespace Winex.Msi

open List hiding set insert

/-!
# Distinct rows

`DISTINCT_execute` inserts the rows of its base view, value by value, into a tree.  A
row is distinct if its last value makes a new node, which then bears the row's number.
The rows found are appended to an array with a counter that only `DISTINCT_close`
resets.
-/

/-- A pointer to a `DISTINCTSET`: a value, how often it was inserted, the row that brought
it, its next sibling and the values of the next column. -/
inductive DistinctSet where
  | null
  | node (val count row : Nat) (nextrow nextcol : DistinctSet)

/-- `distinct_insert`: the node of a value among its siblings, a new one at their end if
there is none, and what is then done with its row and its children. -/
def distinctInsert (val row : Nat) (below : Nat → DistinctSet → DistinctSet × Nat) :
    DistinctSet → DistinctSet × Nat
  | .null => (.node val 1 row .null (below row .null).1, (below row .null).2)
  | .node here count stamp nextrow nextcol =>
    if here = val then
      (.node here (count + 1) stamp nextrow (below stamp nextcol).1, (below stamp nextcol).2)
    else
      let inserted := distinctInsert val row below nextrow
      (.node here count stamp inserted.1 nextcol, inserted.2)

/-- The loop over the columns of a row: the tree with the row inserted, and the row that
the last node bears. -/
def insertValues (row : Nat) : Nat → List Nat → DistinctSet → DistinctSet × Nat
  | val, [], set => distinctInsert val row (fun stamp nextcol => (nextcol, stamp)) set
  | val, next :: rest, set =>
    distinctInsert val row (fun _ nextcol => insertValues row next rest nextcol) set

/-- The array of row numbers while it is built: its counter, what was written to it, and
at which places. -/
structure Listing where
  rowCount : Nat
  cells : Nat → Option Nat
  writes : List Nat

/-- `dv->translation[dv->row_count++] = i`. -/
def Listing.push (listing : Listing) (row : Nat) : Listing where
  rowCount := (listing.rowCount + 1) % 0x100000000
  cells := Function.update listing.cells listing.rowCount (some row)
  writes := listing.writes ++ [listing.rowCount]

/-- The values of a row, column by column. -/
def fetchRow (table : View) (cols row : Nat) : Except Failure (List Nat) :=
  (List.range cols).mapM fun col => table.fetchInt row (col + 1)

/-- The loop over the rows.  A row without columns leaves a null pointer to be read, for
which there is no result. -/
def distinctLoop (table : View) (cols : Nat) :
    Nat → Nat → DistinctSet → Listing → Option (Except Failure Unit) × Listing
  | 0, _, _, listing => (some (.ok ()), listing)
  | count + 1, row, set, listing =>
    match fetchRow table cols row with
    | .error error => (some (.error error), listing)
    | .ok [] => (none, listing)
    | .ok (val :: rest) =>
      distinctLoop table cols count (row + 1) (insertValues row val rest set).1
        (if (insertValues row val rest set).2 = row then listing.push row else listing)

/-- An `MSIDISTINCTVIEW`, with what was written to its array if there is one. -/
structure DistinctView where
  table : View
  rowCount : Nat
  translation : Option (Nat → Option Nat)

/-- What an execution returns and where it wrote. -/
structure DistinctOutcome where
  view : DistinctView
  result : Option (Except Failure Unit)
  writes : List Nat

/-- `DISTINCT_execute`. -/
def DistinctView.execute (dv : DistinctView) : DistinctOutcome :=
  match dv.table.execute with
  | .error error => ⟨dv, some (.error error), []⟩
  | .ok () =>
    match dv.table.dimensions with
    | .error error => ⟨dv, some (.error error), []⟩
    | .ok (rows, cols) =>
      let (result, listing) :=
        distinctLoop dv.table cols rows 0 .null ⟨dv.rowCount, fun _ => none, []⟩
      ⟨{ dv with rowCount := listing.rowCount, translation := some listing.cells },
        result, listing.writes⟩

/-- `DISTINCT_close`. -/
def DistinctView.close (dv : DistinctView) : DistinctView :=
  { dv with rowCount := 0, translation := none }

/-- No earlier row has the same values. -/
def IsFirst (table : View) (cols row : Nat) : Prop :=
  ∀ earlier < row, fetchRow table cols earlier ≠ fetchRow table cols row

instance (table : View) (cols row : Nat) : Decidable (IsFirst table cols row) :=
  inferInstanceAs (Decidable (∀ earlier < row, _ ≠ _))

/-- The rows of the base view that are the first with their values, in its order. -/
def distinctRows (table : View) (rows cols : Nat) : List Nat :=
  (List.range rows).filter (IsFirst table cols ·)

/-- The view lists these rows of its base view. -/
def DistinctView.Lists (dv : DistinctView) (rows : List Nat) : Prop :=
  dv.rowCount = rows.length ∧
    ∃ cells, dv.translation = some cells ∧ ∀ index : Nat, index < rows.length →
      cells index = rows[index]?

/-- The row and the next column of the node of a value among its siblings. -/
def findValue (val : Nat) : DistinctSet → Option (Nat × DistinctSet)
  | .null => none
  | .node here _ stamp nextrow nextcol =>
    if here = val then some (stamp, nextcol) else findValue val nextrow

/-- The row that the last node of a list of values bears. -/
def stampOf : Nat → List Nat → DistinctSet → Option Nat
  | val, [], set => (findValue val set).map Prod.fst
  | val, next :: rest, set => (findValue val set).bind fun found => stampOf next rest found.2

theorem distinctInsert_result (val row : Nat) (below : Nat → DistinctSet → DistinctSet × Nat)
    (set : DistinctSet) :
    (distinctInsert val row below set).2 =
      (below ((findValue val set).getD (row, .null)).1
        ((findValue val set).getD (row, .null)).2).2 := by
  induction set with
  | null => rfl
  | node here _ _ _ _ rowInduction =>
    rw [distinctInsert, findValue]
    by_cases same : here = val
    · rw [if_pos same, if_pos same, Option.getD_some]
    · rw [if_neg same, if_neg same]
      exact rowInduction

theorem findValue_distinctInsert (other val row : Nat)
    (below : Nat → DistinctSet → DistinctSet × Nat) (set : DistinctSet) :
    findValue other (distinctInsert val row below set).1 =
      if other = val then
        some (((findValue val set).getD (row, .null)).1,
          (below ((findValue val set).getD (row, .null)).1
            ((findValue val set).getD (row, .null)).2).1)
      else findValue other set := by
  induction set with
  | null =>
    by_cases same : other = val
    · subst same
      simp [distinctInsert, findValue]
    · simp [distinctInsert, findValue, same, Ne.symm same]
  | node here _ _ _ _ rowInduction =>
    by_cases hit : here = val
    · subst hit
      by_cases same : other = here
      · subst same
        simp [distinctInsert, findValue]
      · simp [distinctInsert, findValue, same, Ne.symm same]
    · by_cases same : here = other
      · subst same
        simp [distinctInsert, findValue, hit]
      · simp [distinctInsert, findValue, hit, same, rowInduction]

theorem insertValues_result (row val : Nat) (rest : List Nat) (set : DistinctSet) :
    (insertValues row val rest set).2 = (stampOf val rest set).getD row := by
  induction rest generalizing val set with
  | nil =>
    rw [insertValues, distinctInsert_result, stampOf]
    cases findValue val set <;> rfl
  | cons next rest ih =>
    rw [insertValues, distinctInsert_result, stampOf, ih]
    cases findValue val set with
    | none =>
      have unknown : stampOf next rest .null = none := by cases rest <;> rfl
      simp [unknown]
    | some => rfl

theorem stampOf_insertValues (row val other : Nat) {rest others : List Nat}
    (sameLength : others.length = rest.length) (set : DistinctSet) :
    stampOf other others (insertValues row val rest set).1 =
      if other = val ∧ others = rest then some ((stampOf val rest set).getD row)
      else stampOf other others set := by
  induction rest generalizing val other others set with
  | nil =>
    obtain rfl := eq_nil_of_length_eq_zero sameLength
    rw [insertValues, stampOf, findValue_distinctInsert]
    by_cases same : other = val
    · subst same
      simp only [if_true, and_self, stampOf]
      cases findValue other set <;> rfl
    · simp [same, stampOf]
  | cons next rest ih =>
    cases others with
    | nil => cases sameLength
    | cons second =>
      have deeper := ih next second (Nat.succ.inj sameLength)
      have unknown (val : Nat) (rest : List Nat) : stampOf val rest .null = none := by
        cases rest <;> rfl
      rw [insertValues, stampOf, findValue_distinctInsert]
      by_cases same : other = val
      · subst same
        rw [if_pos rfl, Option.bind_some, deeper]
        simp only [stampOf]
        cases findValue other set with
        | none => simp [unknown]
        | some => simp
      · rw [if_neg same, if_neg (fun both => same both.1), stampOf]

/-- The tree knows, for all values of a row, the first row before that has them. -/
def Agrees (table : View) (cols row : Nat) (set : DistinctSet) : Prop :=
  ∀ val rest, rest.length + 1 = cols → ∀ stamp, stampOf val rest set = some stamp ↔
    stamp < row ∧ fetchRow table cols stamp = .ok (val :: rest) ∧ IsFirst table cols stamp

variable {cols : Nat} {dv : DistinctView}

theorem exists_isFirst {table : View} {row : Nat} (repeated : ¬IsFirst table cols row) :
    ∃ first < row, fetchRow table cols first = fetchRow table cols row ∧
      IsFirst table cols first := by
  induction row using Nat.strong_induction_on with
  | _ _ ih =>
    simp only [IsFirst, not_forall, not_not] at repeated
    obtain ⟨earlier, before, same⟩ := repeated
    by_cases first : IsFirst table cols earlier
    · exact ⟨earlier, before, same, first⟩
    · obtain ⟨first, firstBefore, firstSame, isFirst⟩ := ih earlier before first
      exact ⟨first, firstBefore.trans before, firstSame.trans same, isFirst⟩

section Insertion

variable {table : View} {cols row val : Nat} {rest : List Nat} {set : DistinctSet}

variable (read : fetchRow table cols row = .ok (val :: rest))
include read

/-- The number of values read is the number of columns. -/
theorem length_fetchRow : rest.length + 1 = cols := by
  have lengths (list : List Nat) (values : List Nat)
      (result : list.mapM (fun col => table.fetchInt row (col + 1)) = .ok values) :
      values.length = list.length := by
    induction list generalizing values with
    | nil =>
      cases result
      rfl
    | cons col list ih =>
      rw [mapM_cons] at result
      cases head : table.fetchInt row (col + 1) <;> rw [head] at result
      · cases result
      cases tail : list.mapM (fun col => table.fetchInt row (col + 1)) <;>
        rw [tail] at result <;> cases result
      exact congrArg (· + 1) (ih _ tail)
  have length := lengths _ _ read
  rw [length_range] at length
  exact length

variable (agrees : Agrees table cols row set)
include agrees

/-- The row is the first with its values exactly if the tree does not know them. -/
theorem Agrees.isFirst_iff : stampOf val rest set = none ↔ IsFirst table cols row := by
  have known := agrees val rest (length_fetchRow read)
  constructor
  · intro unknown
    by_contra repeated
    obtain ⟨first, before, same, isFirst⟩ := exists_isFirst repeated
    have found := (known first).mpr ⟨before, same.trans read, isFirst⟩
    rw [unknown] at found
    cases found
  · intro isFirst
    rw [Option.eq_none_iff_forall_not_mem]
    intro stamp found
    obtain ⟨before, same, -⟩ := (known stamp).mp found
    exact isFirst stamp before (same.trans read.symm)

theorem Agrees.inserted_iff : (insertValues row val rest set).2 = row ↔ IsFirst table cols row := by
  rw [insertValues_result, ← agrees.isFirst_iff read]
  cases found : stampOf val rest set with
  | none => simp
  | some stamp =>
    have before := ((agrees val rest (length_fetchRow read) stamp).mp found).1
    simp [before.ne]

/-- After the insertion the tree knows the row too. -/
theorem Agrees.insert : Agrees table cols (row + 1) (insertValues row val rest set).1 := by
  intro other others length stamp
  have restLength := length_fetchRow read
  -- a first row up to this one was known before, or is this one
  have upTo : (stamp < row + 1 ∧ fetchRow table cols stamp = .ok (other :: others) ∧
      IsFirst table cols stamp) ↔ stampOf other others set = some stamp ∨
        stamp = row ∧ fetchRow table cols row = .ok (other :: others) ∧
          IsFirst table cols row := by
    rw [agrees other others length stamp, Nat.lt_succ_iff_lt_or_eq, or_and_right]
    exact or_congr_right (and_congr_right fun same => by rw [same])
  rw [upTo, stampOf_insertValues row val other (by omega), read, ← agrees.isFirst_iff read]
  by_cases same : other = val ∧ others = rest
  · obtain ⟨rfl, rfl⟩ := same
    rw [if_pos ⟨rfl, rfl⟩]
    cases stampOf other others set with
    | none => simp [eq_comm]
    | some => simp
  · rw [if_neg same, or_iff_left]
    rintro ⟨-, agree, -⟩
    cases agree
    exact same ⟨rfl, rfl⟩

end Insertion

theorem distinctLoop_pushes (table : View) (cols count row : Nat) (set : DistinctSet)
    (agrees : Agrees table cols row set) (listing : Listing) :
    ∃ passed ≤ count, (distinctLoop table cols count row set listing).2 =
        ((List.range' row passed).filter (IsFirst table cols ·)).foldl Listing.push listing ∧
      ((distinctLoop table cols count row set listing).1 = some (.ok ()) → passed = count) := by
  induction count generalizing row set listing with
  | zero => exact ⟨0, le_rfl, rfl, fun _ => rfl⟩
  | succ _ ih =>
    rw [distinctLoop]
    cases read : fetchRow table cols row with
    | error => exact ⟨0, Nat.zero_le _, rfl, nofun⟩
    | ok values =>
      cases values with
      | nil => exact ⟨0, Nat.zero_le _, rfl, nofun⟩
      | cons val rest =>
        obtain ⟨passed, atMost, pushed, all⟩ := ih (row + 1) _ (agrees.insert read)
          (if (insertValues row val rest set).2 = row then listing.push row else listing)
        refine ⟨passed + 1, Nat.succ_le_succ atMost, ?_, ?_⟩
        · rw [range'_succ, filter_cons]
          refine pushed.trans ?_
          by_cases isFirst : IsFirst table cols row
          · rw [if_pos ((agrees.inserted_iff read).mpr isFirst),
              if_pos (decide_eq_true isFirst), foldl_cons]
          · rw [if_neg (mt (agrees.inserted_iff read).mp isFirst),
              if_neg (mt of_decide_eq_true isFirst)]
        · exact fun ended => congrArg (· + 1) (all ended)

theorem rowCount_pushes (rows : List Nat) {listing : Listing}
    (small : listing.rowCount < 0x100000000) :
    (rows.foldl Listing.push listing).rowCount =
      (listing.rowCount + rows.length) % 0x100000000 := by
  induction rows generalizing listing with
  | nil => exact (Nat.mod_eq_of_lt small).symm
  | cons row _ ih =>
    have next : (listing.push row).rowCount < 0x100000000 := Nat.mod_lt _ (by decide)
    rw [foldl_cons, ih next, length_cons]
    simp only [Listing.push]
    omega

/-- Rows appended to an empty array that has room to count them. -/
theorem pushes_fresh (rows : List Nat) (small : rows.length < 0x100000000) :
    (∀ index < rows.length,
      (rows.foldl Listing.push ⟨0, fun _ => none, []⟩).cells index = rows[index]?) ∧
      (rows.foldl Listing.push ⟨0, fun _ => none, []⟩).writes = List.range rows.length := by
  induction rows using reverseRecOn with
  | nil => exact ⟨nofun, rfl⟩
  | append_singleton rows _ ih =>
    rw [length_append, length_singleton] at small ⊢
    obtain ⟨cells, writes⟩ := ih (by omega)
    have count : (rows.foldl Listing.push ⟨0, fun _ => none, []⟩).rowCount = rows.length := by
      rw [rowCount_pushes rows (Nat.zero_lt_succ _)]
      simp only
      omega
    rw [foldl_append, foldl_cons, foldl_nil]
    constructor
    · intro index _
      simp only [Listing.push, count]
      by_cases last : index = rows.length
      · subst last
        simp
      · rw [Function.update_of_ne last, cells index (by omega), getElem?_append_left (by omega)]
    · simp only [Listing.push, count, writes, range_succ]

/-- The states of a view of distinct rows: it is created with its counter at zero, the
base view changes, and it is executed and closed. -/
inductive DistinctView.Reached : DistinctView → Prop where
  | created (table : View) : Reached ⟨table, 0, none⟩
  | changed {dv : DistinctView} (table : View) (reached : Reached dv) : Reached { dv with table }
  | executed {dv : DistinctView} (reached : Reached dv) : Reached dv.execute.view
  | closed {dv : DistinctView} (reached : Reached dv) : Reached dv.close

/-- What an execution does once the base view has told its size. -/
theorem DistinctView.execute_eq (executed : dv.table.execute = .ok ()) {rows : Nat}
    (dimensions : dv.table.dimensions = .ok (rows, cols)) :
    ∃ passed ≤ rows,
      let listing := ((range passed).filter (IsFirst dv.table cols ·)).foldl Listing.push
        ⟨dv.rowCount, fun _ => none, []⟩
      dv.execute.view =
          { dv with rowCount := listing.rowCount, translation := some listing.cells } ∧
        dv.execute.writes = listing.writes ∧
        (dv.execute.result = some (.ok ()) → passed = rows) := by
  obtain ⟨passed, atMost, pushed, all⟩ := distinctLoop_pushes dv.table cols rows 0 .null
    (fun _ rest _ _ => by cases rest <;> simp [stampOf, findValue]) ⟨dv.rowCount, fun _ => none, []⟩
  rw [← range_eq_range'] at pushed
  refine ⟨passed, atMost, ?_⟩
  rw [DistinctView.execute, executed, dimensions]
  simp only [← pushed]
  exact ⟨trivial, trivial, all⟩

/-- The counter always fits. -/
theorem DistinctView.Reached.rowCount_lt (reached : Reached dv) : dv.rowCount < 0x100000000 := by
  induction reached with
  | created => exact Nat.zero_lt_succ _
  | changed _ _ small => exact small
  | closed => exact Nat.zero_lt_succ _
  | @executed dv _ small =>
    cases executed : dv.table.execute with
    | error =>
      rw [DistinctView.execute, executed]
      exact small
    | ok =>
      cases dimensions : dv.table.dimensions with
      | error =>
        rw [DistinctView.execute, executed, dimensions]
        exact small
      | ok =>
        obtain ⟨_, -, view, -⟩ := DistinctView.execute_eq executed dimensions
        rw [view, rowCount_pushes _ small]
        exact Nat.mod_lt _ (by decide)

/-- In every state, an execution that succeeds lists the distinct rows and writes inside the
array exactly if the counter was zero; and then it writes inside the array whether it
succeeds or not. -/
theorem executed_distinct_iff {dv : DistinctView} (reached : dv.Reached) {rows cols : Nat}
    (executed : dv.table.execute = .ok ()) (dimensions : dv.table.dimensions = .ok (rows, cols))
    (small : rows < 0x100000000) :
    (dv.execute.result = some (.ok ()) →
      (dv.execute.view.Lists (distinctRows dv.table rows cols) ∧
          (∀ index ∈ dv.execute.writes, index < rows) ↔
        dv.rowCount = 0)) ∧ (dv.rowCount = 0 → ∀ index ∈ dv.execute.writes, index < rows) := by
  obtain ⟨passed, _, view, writes, all⟩ := DistinctView.execute_eq executed dimensions
  have length : ((range passed).filter (IsFirst dv.table cols ·)).length ≤ passed := by
    simpa using length_filter_le (IsFirst dv.table cols ·) (range passed)
  have inside : dv.rowCount = 0 → ∀ index ∈ dv.execute.writes, index < rows := by
    intro fresh _ written
    rw [writes, fresh, (pushes_fresh _ (by omega)).2, mem_range] at written
    omega
  refine ⟨fun succeeded => ?_, inside⟩
  obtain rfl := all succeeded
  have count : dv.execute.view.rowCount =
      (dv.rowCount + (distinctRows dv.table passed cols).length) % 0x100000000 := by
    rw [view]
    exact rowCount_pushes _ reached.rowCount_lt
  have distinctLength : (distinctRows dv.table passed cols).length ≤ passed := length
  constructor
  · rintro ⟨⟨listed, -⟩, -⟩
    have := reached.rowCount_lt
    omega
  · intro fresh
    refine ⟨⟨?_, ?_⟩, inside fresh⟩
    · omega
    · rw [view, fresh]
      exact ⟨_, rfl, (pushes_fresh _ (by omega)).1⟩

/-- Three rows of two columns, of which the first and the last are the same. -/
def repeated : View where
  execute := .ok ()
  dimensions := .ok (3, 2)
  fetchInt row col := .ok (if row = 1 then 7 else col)

/-- The first execution over it lists the rows 0 and 1. -/
theorem executed_distinct_repeated :
    (⟨repeated, 0, none⟩ : DistinctView).execute.view.Lists [0, 1] ∧
      ∀ index ∈ (⟨repeated, 0, none⟩ : DistinctView).execute.writes, index < 3 :=
  have reached : (⟨repeated, 0, none⟩ : DistinctView).Reached := .created repeated
  have dimensions : repeated.dimensions = .ok (3, 2) := rfl
  ((executed_distinct_iff reached rfl dimensions (by decide)).1 rfl).mpr rfl

/-- The second one, without a close in between, lists four rows and writes behind the
array. -/
theorem executed_distinct_twice :
    let second := (⟨repeated, 0, none⟩ : DistinctView).execute.view.execute
    second.result = some (.ok ()) ∧ second.view.rowCount = 4 ∧ 3 ∈ second.writes ∧
      distinctRows repeated 3 2 = [0, 1] := by
  decide +kernel

end Winex.Msi
