import Winex.MixedRadix
import Winex.MsiView

namespace Winex.Msi

open MixedRadix List

/-!
# Joined tables

`JOIN_execute` multiplies the numbers of rows of its tables; `JOIN_fetch_int` splits the
number of a joined row into one row of each.  The product is accumulated in a field that
no execution resets.
-/

/-- A `JOINTABLE`: a table, its columns, and what the last execution has noted of it. -/
structure JoinTable where
  view : View
  columns : Nat
  rows : Nat
  nextRows : Nat

/-- An `MSIJOINVIEW`. -/
structure JoinView where
  tables : List JoinTable
  columns : Nat
  rows : Nat

/-- How the loop over the tables in `JOIN_execute` ends. -/
inductive Measured where
  | failed (error : Failure)
  | empty
  | all
  deriving DecidableEq

/-- The loop of `JOIN_execute` that multiplies the numbers of rows.  The result of the
table's own execution is not looked at. -/
def measureTables (rows : Nat) : List JoinTable → List JoinTable × Nat × Measured
  | [] => ([], rows, .all)
  | table :: rest =>
    match table.view.dimensions with
    | .error error => (table :: rest, rows, .failed error)
    | .ok (count, _) =>
      let table := { table with rows := count }
      -- each table must have at least one row
      if count = 0 then (table :: rest, 0, .empty)
      else
        let rows := if rows = 0 then count else rows * count % 0x100000000
        let (rest, rows, measured) := measureTables rows rest
        (table :: rest, rows, measured)

/-- The loop of `JOIN_execute` that notes how many joined rows the tables behind a table
make. -/
def setNextRows (rows : Nat) : List JoinTable → List JoinTable
  | [] => []
  | table :: rest =>
    { table with nextRows := rows / table.rows } :: setNextRows (rows / table.rows) rest

/-- `JOIN_execute`. -/
def JoinView.execute (jv : JoinView) : JoinView × Except Failure Unit :=
  match measureTables jv.rows jv.tables with
  | (tables, rows, .failed error) => ({ jv with tables, rows }, .error error)
  | (tables, rows, .empty) => ({ jv with tables, rows }, .ok ())
  | (tables, rows, .all) => ({ jv with tables := setNextRows rows tables, rows }, .ok ())

/-- The loop of `JOIN_fetch_int`, with the columns and the product of the rows of the tables
passed.  There is no result for a division by zero or behind the end of the list. -/
def fetchJoined (rows row col cols prevRows : Nat) : List JoinTable → Option (Except Failure Nat)
  | [] => none
  | table :: rest =>
    if col ≤ cols + table.columns then
      if table.nextRows = 0 ∨ rows / table.nextRows = 0 ∨ prevRows = 0 then none
      else
        some (table.view.fetchInt (row % (rows / table.nextRows) / prevRows) (col - cols))
    else
      fetchJoined rows row col (cols + table.columns) (prevRows * table.rows % 0x100000000) rest

/-- `JOIN_fetch_int`. -/
def JoinView.fetchInt (jv : JoinView) (row col : Nat) : Option (Except Failure Nat) :=
  if col = 0 ∨ jv.columns < col then some (.error .functionFailed)
  else if jv.rows ≤ row then some (.error .functionFailed)
  else fetchJoined jv.rows row col 0 1 jv.tables

/-- The columns of the tables together. -/
def totalColumns : List JoinTable → Nat
  | [] => 0
  | table :: rest => table.columns + totalColumns rest

/-- What `JOIN_CreateView` and the types of the fields ensure: at least one table, the
columns of all of them, and numbers of rows that fit. -/
structure JoinView.WellFormed (jv : JoinView) : Prop where
  nonempty : jv.tables ≠ []
  columns : jv.columns = totalColumns jv.tables
  rows : jv.rows < 0x100000000
  counts : ∀ table ∈ jv.tables, ∀ rows cols,
    table.view.dimensions = .ok (rows, cols) → rows < 0x100000000

/-- The numbers of rows that the tables have at present. -/
def Counts (tables : List JoinTable) (counts : List Nat) : Prop :=
  tables.map (fun table => table.view.dimensions.map Prod.fst) = counts.map .ok

/-- The view has as many rows as the tables' counts multiply to, and its rows one after the
other are every tuple of rows of the tables once. -/
def JoinView.Lists (jv : JoinView) (counts : List Nat) : Prop :=
  jv.rows = volume counts ∧
    ∃ tuple : Nat → List Nat, Set.BijOn tuple {row | row < jv.rows} {rows | Within counts rows} ∧
      ∀ row < jv.rows, ∀ before table after, jv.tables = before ++ table :: after →
        ∀ baseRow, (tuple row)[before.length]? = some baseRow →
          ∀ col, 0 < col → col ≤ table.columns →
            jv.fetchInt row (totalColumns before + col) = some (table.view.fetchInt baseRow col)

/-- The product accumulated over the tables. -/
def accumulated (rows : Nat) : List Nat → Nat
  | [] => rows
  | count :: counts =>
    if count = 0 then 0
    else accumulated (if rows = 0 then count else rows * count % 0x100000000) counts

variable {tables : List JoinTable} {counts : List Nat} {rows : Nat} {jv : JoinView}

variable {table : JoinTable}

theorem counts_cons (counted : Counts (table :: tables) counts) :
    ∃ count rest cols, counts = count :: rest ∧
      table.view.dimensions = .ok (count, cols) ∧ Counts tables rest := by
  cases counts with
  | nil => cases counted
  | cons count rest =>
    obtain ⟨head, others⟩ := cons.inj counted
    have first : table.view.dimensions.map Prod.fst = .ok count := head
    cases dimensions : table.view.dimensions <;> rw [dimensions] at first <;> cases first
    exact ⟨_, rest, _, rfl, rfl, others⟩

variable (counted : Counts tables counts) (positive : ∀ count ∈ counts, 0 < count)

include positive counted in
theorem measureTables_all (rows : Nat) :
    measureTables rows tables =
      (List.zipWith (fun table count => { table with rows := count }) tables counts,
        accumulated rows counts, .all) := by
  induction tables generalizing counts rows with
  | nil =>
    obtain rfl := map_eq_nil_iff.mp counted.symm
    rfl
  | cons _ _ ih =>
    obtain ⟨_, _, _, rfl, dimensions, others⟩ := counts_cons counted
    obtain ⟨here, restPositive⟩ := forall_mem_cons.mp positive
    simp [measureTables, dimensions, accumulated, if_neg here.ne', ih others restPositive]

include counted in
/-- If a table has no rows, the joined view has none. -/
theorem measureTables_empty (zero : 0 ∈ counts) (rows : Nat) :
    ∃ noted, measureTables rows tables = (noted, 0, .empty) := by
  induction tables generalizing counts rows with
  | nil =>
    cases counts with
    | nil => cases zero
    | cons => cases counted
  | cons _ _ ih =>
    obtain ⟨count, rest, _, rfl, dimensions, others⟩ := counts_cons counted
    simp only [measureTables, dimensions]
    by_cases empty : count = 0
    · exact ⟨_, if_pos empty⟩
    have later : 0 ∈ rest := (mem_cons.mp zero).resolve_left (Ne.symm empty)
    obtain ⟨_, measured⟩ := ih others later (if rows = 0 then count else rows * count % 0x100000000)
    rw [if_neg empty, measured]
    exact ⟨_, rfl⟩

include positive in
/-- Without a wrap to zero the accumulated product is the product in 32 bits. -/
theorem accumulated_eq (small : rows < 0x100000000)
    (notZero : rows * volume counts % 0x100000000 ≠ 0) :
    accumulated rows counts = rows * volume counts % 0x100000000 := by
  induction counts generalizing rows with
  | nil => rw [accumulated, volume, Nat.mul_one, Nat.mod_eq_of_lt small]
  | cons count counts ih =>
    obtain ⟨here, restPositive⟩ := forall_mem_cons.mp positive
    have started : rows ≠ 0 := by
      rintro rfl
      simp at notZero
    have same : rows * count % 0x100000000 * volume counts % 0x100000000 =
        rows * volume (count :: counts) % 0x100000000 := by
      rw [Nat.mod_mul_mod, volume, Nat.mul_assoc]
    rw [← same] at notZero ⊢
    rw [accumulated, if_neg here.ne', if_neg started]
    exact ih restPositive (Nat.mod_lt _ (by decide)) notZero

/-- The product of the first execution, and of one behind an empty table. -/
theorem accumulated_zero (nonempty : counts ≠ []) (positive : ∀ count ∈ counts, 0 < count)
    (small : volume counts < 0x100000000) : accumulated 0 counts = volume counts := by
  cases counts with
  | nil => exact absurd rfl nonempty
  | cons count counts =>
    obtain ⟨here, restPositive⟩ := forall_mem_cons.mp positive
    have more : 0 < volume counts := volume_pos_iff.mpr restPositive
    have countSmall : count < 0x100000000 := (Nat.le_mul_of_pos_right count more).trans_lt small
    have product : count * volume counts % 0x100000000 = volume (count :: counts) :=
      Nat.mod_eq_of_lt small
    have notZero : count * volume counts % 0x100000000 ≠ 0 := by
      rw [product]
      exact (Nat.mul_pos here more).ne'
    rw [accumulated, if_neg here.ne', if_pos rfl,
      accumulated_eq restPositive countSmall notZero, product]

include positive in
/-- Where the product wraps to zero, the count starts again behind that table, and comes
out too small. -/
theorem accumulated_lt (started : rows ≠ 0) (rowsSmall : rows < 0x100000000)
    (small : volume counts < 0x100000000) (zero : rows * volume counts % 0x100000000 = 0) :
    accumulated rows counts < volume counts := by
  induction counts generalizing rows with
  | nil =>
    rw [volume, Nat.mul_one, Nat.mod_eq_of_lt rowsSmall] at zero
    exact absurd zero started
  | cons count counts ih =>
    obtain ⟨here, restPositive⟩ := forall_mem_cons.mp positive
    have more : 0 < volume counts := volume_pos_iff.mpr restPositive
    have restSmall : volume counts < 0x100000000 := (Nat.le_mul_of_pos_left _ here).trans_lt small
    rw [accumulated, if_neg here.ne', if_neg started]
    by_cases wraps : rows * count % 0x100000000 = 0
    · have several : 1 < count := by
        by_contra atMostOne
        have one : count = 1 := by omega
        rw [one, Nat.mul_one, Nat.mod_eq_of_lt rowsSmall] at wraps
        exact started wraps
      rw [wraps]
      by_cases last : counts = []
      · rw [last]
        exact Nat.mul_pos here Nat.one_pos
      · rw [accumulated_zero last restPositive restSmall]
        exact (Nat.lt_mul_iff_one_lt_left more).mpr several
    · have same : rows * count % 0x100000000 * volume counts % 0x100000000 = 0 := by
        rw [Nat.mod_mul_mod, Nat.mul_assoc]
        exact zero
      have less := ih restPositive wraps (Nat.mod_lt _ (by decide)) restSmall same
      exact less.trans_le (Nat.le_mul_of_pos_left _ here)

theorem accumulated_eq_volume_iff (nonempty : counts ≠ []) (positive : ∀ count ∈ counts, 0 < count)
    (rowsSmall : rows < 0x100000000) (small : volume counts < 0x100000000) :
    accumulated rows counts = volume counts ↔
      rows = 0 ∨ rows * volume counts % 0x100000000 = volume counts := by
  have more : 0 < volume counts := volume_pos_iff.mpr positive
  by_cases started : rows = 0
  · rw [started, accumulated_zero nonempty positive small]
    simp
  by_cases zero : rows * volume counts % 0x100000000 = 0
  · have less := accumulated_lt positive started rowsSmall small zero
    rw [zero]
    exact ⟨fun same => absurd same less.ne, fun same => absurd (same.resolve_left started) more.ne⟩
  · rw [accumulated_eq positive rowsSmall zero]
    exact ⟨.inr, fun same => same.resolve_left started⟩

/-- The tables have noted their numbers of rows and the products of those behind them. -/
def Noted : List JoinTable → List Nat → Prop
  | [], [] => True
  | table :: tables, count :: counts =>
    table.rows = count ∧ table.nextRows = volume counts ∧ Noted tables counts
  | _, _ => False

include positive counted in
/-- The second loop of `JOIN_execute` notes the products. -/
theorem noted_setNextRows :
    Noted
      (setNextRows (volume counts)
        (List.zipWith (fun table count => { table with rows := count }) tables counts))
      counts := by
  induction tables generalizing counts with
  | nil =>
    cases counts with
    | nil => trivial
    | cons => cases counted
  | cons _ _ ih =>
    obtain ⟨count, rest, _, rfl, _, others⟩ := counts_cons counted
    obtain ⟨here, restPositive⟩ := forall_mem_cons.mp positive
    have behind : volume (count :: rest) / count = volume rest := Nat.mul_div_cancel_left _ here
    simp only [zipWith_cons_cons, setNextRows, behind]
    exact ⟨rfl, rfl, ih others restPositive⟩

include counted in
theorem totalColumns_setNextRows (rows : Nat) :
    totalColumns
      (setNextRows rows
        (List.zipWith (fun table count => { table with rows := count }) tables counts)) =
      totalColumns tables := by
  induction tables generalizing counts rows with
  | nil => rfl
  | cons _ _ ih =>
    obtain ⟨_, _, _, rfl, _, others⟩ := counts_cons counted
    simp [setNextRows, totalColumns, ih others]

theorem totalColumns_append (first second : List JoinTable) :
    totalColumns (first ++ second) = totalColumns first + totalColumns second := by
  induction first with
  | nil => simp [totalColumns]
  | cons _ _ ih => simp [totalColumns, ih, Nat.add_assoc]

theorem fetchJoined_noted (passed : List Nat) {before after : List JoinTable}
    (noted : Noted (before ++ table :: after) counts) (positive : 0 < volume (passed ++ counts))
    (small : volume (passed ++ counts) < 0x100000000) (row cols : Nat) {col : Nat} (first : 0 < col)
    (last : col ≤ table.columns) :
    ∃ baseRow, (digits (passed ++ counts) row)[passed.length + before.length]? = some baseRow ∧
      fetchJoined (volume (passed ++ counts)) row (cols + totalColumns before + col) cols
        (volume passed) (before ++ table :: after) = some (table.view.fetchInt baseRow col) := by
  induction before generalizing passed counts cols with
  | nil =>
    cases counts with
    | nil => exact noted.elim
    | cons count counts =>
      obtain ⟨-, next, -⟩ := noted
      have splits : volume (passed ++ count :: counts) = volume passed * count * volume counts := by
        rw [volume_append, volume, Nat.mul_assoc]
      rw [splits] at positive small ⊢
      have behind : 0 < volume counts := Nat.pos_of_mul_pos_left positive
      have upTo : 0 < volume passed * count := Nat.pos_of_mul_pos_right positive
      have quotient : volume passed * count * volume counts / table.nextRows =
          volume passed * count := by rw [next, Nat.mul_div_cancel _ behind]
      have defined : ¬(table.nextRows = 0 ∨
          volume passed * count * volume counts / table.nextRows = 0 ∨ volume passed = 0) := by
        have := Nat.pos_of_mul_pos_right upTo
        omega
      refine ⟨_, digits_append passed count counts row, ?_⟩
      rw [nil_append, fetchJoined, totalColumns, if_pos (by omega), if_neg defined, quotient]
      congr 2
      omega
  | cons other _ ih =>
    cases counts with
    | nil => exact noted.elim
    | cons count counts =>
      obtain ⟨rows, -, others⟩ := noted
      have regrouped : passed ++ count :: counts = passed ++ [count] ++ counts := by simp
      have product : volume (passed ++ [count]) = volume passed * count := by
        simp [volume_append, volume]
      have passedSmall : volume passed * count < 0x100000000 := by
        rw [regrouped, volume_append, product] at small positive
        exact (Nat.le_mul_of_pos_right _ (Nat.pos_of_mul_pos_left positive)).trans_lt small
      rw [regrouped] at positive small ⊢
      obtain ⟨baseRow, digit, read⟩ :=
        ih (passed ++ [count]) others positive small (cols + other.columns)
      refine ⟨baseRow, ?_, ?_⟩
      · rw [← digit, length_append, length_singleton, length_cons]
        congr 1
        omega
      · rw [cons_append, fetchJoined, if_neg (by simp only [totalColumns]; omega), rows,
          Nat.mod_eq_of_lt passedSmall, ← product, ← read]
        congr 1
        simp only [totalColumns]
        omega

theorem JoinView.lists_of_noted (noted : Noted jv.tables counts)
    (columns : jv.columns = totalColumns jv.tables) (rows : jv.rows = volume counts)
    (positive : 0 < volume counts) (small : volume counts < 0x100000000) : jv.Lists counts := by
  refine ⟨rows, digits counts, ?_, ?_⟩
  · rw [rows]
    exact bijOn_digits counts
  · intro row _ before _ _ split _ digit col first last
    rw [split] at noted columns
    obtain ⟨_, foundDigit, read⟩ := fetchJoined_noted [] noted positive small row 0 first last
    rw [nil_append, length_nil, Nat.zero_add, digit] at foundDigit
    obtain rfl := Option.some.inj foundDigit
    have inColumns : totalColumns before + col ≤ jv.columns := by
      rw [columns, totalColumns_append, totalColumns]
      omega
    rw [JoinView.fetchInt, if_neg (by omega), if_neg (by omega), split, rows]
    rw [nil_append, Nat.zero_add] at read
    exact read

/-- An execution lists the joined rows exactly if a table is empty, the view has no rows
yet, or multiplying these by the product changes nothing. -/
theorem JoinView.execute_lists_iff (wellFormed : jv.WellFormed) (counted : Counts jv.tables counts)
    (small : volume counts < 0x100000000) :
    jv.execute.1.Lists counts ↔
      volume counts = 0 ∨ jv.rows = 0 ∨ jv.rows * volume counts % 0x100000000 = volume counts := by
  by_cases zero : 0 ∈ counts
  · obtain ⟨_, measured⟩ := measureTables_empty counted zero jv.rows
    have empty : volume counts = 0 := by
      by_contra more
      exact absurd (volume_pos_iff.mp (Nat.pos_of_ne_zero more) 0 zero) (by decide)
    refine iff_of_true ?_ (.inl empty)
    rw [JoinView.execute, measured]
    exact ⟨empty.symm, digits counts, empty ▸ bijOn_digits counts, nofun⟩
  · have positive : ∀ count ∈ counts, 0 < count := fun count member =>
      Nat.pos_of_ne_zero fun isZero => zero (isZero ▸ member)
    have more : 0 < volume counts := volume_pos_iff.mpr positive
    have nonempty : counts ≠ [] := by
      rintro rfl
      exact wellFormed.nonempty (map_eq_nil_iff.mp counted)
    have product := accumulated_eq_volume_iff nonempty positive wellFormed.rows small
    rw [or_iff_right more.ne', ← product, JoinView.execute, measureTables_all counted positive]
    constructor
    · exact fun lists => lists.1
    · intro rows
      simp only [rows]
      refine lists_of_noted (noted_setNextRows counted positive) ?_ rfl more small
      exact wellFormed.columns.trans (totalColumns_setNextRows counted _).symm

/-- The tables of a list and their columns, without what executions note. -/
def tableViews (tables : List JoinTable) : List (View × Nat) :=
  tables.map fun table => (table.view, table.columns)

/-- The first loop keeps the tables, and a product that fits. -/
theorem measureTables_keeps
    (sized : ∀ table ∈ tables, ∀ rows cols,
      table.view.dimensions = .ok (rows, cols) → rows < 0x100000000) {rows : Nat}
    (small : rows < 0x100000000) :
    tableViews (measureTables rows tables).1 = tableViews tables ∧
      (measureTables rows tables).2.1 < 0x100000000 := by
  induction tables generalizing rows with
  | nil => exact ⟨rfl, small⟩
  | cons table _ ih =>
    obtain ⟨firstSized, restSized⟩ := forall_mem_cons.mp sized
    rw [measureTables]
    cases dimensions : table.view.dimensions with
    | error => exact ⟨rfl, small⟩
    | ok pair =>
      have countSmall := firstSized pair.1 pair.2 dimensions
      dsimp only
      by_cases empty : pair.1 = 0
      · rw [if_pos empty]
        exact ⟨rfl, Nat.zero_lt_succ _⟩
      have productSmall :
          (if rows = 0 then pair.1 else rows * pair.1 % 0x100000000) < 0x100000000 := by
        split
        · exact countSmall
        · exact Nat.mod_lt _ (by decide)
      obtain ⟨views, restSmall⟩ := ih restSized productSmall
      rw [if_neg empty]
      exact ⟨congrArg ((table.view, table.columns) :: ·) views, restSmall⟩

theorem tableViews_setNextRows (rows : Nat) (tables : List JoinTable) :
    tableViews (setNextRows rows tables) = tableViews tables := by
  induction tables generalizing rows with
  | nil => rfl
  | cons table _ ih => exact congrArg ((table.view, table.columns) :: ·) (ih _)

theorem JoinView.WellFormed.of_tableViews (wellFormed : jv.WellFormed)
    (same : tableViews tables = tableViews jv.tables) (small : rows < 0x100000000) :
    ({ jv with tables, rows } : JoinView).WellFormed := by
  have columns (list : List JoinTable) :
      totalColumns list = (tableViews list).foldr (fun entry total => entry.2 + total) 0 := by
    induction list with
    | nil => rfl
    | cons _ _ ih => exact congrArg _ ih
  refine ⟨?_, ?_, small, ?_⟩
  · rintro rfl
    exact wellFormed.nonempty (map_eq_nil_iff.mp same.symm)
  · rw [columns, same, ← columns]
    exact wellFormed.columns
  · intro table member
    have inViews : (table.view, table.columns) ∈ tableViews jv.tables := by
      rw [← same]
      exact mem_map_of_mem member
    obtain ⟨original, originalMember, entry⟩ := mem_map.mp inViews
    rw [← (Prod.mk.inj entry).1]
    exact wellFormed.counts original originalMember

theorem JoinView.WellFormed.execute (wellFormed : jv.WellFormed) : jv.execute.1.WellFormed := by
  obtain ⟨views, small⟩ := measureTables_keeps wellFormed.counts wellFormed.rows
  rw [JoinView.execute]
  generalize measureTables jv.rows jv.tables = outcome at views small
  obtain ⟨tables, rows, measured⟩ := outcome
  cases measured with
  | failed error | empty => exact wellFormed.of_tableViews views small
  | all => exact wellFormed.of_tableViews ((tableViews_setNextRows rows tables).trans views) small

/-- The states of a joined view: it is created without rows, its tables change, and it is
executed. -/
inductive JoinView.Reached : JoinView → Prop where
  | created {jv : JoinView} (wellFormed : jv.WellFormed) (fresh : jv.rows = 0) : Reached jv
  | changed {jv : JoinView} (views : List View) (sameLength : views.length = jv.tables.length)
      (sized : ∀ view ∈ views, ∀ rows cols, view.dimensions = .ok (rows, cols) → rows < 0x100000000)
      (reached : Reached jv) :
      Reached { jv with
        tables := List.zipWith (fun table view => { table with view }) jv.tables views }
  | executed {jv : JoinView} (reached : Reached jv) : Reached jv.execute.1

theorem JoinView.Reached.wellFormed (reached : Reached jv) : jv.WellFormed := by
  induction reached with
  | created wellFormed => exact wellFormed
  | @changed jv views sameLength sized _ wellFormed =>
    have columns (tables : List JoinTable) (views : List View)
        (sameLength : views.length = tables.length) :
        totalColumns (zipWith (fun table view => { table with view }) tables views) =
          totalColumns tables := by
      induction tables generalizing views with
      | nil => rfl
      | cons table _ ih =>
        cases views with
        | nil => cases sameLength
        | cons _ views =>
          exact congrArg (table.columns + ·) (ih views (Nat.succ.inj sameLength))
    refine ⟨?_, ?_, wellFormed.rows, ?_⟩
    · intro empty
      have length := congrArg length empty
      rw [length_zipWith, sameLength, Nat.min_self] at length
      exact wellFormed.nonempty (eq_nil_of_length_eq_zero length)
    · exact wellFormed.columns.trans (columns jv.tables views sameLength).symm
    · intro _ member
      obtain ⟨_, inRange, found⟩ := mem_iff_getElem.mp member
      rw [length_zipWith] at inRange
      rw [← found, getElem_zipWith]
      exact sized _ (getElem_mem (by omega))
  | executed _ wellFormed => exact wellFormed.execute

/-- In every state of a joined view, an execution lists the joined rows exactly if a table
is empty, the view has no rows yet, or multiplying these by the product changes nothing. -/
theorem executed_lists_iff {jv : JoinView} (reached : jv.Reached) {counts : List Nat}
    (counted : Counts jv.tables counts) (small : volume counts < 0x100000000) :
    jv.execute.1.Lists counts ↔
      volume counts = 0 ∨ jv.rows = 0 ∨ jv.rows * volume counts % 0x100000000 = volume counts :=
  JoinView.execute_lists_iff reached.wellFormed counted small

/-- A table of so many rows with one column that holds the row's number. -/
def numbered (rows : Nat) : View where
  execute := .ok ()
  dimensions := .ok (rows, 1)
  fetchInt row _ := .ok row

/-- A join of tables of two and three rows. -/
def sixRows : JoinView :=
  ⟨[⟨numbered 2, 1, 0, 0⟩, ⟨numbered 3, 1, 0, 0⟩], 2, 0⟩

theorem sixRows_wellFormed : sixRows.WellFormed := by
  refine ⟨by simp [sixRows], rfl, by decide, ?_⟩
  intro _ member _ _ answered
  simp only [sixRows, mem_cons, not_mem_nil, or_false] at member
  obtain rfl | rfl := member <;> cases answered <;> decide

/-- The first execution of the join lists six rows. -/
theorem executed_lists_six : sixRows.execute.1.Lists [2, 3] :=
  have counted : Counts sixRows.tables [2, 3] := rfl
  (executed_lists_iff (.created sixRows_wellFormed rfl) counted (by decide)).mpr (.inr (.inl rfl))

/-- The second one counts thirty-six. -/
theorem executed_twice :
    sixRows.execute.1.execute.1.rows = 36 ∧ ¬sixRows.execute.1.execute.1.Lists [2, 3] := by
  have rows : sixRows.execute.1.execute.1.rows = 36 := rfl
  refine ⟨rows, fun lists => ?_⟩
  have := lists.1
  exact absurd this (by decide)

end Winex.Msi
