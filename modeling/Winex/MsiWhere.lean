import Winex.MsiIndex
import Winex.MsiInsert

namespace Winex.Msi

open List

/-!
# The rows that a condition selects

`WHERE_execute` evaluates the condition for each row.  If it compares a string column
with a literal, the rows come from the index of the column instead, whatever the
operator is.
-/

/-- The operators of conditions. -/
inductive Operator where
  | eq
  | and
  | or
  | gt
  | lt
  | le
  | ge
  | ne
  | isNull
  | notNull
  deriving DecidableEq

/-- A `struct expr`, before and after `WHERE_VerifyCondition`. -/
inductive Expr where
  | complex (op : Operator) (left right : Expr)
  | column (name : WString)
  | colNumber (n : Nat)
  | ival (value : UInt32)
  | sval (str : WString)
  | uval (value : UInt32)
  | strcmp (op : Operator) (left right : Expr)
  | wildcard
  | colNumberString (n : Nat)
  | colNumber32 (n : Nat)
  | unary (op : Operator) (left : Expr)
  deriving DecidableEq

/-- How `lstrcmpW` orders strings. -/
structure Comparison (collation : Collation) where
  lstrcmpW : WString → WString → Int
  zero_iff : ∀ {first second}, lstrcmpW first second = 0 ↔ collation.equal first second = true

namespace Expr

/-- The operand of a comparison of strings. -/
def isStringOperand : Expr → Bool
  | sval _ => true
  | colNumberString _ => true
  | _ => false

/-- `u.col_number` -/
def number : Expr → Nat
  | colNumber n => n
  | colNumberString n => n
  | colNumber32 n => n
  | _ => 0

/-- The column and the literal of a comparison that is answered from an index. -/
def indexed : Expr → Option (Nat × WString)
  | strcmp _ (colNumberString col) (sval literal) => some (col, literal)
  -- swap conditionals
  | strcmp _ (sval literal) (colNumberString col) => some (col, literal)
  | _ => none

end Expr

namespace Operator

/-- The operators that strings can be compared with. -/
def comparesStrings : Operator → Bool
  | eq => true
  | gt => true
  | lt => true
  | ne => true
  | _ => false

/-- What `STRCMP_Evaluate` makes of the result of a comparison. -/
def holds (op : Operator) (sr : Int) : Bool :=
  (op = eq ∧ sr = 0) ∨ (op = ne ∧ sr ≠ 0) ∨ (op = lt ∧ sr < 0) ∨ (op = gt ∧ 0 < sr)

end Operator

/-- An `INT` for a truth value. -/
def truth (value : Bool) : Int32 :=
  if value then 1 else 0

/-- `INT_evaluate_binary` -/
def evaluateBinary (lval : Int32) (op : Operator) (rval : Int32) : Int32 :=
  match op with
  | .eq => truth (lval = rval)
  | .and => truth (lval ≠ 0 ∧ rval ≠ 0)
  | .or => truth (lval ≠ 0 ∨ rval ≠ 0)
  | .gt => truth (rval < lval)
  | .lt => truth (lval < rval)
  | .le => truth (lval ≤ rval)
  | .ge => truth (rval ≤ lval)
  | .ne => truth (lval ≠ rval)
  | _ => 0

/-- `INT_evaluate_unary` -/
def evaluateUnary (lval : Int32) (op : Operator) : Int32 :=
  match op with
  | .isNull => truth (lval = 0)
  | .notNull => lval
  | _ => 0

/-- The rows of a `MSIWHEREVIEW`. -/
structure Selection where
  reorder : HashTable
  rowCount : Nat

namespace Selection

/-- No rows. -/
def empty : Selection where
  reorder := fun _ => []
  rowCount := 0

/-- `add_entry_to_hash` for the next row of the view. -/
def add (selection : Selection) (row : Nat) : Selection where
  reorder := Function.update selection.reorder (selection.rowCount % hashTableSize)
    (⟨row, selection.rowCount⟩ :: selection.reorder (selection.rowCount % hashTableSize))
  rowCount := selection.rowCount + 1

/-- `find_entry_in_hash`, which leaves the row as it is if the chain does not have it. -/
def findEntry (selection : Selection) (row : Nat) : Except Failure Nat :=
  match selection.reorder (row % hashTableSize) with
  | [] => .error .functionFailed
  | chain =>
    .ok (match chain.find? fun entry => entry.row = row with
      | some entry => entry.value
      | none => row)

/-- The rows of the view, from 0 on, are these rows of the table. -/
def Lists (selection : Selection) (rows : List Nat) : Prop :=
  selection.rowCount = rows.length ∧ ∀ i row, rows[i]? = some row → selection.findEntry i = .ok row

end Selection

namespace TableView

variable (view : TableView)

/-- The column with a name, as `WHERE_VerifyCondition` notes it. -/
def verifyColumn (name : WString) : Bool × Expr :=
  match view.findColumn name with
  | none => (false, .column name)
  | some n =>
    let column := view.schema.column (n - 1)
    (true,
      if column.isString then .colNumberString n
      else if column.dataSize = 4 then .colNumber32 n
      else .colNumber n)

/-- `WHERE_VerifyCondition`: whether the condition is valid, and what it becomes. -/
def verifyCondition : Expr → Except Failure (Bool × Expr)
  | .column name => .ok (view.verifyColumn name)
  | .complex op left right =>
    match verifyCondition left with
    | .error failure => .error failure
    | .ok (false, left) => .ok (false, .complex op left right)
    | .ok (true, left) =>
      match verifyCondition right with
      | .error failure => .error failure
      | .ok (valid, right) =>
        if left.isStringOperand ∨ right.isStringOperand then
          if op.comparesStrings then .ok (valid, .strcmp op left right)
          else .error .invalidParameter
        else .ok (valid, .complex op left right)
  | .unary op (.column name) =>
    let (valid, left) := view.verifyColumn name
    .ok (valid, .unary op left)
  | .unary _ _ => .error .invalidParameter
  | .ival value => .ok (true, .uval value)
  | .wildcard => .ok (true, .wildcard)
  | .sval str => .ok (true, .sval str)
  | other => .ok (false, other)

/-- `STRING_evaluate`, with the number of the last parameter before and after it. -/
def stringEvaluate (record : Record) (row : Nat) : Expr → Nat → Option WString × Nat
  | .colNumberString n, recIndex =>
    (match view.fetchInt row n with
      | .ok val => view.state.strings.stringLookupId val
      | .error _ => none,
      recIndex)
  | .sval str, recIndex => (some str, recIndex)
  | .wildcard, recIndex => ((record.field (recIndex + 1)).getString, recIndex + 1)
  | _, recIndex => (none, recIndex)

variable (comparison : Comparison view.schema.collation)

/-- How `STRCMP_Evaluate` compares two strings; null and the empty string are the same, and
a string is equal to itself. -/
def compareStrings (left right : Option WString) : Int :=
  if left.getD [] = [] ∧ right.getD [] = [] then 0
  else
    match left, right with
    | some left, some right => comparison.lstrcmpW left right
    | some _, none => 1
    | none, some _ => -1
    | none, none => 0

variable (stack : UInt32)

/-- `WHERE_evaluate` from the value of `*val` and the number of the last parameter before
it.  An uninitialised variable has the value `stack`. -/
def evaluate (record : Record) (row : Nat) : Expr → Int32 → Nat → Except Failure (Int32 × Nat)
  | .colNumber n, _, recIndex =>
    -- the result of the read is not looked at
    let tval := match view.fetchInt row n with
      | .ok tval => UInt32.ofNat tval
      | .error _ => stack
    .ok ((tval - 0x8000).toInt32, recIndex)
  | .colNumber32 n, _, recIndex =>
    match view.fetchInt row n with
    | .ok tval => .ok ((UInt32.ofNat tval - 0x80000000).toInt32, recIndex)
    | .error failure => .error failure
  | .uval value, _, recIndex => .ok (value.toInt32, recIndex)
  | .complex op left right, _, recIndex =>
    match evaluate record row left stack.toInt32 recIndex with
    | .error failure => .error failure
    | .ok (lval, recIndex) =>
      match evaluate record row right stack.toInt32 recIndex with
      | .error failure => .error failure
      | .ok (rval, recIndex) => .ok (evaluateBinary lval op rval, recIndex)
  | .unary op left, _, recIndex =>
    match view.fetchInt row left.number with
    | .ok tval => .ok (evaluateUnary (UInt32.ofNat tval).toInt32 op, recIndex)
    | .error failure => .error failure
  | .strcmp op left right, _, recIndex =>
    let (left, recIndex) := view.stringEvaluate record row left recIndex
    let (right, recIndex) := view.stringEvaluate record row right recIndex
    .ok (truth (op.holds (view.compareStrings comparison left right)), recIndex)
  | .wildcard, _, recIndex => .ok ((record.field (recIndex + 1)).getInteger.toInt32, recIndex + 1)
  | _, val, recIndex => .ok (val, recIndex)

/-- What `WHERE_evaluate` says about a row. -/
def evaluateRow (record : Record) (cond : Expr) (row : Nat) : Except Failure Int32 :=
  (view.evaluate comparison stack record row cond 0 0).map Prod.fst

/-- The loop of `WHERE_execute` over rows. -/
def selectRows (record : Record) (cond : Expr) : List Nat → Selection → Except Failure Selection
  | [], selection => .ok selection
  | row :: rest, selection =>
    match view.evaluateRow comparison stack record cond row with
    | .error failure => .error failure
    | .ok val => selectRows record cond rest (if val ≠ 0 then selection.add row else selection)

/-- The id of a literal, 0 for the empty string. -/
def literalId (literal : WString) : Option Nat :=
  if literal = [] then some 0
  else view.state.strings.string2idW view.schema.collation (some literal)

/-- `WHERE_execute`, with the indexes of the table after it. -/
def whereExecute (cond : Expr) (record : Record) : TableView × Except Failure Selection :=
  match cond.indexed with
  | some (col, literal) =>
    match view.literalId literal with
    -- no id for the string: assumed not to exist in the table
    | none => (view, .ok .empty)
    | some value =>
      if col = 0 ∨ view.numCols < col then (view, .error .invalidParameter)
      else
        (view.withIndex col, .ok (((view.indexOf col).matching value).foldl Selection.add .empty))
  | none => (view, view.selectRows comparison stack record cond (range view.rowCount) .empty)

/-- The rows for which the condition evaluates to a true value. -/
def trueRows (record : Record) (cond : Expr) : List Nat :=
  (range view.rowCount).filter fun row =>
    match view.evaluateRow comparison stack record cond row with
    | .ok val => val ≠ 0
    | .error _ => false

/-- The rows that come from the index of a column for a literal. -/
def indexedRows (col : Nat) (literal : WString) : List Nat :=
  match view.literalId literal with
  | none => []
  | some value => (view.indexOf col).matching value

/-- How the strings on the two sides of a comparison compare in a row. -/
def comparedAt (record : Record) (left right : Expr) (row : Nat) : Int :=
  let (leftString, recIndex) := view.stringEvaluate record row left 0
  view.compareStrings comparison leftString (view.stringEvaluate record row right recIndex).1

/-- The index of a column gives for a literal the rows that have its id. -/
def IndexCurrent (col : Nat) (literal : WString) : Prop :=
  ∀ value, view.literalId literal = some value →
    (view.indexOf col).matching value =
      (range view.rowCount).filter fun row => view.fetchInt row col = .ok value

/-- The rows from the index are the right ones: with a current index the operator is `=`, or
no row has the literal and no row is asked for. -/
def IndexServes (record : Record) (cond : Expr) : Prop :=
  ∀ op left right col literal, cond = .strcmp op left right → cond.indexed = some (col, literal) →
    (view.IndexCurrent col literal ∧
      (op = .eq ∨
        ∀ row < view.rowCount, view.comparedAt comparison record left right row ≠ 0 ∧
          op.holds (view.comparedAt comparison record left right row) = false)) ∨
    (¬view.IndexCurrent col literal ∧
      ∃ value, view.literalId literal = some value ∧
        (view.indexOf col).matching value =
          (range view.rowCount).filter fun row =>
              op.holds (view.comparedAt comparison record left right row))

/-- Only 0 is the id of the empty string, a string has the id of a string that is equal to
it, and the cells of string columns hold ids of strings. -/
structure OneToOne : Prop where
  empty : ∀ {id}, view.state.strings.stringLookupId id = some [] → id = 0
  found_iff : ∀ {str : WString} {id : Nat}, str ≠ [] →
    (view.state.strings.string2idW view.schema.collation (some str) = some id ↔
    ∃ same, view.state.strings.stringLookupId id = some same ∧
    view.schema.collation.equal str same = true)
  cells : ∀ {row col id}, (view.schema.column (col - 1)).isString = true →
    view.fetchInt row col = .ok id → ∃ str, view.state.strings.stringLookupId id = some str

end TableView

namespace Selection

variable {selection : Selection} {rows : List Nat}

theorem empty_lists : empty.Lists [] :=
  ⟨rfl, fun _ _ at_ => by cases at_⟩

theorem findEntry_add_self (selection : Selection) (row : Nat) :
    (selection.add row).findEntry selection.rowCount = .ok row := by
  simp [findEntry, add]

theorem findEntry_add_of_ne (row : Nat) {i found : Nat} (other : i ≠ selection.rowCount)
    (before : selection.findEntry i = .ok found) : (selection.add row).findEntry i = .ok found := by
  by_cases bucket : i % hashTableSize = selection.rowCount % hashTableSize
  · -- the new entry is in front of the chain and passed over
    unfold findEntry at before ⊢
    cases chain : selection.reorder (i % hashTableSize) with
    | nil =>
      rw [chain] at before
      cases before
    | cons =>
      rw [chain] at before
      simp only [add, ← bucket, Function.update_self, chain]
      rw [find?_cons_of_neg (by simpa using other.symm)]
      exact before
  · unfold findEntry at before ⊢
    simp only [add, Function.update_of_ne bucket]
    exact before

theorem Lists.add (lists : selection.Lists rows) (row : Nat) :
    (selection.add row).Lists (rows ++ [row]) := by
  obtain ⟨count, found⟩ := lists
  refine ⟨by simp [Selection.add, count], fun i shown at_ => ?_⟩
  rw [getElem?_append] at at_
  split at at_
  next inside => exact findEntry_add_of_ne row (by omega) (found i shown at_)
  have last : i = selection.rowCount := by
    have bound := (List.getElem?_eq_some_iff.mp at_).1
    simp at bound
    omega
  subst last
  rw [count, Nat.sub_self] at at_
  cases at_
  exact findEntry_add_self selection row

theorem Lists.foldl_add (lists : selection.Lists rows) (more : List Nat) :
    (more.foldl Selection.add selection).Lists (rows ++ more) := by
  induction more generalizing selection rows with
  | nil => rwa [append_nil]
  | cons row _ ih =>
    rw [append_cons]
    exact ih (lists.add row)

theorem Lists.iff_eq (lists : selection.Lists rows) (others : List Nat) :
    selection.Lists others ↔ rows = others := by
  constructor
  · intro listsOthers
    have sameLength : rows.length = others.length := lists.1.symm.trans listsOthers.1
    refine ext_getElem sameLength fun i inside insideOthers => ?_
    have first := lists.2 i _ (getElem?_eq_getElem inside)
    have second := listsOthers.2 i _ (getElem?_eq_getElem insideOthers)
    exact Except.ok.inj (first.symm.trans second)
  · rintro rfl
    exact lists

end Selection

/-- Other operators than `=` do not hold for equal strings. -/
theorem Operator.holds_ne_zero {op : Operator} (other : op ≠ .eq) {sr : Int}
    (holds : op.holds sr = true) : sr ≠ 0 := by
  simp only [Operator.holds, decide_eq_true_eq] at holds
  rcases holds with ⟨isEq, -⟩ | ⟨-, ne⟩ | ⟨-, less⟩ | ⟨-, greater⟩
  · exact absurd isEq other
  · exact ne
  · exact ne_of_lt less
  · exact ne_of_gt greater

theorem range_filter_eq_iff {n : Nat} {first second : Nat → Bool} :
    (range n).filter first = (range n).filter second ↔
      ∀ row < n, first row = second row := by
  constructor
  · intro same row inside
    have mem : row ∈ (range n).filter first ↔ row ∈ (range n).filter second := by rw [same]
    simp only [mem_filter, mem_range, inside, true_and] at mem
    exact Bool.eq_iff_iff.mpr mem
  · intro agree
    exact filter_congr fun row mem => agree row (mem_range.mp mem)

namespace TableView

variable {view : TableView} {comparison : Comparison view.schema.collation} {stack : UInt32}
  {record : Record}

variable {cond : Expr} (op : Operator) {col : Nat} {literal : WString} {left right : Expr}

theorem selectRows_lists {rows before : List Nat} {selection result : Selection}
    (lists : selection.Lists before)
    (selected : view.selectRows comparison stack record cond rows selection = .ok result) :
    result.Lists (before ++ rows.filter fun row =>
      match view.evaluateRow comparison stack record cond row with
      | .ok val => val ≠ 0
      | .error _ => false) := by
  induction rows generalizing before selection with
  | nil =>
    cases selected
    rwa [filter_nil, append_nil]
  | cons row _ ih =>
    unfold selectRows at selected
    cases evaluated : view.evaluateRow comparison stack record cond row with
    | error =>
      rw [evaluated] at selected
      cases selected
    | ok val =>
      simp only [evaluated] at selected
      by_cases zero : val = 0
      · rw [filter_cons_of_neg (by simp [evaluated, zero])]
        rw [if_neg (not_not_intro zero)] at selected
        exact ih lists selected
      · rw [filter_cons_of_pos (by simp [evaluated, zero]), append_cons]
        rw [if_pos zero] at selected
        exact ih (lists.add row) selected

/-- A string column. -/
def StringColumn (view : TableView) (n : Nat) : Prop :=
  0 < n ∧ n ≤ view.numCols ∧ (view.schema.column (n - 1)).isString = true

theorem verifyColumn_spec {name : WString} (verified : view.verifyColumn name = (true, cond)) :
    (∃ n, cond = .colNumberString n ∧ view.StringColumn n) ∨ (∃ n, cond = .colNumber32 n) ∨
      ∃ n, cond = .colNumber n := by
  unfold verifyColumn at verified
  split at verified
  · cases verified
  rename_i n found
  obtain ⟨positive, existing⟩ := of_findColumn found
  cases verified
  split
  next string => exact .inl ⟨n, rfl, positive, existing, string⟩
  split
  · exact .inr (.inl ⟨n, rfl⟩)
  · exact .inr (.inr ⟨n, rfl⟩)

variable {source : Expr}

/-- Where a verified condition names a string column, or compares strings. -/
theorem verifyCondition_spec (verified : view.verifyCondition source = .ok (true, cond)) :
    (∃ n, cond = .colNumberString n ∧ view.StringColumn n) ∨
    (∃ op left right verifiedLeft verifiedRight,
      view.verifyCondition left = .ok (true, verifiedLeft) ∧
      view.verifyCondition right = .ok (true, verifiedRight) ∧
      cond = .strcmp op verifiedLeft verifiedRight) ∨
    ((∀ n, cond ≠ .colNumberString n) ∧ cond.indexed = none) := by
  cases source with
  | complex op left right =>
    change (match view.verifyCondition left with
      | .error _ => _
      | .ok (false, _) => _
      | .ok (true, _) => _) = _ at verified
    split at verified
    · cases verified
    · cases verified
    next isLeft =>
      split at verified
      · cases verified
      rename_i isRight
      split at verified
      · split at verified
        · cases verified
          exact .inr (.inl ⟨op, left, right, _, _, isLeft, isRight, rfl⟩)
        · cases verified
      · cases verified
        exact .inr (.inr ⟨nofun, rfl⟩)
  | column name =>
    obtain string | ⟨n, rfl⟩ | ⟨n, rfl⟩ := verifyColumn_spec (Except.ok.inj verified)
    · exact .inl string
    all_goals exact .inr (.inr ⟨nofun, rfl⟩)
  | unary _ left =>
    cases left with
    | column =>
      obtain rfl := congrArg Prod.snd (Except.ok.inj verified)
      exact .inr (.inr ⟨nofun, rfl⟩)
    | _ => cases verified
  | ival value | sval str | wildcard =>
    cases verified
    exact .inr (.inr ⟨nofun, rfl⟩)
  | _ => cases verified

theorem verifyCondition_column {n : Nat}
    (verified : view.verifyCondition source = .ok (true, .colNumberString n)) :
    view.StringColumn n := by
  obtain ⟨_, same, isColumn⟩ | ⟨_, _, _, _, _, -, -, same⟩ | ⟨other, -⟩ :=
    verifyCondition_spec verified
  · cases same
    exact isColumn
  · cases same
  · exact absurd rfl (other n)

theorem operands_of_indexed (indexed : cond.indexed = some (col, literal)) :
    ∃ op, cond = .strcmp op (.colNumberString col) (.sval literal) ∨
      cond = .strcmp op (.sval literal) (.colNumberString col) := by
  unfold Expr.indexed at indexed
  split at indexed
  next op _ _ =>
    cases indexed
    exact ⟨op, .inl rfl⟩
  next op _ _ =>
    cases indexed
    exact ⟨op, .inr rfl⟩
  · cases indexed

theorem verifyCondition_indexed (verified : view.verifyCondition source = .ok (true, cond))
    (indexed : cond.indexed = some (col, literal)) : view.StringColumn col := by
  obtain ⟨_, rfl, -⟩ | ⟨_, _, _, _, _, isLeft, isRight, rfl⟩ | ⟨-, other⟩ :=
    verifyCondition_spec verified
  · cases indexed
  · -- the literal stands on one of the two sides
    obtain ⟨_, same | same⟩ := operands_of_indexed indexed
    · cases same
      exact verifyCondition_column isLeft
    · cases same
      exact verifyCondition_column isRight
  · cases other.symm.trans indexed

theorem compareStrings_zero_iff {left right : WString} (notEmpty : left ≠ [] ∨ right ≠ []) :
    view.compareStrings comparison (some left) (some right) = 0 ↔
      view.schema.collation.equal left right = true := by
  unfold compareStrings
  rw [if_neg (by
    rintro ⟨first, second⟩
    exact notEmpty.elim (· first) (· second))]
  exact comparison.zero_iff

theorem OneToOne.equal_iff (oneToOne : view.OneToOne) {id : Nat} {str : WString}
    (isString : view.state.strings.stringLookupId id = some str) (literal : WString) :
    ((literal ≠ [] ∨ str ≠ []) → view.schema.collation.equal literal str = true) ↔
      view.literalId literal = some id := by
  unfold literalId
  by_cases emptyLiteral : literal = []
  · subst emptyLiteral
    rw [if_pos rfl, Option.some.injEq]
    constructor
    · intro equal
      by_contra nonzero
      have notEmpty : str ≠ [] := by
        rintro rfl
        exact nonzero (oneToOne.empty isString).symm
      -- the string would have the ids 0 and `id`
      have same := equal (.inr notEmpty)
      have isZero : view.state.strings.string2idW view.schema.collation (some str) = some 0 :=
        (oneToOne.found_iff notEmpty).mpr ⟨[], rfl, view.schema.collation.symm same⟩
      have isId := (oneToOne.found_iff notEmpty).mpr ⟨str, isString, view.schema.collation.refl str⟩
      exact nonzero (Option.some.inj (isZero.symm.trans isId))
    · rintro rfl notEmpty
      cases isString
      exact absurd rfl (notEmpty.elim id id)
  · rw [if_neg emptyLiteral, oneToOne.found_iff emptyLiteral]
    constructor
    · intro equal
      exact ⟨str, isString, equal (.inl emptyLiteral)⟩
    · rintro ⟨_, isSame, equal⟩ -
      cases isString.symm.trans isSame
      exact equal

variable (oneToOne : view.OneToOne) {op' : Operator}
variable (indexed : (Expr.strcmp op' left right).indexed = some (col, literal))
variable (isColumn : view.StringColumn col)

include oneToOne indexed isColumn in
theorem OneToOne.comparedAt_zero_iff {row : Nat} (inside : row < view.rowCount) :
    view.comparedAt comparison record left right row = 0 ↔
      ∃ value, view.literalId literal = some value ∧ view.fetchInt row col = .ok value := by
  obtain ⟨positive, existing, string⟩ := isColumn
  obtain ⟨id, fetched⟩ := fetchInt_string positive existing string inside
  obtain ⟨str, isString⟩ := oneToOne.cells string fetched
  have sameId : (∃ value, view.literalId literal = some value ∧ view.fetchInt row col = .ok value) ↔
      view.literalId literal = some id := by simp [fetched]
  rw [sameId, ← oneToOne.equal_iff isString literal]
  by_cases notEmpty : literal ≠ [] ∨ str ≠ []
  · obtain ⟨_, same | same⟩ := operands_of_indexed indexed
    · cases same
      simp only [comparedAt, stringEvaluate, fetched, isString]
      rw [compareStrings_zero_iff notEmpty.symm]
      exact ⟨fun equal _ => view.schema.collation.symm equal,
        fun equal => view.schema.collation.symm (equal notEmpty)⟩
    · cases same
      simp only [comparedAt, stringEvaluate, fetched, isString]
      rw [compareStrings_zero_iff notEmpty]
      exact ⟨fun equal _ => equal, fun equal => equal notEmpty⟩
  · obtain ⟨rfl, rfl⟩ : literal = [] ∧ str = [] := by
      rwa [not_or, not_not, not_not] at notEmpty
    obtain ⟨_, same | same⟩ := operands_of_indexed indexed <;> cases same <;>
      simp [comparedAt, stringEvaluate, fetched, isString, compareStrings]

theorem trueRows_strcmp (left right : Expr) :
    view.trueRows comparison stack record (.strcmp op left right) =
      (range view.rowCount).filter fun row =>
        op.holds (view.comparedAt comparison record left right row) := by
  refine filter_congr fun row _ => ?_
  have evaluated : view.evaluateRow comparison stack record (.strcmp op left right) row =
      .ok (truth (op.holds (view.comparedAt comparison record left right row))) :=
    rfl
  rw [evaluated]
  cases op.holds (view.comparedAt comparison record left right row) with
  | true | false => rfl

theorem whereExecute_indexed (indexed : cond.indexed = some (col, literal))
    (existing : 0 < col ∧ col ≤ view.numCols) {after : TableView} {selection : Selection}
    (executed : view.whereExecute comparison stack cond record = (after, .ok selection)) :
    selection.Lists (view.indexedRows col literal) := by
  unfold whereExecute at executed
  unfold indexedRows
  simp only [indexed] at executed
  cases isLiteral : view.literalId literal with
  | none =>
    simp only [isLiteral, Prod.mk.injEq, Except.ok.injEq] at executed
    rw [← executed.2]
    exact Selection.empty_lists
  | some =>
    simp only [isLiteral] at executed
    rw [if_neg (by omega), Prod.mk.injEq, Except.ok.injEq] at executed
    rw [← executed.2]
    exact Selection.empty_lists.foldl_add _

include oneToOne indexed isColumn in
theorem OneToOne.indexed_rows (current : view.IndexCurrent col literal) :
    view.indexedRows col literal =
      (range view.rowCount).filter fun row =>
        view.comparedAt comparison record left right row = 0 := by
  unfold indexedRows
  cases isLiteral : view.literalId literal with
  | none =>
    refine (filter_eq_nil_iff.mpr fun row mem => ?_).symm
    rw [decide_eq_true_eq,
      oneToOne.comparedAt_zero_iff indexed isColumn (mem_range.mp mem), isLiteral]
    simp
  | some value =>
    refine (current value isLiteral).trans ?_
    refine filter_congr fun row mem => decide_eq_decide.mpr ?_
    rw [oneToOne.comparedAt_zero_iff indexed isColumn (mem_range.mp mem), isLiteral]
    simp

/-- The rows with the string are those that are asked for, exactly if the operator is `=`
or there are neither. -/
theorem equalRows_eq_iff (sr : Nat → Int) (n : Nat) :
    ((range n).filter fun row => sr row = 0) =
        ((range n).filter fun row => op.holds (sr row)) ↔
      op = .eq ∨ ∀ row < n, sr row ≠ 0 ∧ op.holds (sr row) = false := by
  rw [range_filter_eq_iff]
  constructor
  · intro agree
    by_cases isEq : op = .eq
    · exact .inl isEq
    refine .inr fun row inside => ?_
    have same := agree row inside
    have apart : op.holds (sr row) = true → sr row ≠ 0 := Operator.holds_ne_zero isEq
    by_cases zero : sr row = 0
    · rw [decide_eq_true zero] at same
      exact absurd zero (apart same.symm)
    · rw [decide_eq_false zero] at same
      exact ⟨zero, same.symm⟩
  · rintro (rfl | apart) row inside
    · simp [Operator.holds]
    · rw [(apart row inside).2, decide_eq_false (apart row inside).1]

include oneToOne indexed isColumn in
theorem OneToOne.indexServes_iff :
    view.IndexServes comparison record (.strcmp op' left right) ↔
      view.indexedRows col literal =
        (range view.rowCount).filter fun row =>
          op'.holds (view.comparedAt comparison record left right row) := by
  have serves_iff : view.IndexServes comparison record (.strcmp op' left right) ↔ _ :=
    ⟨fun serves => serves op' left right col literal rfl indexed,
      fun serves _ _ _ _ _ same other => by
        cases same
        cases indexed.symm.trans other
        exact serves⟩
  rw [serves_iff]
  by_cases current : view.IndexCurrent col literal
  · rw [oneToOne.indexed_rows indexed isColumn current, equalRows_eq_iff]
    constructor
    · rintro (⟨-, apart⟩ | ⟨stale, -⟩)
      · exact apart
      · exact absurd current stale
    · exact fun apart => .inl ⟨current, apart⟩
  · -- only for a literal with an id can the index be out of date
    obtain ⟨value, isLiteral⟩ : ∃ value, view.literalId literal = some value := by
      by_contra noId
      exact current fun value isValue => absurd ⟨value, isValue⟩ noId
    rw [indexedRows, isLiteral]
    constructor
    · rintro (⟨now, -⟩ | ⟨-, _, isOther, same⟩)
      · exact absurd now current
      · cases isOther
        exact same
    · exact fun rows => .inr ⟨current, value, rfl, rows⟩

/-- A successful execution selects the rows for which the condition is true, exactly if the
index serves the condition. -/
theorem whereExecute_selects_iff (view : TableView) (comparison : Comparison view.schema.collation)
    (stack : UInt32) (record : Record) (oneToOne : view.OneToOne) {source cond : Expr}
    (verified : view.verifyCondition source = .ok (true, cond)) {after : TableView}
    {selection : Selection}
    (executed : view.whereExecute comparison stack cond record = (after, .ok selection)) :
    selection.Lists (view.trueRows comparison stack record cond) ↔
      view.IndexServes comparison record cond := by
  cases indexed : cond.indexed with
  | none =>
    have lists : selection.Lists (view.trueRows comparison stack record cond) := by
      unfold whereExecute at executed
      simp only [indexed, Prod.mk.injEq] at executed
      exact selectRows_lists Selection.empty_lists executed.2
    refine ⟨fun _ op left right col literal _ isIndexed => ?_, fun _ => lists⟩
    cases indexed.symm.trans isIndexed
  | some shape =>
    have isColumn := verifyCondition_indexed verified indexed
    have lists := whereExecute_indexed indexed ⟨isColumn.1, isColumn.2.1⟩ executed
    obtain ⟨op, left, right, rfl⟩ : ∃ op left right, cond = .strcmp op left right := by
      obtain ⟨op, same | same⟩ := operands_of_indexed indexed <;> exact ⟨op, _, _, same⟩
    rw [oneToOne.indexServes_iff indexed isColumn, trueRows_strcmp]
    exact lists.iff_eq _

/-- A table with one string column `a`, with the string `b` in the first row and null in the
second. -/
def oneString : TableView where
  schema := { Schema.shortKeys with columns := [⟨0x1d48⟩] }
  names := [[0x61]]
  state :=
    { strings :=
        { strings := [default, ⟨1, 0, [0x62]⟩]
          freeslot := 2
          chain := fun bucket => if bucket = makehash [0x62] then [1] else [] }
      data := [[1], [0]]
      nonpersistentData := [] }
  hashTable := fun _ => none

/-- Strings in the order of their characters. -/
def byCharacters : Comparison Schema.identity where
  lstrcmpW first second := if first = second then 0 else if first < second then -1 else 1
  zero_iff := by
    intro first second
    have same : Schema.identity.equal first second = (first == second) := rfl
    rw [same, beq_iff_eq]
    split
    next equal => simp [equal]
    next apart => split <;> simp [apart]

theorem oneString_lookup (id : Nat) :
    oneString.state.strings.stringLookupId id =
      if id = 0 then some [] else if id = 1 then some [0x62] else none := by
  match id with
  | 0 => rfl
  | 1 => rfl
  | id + 2 => rfl

theorem oneString_oneToOne : oneString.OneToOne where
  empty := by
    intro _ isEmpty
    rw [oneString_lookup] at isEmpty
    split at isEmpty
    · assumption
    · split at isEmpty <;> cases isEmpty
  found_iff := by
    intro str id notEmpty
    have lookup_iff : (∃ same, oneString.state.strings.stringLookupId id = some same ∧
        oneString.schema.collation.equal str same = true) ↔ id = 1 ∧ str = [0x62] := by
      rw [oneString_lookup]
      split_ifs <;> simp_all [oneString, Schema.shortKeys, Schema.identity]
    rw [lookup_iff]
    constructor
    · intro found
      obtain ⟨mem, equal⟩ := StringTable.mem_of_string2idW found
      have isOne : id = 1 := by
        simp only [oneString] at mem
        split at mem
        · exact mem_singleton.mp mem
        · cases mem
      subst isOne
      exact ⟨rfl, beq_iff_eq.mp equal⟩
    · rintro ⟨rfl, rfl⟩
      decide +kernel
  cells := by
    intro row col _ _ fetched
    obtain ⟨inside, rfl⟩ := Schema.of_fetchInt fetched
    rw [oneString_lookup]
    have two : row < 2 := inside
    obtain rfl | rfl : row = 0 ∨ row = 1 := by omega
    all_goals rcases col with _ | _ | col <;> exact ⟨_, rfl⟩

/-- A comparison of the column with `b`. -/
def comparesWithB (op : Operator) : Expr :=
  .strcmp op (.colNumberString 1) (.sval [0x62])

/-- Every comparison of the column with `b` gives the first row. -/
theorem oneString_executed :
    oneString.whereExecute byCharacters 0 (comparesWithB op) ⟨[]⟩ =
      (oneString.withIndex 1, .ok (Selection.empty.add 0)) := by
  rfl

theorem whereExecute_selects_equal :
    oneString.verifyCondition (.complex .eq (.column [0x61]) (.sval [0x62])) =
        .ok (true, comparesWithB .eq) ∧
      oneString.whereExecute byCharacters 0 (comparesWithB .eq) ⟨[]⟩ =
        (oneString.withIndex 1, .ok (Selection.empty.add 0)) ∧
      (Selection.empty.add 0).Lists
        (oneString.trueRows byCharacters 0 ⟨[]⟩ (comparesWithB .eq)) := by
  have verified : oneString.verifyCondition (.complex .eq (.column [0x61]) (.sval [0x62])) =
      .ok (true, comparesWithB .eq) := by decide +kernel
  refine ⟨verified, oneString_executed .eq, (whereExecute_selects_iff oneString byCharacters 0 ⟨[]⟩
    oneString_oneToOne verified (oneString_executed .eq)).mpr ?_⟩
  intro _ _ _ _ _ same indexed
  cases same
  cases indexed
  refine .inl ⟨fun value isLiteral => ?_, .inl rfl⟩
  exact buildIndex_matching oneString 1 value

/-- The condition `a <> 'b'` selects the first row, which has `b`, and not the second. -/
theorem whereExecute_ignores_operator :
    oneString.OneToOne ∧
      oneString.verifyCondition (.complex .ne (.column [0x61]) (.sval [0x62])) =
        .ok (true, comparesWithB .ne) ∧
      oneString.whereExecute byCharacters 0 (comparesWithB .ne) ⟨[]⟩ =
        (oneString.withIndex 1, .ok (Selection.empty.add 0)) ∧
      oneString.trueRows byCharacters 0 ⟨[]⟩ (comparesWithB .ne) = [1] ∧
      ¬(Selection.empty.add 0).Lists
        (oneString.trueRows byCharacters 0 ⟨[]⟩ (comparesWithB .ne)) := by
  have rows : oneString.trueRows byCharacters 0 ⟨[]⟩ (comparesWithB .ne) = [1] := by decide +kernel
  refine ⟨oneString_oneToOne, by decide +kernel, oneString_executed .ne, rows, ?_⟩
  intro lists
  have shown := lists.2 0 1 rfl
  cases Selection.findEntry_add_self .empty 0 |>.symm.trans shown

end TableView

end Winex.Msi
