import Winex.MsiIndex
import Winex.MsiKeys
import Winex.StableOrder
import Mathlib.Data.List.Lex

namespace Winex.Msi

open List

/-!
# Sorting a table view

`TABLE_sort` sorts an array of row numbers by merging in place: an element of the right
half that belongs further left is moved there.  While it sorts, the view still reads
through its old array.
-/

section Merging

variable (compare : Nat → Nat → Except Failure Bool)

/-- An element moved to the left, and those before it moved up by one. -/
def rotate (array : List Nat) (i j : Nat) : List Nat :=
  array.take i ++ array.getD j 0 :: ((array.take j).drop i ++ array.drop (j + 1))

/-- The loop of `order_mergesort` that merges, for so many more values of `i`. -/
def mergeLoop (right : Nat) : Nat → Nat → Nat → Nat → List Nat → Except Failure (List Nat)
  | 0, _, _, _, array => .ok array
  | steps + 1, i, center, j, array =>
    if i ≤ center ∧ j ≤ right then
      match compare (array.getD i 0) (array.getD j 0) with
      | .error failure => .error failure
      | .ok true => mergeLoop right steps (i + 1) (center + 1) (j + 1) (rotate array i j)
      | .ok false => mergeLoop right steps (i + 1) center j array
    else .ok array

/-- `order_mergesort`, to a depth. -/
def orderMergesort : Nat → Nat → Nat → List Nat → Except Failure (List Nat)
  | 0, _, _, array => .ok array
  | depth + 1, left, right, array =>
    if left = right then .ok array
    else
      let center := (left + right) / 2
      match orderMergesort depth left center array with
      | .error failure => .error failure
      | .ok array =>
        match orderMergesort depth (center + 1) right array with
        | .error failure => .error failure
        | .ok array => mergeLoop compare right (right + 1 - left) left center (center + 1) array

/-- `order_verify` -/
def orderVerify : List Nat → Except Failure Unit
  | first :: second :: rest =>
    match compare first second with
    | .error failure => .error failure
    | .ok true => .error .functionFailed
    | .ok false => orderVerify (second :: rest)
  | _ => .ok ()

end Merging

namespace TableView

variable (view : TableView)

/-- The columns that `order_add_column` adds; once there are as many as the table has, and
for an unknown name, it fails, which is not looked at. -/
def orderColumns (names : List WString) : List Nat :=
  names.foldl
    (fun cols name =>
      if view.numCols ≤ cols.length then cols
      else
        match view.findColumn name with
        | none => cols
        | some n => cols ++ [n])
    []

/-- `order_compare` -/
def orderCompare : List Nat → Nat → Nat → Except Failure Bool
  | [], _, _ => .ok false
  | col :: rest, a, b =>
    match view.fetchInt a col with
    | .error failure => .error failure
    | .ok aVal =>
      match view.fetchInt b col with
      | .error failure => .error failure
      | .ok bVal =>
        if aVal ≠ bVal then .ok (bVal < aVal) else orderCompare rest a b

/-- The comparison of two rows succeeds. -/
def Comparable (cols : List Nat) (a b : Nat) : Prop :=
  ∃ swap, view.orderCompare cols a b = .ok swap

/-- The view with the array of a sort. -/
def withOrder (reorder : List Nat) : TableView :=
  { view with schema := { view.schema with order := some reorder } }

/-- `TABLE_sort` -/
def tableSort (names : List WString) : Except Failure TableView :=
  if view.rowCount = 0 then .ok view
  else
    let compare := view.orderCompare (view.orderColumns names)
    match orderMergesort compare view.rowCount 0 (view.rowCount - 1) (range view.rowCount)
    with
    | .error failure => .error failure
    | .ok reorder =>
      match orderVerify compare reorder with
      | .error failure => .error failure
      | .ok () => .ok (view.withOrder reorder)

/-- The columns with the names, which are to be sorted by. -/
def sortColumns (names : List WString) : List Nat :=
  names.filterMap view.findColumn

/-- The raw values of a stored row in some columns. -/
def key (cols : List Nat) (stored : Nat) : List Nat :=
  cols.map fun col => (view.state.rows.getD stored []).getD (col - 1) 0

/-- The stored rows in the order in which the view shows them. -/
def shown : List Nat :=
  (range view.rowCount).map view.schema.storedRow

/-- So many rows are read within the array of a sorted view. -/
def WithinReorder (order : Option (List Nat)) (rowCount : Nat) : Prop :=
  ∀ reorder ∈ order, ∀ row < rowCount, row < reorder.length

/-- What the comparisons of a sort read lies within the arrays. -/
def ReadsWithin (cols : List Nat) : Prop :=
  cols = [] ∨ view.rowCount ≤ 1 ∨
    (WithinReorder view.schema.order view.rowCount ∧
      ∀ row < view.rowCount, view.schema.storedRow row < view.rowCount)

/-- The number of rows after calls through another view of the table, which is not sorted. -/
def laterRows (calls : List Schema.Call) : Nat :=
  (calls.foldl { view.schema with order := none }.call view.state).rows.length

/-- A sort succeeds, the view then shows every row once, in the order of the columns and
of the stored rows, and after the calls it still reads within its array. -/
def Sorts (names : List WString) (calls : List Schema.Call) : Prop :=
  view.ReadsWithin (view.orderColumns names) ∧
    ∃ sorted, view.tableSort names = .ok sorted ∧
      sorted.shown.Perm (range view.rowCount) ∧
      sorted.shown.Pairwise (StableOrder.Before (view.key (view.sortColumns names))) ∧
      WithinReorder sorted.schema.order (view.laterRows calls)

/-- Two rows can be compared, and through the old array and by the columns kept they compare
as by themselves and by all columns.  The table does not grow. -/
structure Sortable (names : List WString) (calls : List Schema.Call) : Prop where
  reads : view.ReadsWithin (view.orderColumns names)
  readable : ∀ {a b}, a < b → b < view.rowCount → view.Comparable (view.orderColumns names) a b
  same : ∀ {a b}, a < b → b < view.rowCount →
    (view.key (view.orderColumns names) (view.schema.storedRow b) <
    view.key (view.orderColumns names) (view.schema.storedRow a) ↔
    view.key (view.sortColumns names) b < view.key (view.sortColumns names) a)
  room : if view.rowCount = 0 then WithinReorder view.schema.order (view.laterRows calls)
    else view.laterRows calls ≤ view.rowCount

end TableView

section Merging

variable {compare : Nat → Nat → Except Failure Bool} {le : Nat → Nat → Bool}

/-- Moving an element to the left in front of a part of the array. -/
theorem rotate_append (before middle after : List Nat) (element : Nat) :
    rotate (before ++ (middle ++ element :: after)) before.length (before.length + middle.length) =
      before ++ element :: (middle ++ after) := by
  have upToJ : (before ++ (middle ++ element :: after)).take (before.length + middle.length) =
      before ++ middle := by rw [← append_assoc, ← length_append, take_left]
  have behindJ : (before ++ (middle ++ element :: after)).drop (before.length + middle.length + 1) =
      after := by rw [← append_assoc, ← length_append, ← drop_drop, drop_left, drop_one, tail_cons]
  have atJ : (before ++ (middle ++ element :: after)).getD (before.length + middle.length) 0 =
      element := by simp
  rw [rotate, upToJ, behindJ, atJ, take_left, drop_left]

/-- Where the merging loop is: the merged part, what is left of the two halves, and the
rest of the array. -/
structure MergeState (right i center j : Nat) (array before first second after : List Nat) :
    Prop where
  atI : i = before.length
  atCenter : center + 1 = i + first.length
  atJ : j = center + 1
  atRight : right + 1 = j + second.length
  isArray : array = before ++ (first ++ (second ++ after))

namespace MergeState

variable {right i center j : Nat} {array before first second after : List Nat}

variable {x y : Nat}

theorem keep (state : MergeState right i center j array before (x :: first) second after) :
    MergeState right (i + 1) center j array (before ++ [x]) first second after := by
  obtain ⟨atI, atCenter, atJ, atRight, isArray⟩ := state
  rw [length_cons] at atCenter
  refine ⟨?_, ?_, atJ, atRight, ?_⟩
  · rw [length_append, atI, length_singleton]
  · omega
  · rw [isArray, append_assoc, singleton_append, cons_append]

/-- The element of the right half is the smaller one and is moved. -/
theorem move (state : MergeState right i center j array before first (y :: second) after) :
    MergeState right (i + 1) (center + 1) (j + 1) (rotate array i j) (before ++ [y]) first second
      after := by
  obtain ⟨atI, _, _, atRight, isArray⟩ := state
  rw [length_cons] at atRight
  refine ⟨?_, ?_, ?_, ?_, ?_⟩
  · rw [length_append, atI, length_singleton]
  · omega
  · omega
  · omega
  · have jEnd : j = before.length + first.length := by omega
    rw [isArray, jEnd, atI, cons_append, rotate_append, append_assoc, singleton_append]

theorem compared (state : MergeState right i center j array before (x :: first) (y :: second) after)
    : i ≤ center ∧ j ≤ right ∧ array.getD i 0 = x ∧ array.getD j 0 = y := by
  obtain ⟨atI, atCenter, _, atRight, isArray⟩ := state
  rw [length_cons] at atCenter atRight
  refine ⟨by omega, by omega, ?_, ?_⟩
  · rw [isArray, atI]
    simp
  · have jEnd : j = (before ++ x :: first).length := by
      rw [length_append, length_cons]
      omega
    rw [isArray, jEnd]
    simp

theorem ended (state : MergeState right i center j array before first second after)
    (nothing : first = [] ∨ second = []) : ¬(i ≤ center ∧ j ≤ right) := by
  obtain ⟨_, atCenter, _, atRight, _⟩ := state
  rcases nothing with rfl | rfl
  · rw [length_nil] at atCenter
    omega
  · rw [length_nil] at atRight
    omega

end MergeState

/-- The merging loop merges the two parts of the array, unless a comparison fails. -/
theorem mergeLoop_spec (agrees : ∀ a b swap, compare a b = .ok swap → swap = !le a b)
    {right i center j steps : Nat} {array before first second after : List Nat}
    (state : MergeState right i center j array before first second after)
    (enough : first.length + second.length ≤ steps) :
    mergeLoop compare right steps i center j array =
        .ok (before ++ (first.merge second le ++ after)) ∨
      (∃ failure, mergeLoop compare right steps i center j array = .error failure) ∧
        ¬∀ x ∈ first, ∀ y ∈ second, ∃ swap, compare x y = .ok swap := by
  induction steps generalizing i center j array before first second with
  | zero =>
    obtain rfl : second = [] := eq_nil_of_length_eq_zero (by omega)
    rw [mergeLoop, state.isArray]
    simp
  | succ _ ih =>
    unfold mergeLoop
    match first, second, state, enough with
    | [], second, state, _ =>
      rw [if_neg (state.ended (.inl rfl)), state.isArray]
      simp
    | x :: first, [], state, _ =>
      rw [if_neg (state.ended (.inr rfl)), state.isArray]
      simp
    | x :: first, y :: second, state, enough =>
      obtain ⟨inFirst, inSecond, atI, atJ⟩ := state.compared
      simp only [length_cons] at enough
      rw [if_pos ⟨inFirst, inSecond⟩, atI, atJ]
      cases compared : compare x y with
      | error failure =>
        refine .inr ⟨⟨failure, rfl⟩, fun readable => ?_⟩
        obtain ⟨swap, isOk⟩ := readable x mem_cons_self y mem_cons_self
        cases compared.symm.trans isOk
      | ok swap =>
        have isSwap := agrees x y swap compared
        cases swap with
        | true =>
          have smaller : ¬le x y = true := by simpa using isSwap
          rw [cons_merge_cons_neg _ _ _ smaller, cons_append, append_cons]
          refine (ih state.move (by rw [length_cons]; omega)).imp_right (And.imp_right ?_)
          exact mt fun readable a inA b inB => readable a inA b (mem_cons_of_mem y inB)
        | false =>
          have larger : le x y = true := by simpa using isSwap
          rw [cons_merge_cons_pos _ _ _ larger, cons_append, append_cons]
          refine (ih state.keep (by rw [length_cons]; omega)).imp_right (And.imp_right ?_)
          exact mt fun readable a inA b inB => readable a (mem_cons_of_mem x inA) b inB

theorem mergeSort_halves (part : List Nat) (long : 2 ≤ part.length) :
    part.mergeSort le =
      ((part.take ((part.length + 1) / 2)).mergeSort le).merge
        ((part.drop ((part.length + 1) / 2)).mergeSort le) le := by
  match part, long with
  | x :: y :: rest, _ =>
    rw [mergeSort]
    simp

/-- Where a part of the array is that is to be sorted. -/
structure SortState (left right : Nat) (array before part after : List Nat) : Prop where
  atLeft : left = before.length
  atRight : right + 1 = left + part.length
  notEmpty : left ≤ right
  isArray : array = before ++ (part ++ after)

namespace SortState

variable {left right : Nat} {array before part after : List Nat}
variable (state : SortState left right array before part after)
include state

theorem leftHalf :
    SortState left ((left + right) / 2) array before (part.take ((part.length + 1) / 2))
      (part.drop ((part.length + 1) / 2) ++ after) := by
  obtain ⟨atLeft, _, _, isArray⟩ := state
  refine ⟨atLeft, ?_, by omega, ?_⟩
  · rw [length_take]
    omega
  · rw [isArray, ← append_assoc (part.take _), take_append_drop]

theorem rightHalf (apart : left ≠ right) (sorted : List Nat)
    (sameLength : sorted.length = (part.take ((part.length + 1) / 2)).length) :
    SortState ((left + right) / 2 + 1) right
      (before ++ (sorted ++ (part.drop ((part.length + 1) / 2) ++ after))) (before ++ sorted)
      (part.drop ((part.length + 1) / 2)) after := by
  obtain ⟨_, _, _, _⟩ := state
  rw [length_take] at sameLength
  refine ⟨?_, ?_, by omega, ?_⟩
  · rw [length_append]
    omega
  · rw [length_drop]
    omega
  · rw [append_assoc]

theorem halves (first second : List Nat)
    (firstLength : first.length = (part.take ((part.length + 1) / 2)).length)
    (secondLength : second.length = (part.drop ((part.length + 1) / 2)).length) :
    MergeState right left ((left + right) / 2) ((left + right) / 2 + 1)
        (before ++ (first ++ (second ++ after))) before first second after ∧
      first.length + second.length ≤ right + 1 - left := by
  obtain ⟨atLeft, _, _, _⟩ := state
  rw [length_take] at firstLength
  rw [length_drop] at secondLength
  exact ⟨⟨atLeft, by omega, rfl, by omega, rfl⟩, by omega⟩

end SortState

/-- A part of the array is sorted by merging, unless elements cannot be compared. -/
theorem orderMergesort_spec (agrees : ∀ a b swap, compare a b = .ok swap → swap = !le a b)
    {left right depth : Nat} {array before part after : List Nat}
    (state : SortState left right array before part after) (enough : right - left < depth) :
    orderMergesort compare depth left right array = .ok (before ++ (part.mergeSort le ++ after)) ∨
      (∃ failure, orderMergesort compare depth left right array = .error failure) ∧
        ¬part.Pairwise (fun x y => ∃ swap, compare x y = .ok swap) := by
  induction depth generalizing left right array before part after with
  | zero => exact absurd enough (Nat.not_lt_zero _)
  | succ _ ih =>
    unfold orderMergesort
    have atRight := state.atRight
    by_cases single : left = right
    · obtain ⟨x, rfl⟩ := length_eq_one_iff.mp (show part.length = 1 by omega)
      rw [if_pos single, mergeSort_singleton]
      exact .inl (congrArg _ state.isArray)
    rw [if_neg single]
    have less := state.notEmpty
    rcases ih state.leftHalf (by omega) with sortedLeft | ⟨⟨failure, failed⟩, unreadable⟩
    · have rightHalf := state.rightHalf single (mergeSort _ le) (length_mergeSort _)
      rcases ih rightHalf (by omega) with sortedRight | ⟨⟨failure, failed⟩, unreadable⟩
      · simp only [sortedLeft, sortedRight]
        rw [mergeSort_halves part (by omega), append_assoc]
        obtain ⟨merging, steps⟩ := state.halves (mergeSort _ le) (mergeSort _ le)
          (length_mergeSort _) (length_mergeSort _)
        refine (mergeLoop_spec agrees merging steps).imp_right (And.imp_right ?_)
        -- what was in the left half stands before what was in the right half
        exact mt fun readable x inFirst y inSecond =>
          readable.rel_of_mem_take_of_mem_drop (mem_mergeSort.mp inFirst)
            (mem_mergeSort.mp inSecond)
      · simp only [sortedLeft, failed]
        exact .inr ⟨⟨failure, rfl⟩, mt List.Pairwise.drop unreadable⟩
    · simp only [failed]
      exact .inr ⟨⟨failure, rfl⟩, mt List.Pairwise.take unreadable⟩

theorem orderVerify_ok_iff (array : List Nat) :
    orderVerify compare array = .ok () ↔
      array.IsChain fun first second => compare first second = .ok false := by
  match array with
  | [] => simp [orderVerify]
  | [_] => simp [orderVerify]
  | first :: second :: rest =>
    rw [isChain_cons_cons, ← orderVerify_ok_iff (second :: rest)]
    simp only [orderVerify]
    cases compared : compare first second with
    | error => simp
    | ok swap =>
      cases swap with
      | true | false => simp

end Merging

namespace TableView

variable {view : TableView}

variable {col a b : Nat}

/-- The key of a row as the comparisons of a sort read it. -/
def oldKey (view : TableView) (cols : List Nat) (row : Nat) : List Nat :=
  view.key cols (view.schema.storedRow row)

/-- A comparison that succeeds reads both rows, and decides by the first column in which
they differ. -/
theorem orderCompare_cons {rest : List Nat} {swap : Bool} :
    view.orderCompare (col :: rest) a b = .ok swap ↔
      ∃ aVal bVal, view.fetchInt a col = .ok aVal ∧ view.fetchInt b col = .ok bVal ∧
        (aVal = bVal ∧ view.orderCompare rest a b = .ok swap ∨
          aVal ≠ bVal ∧ decide (bVal < aVal) = swap) := by
  rw [orderCompare]
  cases view.fetchInt a col with
  | error => simp
  | ok aVal =>
    cases view.fetchInt b col with
    | error => simp
    | ok bVal => by_cases same : aVal = bVal <;> simp [same]

/-- A comparison that succeeds compares the keys. -/
theorem orderCompare_eq (view : TableView) (cols : List Nat) :
    ∀ (a b : Nat) (swap : Bool), view.orderCompare cols a b = .ok swap →
      swap = !StableOrder.keyLE (view.oldKey cols) a b := by
  induction cols with
  | nil =>
    intro _ _ _ compared
    cases compared
    simp [StableOrder.keyLE, oldKey, key]
  | cons col rest ih =>
    intro a b swap compared
    obtain ⟨aVal, bVal, readA, readB, compared⟩ := orderCompare_cons.mp compared
    have keyA : view.oldKey (col :: rest) a = aVal :: view.oldKey rest a := by
      rw [(Schema.of_fetchInt readA).2]
      rfl
    have keyB : view.oldKey (col :: rest) b = bVal :: view.oldKey rest b := by
      rw [(Schema.of_fetchInt readB).2]
      rfl
    rw [Bool.eq_iff_iff, StableOrder.not_keyLE_iff, keyA, keyB, cons_lt_cons_iff]
    obtain ⟨same, compared⟩ | ⟨differ, rfl⟩ := compared
    · have restSame := ih a b swap compared
      rw [Bool.eq_iff_iff, StableOrder.not_keyLE_iff] at restSame
      rw [restSame, same]
      simp
    · simp [differ.symm]

/-- If comparing two rows succeeds, so does comparing them the other way round. -/
theorem Comparable.symm (cols : List Nat) :
    view.Comparable cols a b → view.Comparable cols b a := by
  induction cols with
  | nil => exact fun _ => ⟨false, rfl⟩
  | cons _ _ ih =>
    rintro ⟨swap, compared⟩
    obtain ⟨_, _, readA, readB, compared⟩ := orderCompare_cons.mp compared
    obtain ⟨same, compared⟩ | ⟨differ, -⟩ := compared
    · obtain ⟨swap', back⟩ := ih ⟨swap, compared⟩
      exact ⟨swap', orderCompare_cons.mpr ⟨_, _, readB, readA, .inl ⟨same.symm, back⟩⟩⟩
    · exact ⟨_, orderCompare_cons.mpr ⟨_, _, readB, readA, .inr ⟨differ.symm, rfl⟩⟩⟩

instance (cols : List Nat) : Std.Symm (view.Comparable cols) :=
  ⟨fun _ _ => Comparable.symm cols⟩

/-- Rows that may stand in their order one after the other may do so from the first to the
last. -/
theorem orderCompare_trans (cols : List Nat) {c : Nat} :
    view.orderCompare cols a b = .ok false → view.orderCompare cols b c = .ok false →
      view.orderCompare cols a c = .ok false := by
  induction cols with
  | nil => exact fun _ _ => rfl
  | cons _ _ ih =>
    intro first second
    obtain ⟨aVal, bVal, readA, readB, first⟩ := orderCompare_cons.mp first
    obtain ⟨_, cVal, readB', readC, second⟩ := orderCompare_cons.mp second
    obtain rfl := Except.ok.inj (readB.symm.trans readB')
    refine orderCompare_cons.mpr ⟨aVal, cVal, readA, readC, ?_⟩
    obtain ⟨rfl, first⟩ | ⟨_, less⟩ := first
    · exact second.imp (fun same => ⟨same.1, ih first same.2⟩) id
    have notLess : ¬bVal < aVal := of_decide_eq_false less
    have notGreater : ¬cVal < bVal := by
      obtain ⟨_, -⟩ | ⟨-, greater⟩ := second
      · omega
      · exact of_decide_eq_false greater
    exact .inr ⟨by omega, decide_eq_false (by omega)⟩

/-- The array that a sort of rows makes. -/
def sortedRows (view : TableView) (cols : List Nat) : List Nat :=
  (range view.rowCount).mergeSort (StableOrder.keyLE (view.oldKey cols))

theorem sortState (rows : view.rowCount ≠ 0) :
    SortState 0 (view.rowCount - 1) (range view.rowCount) [] (range view.rowCount)
      [] := by
  refine ⟨rfl, ?_, Nat.zero_le _, ?_⟩
  · rw [length_range]
    omega
  · rw [nil_append, append_nil]

variable {names : List WString}

theorem tableSort_eq {sorted : TableView} (rows : view.rowCount ≠ 0)
    (succeeds : view.tableSort names = .ok sorted) :
    sorted = view.withOrder (view.sortedRows (view.orderColumns names)) ∧
      (view.sortedRows (view.orderColumns names)).Pairwise fun a b =>
        view.orderCompare (view.orderColumns names) a b = .ok false := by
  unfold tableSort at succeeds
  rw [if_neg rows] at succeeds
  rcases orderMergesort_spec (orderCompare_eq view (view.orderColumns names)) (sortState rows)
    (by omega : _ < view.rowCount) with merged | ⟨⟨failure, failed⟩, -⟩
  · simp only [merged, nil_append, append_nil] at succeeds
    split at succeeds
    · cases succeeds
    rename_i verified
    cases succeeds
    refine ⟨rfl, ?_⟩
    have : IsTrans Nat fun a b =>
        view.orderCompare (view.orderColumns names) a b = .ok false :=
      ⟨fun _ _ _ => orderCompare_trans _⟩
    exact isChain_iff_pairwise.mp ((orderVerify_ok_iff _).mp verified)
  · simp only [failed] at succeeds
    cases succeeds

/-- A sort succeeds if different rows can be compared. -/
theorem tableSort_ok (rows : view.rowCount ≠ 0)
    (readable : ∀ {a b}, a < b → b < view.rowCount →
      view.Comparable (view.orderColumns names) a b) :
    ∃ sorted, view.tableSort names = .ok sorted := by
  have compares := orderCompare_eq view (view.orderColumns names)
  have pairs : (range view.rowCount).Pairwise (view.Comparable (view.orderColumns names)) :=
    pairwise_lt_range.imp_of_mem fun _ inSecond less => readable less (mem_range.mp inSecond)
  have merged := (orderMergesort_spec compares (sortState rows)
    (by omega : _ < view.rowCount)).resolve_right fun failed => failed.2 pairs
  rw [nil_append, append_nil] at merged
  -- in the sorted array each row may stand before the next one
  have ordered : orderVerify (view.orderCompare (view.orderColumns names))
      (view.sortedRows (view.orderColumns names)) = .ok () := by
    rw [orderVerify_ok_iff]
    refine List.Pairwise.isChain ?_
    refine (StableOrder.range_mergeSort_before _ _).imp_of_mem
      fun {first second} inFirst inSecond before => ?_
    have firstInside := mem_range.mp (mem_mergeSort.mp inFirst)
    have secondInside := mem_range.mp (mem_mergeSort.mp inSecond)
    have comparable : view.Comparable (view.orderColumns names) first second := by
      rcases Nat.lt_trichotomy first second with less | same | greater
      · exact readable less secondInside
      · rw [same] at before
        exact absurd before (StableOrder.not_before_self second)
      · exact Comparable.symm _ (readable greater firstInside)
    obtain ⟨swap, compared⟩ := comparable
    have isSwap := compares first second swap compared
    rw [StableOrder.keyLE, decide_eq_true (le_of_not_gt before.not_lt)] at isSwap
    rw [compared, isSwap]
    rfl
  refine ⟨view.withOrder (view.sortedRows (view.orderColumns names)), ?_⟩
  unfold tableSort
  rw [if_neg rows]
  simp only [merged]
  rw [sortedRows] at ordered
  simp only [ordered, sortedRows]

theorem shown_sorted (view : TableView) (cols : List Nat) :
    (view.withOrder (view.sortedRows cols)).shown = view.sortedRows cols := by
  have length : (view.sortedRows cols).length = view.rowCount := by
    rw [sortedRows, length_mergeSort, length_range]
  refine ext_getElem ?_ fun row inside insideArray => ?_
  · rw [shown, length_map, length_range, length]
    rfl
  · simp only [shown, getElem_map, getElem_range, Schema.storedRow, withOrder]
    rw [getD_eq_getElem?_getD, getElem?_eq_getElem insideArray, Option.getD_some]

theorem withinReorder_some {reorder : List Nat} {rowCount : Nat} :
    WithinReorder (some reorder) rowCount ↔ rowCount ≤ reorder.length := by
  simp [WithinReorder, forall_lt_iff_le]

/-- Sorting works as it should exactly if the rows are sortable. -/
theorem sorts_iff (view : TableView) (names : List WString) (calls : List Schema.Call) :
    view.Sorts names calls ↔ view.Sortable names calls := by
  by_cases rows : view.rowCount = 0
  · -- nothing is sorted, and the old array stays
    have kept : view.tableSort names = .ok view := by rw [tableSort, if_pos rows]
    have nothing : view.shown = [] := by simp [shown, rows]
    constructor
    · rintro ⟨reads, sorted, succeeds, -, -, within⟩
      cases kept.symm.trans succeeds
      exact ⟨reads, fun _ inside => by omega, fun _ inside => by omega, by rwa [if_pos rows]⟩
    · intro sortable
      have room := sortable.room
      rw [if_pos rows] at room
      exact ⟨sortable.reads, view, kept, by simp [nothing, rows], by simp [nothing], room⟩
  · have perm : (view.sortedRows (view.orderColumns names)).Perm (range view.rowCount) :=
      mergeSort_perm _ _
    have length : (view.sortedRows (view.orderColumns names)).length = view.rowCount := by
      rw [perm.length_eq, length_range]
    have mem_iff : ∀ {row}, row ∈ view.sortedRows (view.orderColumns names) ↔
        row < view.rowCount := by
      intro _
      rw [perm.mem_iff, mem_range]
    have ordered_iff := StableOrder.pairwise_before_iff (view.key (view.sortColumns names))
      (StableOrder.range_mergeSort_before (view.oldKey (view.orderColumns names)) view.rowCount)
    constructor
    · rintro ⟨reads, sorted, succeeds, -, ordered, within⟩
      obtain ⟨rfl, verified⟩ := tableSort_eq rows succeeds
      rw [shown_sorted] at ordered
      refine ⟨reads, fun {a b} less inside => ?_, fun {a b} less inside => ?_, ?_⟩
      · have comparable : (view.sortedRows (view.orderColumns names)).Pairwise
            (view.Comparable (view.orderColumns names)) :=
          verified.imp fun compared => ⟨false, compared⟩
        exact comparable.forall (mem_iff.mpr (by omega)) (mem_iff.mpr inside) (Nat.ne_of_lt less)
      · exact ordered_iff.mp ordered a (mem_iff.mpr (by omega)) b (mem_iff.mpr inside) less
      · rw [if_neg rows, ← length]
        exact withinReorder_some.mp within
    · intro sortable
      obtain ⟨_, succeeds⟩ := tableSort_ok rows sortable.readable
      obtain ⟨rfl, -⟩ := tableSort_eq rows succeeds
      refine ⟨sortable.reads, _, succeeds, ?_, ?_, ?_⟩
      · rw [shown_sorted]
        exact perm
      · rw [shown_sorted]
        refine ordered_iff.mpr fun a inA b inB less => ?_
        exact sortable.same less (mem_iff.mp inB)
      · have room := sortable.room
        rw [if_neg rows, ← length] at room
        exact withinReorder_some.mpr room

/-- A table with the columns `a` and `b` and the rows 1, 2 and 1, 1. -/
def descending : TableView where
  schema := { Schema.shortKeys with columns := [⟨0x1102⟩, ⟨0x1102⟩] }
  names := [[0x61], [0x62]]
  state :=
    { strings := ⟨[default], 1, fun _ => []⟩
      data := [[1, 2], [1, 1]]
      nonpersistentData := [] }
  hashTable := fun _ => none

/-- A sort by `a`, `a` and `b` does not look at `b`. -/
theorem sort_drops_column :
    descending.tableSort [[0x61], [0x61], [0x62]] = .ok (descending.withOrder [0, 1]) ∧
      ¬descending.Sorts [[0x61], [0x61], [0x62]] [] := by
  have kept : descending.tableSort [[0x61], [0x61], [0x62]] =
      .ok (descending.withOrder [0, 1]) := by rfl
  refine ⟨kept, ?_⟩
  rintro ⟨-, _, succeeds, -, ordered, -⟩
  cases kept.symm.trans succeeds
  have wrong := (pairwise_cons.mp ordered).1 1 mem_cons_self
  revert wrong
  unfold StableOrder.Before
  decide +kernel

end TableView

end Winex.Msi
