import Mathlib.Data.List.Basic
import Mathlib.Data.Option.Basic
import Mathlib.Tactic.Common

namespace Winex.Comctl

open Function (update update_of_ne update_self)
open List Option

/-!
# Dynamic pointer arrays

A pointer array is a count, a capacity and a block of memory.  Reading or writing
outside the block gives no result.  Counts are numbers here and `INT`s in the code; the
two agree while no block has 2^30 pointers or more.
-/

/-- A pointer, 0 for `NULL`. -/
abbrev Ptr :=
  Nat

/-- A `DPA`, without its heap. -/
structure Dpa where
  nItemCount : Nat
  ptrs : Option (List Ptr)
  nGrow : Nat
  nMaxCount : Nat

/-- `HeapReAlloc` with `HEAP_ZERO_MEMORY` for some pointers; `HeapAlloc` for no old block. -/
def reAlloc (slots : List Ptr) (count : Nat) : List Ptr :=
  slots.take count ++ .replicate (count - slots.length) 0

/-- `memmove` of pointers within a block. -/
def memmove (slots : List Ptr) (dest src count : Nat) : Option (List Ptr) :=
  if dest + count ≤ slots.length ∧ src + count ≤ slots.length then
    some (slots.take dest ++ (slots.drop src).take count ++ slots.drop (dest + count))
  else none

namespace Dpa

/-- An empty array. -/
def empty (nGrow : Nat) : Dpa :=
  ⟨0, some (reAlloc [] (nGrow * 2)), nGrow, nGrow * 2⟩

/-- `DPA_Create` -/
def create (nGrow : Int) : Dpa :=
  empty (max 8 nGrow).toNat

variable (dpa : Dpa)

/-- `DPA_Grow` -/
def grow (nGrow : Int) : Dpa :=
  { dpa with nGrow := (max 8 nGrow).toNat }

/-- The assignment `hdpa->ptrs[i] = p`. -/
def store (i : Nat) (p : Ptr) : Option Dpa :=
  match dpa.ptrs with
  | none => none
  | some slots => if i < slots.length then some { dpa with ptrs := some (slots.set i p) } else none

/-- `DPA_GetPtr` -/
def getPtr : Int → Option Ptr
  | .negSucc _ => some 0
  | .ofNat i =>
    match dpa.ptrs with
    | none => some 0
    | some slots => if dpa.nItemCount ≤ i then some 0 else slots[i]?

/-- A full array grows before `DPA_InsertPtr` stores a pointer. -/
def resized : Dpa :=
  if dpa.nMaxCount ≤ dpa.nItemCount then
    let nNewItems := dpa.nMaxCount + dpa.nGrow
    { dpa with ptrs := dpa.ptrs.map (reAlloc · nNewItems), nMaxCount := nNewItems }
  else dpa

/-- `DPA_InsertPtr` -/
def insertPtr (i : Int) (p : Ptr) : Option (Dpa × Int) :=
  match i with
  | .negSucc _ => some (dpa, -1)
  | .ofNat i =>
    match dpa.resized.ptrs with
    | none =>
      let ptrs := some (reAlloc [] (2 * dpa.nGrow))
      (store ⟨dpa.nItemCount + 1, ptrs, dpa.nGrow, dpa.nGrow * 2⟩ 0 p).map (·, 0)
    | some slots =>
      let nIndex := if dpa.nItemCount ≤ i then dpa.nItemCount else i
      let moved := if dpa.nItemCount ≤ i then some slots
        else memmove slots (i + 1) i (dpa.nItemCount - i)
      moved.bind fun slots =>
        let dpa := { dpa.resized with ptrs := some slots, nItemCount := dpa.nItemCount + 1 }
        (dpa.store nIndex p).map (·, nIndex)

/-- `DPA_SetPtr` -/
def setPtr (i : Int) (p : Ptr) : Option (Dpa × Bool) :=
  match i with
  | .negSucc _ => some (dpa, false)
  | .ofNat i =>
    if i < dpa.nItemCount then (dpa.store i p).map (·, true)
    else if i < dpa.nMaxCount then ({ dpa with nItemCount := i + 1 }.store i p).map (·, true)
    else
      let nNewItems := dpa.nGrow * (i / dpa.nGrow + 1)
      let ptrs := some (reAlloc (dpa.ptrs.getD []) nNewItems)
      ({ dpa with ptrs, nItemCount := nNewItems }.store i p).map (·, true)

/-- `DPA_DeletePtr` gives memory back. -/
def trimmed : Dpa :=
  if dpa.nItemCount + dpa.nGrow ≤ dpa.nMaxCount then
    let nNewItems := max (dpa.nGrow * 2) dpa.nItemCount
    { dpa with ptrs := dpa.ptrs.map (reAlloc · nNewItems), nMaxCount := nNewItems }
  else dpa

/-- `DPA_DeletePtr` -/
def deletePtr : Int → Option (Dpa × Ptr)
  | .negSucc _ => some (dpa, 0)
  | .ofNat i =>
    if dpa.nItemCount ≤ i then some (dpa, 0)
    else
      dpa.ptrs.bind fun slots =>
        slots[i]?.bind fun lpTemp =>
          let moved := if i < dpa.nItemCount - 1 then
              memmove slots i (i + 1) (dpa.nItemCount - i - 1)
            else some slots
          moved.map fun slots =>
            ({ dpa with ptrs := some slots, nItemCount := dpa.nItemCount - 1 }.trimmed, lpTemp)

/-- `DPA_DeleteAllPtrs` -/
def deleteAllPtrs : Dpa :=
  empty dpa.nGrow

/-- `DPA_Clone` removes the old block of the array it copies to. -/
def removed : Dpa :=
  if dpa.ptrs.isSome then ⟨0, none, dpa.nGrow, 0⟩ else dpa

/-- `DPA_Clone` then copies the pointers. -/
def copied (dpa hdpaTemp : Dpa) : Option Dpa :=
  let nNewItems := hdpaTemp.nGrow * ((dpa.nItemCount - 1) / hdpaTemp.nGrow + 1)
  let slots := reAlloc [] nNewItems
  let source := dpa.ptrs.getD []
  if dpa.nItemCount ≤ slots.length ∧ dpa.nItemCount ≤ source.length then
    let ptrs := some (source.take dpa.nItemCount ++ slots.drop dpa.nItemCount)
    some ⟨dpa.nItemCount, ptrs, hdpaTemp.nGrow, nNewItems⟩
  else none

/-- An array stands for the list in front of its slots. -/
structure Holds (dpa : Dpa) (list : List Ptr) : Prop where
  count : dpa.nItemCount = list.length
  slots : ∃ rest, dpa.ptrs = some (list ++ rest) ∧ dpa.nMaxCount = (list ++ rest).length
  nGrow : 8 ≤ dpa.nGrow

end Dpa

/-! ## Runs -/

/-- A call.  A handle that names no array is `NULL`, or the place of a new array. -/
inductive Call where
  | create (hdpa : Nat) (nGrow : Int)
  | grow (hdpa : Nat) (nGrow : Int)
  | insertPtr (hdpa : Nat) (i : Int) (p : Ptr)
  | setPtr (hdpa : Nat) (i : Int) (p : Ptr)
  | deletePtr (hdpa : Nat) (i : Int)
  | deleteAllPtrs (hdpa : Nat)
  | clone (hdpa hdpaNew : Nat)

/-- The arrays by handle. -/
abbrev Arrays :=
  Nat → Option Dpa

/-- A call that edits one array. -/
def onArray (arrays : Arrays) (hdpa : Nat) (edit : Dpa → Option Dpa) : Option Arrays :=
  match arrays hdpa with
  | none => some arrays
  | some dpa => (edit dpa).map fun dpa => update arrays hdpa (some dpa)

/-- `DPA_Clone`; the array that is copied is read after the old block was removed. -/
def cloneArray (arrays : Arrays) (hdpa hdpaNew : Nat) : Option Arrays :=
  match arrays hdpa with
  | none => some arrays
  | some dpa =>
    let temp := ((arrays hdpaNew).getD ⟨0, none, dpa.nGrow, 0⟩).removed
    let dpa := if hdpa = hdpaNew then temp else dpa
    (dpa.copied temp).map fun copy => update arrays hdpaNew (some copy)

/-- The arrays after a call. -/
def step (arrays : Arrays) : Call → Option Arrays
  | .create hdpa nGrow => some (update arrays hdpa (some (.create nGrow)))
  | .grow hdpa nGrow => onArray arrays hdpa fun dpa => some (dpa.grow nGrow)
  | .insertPtr hdpa i p => onArray arrays hdpa fun dpa => (dpa.insertPtr i p).map (·.1)
  | .setPtr hdpa i p => onArray arrays hdpa fun dpa => (dpa.setPtr i p).map (·.1)
  | .deletePtr hdpa i => onArray arrays hdpa fun dpa => (dpa.deletePtr i).map (·.1)
  | .deleteAllPtrs hdpa => onArray arrays hdpa fun dpa => some dpa.deleteAllPtrs
  | .clone hdpa hdpaNew => cloneArray arrays hdpa hdpaNew

/-- What the calls that edit a list do with it. -/
def edited (list : List Ptr) : Call → List Ptr
  | .insertPtr _ (.ofNat i) p => list.take i ++ p :: list.drop i
  | .setPtr _ (.ofNat i) p => (list ++ .replicate (i + 1 - list.length) 0).set i p
  | .deletePtr _ (.ofNat i) => list.eraseIdx i
  | .deleteAllPtrs _ => []
  | _ => list

/-- What the calls mean for the lists that the arrays stand for. -/
def effect (lists : Nat → Option (List Ptr)) (call : Call) : Nat → Option (List Ptr) :=
  match call with
  | .create hdpa _ => update lists hdpa (some [])
  | .clone hdpa hdpaNew =>
    match lists hdpa with
    | none => lists
    | some list => update lists hdpaNew (some list)
  | .grow hdpa _ | .insertPtr hdpa _ _ | .setPtr hdpa _ _ | .deletePtr hdpa _
  | .deleteAllPtrs hdpa => update lists hdpa ((lists hdpa).map (edited · call))

/-- The calls that ask for less than 2^30 pointers, where `DPA_SetPtr` stays within the block and
finds no old pointers and `DPA_Clone` has another target. -/
def Allowed (arrays : Arrays) : Call → Prop
  | .create _ nGrow | .grow _ nGrow => nGrow ≤ 0x10000000
  | .insertPtr hdpa _ _ => ∀ dpa, arrays hdpa = some dpa → dpa.nMaxCount + dpa.nGrow < 0x40000000
  | .setPtr hdpa i _ => ∀ dpa, arrays hdpa = some dpa → i < dpa.nMaxCount ∧
      ∀ j : Nat, dpa.nItemCount ≤ j → j < i → (dpa.ptrs.getD [])[j]? = some 0
  | .deletePtr _ _ | .deleteAllPtrs _ => True
  | .clone hdpa hdpaNew => hdpa ≠ hdpaNew ∧ ∀ dpa, arrays hdpa = some dpa →
      dpa.nItemCount + ((arrays hdpaNew).getD dpa).nGrow < 0x40000000

/-- The arrays after a list of calls. -/
def run : Arrays → List Call → Option Arrays
  | arrays, [] => some arrays
  | arrays, call :: calls => (step arrays call).bind fun arrays => run arrays calls

/-- Every call of a run is allowed. -/
def AllAllowed : Arrays → List Call → Prop
  | _, [] => True
  | arrays, call :: calls =>
    Allowed arrays call ∧ ∀ arrays', step arrays call = some arrays' → AllAllowed arrays' calls

/-- What `DPA_GetPtr` gives for a list. -/
def entryAt (list : List Ptr) : Int → Ptr
  | .negSucc _ => 0
  | .ofNat i => list.getD i 0

/-- In a run from no arrays each array stands for the list that the calls make. -/
def Refines (calls : List Call) : Prop :=
  ∃ arrays, run (fun _ => none) calls = some arrays ∧
    ∀ hdpa, Option.Rel
      (fun dpa list => dpa.Holds list ∧ ∀ i, dpa.getPtr i = some (entryAt list i))
      (arrays hdpa) (calls.foldl effect (fun _ => none) hdpa)

/-! ## One array -/

/-- A block that is large enough keeps the pointers. -/
theorem reAlloc_append (list rest : List Ptr) {count : Nat} (enough : list.length ≤ count) :
    ∃ rest', reAlloc (list ++ rest) count = list ++ rest' ∧ count = (list ++ rest').length := by
  refine ⟨rest.take (count - list.length) ++ .replicate (count - (list ++ rest).length) 0, ?_, ?_⟩
  · rw [reAlloc, take_append, take_of_length_le enough, append_assoc]
  · simp
    omega

variable (first second rest : List Ptr)

/-- Making room for a pointer. -/
theorem memmove_up (here old : Ptr) :
    memmove (first ++ here :: second ++ old :: rest) (first.length + 1) first.length
        (second.length + 1) =
      some (first ++ here :: (here :: second ++ rest)) := by
  rw [memmove,
    show first.length + 1 + (second.length + 1) = first.length + (second.length + 1 + 1) by omega]
  simp [take_append, take_of_length_le]

/-- Closing the gap of a pointer. -/
theorem memmove_down (here : Ptr) :
    ∃ rest',
      memmove (first ++ here :: second ++ rest) first.length (first.length + 1) second.length =
        some (first ++ second ++ rest') ∧ rest'.length = rest.length + 1 := by
  refine ⟨(first ++ here :: second ++ rest).drop (first.length + second.length), ?_, ?_⟩
  · rw [memmove, if_pos (by simp; omega)]
    simp [drop_append, drop_eq_nil_of_le]
  · simp
    omega

theorem exists_split {list : List Ptr} {i : Nat} (inside : i < list.length) :
    ∃ first here second, list = first ++ here :: second ∧ i = first.length := by
  refine ⟨list.take i, list[i], list.drop (i + 1), ?_, ?_⟩
  · rw [getElem_cons_drop, take_append_drop]
  · rw [length_take]
    omega

namespace Dpa

variable {dpa : Dpa} {list rest : List Ptr} {i : Nat}

theorem holds_empty {nGrow : Nat} (least : 8 ≤ nGrow) : (empty nGrow).Holds [] := by
  obtain ⟨rest, block, size⟩ := reAlloc_append [] [] (Nat.zero_le (nGrow * 2))
  exact ⟨rfl, ⟨rest, congrArg some block, size⟩, least⟩

/-- The assignment to a slot within the block. -/
theorem store_append {first : List Ptr} {old : Ptr} (slots : dpa.ptrs = some (first ++ old :: rest))
    (p : Ptr) : dpa.store first.length p = some { dpa with ptrs := some (first ++ p :: rest) } := by
  simp [store, slots]

namespace Holds

variable (holds : dpa.Holds list)
include holds

theorem getPtr (i : Int) : dpa.getPtr i = some (entryAt list i) := by
  obtain ⟨_, block, _⟩ := holds.slots
  match i with
  | .negSucc i => rfl
  | .ofNat i =>
    simp only [Dpa.getPtr, block, holds.count, entryAt, getD_eq_getElem?_getD]
    split
    next outside => rw [getElem?_eq_none outside, getD_none]
    next inside =>
      have isIn : i < list.length := by omega
      rw [getElem?_append_left isIn, getElem?_eq_getElem isIn, getD_some]

/-- There is room for one more pointer. -/
theorem resized : dpa.resized.Holds list ∧ list.length < dpa.resized.nMaxCount := by
  obtain ⟨rest, block, size⟩ := holds.slots
  have count := holds.count
  have least := holds.nGrow
  rw [length_append] at size
  rw [Dpa.resized]
  split
  next full =>
    obtain ⟨rest', isBlock, isSize⟩ :=
      reAlloc_append list rest (by omega : _ ≤ dpa.nMaxCount + dpa.nGrow)
    exact ⟨⟨count, ⟨rest', by simp [block, isBlock], isSize⟩, least⟩, by dsimp only; omega⟩
  next notFull => exact ⟨holds, by omega⟩

variable (hdpa : Nat)

theorem insertPtr (i : Int) (p : Ptr) :
    ∃ dpa' index, dpa.insertPtr i p = some (dpa', index) ∧
      dpa'.Holds (edited list (.insertPtr hdpa i p)) := by
  match i with
  | .negSucc i => exact ⟨dpa, -1, rfl, holds⟩
  | .ofNat i =>
    obtain ⟨larger, _⟩ := holds.resized
    obtain ⟨slots, block, size⟩ := larger.slots
    have count := holds.count
    obtain _ | ⟨old, rest⟩ := slots
    · rw [append_nil] at size
      omega
    -- the block before the pointer is stored
    obtain ⟨old', moved, index⟩ : ∃ old', (if dpa.nItemCount ≤ i then some (list ++ old :: rest)
          else memmove (list ++ old :: rest) (i + 1) i (dpa.nItemCount - i)) =
          some (list.take i ++ old' :: (list.drop i ++ rest)) ∧
        (if dpa.nItemCount ≤ i then dpa.nItemCount else i) = (list.take i).length := by
      split
      next atEnd =>
        rw [take_of_length_le (by omega), drop_eq_nil_of_le (by omega), count]
        exact ⟨old, rfl, rfl⟩
      obtain ⟨first, here, second, rfl, rfl⟩ := exists_split (by omega : i < list.length)
      have behind : dpa.nItemCount - first.length = second.length + 1 := by
        rw [count, length_append, length_cons]
        omega
      rw [behind, memmove_up]
      simp
    simp only [Dpa.insertPtr, block, moved, index, bind_some]
    rw [store_append rfl]
    refine ⟨_, _, rfl, ?_, ⟨rest, by simp [edited], ?_⟩, larger.nGrow⟩
    all_goals
      simp [edited] at size ⊢
      omega

theorem setPtr {i : Int} (inside : i < dpa.nMaxCount)
    (cleared : ∀ j : Nat, dpa.nItemCount ≤ j → j < i → (dpa.ptrs.getD [])[j]? = some 0) (p : Ptr) :
    ∃ dpa' result, dpa.setPtr i p = some (dpa', result) ∧
      dpa'.Holds (edited list (.setPtr hdpa i p)) := by
  obtain ⟨rest, block, size⟩ := holds.slots
  have count := holds.count
  rw [length_append] at size
  match i with
  | .negSucc i => exact ⟨dpa, false, rfl, holds⟩
  | .ofNat i =>
    have inside : i < dpa.nMaxCount := Int.ofNat_lt.mp inside
    simp only [Dpa.setPtr, edited, if_pos inside]
    split
    next isItem =>
      obtain ⟨first, here, second, rfl, rfl⟩ := exists_split (by omega : i < list.length)
      have slots : dpa.ptrs = some (first ++ here :: (second ++ rest)) := by simp [block]
      rw [store_append slots]
      refine ⟨_, _, rfl, by simpa using count, ⟨rest, by simp, ?_⟩, holds.nGrow⟩
      rw [length_append]
      simpa using size
    next behind =>
      obtain ⟨first, _, second, rfl, _⟩ :=
        exists_split (by omega : i - list.length < rest.length)
      obtain rfl : i = (list ++ first).length := by
        rw [length_append]
        omega
      -- the slots in front of the pointer are the entries in between
      have zeros : first = .replicate first.length 0 := by
        refine eq_replicate_iff.mpr ⟨rfl, fun p inFirst => ?_⟩
        obtain ⟨k, isIn, rfl⟩ := getElem_of_mem inFirst
        have clear := cleared (list.length + k) (by omega) (by simp; omega)
        rw [block, getD_some, getElem?_append_right (by omega),
          getElem?_append_left (by omega)] at clear
        simpa [isIn] using clear
      have extended : (list ++ .replicate ((list ++ first).length + 1 - list.length) 0).set
          (list ++ first).length p = list ++ first ++ [p] := by
        rw [show (list ++ first).length + 1 - list.length = first.length + 1 by simp; omega,
          replicate_succ', ← zeros]
        simp
      rw [block, ← append_assoc, store_append rfl, extended]
      refine ⟨_, _, rfl, by simp [Nat.add_assoc], ⟨second, by simp, ?_⟩, holds.nGrow⟩
      simp at size ⊢
      omega

/-- Memory behind the list is given back. -/
theorem trimmed : dpa.trimmed.Holds list := by
  obtain ⟨rest, block, _⟩ := holds.slots
  have count := holds.count
  rw [Dpa.trimmed]
  split
  · obtain ⟨rest', isBlock, isSize⟩ :=
      reAlloc_append list rest (by omega : _ ≤ max (dpa.nGrow * 2) dpa.nItemCount)
    exact ⟨count, ⟨rest', by simp [block, isBlock], isSize⟩, holds.nGrow⟩
  · exact holds

theorem deletePtr (i : Int) :
    ∃ dpa' result, dpa.deletePtr i = some (dpa', result) ∧
      dpa'.Holds (edited list (.deletePtr hdpa i)) := by
  obtain ⟨rest, block, size⟩ := holds.slots
  have count := holds.count
  match i with
  | .negSucc i => exact ⟨dpa, 0, rfl, holds⟩
  | .ofNat i =>
    simp only [Dpa.deletePtr, edited]
    split
    next outside =>
      rw [eraseIdx_of_length_le (by omega)]
      exact ⟨dpa, 0, rfl, holds⟩
    obtain ⟨first, here, second, rfl, rfl⟩ := exists_split (by omega : i < list.length)
    rw [length_append, length_cons] at count
    -- the block after the gap was closed
    obtain ⟨rest', moved, _⟩ : ∃ rest', (if first.length < dpa.nItemCount - 1 then
            memmove (first ++ here :: second ++ rest) first.length (first.length + 1)
              (dpa.nItemCount - first.length - 1)
          else some (first ++ here :: second ++ rest)) = some (first ++ second ++ rest') ∧
        rest'.length = rest.length + 1 := by
      split
      · rw [show dpa.nItemCount - first.length - 1 = second.length by omega]
        exact memmove_down ..
      · obtain rfl : second = [] := eq_nil_of_length_eq_zero (by omega)
        exact ⟨here :: rest, by simp, rfl⟩
    have isHere : (first ++ here :: second ++ rest)[first.length]? = some here := by simp
    have shorter : (first ++ here :: second).eraseIdx first.length = first ++ second := by
      simp [eraseIdx_append_of_length_le]
    simp only [block, bind_some, isHere, moved, map_some, shorter]
    refine ⟨_, _, rfl, Holds.trimmed ⟨?_, ⟨rest', rfl, ?_⟩, holds.nGrow⟩⟩
    all_goals
      simp at size ⊢
      omega

theorem copied {temp : Dpa} (least : 8 ≤ temp.nGrow) :
    ∃ copy, dpa.copied temp = some copy ∧ copy.Holds list := by
  obtain ⟨_, block, _⟩ := holds.slots
  have count := holds.count
  -- the capacity is the count rounded up to a multiple of the growth
  have rounded := Nat.div_add_mod (dpa.nItemCount - 1) temp.nGrow
  have less := Nat.mod_lt (dpa.nItemCount - 1) (by omega : 0 < temp.nGrow)
  have product := Nat.mul_succ temp.nGrow ((dpa.nItemCount - 1) / temp.nGrow)
  rw [Dpa.copied]
  generalize temp.nGrow * ((dpa.nItemCount - 1) / temp.nGrow + 1) = nNewItems at *
  obtain ⟨slots, isBlock, isSize⟩ := reAlloc_append [] [] (Nat.zero_le nNewItems)
  simp only [nil_append] at isBlock isSize
  simp only [isBlock, block, getD_some, count, take_left]
  rw [if_pos (by rw [length_append]; omega)]
  refine ⟨_, rfl, rfl, ⟨slots.drop list.length, rfl, ?_⟩, least⟩
  rw [length_append, length_drop]
  dsimp only
  omega

end Holds

end Dpa

/-! ## Whole runs -/

/-- Every array stands for the list with its handle. -/
def Represents (arrays : Arrays) (lists : Nat → Option (List Ptr)) : Prop :=
  ∀ hdpa, Option.Rel Dpa.Holds (arrays hdpa) (lists hdpa)

namespace Represents

variable {arrays : Arrays} {lists : Nat → Option (List Ptr)}
variable {hdpa : Nat} {dpa : Dpa} {list : List Ptr}
variable (represents : Represents arrays lists)
include represents

theorem set (hdpa : Nat) (holds : dpa.Holds list) :
    Represents (update arrays hdpa (some dpa)) (update lists hdpa (some list)) := by
  intro other
  by_cases same : other = hdpa
  · subst same
    rw [update_self, update_self]
    exact .some holds
  · rw [update_of_ne same, update_of_ne same]
    exact represents other

theorem onArray {edit : Dpa → Option Dpa} {change : List Ptr → List Ptr}
    (edits : ∀ dpa list, arrays hdpa = some dpa → dpa.Holds list →
      ∃ dpa', edit dpa = some dpa' ∧ dpa'.Holds (change list)) :
    ∃ arrays', Comctl.onArray arrays hdpa edit = some arrays' ∧
      Represents arrays' (update lists hdpa ((lists hdpa).map change)) := by
  have here := represents hdpa
  rw [Comctl.onArray]
  generalize isArray : arrays hdpa = array, isList : lists hdpa = list at here
  cases here with
  | none => exact ⟨arrays, rfl, by rwa [map_none, ← isList, Function.update_eq_self]⟩
  | some holds =>
    obtain ⟨_, edited, holds'⟩ := edits _ _ isArray holds
    exact ⟨_, by simp only [edited]; rfl, represents.set hdpa holds'⟩

theorem clone {hdpaNew : Nat} (differs : hdpa ≠ hdpaNew) :
    ∃ arrays', cloneArray arrays hdpa hdpaNew = some arrays' ∧
      Represents arrays' (effect lists (.clone hdpa hdpaNew)) := by
  have here := represents hdpa
  have there := represents hdpaNew
  rw [cloneArray, effect]
  generalize arrays hdpa = array, lists hdpa = list at here
  cases here with
  | none => exact ⟨arrays, rfl, represents⟩
  | some holds =>
    rename_i dpa list
    -- the array that is copied to keeps its growth
    have least : 8 ≤ ((arrays hdpaNew).getD ⟨0, none, dpa.nGrow, 0⟩).removed.nGrow := by
      have same (temp : Dpa) : temp.removed.nGrow = temp.nGrow := by
        rw [Dpa.removed]
        split <;> rfl
      rw [same]
      generalize arrays hdpaNew = array, lists hdpaNew = list at there
      cases there with
      | none => exact holds.nGrow
      | some holds' => exact holds'.nGrow
    obtain ⟨_, isCopy, holds'⟩ := holds.copied least
    exact ⟨_, by simp only [if_neg differs, isCopy]; rfl, represents.set hdpaNew holds'⟩

theorem step {call : Call} (allowed : Allowed arrays call) :
    ∃ arrays', Comctl.step arrays call = some arrays' ∧ Represents arrays' (effect lists call) := by
  cases call with
  | create hdpa => exact ⟨_, rfl, represents.set hdpa (Dpa.holds_empty (by omega))⟩
  | grow =>
    exact represents.onArray fun dpa list _ holds =>
      ⟨_, rfl, holds.count, holds.slots, by simp only [Dpa.grow]; omega⟩
  | insertPtr hdpa i p =>
    refine represents.onArray fun dpa list _ holds => ?_
    obtain ⟨dpa', _, inserted, holds'⟩ := holds.insertPtr hdpa i p
    exact ⟨dpa', by rw [inserted]; rfl, holds'⟩
  | setPtr hdpa _ p =>
    refine represents.onArray fun dpa list isArray holds => ?_
    obtain ⟨inside, cleared⟩ := allowed dpa isArray
    obtain ⟨dpa', result, stored, holds'⟩ := holds.setPtr hdpa inside cleared p
    exact ⟨dpa', by rw [stored]; rfl, holds'⟩
  | deletePtr hdpa i =>
    refine represents.onArray fun dpa list _ holds => ?_
    obtain ⟨dpa', _, deleted, holds'⟩ := holds.deletePtr hdpa i
    exact ⟨dpa', by rw [deleted]; rfl, holds'⟩
  | deleteAllPtrs =>
    exact represents.onArray fun dpa list _ holds => ⟨_, rfl, Dpa.holds_empty holds.nGrow⟩
  | clone => exact represents.clone allowed.1

end Represents

/-- In every run of allowed calls each array stands for the list that the calls make. -/
theorem run_refines (calls : List Call) (allowed : AllAllowed (fun _ => none) calls) :
    Refines calls := by
  have start : Represents (fun _ => none) (fun _ => none) := fun _ => .none
  unfold Refines
  generalize (fun _ => none : Arrays) = arrays,
    (fun _ => none : Nat → Option (List Ptr)) = lists at *
  induction calls generalizing arrays lists with
  | nil =>
    refine ⟨arrays, rfl, fun hdpa => ?_⟩
    have related := start hdpa
    rw [foldl_nil]
    generalize arrays hdpa = array, lists hdpa = list at related
    cases related with
    | none => exact .none
    | some holds => exact .some ⟨holds, holds.getPtr⟩
  | cons _ _ ih =>
    obtain ⟨arrays', stepped, next⟩ := start.step allowed.1
    rw [run, stepped]
    exact ih arrays' _ (allowed.2 arrays' stepped) next

/-- A pointer is inserted and another set behind it. -/
theorem run_refines_insert : Refines [.create 0 8, .insertPtr 0 0 5, .setPtr 0 1 7] := by
  refine run_refines _ ⟨(by decide : (8 : Int) ≤ 0x10000000), fun _ created => ?_⟩
  cases created
  refine ⟨fun dpa isArray => ?_, fun _ inserted => ?_⟩
  · cases isArray
    decide
  · cases inserted
    refine ⟨fun dpa isArray => ?_, fun _ _ => trivial⟩
    cases isArray
    refine ⟨by decide, fun j above below => ?_⟩
    have : 1 ≤ j := above
    omega

/-- A pointer that is set behind the block makes the array longer than its memory. -/
theorem run_setPtr_behind : ¬Refines [.create 0 8, .setPtr 0 16 7] := by
  rintro ⟨_, ran, refines⟩
  cases ran
  cases refines 0 with
  | some holds => exact absurd holds.1.count (by decide)

end Winex.Comctl
