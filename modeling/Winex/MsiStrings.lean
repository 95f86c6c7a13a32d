import Mathlib.Data.List.Basic
import Mathlib.Data.List.Find
import Mathlib.Logic.Function.Basic
import Mathlib.Tactic.Common

namespace Winex.Msi

open List

/-!
# The string pool

A database keeps each string once, in a table that is found again through hash chains.
Nothing is ever taken out of a chain, and an entry is free while nothing refers to it.
-/

/-- A string of `WCHAR`s, without its terminator. -/
abbrev WString :=
  List UInt16

/-- When `lstrcmpW` takes two strings for equal. -/
structure Collation where
  equal : WString → WString → Bool
  refl : ∀ str, equal str str = true
  symm : ∀ {first second}, equal first second = true → equal second first = true
  trans : ∀ {first second third},
    equal first second = true → equal second third = true → equal first third = true

/-- `msistring_makehash` -/
def makehash (str : WString) : Nat :=
  let hash := str.foldl
    (fun (hash : UInt32) char =>
      let hash := (hash ^^^ char.toUInt32) * 53
      (hash <<< 5) ||| (hash >>> 27))
    (0 : UInt32)
  hash.toNat % 0x101

/-- An `msistring`.  The counts are `UINT`s; what is proved assumes that they do not wrap. -/
structure PoolString where
  persistentRefcount : Nat
  nonpersistentRefcount : Nat
  str : WString
  deriving DecidableEq, Inhabited

/-- Nothing refers to the entry. -/
def PoolString.IsFree (entry : PoolString) : Prop :=
  entry.persistentRefcount = 0 ∧ entry.nonpersistentRefcount = 0

instance (entry : PoolString) : Decidable entry.IsFree :=
  inferInstanceAs (Decidable (_ ∧ _))

/-- A `string_table`.  The chains from `hash` through `hash_next` are lists. -/
structure StringTable where
  strings : List PoolString
  freeslot : Nat
  chain : Nat → List Nat

/-- Where strings are added. -/
inductive Persistence where
  | persistent
  | nonpersistent
  deriving DecidableEq

namespace StringTable

variable (collation : Collation)

variable (table : StringTable)

/-- An entry of the table. -/
def entry (n : Nat) : PoolString :=
  table.strings.getD n default

/-- `msi_string2idW`, which finds nothing for a null pointer. -/
def string2idW : Option WString → Option Nat
  | none => none
  | some str => (table.chain (makehash str)).find? fun n => collation.equal str (table.entry n).str

/-- The first free entry from a position on. -/
def freeFrom (start : Nat) : Option Nat :=
  ((List.range table.strings.length).drop start).find? fun n => (table.entry n).IsFree

/-- `st_find_free_entry` -/
def findFreeEntry : StringTable × Nat :=
  match if table.freeslot ≠ 0 then table.freeFrom table.freeslot else none with
  | some n => (table, n)
  | none =>
    match table.freeFrom 1 with
    | some n => (table, n)
    | none =>
      -- the table is enlarged
      let maxcount := table.strings.length
      ({ table with
          strings := table.strings ++ .replicate (1 + maxcount / 2) default
          freeslot := maxcount },
        maxcount)

/-- `set_st_entry` with one reference. -/
def setEntry (n : Nat) (str : WString) (persistence : Persistence) : StringTable where
  strings := table.strings.set n
    (match persistence with
      | .persistent => ⟨1, 0, str⟩
      | .nonpersistent => ⟨0, 1, str⟩)
  freeslot := if n < table.strings.length then n + 1 else table.freeslot
  chain := Function.update table.chain (makehash str) (n :: table.chain (makehash str))

/-- One more reference to an entry. -/
def addReference (n : Nat) (persistence : Persistence) : StringTable :=
  { table with
    strings := table.strings.modify n fun entry =>
      match persistence with
      | .persistent => { entry with persistentRefcount := entry.persistentRefcount + 1 }
      | .nonpersistent => { entry with nonpersistentRefcount := entry.nonpersistentRefcount + 1 } }

/-- `msi_addstringW` for a string of any length, with one reference and no given entry. -/
def addstringW (data : Option WString) (persistence : Persistence) : StringTable × Nat :=
  match data with
  | none => (table, 0)
  | some [] => (table, 0)
  | some str =>
    match table.string2idW collation (some str) with
    | some n => (table.addReference n persistence, n)
    | none =>
      let (table, n) := table.findFreeEntry
      (table.setEntry n str persistence, n)

/-- `msi_string_lookup_id` -/
def stringLookupId (id : Nat) : Option WString :=
  if id = 0 then some []
  else if table.strings.length ≤ id then none
  else if (table.entry id).IsFree then none
  else some (table.entry id).str

/-- The chains lead to entries in use, with strings that belong there. -/
structure WellFormed (table : StringTable) : Prop where
  notEmpty : 0 < table.strings.length
  chained : ∀ bucket n, n ∈ table.chain bucket →
    0 < n ∧ n < table.strings.length ∧ ¬(table.entry n).IsFree ∧ (table.entry n).str ≠ [] ∧
    makehash (table.entry n).str = bucket

/-- Each string is in the table once, where it is found. -/
def Distinct : Prop :=
  ∀ id str, table.stringLookupId id = some str → str ≠ [] →
    table.string2idW collation (some str) = some id

/-- No count wraps while a row is set, which has at most 32 columns. -/
def Roomy : Prop :=
  ∀ n, (table.entry n).persistentRefcount + 32 < 0x100000000 ∧
    (table.entry n).nonpersistentRefcount + 32 < 0x100000000

/-- What is found in a table is found in the other, under the same id. -/
structure Extends (table table' : StringTable) : Prop where
  string2idW : ∀ str n, table.string2idW collation str = some n →
    table'.string2idW collation str = some n
  lookup : ∀ id str, table.stringLookupId id = some str → table'.stringLookupId id = some str

variable {collation : Collation} {table}
variable {n : Nat} {str : WString} {table' : StringTable}

theorem entry_isFree (behind : table.strings.length ≤ n) : (table.entry n).IsFree := by
  rw [entry, getD_eq_getElem?_getD, getElem?_eq_none behind]
  exact ⟨rfl, rfl⟩

theorem stringLookupId_eq {id : Nat} (positive : 0 < id) :
    table.stringLookupId id =
      if (table.entry id).IsFree then none else some (table.entry id).str := by
  rw [stringLookupId, if_neg (Nat.ne_of_gt positive)]
  by_cases behind : table.strings.length ≤ id
  · rw [if_pos behind, if_pos (entry_isFree behind)]
  · rw [if_neg behind]

theorem stringLookupId_congr {id : Nat} (same : table'.entry id = table.entry id) :
    table'.stringLookupId id = table.stringLookupId id := by
  rcases Nat.eq_zero_or_pos id with rfl | positive
  · rfl
  · rw [stringLookupId_eq positive, stringLookupId_eq positive, same]

variable (found : table.string2idW collation (some str) = some n)
include found

theorem mem_of_string2idW :
    n ∈ table.chain (makehash str) ∧ collation.equal str (table.entry n).str = true :=
  ⟨mem_of_find?_eq_some found,
    find?_some (p := fun n => collation.equal str (table.entry n).str) found⟩

variable (wellFormed : table.WellFormed)

include wellFormed in
theorem WellFormed.canonical :
    0 < n ∧ (table.entry n).str ≠ [] ∧
      table.stringLookupId n = some (table.entry n).str ∧
      table.string2idW collation (some (table.entry n).str) = some n := by
  obtain ⟨mem, same⟩ := mem_of_string2idW found
  obtain ⟨positive, -, inUse, notEmpty, bucket⟩ := wellFormed.chained _ n mem
  refine ⟨positive, notEmpty, ?_, ?_⟩
  · rw [stringLookupId_eq positive, if_neg inUse]
  · -- an earlier entry equal to this one would have been found for the string
    rw [← found]
    simp only [string2idW, bucket]
    refine congrArg (find? · _) (funext fun m => ?_)
    rw [Bool.eq_iff_iff]
    exact ⟨fun equal => collation.trans same equal,
      fun equal => collation.trans (collation.symm same) equal⟩

omit found

theorem of_freeFrom {start : Nat} (found : table.freeFrom start = some n) :
    start ≤ n ∧ n < table.strings.length ∧ (table.entry n).IsFree := by
  have mem := mem_of_find?_eq_some found
  rw [mem_drop_iff_getElem] at mem
  obtain ⟨_, inside, isN⟩ := mem
  rw [getElem_range] at isN
  rw [length_range] at inside
  exact ⟨by omega, by omega, of_decide_eq_true
    (find?_some (p := fun n => decide (table.entry n).IsFree) found)⟩

include wellFormed in
theorem WellFormed.findFreeEntry (found : table.findFreeEntry = (table', n)) :
    0 < n ∧ n < table'.strings.length ∧ table.strings.length ≤ table'.strings.length ∧
      (table.entry n).IsFree ∧ table'.entry = table.entry ∧ table'.chain = table.chain := by
  unfold StringTable.findFreeEntry at found
  split at found
  next first =>
    cases found
    split at first
    next slot =>
      obtain ⟨least, inside, isFree⟩ := of_freeFrom first
      exact ⟨by omega, inside, Nat.le_refl _, isFree, rfl, rfl⟩
    · cases first
  · split at found
    next second =>
      cases found
      obtain ⟨least, inside, isFree⟩ := of_freeFrom second
      exact ⟨least, inside, Nat.le_refl _, isFree, rfl, rfl⟩
    · cases found
      have longer : (table.strings ++
          replicate (1 + table.strings.length / 2) (default : PoolString)).length =
            table.strings.length + (1 + table.strings.length / 2) := by
        rw [length_append, length_replicate]
      refine ⟨wellFormed.notEmpty, longer ▸ (by omega), longer ▸ (by omega),
        entry_isFree (Nat.le_refl _), ?_, rfl⟩
      funext m
      simp only [entry, getD_eq_getElem?_getD, getElem?_append, getElem?_replicate]
      split
      · rfl
      · rw [getElem?_eq_none (by omega)]
        split <;> rfl

theorem entry_setEntry (inside : n < table.strings.length) (str : WString)
    (persistence : Persistence) (m : Nat) :
    (table.setEntry n str persistence).entry m =
      if n = m then
        match persistence with
        | .persistent => ⟨1, 0, str⟩
        | .nonpersistent => ⟨0, 1, str⟩
      else table.entry m := by
  simp only [entry, setEntry, getD_eq_getElem?_getD, getElem?_set]
  split <;> rfl

/-- The entries after one more reference. -/
theorem entry_addReference (table : StringTable) (n : Nat) (persistence : Persistence) (m : Nat) :
    ((table.addReference n persistence).entry m).str = (table.entry m).str ∧
      (((table.addReference n persistence).entry m).IsFree → (table.entry m).IsFree) := by
  simp only [entry, addReference, getD_eq_getElem?_getD, getElem?_modify]
  split
  next isM =>
    cases table.strings[m]? with
    | none => exact ⟨rfl, id⟩
    | some =>
      cases persistence with
      | persistent => exact ⟨rfl, fun isFree => absurd isFree.1 (Nat.succ_ne_zero _)⟩
      | nonpersistent => exact ⟨rfl, fun isFree => absurd isFree.2 (Nat.succ_ne_zero _)⟩
  · exact ⟨by simp, by simp⟩

/-- A table whose entries in use stay as they are, and whose chains only get new members
in front that are not taken for the others, extends a table. -/
theorem extends_of_entries
    (kept : ∀ n, ¬(table.entry n).IsFree →
      ¬(table'.entry n).IsFree ∧ (table'.entry n).str = (table.entry n).str)
    (chains : ∀ str n, table.string2idW collation (some str) = some n →
      table'.string2idW collation (some str) = some n) : table.Extends collation table' := by
  refine ⟨fun str n found => ?_, fun id str found => ?_⟩
  · cases str with
    | none => cases found
    | some str => exact chains str n found
  · by_cases zero : id = 0
    · subst zero
      exact found
    rw [stringLookupId_eq (Nat.pos_of_ne_zero zero)] at found ⊢
    split at found
    · cases found
    next inUse =>
      obtain ⟨stays, same⟩ := kept id inUse
      rw [if_neg stays, same, found]

theorem Extends.refl (collation : Collation) (table : StringTable) :
    table.Extends collation table :=
  ⟨fun _ _ => id, fun _ _ => id⟩

theorem Extends.trans {middle last : StringTable} (first : table.Extends collation middle)
    (second : middle.Extends collation last) : table.Extends collation last :=
  ⟨fun str n found => second.string2idW str n (first.string2idW str n found),
    fun id str found => second.lookup id str (first.lookup id str found)⟩

/-- What a string is in the table after it was added. -/
structure Added (collation : Collation) (table : StringTable) (str : WString) (table' : StringTable)
    (id : Nat) : Prop where
  wellFormed : table'.WellFormed
  extended : table.Extends collation table'
  positive : 0 < id
  found : table'.string2idW collation (some str) = some id
  known : table.string2idW collation (some str) = some id ∨
    (table.string2idW collation (some str) = none ∧ table.stringLookupId id = none ∧
    table'.stringLookupId id = some str)
  others : ∀ other ≠ id, table'.stringLookupId other = table.stringLookupId other

include found wellFormed in
theorem WellFormed.added_known (persistence : Persistence) :
    table.Added collation str (table.addReference n persistence) n := by
  have same (m : Nat) := (table.entry_addReference n persistence m).1
  have inUse (m : Nat) := (table.entry_addReference n persistence m).2
  have chains (str : WString) : (table.addReference n persistence).string2idW collation (some str) =
      table.string2idW collation (some str) := by
    simp only [string2idW, same]
    rfl
  refine ⟨⟨?_, fun bucket m mem => ?_⟩, ?_, (wellFormed.canonical found).1, ?_, .inl found,
    fun m other => stringLookupId_congr ?_⟩
  · rw [addReference, length_modify]
    exact wellFormed.notEmpty
  · obtain ⟨positive, _, used, _, _⟩ := wellFormed.chained bucket m mem
    rw [same]
    exact ⟨positive, by rwa [addReference, length_modify], used ∘ inUse m, ‹_›, ‹_›⟩
  · exact extends_of_entries (fun m used => ⟨used ∘ inUse m, same m⟩)
      fun str m isFound => (chains str).trans isFound
  · rw [chains, found]
  · simp [entry, addReference, other.symm]

include wellFormed in
theorem WellFormed.added_new (notEmpty : str ≠ [])
    (unknown : table.string2idW collation (some str) = none)
    (isFound : table.findFreeEntry = (table', n)) (persistence : Persistence) :
    table.Added collation str (table'.setEntry n str persistence) n := by
  obtain ⟨positive, inside, _, isFree, entries, chains⟩ := wellFormed.findFreeEntry isFound
  have entry (m : Nat) := entry_setEntry inside str persistence m
  rw [entries] at entry
  have newEntry : ¬((table'.setEntry n str persistence).entry n).IsFree ∧
      ((table'.setEntry n str persistence).entry n).str = str := by
    rw [entry, if_pos rfl]
    cases persistence with
    | persistent => exact ⟨fun isFree => absurd isFree.1 Nat.one_ne_zero, rfl⟩
    | nonpersistent => exact ⟨fun isFree => absurd isFree.2 Nat.one_ne_zero, rfl⟩
  have oldEntry {m : Nat} (used : ¬(table.entry m).IsFree) :
      (table'.setEntry n str persistence).entry m = table.entry m := by
    rw [entry, if_neg]
    rintro rfl
    exact used isFree
  have length : (table'.setEntry n str persistence).strings.length = table'.strings.length :=
    length_set
  have chain (bucket : Nat) : (table'.setEntry n str persistence).chain bucket =
      if bucket = makehash str then n :: table.chain bucket else table.chain bucket := by
    rw [← chains]
    by_cases isBucket : bucket = makehash str
    · subst isBucket
      rw [if_pos rfl]
      exact Function.update_self ..
    · rw [if_neg isBucket]
      exact Function.update_of_ne isBucket ..
  refine ⟨⟨?_, fun bucket m mem => ?_⟩, ?_, positive, ?_, .inr ⟨unknown, ?_, ?_⟩,
    fun m other => stringLookupId_congr ((entry m).trans (if_neg other.symm))⟩
  · omega
  · rw [length]
    have old (inChain : m ∈ table.chain bucket) : 0 < m ∧ m < table'.strings.length ∧
        ¬((table'.setEntry n str persistence).entry m).IsFree ∧
        ((table'.setEntry n str persistence).entry m).str ≠ [] ∧
        makehash ((table'.setEntry n str persistence).entry m).str = bucket := by
      obtain ⟨least, _, used, others⟩ := wellFormed.chained bucket m inChain
      rw [oldEntry used]
      exact ⟨least, by omega, used, others⟩
    rw [chain] at mem
    split at mem
    next isBucket =>
      obtain rfl | inChain := mem_cons.mp mem
      · rw [newEntry.2]
        exact ⟨positive, inside, newEntry.1, notEmpty, isBucket.symm⟩
      · exact old inChain
    · exact old mem
  · refine extends_of_entries (fun m used => ?_) fun other m known => ?_
    · rw [oldEntry used]
      exact ⟨used, rfl⟩
    · have members : ∀ k ∈ table.chain (makehash other),
          collation.equal other ((table'.setEntry n str persistence).entry k).str =
            collation.equal other (table.entry k).str := by
        intro k inChain
        rw [oldEntry (wellFormed.chained _ k inChain).2.2.1]
      have rest : (table.chain (makehash other)).find?
          (fun k => collation.equal other
            ((table'.setEntry n str persistence).entry k).str) = some m := by
        rw [← known, string2idW]
        exact find?_congr members
      rw [string2idW, chain]
      split
      next sameBucket =>
        rw [find?_cons_of_neg, rest]
        -- the new string would have been known by the other's entry
        intro taken
        rw [newEntry.2] at taken
        obtain ⟨inChain, equal⟩ := mem_of_string2idW known
        rw [sameBucket] at inChain
        exact find?_eq_none.mp unknown m inChain (collation.trans (collation.symm taken) equal)
      · exact rest
  · rw [string2idW, chain, if_pos rfl, find?_cons_of_pos]
    rw [newEntry.2]
    exact collation.refl str
  · rw [stringLookupId_eq positive, if_pos isFree]
  · rw [stringLookupId_eq positive, if_neg newEntry.1, newEntry.2]

include wellFormed in
/-- A string that is added can be found, and everything else stays. -/
theorem WellFormed.addstringW (notEmpty : str ≠ []) (persistence : Persistence) :
    table.Added collation str (table.addstringW collation (some str) persistence).1
      (table.addstringW collation (some str) persistence).2 := by
  cases str with
  | nil => exact absurd rfl notEmpty
  | cons =>
    rw [StringTable.addstringW]
    split
    next found => exact wellFormed.added_known found persistence
    next unknown => exact wellFormed.added_new notEmpty unknown rfl persistence
    · intro isNil
      cases isNil

theorem Added.distinct {id : Nat} (added : table.Added collation str table' id)
    (distinct : table.Distinct collation) : table'.Distinct collation := by
  intro m other lookup notEmpty
  by_cases isNew : m = id
  · subst isNew
    obtain ⟨-, -, lookup', known⟩ := added.wellFormed.canonical added.found
    cases lookup'.symm.trans lookup
    exact known
  · rw [added.others m isNew] at lookup
    exact added.extended.string2idW _ _ (distinct m other lookup notEmpty)

/-- A string that an extension finds under an id that was in use was found before. -/
theorem Extends.string2idW_of_found (extended : table.Extends collation table')
    (wellFormed : table'.WellFormed) {other : WString}
    (lookup : table.stringLookupId n = some other)
    (known : table.string2idW collation (some other) = some n)
    (found : table'.string2idW collation (some str) = some n) :
    table.string2idW collation (some str) = some n := by
  obtain ⟨mem, equal⟩ := mem_of_string2idW found
  obtain ⟨-, -, lookup', -⟩ := wellFormed.canonical found
  obtain rfl : (table'.entry n).str = other :=
    Option.some.inj (lookup'.symm.trans (extended.lookup n other lookup))
  obtain ⟨mem', equal'⟩ := mem_of_string2idW known
  rw [(wellFormed.chained _ n mem).2.2.2.2] at mem'
  cases isFound : table.string2idW collation (some str) with
  | none => exact absurd (collation.trans equal equal') (find?_eq_none.mp isFound n mem')
  | some m => exact (extended.string2idW _ m isFound).symm.trans found

/-- The table after some strings were added. -/
def addAll (collation : Collation) (table : StringTable) (added : List (WString × Persistence)) :
    StringTable :=
  added.foldl (fun table data => (table.addstringW collation (some data.1) data.2).1) table

include wellFormed in
/-- Whatever is added, ids stay what they were, and each string has one whose text compares
equal to it.  The counts are taken as unbounded. -/
theorem addAll_known {added : List (WString × Persistence)}
    (notEmpty : ∀ data ∈ added, data.1 ≠ []) :
    table.Extends collation (addAll collation table added) ∧
      ∀ data ∈ added, ∃ id str, (addAll collation table added).stringLookupId id = some str ∧
        (addAll collation table added).string2idW collation (some data.1) = some id ∧
        collation.equal data.1 str = true := by
  induction added generalizing table with
  | nil => exact ⟨.refl _ _, nofun⟩
  | cons data rest ih =>
    obtain ⟨first, others⟩ := forall_mem_cons.mp notEmpty
    have step : table.Added collation data.1 _ _ := wellFormed.addstringW first data.2
    obtain ⟨extended, known⟩ := ih step.wellFormed others
    refine ⟨step.extended.trans extended, forall_mem_cons.mpr ⟨?_, known⟩⟩
    obtain ⟨-, -, lookup, -⟩ := step.wellFormed.canonical step.found
    exact ⟨_, _, extended.lookup _ _ lookup, extended.string2idW _ _ step.found,
      (mem_of_string2idW step.found).2⟩

end StringTable

end Winex.Msi
