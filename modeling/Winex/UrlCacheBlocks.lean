import Mathlib.Data.List.Basic
import Mathlib.Logic.Function.Basic

namespace Winex.UrlCache

open List

/-!
# The blocks of the URL cache

The index file of the cache, from `dlls/wininet/urlcache.c`, is divided into blocks.  A
table has one bit for each of them, and an entry takes a run of blocks and holds their
number.
-/

/-- `MAX_BLOCK_NO` -/
def maxBlockNo : Nat :=
  (0x4000 - 0x250) * 8

/-- The fields of `urlcache_header` that tell which blocks are used, and the words of the
blocks, 32 for each one. -/
structure Header where
  capacityInBlocks : Nat
  capacity_le : capacityInBlocks ≤ maxBlockNo
  blocksInUse : Nat
  allocationTable : Nat → BitVec 8
  words : Nat → Nat

def blockIsFree (table : Nat → BitVec 8) (block : Nat) : Bool :=
  table (block / 8) &&& 1#8 <<< (block % 8) = 0

def blockFree (table : Nat → BitVec 8) (block : Nat) : Nat → BitVec 8 :=
  Function.update table (block / 8) (table (block / 8) &&& ~~~(1#8 <<< (block % 8)))

def blockAlloc (table : Nat → BitVec 8) (block : Nat) : Nat → BitVec 8 :=
  Function.update table (block / 8) (table (block / 8) ||| 1#8 <<< (block % 8))

/-- The loop that measures the free blocks from a block on, up to the number needed. -/
def blockSize (header : Header) (blocksNeeded block size : Nat) : Nat :=
  if size < blocksNeeded ∧ size + block < header.capacityInBlocks ∧
      blockIsFree header.allocationTable (block + size) then
    blockSize header blocksNeeded block (size + 1)
  else size
termination_by blocksNeeded - size

/-- The outer loop of `urlcache_entry_alloc`: the first block of the run it takes. -/
def findBlock (header : Header) (blocksNeeded block : Nat) : Option Nat :=
  if block < header.capacityInBlocks then
    let size := blockSize header blocksNeeded block 0
    if size = blocksNeeded then some block
    else findBlock header blocksNeeded (block + (size + 1))
  else none
termination_by header.capacityInBlocks - block

/-- A change of so many blocks from a block on. -/
def overBlocks (change : (Nat → BitVec 8) → Nat → Nat → BitVec 8) (block : Nat) :
    Nat → (Nat → BitVec 8) → Nat → BitVec 8
  | 0, table => table
  | count + 1, table => change (overBlocks change block count table) (block + count)

/-- `urlcache_entry_alloc`: the header and the block at which the entry starts. -/
def entryAlloc (header : Header) (blocksNeeded : Nat) : Option (Header × Nat) :=
  match findBlock header blocksNeeded 0 with
  | none => none
  | some block =>
    let filled word := if 32 * block ≤ word ∧ word < 32 * block + blocksNeeded * 128 / 4 then
      0xdeadbeef else header.words word
    some ({ header with
      allocationTable := overBlocks blockAlloc block blocksNeeded header.allocationTable
      words := Function.update filled (32 * block + 1) blocksNeeded
      blocksInUse := header.blocksInUse + blocksNeeded }, block)

/-- `urlcache_entry_free`, for the entry that starts at a block. -/
def entryFree (header : Header) (startBlock : Nat) : Header :=
  let blocksUsed := header.words (32 * startBlock + 1)
  { header with
    allocationTable := overBlocks blockFree startBlock blocksUsed header.allocationTable
    blocksInUse := header.blocksInUse - blocksUsed }

/-! ## The entries -/

/-- A live entry and its blocks. -/
structure Entry where
  block : Nat
  size : Nat
deriving DecidableEq

def Entry.Has (entry : Entry) (block : Nat) : Prop :=
  entry.block ≤ block ∧ block < entry.block + entry.size

/-- The number of blocks of some entries. -/
def blocksOf : List Entry → Nat
  | [] => 0
  | entry :: entries => entry.size + blocksOf entries

/-- What the header says about the live entries. -/
structure Sound (header : Header) (live : List Entry) : Prop where
  disjoint : live.Pairwise fun first second => ∀ block, first.Has block → ¬second.Has block
  inside : ∀ entry ∈ live, 0 < entry.size ∧ entry.block + entry.size ≤ header.capacityInBlocks
  bits : ∀ block, blockIsFree header.allocationTable block = false ↔ ∃ entry ∈ live, entry.Has block
  inUse : header.blocksInUse = blocksOf live
  sizes : ∀ entry ∈ live, header.words (32 * entry.block + 1) = entry.size

/-- Calls of `urlcache_entry_alloc`, for at least one block, and of `urlcache_entry_free`,
for live entries, and changes of what a live entry has behind its header. -/
inductive Reaches (start : Header) (first : List Entry) : Header → List Entry → Prop where
  | start : Reaches start first start first
  | alloc {header header' : Header} {live : List Entry} {blocksNeeded block : Nat} :
      Reaches start first header live → 0 < blocksNeeded →
      entryAlloc header blocksNeeded = some (header', block) →
      Reaches start first header' (⟨block, blocksNeeded⟩ :: live)
  | free {header : Header} {live : List Entry} {entry : Entry} :
      Reaches start first header live → entry ∈ live →
      Reaches start first (entryFree header entry.block) (live.erase entry)
  | write {header : Header} {live : List Entry} {entry : Entry} {words : Nat → Nat} :
      Reaches start first header live → entry ∈ live →
      (∀ word, words word = header.words word ∨
        32 * entry.block + 1 < word ∧ word < 32 * (entry.block + entry.size)) →
      Reaches start first { header with words } live

variable {table : Nat → BitVec 8}

theorem blockIsFree_eq (block : Nat) :
    blockIsFree table block = !(table (block / 8)).getLsbD (block % 8) := by
  have less := Nat.mod_lt block (by decide : 8 > 0)
  have bit : (BitVec.twoPow 8 (block % 8)).getLsbD (block % 8) = true := by simp [less]
  rw [blockIsFree, ← BitVec.twoPow_eq, BitVec.and_twoPow]
  split
  next set =>
    rw [set, Bool.not_true, decide_eq_false_iff_not]
    intro zero
    simp [zero] at bit
  next clear => simp [clear]

/-- A change makes one block free, or takes it. -/
def Sets (change : (Nat → BitVec 8) → Nat → Nat → BitVec 8) (free : Bool) : Prop :=
  ∀ table block other, blockIsFree (change table block) other =
    if other = block then free else blockIsFree table other

theorem sets_blockAlloc : Sets blockAlloc false := by
  intro table block other
  simp only [blockIsFree_eq, blockAlloc, ← BitVec.twoPow_eq]
  by_cases byte : other / 8 = block / 8
  · have bit : other % 8 = block % 8 ↔ other = block := by omega
    grind
  · rw [Function.update_of_ne byte, if_neg (by omega)]

theorem sets_blockFree : Sets blockFree true := by
  intro table block other
  simp only [blockIsFree_eq, blockFree, ← BitVec.twoPow_eq]
  by_cases byte : other / 8 = block / 8
  · have bit : other % 8 = block % 8 ↔ other = block := by omega
    grind
  · rw [Function.update_of_ne byte, if_neg (by omega)]

theorem Sets.overBlocks {change : (Nat → BitVec 8) → Nat → Nat → BitVec 8} {free : Bool}
    (sets : Sets change free) (block count other : Nat) :
    blockIsFree (overBlocks change block count table) other =
      if block ≤ other ∧ other < block + count then free else blockIsFree table other := by
  induction count with
  | zero => rw [UrlCache.overBlocks, if_neg (by omega)]
  | succ _ ih =>
    rw [UrlCache.overBlocks, sets]
    grind

variable {header : Header} {block blocksNeeded size : Nat}

def Header.Free (header : Header) (block : Nat) : Prop :=
  block < header.capacityInBlocks ∧ blockIsFree header.allocationTable block = true

theorem blockSize_spec (header : Header) (blocksNeeded block : Nat) (atMost : size ≤ blocksNeeded)
    (free : ∀ offset < size, header.Free (block + offset)) :
    let found := blockSize header blocksNeeded block size
    found ≤ blocksNeeded ∧ (∀ offset < found, header.Free (block + offset)) ∧
      (found < blocksNeeded → ¬header.Free (block + found)) := by
  fun_induction blockSize header blocksNeeded block size with
  | case1 size more ih =>
    refine ih more.1 fun offset less => ?_
    rcases Nat.lt_succ_iff_lt_or_eq.1 less with less | rfl
    · exact free offset less
    · exact ⟨by omega, more.2.2⟩
  | case2 size done =>
    exact ⟨atMost, free, fun less more => done ⟨less, Nat.add_comm .. ▸ more.1, more.2⟩⟩

/-- The blocks from a block on are free, as many as are needed. -/
def Header.Room (header : Header) (blocksNeeded block : Nat) : Prop :=
  ∀ offset < blocksNeeded, header.Free (block + offset)

/-- The search finds a run of free blocks, and fails only if there is none: the block that
ends a run too early lies in every run from the blocks skipped. -/
theorem findBlock_spec (header : Header) (block : Nat) (positive : 0 < blocksNeeded) :
    match findBlock header blocksNeeded block with
    | some found => header.Room blocksNeeded found
    | none => ∀ first, block ≤ first → ¬header.Room blocksNeeded first := by
  fun_induction findBlock header blocksNeeded block with
  | case1 block inside size found =>
    exact found ▸ (blockSize_spec header blocksNeeded block (Nat.zero_le _) nofun).2.1
  | case2 block inside size more ih =>
    obtain ⟨_, -, ends⟩ := blockSize_spec header blocksNeeded block (Nat.zero_le _) nofun
    revert ih
    split
    · exact id
    intro ih first later room
    by_cases far : block + size < first
    · exact ih first (by omega) room
    · have free := room (block + size - first) (by omega)
      rw [Nat.add_sub_cancel' (by omega)] at free
      exact ends (by omega) free
  | case3 block outside =>
    intro first later room
    have := (room 0 positive).1
    omega

variable {header' : Header} {entry : Entry} {live : List Entry}

theorem Sound.alloc (sound : Sound header live) (positive : 0 < blocksNeeded)
    (allocated : entryAlloc header blocksNeeded = some (header', block)) :
    Sound header' (⟨block, blocksNeeded⟩ :: live) := by
  have room := findBlock_spec header 0 positive
  unfold entryAlloc at allocated
  split at allocated
  · cases allocated
  rename_i found
  rw [found] at room
  cases allocated
  have unused : ∀ other ∈ live, ∀ used, Entry.Has ⟨block, blocksNeeded⟩ used →
      ¬other.Has used := by
    intro other isLive used here there
    have free := (room (used - block) (by have := here.2; simp at this; omega)).2
    rw [Nat.add_sub_cancel' here.1, ← Bool.not_eq_false, sound.bits] at free
    exact free ⟨other, isLive, there⟩
  refine ⟨pairwise_cons.2 ⟨unused, sound.disjoint⟩, ?_, ?_, ?_, ?_⟩
  · rw [forall_mem_cons]
    have := (room (blocksNeeded - 1) (by omega)).1
    exact ⟨⟨positive, by simp; omega⟩, sound.inside⟩
  · intro used
    rw [sets_blockAlloc.overBlocks, exists_mem_cons_iff, ← sound.bits]
    split
    next here => exact iff_of_true rfl (.inl here)
    next off => exact (or_iff_right off).symm
  · rw [blocksOf, ← sound.inUse]
    exact Nat.add_comm ..
  · rw [forall_mem_cons]
    refine ⟨by simp, fun other isLive => ?_⟩
    have positive := sound.inside other isLive
    have apart := mt (unused other isLive other.block) (not_not.2 ⟨Nat.le_refl _, by omega⟩)
    simp [Entry.Has] at apart
    simp only
    rw [Function.update_of_ne (by omega), if_neg (by omega), sound.sizes other isLive]

theorem blocksOf_erase (isLive : entry ∈ live) :
    blocksOf live = entry.size + blocksOf (live.erase entry) := by
  induction live with
  | nil => cases isLive
  | cons first rest ih =>
    by_cases same : first = entry
    · rw [same, erase_cons_head, blocksOf]
    · rw [erase_cons_tail (by simpa using same), blocksOf, blocksOf,
        ih ((mem_cons.1 isLive).resolve_left (Ne.symm same))]
      omega

theorem Sound.apart (sound : Sound header live) (isLive : entry ∈ live) :
    ∀ other ∈ live.erase entry, ∀ block, entry.Has block → ¬other.Has block :=
  (pairwise_cons.1 (((perm_cons_erase isLive).pairwise_iff
    fun apart block here there => apart block there here).1 sound.disjoint)).1

theorem Sound.free (sound : Sound header live) (isLive : entry ∈ live) :
    Sound (entryFree header entry.block) (live.erase entry) := by
  unfold entryFree
  simp only [sound.sizes entry isLive]
  refine ⟨sound.disjoint.sublist erase_sublist, ?_, ?_, ?_, ?_⟩
  · exact fun other inRest => sound.inside other (mem_of_mem_erase inRest)
  · intro used
    rw [sets_blockFree.overBlocks]
    split
    next here =>
      exact iff_of_false (by simp) fun ⟨other, inRest, has⟩ =>
        sound.apart isLive other inRest used here has
    next off =>
      simp only [sound.bits, (perm_cons_erase isLive).mem_iff, exists_mem_cons_iff]
      exact or_iff_right off
  · simp [sound.inUse, blocksOf_erase isLive]
  · exact fun other inRest => sound.sizes other (mem_of_mem_erase inRest)

theorem Sound.write (sound : Sound header live) (isLive : entry ∈ live) {words : Nat → Nat}
    (kept : ∀ word, words word = header.words word ∨
      32 * entry.block + 1 < word ∧ word < 32 * (entry.block + entry.size)) :
    Sound { header with words } live where
  __ := sound
  sizes := by
    intro other otherLive
    rw [← sound.sizes other otherLive]
    refine (kept _).resolve_right fun inEntry => ?_
    have off : other ≠ entry := by
      rintro rfl
      omega
    exact sound.apart isLive other ((mem_erase_of_ne off).2 otherLive) other.block
      ⟨by omega, by omega⟩ ⟨Nat.le_refl _, Nat.lt_add_of_pos_right (sound.inside other otherLive).1⟩

/-- Whatever is allocated, freed and written, the table and the counter describe the live entries,
and an allocation fails only if no run of free blocks is long enough. -/
theorem reaches_sound {start : Header} {first : List Entry} (sound : Sound start first)
    (reaches : Reaches start first header live) :
    Sound header live ∧ ∀ blocksNeeded, 0 < blocksNeeded → entryAlloc header blocksNeeded = none →
      ∀ block, ¬header.Room blocksNeeded block := by
  constructor
  · induction reaches with
    | start => exact sound
    | alloc _ positive allocated ih => exact ih.alloc positive allocated
    | free _ isLive ih => exact ih.free isLive
    | write _ isLive kept ih => exact ih.write isLive kept
  · intro blocksNeeded positive failed
    have full := findBlock_spec header 0 positive
    unfold entryAlloc at failed
    split at failed
    next found =>
      rw [found] at full
      exact fun block => full block (Nat.zero_le block)
    · cases failed

/-- An index without entries. -/
def blank (capacity : Nat) (capacity_le : capacity ≤ maxBlockNo) : Header where
  capacityInBlocks := capacity
  capacity_le := capacity_le
  blocksInUse := 0
  allocationTable := fun _ => 0
  words := fun _ => 0

theorem sound_blank (capacity : Nat) (le : capacity ≤ maxBlockNo) :
    Sound (blank capacity le) [] := by
  refine ⟨.nil, nofun, fun block => ?_, rfl, nofun⟩
  simp [blank, blockIsFree]

/-- Two entries are allocated and the first is freed. -/
theorem reaches_sound_three :
    ∃ header block header' block', entryAlloc (blank 4 (by decide)) 3 = some (header, block) ∧
      entryAlloc header 1 = some (header', block') ∧
      Sound (entryFree header' block) (List.erase [⟨block', 1⟩, ⟨block, 3⟩] ⟨block, 3⟩) := by
  have allocate : ((entryAlloc (blank 4 (by decide)) 3).bind (entryAlloc ·.1 1)).isSome := by
    decide +kernel
  obtain ⟨⟨header', block'⟩, both⟩ := Option.isSome_iff_exists.1 allocate
  obtain ⟨⟨header, block⟩, first, second⟩ := Option.bind_eq_some_iff.1 both
  refine ⟨header, block, header', block', first, second,
    (reaches_sound (sound_blank 4 (by decide)) ?_).1⟩
  exact .free (.alloc (.alloc .start (by decide) first) (by decide) second) (.tail _ (.head _))

end Winex.UrlCache
