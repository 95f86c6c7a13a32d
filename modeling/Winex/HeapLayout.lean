import Winex.HeapModel
import Winex.LinkedRing

namespace Winex.OldHeap

open Circular

/-!
# How the arenas of a heap lie in memory

A layout is a partial map from addresses to arenas, and `Sound` relates it to the heap:
the arenas tile every sub-heap, the words in memory are their tags, the free list runs
through the free arenas of every size class, and the headers and the blocks in use are
committed.

Between the pointer assignments of one call some ranges belong to no arena.  Such a
range is a gap; a heap is well formed if it has none.
-/

/-- What an arena is; a gap is a range that is being rebuilt. -/
inductive Kind where
  | used
  | free
  | gap
deriving DecidableEq

/-- An arena with the number of bytes from its header to the next one. -/
structure Arena where
  kind : Kind
  extent : Nat
deriving DecidableEq

/-- The arenas of a heap by address. -/
abbrev Arenas := Nat → Option Arena

/-- The arenas tile every sub-heap, and the sub-heaps are disjoint ranges of the
address space. -/
structure Placed (main : SubHeap) (others : List SubHeap) (arenas : Arenas) : Prop where
  bounded :
    ∀ sub ∈ main :: others, 0x10000 ≤ sub.base ∧ sub.start < sub.stop ∧ sub.stop ≤ 0xffff0000
  mainHeader : main.headerSize = 140
  otherHeader : ∀ sub ∈ others, sub.headerSize = 24
  disjoint :
    (main :: others).Pairwise fun sub other => sub.stop ≤ other.base ∨ other.stop ≤ sub.base
  first : ∀ sub ∈ main :: others, ∃ arena, arenas sub.start = some arena
  inside : ∀ ptr arena, arenas ptr = some arena →
    ∃ sub ∈ main :: others, sub.start ≤ ptr ∧ ptr + arena.extent ≤ sub.stop ∧
    (ptr + arena.extent < sub.stop → ∃ next, arenas (ptr + arena.extent) = some next)
  apart : ∀ ptr arena other arena', arenas ptr = some arena → arenas other = some arena' →
    ptr < other → ptr + arena.extent ≤ other
  extents : ∀ ptr arena, arenas ptr = some arena → 24 ≤ arena.extent ∧ arena.extent % 4 = 0

/-- The words in memory are the tags of the arenas. -/
structure Tagged (subheaps : List SubHeap) (memory : Memory) (arenas : Arenas) : Prop where
  used : ∀ ptr extent, arenas ptr = some ⟨.used, extent⟩ →
    sizeOf (memory ptr) = extent - 8 ∧ isFree (memory ptr) = false ∧ memory (ptr + 4) = inUseMagic
  free : ∀ ptr extent, arenas ptr = some ⟨.free, extent⟩ →
    memory ptr = extent - 16 + 1 ∧ memory (ptr + 4) = freeMagic
  back : ∀ ptr extent next, arenas ptr = some ⟨.free, extent⟩ →
    arenas (ptr + extent) = some next → memory (ptr + extent - 4) = ptr
  flag : ∀ ptr arena extent, arenas ptr = some arena → arena.kind ≠ .gap →
    arenas (ptr + arena.extent) = some ⟨.used, extent⟩ →
    isPrevFree (memory (ptr + arena.extent)) = decide (arena.kind = .free)
  start : ∀ sub ∈ subheaps, ∀ extent, arenas sub.start = some ⟨.used, extent⟩ →
    isPrevFree (memory sub.start) = false
  separate : ∀ ptr extent other, arenas ptr = some ⟨.free, extent⟩ →
    arenas (ptr + extent) ≠ some ⟨.free, other⟩

/-- The header of every free arena and every arena in use as a whole lie in the
committed part of their sub-heap. -/
structure Committed (subheaps : List SubHeap) (commitSize : Nat → Nat) (arenas : Arenas) :
    Prop where
  bounded : ∀ sub ∈ subheaps, commitSize sub.base ≤ sub.size
  free : ∀ sub ∈ subheaps, ∀ ptr extent, sub.base ≤ ptr → ptr < sub.stop →
    arenas ptr = some ⟨.free, extent⟩ → ptr + 16 ≤ sub.base + commitSize sub.base
  used : ∀ sub ∈ subheaps, ∀ ptr extent, sub.base ≤ ptr → ptr < sub.stop →
    arenas ptr = some ⟨.used, extent⟩ → ptr + extent ≤ sub.base + commitSize sub.base

/-- The address of a list head of the heap at `base`. -/
def headAt (base i : Nat) : Nat :=
  base + 56 + 20 * i

/-- The pointers of the free list. -/
def links (memory : Memory) : Links Nat where
  next := fun node => memory (node + 8)
  prev := fun node => memory (node + 12)

/-- The nodes of the free list behind the first head, up to the head of class
`i`. -/
def nodesUpTo (base : Nat) (classes : Nat → List Nat) : Nat → List Nat
  | 0 => []
  | i + 1 => nodesUpTo base classes i ++ classes i ++ [headAt base (i + 1)]

/-- The nodes of `count` more classes behind class `i`, each after its head. -/
def nodesAfter (base : Nat) (classes : Nat → List Nat) : Nat → Nat → List Nat
  | _, 0 => []
  | i, count + 1 =>
    headAt base (i + 1) :: (classes (i + 1) ++ nodesAfter base classes (i + 1) count)

/-- All nodes of the free list behind the first head. -/
def nodes (base : Nat) (classes : Nat → List Nat) : List Nat :=
  classes 0 ++ nodesAfter base classes 0 3

/-- The free list is circular and has the free arenas of class `i` between the
heads of the classes `i` and `i + 1`. -/
structure Listed (base : Nat) (memory : Memory) (arenas : Arenas) (classes : Nat → List Nat) :
    Prop where
  closed : Closed (links memory) (headAt base 0) (nodes base classes)
  distinct : (headAt base 0 :: nodes base classes).Nodup
  member : ∀ ptr extent, arenas ptr = some ⟨.free, extent⟩ → ptr ∈ classes (entryOf (extent - 16))
  arena : ∀ i < 4, ∀ ptr ∈ classes i,
    ∃ extent, arenas ptr = some ⟨.free, extent⟩ ∧ entryOf (extent - 16) = i
  heads : ∀ i < 4, memory (headAt base i) = 1 ∧ memory (headAt base i + 4) = freeMagic

/-- The layout and the free list describe the heap. -/
structure Sound (heap : Heap) (arenas : Arenas) (classes : Nat → List Nat) : Prop where
  placed : Placed heap.main heap.others arenas
  tagged : Tagged heap.subheaps heap.memory arenas
  committed : Committed heap.subheaps heap.commitSize arenas
  listed : Listed heap.main.base heap.memory arenas classes

/-- A heap with a layout that has no gaps. -/
structure WellFormed (heap : Heap) (arenas : Arenas) : Prop where
  sound : ∃ classes, Sound heap arenas classes
  whole : ∀ ptr extent, arenas ptr ≠ some ⟨.gap, extent⟩

abbrev SubHeap.Contains (sub : SubHeap) (ptr : Nat) : Prop :=
  sub.base ≤ ptr ∧ ptr < sub.stop

/-- A block in use. -/
abbrev Used (arenas : Arenas) (ptr extent : Nat) : Prop :=
  arenas ptr = some ⟨.used, extent⟩

abbrev Free (arenas : Arenas) (ptr extent : Nat) : Prop :=
  arenas ptr = some ⟨.free, extent⟩

abbrev Gap (arenas : Arenas) (ptr extent : Nat) : Prop :=
  arenas ptr = some ⟨.gap, extent⟩

/-! ## Words and their flags -/

variable {size : Nat}

theorem entryOf_lt (small : size < 0x100000000) : entryOf size < 4 := by
  have found : entryOf size < freeListSizes.length := by
    refine List.findIdx_lt_length_of_exists ⟨0xffffffff, by simp [freeListSizes], ?_⟩
    simp only [Bool.not_eq_true', decide_eq_false_iff_not]
    omega
  simpa [freeListSizes] using found

variable {first second : Nat}

theorem add32_eq (small : first + second < 0x100000000) : add32 first second = first + second :=
  Nat.mod_eq_of_lt small

theorem sub32_eq (ordered : second ≤ first) (small : first < 0x100000000) :
    sub32 first second = first - second := by
  unfold sub32
  omega

variable (word : Nat)

@[simp] theorem isFree_setPrevFree : isFree (setPrevFree word) = isFree word := by
  unfold isFree setPrevFree
  congr 1
  omega

@[simp] theorem sizeOf_setPrevFree : sizeOf (setPrevFree word) = sizeOf word := by
  unfold sizeOf setPrevFree
  omega

@[simp] theorem isPrevFree_setPrevFree : isPrevFree (setPrevFree word) = true := by
  unfold isPrevFree setPrevFree
  simp
  omega

@[simp] theorem isFree_clearPrevFree : isFree (clearPrevFree word) = isFree word := by
  unfold isFree clearPrevFree
  congr 1
  omega

@[simp] theorem sizeOf_clearPrevFree : sizeOf (clearPrevFree word) = sizeOf word := by
  unfold sizeOf clearPrevFree
  omega

@[simp] theorem isPrevFree_clearPrevFree :
    isPrevFree (clearPrevFree word) = false := by
  unfold isPrevFree clearPrevFree
  simp
  omega

variable {word}

theorem isFree_eq_false_iff : isFree word = false ↔ word % 2 = 0 := by
  unfold isFree
  simp

variable (multiple : size % 4 = 0)
include multiple

theorem sizeOf_word : sizeOf (size + 1) = size := by
  unfold sizeOf
  omega

theorem isFree_word : isFree (size + 1) = true := by
  unfold isFree
  simp
  omega

theorem or_flagsOf (word : Nat) :
    sizeOf (size ||| flagsOf word) = size ∧
      isFree (size ||| flagsOf word) = isFree word ∧
      isPrevFree (size ||| flagsOf word) = isPrevFree word := by
  have sum : size ||| flagsOf word = size + word % 4 := by
    have := Nat.two_pow_add_eq_or_of_lt (i := 2) (b := word % 4) (by omega) (size / 4)
    unfold flagsOf
    rw [show size = 2 ^ 2 * (size / 4) by omega, this]
  refine ⟨?_, ?_, ?_⟩
  · unfold sizeOf
    omega
  · unfold isFree
    congr 1
    omega
  · unfold isPrevFree
    congr 1
    omega

theorem clearPrevFree_word : clearPrevFree (size + 1) = size + 1 := by
  unfold clearPrevFree
  omega

variable (memory : Memory)

omit multiple

@[simp] theorem Memory.write_same (address value : Nat) :
    memory.write address value address = value := by
  simp [Memory.write]

theorem Memory.write_other {memory : Memory} {address value : Nat} (differs : word ≠ address) :
    memory.write address value word = memory word := by
  simp [Memory.write, differs]

theorem Memory.write_apply (address value word : Nat) :
    memory.write address value word = if word = address then value else memory word := by
  simp [Memory.write, Function.update_apply]

namespace Heap

variable (heap : Heap)

@[simp] theorem setMemory_main : (heap.setMemory memory).main = heap.main :=
  rfl

@[simp] theorem setMemory_others : (heap.setMemory memory).others = heap.others :=
  rfl

@[simp] theorem setMemory_subheaps : (heap.setMemory memory).subheaps = heap.subheaps :=
  rfl

@[simp] theorem setMemory_commitSize : (heap.setMemory memory).commitSize = heap.commitSize :=
  rfl

@[simp] theorem setMemory_flags : (heap.setMemory memory).flags = heap.flags :=
  rfl

@[simp] theorem setMemory_memory : (heap.setMemory memory).memory = memory :=
  rfl

@[simp] theorem setMemory_setMemory (memory memory' : Memory) :
    (heap.setMemory memory).setMemory memory' = heap.setMemory memory' :=
  rfl

end Heap

/-! ## Geometry -/

namespace Placed

variable {main : SubHeap} {others : List SubHeap} {arenas : Arenas}
variable {ptr : Nat} {kind : Kind} {extent : Nat}
variable (placed : Placed main others arenas)
include placed

variable {sub : SubHeap}

variable (subIn : sub ∈ main :: others)
include subIn

theorem sub_unique {other : SubHeap} (otherIn : other ∈ main :: others) (inSub : sub.Contains ptr)
    (inOther : other.Contains ptr) : sub = other := by
  by_contra differs
  have symmetric : Std.Symm fun sub other : SubHeap =>
      sub.stop ≤ other.base ∨ other.stop ≤ sub.base := ⟨fun _ _ => Or.symm⟩
  have ranges := placed.disjoint.forall subIn otherIn differs
  omega

theorem forall_sub {P : SubHeap → Prop} (inSub : sub.Contains ptr) (holds : P sub) :
    ∀ other ∈ main :: others, other.base ≤ ptr → ptr < other.stop → P other := by
  intro _ otherIn lower upper
  obtain rfl := placed.sub_unique otherIn subIn ⟨lower, upper⟩ inSub
  exact holds

theorem within (inSub : sub.Contains ptr) (here : arenas ptr = some ⟨kind, extent⟩) :
    sub.start ≤ ptr ∧ ptr + extent ≤ sub.stop ∧
      (ptr + extent < sub.stop → ∃ next, arenas (ptr + extent) = some next) := by
  obtain ⟨other, otherIn, bounds⟩ := placed.inside ptr _ here
  have positive := (placed.extents ptr _ here).1
  have inOther : other.Contains ptr := by
    have := bounds.1
    unfold SubHeap.start at this
    omega
  obtain rfl := placed.sub_unique subIn otherIn inSub inOther
  exact bounds

variable (here : arenas ptr = some ⟨kind, extent⟩)
include here

omit subIn

theorem exists_sub : ∃ sub ∈ main :: others, sub.Contains ptr := by
  obtain ⟨sub, subIn, above, below, -⟩ := placed.inside ptr _ here
  have positive := (placed.extents ptr _ here).1
  unfold SubHeap.start at above
  exact ⟨sub, subIn, by omega, by omega⟩

theorem extent_apart {other size : Nat} {kind' : Kind} (there : arenas other = some ⟨kind', size⟩)
    (differs : ptr ≠ other) : ptr + extent ≤ other ∨ other + size ≤ ptr := by
  rcases Nat.lt_or_gt_of_ne differs with less | more
  · exact .inl (placed.apart ptr _ other _ here there less)
  · exact .inr (placed.apart other _ ptr _ there here more)

/-- The size and the place of an arena. -/
theorem measure : 24 ≤ extent ∧ extent % 4 = 0 ∧ 0x10000 ≤ ptr ∧ ptr + extent ≤ 0xffff0000 := by
  obtain ⟨sub, subIn, above, below, -⟩ := placed.inside ptr _ here
  have bounds := placed.bounded sub subIn
  have wide := placed.extents ptr _ here
  dsimp only at below wide
  unfold SubHeap.start at above
  omega

omit here in
theorem head_apart {i : Nat} (small : i < 4) (here : arenas ptr = some ⟨kind, extent⟩) :
    headAt main.base i + 16 ≤ ptr ∨ ptr + extent ≤ headAt main.base i := by
  obtain ⟨sub, subIn, above, below, -⟩ := placed.inside ptr _ here
  dsimp only at below
  have header := placed.mainHeader
  have bounds := placed.bounded main (by simp)
  by_cases same : sub = main
  · subst same
    unfold SubHeap.start at above
    unfold headAt
    omega
  have symmetric : Std.Symm fun sub other : SubHeap =>
      sub.stop ≤ other.base ∨ other.stop ≤ sub.base := ⟨fun _ _ => Or.symm⟩
  have ranges := placed.disjoint.forall subIn (by simp) same
  unfold SubHeap.start at above bounds
  unfold headAt
  omega

end Placed

end Winex.OldHeap
