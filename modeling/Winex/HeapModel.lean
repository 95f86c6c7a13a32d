import Mathlib.Logic.Function.Basic
import Mathlib.Data.List.Basic

namespace Winex.OldHeap

/-!
# The old process heap

The model of `dlls/ntdll/oldheap.c` on a 32-bit machine.  Every sub-heap is cut into
arenas with headers in memory, and the free arenas are kept in one circular list that
runs through four list heads, one for every size class.

The memory maps byte addresses to 32-bit words.  All words of a sub-heap have an address
of the same residue modulo four, so that two of them never overlap.  The fields of
`SUBHEAP` and `HEAP` that are set by `HEAP_InitSubHeap` and by the commit functions only
are records.
-/

/-- The words in memory. -/
abbrev Memory := Nat → Nat

variable (memory : Memory)

/-- Store one word. -/
def Memory.write (address value : Nat) : Memory :=
  Function.update memory address value

/-- `memset( address, 0, length )` -/
def Memory.clear (address length : Nat) : Memory :=
  fun word => if address ≤ word ∧ word < address + length then 0 else memory word

/-- `memcpy( target, source, length )` -/
def Memory.copy (target source length : Nat) : Memory :=
  fun word =>
    if target ≤ word ∧ word < target + length then memory (source + (word - target))
    else memory word

/-- The sum of two `DWORD` values or of a pointer and a `DWORD`. -/
def add32 (first second : Nat) : Nat :=
  (first + second) % 0x100000000

/-- The difference of two `DWORD` values. -/
def sub32 (first second : Nat) : Nat :=
  (first + 0x100000000 - second) % 0x100000000

/-- `(size + 0xffff) & 0xffff0000`, also written with `COMMIT_MASK` -/
def roundUp (size : Nat) : Nat :=
  add32 size 0xffff / 0x10000 * 0x10000

/-- `ARENA_INUSE_MAGIC` -/
def inUseMagic : Nat := 0x44455355

/-- `ARENA_FREE_MAGIC` -/
def freeMagic : Nat := 0x45455246

/-! ## The size field of an arena and its two flags -/

variable (word : Nat)

/-- `word & ARENA_SIZE_MASK` -/
def sizeOf : Nat :=
  word / 4 * 4

/-- `word & ~ARENA_SIZE_MASK` -/
def flagsOf : Nat :=
  word % 4

/-- `word & ARENA_FLAG_FREE` -/
def isFree : Bool :=
  word % 2 == 1

/-- `word & ARENA_FLAG_PREV_FREE` -/
def isPrevFree : Bool :=
  word / 2 % 2 == 1

/-- `word | ARENA_FLAG_FREE` -/
def setFree : Nat :=
  word / 2 * 2 + 1

/-- `word & ~ARENA_FLAG_FREE` -/
def clearFree : Nat :=
  word / 2 * 2

/-- `word | ARENA_FLAG_PREV_FREE` -/
def setPrevFree : Nat :=
  word / 4 * 4 + 2 + word % 2

/-- `word & ~ARENA_FLAG_PREV_FREE` -/
def clearPrevFree : Nat :=
  word / 4 * 4 + word % 2

/-! ## Heaps and what they ask of the system -/

/-- The heap flags the functions test, `HEAP_NO_SERIALIZE` apart. -/
structure Flags where
  growable : Bool := false
  generateExceptions : Bool := false
  zeroMemory : Bool := false
  reallocInPlaceOnly : Bool := false
  shared : Bool := false
deriving DecidableEq

/-- `SUBHEAP`, at the address `base`: the fields that never change. -/
structure SubHeap where
  base : Nat
  size : Nat
  headerSize : Nat
deriving DecidableEq

/-- The address behind the sub-heap. -/
def SubHeap.stop (sub : SubHeap) : Nat :=
  sub.base + sub.size

/-- The address of the first arena. -/
def SubHeap.start (sub : SubHeap) : Nat :=
  sub.base + sub.headerSize

/-- `HEAP`: the first sub-heap, the others in the order of their `next` pointers, the
`commitSize` of the sub-heap at every address, the flags, and the memory. -/
structure Heap where
  main : SubHeap
  others : List SubHeap
  commitSize : Nat → Nat
  flags : Flags
  memory : Memory

/-- The answers of the virtual memory functions during one call: the address of a
reservation, and whether pages are committed or decommitted. -/
structure System where
  reserve : Nat → Option Nat
  commit : Nat → Nat → Bool
  decommit : Nat → Nat → Bool

namespace Heap

/-- All sub-heaps in list order. -/
def subheaps (heap : Heap) : List SubHeap :=
  heap.main :: heap.others

/-- `&heap->freeList[i].arena` -/
def head (heap : Heap) (i : Nat) : Nat :=
  heap.main.base + 56 + 20 * i

/-- `subheap->commitSize = size` -/
def setCommitSize (heap : Heap) (sub : SubHeap) (size : Nat) : Heap :=
  { heap with commitSize := Function.update heap.commitSize sub.base size }

/-- The heap after stores to memory. -/
def setMemory (heap : Heap) (memory : Memory) : Heap :=
  { heap with memory := memory }

end Heap

/-- `HEAP_freeListSizes` -/
def freeListSizes : List Nat := [0x20, 0x80, 0x200, 0xffffffff]

/-- `while (pEntry->size < size) pEntry++` -/
def entryOf (size : Nat) : Nat :=
  freeListSizes.findIdx fun limit => !decide (limit < size)

/-- `pArena->next->prev = pArena->prev; pArena->prev->next = pArena->next` -/
def unlink (arena : Nat) : Memory :=
  let memory := memory.write (memory (arena + 8) + 12) (memory (arena + 12))
  memory.write (memory (arena + 12) + 8) (memory (arena + 8))

/-- `HEAP_InsertFreeBlockAtFront` -/
def insertFreeBlockAtFront (heap : Heap) (arena : Nat) : Heap :=
  let memory := heap.memory
  let entry := heap.head (entryOf (memory arena))
  let memory := memory.write arena (setFree (memory arena))
  let memory := memory.write (arena + 8) (memory (entry + 8))
  let memory := memory.write (memory (arena + 8) + 12) arena
  let memory := memory.write (arena + 12) entry
  let memory := memory.write (entry + 8) arena
  heap.setMemory memory

/-- `HEAP_InsertFreeBlockAtEnd`: in front of the next list head, the heads being
connected in a circle. -/
def insertFreeBlockAtEnd (heap : Heap) (arena : Nat) : Heap :=
  let memory := heap.memory
  let entry := heap.head ((entryOf (memory arena) + 1) % 4)
  let memory := memory.write arena (setFree (memory arena))
  let memory := memory.write (arena + 8) entry
  let memory := memory.write (arena + 12) (memory (entry + 12))
  let memory := memory.write (memory (arena + 8) + 12) arena
  let memory := memory.write (memory (arena + 12) + 8) arena
  heap.setMemory memory

/-- `HEAP_FindSubHeap` -/
def findSubHeap (heap : Heap) (ptr : Nat) : Option SubHeap :=
  heap.subheaps.find? fun sub => decide (sub.base ≤ ptr ∧ ptr < sub.stop)

variable (system : System) (heap : Heap) (sub : SubHeap)

/-- `HEAP_Commit` -/
def commit (ptr : Nat) : Option Heap :=
  let size := roundUp (sub32 ptr sub.base)
  let size := if sub.size < size then sub.size else size
  let commitSize := heap.commitSize sub.base
  if size ≤ commitSize then some heap
  else if system.commit (sub.base + commitSize) (size - commitSize) then
    some (heap.setCommitSize sub size)
  else none

/-- `HEAP_Decommit`; its result is not used by the caller. -/
def decommit (ptr : Nat) : Heap :=
  -- round to next block and add one full block
  let size := add32 (roundUp (sub32 ptr sub.base)) 0x10000
  let commitSize := heap.commitSize sub.base
  if commitSize ≤ size then heap
  else if system.decommit (sub.base + size) (commitSize - size) then
    heap.setCommitSize sub size
  else heap

/-- The part of `HEAP_CreateFreeBlock` that removes a free arena behind the new
one from the free list: the memory and the size of the merged block. -/
def mergeNext (memory : Memory) (ptr size : Nat) : Memory × Nat :=
  if ptr + size < sub.stop ∧ isFree (memory (ptr + size)) then
    let memory := unlink memory (ptr + size)
    (memory, add32 size (add32 (sizeOf (memory (ptr + size))) 16))
  else (memory, size)

/-- The part of `HEAP_CreateFreeBlock` that sets the `PREV_FREE` flag and the
back pointer of the next arena. -/
def tagNext (memory : Memory) (ptr size : Nat) : Memory :=
  if ptr + size < sub.stop then
    let memory := memory.write (ptr + size) (setPrevFree (memory (ptr + size)))
    memory.write (ptr + size - 4) ptr
  else memory

/-- The part of `HEAP_CreateFreeBlock` that inserts the new block into the free
list, at the end if it is larger than `FREE_BLOCK_INSERTION_THRESHOLD`. -/
def insertFreeBlock (ptr size : Nat) : Heap :=
  let heap := heap.setMemory (heap.memory.write ptr (sub32 size 16))
  if 4096 < sizeOf (heap.memory ptr) then insertFreeBlockAtEnd heap ptr
  else insertFreeBlockAtFront heap ptr

/-- `HEAP_CreateFreeBlock` -/
def createFreeBlock (ptr size : Nat) : Heap :=
  let memory := heap.memory.write (ptr + 4) freeMagic
  let (memory, size) := mergeNext sub memory ptr size
  insertFreeBlock (heap.setMemory (tagNext sub memory ptr size)) ptr size

/-- The part of `HEAP_MakeInUseBlockFree` that unlinks a free arena in front of the block:
the memory, the start and the size of the merged block. -/
def mergePrev (arena : Nat) : Memory × Nat × Nat :=
  let size := add32 (sizeOf (memory arena)) 8
  if isPrevFree (memory arena) then
    let free := memory (arena - 4)
    (unlink memory free, free, add32 size (add32 (sizeOf (memory free)) 16))
  else (memory, arena, size)

/-- The part of `HEAP_MakeInUseBlockFree` behind the creation of the free block: an empty
sub-heap that is not the original one is freed, otherwise its end is decommitted. -/
def trimSubHeap (free : Nat) : Heap :=
  let size := add32 (sizeOf (heap.memory free)) 16
  if free + size < sub.stop then heap
  else if free = sub.start ∧ sub.base ≠ heap.main.base then
    { heap with
      memory := unlink heap.memory free
      others := heap.others.filter fun other => other.base != sub.base }
  else if heap.flags.shared then heap
  else decommit system heap sub (free + 16)

/-- `HEAP_MakeInUseBlockFree` -/
def makeInUseBlockFree (arena : Nat) : Heap :=
  let (memory, free, size) := mergePrev heap.memory arena
  trimSubHeap system (createFreeBlock (heap.setMemory memory) sub free size) sub free

/-- `HEAP_ShrinkBlock` -/
def shrinkBlock (arena size : Nat) : Heap :=
  if add32 size 24 ≤ sizeOf (heap.memory arena) then
    let heap :=
      createFreeBlock heap sub (add32 (arena + 8) size) (sub32 (sizeOf (heap.memory arena)) size)
    heap.setMemory (heap.memory.write arena (size ||| flagsOf (heap.memory arena)))
  else
    let next := arena + 8 + sizeOf (heap.memory arena)
    if next < sub.stop then
      heap.setMemory (heap.memory.write next (clearPrevFree (heap.memory next)))
    else heap

/-- One round of the loop of `HEAP_InitSubHeap` that builds the free lists. -/
def initFreeListEntry (memory : Memory) (i : Nat) : Memory :=
  let memory := memory.write (heap.head i) 1
  let memory := memory.write (heap.head i + 8) (if i < 3 then heap.head (i + 1) else heap.head 0)
  let memory := memory.write (heap.head i + 12) (if i ≠ 0 then heap.head (i - 1) else heap.head 3)
  memory.write (heap.head i + 4) freeMagic

/-- `HEAP_InitSubHeap`.  A sub-heap whose address is not that of the heap is
inserted behind the first one; otherwise the main heap is initialised. -/
def initSubHeap (address : Nat) (flags : Flags) (commitSize totalSize : Nat)
    : Option (Heap × SubHeap) :=
  let commitSize := if flags.shared then totalSize else commitSize
  if system.commit address commitSize then
    if address ≠ heap.main.base then
      let sub : SubHeap := ⟨address, totalSize, 24⟩
      let heap := { heap with others := sub :: heap.others }
      let heap := heap.setCommitSize sub commitSize
      some (createFreeBlock heap sub sub.start (sub32 sub.size sub.headerSize), sub)
    else
      let sub : SubHeap := ⟨address, totalSize, 140⟩
      let heap : Heap := { heap with main := sub, others := [], flags := flags }
      let heap := heap.setCommitSize sub commitSize
      let heap := heap.setMemory ((List.range 4).foldl (initFreeListEntry heap) heap.memory)
      some (createFreeBlock heap sub sub.start (sub32 sub.size sub.headerSize), sub)
  else none

/-- The rounding of a reserve size and a commit size to 64K that
`HEAP_CreateSubHeap` and `OldRtlCreateHeap` do. -/
def roundSizes (commitSize totalSize : Nat) : Nat × Nat :=
  let totalSize := roundUp totalSize
  let commitSize := roundUp commitSize
  let commitSize := if commitSize = 0 then 0x10000 else commitSize
  (commitSize, if totalSize < commitSize then commitSize else totalSize)

/-- `(HEAP *)address`: memory seen as a heap that is not filled in yet. -/
def blankHeap (address : Nat) : Heap :=
  ⟨⟨address, 0, 0⟩, [], fun _ => 0, {}, memory⟩

/-- `HEAP_CreateSubHeap`.  The argument `owner` gives the heap the new sub-heap
belongs to, which is the one at the same address for a main heap. -/
def createSubHeap (owner : Nat → Heap) (base : Option Nat) (flags : Flags)
    (commitSize totalSize : Nat) : Option (Heap × SubHeap) :=
  match base with
  | some address => initSubHeap system (owner address) address flags commitSize totalSize
  | none =>
    let (commitSize, totalSize) := roundSizes commitSize totalSize
    (system.reserve totalSize).bind fun address =>
      initSubHeap system (owner address) address flags commitSize totalSize

/-- The search of `HEAP_FindFreeBlock` along the free list. -/
def searchFreeList (memory : Memory) (stop size : Nat) : Nat → Nat → Option Nat
  | 0, _ => none
  | fuel + 1, arena =>
    if arena = stop then none
    else if size ≤ add32 (sizeOf (memory arena)) 8 then some arena
    else searchFreeList memory stop size fuel (memory (arena + 8))

/-- `HEAP_FindFreeBlock`: the heap, the sub-heap and the arena found. -/
def findFreeBlock (size : Nat) : Option (Heap × SubHeap × Nat) :=
  let first := heap.memory (heap.head (entryOf size) + 8)
  match searchFreeList heap.memory (heap.head 0) size 0x100000000 first with
  | some arena =>
    (findSubHeap heap arena).bind fun sub =>
      (commit system heap sub (add32 (add32 (arena + 8) size) 24)).map fun heap =>
        (heap, sub, arena)
  | none =>
    if heap.flags.growable then
      -- room for the sub-heap header and for another free arena at the end
      let size := add32 size 56
      (createSubHeap system (fun _ => heap) none heap.flags size
        (max 0x110000 size)).map fun (heap, sub) => (heap, sub, sub.base + 24)
    else none

/-! ## Validation -/

/-- `HEAP_IsValidArenaPtr` -/
def isValidArenaPtr (ptr : Nat) : Bool :=
  match findSubHeap heap ptr with
  | none => false
  | some sub =>
    if sub.start ≤ ptr then true
    else if sub.base ≠ heap.main.base then false
    else (List.range 4).any fun i => ptr == heap.head i

/-- `HEAP_ValidateFreeArena`; the flags are checked without any effect on the
result, and unaligned pointers are allowed on the i386. -/
def validateFreeArena (arena : Nat) : Bool :=
  let memory := heap.memory
  let next := arena + 16 + sizeOf (memory arena)
  if memory (arena + 4) ≠ freeMagic then false
  else if sub.stop < next then false
  else if !isValidArenaPtr heap (memory (arena + 8)) then false
  else if !isFree (memory (memory (arena + 8))) ||
      memory (memory (arena + 8) + 4) ≠ freeMagic then false
  else if !isValidArenaPtr heap (memory (arena + 12)) then false
  else if !isFree (memory (memory (arena + 12))) ||
      memory (memory (arena + 12) + 4) ≠ freeMagic then false
  else if next < sub.stop then
    isPrevFree (memory next) && memory (next - 4) == arena
  else true

/-- `HEAP_ValidateInUseArena` -/
def validateInUseArena (arena : Nat) : Bool :=
  let memory := heap.memory
  let next := arena + 8 + sizeOf (memory arena)
  if memory (arena + 4) ≠ inUseMagic then false
  else if isFree (memory arena) then false
  else if sub.stop < next then false
  else if next < sub.stop && isPrevFree (memory next) then false
  else if isPrevFree (memory arena) then
    let prev := memory (arena - 4)
    isValidArenaPtr heap prev &&
      (isFree (memory prev) && memory (prev + 4) == freeMagic) &&
      prev + 16 + sizeOf (memory prev) == arena
  else true

/-- The walk of `HEAP_IsRealArena` over the arenas of one sub-heap. -/
def walkArenas (heap : Heap) (sub : SubHeap) : Nat → Nat → Bool
  | 0, _ => false
  | fuel + 1, ptr =>
    if ptr < sub.stop then
      if isFree (heap.memory ptr) then
        validateFreeArena heap sub ptr &&
          walkArenas heap sub fuel (ptr + 16 + sizeOf (heap.memory ptr))
      else
        validateInUseArena heap sub ptr &&
          walkArenas heap sub fuel (ptr + 8 + sizeOf (heap.memory ptr))
    else true

/-- `HEAP_IsRealArena` -/
def isRealArena (block : Option Nat) : Bool :=
  match block with
  | some block =>
    match findSubHeap heap block with
    | none => false
    | some sub =>
      if block < sub.start + 8 then false
      else validateInUseArena heap sub (block - 8)
  | none => heap.subheaps.all fun sub => walkArenas heap sub (sub.size + 1) sub.start

/-! ## The interface -/

/-- What a call that allocates returns: a block, `NULL`, or nothing because
`STATUS_NO_MEMORY` was raised. -/
inductive Reply where
  | block (ptr : Nat)
  | null
  | raised
deriving DecidableEq

/-- The end of a call that found no memory. -/
def noMemory (flags : Flags) : Reply :=
  if flags.generateExceptions then .raised else .null

/-- The flags of a call that count, joined with those of the heap. -/
def Flags.join (flags heapFlags : Flags) : Flags :=
  { heapFlags with
    generateExceptions := flags.generateExceptions || heapFlags.generateExceptions
    zeroMemory := flags.zeroMemory || heapFlags.zeroMemory
    reallocInPlaceOnly := flags.reallocInPlaceOnly || heapFlags.reallocInPlaceOnly }

/-- `OldRtlCreateHeap` -/
def createHeap (memory : Memory) (flags : Flags) (addr : Option Nat) (totalSize commitSize : Nat)
    : Option Heap :=
  let flags := if totalSize = 0 then { flags with growable := true } else flags
  let totalSize := if totalSize = 0 then 0x110000 else totalSize
  let (commitSize, totalSize) := roundSizes commitSize totalSize
  (createSubHeap system (blankHeap memory) addr flags commitSize totalSize).map Prod.fst

/-- `size = (size + 3) & ~3; if (size < HEAP_MIN_BLOCK_SIZE) size = HEAP_MIN_BLOCK_SIZE` -/
def blockSize (size : Nat) : Nat :=
  max (sizeOf (add32 size 3)) 24

/-- Turn a free arena into an arena in use of the given size. -/
def buildInUse (arena size : Nat) : Heap :=
  -- in-use arena is smaller than free arena, so the difference is added
  let memory := unlink heap.memory arena
  let memory := memory.write arena (add32 (clearFree (memory arena)) 8)
  let memory := memory.write (arena + 4) inUseMagic
  shrinkBlock (heap.setMemory memory) sub arena size

/-- `OldRtlAllocateHeap` -/
def allocateHeap (flags : Flags) (size : Nat) : Heap × Reply :=
  let flags := flags.join heap.flags
  let size := blockSize size
  match findFreeBlock system heap size with
  | none => (heap, noMemory flags)
  | some (heap, sub, arena) =>
    let heap := buildInUse heap sub arena size
    let heap :=
      if flags.zeroMemory then
        heap.setMemory (heap.memory.clear (arena + 8) (sizeOf (heap.memory arena)))
      else heap
    (heap, .block (arena + 8))

/-- `OldRtlFreeHeap` -/
def freeHeap (ptr : Option Nat) : Heap × Bool :=
  match ptr with
  | none => (heap, true)
  | some ptr =>
    if isRealArena heap (some ptr) then
      match findSubHeap heap (ptr - 8) with
      | none => (heap, false)
      | some sub => (makeInUseBlockFree system heap sub (ptr - 8), true)
    else (heap, false)

/-- The part of `OldRtlReAllocateHeap` that removes the free arena behind a block from
the free list and adds its size to that of the block. -/
def swallowNext (arena next : Nat) : Memory :=
  let memory := unlink memory next
  memory.write arena (add32 (memory arena) (add32 (sizeOf (memory next)) 16))

/-- The grown block of `OldRtlReAllocateHeap`: the heap and the arena, or the heap
as the failure leaves it. -/
def growBlock (flags : Flags) (sub : SubHeap) (arena size : Nat) : Heap × Option Nat :=
  let oldSize := sizeOf (heap.memory arena)
  let next := arena + 8 + oldSize
  if next < sub.stop ∧ isFree (heap.memory next) ∧
      size ≤ add32 (add32 oldSize (sizeOf (heap.memory next))) 16 then
    -- the next block is free and large enough
    let heap := heap.setMemory (swallowNext heap.memory arena next)
    match commit system heap sub (add32 (add32 (arena + 8) size) 24) with
    | none => (heap, none)
    | some heap => (shrinkBlock heap sub arena size, some arena)
  else if flags.reallocInPlaceOnly then (heap, none)
  else
    -- do it the hard way
    match findFreeBlock system heap size with
    | none => (heap, none)
    | some (heap, newSub, new) =>
      let heap := buildInUse heap newSub new size
      let heap := heap.setMemory (heap.memory.copy (new + 8) (arena + 8) oldSize)
      (makeInUseBlockFree system heap sub arena, some new)

/-- `OldRtlReAllocateHeap` -/
def reAllocateHeap (flags : Flags) (ptr : Option Nat) (size : Nat) : Heap × Reply :=
  match ptr with
  | none => allocateHeap system heap flags size
  | some ptr =>
    let flags := flags.join heap.flags
    let size := blockSize size
    if isRealArena heap (some ptr) then
      match findSubHeap heap (ptr - 8) with
      | none => (heap, .null)
      | some sub =>
        let oldSize := sizeOf (heap.memory (ptr - 8))
        if oldSize < size then
          match growBlock system heap flags sub (ptr - 8) size with
          | (heap, none) => (heap, noMemory flags)
          | (heap, some arena) =>
            -- clear the extra bytes if needed
            let heap :=
              if flags.zeroMemory then
                heap.setMemory
                  (heap.memory.clear (arena + 8 + oldSize)
                    (sub32 (sizeOf (heap.memory arena)) oldSize))
              else heap
            (heap, .block (arena + 8))
        else (shrinkBlock heap sub (ptr - 8) size, .block ptr)
    else (heap, .null)

/-- `OldRtlSizeHeap`, `none` standing for the error value. -/
def sizeHeap (ptr : Nat) : Option Nat :=
  if isRealArena heap (some ptr) then some (sizeOf (heap.memory (ptr - 8))) else none

/-- `OldRtlValidateHeap` -/
def validateHeap (block : Option Nat) : Bool :=
  isRealArena heap block

end Winex.OldHeap
