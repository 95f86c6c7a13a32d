import Winex.HeapOperations
import Mathlib.Data.Finset.Card
import Mathlib.Data.Finset.Range

namespace Winex.OldHeap

open Circular List Option
open Function (update update_idem update_of_ne update_self)

/-!
# Finding free blocks and adding sub-heaps

The search along the free list visits the arenas of the class of the request and of all
larger classes.  If none fits, a heap that may grow gets another sub-heap with one free
arena in it.
-/

/-! ## The search -/

/-- The search visits the nodes between its start and the first list head. -/
theorem searchFreeList_eq {memory : Memory} {stop size : Nat} (between : List Nat) (prev fuel : Nat)
    (chain : List.IsChain (Joined (links memory)) (prev :: (between ++ [stop])))
    (off : stop ∉ between) (enough : between.length < fuel) :
    searchFreeList memory stop size fuel (memory (prev + 8)) =
      between.find? fun node => decide (size ≤ add32 (sizeOf (memory node)) 8) := by
  induction between generalizing prev fuel with
  | nil =>
    obtain ⟨joined, -⟩ := isChain_cons_cons.mp chain
    have nextIs : memory (prev + 8) = stop := joined.1
    cases fuel with
    | zero => simp at enough
    | succ => simp [searchFreeList, nextIs]
  | cons node _ ih =>
    obtain ⟨joined, chain'⟩ := isChain_cons_cons.mp chain
    have nextIs : memory (prev + 8) = node := joined.1
    have differs : node ≠ stop := by
      rintro rfl
      simp at off
    cases fuel with
    | zero => simp at enough
    | succ fuel =>
      simp only [searchFreeList, nextIs, if_neg differs, find?_cons]
      by_cases fits : size ≤ add32 (sizeOf (memory node)) 8
      · simp [fits]
      · simp only [fits, if_false, decide_false]
        exact ih node fuel chain' (fun isIn => off (by simp [isIn])) (by simpa using enough)

namespace Sound

variable {heap : Heap} {arenas : Arenas} {classes : Nat → List Nat}
variable (sound : Sound heap arenas classes)
include sound

/-- The free list is shorter than the address space. -/
theorem nodes_length : (nodes heap.main.base classes).length < 0x100000000 := by
  have bounded : ∀ node ∈ headAt heap.main.base 0 :: nodes heap.main.base classes,
      node < 0xffff0000 := by
    intro _ isIn
    rcases sound.listed.isNode isIn with ⟨_, _, rfl⟩ | ⟨_, here⟩
    · have := sound.placed.bounded heap.main (by simp)
      have header := sound.placed.mainHeader
      unfold SubHeap.start at this
      unfold headAt
      omega
    · have := sound.placed.measure here
      omega
  have distinct := sound.listed.distinct
  have counted : (headAt heap.main.base 0 :: nodes heap.main.base classes).toFinset ⊆
      Finset.range 0xffff0000 := by
    intro node isIn
    exact Finset.mem_range.mpr (bounded node (mem_toFinset.mp isIn))
  have := Finset.card_le_card counted
  rw [toFinset_card_of_nodup distinct, Finset.card_range] at this
  simp at this
  omega

/-- The search finds the first arena that fits among the arenas of the class and of
the larger ones. -/
protected theorem searchFreeList {i : Nat} (small : i < 4) (size : Nat) :
    searchFreeList heap.memory (heap.head 0) size 0x100000000
        (heap.memory (heap.head i + 8)) =
      (classes i ++ nodesAfter heap.main.base classes i (3 - i)).find? fun node =>
        decide (size ≤ add32 (sizeOf (heap.memory node)) 8) := by
  have closed := sound.listed.closed
  have distinct := sound.listed.distinct
  have short := sound.nodes_length
  rw [nodes_eq small] at closed distinct short
  refine searchFreeList_eq _ _ _ ?_ ?_ ?_
  · obtain ⟨_, frontEq⟩ :=
      getLast?_eq_some_iff.mp (head_mem_getLast heap.main.base classes i)
    have chain : List.IsChain (Joined (links heap.memory))
        ((headAt heap.main.base 0 :: nodesUpTo heap.main.base classes i) ++
          ((classes i ++ nodesAfter heap.main.base classes i (3 - i)) ++
            [headAt heap.main.base 0])) := by simpa [Closed] using closed
    rw [frontEq, append_assoc] at chain
    exact (isChain_append.mp chain).2.1
  · intro isIn
    refine (nodup_cons.mp distinct).1 (mem_append_right _ ?_)
    exact isIn
  · simp at short ⊢
    omega

/-- The nodes that the search accepts are the free arenas of the class of the request and of
the larger ones that have room for it. -/
theorem accepts_iff {size ptr : Nat} (bounds : 24 ≤ size ∧ size < 0x100000000) :
    ptr ∈ classes (entryOf size) ++
        nodesAfter heap.main.base classes (entryOf size) (3 - entryOf size) ∧
      size ≤ add32 (sizeOf (heap.memory ptr)) 8 ↔
    ∃ extent, Free arenas ptr extent ∧ size ≤ extent - 8 ∧
      entryOf size ≤ entryOf (extent - 16) := by
  have small := entryOf_lt bounds.2
  have room {extent : Nat} (here : Free arenas ptr extent) :
      add32 (sizeOf (heap.memory ptr)) 8 = extent - 8 ∧ entryOf (extent - 16) < 4 := by
    have := sound.placed.measure here
    rw [(sound.tagged.free ptr extent here).1, sizeOf_word (by omega), add32_eq (by omega)]
    exact ⟨by omega, entryOf_lt (by omega)⟩
  rw [mem_nodesAfter]
  constructor
  · rintro ⟨⟨i, above, below, inClass | ⟨_, rfl⟩⟩, fits⟩
    · obtain ⟨extent, here, rfl⟩ := sound.listed.arena i (by omega) ptr inClass
      rw [(room here).1] at fits
      exact ⟨extent, here, fits, above⟩
    · -- the list heads have no room
      simp [(sound.listed.heads i (by omega)).1, sizeOf, add32] at fits
      omega
  · rintro ⟨extent, here, fits, above⟩
    obtain ⟨sameRoom, below⟩ := room here
    rw [sameRoom]
    exact ⟨⟨_, above, by omega, .inl (sound.listed.member ptr extent here)⟩, fits⟩

theorem arena_of_search {size ptr : Nat} (bounds : 24 ≤ size ∧ size < 0x100000000)
    (found : searchFreeList heap.memory (heap.head 0) size 0x100000000
      (heap.memory (heap.head (entryOf size) + 8)) = some ptr) :
    ∃ extent, Free arenas ptr extent ∧ size ≤ extent - 8 ∧
      entryOf size ≤ entryOf (extent - 16) := by
  rw [sound.searchFreeList (entryOf_lt bounds.2)] at found
  exact (sound.accepts_iff bounds).mp ⟨mem_of_find?_eq_some found, by simpa using find?_some found⟩

end Sound

/-! ## Sizes of sub-heaps -/

variable {sub : SubHeap} {commitSize totalSize : Nat} {flags : Flags} {system : System}

theorem of_findSubHeap {heap : Heap} {ptr : Nat} (found : findSubHeap heap ptr = some sub) :
    sub ∈ heap.subheaps ∧ sub.Contains ptr := by
  have holds := find?_some found
  simp only [decide_eq_true_eq] at holds
  exact ⟨mem_of_find?_eq_some found, holds⟩

theorem roundUp_mod (size : Nat) : roundUp size % 0x10000 = 0 := by
  unfold roundUp
  omega

theorem roundSizes_bounds (commitSize totalSize : Nat) :
    0x10000 ≤ (roundSizes commitSize totalSize).1 ∧
      (roundSizes commitSize totalSize).1 ≤ (roundSizes commitSize totalSize).2 ∧
      (roundSizes commitSize totalSize).2 % 0x10000 = 0 := by
  have commitMod := roundUp_mod commitSize
  have totalMod := roundUp_mod totalSize
  unfold roundSizes
  simp only
  split <;> split <;> omega

theorem le_roundSizes (small : commitSize + 0xffff < 0x100000000) (totalSize : Nat) :
    commitSize ≤ (roundSizes commitSize totalSize).1 := by
  have := le_roundUp small
  unfold roundSizes
  simp only
  split <;> omega

/-! ## New sub-heaps -/

/-- A range of memory a process can have: the first and the last 64K of the address
space are never given out. -/
def UserRange (address size : Nat) : Prop :=
  0x10000 ≤ address ∧ address + size ≤ 0xffff0000

/-- Reservations are ranges of the user part of the address space, apart from the
sub-heaps of the heap, which are reserved already. -/
def System.Fresh (system : System) (heap : Heap) : Prop :=
  ∀ size address, system.reserve size = some address →
    UserRange address size ∧ ∀ sub ∈ heap.subheaps, address + size ≤ sub.base ∨ sub.stop ≤ address

namespace Sound

variable {heap : Heap} {arenas : Arenas} {classes : Nat → List Nat} {sub : SubHeap}
variable (sound : Sound heap arenas classes)
include sound

variable {commitSize : Nat} {heap' : Heap} {system : System}

/-- A sub-heap that is one gap can be added to a heap. -/
theorem addSub (header : sub.headerSize = 24) (bounds : 0x10000 ≤ sub.base ∧ sub.stop ≤ 0xffff0000)
    (enough : 48 ≤ sub.size ∧ sub.size % 4 = 0)
    (apart : ∀ other ∈ heap.subheaps, sub.stop ≤ other.base ∨ other.stop ≤ sub.base)
    (bounded : commitSize ≤ sub.size) :
    Sound
      (Heap.setCommitSize { heap with others := sub :: heap.others } sub commitSize)
      (update arenas sub.start (some ⟨.gap, sub.size - 24⟩)) classes := by
  have startEq : sub.start = sub.base + 24 := by simp [SubHeap.start, header]
  have stopEq : sub.stop = sub.base + sub.size := rfl
  -- every arena lies in an old sub-heap and so outside the new one
  have outside :
      ∀ ptr arena, arenas ptr = some arena → ptr + arena.extent ≤ sub.base ∨ sub.stop ≤ ptr := by
    intro ptr arena here
    obtain ⟨other, otherIn, above, below, -⟩ := sound.placed.inside ptr arena here
    have := apart other otherIn
    unfold SubHeap.start at above
    omega
  have kept := @of_update_gap sub.start arenas (sub.size - 24)
  have still : ∀ ptr arena, arenas ptr = some arena →
      update arenas sub.start (some ⟨.gap, sub.size - 24⟩) ptr = some arena := by
    intro ptr arena here
    have := outside ptr arena here
    rw [update_of_ne (by omega)]
    exact here
  have memberIff :
      ∀ other, other ∈ heap.main :: sub :: heap.others ↔ other = sub ∨ other ∈ heap.subheaps := by
    intro _
    simp only [Heap.subheaps, mem_cons]
    tauto
  refine ⟨?_, ?_, ?_, ?_⟩
  · refine ⟨?_, sound.placed.mainHeader, ?_, ?_, ?_, ?_, ?_, ?_⟩
    · intro other otherIn
      rcases (memberIff other).mp otherIn with rfl | otherIn
      · omega
      · exact sound.placed.bounded other otherIn
    · exact forall_mem_cons.mpr ⟨header, sound.placed.otherHeader⟩
    · have pairs := pairwise_cons.mp sound.placed.disjoint
      refine pairwise_cons.mpr ⟨?_, pairwise_cons.mpr ⟨?_, pairs.2⟩⟩
      · exact forall_mem_cons.mpr ⟨(apart heap.main (by simp [Heap.subheaps])).symm, pairs.1⟩
      · intro other otherIn
        exact apart other (by simp [Heap.subheaps, otherIn])
    · intro other otherIn
      rcases (memberIff other).mp otherIn with rfl | otherIn
      · exact ⟨_, update_self ..⟩
      · obtain ⟨arena, here⟩ := sound.placed.first other otherIn
        exact ⟨arena, still _ _ here⟩
    · intro ptr arena there
      rcases update_eq_some_iff.mp there with ⟨rfl, rfl⟩ | ⟨-, here⟩
      · refine ⟨sub, (memberIff sub).mpr (.inl rfl), le_rfl, ?_, ?_⟩
        · simp only
          omega
        · intro less
          simp only at less
          omega
      · obtain ⟨other, otherIn, above, below, next⟩ := sound.placed.inside ptr arena here
        refine ⟨other, (memberIff other).mpr (.inr otherIn), above, below, ?_⟩
        intro less
        obtain ⟨arena', there'⟩ := next less
        exact ⟨arena', still _ _ there'⟩
    · intro _ _ _ _ there there' less
      rcases update_eq_some_iff.mp there with ⟨rfl, rfl⟩ | ⟨-, here⟩ <;>
        rcases update_eq_some_iff.mp there' with ⟨rfl, rfl⟩ | ⟨-, here'⟩
      · omega
      · have := outside _ _ here'
        simp only
        omega
      · have := outside _ _ here
        omega
      · exact sound.placed.apart _ _ _ _ here here' less
    · intro _ _ there
      rcases update_eq_some_iff.mp there with ⟨rfl, rfl⟩ | ⟨-, here⟩
      · simp only
        omega
      · exact sound.placed.extents _ _ here
  · have weakened : Tagged heap.subheaps heap.memory
        (update arenas sub.start (some ⟨.gap, sub.size - 24⟩)) := by
      refine sound.tagged.weaken kept ?_
      intro _ _ arena there next
      have here := kept _ _ (by simp) there
      rcases update_eq_some_iff.mp next with ⟨_, -⟩ | ⟨-, next⟩
      · have away := outside _ _ here
        have wide := sound.placed.measure here
        simp only at away wide
        omega
      · exact ⟨arena, next⟩
    refine { weakened with start := ?_ }
    intro other otherIn extent there
    rcases (memberIff other).mp otherIn with rfl | otherIn
    · simp at there
    · exact weakened.start other otherIn extent there
  · have weakened := sound.committed.weaken kept
    have commitOf : ∀ other ∈ heap.subheaps,
        update heap.commitSize sub.base commitSize other.base = heap.commitSize other.base := by
      intro other otherIn
      have := apart other otherIn
      have bounds' := sound.placed.bounded other otherIn
      unfold SubHeap.start at bounds'
      exact update_of_ne (by omega) _ _
    have vacant : ∀ ptr arena, arena.kind ≠ .gap → sub.base ≤ ptr → ptr < sub.stop →
        update arenas sub.start (some ⟨.gap, sub.size - 24⟩) ptr ≠ some arena := by
      intro ptr arena notGap _ _ there
      have := outside ptr arena (kept _ _ notGap there)
      have := (sound.placed.extents ptr arena (kept _ _ notGap there)).1
      omega
    refine ⟨?_, ?_, ?_⟩ <;> intro other otherIn <;>
      rcases (memberIff other).mp otherIn with rfl | otherIn
    · simpa [Heap.setCommitSize] using bounded
    · simpa [Heap.setCommitSize, commitOf other otherIn] using weakened.bounded other otherIn
    · intro ptr _ above below there
      exact absurd there (vacant ptr _ (by simp) above below)
    · simpa [Heap.setCommitSize, commitOf other otherIn] using weakened.free other otherIn
    · intro ptr _ above below there
      exact absurd there (vacant ptr _ (by simp) above below)
    · simpa [Heap.setCommitSize, commitOf other otherIn] using weakened.used other otherIn
  · refine sound.listed.relayout ?_
    intro _ _
    exact ⟨kept _ _ (by simp), still _ _⟩

theorem fillSub (subIn : sub ∈ heap.subheaps)
    (here : Gap arenas sub.start (sub.size - sub.headerSize))
    (onlyGap : ∀ other extent, Gap arenas other extent → other = sub.start)
    (committed : sub.start + 16 ≤ sub.base + heap.commitSize sub.base) :
    Yields heap (createFreeBlock heap sub sub.start (sub32 sub.size sub.headerSize))
      (update arenas sub.start (some ⟨.free, sub.size - sub.headerSize⟩)) := by
  have bounds := sound.placed.bounded sub subIn
  have startEq : sub.start = sub.base + sub.headerSize := rfl
  have stopEq : sub.stop = sub.base + sub.size := rfl
  have lonely : arenas (sub.start + (sub.size - sub.headerSize)) = none := by
    refine eq_none_iff_forall_ne_some.mpr ?_
    intro arena found
    have next := (sound.placed.next_iff subIn (by omega) here).mp ⟨arena, found⟩
    omega
  have alone : released arenas sub.start (sub.size - sub.headerSize) =
      update arenas sub.start (some ⟨.free, sub.size - sub.headerSize⟩) := by
    unfold released
    rw [lonely]
  have created := sound.createFreeBlock subIn (by omega) here
    (fun other extent isGap => (onlyGap other extent isGap).le)
    (fun other extent isFree => sound.placed.start_no_prev subIn isFree) committed
  rw [alone] at created
  rw [sub32_eq (by omega) (by omega)]
  exact created

protected theorem initSubHeap (whole : Whole arenas) {address totalSize : Nat} {flags : Flags}
    (bounds : UserRange address totalSize)
    (apart : ∀ other ∈ heap.subheaps, address + totalSize ≤ other.base ∨ other.stop ≤ address)
    (sizes : 0x10000 ≤ commitSize ∧ commitSize ≤ totalSize ∧ totalSize % 0x10000 = 0)
    (run : initSubHeap system heap address flags commitSize totalSize = some (heap', sub)) :
    ∃ arenas' classes',
      sub = ⟨address, totalSize, 24⟩ ∧ heap'.subheaps = heap.main :: sub :: heap.others ∧
      heap'.flags = heap.flags ∧ commitSize ≤ heap'.commitSize address ∧
      Sound heap' arenas' classes' ∧ Whole arenas' ∧
      Free arenas' sub.start (totalSize - 24) ∧
      (∀ other extent', Used arenas' other extent' ↔ Used arenas other extent') ∧
      ∀ word, Body arenas' word → heap'.memory word = heap.memory word := by
  unfold UserRange at bounds
  have differs : address ≠ heap.main.base := by
    have := apart heap.main (by simp [Heap.subheaps])
    have inMain := sound.placed.bounded heap.main (by simp)
    unfold SubHeap.start at inMain
    omega
  unfold initSubHeap at run
  simp only [if_pos differs, ite_none_right_eq_some, Option.some.injEq, Prod.mk.injEq] at run
  obtain ⟨-, created, made⟩ := run
  rw [made] at created
  have baseEq : sub.base = address := by rw [← made]
  have sizeEq : sub.size = totalSize := by rw [← made]
  have header : sub.headerSize = 24 := by rw [← made]
  have startEq : sub.start = sub.base + 24 := by rw [SubHeap.start, header]
  have stopEq : sub.stop = sub.base + sub.size := rfl
  generalize committedEq : (if flags.shared = true then totalSize else commitSize) =
    committed at created
  have committedBounds : commitSize ≤ committed ∧ committed ≤ totalSize := by
    rw [← committedEq]
    split <;> omega
  have added := sound.addSub header (by omega) (by omega)
    (by rw [stopEq, baseEq, sizeEq]; exact apart)
    (by omega : committed ≤ sub.size)
  obtain ⟨_, classes', creation, result, frame⟩ := added.fillSub
    (by simp [Heap.setCommitSize, Heap.subheaps])
    (by rw [header]; exact update_self ..) whole.only
    (by simp only [Heap.setCommitSize, update_self]; omega)
  rw [sizeEq, header, created] at creation
  rw [update_idem, header] at result frame
  rw [sizeEq] at result frame
  subst creation
  refine ⟨_, classes', made.symm, rfl, rfl, ?_, result, ?_, update_self .., ?_, frame⟩
  · simp [Heap.setCommitSize, Heap.setMemory, ← baseEq]
    omega
  · intro other extent isGap
    rcases update_eq_some_iff.mp isGap with ⟨-, differs'⟩ | ⟨-, isGap⟩
    · cases differs'
    · exact whole other extent isGap
  · intro other _
    rw [Used, update_eq_some_iff]
    constructor
    · rintro (⟨-, differs'⟩ | ⟨-, here⟩)
      · cases differs'
      · exact here
    · intro here
      refine .inr ⟨?_, here⟩
      obtain ⟨other, otherIn, above, below, -⟩ := sound.placed.inside _ _ here
      have away := apart other otherIn
      unfold SubHeap.start at above
      omega

/-- The block found has room for the request and for the header behind it, and the
blocks in use are the same as before. -/
protected theorem findFreeBlock (whole : Whole arenas) (fresh : system.Fresh heap) {size ptr : Nat}
    (bounds : 24 ≤ size ∧ size < 0x100000000)
    (fits : heap.flags.growable = true → size ≤ 0xfffeffc8)
    (run : findFreeBlock system heap size = some (heap', sub, ptr)) :
    ∃ arenas' classes' extent, Sound heap' arenas' classes' ∧ Whole arenas' ∧
      sub ∈ heap'.subheaps ∧ (sub.Contains ptr) ∧
      Free arenas' ptr extent ∧ size ≤ extent - 8 ∧
      min (ptr + size + 32) (ptr + extent) ≤ sub.base + heap'.commitSize sub.base ∧
      (∀ other extent', Used arenas' other extent' ↔ Used arenas other extent') ∧
      (∀ word, Body arenas' word → heap'.memory word = heap.memory word) ∧
      (∀ other ∈ heap.subheaps, other ∈ heap'.subheaps) ∧ heap'.flags = heap.flags := by
  unfold findFreeBlock at run
  simp only at run
  split at run
  next arena found =>
    obtain ⟨extent, here, enough, -⟩ := sound.arena_of_search bounds found
    simp only [bind_eq_some_iff, map_eq_some_iff, Prod.mk.injEq] at run
    obtain ⟨sub', subFound, heap'', committed, rfl, rfl, rfl⟩ := run
    obtain ⟨subIn, inSub⟩ := of_findSubHeap subFound
    have below := sound.placed.measure here
    obtain ⟨-, within, -⟩ := sound.placed.within subIn inSub here
    have blockEnd : add32 (arena + 8) size = arena + 8 + size := add32_eq (by omega)
    rw [blockEnd, add32_eq (by omega)] at committed
    obtain ⟨commitSize, rfl, sound', _⟩ := sound.commit subIn (by omega) committed
    refine ⟨arenas, classes, extent, sound', whole, subIn, inSub, here, enough, ?_,
      fun _ _ => Iff.rfl, fun _ _ => rfl, fun _ isIn => isIn, rfl⟩
    simp only
    omega
  · -- no arena fits, so a sub-heap is added that is large enough
    simp only [ite_none_right_eq_some, map_eq_some_iff, Prod.mk.injEq] at run
    obtain ⟨growable, ⟨_, sub'⟩, created, rfl, rfl, rfl⟩ := run
    have sizeFits := fits growable
    rw [add32_eq (by omega)] at created
    unfold createSubHeap at created
    simp only [bind_eq_some_iff] at created
    obtain ⟨address, reserved, initialised⟩ := created
    have sizes := roundSizes_bounds (size + 56) (max 0x110000 (size + 56))
    have covers := le_roundSizes (by omega : size + 56 + 0xffff < 0x100000000)
      (max 0x110000 (size + 56))
    obtain ⟨place, apart⟩ := fresh _ _ reserved
    obtain ⟨arenas', classes', subEq, subheapsEq, flagsEq, commitEq, sound', whole', here,
        usedIff, frame⟩ :=
      sound.initSubHeap whole place apart sizes initialised
    generalize (roundSizes (size + 56) (max 0x110000 (size + 56))).2 = totalSize at *
    have startEq : sub'.start = sub'.base + 24 := by rw [subEq]; rfl
    have stopEq : sub'.stop = sub'.base + totalSize := by rw [subEq]; rfl
    have baseEq : sub'.base = address := by rw [subEq]
    rw [startEq] at here
    refine ⟨arenas', classes', totalSize - 24, sound', whole', by simp [subheapsEq], ?_,
      here, by omega, ?_, usedIff, frame, ?_, flagsEq⟩
    · simp only
      omega
    · simp only [baseEq]
      omega
    · intro _ otherIn
      simp only [Heap.subheaps, mem_cons] at otherIn
      simp only [subheapsEq, mem_cons]
      tauto

end Sound

/-! ## New heaps -/

theorem initFreeList_apply (heap : Heap) (memory : Memory) {i : Nat} (small : i < 4) :
    let filled := (range 4).foldl (initFreeListEntry heap) memory
    filled (heap.head i) = 1 ∧ filled (heap.head i + 4) = freeMagic ∧
      filled (heap.head i + 8) = heap.head ((i + 1) % 4) ∧
      filled (heap.head i + 12) = heap.head ((i + 3) % 4) := by
  interval_cases i <;>
    simp [range_succ, initFreeListEntry, Memory.write_apply, Heap.head, Nat.add_assoc]

variable {heap : Heap} {memory : Memory}

theorem Sound.blank (header : heap.main.headerSize = 140)
    (bounds : UserRange heap.main.base heap.main.size)
    (enough : 0x10000 ≤ heap.main.size ∧ heap.main.size % 4 = 0) (single : heap.others = [])
    (committed : heap.commitSize heap.main.base ≤ heap.main.size)
    (filled : heap.memory = (List.range 4).foldl (initFreeListEntry heap) memory) :
    Sound heap
      (update (fun _ => none) heap.main.start (some ⟨.gap, heap.main.size - 140⟩))
      (fun _ => []) := by
  have startEq : heap.main.start = heap.main.base + 140 := by rw [SubHeap.start, header]
  have stopEq : heap.main.stop = heap.main.base + heap.main.size := rfl
  unfold UserRange at bounds
  have only : ∀ ptr arena, update (fun _ => none) heap.main.start
        (some (⟨.gap, heap.main.size - 140⟩ : Arena)) ptr = some arena →
      ptr = heap.main.start ∧ arena = ⟨.gap, heap.main.size - 140⟩ := by
    intro _ _ there
    rcases update_eq_some_iff.mp there with ⟨same, sameArena⟩ | ⟨-, there⟩
    · exact ⟨same, sameArena.symm⟩
    · cases there
  refine ⟨?_, ?_, ?_, ?_⟩
  · rw [single]
    refine ⟨?_, header, by simp, by simp, ?_, ?_, ?_, ?_⟩
    · intro _ subIn
      obtain rfl := mem_singleton.mp subIn
      omega
    · intro _ subIn
      obtain rfl := mem_singleton.mp subIn
      exact ⟨_, update_self ..⟩
    · intro ptr arena there
      obtain ⟨rfl, rfl⟩ := only ptr arena there
      refine ⟨heap.main, by simp, le_rfl, ?_, ?_⟩ <;> simp only <;> omega
    · intro ptr arena other arena' there there' _
      obtain ⟨rfl, -⟩ := only ptr arena there
      obtain ⟨rfl, -⟩ := only other arena' there'
      omega
    · intro ptr arena there
      obtain ⟨-, rfl⟩ := only ptr arena there
      simp only
      omega
  · -- there are no tags yet
    constructor <;> grind
  · refine ⟨?_, by grind, by grind⟩
    intro _ subIn
    rw [Heap.subheaps, single] at subIn
    obtain rfl := mem_singleton.mp subIn
    exact committed
  · have words : ∀ i < 4, heap.memory (headAt heap.main.base i) = 1 ∧
        heap.memory (headAt heap.main.base i + 4) = freeMagic ∧
        heap.memory (headAt heap.main.base i + 8) = headAt heap.main.base ((i + 1) % 4) ∧
        heap.memory (headAt heap.main.base i + 12) = headAt heap.main.base ((i + 3) % 4) := by
      intro _ small
      rw [filled]
      exact initFreeList_apply heap memory small
    refine ⟨?_, ?_, ?_, ?_, ?_⟩
    · simp [Closed, nodes, nodesAfter, Circular.Joined, links, words]
    · simp [nodes, nodesAfter, headAt]
    · intro _ _ there
      cases (only _ _ there).2
    · intro _ _ _ isIn
      cases isIn
    · intro i small
      exact ⟨(words i small).1, (words i small).2.1⟩

theorem sound_of_initSubHeap {address : Nat} (bounds : UserRange address totalSize)
    (sizes : 0x10000 ≤ commitSize ∧ commitSize ≤ totalSize ∧ totalSize % 0x10000 = 0)
    (run : initSubHeap system (blankHeap memory address) address flags commitSize totalSize =
      some (heap, sub)) :
    ∃ arenas classes, Sound heap arenas classes ∧ Whole arenas ∧
      (∀ ptr extent, arenas ptr ≠ some ⟨.used, extent⟩) := by
  unfold initSubHeap at run
  simp only [blankHeap, ne_eq, not_true_eq_false, if_false, ite_none_right_eq_some,
    Option.some.injEq, Prod.mk.injEq] at run
  obtain ⟨-, created, made⟩ := run
  generalize committedEq : (if flags.shared = true then totalSize else commitSize) =
    committed at created
  have committedBounds : commitSize ≤ committed ∧ committed ≤ totalSize := by
    rw [← committedEq]
    split <;> omega
  rw [made] at created
  generalize startEq : Heap.setMemory _ _ = start at created
  have mainEq : start.main = sub := by rw [← startEq]; rfl
  have baseEq : sub.base = address := by rw [← made]
  have sizeEq : sub.size = totalSize := by rw [← made]
  have header : sub.headerSize = 140 := by rw [← made]
  have commitEq : start.commitSize sub.base = committed := by
    rw [← startEq]
    simp [Heap.setCommitSize]
  subst mainEq
  have filled : start.memory = (range 4).foldl (initFreeListEntry start) memory := by
    rw [← startEq]
    rfl
  have blank := Sound.blank header (by rw [baseEq, sizeEq]; exact bounds) (by omega)
    (by rw [← startEq]; rfl) (by omega) filled
  have onlyGap : ∀ other extent, update (fun _ => none) start.main.start
        (some ⟨.gap, start.main.size - 140⟩) other = some (⟨.gap, extent⟩ : Arena) →
      other = start.main.start := by
    intro _ _ isGap
    rcases update_eq_some_iff.mp isGap with ⟨same, -⟩ | ⟨-, isGap⟩
    · exact same
    · cases isGap
  obtain ⟨_, classes', creation, result, -⟩ :=
    blank.fillSub (by simp [Heap.subheaps]) (by rw [header]; exact update_self ..)
      onlyGap (by rw [commitEq, SubHeap.start]; omega)
  rw [sizeEq, header, created] at creation
  rw [update_idem] at result
  subst creation
  refine ⟨_, classes', result, ?_, ?_⟩ <;> intro ptr extent there <;>
    rcases update_eq_some_iff.mp there with ⟨-, differs⟩ | ⟨-, there⟩
  · cases differs
  · cases there
  · cases differs
  · cases there

/-- A new heap has one free arena and no blocks in use. -/
theorem sound_of_createHeap {addr : Option Nat} (given : ∀ address, addr = some address →
      UserRange address (roundSizes commitSize (if totalSize = 0 then 0x110000 else totalSize)).2)
    (reserved : ∀ size address, system.reserve size = some address → UserRange address size)
    (run : createHeap system memory flags addr totalSize commitSize = some heap) :
    ∃ arenas classes, Sound heap arenas classes ∧ Whole arenas ∧
      (∀ ptr extent, arenas ptr ≠ some ⟨.used, extent⟩) := by
  unfold createHeap createSubHeap at run
  simp only [map_eq_some_iff] at run
  obtain ⟨⟨_, _⟩, created, rfl⟩ := run
  split at created
  next address => exact sound_of_initSubHeap (given address rfl) (roundSizes_bounds _ _) created
  · obtain ⟨_, isReserved, initialised⟩ := bind_eq_some_iff.mp created
    exact sound_of_initSubHeap (reserved _ _ isReserved) (roundSizes_bounds _ _) initialised

end Winex.OldHeap
