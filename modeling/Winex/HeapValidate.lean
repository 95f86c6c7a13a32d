import Winex.HeapGrowth

namespace Winex.OldHeap

/-!
# Validation

The checks of `OldRtlValidateHeap` succeed on every heap with a sound layout without
gaps, and for each of its blocks in use.
-/

namespace Sound

variable {heap : Heap} {arenas : Arenas} {classes : Nat → List Nat}
variable {sub : SubHeap} {ptr extent : Nat}
variable (sound : Sound heap arenas classes)
include sound

protected theorem findSubHeap (subIn : sub ∈ heap.subheaps) (inSub : sub.Contains ptr) :
    findSubHeap heap ptr = some sub := by
  rcases found : findSubHeap heap ptr with _ | _
  · have missed := List.find?_eq_none.mp found sub subIn
    simp only [decide_eq_true_eq] at missed
    exact absurd inSub missed
  · obtain ⟨otherIn, inOther⟩ := of_findSubHeap found
    rw [sound.placed.sub_unique otherIn subIn inOther inSub]

variable {node : Nat}

/-- The nodes of the free list pass the pointer check. -/
protected theorem isValidArenaPtr (isNode : Node heap.main.base arenas node) :
    isValidArenaPtr heap node = true := by
  rcases isNode with ⟨i, small, rfl⟩ | ⟨_, here⟩
  · have header := sound.placed.mainHeader
    have bounds := sound.placed.bounded heap.main (by simp)
    have startEq : heap.main.start = heap.main.base + 140 := by rw [SubHeap.start, header]
    have inMain : heap.main.base ≤ headAt heap.main.base i ∧
        headAt heap.main.base i < heap.main.stop := by
      unfold headAt
      omega
    unfold isValidArenaPtr
    rw [sound.findSubHeap (by simp [Heap.subheaps]) inMain]
    have inList : (List.range 4).any (fun j => headAt heap.main.base i == heap.head j) :=
      List.any_eq_true.mpr ⟨i, List.mem_range.mpr small, by simp [headAt, Heap.head]⟩
    simp [inList]
  · obtain ⟨_, subIn, inSub⟩ := sound.placed.exists_sub here
    have above := (sound.placed.within subIn inSub here).1
    unfold isValidArenaPtr
    rw [sound.findSubHeap subIn inSub]
    simp [above]

theorem node_header (isNode : Node heap.main.base arenas node) :
    isFree (heap.memory node) = true ∧ heap.memory (node + 4) = freeMagic := by
  rcases isNode with ⟨i, small, rfl⟩ | ⟨extent, here⟩
  · obtain ⟨word, magic⟩ := sound.listed.heads i small
    rw [word]
    exact ⟨rfl, magic⟩
  obtain ⟨word, magic⟩ := sound.tagged.free node extent here
  have multiple := sound.placed.measure here
  rw [word]
  exact ⟨isFree_word (by omega), magic⟩

theorem free_next (here : Free arenas ptr extent) :
    ptr + 16 + sizeOf (heap.memory ptr) = ptr + extent := by
  obtain ⟨_, _⟩ := sound.placed.measure here
  rw [(sound.tagged.free ptr extent here).1, sizeOf_word (by omega)]
  omega

theorem used_next (here : Used arenas ptr extent) :
    ptr + 8 + sizeOf (heap.memory ptr) = ptr + extent := by
  have wide := sound.placed.measure here
  rw [(sound.tagged.used ptr extent here).1]
  omega

variable (whole : Whole arenas)
include whole

theorem next_flag {arena next : Arena} (here : arenas ptr = some arena)
    (there : arenas (ptr + arena.extent) = some next) :
    isPrevFree (heap.memory (ptr + arena.extent)) = decide (arena.kind = .free) := by
  obtain ⟨kind, extent⟩ := next
  have notGap : arena.kind ≠ .gap := by
    intro isGap
    exact whole ptr arena.extent (by rw [here, ← isGap])
  cases kind with
  | used => exact sound.tagged.flag ptr arena extent here notGap there
  | gap => exact absurd there (whole _ extent)
  | free =>
    -- free arenas are not adjacent, so the arena in front is in use
    have notFree : arena.kind ≠ .free := by
      intro isFree
      exact sound.tagged.separate ptr arena.extent extent (by rw [here, ← isFree]) there
    obtain ⟨_, _⟩ := sound.placed.measure there
    rw [(sound.tagged.free _ extent there).1]
    simp [notFree, isPrevFree]
    omega

protected theorem validateFreeArena (subIn : sub ∈ heap.subheaps) (inSub : sub.Contains ptr)
    (here : Free arenas ptr extent) : validateFreeArena heap sub ptr = true := by
  obtain ⟨⟨nextNode, -⟩, ⟨prevNode, -⟩⟩ := sound.neighbours here
  have below := (sound.placed.within subIn inSub here).2.1
  have behind : ptr + extent < sub.stop →
      isPrevFree (heap.memory (ptr + extent)) = true ∧ heap.memory (ptr + extent - 4) = ptr := by
    intro less
    obtain ⟨next, there⟩ := (sound.placed.next_iff subIn inSub here).mpr less
    exact ⟨sound.next_flag whole here there, sound.tagged.back ptr extent next here there⟩
  unfold validateFreeArena
  simp only [sound.free_next here, (sound.tagged.free ptr extent here).2,
    sound.isValidArenaPtr nextNode, sound.isValidArenaPtr prevNode,
    sound.node_header nextNode, sound.node_header prevNode]
  simp only [ne_eq, not_true_eq_false, if_false, Nat.not_lt.mpr below, Bool.not_true,
    Bool.false_eq_true, decide_false, Bool.or_false]
  split
  next less => simp [behind less]
  · rfl

protected theorem validateInUseArena (subIn : sub ∈ heap.subheaps) (inSub : sub.Contains ptr)
    (here : Used arenas ptr extent) : validateInUseArena heap sub ptr = true := by
  obtain ⟨-, notFree, magic⟩ := sound.tagged.used ptr extent here
  have below := (sound.placed.within subIn inSub here).2.1
  have behind : ptr + extent < sub.stop → isPrevFree (heap.memory (ptr + extent)) = false := by
    intro less
    obtain ⟨_, there⟩ := (sound.placed.next_iff subIn inSub here).mpr less
    exact sound.next_flag whole here there
  have notBehind : ¬(decide (ptr + extent < sub.stop) &&
      isPrevFree (heap.memory (ptr + extent))) = true := by
    simp only [Bool.and_eq_true, decide_eq_true_eq, not_and, Bool.not_eq_true]
    exact behind
  unfold validateInUseArena
  simp only [sound.used_next here, magic, notFree, ne_eq, not_true_eq_false, if_false,
    Bool.false_eq_true, Nat.not_lt.mpr below, if_neg notBehind]
  rcases sound.prev_cases whole here with
    ⟨flagged, other, extent', there, meet, back⟩ | ⟨notFlagged, -⟩
  · have isNode : Node heap.main.base arenas other := .inr ⟨extent', there⟩
    simp [flagged, back, sound.isValidArenaPtr isNode, sound.node_header isNode,
      sound.free_next there, meet]
  · simp [notFlagged]

protected theorem walkArenas (subIn : sub ∈ heap.subheaps) (fuel : Nat)
    (place : ptr = sub.stop ∨ (sub.Contains ptr) ∧ ∃ arena, arenas ptr = some arena)
    (enough : sub.stop < ptr + fuel) : walkArenas heap sub fuel ptr = true := by
  induction fuel generalizing ptr with
  | zero => omega
  | succ fuel ih =>
    unfold walkArenas
    rcases place with rfl | ⟨inSub, ⟨kind, extent⟩, here⟩
    · simp
    have wide := sound.placed.measure here
    obtain ⟨-, below, next⟩ := sound.placed.within subIn inSub here
    have rest : walkArenas heap sub fuel (ptr + extent) = true := by
      refine ih ?_ (by omega)
      rcases Nat.lt_or_eq_of_le below with less | same
      · exact .inr ⟨by omega, next less⟩
      · exact .inl same
    cases kind with
    | gap => exact absurd here (whole ptr extent)
    | free =>
      have isNode : Node heap.main.base arenas ptr := .inr ⟨extent, here⟩
      simp [(sound.node_header isNode).1, sound.free_next here, rest,
        sound.validateFreeArena whole subIn inSub here]
    | used =>
      simp [(sound.tagged.used ptr extent here).2.1, sound.used_next here, rest,
        sound.validateInUseArena whole subIn inSub here]

protected theorem validateHeap : validateHeap heap none = true := by
  refine List.all_eq_true.mpr ?_
  intro sub subIn
  have bounds := sound.placed.bounded sub subIn
  have startEq : sub.start = sub.base + sub.headerSize := rfl
  have stopEq : sub.stop = sub.base + sub.size := rfl
  refine sound.walkArenas whole subIn _ ?_ (by omega)
  exact .inr ⟨by omega, sound.placed.first sub subIn⟩

protected theorem isRealArena (here : Used arenas ptr extent) :
    isRealArena heap (some (ptr + 8)) = true := by
  obtain ⟨sub, subIn, inSub⟩ := sound.placed.exists_sub here
  obtain ⟨_, _, -⟩ := sound.placed.within subIn inSub here
  have wide := sound.placed.measure here
  unfold isRealArena
  simp only [sound.findSubHeap subIn (by omega : sub.Contains (ptr + 8))]
  rw [if_neg (by omega)]
  exact sound.validateInUseArena whole subIn inSub here

protected theorem sizeHeap (here : Used arenas ptr extent) :
    sizeHeap heap (ptr + 8) = some (extent - 8) := by
  unfold sizeHeap
  rw [sound.isRealArena whole here]
  simp [(sound.tagged.used ptr extent here).1]

end Sound

end Winex.OldHeap
