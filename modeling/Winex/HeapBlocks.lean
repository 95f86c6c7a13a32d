import Winex.HeapFreeList

namespace Winex.OldHeap

open Function (update update_eq_self update_idem update_of_ne update_self)

/-!
# Creating, shrinking and freeing blocks

One theorem for each of the internal functions that edit arenas.  The contents of all
blocks in use survive, and so do those of gaps, which is how a block that is being moved
or cut keeps its bytes.
-/

/-- The layout after a free block was created in a gap: a free arena behind it is
merged with it. -/
def released (arenas : Arenas) (ptr size : Nat) : Arenas :=
  match arenas (ptr + size) with
  | some ⟨.free, next⟩ => update (update arenas (ptr + size) none) ptr (some ⟨.free, size + next⟩)
  | _ => update arenas ptr (some ⟨.free, size⟩)

/-- The layout after a block of the given extent was cut to a new size: what remains
becomes a free arena if it is large enough for one. -/
def shrunk (arenas : Arenas) (ptr extent size : Nat) : Arenas :=
  if size + 24 ≤ extent - 8 then
    update
      (released (cutAt arenas ptr (8 + size) (extent - (8 + size))) (ptr + (8 + size))
        (extent - (8 + size)))
      ptr (some ⟨.used, 8 + size⟩)
  else update arenas ptr (some ⟨.used, extent⟩)

/-- The two layouts `released` can make. -/
theorem released_cases (arenas : Arenas) (ptr size : Nat) :
    (∃ next, Free arenas (ptr + size) next ∧
      released arenas ptr size =
        update (update arenas (ptr + size) none) ptr (some ⟨.free, size + next⟩)) ∨
    ((∀ next, arenas (ptr + size) ≠ some ⟨.free, next⟩) ∧
      released arenas ptr size = update arenas ptr (some ⟨.free, size⟩)) := by
  unfold released
  split
  next next there => exact .inl ⟨next, there, rfl⟩
  next notFree => exact .inr ⟨fun next there => notFree next there, rfl⟩

variable {arenas : Arenas} {ptr size other : Nat}

/-- What `released` leaves alone. -/
theorem released_of_lt (less : other < ptr) : released arenas ptr size other = arenas other := by
  rcases released_cases arenas ptr size with ⟨_, -, shape⟩ | ⟨-, shape⟩
  · rw [shape, update_of_ne (by omega), update_of_ne (by omega)]
  · rw [shape, update_of_ne (by omega)]

/-- The arena that `released` makes. -/
theorem released_self (arenas : Arenas) (ptr size : Nat) :
    ∃ extent, released arenas ptr size ptr = some ⟨.free, extent⟩ := by
  rcases released_cases arenas ptr size with ⟨_, -, shape⟩ | ⟨-, shape⟩ <;>
    exact ⟨_, by rw [shape, update_self]⟩

theorem released_other {arena : Arena} (off : other ≠ ptr)
    (found : released arenas ptr size other = some arena) : arenas other = some arena := by
  rcases released_cases arenas ptr size with ⟨_, -, shape⟩ | ⟨-, shape⟩
  · rw [shape, update_of_ne off] at found
    by_cases atNext : other = ptr + size
    · simp [atNext] at found
    · rwa [update_of_ne atNext] at found
  · rwa [shape, update_of_ne off] at found

theorem released_used {gap extent : Nat} (here : Gap arenas ptr gap) :
    released arenas ptr size other = some ⟨.used, extent⟩ ↔ Used arenas other extent := by
  constructor
  · intro found
    refine released_other ?_ found
    rintro rfl
    obtain ⟨_, isFree⟩ := released_self arenas other size
    simp [isFree] at found
  · intro found
    have off : other ≠ ptr := by
      rintro rfl
      cases here.symm.trans found
    rcases released_cases arenas ptr size with ⟨_, there, shape⟩ | ⟨-, shape⟩
    · rw [shape, update_of_ne off, update_of_ne]
      · exact found
      · rintro rfl
        cases there.symm.trans found
    · rw [shape, update_of_ne off]
      exact found

namespace Sound

variable {heap : Heap} {arenas : Arenas} {classes : Nat → List Nat} {sub : SubHeap} {ptr size : Nat}
variable (sound : Sound heap arenas classes) (subIn : sub ∈ heap.subheaps)
variable (inSub : sub.Contains ptr)
include sound subIn inSub

protected theorem insertFreeBlock (here : Gap arenas ptr size)
    (magic : heap.memory (ptr + 4) = freeMagic)
    (prevUsed : ∀ other extent, Free arenas other extent → other + extent ≠ ptr)
    (nextUsed : ∀ next, arenas (ptr + size) = some next → next.kind = .used)
    (committed : ptr + 16 ≤ sub.base + heap.commitSize sub.base) :
    Yields heap
      (insertFreeBlock (heap.setMemory (tagNext sub heap.memory ptr size)) ptr size)
      (update arenas ptr (some ⟨.free, size⟩)) := by
  have placed := sound.placed
  have enough := placed.measure here
  have nextIff := placed.next_iff subIn inSub here
  have inGap : ∀ word, ptr ≤ word → word < ptr + size → Body arenas word :=
    fun word lower upper => .inr ⟨ptr, size, here, lower, upper⟩
  -- the flag and the back pointer of the next arena
  obtain ⟨tagSound, tagFrame, tagBack, tagFlag⟩ :
      Sound (heap.setMemory (tagNext sub heap.memory ptr size)) arenas classes ∧
      (∀ word, (∀ next, arenas (ptr + size) = some next → word ≠ ptr + size) →
        word < ptr + size - 4 ∨ ptr + size ≤ word →
        tagNext sub heap.memory ptr size word = heap.memory word) ∧
      (∀ next, arenas (ptr + size) = some next →
        tagNext sub heap.memory ptr size (ptr + size - 4) = ptr) ∧
      (∀ extent, Used arenas (ptr + size) extent →
        isPrevFree (tagNext sub heap.memory ptr size (ptr + size)) = true) := by
    unfold tagNext
    split
    next more =>
      obtain ⟨next, there⟩ := nextIff.mpr more
      obtain ⟨kind, extent⟩ := next
      obtain rfl : kind = .used := nextUsed _ there
      refine ⟨?_, ?_, ?_, ?_⟩
      · exact (sound.reflag here there (by simp) (by simp)).write
          (inGap (ptr + size - 4) (by omega) (by omega)) ptr
      · intro _ off _
        rw [Memory.write_other (by omega), Memory.write_other (off _ there)]
      · intro _ _
        simp
      · intro _ _
        rw [Memory.write_other (by omega)]
        simp
    next less =>
      refine ⟨sound, fun _ _ _ => rfl, ?_, ?_⟩
      · intro next there
        exact absurd (nextIff.mp ⟨next, there⟩) less
      · intro _ there
        exact absurd (nextIff.mp ⟨_, there⟩) less
  -- the size of the block
  have sized := tagSound.write (inGap ptr (by omega) (by omega)) (sub32 size 16)
  have sizeIs : sub32 size 16 = size - 16 := sub32_eq (by omega) (by omega)
  have ready : Ready
      (heap.setMemory ((tagNext sub heap.memory ptr size).write ptr (sub32 size 16)))
      arenas ptr size :=
    { here := here
      size := by rw [← sizeIs]; exact Memory.write_same ..
      magic := by
        dsimp
        rw [Memory.write_other (by omega), tagFrame _ (fun _ _ => by omega) (by omega)]
        exact magic
      back := by
        intro next there
        dsimp
        rw [Memory.write_other (by omega)]
        exact tagBack next there
      flag := by
        intro extent there
        dsimp
        rw [Memory.write_other (by omega)]
        exact tagFlag extent there
      nextUsed := by
        intro _ there
        exact absurd (nextUsed _ there) (by simp)
      prevUsed := prevUsed
      committed := placed.forall_sub subIn inSub committed }
  obtain ⟨memory, classes', run, result, frame⟩ :
      Frees (heap.setMemory ((tagNext sub heap.memory ptr size).write ptr (sub32 size 16)))
        (insertFreeBlock (heap.setMemory (tagNext sub heap.memory ptr size)) ptr size)
        arenas ptr size := by
    unfold insertFreeBlock
    simp only
    split
    · exact sized.insertAtEnd ready
    · exact sized.insertAtFront ready
  dsimp at frame
  refine ⟨memory, classes', run, result, fun word body => ?_⟩
  have notOwned := result.placed.body_not_owned body
  have outside := result.placed.body_apart body (update_self ..)
  have notNext : ∀ next, arenas (ptr + size) = some next → word ≠ ptr + size := by
    rintro ⟨kind, extent⟩ there rfl
    obtain rfl : kind = .used := nextUsed _ there
    refine notOwned (.inl ⟨ptr + size, ⟨.used, extent⟩, ?_, by simp, .inl rfl⟩)
    rw [update_of_ne (by omega)]
    exact there
  have notLink := result.placed.body_not_link body fun _ _ => update_kept here (by simp)
  rw [frame word notLink outside, Memory.write_other (by omega), tagFrame word notNext (by omega)]

/-- `HEAP_CreateFreeBlock` turns a gap behind which there are no other gaps into a
free arena. -/
protected theorem createFreeBlock (here : Gap arenas ptr size)
    (noGaps : ∀ other extent, Gap arenas other extent → other ≤ ptr)
    (prevUsed : ∀ other extent, Free arenas other extent → other + extent ≠ ptr)
    (committed : ptr + 16 ≤ sub.base + heap.commitSize sub.base) :
    Yields heap (createFreeBlock heap sub ptr size) (released arenas ptr size) := by
  have placed := sound.placed
  have enough := placed.measure here
  have nextIff := placed.next_iff subIn inSub here
  have marked := sound.write (.inr ⟨ptr, size, here, by omega, by omega⟩ :
    Body arenas (ptr + 4)) freeMagic
  have nextWord : (heap.memory.write (ptr + 4) freeMagic) (ptr + size) =
      heap.memory (ptr + size) := Memory.write_other (by omega)
  unfold createFreeBlock mergeNext
  simp only [nextWord]
  rcases released_cases arenas ptr size with ⟨extent, there, shape⟩ | ⟨notFree, shape⟩
  · -- the next arena is removed from the free list, and the two gaps are joined
    rw [shape]
    have more : ptr + size < sub.stop := nextIff.mp ⟨_, there⟩
    have enough' := placed.measure there
    obtain ⟨word, -⟩ := sound.tagged.free _ _ there
    have isFreeWord : isFree (heap.memory (ptr + size)) = true := by
      rw [word]
      exact isFree_word (by omega)
    rw [if_pos ⟨more, isFreeWord⟩]
    obtain ⟨_, unlinked, frame⟩ := marked.unlink there
    dsimp at unlinked frame
    have here₁ : update arenas (ptr + size) (some ⟨.gap, extent⟩) ptr = some ⟨.gap, size⟩ := by
      rw [update_of_ne (by omega)]
      exact here
    have gapFrame : ∀ word, ptr ≤ word → word < ptr + size + extent →
        unlink (heap.memory.write (ptr + 4) freeMagic) (ptr + size) word =
          heap.memory.write (ptr + 4) freeMagic word := by
      intro word lower upper
      refine frame word fun link => unlinked.placed.body_not_owned ?_ (.inr (.inl link))
      by_cases first : word < ptr + size
      · exact .inr ⟨ptr, size, here₁, lower, first⟩
      · exact .inr ⟨ptr + size, extent, update_self .., by omega, upper⟩
    have joined := unlinked.join here₁ (update_self ..)
    rw [update_idem] at joined
    have sizeIs : add32 size (add32 (sizeOf (unlink (heap.memory.write (ptr + 4) freeMagic)
        (ptr + size) (ptr + size))) 16) = size + extent := by
      rw [gapFrame _ (by omega) (by omega), nextWord, word, sizeOf_word (by omega),
        add32_eq (by omega : extent - 16 + 16 < 0x100000000), add32_eq (by omega)]
      omega
    rw [sizeIs]
    -- the arenas of the joined layout
    have was : ∀ other arena, other ≠ ptr →
        update (update arenas (ptr + size) none) ptr
          (some ⟨.gap, size + extent⟩) other = some arena → arenas other = some arena := by
      intro other _ off found
      rw [update_of_ne off] at found
      by_cases atNext : other = ptr + size
      · simp [atNext] at found
      · rwa [update_of_ne atNext] at found
    have magic : unlink (heap.memory.write (ptr + 4) freeMagic) (ptr + size) (ptr + 4) =
        freeMagic := by rw [gapFrame _ (by omega) (by omega), Memory.write_same]
    obtain ⟨memory, classes', run, result, frame'⟩ :=
      joined.insertFreeBlock subIn inSub (update_self ..) magic
        (by
          intro other extent' found
          have off : other ≠ ptr := by
            rintro rfl
            simp [Free] at found
          exact prevUsed other extent' (was _ _ off found))
        (by
          rintro ⟨kind, extent'⟩ found
          have found := was _ _ (by omega) found
          rw [← Nat.add_assoc] at found
          cases kind with
          | used => rfl
          | free => exact absurd found (sound.tagged.separate _ _ _ there)
          | gap =>
            have := noGaps _ _ found
            omega)
        committed
    simp only [Heap.setMemory_memory, Heap.setMemory_setMemory, update_idem] at run result frame'
    refine ⟨memory, classes', run, result, fun word body => ?_⟩
    have outside := result.placed.body_apart body (update_self ..)
    rw [frame' word body, frame word, Memory.write_other (by omega)]
    refine result.placed.body_not_link body fun other extent' found => ?_
    obtain ⟨off, wasFree⟩ := of_update_other (by simp) found
    rw [Free, update_of_ne, update_of_ne off]
    · exact wasFree
    · rintro rfl
      simp [here] at wasFree
  · rw [shape]
    have nextUsed : ∀ next, arenas (ptr + size) = some next → next.kind = .used := by
      rintro ⟨kind, extent⟩ there
      cases kind with
      | used => rfl
      | free => exact absurd there (notFree extent)
      | gap =>
        have := noGaps _ _ there
        omega
    have noMerge : ¬(ptr + size < sub.stop ∧ isFree (heap.memory (ptr + size)) = true) := by
      rintro ⟨more, wrong⟩
      obtain ⟨⟨kind, _⟩, there⟩ := nextIff.mpr more
      obtain rfl : kind = .used := nextUsed _ there
      rw [(sound.tagged.used _ _ there).2.1] at wrong
      simp at wrong
    rw [if_neg noMerge]
    obtain ⟨memory, classes', run, result, frame⟩ :=
      marked.insertFreeBlock subIn inSub here (Memory.write_same ..) prevUsed nextUsed committed
    dsimp at run result frame
    refine ⟨memory, classes', run, result, fun word body => ?_⟩
    rw [frame word body, Memory.write_other]
    have := result.placed.body_apart body (update_self ..)
    omega

/-- `HEAP_ShrinkBlock` turns a gap with the header of a block into a block of the
given size. -/
protected theorem shrinkBlock {extent : Nat} (here : Gap arenas ptr extent)
    (onlyGap : ∀ other extent, Gap arenas other extent → other = ptr)
    (header : sizeOf (heap.memory ptr) = extent - 8 ∧ isFree (heap.memory ptr) = false ∧
      heap.memory (ptr + 4) = inUseMagic) (fits : FlagFits heap.subheaps heap.memory arenas ptr)
    (enough : 16 ≤ size ∧ size % 4 = 0 ∧ size ≤ extent - 8)
    (committed : min (ptr + size + 32) (ptr + extent) ≤ sub.base + heap.commitSize sub.base) :
    Yields heap (shrinkBlock heap sub ptr size) (shrunk arenas ptr extent size) := by
  have placed := sound.placed
  have extents := placed.measure here
  have within := placed.within subIn inSub here
  have nextIff := placed.next_iff subIn inSub here
  unfold shrinkBlock
  simp only [header.1]
  rw [add32_eq (by omega)]
  by_cases cut : size + 24 ≤ extent - 8
  · -- the rest of the gap becomes a free arena
    have shape : shrunk arenas ptr extent size = _ := if_pos cut
    rw [shape]
    have whole : Gap arenas ptr (8 + size + (extent - (8 + size))) := by
      rw [Gap, here]
      congr 2
      omega
    have parts := sound.split whole (by omega) (by omega)
    have atFirst := cutAt_first (by omega : 0 < 8 + size) arenas ptr (extent - (8 + size))
    have atSecond := cutAt_second arenas ptr (8 + size) (extent - (8 + size))
    have cases_ := cutAt_cases arenas ptr (8 + size) (extent - (8 + size))
    generalize cutAt arenas ptr (8 + size) (extent - (8 + size)) = halves
      at parts atFirst atSecond cases_
    have noGaps : ∀ other extent', halves other = some ⟨.gap, extent'⟩ →
        other ≤ ptr + (8 + size) := by
      intro _ _ found
      rcases cases_ _ _ found with ⟨rfl, -⟩ | ⟨rfl, -⟩ | ⟨-, found⟩
      · omega
      · exact Nat.le_refl _
      · have := onlyGap _ _ found
        omega
    have prevUsed : ∀ other extent', halves other = some ⟨.free, extent'⟩ →
        other + extent' ≠ ptr + (8 + size) := by
      intro _ _ found meet
      obtain rfl := parts.placed.prev_unique found atFirst meet
      simp [atFirst] at found
    obtain ⟨memory, _, run, result, frame⟩ :=
      parts.createFreeBlock subIn (by omega) atSecond noGaps prevUsed (by omega)
    have target : add32 (ptr + 8) size = ptr + (8 + size) := by
      rw [add32_eq (by omega)]
      omega
    have rest : sub32 (extent - 8) size = extent - (8 + size) := by
      rw [sub32_eq (by omega) (by omega)]
      omega
    rw [if_pos cut, target, rest, run]
    -- the first part is still a gap, with the header it had
    have isGap : released halves (ptr + (8 + size)) (extent - (8 + size)) ptr =
        some ⟨.gap, 8 + size⟩ := by
      rw [released_of_lt (by omega)]
      exact atFirst
    obtain ⟨_, isNext⟩ := released_self halves (ptr + (8 + size)) (extent - (8 + size))
    have before : ∀ other, other < ptr →
        released halves (ptr + (8 + size)) (extent - (8 + size)) other = halves other :=
      fun other less => released_of_lt (by omega)
    generalize released halves (ptr + (8 + size)) (extent - (8 + size)) = layout
      at result frame isGap isNext before ⊢
    have inGap : ∀ word, ptr ≤ word → word < ptr + (8 + size) → Body layout word :=
      fun word lower upper => .inr ⟨ptr, 8 + size, isGap, lower, upper⟩
    have atPtr := frame ptr (inGap ptr (by omega) (by omega))
    have atMagic := frame (ptr + 4) (inGap (ptr + 4) (by omega) (by omega))
    obtain ⟨sizeIs, freeIs, prevIs⟩ := or_flagsOf enough.2.1 (heap.memory ptr)
    dsimp
    rw [atPtr]
    have written := result.write (inGap ptr (by omega) (by omega))
      (size ||| flagsOf (heap.memory ptr))
    have fits' : FlagFits heap.subheaps
        (memory.write ptr (size ||| flagsOf (heap.memory ptr))) layout ptr := by
      unfold FlagFits
      rw [Memory.write_same, prevIs]
      refine ⟨fun other arena found meet notGap => ?_, fits.2⟩
      have positive := result.placed.measure found
      rw [before other (by omega)] at found
      rcases cases_ _ _ found with ⟨rfl, rfl⟩ | ⟨rfl, rfl⟩ | ⟨-, found⟩
      · exact absurd rfl notGap
      · exact absurd rfl notGap
      · exact fits.1 other arena found meet notGap
    have final := written.occupy isGap
      ⟨by dsimp; rw [Memory.write_same, sizeIs]; omega,
        by dsimp; rw [Memory.write_same, freeIs]; exact header.2.1,
        by
          dsimp
          rw [Memory.write_other (by omega), atMagic]
          exact header.2.2⟩
      fits' (fun extent' found => by cases isNext.symm.trans found)
      (placed.forall_sub subIn inSub (by dsimp; omega))
    refine ⟨_, _, rfl, final, fun word body => ?_⟩
    obtain ⟨inLayout, off⟩ := written.body_of_occupy isGap body
    rw [Memory.write_other off, frame word inLayout]
  · rw [if_neg cut]
    have shape : shrunk arenas ptr extent size =
        update arenas ptr (some ⟨.used, extent⟩) := if_neg cut
    rw [shape]
    have nextIs : ptr + 8 + (extent - 8) = ptr + extent := by omega
    rw [nextIs]
    -- the `PREV_FREE` flag of the next arena is cleared if that is in use
    obtain ⟨memory, run, cleared, frame, flag⟩ : ∃ memory, (if ptr + extent < sub.stop then
          heap.setMemory (heap.memory.write (ptr + extent)
            (clearPrevFree (heap.memory (ptr + extent))))
          else heap) = heap.setMemory memory ∧
        Sound (heap.setMemory memory) arenas classes ∧
        (∀ word, (∀ size, Used arenas (ptr + extent) size →
          word ≠ ptr + extent) → memory word = heap.memory word) ∧
        ∀ size, Used arenas (ptr + extent) size →
          isPrevFree (memory (ptr + extent)) = false := by
      split
      next more =>
        obtain ⟨⟨kind, size'⟩, there⟩ := nextIff.mpr more
        cases kind with
        | used =>
          refine ⟨_, rfl, sound.reflag here there (by simp) (by simp), ?_, ?_⟩
          · intro _ off
            exact Memory.write_other (off size' there)
          · intro _ _
            simp
        | free =>
          have multiple := placed.measure there
          obtain ⟨word, -⟩ := sound.tagged.free _ _ there
          have same : heap.memory.write (ptr + extent)
              (clearPrevFree (heap.memory (ptr + extent))) = heap.memory := by
            rw [word, clearPrevFree_word (by omega), ← word]
            exact update_eq_self ..
          rw [same]
          exact ⟨heap.memory, rfl, sound, fun _ _ => rfl,
            fun _ wrong => by cases there.symm.trans wrong⟩
        | gap =>
          have := onlyGap _ _ there
          omega
      next less =>
        refine ⟨heap.memory, rfl, sound, fun _ _ => rfl, fun size' there => ?_⟩
        exact absurd (nextIff.mp ⟨_, there⟩) less
    rw [run]
    have atPtr := frame ptr fun _ _ => by omega
    have atMagic : memory (ptr + 4) = heap.memory (ptr + 4) := frame _ fun _ _ => by omega
    unfold FlagFits at fits
    rw [← atPtr] at header fits
    rw [← atMagic] at header
    have final := cleared.occupy here header fits flag
      (placed.forall_sub subIn inSub (by dsimp; omega))
    refine ⟨memory, classes, rfl, final, fun word body => frame word fun size' there => ?_⟩
    rintro rfl
    refine final.placed.body_not_owned body
      (.inl ⟨ptr + extent, ⟨.used, size'⟩, ?_, by simp, .inl rfl⟩)
    rw [update_of_ne (by omega)]
    exact there

end Sound

end Winex.OldHeap
