import Winex.HeapValidate

namespace Winex.OldHeap

open Function (update update_of_ne update_self)

/-!
# The calls of the interface

What allocating, reallocating and freeing a block does to the layout of the heap
and to the contents of the blocks in use.
-/

/-- The block at `ptr` is in use with the given extent, in the place of the block at `old`,
and all other blocks in use are kept with their contents. For a new block and for one that
stays where it is `old` is `ptr`. -/
structure Replaces (heap : Heap) (arenas : Arenas) (old : Nat) (heap' : Heap) (arenas' : Arenas)
    (ptr extent : Nat) : Prop where
  sound : ∃ classes, Sound heap' arenas' classes
  whole : Whole arenas'
  block : arenas' ptr = some ⟨.used, extent⟩
  taken : ∀ extent', arenas ptr = some ⟨.used, extent'⟩ → ptr = old
  others : ∀ other extent', other ≠ ptr →
    (arenas' other = some ⟨.used, extent'⟩ ↔ other ≠ old ∧ arenas other = some ⟨.used, extent'⟩)
  contents : ∀ other extent' word, other ≠ ptr → other ≠ old →
    arenas other = some ⟨.used, extent'⟩ → other + 8 ≤ word → word < other + extent' →
    heap'.memory word = heap.memory word
  flags : heap'.flags = heap.flags

variable {arenas arenas' : Arenas} {extent ptr size : Nat} {heap heap' : Heap}

/-- The block itself can be filled. -/
theorem Replaces.fill {old : Nat} (replaces : Replaces heap arenas old heap' arenas' ptr extent)
    {memory : Memory}
    (outside : ∀ word, word < ptr + 8 ∨ ptr + extent ≤ word → memory word = heap'.memory word) :
    Replaces heap arenas old (heap'.setMemory memory) arenas' ptr extent := by
  obtain ⟨classes, sound⟩ := replaces.sound
  refine { replaces with sound := ⟨classes, sound.congr ?_⟩, contents := ?_ }
  · intro word owned
    refine outside word ?_
    by_contra inside
    exact sound.placed.body_not_owned (.inl ⟨ptr, extent, replaces.block, by omega, by omega⟩) owned
  · intro other extent' word offBlock offOld here above below
    have there := (replaces.others other extent' offBlock).mpr ⟨offOld, here⟩
    have apart := sound.placed.extent_apart there replaces.block offBlock
    rw [Heap.setMemory_memory, outside word (by omega)]
    exact replaces.contents other extent' word offBlock offOld here above below

/-- The same replacement, seen from an earlier state with the same other blocks. -/
theorem Replaces.rebase {heap₁ : Heap} {arenas₁ : Arenas}
    (replaces : Replaces heap₁ arenas₁ ptr heap' arenas' ptr extent)
    (used : ∀ other extent', other ≠ ptr → (Used arenas₁ other extent' ↔ Used arenas other extent'))
    (same : ∀ other extent' word, other ≠ ptr → Used arenas₁ other extent' →
      other + 8 ≤ word → word < other + extent' → heap₁.memory word = heap.memory word)
    (flags : heap₁.flags = heap.flags) : Replaces heap arenas ptr heap' arenas' ptr extent := by
  refine ⟨replaces.sound, replaces.whole, replaces.block, fun _ _ => rfl, ?_, ?_,
    replaces.flags.trans flags⟩
  · intro other extent' off
    exact (replaces.others other extent' off).trans (and_congr_right fun _ => used _ _ off)
  · intro other extent' word off offOld isUsed above below
    have isUsed₁ := (used other extent' off).mpr isUsed
    rw [replaces.contents other extent' word off offOld isUsed₁ above below]
    exact same other extent' word off isUsed₁ above below

/-! ## Sizes -/

theorem blockSize_bounds (small : size ≤ 0xfffffffc) :
    (24 ≤ blockSize size ∧ blockSize size < 0x100000000) ∧ blockSize size % 4 = 0 ∧
      size ≤ blockSize size ∧ blockSize size ≤ max (size + 3) 24 := by
  unfold blockSize sizeOf
  rw [add32_eq (by omega)]
  omega

namespace Sound

variable {heap : Heap} {arenas : Arenas} {classes : Nat → List Nat}
variable {sub : SubHeap} {size ptr extent : Nat}
variable (sound : Sound heap arenas classes)
include sound

theorem takeBlock (whole : Whole arenas) {system : System} (fresh : system.Fresh heap)
    {heap' : Heap} (bounds : 24 ≤ size ∧ size < 0x100000000) (multiple : size % 4 = 0)
    (fits : heap.flags.growable = true → size ≤ 0xfffeffc8)
    (run : findFreeBlock system heap size = some (heap', sub, ptr)) :
    ∃ arenas' extent,
      Replaces heap arenas ptr (buildInUse heap' sub ptr size) arenas' ptr extent ∧
      size ≤ extent - 8 ∧ (∀ extent', arenas ptr ≠ some ⟨.used, extent'⟩) ∧
      ∀ other ∈ heap.subheaps, other ∈ (buildInUse heap' sub ptr size).subheaps := by
  obtain ⟨arenas₁, classes₁, extent, sound₁, whole₁, subIn, inSub, here, enough, committed,
      usedIff, frame, grown, flags⟩ :=
    sound.findFreeBlock whole fresh bounds fits run
  obtain ⟨⟨_, classes', built, result, frame'⟩, whole'⟩ :=
    sound₁.buildInUse whole₁ subIn inSub here ⟨by omega, multiple, enough⟩ committed
  have unused : ∀ extent', arenas ptr ≠ some ⟨.used, extent'⟩ := by
    intro _ isUsed
    cases here.symm.trans ((usedIff _ _).mpr isUsed)
  have usedOf : ∀ other extent', other ≠ ptr →
      (shrunk arenas₁ ptr extent size other = some ⟨.used, extent'⟩ ↔
        Used arenas other extent') := by
    intro _ _ off
    rw [sound₁.placed.shrunk_used here off, usedIff]
  rw [built]
  refine ⟨_, shrunkExtent extent size, ⟨⟨classes', result⟩, whole', shrunk_self ..,
    fun _ _ => rfl, ?_, ?_, flags⟩, ?_, unused, grown⟩
  · intro other extent' off
    rw [usedOf other extent' off]
    exact ⟨fun isUsed => ⟨off, isUsed⟩, And.right⟩
  · intro other extent' word off _ isUsed above below
    have isBody : Body (shrunk arenas₁ ptr extent size) word :=
      .inl ⟨other, extent', (usedOf other extent' off).mpr isUsed, above, below⟩
    have wasBody : Body arenas₁ word :=
      .inl ⟨other, extent', (usedIff other extent').mpr isUsed, above, below⟩
    rw [Heap.setMemory_memory, frame' word isBody, frame word wasBody]
  · have := (shrunkExtent_le ⟨enough, by omega⟩ : shrunkExtent extent size ≤ extent ∧ _)
    omega

theorem cutBlock (subIn : sub ∈ heap.subheaps) (inSub : sub.Contains ptr)
    (here : Gap arenas ptr extent)
    (onlyGap : ∀ other extent, Gap arenas other extent → other = ptr)
    (header : sizeOf (heap.memory ptr) = extent - 8 ∧ isFree (heap.memory ptr) = false ∧
      heap.memory (ptr + 4) = inUseMagic) (fits : FlagFits heap.subheaps heap.memory arenas ptr)
    (enough : 24 ≤ size ∧ size % 4 = 0 ∧ size ≤ extent - 8)
    (committed : min (ptr + size + 32) (ptr + extent) ≤ sub.base + heap.commitSize sub.base) :
    ∃ arenas' extent',
      Replaces heap arenas ptr (shrinkBlock heap sub ptr size) arenas' ptr extent' ∧
      (extent' ≤ extent ∧ size ≤ extent' - 8) ∧
      ∀ word, ptr + 8 ≤ word → word < ptr + extent' →
        (shrinkBlock heap sub ptr size).memory word = heap.memory word := by
  obtain ⟨_, classes', run, result, frame⟩ :=
    sound.shrinkBlock subIn inSub here onlyGap header fits (by omega) committed
  rw [run]
  refine ⟨_, shrunkExtent extent size, ⟨⟨classes', result⟩, shrunk_whole onlyGap,
    shrunk_self .., fun _ _ => rfl, ?_, ?_, rfl⟩, ?_, ?_⟩
  · intro _ _ off
    rw [sound.placed.shrunk_used here off]
    exact ⟨fun isUsed => ⟨off, isUsed⟩, And.right⟩
  · intro other extent' word off _ isUsed above below
    exact frame word
      (.inl ⟨other, extent', (sound.placed.shrunk_used here off).mpr isUsed, above, below⟩)
  · have := (shrunkExtent_le ⟨enough.2.2, by omega⟩ : shrunkExtent extent size ≤ extent ∧ _)
    omega
  · intro word above below
    exact frame word (.inl ⟨ptr, _, shrunk_self .., above, below⟩)

theorem flagFits_update (here : Used arenas ptr extent) (gap : Nat) :
    FlagFits heap.subheaps heap.memory (update arenas ptr (some ⟨.gap, gap⟩)) ptr := by
  obtain ⟨front, first⟩ := sound.tagged.flagFits here
  refine ⟨?_, first⟩
  intro other arena there meet notGap
  rcases update_eq_some_iff.mp there with ⟨-, rfl⟩ | ⟨-, there⟩
  · exact absurd rfl notGap
  · exact front other arena there meet notGap

theorem shrinkUsed (whole : Whole arenas) (subIn : sub ∈ heap.subheaps)
    (inSub : sub.Contains ptr) (here : Used arenas ptr extent)
    (enough : 24 ≤ size ∧ size % 4 = 0 ∧ size ≤ extent - 8) :
    ∃ arenas' extent',
      Replaces heap arenas ptr (shrinkBlock heap sub ptr size) arenas' ptr extent' ∧
      (extent' ≤ extent ∧ size ≤ extent' - 8) ∧
      ∀ word, ptr + 8 ≤ word → word < ptr + extent' →
        (shrinkBlock heap sub ptr size).memory word = heap.memory word := by
  have committed := sound.committed.used sub subIn ptr extent inSub.1 inSub.2 here
  obtain ⟨arenas', extent', replaces, bounds, kept⟩ :=
    (sound.forget here).cutBlock subIn inSub (update_self ..) whole.only
      (sound.tagged.used ptr extent here) (sound.flagFits_update here extent) enough
      (by omega)
  refine ⟨arenas', extent', replaces.rebase ?_ (fun _ _ _ _ _ _ _ => rfl) rfl, bounds, kept⟩
  intro _ _ off
  rw [Used, update_of_ne off]

end Sound

/-! ## Growing a block -/

/-- The arena behind a block is free, and the two together have the given size. -/
def Swallows (arenas : Arenas) (ptr extent size : Nat) : Prop :=
  ∃ next, arenas (ptr + extent) = some ⟨.free, next⟩ ∧ size ≤ extent - 8 + next

namespace Sound

variable {heap : Heap} {arenas : Arenas} {classes : Nat → List Nat}
variable {sub : SubHeap} {ptr extent size : Nat}
variable (sound : Sound heap arenas classes) (whole : Whole arenas) (subIn : sub ∈ heap.subheaps)
variable (inSub : sub.Contains ptr) (here : Used arenas ptr extent)
include sound whole subIn inSub here

/-- The test of the reallocation for a large enough free arena behind the block. -/
theorem swallows_iff :
    (ptr + 8 + sizeOf (heap.memory ptr) < sub.stop ∧
        isFree (heap.memory (ptr + 8 + sizeOf (heap.memory ptr))) = true ∧
        size ≤ add32 (add32 (sizeOf (heap.memory ptr))
          (sizeOf (heap.memory (ptr + 8 + sizeOf (heap.memory ptr))))) 16) ↔
      Swallows arenas ptr extent size := by
  rw [sound.used_next here, (sound.tagged.used ptr extent here).1]
  have sizes : ∀ next, Free arenas (ptr + extent) next →
      add32 (add32 (extent - 8) (sizeOf (heap.memory (ptr + extent)))) 16 = extent - 8 + next := by
    intro _ there
    have below := sound.placed.measure there
    have behind := sound.free_next there
    have inner : add32 (extent - 8) (sizeOf (heap.memory (ptr + extent))) =
        extent - 8 + sizeOf (heap.memory (ptr + extent)) := add32_eq (by omega)
    rw [add32_eq (by omega)]
    omega
  constructor
  · rintro ⟨less, isFree, enough⟩
    obtain ⟨⟨kind, next⟩, there⟩ := (sound.placed.next_iff subIn inSub here).mpr less
    cases kind with
    | gap => exact absurd there (whole _ next)
    | used =>
      rw [(sound.tagged.used _ next there).2.1] at isFree
      cases isFree
    | free =>
      rw [sizes next there] at enough
      exact ⟨next, there, enough⟩
  · rintro ⟨next, there, enough⟩
    refine ⟨(sound.placed.next_iff subIn inSub here).mp ⟨_, there⟩, ?_, ?_⟩
    · exact (sound.node_header (.inr ⟨next, there⟩)).1
    · rw [sizes next there]
      exact enough

omit subIn inSub in
/-- The free arena behind a block is taken out of the list, and the block becomes one
gap with it, under a header with the new size. -/
protected theorem swallowNext {next : Nat}
    (there : Free arenas (ptr + extent) next) :
    let memory := swallowNext heap.memory ptr (ptr + extent)
    ∃ layout classes', Sound (heap.setMemory memory) layout classes' ∧
      Gap layout ptr (extent + next) ∧
      (∀ other extent', Gap layout other extent' → other = ptr) ∧
      (∀ other extent', other ≠ ptr → (Used layout other extent' ↔ Used arenas other extent')) ∧
      (∀ other arena, other ≠ ptr → layout other = some arena → arenas other = some arena) ∧
      (sizeOf (memory ptr) = extent + next - 8 ∧ isFree (memory ptr) = false ∧
        isPrevFree (memory ptr) = isPrevFree (heap.memory ptr)) ∧
      ∀ word, Body arenas word ∨ word = ptr + 4 → memory word = heap.memory word := by
  have wide := sound.placed.measure here
  have nextWide := sound.placed.measure there
  obtain ⟨classes', unlinked, frame⟩ := sound.unlink there
  have here₁ : update arenas (ptr + extent) (some ⟨.gap, next⟩) ptr = some ⟨.used, extent⟩ := by
    rw [update_of_ne (by omega)]
    exact here
  have joined := (unlinked.forget here₁).join (update_self ..)
    (by rw [Gap, update_of_ne (by omega), update_self])
  generalize layoutEq : update (_ : Arenas) ptr (some ⟨.gap, extent + next⟩) = layout at joined
  have layoutAt : Gap layout ptr (extent + next) := by rw [← layoutEq, Gap, update_self]
  have layoutOf : ∀ other, other ≠ ptr →
      layout other = if other = ptr + extent then none else arenas other := by
    intro other off
    rw [← layoutEq, update_of_ne off]
    by_cases same : other = ptr + extent
    · simp [same]
    · simp [same, off]
  have kept : ∀ other arena, other ≠ ptr → layout other = some arena →
      arenas other = some arena := by
    intro other _ off found
    rw [layoutOf other off] at found
    split at found
    · cases found
    · exact found
  -- the words that are not pointers of other nodes survive
  have nextWord : unlink heap.memory (ptr + extent) (ptr + extent) =
      next - 16 + 1 := by
    rw [frame, (sound.tagged.free _ next there).1]
    intro link
    refine unlinked.placed.body_not_owned ?_ (.inr (.inl link))
    exact .inr ⟨ptr + extent, next, update_self .., le_rfl, by omega⟩
  have tagWord : ∀ word, word = ptr ∨ word = ptr + 4 →
      unlink heap.memory (ptr + extent) word = heap.memory word := by
    intro word _
    refine frame word ?_
    intro link
    exact unlinked.placed.link_not_tag link ⟨ptr, _, here₁, by simp, by omega⟩
  have bodyWord : ∀ word, Body arenas word →
      unlink heap.memory (ptr + extent) word = heap.memory word := by
    intro word body
    refine frame word ?_
    intro link
    refine unlinked.placed.body_not_owned (body.mono whole ?_) (.inr (.inl link))
    intro _ _ isUsed
    rw [Used, update_of_ne, isUsed]
    rintro rfl
    cases there.symm.trans isUsed
  obtain ⟨sizeWord, notFree, -⟩ := sound.tagged.used ptr extent here
  have header : swallowNext heap.memory ptr (ptr + extent) ptr =
      heap.memory ptr + next := by
    have small : heap.memory ptr < extent - 8 + 4 := by
      unfold sizeOf at sizeWord
      omega
    unfold swallowNext
    rw [Memory.write_same, tagWord ptr (.inl rfl), nextWord, sizeOf_word (by omega),
      add32_eq (by omega : next - 16 + 16 < 0x100000000), add32_eq (by omega)]
    omega
  have written := joined.write
    (.inr ⟨ptr, extent + next, layoutAt, le_rfl, by omega⟩)
    (add32 (unlink heap.memory (ptr + extent) ptr)
      (add32 (sizeOf (unlink heap.memory (ptr + extent) (ptr + extent))) 16))
  refine ⟨layout, classes', written, layoutAt, ?_, ?_, kept, ?_, ?_⟩
  · intro other extent' isGap
    by_contra off
    exact whole other extent' (kept other _ off isGap)
  · intro other _ off
    refine ⟨kept other _ off, ?_⟩
    intro isUsed
    rw [Used, layoutOf other off, if_neg, isUsed]
    rintro rfl
    cases there.symm.trans isUsed
  · rw [header]
    rw [isFree_eq_false_iff] at notFree ⊢
    unfold sizeOf isPrevFree at *
    refine ⟨by omega, by omega, ?_⟩
    congr 1
    omega
  · intro word place
    have off : word ≠ ptr := by
      rintro rfl
      rcases place with body | same
      · exact sound.placed.body_not_owned body (.inl ⟨word, _, here, by simp, .inl rfl⟩)
      · omega
    unfold swallowNext
    rw [Memory.write_other off]
    rcases place with body | same
    · exact bodyWord word body
    · exact tagWord word (.inr same)

variable {system : System}

theorem growInPlace {heap' : Heap}
    (bounds : 24 ≤ size ∧ size % 4 = 0 ∧ extent - 8 < size)
    (swallows : Swallows arenas ptr extent size) (committed : commit system
      (heap.setMemory (swallowNext heap.memory ptr (ptr + extent))) sub
      (ptr + 8 + size + 24) = some heap') :
    ∃ arenas' extent',
      Replaces heap arenas ptr (shrinkBlock heap' sub ptr size) arenas' ptr extent' ∧
      size ≤ extent' - 8 ∧
      ∀ offset < extent - 8, (shrinkBlock heap' sub ptr size).memory (ptr + 8 + offset) =
        heap.memory (ptr + 8 + offset) := by
  obtain ⟨_, there, _⟩ := swallows
  have wide := sound.placed.measure here
  obtain ⟨layout, _, sound₁, gap, onlyGap, used, kept, header, same⟩ :=
    sound.swallowNext whole here there
  have fits : FlagFits heap.subheaps
      (swallowNext heap.memory ptr (ptr + extent)) layout ptr := by
    obtain ⟨front, first⟩ := sound.tagged.flagFits here
    unfold FlagFits
    rw [header.2.2]
    refine ⟨?_, first⟩
    intro other arena found meet notGap
    refine front other arena (kept other arena ?_ found) meet notGap
    rintro rfl
    rw [gap] at found
    cases found
    exact notGap rfl
  obtain ⟨-, within, -⟩ := sound₁.placed.within subIn inSub gap
  obtain ⟨_, rfl, sound₂, _⟩ := sound₁.commit subIn (by omega) committed
  obtain ⟨arenas', extent', replaces, ⟨-, large⟩, kept'⟩ :=
    sound₂.cutBlock subIn inSub gap onlyGap
      ⟨header.1, header.2.1, (same (ptr + 4) (.inr rfl)).trans
        (sound.tagged.used ptr extent here).2.2⟩ fits
      ⟨bounds.1, bounds.2.1, by omega⟩ (by simp only; omega)
  refine ⟨arenas', extent', replaces.rebase used ?_ rfl, large, ?_⟩
  · intro other extent₁ word off isUsed above below
    exact same word (.inl (.inl ⟨other, extent₁, (used other extent₁ off).mp isUsed, above, below⟩))
  · intro _ _
    rw [kept' _ (by omega) (by omega)]
    exact same _ (.inl (.inl ⟨ptr, extent, here, by omega, by omega⟩))

theorem moveBlock (fresh : system.Fresh heap) {newSub : SubHeap} {heap₁ : Heap} {new : Nat}
    (bounds : 24 ≤ size ∧ size < 0x100000000) (multiple : size % 4 = 0) (grows : extent - 8 < size)
    (fits : heap.flags.growable = true → size ≤ 0xfffeffc8)
    (run : findFreeBlock system heap size = some (heap₁, newSub, new)) :
    let built := buildInUse heap₁ newSub new size
    let copied := built.setMemory (built.memory.copy (new + 8) (ptr + 8) (sizeOf (heap.memory ptr)))
    let heap' := makeInUseBlockFree system copied sub ptr
    ∃ arenas' extent', Replaces heap arenas ptr heap' arenas' new extent' ∧ size ≤ extent' - 8 ∧
      ∀ offset < extent - 8, heap'.memory (new + 8 + offset) = heap.memory (ptr + 8 + offset) := by
  obtain ⟨arenas₁, extent₁, replaces, large, unused, grown⟩ :=
    sound.takeBlock whole fresh bounds multiple fits run
  intro built copied _
  have differs : ptr ≠ new := by
    rintro rfl
    exact unused extent here
  have sizeWord := (sound.tagged.used ptr extent here).1
  have filled : Replaces heap arenas new copied arenas₁ new extent₁ := by
    refine replaces.fill ?_
    intro _ _
    unfold Memory.copy
    rw [if_neg]
    omega
  obtain ⟨_, sound₁⟩ := filled.sound
  have here₁ : Used arenas₁ ptr extent :=
    (filled.others ptr extent differs).mpr ⟨differs, here⟩
  obtain ⟨arenas', classes', sound', whole', used, frame, flags⟩ :=
    sound₁.makeInUseBlockFree filled.whole system (grown sub subIn) inSub here₁
  have block : Used arenas' new extent₁ :=
    (used new extent₁).mpr ⟨differs.symm, filled.block⟩
  refine ⟨arenas', extent₁, ⟨⟨classes', sound'⟩, whole', block,
    fun extent' isUsed => absurd isUsed (unused extent'), ?_, ?_,
    flags.trans filled.flags⟩, large, ?_⟩
  · intro other extent' off
    have := used other extent'
    have := filled.others other extent' off
    tauto
  · intro other extent' word off offOld isUsed above below
    have isUsed₁ := (filled.others other extent' off).mpr ⟨off, isUsed⟩
    rw [frame word (.inl ⟨other, extent', (used other extent').mpr ⟨offOld, isUsed₁⟩, above,
      below⟩)]
    exact filled.contents other extent' word off off isUsed above below
  · intro offset _
    rw [frame _ (.inl ⟨new, extent₁, block, by omega, by omega⟩)]
    have fromBuilt : copied.memory (new + 8 + offset) = built.memory (ptr + 8 + offset) := by
      simp only [copied, Heap.setMemory_memory, Memory.copy, sizeWord]
      rw [if_pos (by omega)]
      congr 1
      omega
    rw [fromBuilt]
    exact replaces.contents ptr extent _ differs differs here (by omega) (by omega)

end Sound

theorem commit_setMemory (system : System) (heap : Heap) (memory : Memory) (sub : SubHeap)
    (ptr : Nat) :
    commit system (heap.setMemory memory) sub ptr =
      (commit system heap sub ptr).map fun heap => heap.setMemory memory := by
  unfold commit
  simp only [Heap.setMemory_commitSize, apply_ite (Option.map _), Option.map_some, Option.map_none]
  rfl

/-- A block has to grow, the arena behind it is free and large enough, and the system does
not commit the memory needed there. -/
def CommitRefused (system : System) (heap : Heap) (arenas : Arenas) (ptr extent size : Nat) :
    Prop :=
  extent - 8 < size ∧ Swallows arenas ptr extent size ∧
    ∃ sub ∈ heap.subheaps, (sub.base ≤ ptr ∧ ptr < sub.stop) ∧
      commit system heap sub (ptr + 8 + size + 24) = none

namespace Sound

variable {heap : Heap} {arenas : Arenas} {classes : Nat → List Nat}

section Grow

variable {system : System} {flags : Flags} {sub : SubHeap} {ptr extent size : Nat}
variable (sound : Sound heap arenas classes) (whole : Whole arenas) (subIn : sub ∈ heap.subheaps)
variable (inSub : sub.Contains ptr) (here : Used arenas ptr extent)
include sound whole subIn inSub here

theorem growBlock_of_swallows (swallows : Swallows arenas ptr extent size) :
    growBlock system heap flags sub ptr size =
      match commit system heap sub (ptr + 8 + size + 24) with
      | none => (heap.setMemory (swallowNext heap.memory ptr (ptr + extent)), none)
      | some heap' =>
        (shrinkBlock
          (heap'.setMemory (swallowNext heap.memory ptr (ptr + extent))) sub ptr
          size, some ptr) := by
  have test := (sound.swallows_iff whole subIn inSub here).mpr swallows
  obtain ⟨_, there, _⟩ := swallows
  have below := sound.placed.measure there
  have inner : add32 (ptr + 8) size = ptr + 8 + size := add32_eq (by omega)
  have outer : add32 (ptr + 8 + size) 24 = ptr + 8 + size + 24 := add32_eq (by omega)
  unfold growBlock
  simp only [if_pos test]
  rw [sound.used_next here, inner, outer, commit_setMemory]
  cases commit system heap sub (ptr + 8 + size + 24) with
  | none | some heap' => rfl

theorem growBlock_of_not_swallows (stays : ¬Swallows arenas ptr extent size) :
    growBlock system heap flags sub ptr size =
      if flags.reallocInPlaceOnly then (heap, none)
      else
        match findFreeBlock system heap size with
        | none => (heap, none)
        | some (heap₁, newSub, new) =>
          let built := buildInUse heap₁ newSub new size
          (makeInUseBlockFree system
            (built.setMemory
              (built.memory.copy (new + 8) (ptr + 8) (sizeOf (heap.memory ptr)))) sub ptr,
            some new) := by
  have test := mt (sound.swallows_iff whole subIn inSub here).mp stays
  exact if_neg test

variable {heap' : Heap}

theorem growBlock_some (fresh : system.Fresh heap) {new : Nat}
    (bounds : 24 ≤ size ∧ size < 0x100000000) (multiple : size % 4 = 0) (grows : extent - 8 < size)
    (fits : heap.flags.growable = true → size ≤ 0xfffeffc8)
    (run : growBlock system heap flags sub ptr size = (heap', some new)) :
    ∃ arenas' extent', Replaces heap arenas ptr heap' arenas' new extent' ∧ size ≤ extent' - 8 ∧
      (flags.reallocInPlaceOnly = true → new = ptr) ∧
      ∀ offset < extent - 8, heap'.memory (new + 8 + offset) = heap.memory (ptr + 8 + offset) := by
  by_cases swallows : Swallows arenas ptr extent size
  · rw [sound.growBlock_of_swallows whole subIn inSub here swallows] at run
    split at run
    · cases run
    rename_i committed
    cases run
    obtain ⟨arenas', extent', replaces, large, kept⟩ :=
      sound.growInPlace whole subIn inSub here ⟨bounds.1, multiple, grows⟩ swallows
        (by rw [commit_setMemory, committed]; rfl)
    exact ⟨arenas', extent', replaces, large, fun _ => rfl, kept⟩
  · rw [sound.growBlock_of_not_swallows whole subIn inSub here swallows] at run
    split at run
    · cases run
    rename_i mayMove
    split at run
    · cases run
    rename_i found
    cases run
    obtain ⟨arenas', extent', replaces, large, kept⟩ :=
      sound.moveBlock whole subIn inSub here fresh bounds multiple grows fits found
    exact ⟨arenas', extent', replaces, large, fun inPlace => absurd inPlace mayMove, kept⟩

theorem growBlock_none (run : growBlock system heap flags sub ptr size = (heap', none)) :
    heap' = heap ↔ ¬Swallows arenas ptr extent size := by
  by_cases swallows : Swallows arenas ptr extent size
  · rw [sound.growBlock_of_swallows whole subIn inSub here swallows] at run
    simp only [swallows, not_true_eq_false, iff_false]
    obtain ⟨_, there, -⟩ := swallows
    have nextWide := sound.placed.measure there
    have sizeWord := (sound.tagged.used ptr extent here).1
    obtain ⟨-, -, -, -, -, -, -, grown, -⟩ := sound.swallowNext whole here there
    split at run
    · cases run
      intro same
      have sameWord := congrArg (fun heap : Heap => sizeOf (heap.memory ptr)) same
      simp only [Heap.setMemory_memory, grown.1, sizeWord] at sameWord
      omega
    · cases run
  · rw [sound.growBlock_of_not_swallows whole subIn inSub here swallows] at run
    simp only [swallows, not_false_eq_true, iff_true]
    split at run
    · cases run; rfl
    split at run
    · cases run; rfl
    · cases run

end Grow

end Sound

/-! ## Specifications of the calls -/

theorem noMemory_ne_block (flags : Flags) (ptr : Nat) : noMemory flags ≠ .block ptr := by
  unfold noMemory
  split <;> simp

theorem allocateHeap_unchanged {system : System} {flags : Flags} {reply : Reply}
    (run : allocateHeap system heap flags size = (heap', reply))
    (refused : ∀ ptr, reply ≠ .block ptr) : heap' = heap := by
  unfold allocateHeap at run
  simp only at run
  split at run
  · cases run; rfl
  cases run
  exact absurd rfl (refused _)

namespace Sound

variable {heap : Heap} {arenas : Arenas} {classes : Nat → List Nat}
variable {system : System} {heap' : Heap} {flags : Flags} {size ptr extent : Nat}
variable (sound : Sound heap arenas classes) (whole : Whole arenas)
include sound whole

/-- A new block is large enough, it is zero if that was asked for, and all other blocks
are kept. -/
protected theorem allocateHeap (fresh : system.Fresh heap) (small : size ≤ 0xfffffffc)
    (fits : heap.flags.growable = true → size ≤ 0xfffeffc8)
    (run : allocateHeap system heap flags size = (heap', .block ptr)) :
    ∃ arenas' header extent,
      ptr = header + 8 ∧ Replaces heap arenas header heap' arenas' header extent ∧
      size ≤ extent - 8 ∧ (∀ extent', arenas header ≠ some ⟨.used, extent'⟩) ∧
      ((flags.join heap.flags).zeroMemory = true →
        ∀ word, ptr ≤ word → word < header + extent → heap'.memory word = 0) := by
  obtain ⟨bounds, multiple, _, _⟩ := blockSize_bounds small
  have fitsBlock : heap.flags.growable = true → blockSize size ≤ 0xfffeffc8 := by
    intro growable
    have := fits growable
    omega
  unfold allocateHeap at run
  simp only at run
  split at run
  · exact absurd (congrArg Prod.snd run) (noMemory_ne_block _ ptr)
  rename_i arena found
  obtain ⟨arenas', extent, replaces, _, unused, -⟩ :=
    sound.takeBlock whole fresh bounds multiple fitsBlock found
  obtain ⟨_, sound'⟩ := replaces.sound
  simp only [Prod.mk.injEq, Reply.block.injEq, sound'.tagged.used arena extent replaces.block]
    at run
  obtain ⟨rfl, rfl⟩ := run
  split
  next zero =>
    refine ⟨arenas', arena, extent, rfl, replaces.fill ?_, by omega, unused, ?_⟩
    · intro _ _
      unfold Memory.clear
      rw [if_neg]
      omega
    · intro _ _ _ _
      dsimp [Memory.clear]
      rw [if_pos]
      omega
  next noZero =>
    exact ⟨arenas', arena, extent, rfl, replaces, by omega, unused,
      fun zero => absurd zero noZero⟩

/-- Freeing a block in use succeeds and takes it out of use. -/
protected theorem freeHeap (system : System) (here : Used arenas ptr extent) :
    ∃ heap' arenas' classes', freeHeap system heap (some (ptr + 8)) = (heap', true) ∧
      Sound heap' arenas' classes' ∧ Whole arenas' ∧
      (∀ other extent', Used arenas' other extent' ↔ other ≠ ptr ∧ Used arenas other extent') ∧
      (∀ word, Body arenas' word → heap'.memory word = heap.memory word) ∧
      heap'.flags = heap.flags := by
  obtain ⟨_, subIn, inSub⟩ := sound.placed.exists_sub here
  obtain ⟨arenas', classes', sound', whole', used, frame, flags⟩ :=
    sound.makeInUseBlockFree whole system subIn inSub here
  refine ⟨_, arenas', classes', ?_, sound', whole', used, frame, flags⟩
  unfold freeHeap
  simp [sound.isRealArena whole here, sound.findSubHeap subIn inSub]

theorem reAllocateHeap_eq (system : System) (flags : Flags) {sub : SubHeap}
    (subIn : sub ∈ heap.subheaps) (inSub : sub.Contains ptr)
    (here : Used arenas ptr extent) (size : Nat) :
    reAllocateHeap system heap flags (some (ptr + 8)) size =
      if extent - 8 < blockSize size then
        match growBlock system heap (flags.join heap.flags) sub ptr (blockSize size) with
        | (heap', none) => (heap', noMemory (flags.join heap.flags))
        | (heap', some arena) =>
          (if (flags.join heap.flags).zeroMemory then
            heap'.setMemory
              (heap'.memory.clear (arena + 8 + (extent - 8))
                (sub32 (sizeOf (heap'.memory arena)) (extent - 8)))
          else heap', .block (arena + 8))
      else (shrinkBlock heap sub ptr (blockSize size), .block (ptr + 8)) := by
  have held : sizeOf (heap.memory ptr) = extent - 8 := (sound.tagged.used ptr extent here).1
  have found := sound.findSubHeap subIn inSub
  have same : ptr + 8 - 8 = ptr := Nat.add_sub_cancel ptr 8
  unfold reAllocateHeap
  rw [← held]
  dsimp only
  rw [same, found]
  exact if_pos (sound.isRealArena whole here)

/-- A reallocated block is large enough, stays where it is if that was asked for, and keeps
its contents; what was added is zero if that was asked for, and all other blocks are kept.
-/
protected theorem reAllocateHeap (fresh : system.Fresh heap) {new : Nat}
    (here : Used arenas ptr extent) (small : size ≤ 0xfffffffc)
    (fits : heap.flags.growable = true → size ≤ 0xfffeffc8)
    (run : reAllocateHeap system heap flags (some (ptr + 8)) size = (heap', .block new)) :
    ∃ arenas' header extent',
      new = header + 8 ∧ Replaces heap arenas ptr heap' arenas' header extent' ∧
      size ≤ extent' - 8 ∧
      ((flags.join heap.flags).reallocInPlaceOnly = true → header = ptr) ∧
      (∀ offset, offset < extent - 8 → offset < extent' - 8 →
        heap'.memory (new + offset) = heap.memory (ptr + 8 + offset)) ∧
      ((flags.join heap.flags).zeroMemory = true →
        ∀ offset, extent - 8 ≤ offset → offset < extent' - 8 →
          heap'.memory (new + offset) = 0) := by
  obtain ⟨bounds, multiple, _, _⟩ := blockSize_bounds small
  obtain ⟨_, subIn, inSub⟩ := sound.placed.exists_sub here
  have fitsBlock : heap.flags.growable = true → blockSize size ≤ 0xfffeffc8 := by
    intro growable
    have := fits growable
    omega
  rw [sound.reAllocateHeap_eq whole system flags subIn inSub here] at run
  split at run
  next grows =>
    split at run
    · exact absurd (congrArg Prod.snd run) (noMemory_ne_block _ new)
    rename_i arena grown
    obtain ⟨arenas', extent', replaces, large, inPlace, kept⟩ :=
      sound.growBlock_some whole subIn inSub here fresh bounds multiple grows fitsBlock grown
    obtain ⟨_, sound'⟩ := replaces.sound
    have below := sound'.placed.measure replaces.block
    simp only [Prod.mk.injEq, Reply.block.injEq,
      sound'.tagged.used arena extent' replaces.block] at run
    obtain ⟨rfl, rfl⟩ := run
    rw [sub32_eq (by omega) (by omega)]
    split
    next zero =>
      refine ⟨arenas', arena, extent', rfl, replaces.fill ?_, by omega, inPlace, ?_, ?_⟩
      · intro _ _
        unfold Memory.clear
        rw [if_neg]
        omega
      · intro offset less _
        dsimp [Memory.clear]
        rw [if_neg (by omega)]
        exact kept offset less
      · intro _ _ _ _
        dsimp [Memory.clear]
        rw [if_pos (by omega)]
    next noZero =>
      exact ⟨arenas', arena, extent', rfl, replaces, by omega, inPlace,
        fun offset less _ => kept offset less, fun zero => absurd zero noZero⟩
  next shrinks =>
    cases run
    obtain ⟨arenas', extent', replaces, ⟨_, _⟩, kept⟩ :=
      sound.shrinkUsed whole subIn inSub here ⟨bounds.1, multiple, by omega⟩
    refine ⟨arenas', ptr, extent', rfl, replaces, by omega, fun _ => rfl, ?_, ?_⟩
    · intro _ _ _
      exact kept _ (by omega) (by omega)
    · intro _ _ _ _
      omega

/-- A reallocation that returns no block leaves the heap alone, unless memory for a block
that has swallowed the next arena could not be committed. -/
theorem reAllocateHeap_refused {reply : Reply} (here : Used arenas ptr extent)
    (run : reAllocateHeap system heap flags (some (ptr + 8)) size = (heap', reply)) :
    ((∀ new, reply ≠ .block new) → heap' = heap) ↔
      ¬CommitRefused system heap arenas ptr extent (blockSize size) := by
  obtain ⟨sub, subIn, inSub⟩ := sound.placed.exists_sub here
  have refusedIff : CommitRefused system heap arenas ptr extent (blockSize size) ↔
      extent - 8 < blockSize size ∧ Swallows arenas ptr extent (blockSize size) ∧
        commit system heap sub (ptr + 8 + blockSize size + 24) = none := by
    constructor
    · rintro ⟨grows, swallows, _, otherIn, inOther, refused⟩
      obtain rfl := sound.placed.sub_unique otherIn subIn inOther inSub
      exact ⟨grows, swallows, refused⟩
    · rintro ⟨grows, swallows, refused⟩
      exact ⟨grows, swallows, sub, subIn, inSub, refused⟩
  rw [refusedIff]
  rw [sound.reAllocateHeap_eq whole system flags subIn inSub here] at run
  split at run
  next grows =>
    rcases grown : growBlock system heap (flags.join heap.flags) sub ptr
      (blockSize size) with ⟨heap₁, _ | arena⟩
    · simp only [grown, Prod.mk.injEq] at run
      obtain ⟨rfl, rfl⟩ := run
      have unchanged := sound.growBlock_none whole subIn inSub here grown
      constructor
      · rintro same ⟨-, swallows, -⟩
        exact unchanged.mp (same (noMemory_ne_block _)) swallows
      · intro served _
        refine unchanged.mpr ?_
        intro swallows
        refine served ⟨grows, swallows, ?_⟩
        -- the only failure of a block that swallows the next arena is the commit
        rw [sound.growBlock_of_swallows whole subIn inSub here swallows] at grown
        split at grown
        next refused => exact refused
        · cases grown
    · simp only [grown, Prod.mk.injEq] at run
      obtain ⟨-, rfl⟩ := run
      refine iff_of_true (fun refused => absurd rfl (refused _)) ?_
      rintro ⟨-, swallows, refused⟩
      rw [sound.growBlock_of_swallows whole subIn inSub here swallows, refused] at grown
      cases grown
  next shrinks =>
    cases run
    refine iff_of_true (fun refused => absurd rfl (refused _)) ?_
    rintro ⟨grows, -⟩
    exact shrinks grows

end Sound

end Winex.OldHeap
