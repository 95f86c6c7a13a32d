import Winex.HeapBlocks

namespace Winex.OldHeap

open List
open Function (update update_comm update_idem update_of_ne update_self)

/-!
# Committing memory, taking blocks into use and giving them back

The theorems here start and end with layouts without gaps, and say which blocks are in
use afterwards and that their contents are kept.
-/

/-- A layout without gaps. -/
def Whole (arenas : Arenas) : Prop :=
  ∀ ptr extent, arenas ptr ≠ some ⟨.gap, extent⟩

theorem Whole.only {arenas : Arenas} {ptr extent : Nat} (whole : Whole arenas) (other extent' : Nat)
    (isGap : update arenas ptr (some ⟨.gap, extent⟩) other = some ⟨.gap, extent'⟩) :
    other = ptr := by
  rcases update_eq_some_iff.mp isGap with ⟨same, -⟩ | ⟨-, isGap⟩
  · exact same
  · exact absurd isGap (whole other extent')

theorem Body.mono {arenas arenas' : Arenas} {word : Nat} (whole : Whole arenas)
    (used : ∀ ptr extent, Used arenas ptr extent → Used arenas' ptr extent)
    (body : Body arenas word) : Body arenas' word := by
  rcases body with ⟨ptr, extent, here, inside⟩ | ⟨ptr, extent, here, -⟩
  · exact .inl ⟨ptr, extent, used ptr extent here, inside⟩
  · exact absurd here (whole ptr extent)

/-! ## Layouts of shrunk blocks -/

theorem shrunk_update (arenas : Arenas) (ptr extent size : Nat) (arena : Option Arena) :
    shrunk (update arenas ptr arena) ptr extent size = shrunk arenas ptr extent size := by
  unfold shrunk cutAt
  simp

/-- The extent of the block that `shrunk` leaves. -/
def shrunkExtent (extent size : Nat) : Nat :=
  if size + 24 ≤ extent - 8 then 8 + size else extent

theorem shrunk_self (arenas : Arenas) (ptr extent size : Nat) :
    shrunk arenas ptr extent size ptr = some ⟨.used, shrunkExtent extent size⟩ := by
  unfold shrunk shrunkExtent
  split <;> exact update_self ..

section Shrunk

variable {main : SubHeap} {others : List SubHeap} {arenas : Arenas}
  {ptr extent size : Nat} {kind : Kind}

/-- The other blocks in use are untouched when a block is cut. -/
theorem Placed.shrunk_used (placed : Placed main others arenas)
    (here : arenas ptr = some ⟨kind, extent⟩) {other extent' : Nat} (off : other ≠ ptr) :
    shrunk arenas ptr extent size other = some ⟨.used, extent'⟩ ↔ Used arenas other extent' := by
  unfold shrunk
  split
  next cut =>
    rw [update_of_ne off, released_used (cutAt_second ..)]
    constructor
    · intro found
      rcases cutAt_cases _ _ _ _ _ _ found with ⟨-, wrong⟩ | ⟨-, wrong⟩ | ⟨-, found⟩
      · simp at wrong
      · simp at wrong
      · exact found
    · intro found
      have := placed.extent_apart found here off
      unfold cutAt Used
      rw [update_of_ne (by omega), update_of_ne off]
      exact found
  · rw [update_of_ne off]

theorem shrunk_whole (onlyGap : ∀ other extent, Gap arenas other extent → other = ptr) :
    Whole (shrunk arenas ptr extent size) := by
  intro other _ found
  by_cases off : other = ptr
  · subst off
    simp [shrunk_self] at found
  unfold shrunk at found
  split at found
  next cut =>
    rw [update_of_ne off] at found
    have apart : other ≠ ptr + (8 + size) := by
      rintro rfl
      obtain ⟨_, isFree⟩ := released_self (cutAt arenas ptr (8 + size)
        (extent - (8 + size))) (ptr + (8 + size)) (extent - (8 + size))
      simp [isFree] at found
    rcases cutAt_cases _ _ _ _ _ _ (released_other apart found) with
      ⟨same, -⟩ | ⟨same, -⟩ | ⟨-, found⟩
    · exact off same
    · exact apart same
    · exact off (onlyGap _ _ found)
  · rw [update_of_ne off] at found
    exact off (onlyGap _ _ found)

theorem shrunkExtent_le (enough : size ≤ extent - 8 ∧ 8 ≤ extent) :
    shrunkExtent extent size ≤ extent ∧ 8 + size ≤ shrunkExtent extent size := by
  unfold shrunkExtent
  split <;> omega

/-- The contents of a layout with a cut gap were contents before. -/
theorem Placed.body_of_shrunk (placed : Placed main others arenas) {word : Nat}
    (here : Gap arenas ptr extent)
    (onlyGap : ∀ other extent, Gap arenas other extent → other = ptr)
    (body : Body (shrunk arenas ptr extent size) word) : Body arenas word := by
  rcases body with ⟨other, size', there, lower, upper⟩ | ⟨other, size', there, -⟩
  · by_cases same : other = ptr
    · subst same
      rw [shrunk_self] at there
      obtain rfl : shrunkExtent extent size = size' := by simpa using there
      have le : shrunkExtent extent size ≤ extent := by
        unfold shrunkExtent
        split <;> omega
      exact .inr ⟨other, extent, here, by omega, by omega⟩
    · exact .inl ⟨other, size', (placed.shrunk_used here same).mp there, lower, upper⟩
  · exact absurd there (shrunk_whole onlyGap other size')

end Shrunk

/-! ## Committing memory -/

variable {main : SubHeap} {others : List SubHeap} {arenas : Arenas} {sub : SubHeap} {heap : Heap}
variable {classes : Nat → List Nat} {size ptr extent : Nat}

theorem Placed.base_unique (placed : Placed main others arenas) {other : SubHeap}
    (subIn : sub ∈ main :: others) (otherIn : other ∈ main :: others)
    (same : sub.base = other.base) : sub = other := by
  have bounds := placed.bounded sub subIn
  have bounds' := placed.bounded other otherIn
  unfold SubHeap.start at bounds bounds'
  have inSub : sub.Contains sub.base := by omega
  exact placed.sub_unique subIn otherIn inSub (by omega)

variable (sound : Sound heap arenas classes)

include sound in
theorem Sound.setCommitSize (subIn : sub ∈ heap.subheaps) (bounded : size ≤ sub.size)
    (free : ∀ ptr extent, sub.base ≤ ptr → ptr < sub.stop →
      Free arenas ptr extent → ptr + 16 ≤ sub.base + size)
    (used : ∀ ptr extent, sub.base ≤ ptr → ptr < sub.stop →
      Used arenas ptr extent → ptr + extent ≤ sub.base + size) :
    Sound (heap.setCommitSize sub size) arenas classes where
  __ := sound
  committed := by
    unfold Heap.setCommitSize
    refine ⟨?_, ?_, ?_⟩
    all_goals
      intro other otherIn
      by_cases same : other.base = sub.base
    · obtain rfl := sound.placed.base_unique otherIn subIn same
      simpa using bounded
    · simpa [update_of_ne same] using sound.committed.bounded other otherIn
    · obtain rfl := sound.placed.base_unique otherIn subIn same
      simpa using free
    · simpa [update_of_ne same] using sound.committed.free other otherIn
    · obtain rfl := sound.placed.base_unique otherIn subIn same
      simpa using used
    · simpa [update_of_ne same] using sound.committed.used other otherIn

theorem le_roundUp (small : size + 0xffff < 0x100000000) :
    size ≤ roundUp size ∧ roundUp size < size + 0x10000 := by
  unfold roundUp
  rw [add32_eq small]
  omega

include sound in
/-- `HEAP_Commit` commits the range up to the pointer, as far as the sub-heap goes. -/
protected theorem Sound.commit {heap' : Heap} {system : System} (subIn : sub ∈ heap.subheaps)
    (inSub : sub.base ≤ ptr ∧ ptr ≤ sub.stop + 24)
    (run : commit system heap sub ptr = some heap') :
    ∃ commitSize, heap' = { heap with commitSize := commitSize } ∧
      Sound heap' arenas classes ∧
      min ptr sub.stop ≤ sub.base + commitSize sub.base := by
  have bounds := sound.placed.bounded sub subIn
  unfold SubHeap.stop at inSub bounds ⊢
  have offset : sub32 ptr sub.base = ptr - sub.base := sub32_eq inSub.1 (by omega)
  have rounded := le_roundUp (by omega : ptr - sub.base + 0xffff < 0x100000000)
  unfold commit at run
  simp only [offset] at run
  -- the size that has to be committed
  obtain ⟨target, targetIs, enough, fits⟩ : ∃ target,
      target = (if sub.size < roundUp (ptr - sub.base) then sub.size
        else roundUp (ptr - sub.base)) ∧
      min ptr (sub.base + sub.size) ≤ sub.base + target ∧ target ≤ sub.size := by
    refine ⟨_, rfl, ?_⟩
    split <;> omega
  rw [← targetIs] at run
  split at run
  next already =>
    obtain rfl := Option.some.inj run
    exact ⟨heap.commitSize, rfl, sound, by omega⟩
  rename_i more
  split at run
  next granted =>
    obtain rfl := Option.some.inj run
    refine ⟨_, rfl, sound.setCommitSize subIn fits ?_ ?_, ?_⟩
    · intro other extent lower upper here
      have := sound.committed.free sub subIn other extent lower upper here
      omega
    · intro other extent lower upper here
      have := sound.committed.used sub subIn other extent lower upper here
      omega
    · rw [update_self]
      exact enough
  · simp at run

include sound in
/-- `HEAP_Decommit` behind the last arena of a sub-heap. -/
protected theorem Sound.decommit (system : System) (subIn : sub ∈ heap.subheaps)
    (inSub : sub.Contains ptr) (here : Free arenas ptr extent)
    (last : sub.stop ≤ ptr + extent) :
    ∃ commitSize, decommit system heap sub (ptr + 16) =
      { heap with commitSize := commitSize } ∧
      Sound { heap with commitSize := commitSize } arenas classes := by
  have bounds := sound.placed.bounded sub subIn
  have enough := sound.placed.measure here
  have within := sound.placed.within subIn inSub here
  have offset : sub32 (ptr + 16) sub.base = ptr + 16 - sub.base := sub32_eq (by omega) (by omega)
  have rounded := le_roundUp (by omega : ptr + 16 - sub.base + 0xffff < 0x100000000)
  have limit := sound.committed.bounded sub subIn
  unfold decommit
  simp only [offset]
  rw [add32_eq (by omega)]
  split
  · exact ⟨heap.commitSize, rfl, sound⟩
  rename_i less
  split
  · refine ⟨_, rfl, sound.setCommitSize subIn (by omega) ?_ ?_⟩
    all_goals
      intro other _ _ _ there
      have above : other ≤ ptr := by
        by_contra more
        have := sound.placed.apart _ _ _ _ here there (by omega)
        simp only at this
        omega
    · omega
    · have differs : other ≠ ptr := by
        rintro rfl
        cases here.symm.trans there
      have := sound.placed.apart _ _ _ _ there here (by omega)
      simp only at this
      omega
  · exact ⟨heap.commitSize, rfl, sound⟩

/-! ## Taking blocks into use -/

include sound in
protected theorem Sound.buildInUse (whole : Whole arenas) (subIn : sub ∈ heap.subheaps)
    (inSub : sub.Contains ptr) (here : Free arenas ptr extent)
    (enough : 16 ≤ size ∧ size % 4 = 0 ∧ size ≤ extent - 8)
    (committed : min (ptr + size + 32) (ptr + extent) ≤ sub.base + heap.commitSize sub.base) :
    Yields heap (buildInUse heap sub ptr size) (shrunk arenas ptr extent size) ∧
      Whole (shrunk arenas ptr extent size) := by
  have placed := sound.placed
  have extents := placed.measure here
  obtain ⟨_, unlinked, frame⟩ := sound.unlink here
  obtain ⟨sizeWord, -⟩ := sound.tagged.free _ _ here
  have isGap : update arenas ptr (some ⟨.gap, extent⟩) ptr = some ⟨.gap, extent⟩ := update_self ..
  have onlyGap := @whole.only arenas ptr extent
  have gapFrame : ∀ word, Body (update arenas ptr (some ⟨.gap, extent⟩)) word →
      unlink heap.memory ptr word = heap.memory word := fun word body =>
    frame word fun link => unlinked.placed.body_not_owned body (.inr (.inl link))
  have inGap : ∀ word, ptr ≤ word → word < ptr + extent →
      Body (update arenas ptr (some ⟨.gap, extent⟩)) word :=
    fun word lower upper => .inr ⟨ptr, extent, isGap, lower, upper⟩
  have atPtr : unlink heap.memory ptr ptr = extent - 16 + 1 := by
    rw [gapFrame ptr (inGap ptr (by omega) (by omega)), sizeWord]
  have header : add32 (clearFree (unlink heap.memory ptr ptr)) 8 = extent - 8 := by
    rw [atPtr]
    unfold clearFree
    rw [add32_eq (by omega)]
    omega
  unfold buildInUse
  simp only [header]
  have first := unlinked.write (inGap ptr (by omega) (by omega)) (extent - 8)
  have second := first.write (inGap (ptr + 4) (by omega) (by omega)) inUseMagic
  have atHeader : ((unlink heap.memory ptr).write ptr (extent - 8)).write (ptr + 4)
      inUseMagic ptr = extent - 8 := by rw [Memory.write_other (by omega), Memory.write_same]
  have fits : FlagFits heap.subheaps
      (((unlink heap.memory ptr).write ptr (extent - 8)).write (ptr + 4) inUseMagic)
      (update arenas ptr (some ⟨.gap, extent⟩)) ptr := by
    unfold FlagFits
    rw [atHeader]
    have clear : isPrevFree (extent - 8) = false := by
      unfold isPrevFree
      simp
      omega
    rw [clear]
    refine ⟨fun other arena found meet notGap => ?_, fun _ _ _ => rfl⟩
    rcases update_eq_some_iff.mp found with ⟨-, rfl⟩ | ⟨-, found⟩
    · exact absurd rfl notGap
    obtain ⟨kind, extent'⟩ := arena
    cases kind with
    | used => rfl
    | free => exact absurd (meet ▸ here) (sound.tagged.separate other extent' extent found)
    | gap => exact absurd rfl notGap
  obtain ⟨memory, classes', run, result, frame'⟩ :=
    second.shrinkBlock subIn inSub isGap onlyGap
      ⟨by dsimp; rw [atHeader]; unfold sizeOf; omega,
        by dsimp; rw [atHeader, isFree_eq_false_iff]; omega,
        by dsimp; rw [Memory.write_same]⟩
      fits enough committed
  dsimp at run result frame'
  rw [shrunk_update] at result frame'
  refine ⟨⟨memory, classes', run, result, fun word body => ?_⟩, ?_⟩
  · have notTag := fun tag => result.placed.body_not_owned body (.inl tag)
    have atPtr' := shrunk_self arenas ptr extent size
    rw [frame' word body, Memory.write_other, Memory.write_other, gapFrame word]
    · rw [← shrunk_update arenas ptr extent size (some ⟨.gap, extent⟩)] at body
      exact unlinked.placed.body_of_shrunk isGap onlyGap body
    · rintro rfl
      exact notTag ⟨word, _, atPtr', by simp, .inl rfl⟩
    · rintro rfl
      exact notTag ⟨ptr, _, atPtr', by simp, .inr (.inl rfl)⟩
  · rw [← shrunk_update arenas ptr extent size (some ⟨.gap, extent⟩)]
    exact shrunk_whole onlyGap

/-! ## Giving blocks back -/

variable {arena : Arena} {subheaps subheaps' : List SubHeap}

theorem Placed.exists_prev (placed : Placed main others arenas) (subIn : sub ∈ main :: others)
    (inSub : sub.Contains ptr) (here : arenas ptr = some arena) (notFirst : ptr ≠ sub.start) :
    ∃ other arena', arenas other = some arena' ∧ other + arena'.extent = ptr := by
  have above := (placed.within subIn inSub here).1
  -- walk over the arenas from the first one on; the distance to `ptr` decreases
  have walk : ∀ distance other arena', arenas other = some arena' → sub.start ≤ other →
      other < ptr → ptr - other ≤ distance →
      ∃ other arena', arenas other = some arena' ∧ other + arena'.extent = ptr := by
    intro distance
    induction distance with
    | zero =>
      omega
    | succ _ ih =>
      intro other arena' there lower less _
      have upper := placed.apart _ _ _ _ there here less
      have enough := placed.measure there
      by_cases meet : other + arena'.extent = ptr
      · exact ⟨other, arena', there, meet⟩
      have inSub' : sub.Contains other := by
        unfold SubHeap.start at lower
        omega
      obtain ⟨_, found⟩ := (placed.next_iff subIn inSub' there).mpr (by omega)
      exact ih _ _ found (by omega) (by omega) (by omega)
  obtain ⟨first, isFirst⟩ := placed.first sub subIn
  exact walk _ _ _ isFirst (Nat.le_refl _) (by omega) (Nat.le_refl _)

theorem Placed.prev_in (placed : Placed main others arenas) {prev : Nat} {kind : Kind}
    (subIn : sub ∈ main :: others) (inSub : sub.Contains ptr)
    (here : arenas ptr = some arena) (there : arenas prev = some ⟨kind, extent⟩)
    (meet : prev + extent = ptr) : sub.Contains prev := by
  obtain ⟨_, ownerIn, inOwner⟩ := placed.exists_sub there
  have more := (placed.next_iff ownerIn inOwner there).mp ⟨arena, meet ▸ here⟩
  obtain rfl := placed.sub_unique subIn ownerIn inSub (by omega)
  exact inOwner

include sound in
/-- The flag of a block in use tells whether the arena in front is free, and then
the back pointer leads to it. -/
theorem Sound.prev_cases (whole : Whole arenas) (here : Used arenas ptr extent) :
    (isPrevFree (heap.memory ptr) = true ∧
      ∃ other extent', Free arenas other extent' ∧ other + extent' = ptr ∧
        heap.memory (ptr - 4) = other) ∨
    (isPrevFree (heap.memory ptr) = false ∧
      ∀ other extent', Free arenas other extent' → other + extent' ≠ ptr) := by
  obtain ⟨flag, start⟩ := sound.tagged.flagFits here
  obtain ⟨sub, subIn, inSub⟩ := sound.placed.exists_sub here
  by_cases first : ptr = sub.start
  · refine .inr ⟨start sub subIn first.symm, fun other extent' there meet => ?_⟩
    exact sound.placed.start_no_prev subIn there (meet.trans first)
  obtain ⟨other, ⟨kind, extent'⟩, there, meet⟩ := sound.placed.exists_prev subIn inSub here first
  have unique : ∀ other' extent'', Free arenas other' extent'' →
      other' + extent'' = ptr → other' = other := fun other' extent'' found found' =>
    sound.placed.prev_unique found there (found'.trans meet.symm)
  cases kind with
  | used =>
    refine .inr ⟨by simpa using flag _ _ there meet (by simp), fun other' _ found same => ?_⟩
    obtain rfl := unique _ _ found same
    cases there.symm.trans found
  | free =>
    refine .inl ⟨by simpa using flag _ _ there meet (by simp), other, extent', there, meet, ?_⟩
    have back := sound.tagged.back other extent' _ there (meet ▸ here)
    rwa [meet] at back
  | gap => exact absurd there (whole other extent')

theorem Tagged.subset {memory : Memory} (tagged : Tagged subheaps memory arenas)
    (subset : ∀ sub ∈ subheaps', sub ∈ subheaps) : Tagged subheaps' memory arenas :=
  { tagged with start := fun sub subIn => tagged.start sub (subset sub subIn) }

theorem Committed.subset {commitSize : Nat → Nat} (committed : Committed subheaps commitSize arenas)
    (subset : ∀ sub ∈ subheaps', sub ∈ subheaps) : Committed subheaps' commitSize arenas where
  bounded := fun sub subIn => committed.bounded sub (subset sub subIn)
  free := fun sub subIn => committed.free sub (subset sub subIn)
  used := fun sub subIn => committed.used sub (subset sub subIn)

include sound in
theorem Sound.removeSub (subIn : sub ∈ heap.others) (here : Gap arenas sub.start extent)
    (last : sub.stop ≤ sub.start + extent) :
    Sound
      { heap with others := heap.others.filter fun other => other.base != sub.base }
      (update arenas sub.start none) classes := by
  have placed := sound.placed
  have bounds := placed.bounded sub (mem_cons_of_mem _ subIn)
  have sublist : (heap.main :: heap.others.filter fun other => other.base != sub.base).Sublist
      (heap.main :: heap.others) := filter_sublist.cons_cons _
  have subset := fun other otherIn => sublist.subset (a := other) otherIn
  have apart := pairwise_cons.mp placed.disjoint
  -- the sub-heaps that remain have other addresses
  have remains : ∀ other, other ∈ heap.main :: heap.others →
      (other ∈ heap.main :: heap.others.filter (fun other => other.base != sub.base) ↔
        other ≠ sub) := by
    intro other otherIn
    have differs : other ≠ sub ↔ other.base ≠ sub.base := by
      refine not_congr ⟨fun same => by rw [same], fun same => ?_⟩
      exact placed.base_unique otherIn (mem_cons_of_mem _ subIn) same
    rw [differs]
    have mainDiffers : heap.main.base ≠ sub.base := by
      have := apart.1 sub subIn
      have := placed.bounded heap.main (by simp)
      unfold SubHeap.start at *
      omega
    rcases mem_cons.mp otherIn with rfl | inOthers
    · simp [mainDiffers]
    constructor
    · intro found
      rcases mem_cons.mp found with rfl | found
      · exact mainDiffers
      · simpa using (mem_filter.mp found).2
    · intro different
      exact mem_cons_of_mem _ (mem_filter.mpr ⟨inOthers, by simpa using different⟩)
  have kept : ∀ ptr arena, update arenas sub.start none ptr = some arena →
      ptr ≠ sub.start ∧ arenas ptr = some arena := by
    intro ptr _ found
    by_cases same : ptr = sub.start
    · simp [same] at found
    · exact ⟨same, by rwa [update_of_ne same] at found⟩
  refine
    { placed :=
        { bounded := fun other otherIn => placed.bounded other (subset other otherIn)
          mainHeader := placed.mainHeader
          otherHeader := fun other otherIn => placed.otherHeader other (mem_filter.mp otherIn).1
          disjoint := placed.disjoint.sublist sublist
          first := ?_
          inside := ?_
          apart := fun ptr arena ptr' arena' found found' less =>
            placed.apart _ _ _ _ (kept _ _ found).2 (kept _ _ found').2 less
          extents := fun ptr arena found => placed.extents _ _ (kept _ _ found).2 }
      tagged := ?_
      committed := ?_
      listed := sound.listed.relayout ?_ }
  · intro other otherIn
    obtain ⟨arena, first⟩ := placed.first other (subset other otherIn)
    refine ⟨arena, ?_⟩
    rw [update_of_ne]
    · exact first
    · intro same
      have otherBounds := placed.bounded other (subset other otherIn)
      refine ((remains other (subset other otherIn)).mp otherIn) ?_
      refine placed.sub_unique (subset other otherIn) (mem_cons_of_mem _ subIn)
        (⟨by unfold SubHeap.start; omega, otherBounds.2.1⟩ :
          other.Contains other.start) ?_
      rw [same]
      exact ⟨by unfold SubHeap.start; omega, bounds.2.1⟩
  · intro _ _ found
    obtain ⟨off, was⟩ := kept _ _ found
    obtain ⟨other, otherIn, above, below, next⟩ := placed.inside _ _ was
    have enough := placed.measure was
    refine ⟨other, (remains other otherIn).mpr ?_, above, below, fun more => ?_⟩
    · rintro rfl
      have := placed.extent_apart was here off
      omega
    · obtain ⟨arena', there⟩ := next more
      refine ⟨arena', ?_⟩
      rw [update_of_ne (placed.start_no_prev (mem_cons_of_mem _ subIn) was)]
      exact there
  · refine (sound.tagged.weaken (fun ptr arena _ found => (kept _ _ found).2) ?_).subset subset
    intro _ _ arena _ found
    exact ⟨arena, (kept _ _ found).2⟩
  · exact (sound.committed.weaken fun ptr arena _ found => (kept _ _ found).2).subset subset
  · exact fun _ _ => ⟨fun found => (kept _ _ found).2, update_kept here (by simp)⟩

include sound in
/-- The start of a block that is given back, with a free arena in front of it: a gap
behind a block in use. -/
protected theorem Sound.mergePrev (whole : Whole arenas) (subIn : sub ∈ heap.subheaps)
    (inSub : sub.Contains ptr) (here : Used arenas ptr extent) :
    ∃ memory free size layout classes', mergePrev heap.memory ptr = (memory, free, size) ∧
      Sound (heap.setMemory memory) layout classes' ∧
      (sub.Contains free) ∧
      Gap layout free size ∧
      (∀ other extent', Gap layout other extent' → other = free) ∧
      (∀ other extent', Free layout other extent' → other + extent' ≠ free) ∧
      free + 16 ≤ sub.base + heap.commitSize sub.base ∧
      (∀ other extent', Used layout other extent' ↔ other ≠ ptr ∧ Used arenas other extent') ∧
      ∀ word, Body layout word → memory word = heap.memory word := by
  have placed := sound.placed
  have enough := placed.measure here
  obtain ⟨sizeIs, -⟩ := sound.tagged.used _ _ here
  have ownSize : add32 (sizeOf (heap.memory ptr)) 8 = extent := by
    rw [add32_eq (by omega)]
    omega
  unfold mergePrev
  simp only [ownSize]
  rcases sound.prev_cases whole here with
    ⟨flag, prev, size, there, meet, back⟩ | ⟨flag, notFree⟩
  · -- both arenas become gaps, and the gaps are joined
    have enough' := placed.measure there
    obtain ⟨classes', unlinked, frame⟩ := sound.unlink there
    have here₁ : update arenas prev (some ⟨.gap, size⟩) ptr = some ⟨.used, extent⟩ := by
      rw [update_of_ne (by omega)]
      exact here
    have gaps := unlinked.forget here₁
    have first : update (update arenas prev (some ⟨.gap, size⟩)) ptr
        (some ⟨.gap, extent⟩) prev = some ⟨.gap, size⟩ := by
      rw [update_of_ne (by omega), update_self]
    have joined := gaps.join first (by rw [meet]; exact update_self ..)
    rw [meet, update_idem, update_comm (by omega), update_idem, update_comm (by omega)] at joined
    have others : ∀ other arena, update (update arenas ptr none) prev
        (some ⟨.gap, size + extent⟩) other = some arena ↔
        (other = prev ∧ arena = ⟨.gap, size + extent⟩) ∨
          (other ≠ prev ∧ other ≠ ptr ∧ arenas other = some arena) := by
      intro other _
      rw [update_eq_some_iff]
      by_cases second : other = ptr
      · have off : ptr ≠ prev := by omega
        simp [second, off]
      · simp [second, eq_comm]
    have sizeWord := (sound.tagged.free _ _ there).1
    have total : add32 extent (add32 (sizeOf (heap.memory prev)) 16) = size + extent := by
      rw [sizeWord, sizeOf_word (by omega),
        add32_eq (by omega : size - 16 + 16 < 0x100000000), add32_eq (by omega)]
      omega
    rw [if_pos flag, back, total]
    have prevIn := placed.prev_in subIn inSub here there meet
    have committed := sound.committed.free sub subIn prev size prevIn.1 prevIn.2 there
    refine ⟨_, prev, size + extent, _, classes', rfl, joined, prevIn,
      update_self .., ?_, ?_, committed, ?_, ?_⟩
    · intro other extent' found
      rcases (others _ _).mp found with ⟨same, -⟩ | ⟨-, -, found⟩
      · exact same
      · exact absurd found (whole other extent')
    · intro other extent' found meet'
      rcases (others _ _).mp found with ⟨-, wrong⟩ | ⟨-, -, found⟩
      · simp at wrong
      · exact sound.tagged.separate other extent' size found (meet' ▸ there)
    · intro _ _
      rw [Used, others]
      constructor
      · rintro (⟨-, wrong⟩ | ⟨-, off, found⟩)
        · simp at wrong
        · exact ⟨off, found⟩
      · rintro ⟨off, found⟩
        refine .inr ⟨?_, off, found⟩
        rintro rfl
        cases there.symm.trans found
    · intro word body
      refine frame word (joined.placed.body_not_link body fun other extent' found => ?_)
      obtain ⟨off, found⟩ := of_update_other (by simp) found
      refine (others _ _).mpr (.inr ⟨off, ?_, found⟩)
      rintro rfl
      simp [here] at found
  · rw [if_neg (by simp [flag])]
    have gone := sound.forget here
    have committed := sound.committed.used sub subIn ptr extent inSub.1 inSub.2 here
    refine ⟨heap.memory, ptr, extent, _, classes, rfl, gone, inSub,
      update_self .., whole.only, ?_, by omega, ?_, fun _ _ => rfl⟩
    · intro other extent' found
      exact notFree other extent' (of_update_other (by simp) found).2
    · intro _ _
      rw [Used, update_eq_some_iff]
      constructor
      · rintro (⟨-, wrong⟩ | both)
        · simp at wrong
        · exact both
      · exact .inr

include sound in
protected theorem Sound.trimSubHeap (whole : Whole arenas) (system : System) {free : Nat}
    (subIn : sub ∈ heap.subheaps) (inSub : sub.Contains free)
    (here : Free arenas free extent) :
    ∃ arenas' classes', Sound (trimSubHeap system heap sub free) arenas' classes' ∧
      Whole arenas' ∧
      (∀ other extent', Used arenas' other extent' ↔ Used arenas other extent') ∧
      (∀ word, Body arenas' word →
        (trimSubHeap system heap sub free).memory word = heap.memory word) ∧
      (trimSubHeap system heap sub free).flags = heap.flags := by
  have enough := sound.placed.measure here
  have sizeIs : add32 (sizeOf (heap.memory free)) 16 = extent := by
    rw [(sound.tagged.free _ _ here).1, sizeOf_word (by omega), add32_eq (by omega)]
    omega
  unfold trimSubHeap
  simp only [sizeIs]
  split
  · exact ⟨arenas, classes, sound, whole, fun _ _ => Iff.rfl, fun _ _ => rfl, rfl⟩
  rename_i last
  split
  next empty =>
    obtain ⟨rfl, notMain⟩ := empty
    have inOthers : sub ∈ heap.others := by
      rcases mem_cons.mp subIn with rfl | inOthers
      · exact absurd rfl notMain
      · exact inOthers
    obtain ⟨classes', unlinked, frame⟩ := sound.unlink here
    have removed := unlinked.removeSub inOthers (update_self ..) (by omega)
    rw [update_idem] at removed
    have others : ∀ other arena, update arenas sub.start none other = some arena ↔
        other ≠ sub.start ∧ arenas other = some arena := by
      intro other _
      by_cases same : other = sub.start <;> simp [same]
    refine ⟨_, classes', removed, ?_, ?_, ?_, rfl⟩
    · intro other extent' found
      exact whole other extent' ((others _ _).mp found).2
    · intro _ _
      rw [Used, others]
      refine ⟨And.right, fun found => ⟨?_, found⟩⟩
      rintro rfl
      cases here.symm.trans found
    · intro word body
      refine frame word (removed.placed.body_not_link body fun _ _ found => ?_)
      exact (others _ _).mpr (of_update_other (by simp) found)
  · split
    · exact ⟨arenas, classes, sound, whole, fun _ _ => Iff.rfl, fun _ _ => rfl, rfl⟩
    obtain ⟨_, run, result⟩ := sound.decommit system subIn inSub here (by omega)
    rw [run]
    exact ⟨arenas, classes, result, whole, fun _ _ => Iff.rfl, fun _ _ => rfl, rfl⟩

include sound in
/-- `HEAP_MakeInUseBlockFree` takes one block out of use. -/
protected theorem Sound.makeInUseBlockFree (whole : Whole arenas) (system : System)
    (subIn : sub ∈ heap.subheaps) (inSub : sub.Contains ptr) (here : Used arenas ptr extent) :
    ∃ arenas' classes', Sound (makeInUseBlockFree system heap sub ptr) arenas' classes' ∧
      Whole arenas' ∧
      (∀ other extent', Used arenas' other extent' ↔ other ≠ ptr ∧ Used arenas other extent') ∧
      (∀ word, Body arenas' word →
        (makeInUseBlockFree system heap sub ptr).memory word = heap.memory word) ∧
      (makeInUseBlockFree system heap sub ptr).flags = heap.flags := by
  obtain ⟨memory, free, size, layout, classes₁, merge, merged, freeIn, isGap, onlyGap,
    prevUsed, committed, used, frame⟩ := sound.mergePrev whole subIn inSub here
  obtain ⟨_, _, run, created, frame'⟩ :=
    merged.createFreeBlock subIn freeIn isGap
      (fun other extent' found => Nat.le_of_eq (onlyGap other extent' found)) prevUsed committed
  dsimp at run created frame'
  have whole' : Whole (released layout free size) := by
    intro other _ found
    have off : other ≠ free := by
      rintro rfl
      obtain ⟨_, isFree⟩ := released_self layout other size
      simp [isFree] at found
    exact off (onlyGap _ _ (released_other off found))
  obtain ⟨_, isFree⟩ := released_self layout free size
  obtain ⟨arenas', classes', result, whole'', used', frame'', flags⟩ :=
    created.trimSubHeap whole' system subIn freeIn isFree
  unfold makeInUseBlockFree
  rw [merge]
  simp only [run]
  refine ⟨arenas', classes', result, whole'', fun other extent' => ?_, fun word body => ?_, flags⟩
  · rw [used', Used, released_used isGap, used]
  · have body₁ : Body (released layout free size) word :=
      body.mono whole'' fun other extent' => (used' other extent').mp
    have body₂ : Body layout word := body₁.mono whole' fun other extent' => (released_used isGap).mp
    rw [frame'' word body, Heap.setMemory_memory, frame' word body₁, frame word body₂]

end Winex.OldHeap
