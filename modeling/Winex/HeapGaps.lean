import Winex.HeapLayout

namespace Winex.OldHeap

open Function (update update_of_ne update_self)
open Circular

/-!
# Gaps in a layout

A layout speaks about the tags of its arenas, the pointers of the free list and the list
heads.  All other words can be written without any effect on it.  The other theorems
change the layout alone: a block becomes a gap, gaps are split and joined, and a gap
with the right tags becomes a block.
-/

/-- A word of the header of an arena, or the back pointer of a free one. -/
def TagWord (arenas : Arenas) (word : Nat) : Prop :=
  ∃ ptr arena, arenas ptr = some arena ∧ arena.kind ≠ .gap ∧
    (word = ptr ∨ word = ptr + 4 ∨ arena.kind = .free ∧ word = ptr + arena.extent - 4)

/-- A node of the free list: a list head or a free arena. -/
def Node (base : Nat) (arenas : Arenas) (ptr : Nat) : Prop :=
  (∃ i < 4, ptr = headAt base i) ∨ ∃ extent, arenas ptr = some ⟨.free, extent⟩

/-- One of the two pointers of a node. -/
def LinkWord (base : Nat) (arenas : Arenas) (word : Nat) : Prop :=
  ∃ node, Node base arenas node ∧ (word = node + 8 ∨ word = node + 12)

/-- The size and the magic number of a list head. -/
def HeadWord (base word : Nat) : Prop :=
  ∃ i < 4, word = headAt base i ∨ word = headAt base i + 4

/-- The words a layout speaks about. -/
def Owned (base : Nat) (arenas : Arenas) (word : Nat) : Prop :=
  TagWord arenas word ∨ LinkWord base arenas word ∨ HeadWord base word

/-- The contents of the blocks in use and the gaps. -/
def Body (arenas : Arenas) (word : Nat) : Prop :=
  (∃ ptr extent, arenas ptr = some ⟨.used, extent⟩ ∧ ptr + 8 ≤ word ∧ word < ptr + extent) ∨
    ∃ ptr extent, arenas ptr = some ⟨.gap, extent⟩ ∧ ptr ≤ word ∧ word < ptr + extent

namespace Placed

variable {main : SubHeap} {others : List SubHeap} {arenas : Arenas}
variable {ptr : Nat} {kind : Kind} {extent : Nat} {word : Nat}
variable (placed : Placed main others arenas)
include placed

variable {node other : Nat} {sub : SubHeap}

theorem node_extent (isNode : Node main.base arenas node) (here : arenas ptr = some ⟨kind, extent⟩)
    (differs : node ≠ ptr) : node + 16 ≤ ptr ∨ ptr + extent ≤ node := by
  rcases isNode with ⟨_, small, rfl⟩ | ⟨_, free⟩
  · exact placed.head_apart small here
  · have := placed.extent_apart free here differs
    have := placed.measure free
    omega

/-- Two nodes are disjoint. -/
theorem node_apart (isNode : Node main.base arenas node) (isOther : Node main.base arenas other)
    (differs : node ≠ other) : node + 16 ≤ other ∨ other + 16 ≤ node := by
  rcases isOther with ⟨_, small, rfl⟩ | ⟨extent, free⟩
  · rcases isNode with ⟨_, _, rfl⟩ | ⟨_, free⟩
    · unfold headAt at differs ⊢
      omega
    · have := placed.head_apart small free
      have := placed.measure free
      omega
  · have := placed.node_extent isNode free differs
    have := placed.measure free
    omega

/-- Bodies and gaps are not spoken about. -/
theorem body_not_owned (body : Body arenas word) : ¬Owned main.base arenas word := by
  -- the arena the word belongs to, and how far from its start it lies
  obtain ⟨ptr, kind, extent, here, notFree, lower, upper⟩ :
      ∃ ptr kind extent, arenas ptr = some ⟨kind, extent⟩ ∧ kind ≠ .free ∧
        (ptr ≤ word ∧ (kind = .used → ptr + 8 ≤ word)) ∧ word < ptr + extent := by
    rcases body with ⟨ptr, _, here, lower, upper⟩ | ⟨ptr, _, here, lower, upper⟩
    · exact ⟨ptr, _, _, here, by simp, ⟨by omega, fun _ => lower⟩, upper⟩
    · exact ⟨ptr, _, _, here, by simp, ⟨lower, by simp⟩, upper⟩
  rintro (⟨other, _, there, notGap, place⟩ | ⟨node, isNode, place⟩ | ⟨i, small, place⟩)
  · have wide := placed.measure there
    by_cases same : other = ptr
    · subst same
      cases here.symm.trans there
      cases kind with
      | used =>
        have := lower.2 rfl
        rcases place with rfl | rfl | ⟨⟨⟩, -⟩ <;> omega
      | free => exact notFree rfl
      | gap => exact notGap rfl
    · have := placed.extent_apart there here same
      omega
  · have differs : node ≠ ptr := by
      rintro rfl
      rcases isNode with ⟨_, small, rfl⟩ | ⟨_, free⟩
      · have := placed.head_apart small here
        omega
      · cases here.symm.trans free
        exact notFree rfl
    have := placed.node_extent isNode here differs
    omega
  · have := placed.head_apart small here
    omega

theorem body_apart (body : Body arenas word) (here : Free arenas ptr extent) :
    word < ptr ∨ ptr + extent ≤ word := by
  rcases body with ⟨other, _, there, _, _⟩ | ⟨other, _, there, _, _⟩
  all_goals
    have differs : other ≠ ptr := by
      rintro rfl
      cases here.symm.trans there
    have := placed.extent_apart there here differs
    omega

/-- The pointers of arenas that are still free lie outside. -/
theorem body_not_link {before : Arenas} (body : Body arenas word)
    (free : ∀ ptr extent, before ptr = some ⟨.free, extent⟩ → Free arenas ptr extent) :
    ¬LinkWord main.base before word := by
  rintro ⟨node, isHead | ⟨extent, there⟩, place⟩
  · exact placed.body_not_owned body (.inr (.inl ⟨node, .inl isHead, place⟩))
  · exact placed.body_not_owned body (.inr (.inl ⟨node, .inr ⟨extent, free _ _ there⟩, place⟩))

theorem link_not_tag (link : LinkWord main.base arenas word) : ¬TagWord arenas word := by
  obtain ⟨node, isNode, _⟩ := link
  rintro ⟨ptr, _, here, -, _⟩
  have wide := placed.measure here
  by_cases same : node = ptr
  · omega
  · have := placed.node_extent isNode here same
    omega

theorem link_not_head (link : LinkWord main.base arenas word) : ¬HeadWord main.base word := by
  obtain ⟨_, isNode, place⟩ := link
  rintro ⟨_, small, where_⟩
  rcases isNode with ⟨_, _, rfl⟩ | ⟨_, free⟩
  · unfold headAt at place where_
    omega
  · have := placed.head_apart small free
    have := placed.measure free
    omega

theorem congr {arenas' : Arenas}
    (same : ∀ ptr, (arenas' ptr).map Arena.extent = (arenas ptr).map Arena.extent) :
    Placed main others arenas' := by
  have back : ∀ ptr arena, arenas' ptr = some arena →
      ∃ old, arenas ptr = some old ∧ old.extent = arena.extent := by
    intro ptr _ here
    have := same ptr
    rw [here] at this
    simpa using this.symm
  have forth : ∀ ptr arena, arenas ptr = some arena → ∃ new, arenas' ptr = some new := by
    intro ptr _ here
    have := same ptr
    rw [here] at this
    obtain ⟨new, is, -⟩ := Option.map_eq_some_iff.mp this
    exact ⟨new, is⟩
  refine { placed with first := ?_, inside := ?_, apart := ?_, extents := ?_ }
  · intro sub subIn
    obtain ⟨arena, here⟩ := placed.first sub subIn
    exact forth _ _ here
  · intro ptr arena here
    obtain ⟨old, there, extent⟩ := back ptr arena here
    obtain ⟨sub, subIn, above, below, next⟩ := placed.inside ptr old there
    rw [extent] at below next
    refine ⟨sub, subIn, above, below, fun more => ?_⟩
    obtain ⟨arena', found⟩ := next more
    exact forth _ _ found
  · intro ptr arena other arena' here there less
    obtain ⟨old, oldHere, extent⟩ := back ptr arena here
    obtain ⟨old', oldThere, -⟩ := back other arena' there
    have := placed.apart ptr old other old' oldHere oldThere less
    omega
  · intro ptr arena here
    obtain ⟨old, oldHere, extent⟩ := back ptr arena here
    rw [← extent]
    exact placed.extents ptr old oldHere

theorem rekind (here : arenas ptr = some ⟨kind, extent⟩) (kind' : Kind) :
    Placed main others (update arenas ptr (some ⟨kind', extent⟩)) := by
  refine placed.congr fun other => ?_
  by_cases same : other = ptr
  · subst same
    simp [here]
  · simp [update_of_ne same]

theorem retile {arenas' : Arenas} (finish : Nat) (here : arenas ptr = some ⟨kind, extent⟩)
    (range : ∃ sub ∈ main :: others, sub.start ≤ ptr ∧ finish ≤ sub.stop ∧
      (finish < sub.stop → ∃ next, arenas finish = some next))
    (outside : ∀ other, other < ptr ∨ finish ≤ other → arenas' other = arenas other)
    (first : ∃ arena, arenas' ptr = some arena)
    (inside : ∀ other arena, ptr ≤ other → other < finish → arenas' other = some arena →
      24 ≤ arena.extent ∧ arena.extent % 4 = 0 ∧ other + arena.extent ≤ finish ∧
        (other + arena.extent < finish → ∃ next, arenas' (other + arena.extent) = some next))
    (apart : ∀ other arena other' arena', ptr ≤ other → other' < finish →
      arenas' other = some arena → arenas' other' = some arena' → other < other' →
      other + arena.extent ≤ other') : Placed main others arenas' := by
  obtain ⟨owner, ownerIn, above, below, next⟩ := range
  -- an arena in front of the range ends in front of it, or at its start
  have defined : ∀ other arena, other < ptr ∨ finish ≤ other → arenas other = some arena →
      (∃ next, arenas (other + arena.extent) = some next) →
      ∃ next, arenas' (other + arena.extent) = some next := by
    rintro other arena off there ⟨next, found⟩
    rcases off with less | more
    · have := placed.apart other arena ptr _ there here less
      by_cases atStart : other + arena.extent = ptr
      · rw [atStart]
        exact first
      · exact ⟨next, (outside _ (by omega)).trans found⟩
    · exact ⟨next, (outside _ (by omega)).trans found⟩
  refine { placed with first := ?_, inside := ?_, apart := ?_, extents := ?_ }
  · intro sub subIn
    obtain ⟨arena, there⟩ := placed.first sub subIn
    by_cases off : sub.start < ptr ∨ finish ≤ sub.start
    · exact ⟨arena, (outside _ off).trans there⟩
    have bounds := placed.bounded sub subIn
    obtain rfl : owner = sub := by
      have inOwner : owner.Contains sub.start := by
        unfold SubHeap.start at above off ⊢
        omega
      exact placed.sub_unique ownerIn subIn inOwner ⟨by unfold SubHeap.start; omega, bounds.2.1⟩
    obtain rfl : owner.start = ptr := by omega
    exact first
  · intro other arena there
    by_cases off : other < ptr ∨ finish ≤ other
    · have was : arenas other = some arena := (outside _ off).symm.trans there
      obtain ⟨sub, subIn, above, below, next⟩ := placed.inside _ _ was
      exact ⟨sub, subIn, above, below, fun more => defined _ _ off was (next more)⟩
    obtain ⟨-, -, fits, later⟩ := inside other arena (by omega) (by omega) there
    refine ⟨owner, ownerIn, by omega, by omega, fun more => ?_⟩
    by_cases atFinish : other + arena.extent = finish
    · obtain ⟨next, found⟩ := next (by omega)
      exact ⟨next, by rw [atFinish, outside _ (by omega)]; exact found⟩
    · exact later (by omega)
  · intro other arena other' arena' there there' less
    by_cases off : other < ptr ∨ finish ≤ other
    · have was : arenas other = some arena := (outside _ off).symm.trans there
      by_cases off' : other' < ptr ∨ finish ≤ other'
      · have was' : arenas other' = some arena' := (outside _ off').symm.trans there'
        exact placed.apart _ _ _ _ was was' less
      · have := placed.apart other arena ptr _ was here (by omega)
        omega
    · by_cases off' : other' < ptr ∨ finish ≤ other'
      · obtain ⟨-, -, _, -⟩ := inside other arena (by omega) (by omega) there
        omega
      · exact apart _ _ _ _ (by omega) (by omega) there there' less
  · intro other arena there
    by_cases off : other < ptr ∨ finish ≤ other
    · exact placed.extents _ _ ((outside _ off).symm.trans there)
    · obtain ⟨enough, multiple, -⟩ := inside other arena (by omega) (by omega) there
      exact ⟨enough, multiple⟩

theorem header (subIn : sub ∈ main :: others) : 24 ≤ sub.headerSize := by
  rcases List.mem_cons.mp subIn with rfl | inOthers
  · rw [placed.mainHeader]
    decide
  · rw [placed.otherHeader sub inOthers]

theorem next_iff (subIn : sub ∈ main :: others) (inSub : sub.Contains ptr)
    (here : arenas ptr = some ⟨kind, extent⟩) :
    (∃ next, arenas (ptr + extent) = some next) ↔ ptr + extent < sub.stop := by
  obtain ⟨above, _, next⟩ := placed.within subIn inSub here
  refine ⟨fun ⟨arena', there⟩ => ?_, next⟩
  -- an arena at the end would lie in another sub-heap, behind its header
  obtain ⟨other, otherIn, above', _, -⟩ := placed.inside _ _ there
  have wide := placed.measure there
  have header := placed.header otherIn
  unfold SubHeap.start at above above'
  by_cases same : sub = other
  · subst same
    omega
  have symmetric : Std.Symm fun sub other : SubHeap =>
      sub.stop ≤ other.base ∨ other.stop ≤ sub.base := ⟨fun _ _ => Or.symm⟩
  have := placed.disjoint.forall subIn otherIn same
  omega

theorem prev_unique {size : Nat} {kind' : Kind} (here : arenas ptr = some ⟨kind, extent⟩)
    (there : arenas other = some ⟨kind', size⟩) (meet : ptr + extent = other + size) :
    ptr = other := by
  by_contra differs
  have := placed.extent_apart here there differs
  have := placed.measure here
  have := placed.measure there
  omega

theorem start_no_prev (subIn : sub ∈ main :: others) (here : arenas ptr = some ⟨kind, extent⟩) :
    ptr + extent ≠ sub.start := by
  intro meet
  obtain ⟨owner, ownerIn, range⟩ := placed.exists_sub here
  obtain ⟨first, firstIs⟩ := placed.first sub subIn
  have more := (placed.next_iff ownerIn range here).mp ⟨first, meet ▸ firstIs⟩
  have bounds := placed.bounded sub subIn
  have above := (placed.within ownerIn range here).1
  have wide := placed.measure here
  obtain rfl : owner = sub := by
    refine placed.sub_unique ownerIn subIn (⟨?_, more⟩ : owner.base ≤ ptr + extent ∧ _) ⟨?_, ?_⟩
    · omega
    · unfold SubHeap.start at meet
      omega
    · rw [meet]
      exact bounds.2.1
  omega

end Placed

/-! ## Changes of the memory -/

variable {memory : Memory} {arenas : Arenas}

variable {memory' : Memory} {subheaps : List SubHeap} {base ptr : Nat} {classes : Nat → List Nat}

theorem Tagged.congr (tagged : Tagged subheaps memory arenas)
    (same : ∀ word, TagWord arenas word → memory' word = memory word) :
    Tagged subheaps memory' arenas where
  used := by
    intro ptr extent here
    rw [same ptr ⟨ptr, _, here, by simp, .inl rfl⟩,
      same (ptr + 4) ⟨ptr, _, here, by simp, .inr (.inl rfl)⟩]
    exact tagged.used ptr extent here
  free := by
    intro ptr extent here
    rw [same ptr ⟨ptr, _, here, by simp, .inl rfl⟩,
      same (ptr + 4) ⟨ptr, _, here, by simp, .inr (.inl rfl)⟩]
    exact tagged.free ptr extent here
  back := by
    intro ptr extent next here there
    rw [same _ ⟨ptr, _, here, by simp, .inr (.inr ⟨rfl, rfl⟩)⟩]
    exact tagged.back ptr extent next here there
  flag := by
    intro ptr arena extent here notGap there
    rw [same _ ⟨_, _, there, by simp, .inl rfl⟩]
    exact tagged.flag ptr arena extent here notGap there
  start := by
    intro sub subIn extent here
    rw [same _ ⟨_, _, here, by simp, .inl rfl⟩]
    exact tagged.start sub subIn extent here
  separate := tagged.separate

theorem mem_nodesAfter {i count node : Nat} :
    node ∈ classes i ++ nodesAfter base classes i count ↔
      ∃ j, i ≤ j ∧ j ≤ i + count ∧ (node ∈ classes j ∨ i < j ∧ node = headAt base j) := by
  induction count generalizing i with
  | zero => grind [nodesAfter]
  | succ _ ih => grind [nodesAfter]

theorem Listed.isNode (listed : Listed base memory arenas classes) {node : Nat}
    (isIn : node ∈ headAt base 0 :: nodes base classes) : Node base arenas node := by
  rcases List.mem_cons.mp isIn with rfl | behind
  · exact .inl ⟨0, by omega, rfl⟩
  obtain ⟨i, -, small, inClass | ⟨-, rfl⟩⟩ := mem_nodesAfter.mp behind
  · obtain ⟨extent, here, -⟩ := listed.arena i (by omega) node inClass
    exact .inr ⟨extent, here⟩
  · exact .inl ⟨i, by omega, rfl⟩

/-- The free list depends on its own pointers and heads only. -/
theorem Listed.congr (listed : Listed base memory arenas classes)
    (link : ∀ word, LinkWord base arenas word → memory' word = memory word)
    (head : ∀ word, HeadWord base word → memory' word = memory word) :
    Listed base memory' arenas classes where
  closed := by
    refine listed.closed.congr ?_ ?_
    · intro node isIn
      exact link _ ⟨node, listed.isNode isIn, .inl rfl⟩
    · intro node isIn
      exact link _ ⟨node, listed.isNode isIn, .inr rfl⟩
  __ := listed
  heads := by
    intro i small
    rw [head _ ⟨i, small, .inl rfl⟩, head _ ⟨i, small, .inr rfl⟩]
    exact listed.heads i small

namespace Sound

variable {heap : Heap} {arenas : Arenas} {classes : Nat → List Nat}

theorem congr (sound : Sound heap arenas classes) {memory : Memory}
    (same : ∀ word, Owned heap.main.base arenas word → memory word = heap.memory word) :
    Sound (heap.setMemory memory) arenas classes where
  __ := sound
  tagged := sound.tagged.congr fun word tag => same word (.inl tag)
  listed :=
    sound.listed.congr (fun word link => same word (.inr (.inl link)))
      fun word head => same word (.inr (.inr head))

theorem write (sound : Sound heap arenas classes) {address : Nat} (body : Body arenas address)
    (value : Nat) : Sound (heap.setMemory (heap.memory.write address value)) arenas classes := by
  refine sound.congr fun word owned => Memory.write_other ?_
  rintro rfl
  exact sound.placed.body_not_owned body owned

end Sound

/-! ## Changes of the layout -/

variable {arenas arenas' : Arenas}

theorem Tagged.weaken {memory : Memory} (tagged : Tagged subheaps memory arenas)
    (kept : ∀ ptr arena, arena.kind ≠ .gap → arenas' ptr = some arena → arenas ptr = some arena)
    (next : ∀ ptr extent arena, Free arenas' ptr extent →
      arenas' (ptr + extent) = some arena → ∃ old, arenas (ptr + extent) = some old) :
    Tagged subheaps memory arenas' where
  used := fun ptr extent here => tagged.used ptr extent (kept _ _ (by simp) here)
  free := fun ptr extent here => tagged.free ptr extent (kept _ _ (by simp) here)
  back := by
    intro ptr extent arena here there
    obtain ⟨old, was⟩ := next ptr extent arena here there
    exact tagged.back ptr extent old (kept _ _ (by simp) here) was
  flag := fun ptr arena extent here notGap there =>
    tagged.flag ptr arena extent (kept _ _ notGap here) notGap (kept _ _ (by simp) there)
  start := fun sub subIn extent here => tagged.start sub subIn extent (kept _ _ (by simp) here)
  separate := fun ptr extent other here there =>
    tagged.separate ptr extent other (kept _ _ (by simp) here) (kept _ _ (by simp) there)

theorem Committed.weaken {commitSize : Nat → Nat} (committed : Committed subheaps commitSize arenas)
    (kept : ∀ ptr arena, arena.kind ≠ .gap → arenas' ptr = some arena → arenas ptr = some arena) :
    Committed subheaps commitSize arenas' where
  bounded := committed.bounded
  free := fun sub subIn ptr extent lower upper here =>
    committed.free sub subIn ptr extent lower upper (kept _ _ (by simp) here)
  used := fun sub subIn ptr extent lower upper here =>
    committed.used sub subIn ptr extent lower upper (kept _ _ (by simp) here)

theorem Listed.relayout {memory : Memory} (listed : Listed base memory arenas classes)
    (same : ∀ ptr extent, Free arenas' ptr extent ↔ Free arenas ptr extent) :
    Listed base memory arenas' classes where
  __ := listed
  member := fun ptr extent here => listed.member ptr extent ((same ptr extent).mp here)
  arena := by
    intro i small ptr inClass
    obtain ⟨extent, here, entry⟩ := listed.arena i small ptr inClass
    exact ⟨extent, (same ptr extent).mpr here, entry⟩

theorem update_eq_some_iff {other : Nat} {arena arena' : Arena} :
    update arenas ptr (some arena) other = some arena' ↔
      (other = ptr ∧ arena = arena') ∨ (other ≠ ptr ∧ arenas other = some arena') := by
  by_cases same : other = ptr
  · subst same
    simp
  · simp [same]

theorem of_update_gap (other : Nat) (arena : Arena) (notGap : arena.kind ≠ .gap)
    (there : update arenas ptr (some ⟨.gap, extent⟩) other = some arena) :
    arenas other = some arena := by
  rcases update_eq_some_iff.mp there with ⟨-, rfl⟩ | ⟨-, there⟩
  · exact absurd rfl notGap
  · exact there

variable {other size : Nat}

/-- What is changed at an arena of one kind is not seen at those of another. -/
theorem update_kept {kind kind' : Kind} {new : Option Arena}
    (here : arenas ptr = some ⟨kind, extent⟩) (differs : kind ≠ kind')
    (there : arenas other = some ⟨kind', size⟩) :
    update arenas ptr new other = some ⟨kind', size⟩ := by
  rw [update_of_ne]
  · exact there
  · rintro rfl
    simp [here, differs] at there

theorem of_update_other {kind kind' : Kind} (differs : kind ≠ kind')
    (there : update arenas ptr (some ⟨kind, extent⟩) other = some ⟨kind', size⟩) :
    other ≠ ptr ∧ arenas other = some ⟨kind', size⟩ := by
  rcases update_eq_some_iff.mp there with ⟨-, wrong⟩ | there
  · simp [differs] at wrong
  · exact there

theorem of_update_same {kind : Kind}
    (there : update arenas ptr (some ⟨kind, extent⟩) other = some ⟨kind, size⟩) :
    other = ptr ∧ extent = size ∨ arenas other = some ⟨kind, size⟩ := by
  rcases update_eq_some_iff.mp there with ⟨same, is⟩ | ⟨-, there⟩
  · exact .inl ⟨same, by simpa using is⟩
  · exact .inr there

/-- The layout in which a gap is cut in two. -/
def cutAt (arenas : Arenas) (ptr left right : Nat) : Arenas :=
  update (update arenas ptr (some ⟨.gap, left⟩)) (ptr + left) (some ⟨.gap, right⟩)

theorem cutAt_cases (arenas : Arenas) (ptr left right other : Nat) (arena : Arena)
    (there : cutAt arenas ptr left right other = some arena) :
    (other = ptr ∧ arena = ⟨.gap, left⟩) ∨ (other = ptr + left ∧ arena = ⟨.gap, right⟩) ∨
      (other ≠ ptr ∧ arenas other = some arena) := by
  rcases update_eq_some_iff.mp there with ⟨isSecond, is⟩ | ⟨-, there⟩
  · exact .inr (.inl ⟨isSecond, is.symm⟩)
  · rcases update_eq_some_iff.mp there with ⟨isFirst, is⟩ | ⟨off, there⟩
    · exact .inl ⟨isFirst, is.symm⟩
    · exact .inr (.inr ⟨off, there⟩)

theorem cutAt_second (arenas : Arenas) (ptr left right : Nat) :
    cutAt arenas ptr left right (ptr + left) = some ⟨.gap, right⟩ :=
  update_self ..

theorem cutAt_first {left : Nat} (positive : 0 < left) (arenas : Arenas) (ptr right : Nat) :
    cutAt arenas ptr left right ptr = some ⟨.gap, left⟩ := by
  unfold cutAt
  rw [update_of_ne (by omega), update_self]

namespace Sound

variable {heap : Heap} {arenas : Arenas} {classes : Nat → List Nat}
variable (sound : Sound heap arenas classes)
include sound

theorem relayout {arenas' : Arenas} (placed : Placed heap.main heap.others arenas')
    (kept : ∀ ptr arena, arena.kind ≠ .gap → arenas' ptr = some arena → arenas ptr = some arena)
    (free : ∀ ptr extent, Free arenas ptr extent → arenas' ptr = some ⟨.free, extent⟩) :
    Sound heap arenas' classes where
  placed := placed
  tagged := by
    refine sound.tagged.weaken kept fun ptr extent arena here there => ?_
    obtain ⟨_, subIn, inSub⟩ := placed.exists_sub here
    have more := (placed.next_iff subIn inSub here).mp ⟨arena, there⟩
    exact (sound.placed.next_iff subIn inSub (kept _ _ (by simp) here)).mpr more
  committed := sound.committed.weaken kept
  listed := sound.listed.relayout fun ptr extent => ⟨kept ptr _ (by simp), free ptr extent⟩

variable {ptr : Nat}

theorem forget {extent : Nat} (here : Used arenas ptr extent) :
    Sound heap (update arenas ptr (some ⟨.gap, extent⟩)) classes := by
  refine sound.relayout (sound.placed.rekind here .gap) ?_ ?_
  · exact of_update_gap
  · exact fun _ _ => update_kept here (by simp)

variable {left right : Nat}

theorem split (here : Gap arenas ptr (left + right))
    (leftEnough : 24 ≤ left ∧ left % 4 = 0) (rightEnough : 24 ≤ right) :
    Sound heap (cutAt arenas ptr left right) classes := by
  have wide := sound.placed.measure here
  -- no other arena starts in the gap
  have outside : ∀ other arena, arenas other = some arena → other ≠ ptr →
      other < ptr ∨ ptr + (left + right) ≤ other := by
    intro _ _ there off
    have := sound.placed.extent_apart there here off
    omega
  have cases_ := cutAt_cases arenas ptr left right
  unfold cutAt at cases_ ⊢
  refine sound.relayout (sound.placed.retile (ptr + (left + right)) here ?_ ?_ ?_ ?_ ?_) ?_ ?_
  · exact sound.placed.inside _ _ here
  · intro _ _
    rw [update_of_ne (by omega), update_of_ne (by omega)]
  · exact ⟨_, by rw [update_of_ne (by omega), update_self]⟩
  · intro _ _ _ _ there
    rcases cases_ _ _ there with ⟨rfl, rfl⟩ | ⟨rfl, rfl⟩ | ⟨off, there⟩
    · exact ⟨leftEnough.1, leftEnough.2, by simp only; omega, fun _ => ⟨_, update_self ..⟩⟩
    · simp only
      omega
    · have := outside _ _ there off
      omega
  · intro _ _ _ _ _ _ there there' _
    rcases cases_ _ _ there' with ⟨rfl, -⟩ | ⟨rfl, -⟩ | ⟨off, there'⟩
    · omega
    · rcases cases_ _ _ there with ⟨rfl, rfl⟩ | ⟨rfl, -⟩ | ⟨off, there⟩
      · exact Nat.le_refl _
      · omega
      · have := outside _ _ there off
        omega
    · have := outside _ _ there' off
      omega
  · intro _ _ notGap there
    rcases cases_ _ _ there with ⟨-, rfl⟩ | ⟨-, rfl⟩ | ⟨-, there⟩
    · exact absurd rfl notGap
    · exact absurd rfl notGap
    · exact there
  · intro other _ there
    have off : other ≠ ptr := by
      rintro rfl
      cases here.symm.trans there
    have := outside _ _ there off
    rw [update_of_ne (by omega), update_of_ne off]
    exact there

/-- Two gaps next to each other become one. -/
theorem join (here : Gap arenas ptr left)
    (there : Gap arenas (ptr + left) right) :
    Sound heap
      (update (update arenas (ptr + left) none) ptr (some ⟨.gap, left + right⟩)) classes := by
  have wide := sound.placed.measure here
  have wide' := sound.placed.measure there
  have cases_ : ∀ other arena,
      update (update arenas (ptr + left) none) ptr (some ⟨.gap, left + right⟩) other = some arena →
      (other = ptr ∧ arena = ⟨.gap, left + right⟩) ∨
        (other ≠ ptr ∧ other ≠ ptr + left ∧ arenas other = some arena) := by
    intro other _ found
    rcases update_eq_some_iff.mp found with ⟨isFirst, is⟩ | ⟨off, found⟩
    · exact .inl ⟨isFirst, is.symm⟩
    by_cases second : other = ptr + left
    · simp [second] at found
    · rw [update_of_ne second] at found
      exact .inr ⟨off, second, found⟩
  -- no other arena starts in the two gaps
  have outside : ∀ other arena, arenas other = some arena → other ≠ ptr →
      other ≠ ptr + left → other < ptr ∨ ptr + (left + right) ≤ other := by
    intro _ _ found off off'
    have := sound.placed.extent_apart found here off
    have := sound.placed.extent_apart found there off'
    omega
  refine sound.relayout (sound.placed.retile (ptr + (left + right)) here ?_ ?_ ?_ ?_ ?_) ?_ ?_
  · obtain ⟨sub, subIn, inSub⟩ := sound.placed.exists_sub here
    have more := (sound.placed.next_iff subIn inSub here).mp ⟨_, there⟩
    have above := (sound.placed.within subIn inSub here).1
    have inSub' : sub.Contains (ptr + left) := by omega
    have rest := sound.placed.within subIn inSub' there
    simp only [Nat.add_assoc] at rest
    exact ⟨sub, subIn, above, rest.2⟩
  · intro _ _
    rw [update_of_ne (by omega), update_of_ne (by omega)]
  · exact ⟨_, update_self ..⟩
  · intro _ _ _ _ found
    rcases cases_ _ _ found with ⟨rfl, rfl⟩ | ⟨off, off', found⟩
    · simp only
      omega
    · have := outside _ _ found off off'
      omega
  · intro _ _ _ _ _ _ found found' _
    rcases cases_ _ _ found with ⟨rfl, rfl⟩ | ⟨off, off', found⟩
    · rcases cases_ _ _ found' with ⟨rfl, rfl⟩ | ⟨off, off', found'⟩
      · omega
      · have := outside _ _ found' off off'
        omega
    · have := outside _ _ found off off'
      omega
  · intro _ _ notGap found
    rcases cases_ _ _ found with ⟨-, rfl⟩ | ⟨-, -, found⟩
    · exact absurd rfl notGap
    · exact found
  · intro other _ found
    have off : other ≠ ptr := by
      rintro rfl
      cases here.symm.trans found
    have off' : other ≠ ptr + left := by
      rintro rfl
      cases there.symm.trans found
    rw [update_of_ne off, update_of_ne off']
    exact found

end Sound

/-! ## Blocks in use -/

/-- The `PREV_FREE` flag of the word at an address agrees with the arena in front. -/
def FlagFits (subheaps : List SubHeap) (memory : Memory) (arenas : Arenas) (ptr : Nat) : Prop :=
  (∀ other arena, arenas other = some arena → other + arena.extent = ptr →
      arena.kind ≠ .gap → isPrevFree (memory ptr) = decide (arena.kind = .free)) ∧
    ∀ sub ∈ subheaps, sub.start = ptr → isPrevFree (memory ptr) = false

theorem Tagged.flagFits {memory : Memory} {arenas : Arenas} (tagged : Tagged subheaps memory arenas)
    {extent : Nat} (here : Used arenas ptr extent) : FlagFits subheaps memory arenas ptr := by
  constructor
  · rintro other arena there rfl notGap
    exact tagged.flag other arena extent there notGap here
  · rintro sub subIn rfl
    exact tagged.start sub subIn extent here

namespace Sound

variable {heap : Heap} {arenas : Arenas} {classes : Nat → List Nat} {ptr extent : Nat}
variable (sound : Sound heap arenas classes) (here : Gap arenas ptr extent)
include sound here

theorem occupy
    (header : sizeOf (heap.memory ptr) = extent - 8 ∧ isFree (heap.memory ptr) = false ∧
      heap.memory (ptr + 4) = inUseMagic) (fits : FlagFits heap.subheaps heap.memory arenas ptr)
    (next : ∀ size, Used arenas (ptr + extent) size →
      isPrevFree (heap.memory (ptr + extent)) = false)
    (committed : ∀ sub ∈ heap.subheaps, sub.base ≤ ptr → ptr < sub.stop →
      ptr + extent ≤ sub.base + heap.commitSize sub.base) :
    Sound heap (update arenas ptr (some ⟨.used, extent⟩)) classes := by
  have wide := sound.placed.measure here
  have isFreeIff : ∀ other size,
      update arenas ptr (some ⟨.used, extent⟩) other = some ⟨.free, size⟩ ↔
        Free arenas other size := fun _ _ =>
    ⟨fun there => (of_update_other (by simp) there).2, update_kept here (by simp)⟩
  refine
    { placed := sound.placed.rekind here .used
      tagged :=
        { used := ?_
          free := fun other size there =>
            sound.tagged.free other size ((isFreeIff other size).mp there)
          back := ?_
          flag := ?_
          start := ?_
          separate := fun other size size' there =>
            fun there' => sound.tagged.separate other size size'
              ((isFreeIff _ _).mp there) ((isFreeIff _ _).mp there') }
      committed :=
        { sound.committed with
          free := fun sub subIn other size lower upper there =>
            sound.committed.free sub subIn other size lower upper ((isFreeIff other size).mp there)
          used := ?_ }
      listed := sound.listed.relayout isFreeIff }
  · intro other size there
    rcases of_update_same there with ⟨rfl, rfl⟩ | there
    · exact header
    · exact sound.tagged.used other size there
  · intro other size _ free there
    have free := (isFreeIff other size).mp free
    rcases update_eq_some_iff.mp there with ⟨isPtr, -⟩ | ⟨-, there⟩
    · exact sound.tagged.back other size _ free (isPtr ▸ here)
    · exact sound.tagged.back other size _ free there
  · intro other arena size there notGap after
    rcases update_eq_some_iff.mp after with ⟨isPtr, -⟩ | ⟨-, later⟩
    · rcases update_eq_some_iff.mp there with ⟨rfl, is⟩ | ⟨-, there⟩
      · rw [← is] at isPtr
        simp only at isPtr
        omega
      · rw [isPtr]
        exact fits.1 other arena there isPtr notGap
    · rcases update_eq_some_iff.mp there with ⟨rfl, rfl⟩ | ⟨-, there⟩
      · rw [next size later]
        simp
      · exact sound.tagged.flag other arena size there notGap later
  · intro sub subIn size there
    rcases update_eq_some_iff.mp there with ⟨isPtr, -⟩ | ⟨-, there⟩
    · rw [isPtr]
      exact fits.2 sub subIn isPtr
    · exact sound.tagged.start sub subIn size there
  · intro sub subIn other size lower upper there
    rcases of_update_same there with ⟨rfl, rfl⟩ | there
    · exact committed sub subIn lower upper
    · exact sound.committed.used sub subIn other size lower upper there

variable {word : Nat}

/-- The contents of an occupied gap lie behind its header. -/
theorem body_of_occupy (body : Body (update arenas ptr (some ⟨.used, extent⟩)) word) :
    Body arenas word ∧ word ≠ ptr := by
  constructor
  · rcases body with ⟨other, size, there, lower, upper⟩ | ⟨other, size, there, lower, upper⟩
    · rcases of_update_same there with ⟨rfl, rfl⟩ | there
      · exact .inr ⟨other, extent, here, by omega, upper⟩
      · exact .inl ⟨other, size, there, lower, upper⟩
    · exact .inr ⟨other, size, (of_update_other (by simp) there).2, lower, upper⟩
  · rintro rfl
    refine (sound.placed.rekind here .used).body_not_owned body (.inl ?_)
    exact ⟨word, _, update_self .., by simp, .inl rfl⟩

/-- The `PREV_FREE` flag of a block behind a gap may have any value. -/
theorem reflag {size : Nat} (there : Used arenas (ptr + extent) size)
    (sameSize : sizeOf word = sizeOf (heap.memory (ptr + extent)))
    (sameFlag : isFree word = isFree (heap.memory (ptr + extent))) :
    Sound (heap.setMemory (heap.memory.write (ptr + extent) word)) arenas classes := by
  have placed := sound.placed
  -- the word is the header of the block behind the gap and nothing else
  have header : ∀ other arena, arenas other = some arena → arena.kind ≠ .gap →
      other ≠ ptr + extent →
      other ≠ ptr + extent ∧ other + 4 ≠ ptr + extent ∧
        other + arena.extent - 4 ≠ ptr + extent := by
    intro _ _ found _ off
    have := placed.extent_apart found there off
    have := placed.measure found
    omega
  have own : TagWord arenas (ptr + extent) := ⟨_, _, there, by simp, .inl rfl⟩
  refine
    { sound with
      tagged :=
        { sound.tagged with used := ?_, free := ?_, back := ?_, flag := ?_, start := ?_ }
      listed := sound.listed.congr ?_ ?_ }
  · intro other size' found
    by_cases same : other = ptr + extent
    · subst same
      obtain ⟨sizeIs, flagIs, magicIs⟩ := sound.tagged.used _ _ found
      simp only [Heap.setMemory_memory, Memory.write_same]
      rw [Memory.write_other (by omega), sameSize, sameFlag]
      exact ⟨sizeIs, flagIs, magicIs⟩
    · obtain ⟨off, off', -⟩ := header _ _ found (by simp) same
      dsimp
      rw [Memory.write_other off, Memory.write_other off']
      exact sound.tagged.used other size' found
  · intro other size' found
    have same : other ≠ ptr + extent := by
      rintro rfl
      simp [there] at found
    obtain ⟨off, off', -⟩ := header _ _ found (by simp) same
    dsimp
    rw [Memory.write_other off, Memory.write_other off']
    exact sound.tagged.free other size' found
  · intro other size' arena found after
    have same : other ≠ ptr + extent := by
      rintro rfl
      simp [there] at found
    obtain ⟨-, -, off⟩ := header _ _ found (by simp) same
    dsimp at off ⊢
    rw [Memory.write_other off]
    exact sound.tagged.back other size' arena found after
  · intro other arena size' found notGap after
    have differs : other + arena.extent ≠ ptr + extent := by
      intro meet
      obtain rfl := placed.prev_unique found here meet
      rw [here] at found
      obtain rfl := Option.some.inj found
      exact notGap rfl
    dsimp
    rw [Memory.write_other differs]
    exact sound.tagged.flag other arena size' found notGap after
  · intro sub subIn size' found
    have differs := (placed.start_no_prev subIn here).symm
    dsimp at differs ⊢
    rw [Memory.write_other differs]
    exact sound.tagged.start sub subIn size' found
  · intro _ link
    refine Memory.write_other ?_
    rintro rfl
    exact placed.link_not_tag link own
  · rintro _ ⟨_, small, _⟩
    refine Memory.write_other ?_
    have := placed.head_apart small there
    have := placed.measure there
    omega

end Sound

end Winex.OldHeap
