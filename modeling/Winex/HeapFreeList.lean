import Winex.HeapGaps
import Mathlib.Tactic.IntervalCases

namespace Winex.OldHeap

open Circular List
open Function (update update_eq_self update_of_ne update_self)

/-!
# The free list of a heap

Taking a free arena out of the list turns it into a gap; putting a gap with the right
tags into the list turns it into a free arena.  Outside the arena only pointers of other
nodes change.
-/

variable {base i : Nat}

variable {classes : Nat → List Nat} {arenas : Arenas} {subheaps : List SubHeap}

/-- The nodes of the list, cut around the class `i`. -/
theorem nodes_update (small : i < 4) (members : List Nat) :
    nodes base (update classes i members) =
      nodesUpTo base classes i ++ (members ++ nodesAfter base classes i (3 - i)) := by
  interval_cases i <;> simp [nodes, nodesUpTo, nodesAfter, update]

theorem nodes_eq (small : i < 4) :
    nodes base classes =
      nodesUpTo base classes i ++ (classes i ++ nodesAfter base classes i (3 - i)) := by
  rw [← nodes_update small, update_eq_self]

/-- The last node in front of class `i` is its head. -/
theorem head_mem_getLast (base : Nat) (classes : Nat → List Nat) (i : Nat) :
    headAt base i ∈ (headAt base 0 :: nodesUpTo base classes i).getLast? := by
  cases i with
  | zero => simp [nodesUpTo]
  | succ => simp [nodesUpTo, getLast?_cons]

/-- The first node behind class `i` is the next head. -/
theorem head_mem_head (classes : Nat → List Nat) (small : i < 4) :
    headAt base ((i + 1) % 4) ∈ (nodesAfter base classes i (3 - i) ++ [headAt base 0]).head? := by
  interval_cases i <;> simp [nodesAfter]

theorem Memory.write_field (memory : Memory) (target field value node : Nat) :
    memory.write (target + field) value (node + field) =
      if node = target then value else memory (node + field) := by
  by_cases same : node = target
  · simp [same]
  · rw [if_neg same, Memory.write_other (by omega)]

theorem Placed.links_apart {main : SubHeap} {others : List SubHeap}
    (placed : Placed main others arenas) {node other : Nat} (isNode : Node main.base arenas node)
    (isOther : Node main.base arenas other) : node + 8 ≠ other + 12 := by
  by_cases same : node = other
  · omega
  · have := placed.node_apart isNode isOther same
    omega

namespace Sound

variable {heap : Heap} {arenas : Arenas} {classes : Nat → List Nat} {ptr extent : Nat}
variable (sound : Sound heap arenas classes)
include sound

theorem entry_lt {kind : Kind} (here : arenas ptr = some ⟨kind, extent⟩) :
    entryOf (extent - 16) < 4 := by
  have := sound.placed.measure here
  exact entryOf_lt (by omega)

variable (here : Free arenas ptr extent)
include here

theorem cut :
    ∃ before after, classes (entryOf (extent - 16)) = before ++ ptr :: after ∧
      nodes heap.main.base classes =
        (nodesUpTo heap.main.base classes (entryOf (extent - 16)) ++ before) ++
          ptr :: (after ++ nodesAfter heap.main.base classes (entryOf (extent - 16))
            (3 - entryOf (extent - 16))) := by
  obtain ⟨before, after, cut⟩ := append_of_mem (sound.listed.member ptr extent here)
  refine ⟨before, after, cut, ?_⟩
  rw [nodes_eq (sound.entry_lt here), cut]
  simp

/-- The neighbours of a free arena in the list are other nodes. -/
theorem neighbours :
    (Node heap.main.base arenas (heap.memory (ptr + 8)) ∧ heap.memory (ptr + 8) ≠ ptr) ∧
      (Node heap.main.base arenas (heap.memory (ptr + 12)) ∧ heap.memory (ptr + 12) ≠ ptr) := by
  obtain ⟨_, _, -, all⟩ := sound.cut here
  have distinct := sound.listed.distinct
  have isNode := @sound.listed.isNode
  rw [all] at distinct isNode
  obtain ⟨lastIs, -, headIs, -⟩ := (all ▸ sound.listed.closed).neighbours
  have lastIn := mem_of_getLast? lastIs
  have headIn := mem_of_head? headIs
  simp only [links] at lastIn headIn
  constructor
  · refine ⟨isNode ?_, ?_⟩
    · simp only [mem_cons, mem_append, not_mem_nil, or_false] at headIn ⊢
      tauto
    · intro same
      grind
  · refine ⟨isNode ?_, ?_⟩
    · simp only [mem_cons, mem_append] at lastIn ⊢
      tauto
    · intro same
      grind

theorem unlink_eq :
    unlink heap.memory ptr =
      (heap.memory.write (heap.memory (ptr + 8) + 12) (heap.memory (ptr + 12))).write
        (heap.memory (ptr + 12) + 8) (heap.memory (ptr + 8)) := by
  obtain ⟨⟨nextNode, _⟩, -⟩ := sound.neighbours here
  have own : Node heap.main.base arenas ptr := .inr ⟨extent, here⟩
  have apart := sound.placed.links_apart own nextNode
  unfold unlink
  simp only
  rw [Memory.write_other (by omega), Memory.write_other apart]

/-- A free arena is taken out of the list: it becomes a gap, and only pointers of
other nodes change. -/
protected theorem unlink :
    ∃ classes', Sound (heap.setMemory (unlink heap.memory ptr))
        (update arenas ptr (some ⟨.gap, extent⟩)) classes' ∧
      ∀ word, ¬LinkWord heap.main.base (update arenas ptr (some ⟨.gap, extent⟩)) word →
        unlink heap.memory ptr word = heap.memory word := by
  obtain ⟨⟨nextNode, nextNe⟩, prevNode, prevNe⟩ := sound.neighbours here
  obtain ⟨before, after, inClass, all⟩ := sound.cut here
  have small := sound.entry_lt here
  -- the nodes that remain
  have remains : ∀ node, Node heap.main.base arenas node → node ≠ ptr →
      Node heap.main.base (update arenas ptr (some ⟨.gap, extent⟩)) node := by
    rintro _ (⟨i, less, rfl⟩ | ⟨size, there⟩) differs
    · exact .inl ⟨i, less, rfl⟩
    · exact .inr ⟨size, (update_of_ne differs ..).trans there⟩
  have frame : ∀ word, ¬LinkWord heap.main.base (update arenas ptr (some ⟨.gap, extent⟩)) word →
      unlink heap.memory ptr word = heap.memory word := by
    intro _ noLink
    rw [sound.unlink_eq here, Memory.write_other, Memory.write_other]
    · rintro rfl
      exact noLink ⟨_, remains _ nextNode nextNe, .inr rfl⟩
    · rintro rfl
      exact noLink ⟨_, remains _ prevNode prevNe, .inl rfl⟩
  have placed' := sound.placed.rekind here .gap
  have kept := @of_update_gap ptr arenas extent
  refine ⟨update classes (entryOf (extent - 16)) (before ++ after), ?_, frame⟩
  refine
    { placed := placed'
      tagged := ?_
      committed := sound.committed.weaken kept
      listed := ?_ }
  · refine (sound.tagged.weaken kept fun other size arena free there => ?_).congr ?_
    · rcases update_eq_some_iff.mp there with ⟨isPtr, -⟩ | ⟨-, there⟩
      · exact ⟨_, isPtr ▸ here⟩
      · exact ⟨_, there⟩
    · intro word tag
      exact frame word fun link => placed'.link_not_tag link tag
  · have distinct := sound.listed.distinct
    rw [all] at distinct
    have isOther : ∀ other, other ∈ headAt heap.main.base 0 ::
        ((nodesUpTo heap.main.base classes (entryOf (extent - 16)) ++ before) ++
          (after ++ nodesAfter heap.main.base classes (entryOf (extent - 16))
            (3 - entryOf (extent - 16)))) → Node heap.main.base arenas other := by
      intro _ isIn
      refine sound.listed.isNode ?_
      rw [all]
      simp only [mem_cons, mem_append] at isIn ⊢
      tauto
    have notAgain : ptr ∉ before ++ after := by grind
    refine
      { closed := ?_
        distinct := ?_
        member := ?_
        arena := ?_
        heads := ?_ }
    · rw [nodes_update small, append_assoc, ← append_assoc]
      refine (all ▸ sound.listed.closed).remove distinct ?_ ?_
      · intro other isIn
        have apart := sound.placed.links_apart (isOther other isIn) nextNode
        dsimp [links]
        rw [sound.unlink_eq here, Memory.write_field, Memory.write_other apart]
        rfl
      · intro other isIn
        have apart := sound.placed.links_apart prevNode (isOther other isIn)
        dsimp [links]
        rw [sound.unlink_eq here, Memory.write_other apart.symm, Memory.write_field]
        rfl
    · rw [nodes_update small]
      refine distinct.sublist ?_
      simp
    · intro other size free
      have isOther : other ≠ ptr := by
        rintro rfl
        simp at free
      rw [update_of_ne isOther] at free
      have isIn := sound.listed.member other size free
      by_cases same : entryOf (size - 16) = entryOf (extent - 16)
      · rw [same, inClass] at isIn
        rw [same, update_self]
        simpa [isOther] using isIn
      · rw [update_of_ne same]
        exact isIn
    · intro i less other isIn
      have wasIn : other ∈ classes i := by
        by_cases same : i = entryOf (extent - 16)
        · subst same
          rw [update_self] at isIn
          rw [inClass]
          simp only [mem_append, mem_cons] at isIn ⊢
          tauto
        · rwa [update_of_ne same] at isIn
      obtain ⟨size, there, entry⟩ := sound.listed.arena i less other wasIn
      refine ⟨size, ?_, entry⟩
      rw [update_of_ne]
      · exact there
      · rintro rfl
        obtain rfl : extent = size := by
          have := Option.some.inj (here.symm.trans there)
          simpa using this
        rw [← entry, update_self] at isIn
        exact notAgain isIn
    · intro i less
      have noLink : ∀ word, HeadWord heap.main.base word →
          unlink heap.memory ptr word = heap.memory word :=
        fun word isHead => frame word fun link => placed'.link_not_head link isHead
      dsimp
      rw [noLink _ ⟨i, less, .inl rfl⟩, noLink _ ⟨i, less, .inr rfl⟩]
      exact sound.listed.heads i less

end Sound

/-- The memory after an arena was put between two nodes and marked as free. -/
def linkBetween (memory : Memory) (ptr left right : Nat) : Memory :=
  ((((memory.write ptr (setFree (memory ptr))).write (ptr + 8) right).write
    (ptr + 12) left).write (left + 8) ptr).write (right + 12) ptr

variable {ptr extent : Nat}

/-- What `linkBetween` writes into the arena and its neighbours. -/
theorem linkBetween_apply (memory : Memory) {left right : Nat} (enough : 24 ≤ extent)
    (leftApart : left + 16 ≤ ptr ∨ ptr + extent ≤ left)
    (rightApart : right + 16 ≤ ptr ∨ ptr + extent ≤ right) (linksApart : left + 8 ≠ right + 12) :
    linkBetween memory ptr left right ptr = setFree (memory ptr) ∧
      linkBetween memory ptr left right (ptr + 8) = right ∧
      linkBetween memory ptr left right (ptr + 12) = left ∧
      linkBetween memory ptr left right (left + 8) = ptr ∧
      linkBetween memory ptr left right (right + 12) = ptr ∧
      ∀ word, word ≠ ptr → word ≠ ptr + 8 → word ≠ ptr + 12 → word ≠ left + 8 →
        word ≠ right + 12 → linkBetween memory ptr left right word = memory word := by
  unfold linkBetween
  refine ⟨?_, ?_, ?_, ?_, ?_, fun _ off off8 off12 offLeft offRight => ?_⟩
  on_goal 6 =>
    rw [Memory.write_other offRight, Memory.write_other offLeft, Memory.write_other off12,
      Memory.write_other off8, Memory.write_other off]
  all_goals
    repeat rw [Memory.write_other (by omega)]
    rw [Memory.write_same]

theorem Tagged.release {memory : Memory} (tagged : Tagged subheaps memory arenas)
    (here : Gap arenas ptr extent) (positive : 0 < extent)
    (header : memory ptr = extent - 16 + 1 ∧ memory (ptr + 4) = freeMagic)
    (back : ∀ next, arenas (ptr + extent) = some next → memory (ptr + extent - 4) = ptr)
    (flag : ∀ size, Used arenas (ptr + extent) size → isPrevFree (memory (ptr + extent)) = true)
    (nextUsed : ∀ size, arenas (ptr + extent) ≠ some ⟨.free, size⟩)
    (prevUsed : ∀ other size, Free arenas other size → other + size ≠ ptr) :
    Tagged subheaps memory (update arenas ptr (some ⟨.free, extent⟩)) := by
  have used : ∀ other size, update arenas ptr (some ⟨.free, extent⟩) other = some ⟨.used, size⟩ →
      Used arenas other size := fun _ _ there => (of_update_other (by simp) there).2
  refine
    { used := fun other size there => tagged.used other size (used _ _ there)
      free := ?_
      back := ?_
      flag := ?_
      start := fun sub subIn size there => tagged.start sub subIn size (used _ _ there)
      separate := ?_ }
  · intro other size there
    rcases of_update_same there with ⟨rfl, rfl⟩ | there
    · exact header
    · exact tagged.free other size there
  · intro other size next there after
    rcases of_update_same there with ⟨rfl, rfl⟩ | there
    · rw [update_of_ne (by omega)] at after
      exact back next after
    · rcases update_eq_some_iff.mp after with ⟨isPtr, -⟩ | ⟨-, after⟩
      · exact tagged.back other size _ there (isPtr ▸ here)
      · exact tagged.back other size _ there after
  · intro other arena size there notGap after
    have later := used _ _ after
    rcases update_eq_some_iff.mp there with ⟨rfl, rfl⟩ | ⟨-, there⟩
    · rw [flag size later]
      simp
    · exact tagged.flag other arena size there notGap later
  · intro other size size' there after
    rcases of_update_same there with ⟨rfl, rfl⟩ | there
    · rw [update_of_ne (by omega)] at after
      exact nextUsed size' after
    · rcases update_eq_some_iff.mp after with ⟨isPtr, -⟩ | ⟨-, after⟩
      · exact prevUsed other size there isPtr
      · exact tagged.separate other size size' there after

theorem Committed.release {commitSize : Nat → Nat}
    (committed : Committed subheaps commitSize arenas)
    (header : ∀ sub ∈ subheaps, sub.base ≤ ptr → ptr < sub.stop →
      ptr + 16 ≤ sub.base + commitSize sub.base) :
    Committed subheaps commitSize (update arenas ptr (some ⟨.free, extent⟩)) where
  bounded := committed.bounded
  free := by
    intro sub subIn other size lower upper there
    rcases update_eq_some_iff.mp there with ⟨rfl, -⟩ | ⟨-, there⟩
    · exact header sub subIn lower upper
    · exact committed.free sub subIn other size lower upper there
  used := by
    intro sub subIn other size lower upper there
    exact committed.used sub subIn other size lower upper (of_update_other (by simp) there).2

/-- The heap has become one with the arenas, with no change in their bodies. -/
abbrev Yields (heap heap' : Heap) (arenas : Arenas) : Prop :=
  ∃ memory classes, heap' = heap.setMemory memory ∧ Sound (heap.setMemory memory) arenas classes ∧
    ∀ word, Body arenas word → memory word = heap.memory word

/-- A gap has become a free arena; outside of it only pointers of nodes have changed. -/
abbrev Frees (heap heap' : Heap) (arenas : Arenas) (ptr extent : Nat) : Prop :=
  ∃ memory classes, heap' = heap.setMemory memory ∧
    Sound (heap.setMemory memory) (update arenas ptr (some ⟨.free, extent⟩)) classes ∧
    ∀ word, ¬LinkWord heap.main.base arenas word → word < ptr ∨ ptr + extent ≤ word →
      memory word = heap.memory word

/-- A gap that is ready to become a free arena: the tags are set, apart from the
flag of the arena itself, and no neighbour is free. -/
structure Ready (heap : Heap) (arenas : Arenas) (ptr extent : Nat) : Prop where
  here : arenas ptr = some ⟨.gap, extent⟩
  size : heap.memory ptr = extent - 16
  magic : heap.memory (ptr + 4) = freeMagic
  back : ∀ next, arenas (ptr + extent) = some next → heap.memory (ptr + extent - 4) = ptr
  flag : ∀ size, arenas (ptr + extent) = some ⟨.used, size⟩ →
    isPrevFree (heap.memory (ptr + extent)) = true
  nextUsed : ∀ size, arenas (ptr + extent) ≠ some ⟨.free, size⟩
  prevUsed : ∀ other size, arenas other = some ⟨.free, size⟩ → other + size ≠ ptr
  committed : ∀ sub ∈ heap.subheaps, sub.base ≤ ptr → ptr < sub.stop →
    ptr + 16 ≤ sub.base + heap.commitSize sub.base

namespace Sound

variable {heap : Heap} {arenas : Arenas} {classes : Nat → List Nat} {ptr extent : Nat}
variable (sound : Sound heap arenas classes)
include sound

theorem node_ne_gap {node : Nat} (here : Gap arenas ptr extent)
    (isNode : Node heap.main.base arenas node) : node ≠ ptr := by
  rintro rfl
  rcases isNode with ⟨_, less, rfl⟩ | ⟨_, there⟩
  · have := sound.placed.head_apart less here
    have := sound.placed.measure here
    omega
  · simp [here] at there

variable {back front : List Nat} {i : Nat}

theorem place (here : Gap arenas ptr extent) (isEntry : entryOf (extent - 16) = i)
    (inClass : classes i = front ++ back) :
    ∃ left right, left ∈ (headAt heap.main.base 0 ::
        (nodesUpTo heap.main.base classes i ++ front)).getLast? ∧
      right ∈ (back ++ nodesAfter heap.main.base classes i (3 - i) ++
        [headAt heap.main.base 0]).head? ∧
      Node heap.main.base arenas left ∧ Node heap.main.base arenas right ∧
      heap.memory (left + 8) = right ∧ heap.memory (right + 12) = left := by
  have small := isEntry ▸ sound.entry_lt here
  have closed := sound.listed.closed
  have isNode := @sound.listed.isNode
  rw [nodes_eq small, inClass, append_assoc, ← append_assoc] at closed isNode
  obtain ⟨left, leftIs⟩ : ∃ left, left ∈ (headAt heap.main.base 0 ::
      (nodesUpTo heap.main.base classes i ++ front)).getLast? :=
    ⟨_, getLast?_eq_some_getLast (cons_ne_nil _ _)⟩
  obtain ⟨right, rightIs⟩ : ∃ right,
      right ∈ (back ++ nodesAfter heap.main.base classes i (3 - i) ++
        [headAt heap.main.base 0]).head? :=
    ⟨_, head?_eq_some_head (by simp)⟩
  have joined := closed.joined leftIs rightIs
  have leftNode : Node heap.main.base arenas left := by
    have := mem_of_getLast? leftIs
    refine isNode ?_
    simp only [mem_cons, mem_append] at this ⊢
    tauto
  have rightNode : Node heap.main.base arenas right := by
    have := mem_of_head? rightIs
    refine isNode ?_
    simp only [mem_cons, mem_append, not_mem_nil, or_false] at this ⊢
    tauto
  exact ⟨left, right, leftIs, rightIs, leftNode, rightNode, joined.1, joined.2⟩

variable (ready : Ready heap arenas ptr extent)
include ready

/-- A gap is put into the list of its class and becomes a free arena. -/
theorem insert (isEntry : entryOf (extent - 16) = i) (inClass : classes i = front ++ back) :
    ∃ left right, left ∈ (headAt heap.main.base 0 ::
        (nodesUpTo heap.main.base classes i ++ front)).getLast? ∧
      right ∈ (back ++ nodesAfter heap.main.base classes i (3 - i) ++
        [headAt heap.main.base 0]).head? ∧
      (heap.memory (left + 8) = right ∧ heap.memory (right + 12) = left) ∧
      ((left + 16 ≤ ptr ∨ ptr + extent ≤ left) ∧
        (right + 16 ≤ ptr ∨ ptr + extent ≤ right) ∧ left + 8 ≠ right + 12) ∧
      Sound (heap.setMemory (linkBetween heap.memory ptr left right))
        (update arenas ptr (some ⟨.free, extent⟩))
        (update classes i (front ++ ptr :: back)) ∧
      ∀ word, ¬LinkWord heap.main.base arenas word → word < ptr ∨ ptr + extent ≤ word →
        linkBetween heap.memory ptr left right word = heap.memory word := by
  have here := ready.here
  have placed := sound.placed
  have enough := placed.measure here
  have small := isEntry ▸ sound.entry_lt here
  obtain ⟨left, right, leftIs, rightIs, leftNode, rightNode, next, prev⟩ :=
    sound.place here isEntry inClass
  have leftApart := placed.node_extent leftNode here (sound.node_ne_gap here leftNode)
  have rightApart := placed.node_extent rightNode here (sound.node_ne_gap here rightNode)
  have linksApart := placed.links_apart leftNode rightNode
  obtain ⟨atPtr, atNext, atPrev, atLeft, atRight, elsewhere⟩ :=
    linkBetween_apply heap.memory enough.1 leftApart rightApart linksApart
  have frame : ∀ word, ¬LinkWord heap.main.base arenas word →
      word < ptr ∨ ptr + extent ≤ word →
      linkBetween heap.memory ptr left right word = heap.memory word := by
    intro word noLink _
    refine elsewhere word (by omega) (by omega) (by omega) ?_ ?_
    · rintro rfl
      exact noLink ⟨left, leftNode, .inl rfl⟩
    · rintro rfl
      exact noLink ⟨right, rightNode, .inr rfl⟩
  refine ⟨left, right, leftIs, rightIs, ⟨next, prev⟩,
    ⟨leftApart, rightApart, linksApart⟩, ?_, frame⟩
  have all : nodes heap.main.base classes =
      (nodesUpTo heap.main.base classes i ++ front) ++
        (back ++ nodesAfter heap.main.base classes i (3 - i)) := by
    rw [nodes_eq small, inClass]
    simp
  have distinct := sound.listed.distinct
  have isNode := @sound.listed.isNode
  rw [all] at distinct isNode
  have ownFrame : ∀ word, ¬LinkWord heap.main.base arenas word → Owned heap.main.base arenas word →
      linkBetween heap.memory ptr left right word = heap.memory word := by
    intro word noLink owned
    refine frame word noLink ?_
    by_contra inGap
    exact placed.body_not_owned (.inr ⟨ptr, extent, here, by omega, by omega⟩) owned
  have tagFrame word (tag : TagWord arenas word) :=
    ownFrame word (fun link => placed.link_not_tag link tag) (.inl tag)
  have headFrame word (head : HeadWord heap.main.base word) :=
    ownFrame word (fun link => placed.link_not_head link head) (.inr (.inr head))
  refine
    { placed := placed.rekind here .free
      tagged := (sound.tagged.congr tagFrame).release here (by omega) ⟨?_, ?_⟩ ?_ ?_
        ready.nextUsed ready.prevUsed
      committed := sound.committed.release ready.committed
      listed :=
        { closed := ?_
          distinct := ?_
          member := ?_
          arena := ?_
          heads := ?_ } }
  · rw [atPtr, ready.size]
    unfold setFree
    omega
  · rw [elsewhere _ (by omega) (by omega) (by omega) (by omega) (by omega)]
    exact ready.magic
  · intro next after
    rw [elsewhere _ (by omega) (by omega) (by omega) (by omega) (by omega)]
    exact ready.back next after
  · intro size after
    rw [tagFrame _ ⟨_, _, after, by simp, .inl rfl⟩]
    exact ready.flag size after
  · rw [nodes_update small, append_assoc, cons_append, ← append_assoc]
    refine (all ▸ sound.listed.closed).insert distinct leftIs rightIs atNext atPrev ?_ ?_
    · intro other isIn
      have otherNode := isNode isIn
      dsimp [links]
      by_cases isLeft : other = left
      · rw [if_pos isLeft, isLeft, atLeft]
      · have := placed.node_extent otherNode here (sound.node_ne_gap here otherNode)
        have := placed.links_apart otherNode rightNode
        rw [if_neg isLeft, elsewhere _ (by omega) (by omega) (by omega) (by omega) (by omega)]
    · intro other isIn
      have otherNode := isNode isIn
      dsimp [links]
      by_cases isRight : other = right
      · rw [if_pos isRight, isRight, atRight]
      · have := placed.node_extent otherNode here (sound.node_ne_gap here otherNode)
        have := placed.links_apart leftNode otherNode
        rw [if_neg isRight, elsewhere _ (by omega) (by omega) (by omega) (by omega) (by omega)]
  · rw [nodes_update small, append_assoc, cons_append, ← append_assoc]
    rw [← cons_append]
    refine perm_middle.nodup_iff.mpr (nodup_cons.mpr ⟨fun isIn => ?_, distinct⟩)
    exact sound.node_ne_gap here (isNode isIn) rfl
  · intro other size there
    rcases of_update_same there with ⟨rfl, rfl⟩ | there
    · simp [isEntry]
    have isIn := sound.listed.member other size there
    by_cases same : entryOf (size - 16) = i
    · rw [same, inClass] at isIn
      rw [same, update_self]
      simp only [mem_append, mem_cons] at isIn ⊢
      tauto
    · rw [update_of_ne same]
      exact isIn
  · intro j less other isIn
    by_cases isPtr : other = ptr
    · subst isPtr
      refine ⟨extent, update_self .., ?_⟩
      by_contra differs
      rw [isEntry] at differs
      rw [update_of_ne (Ne.symm differs)] at isIn
      obtain ⟨size, there, -⟩ := sound.listed.arena j less other isIn
      simp [here] at there
    · have wasIn : other ∈ classes j := by
        by_cases same : j = i
        · subst same
          rw [inClass]
          simpa [isPtr] using isIn
        · rwa [update_of_ne same] at isIn
      obtain ⟨size, there, entry⟩ := sound.listed.arena j less other wasIn
      exact ⟨size, (update_of_ne isPtr ..).trans there, entry⟩
  · intro i less
    dsimp
    rw [headFrame _ ⟨i, less, .inl rfl⟩, headFrame _ ⟨i, less, .inr rfl⟩]
    exact sound.listed.heads i less

theorem insertAtFront : Frees heap (insertFreeBlockAtFront heap ptr) arenas ptr extent := by
  have enough := (sound.placed.measure ready.here).1
  obtain ⟨left, right, leftIs, rightIs, ⟨next, prev⟩, ⟨leftApart, rightApart, linksApart⟩,
    result, frame⟩ := sound.insert ready rfl (nil_append _).symm
  have isHead : left = heap.head (entryOf (heap.memory ptr)) := by
    rw [append_nil] at leftIs
    rw [ready.size]
    exact Option.mem_unique leftIs (head_mem_getLast _ _ _)
  refine ⟨_, _, ?_, result, frame⟩
  unfold insertFreeBlockAtFront
  simp only
  rw [← isHead, Memory.write_other (by omega : left + 8 ≠ ptr), next, Memory.write_same]
  congr 1
  funext word
  simp only [linkBetween, Memory.write_apply]
  split_ifs <;> first | rfl | omega

theorem insertAtEnd : Frees heap (insertFreeBlockAtEnd heap ptr) arenas ptr extent := by
  have enough := (sound.placed.measure ready.here).1
  have small := sound.entry_lt ready.here
  obtain ⟨left, right, leftIs, rightIs, ⟨next, prev⟩, ⟨leftApart, rightApart, linksApart⟩,
    result, frame⟩ := sound.insert ready rfl (append_nil _).symm
  have isHead : right = heap.head ((entryOf (heap.memory ptr) + 1) % 4) := by
    rw [ready.size]
    exact Option.mem_unique rightIs (head_mem_head _ small)
  refine ⟨_, _, ?_, result, frame⟩
  unfold insertFreeBlockAtEnd
  simp only
  rw [← isHead, Memory.write_other (by omega : right + 12 ≠ ptr + 8),
    Memory.write_other (by omega : right + 12 ≠ ptr), prev,
    Memory.write_other (by omega : ptr + 8 ≠ ptr + 12), Memory.write_same,
    Memory.write_other (by omega : ptr + 12 ≠ right + 12), Memory.write_same]
  congr 1
  funext word
  simp only [linkBetween, Memory.write_apply]
  split_ifs <;> rfl

end Sound

end Winex.OldHeap
