import Mathlib.Data.List.Nodup
import Mathlib.Logic.Function.Basic

namespace Winex.Cells

open List Function

/-!
# Doubly linked lists in a heap of cells

The allocated cells, with a value and two pointers each, are a partial function of the
pointer, and one more pointer names the first cell.  `Linked` says that following `next`
meets exactly the given entries, each with the right `prev` pointer and each once.

Each operation, a few pointer assignments, has one theorem that describes it by the list
of entries before and after.
-/

variable {P α : Type}

/-- A cell of a doubly linked list. -/
structure Cell (P α : Type) where
  value : α
  next : Option P
  prev : Option P

/-- The allocated cells and the pointer to the first one of the list. -/
structure Chain (P α : Type) where
  first : Option P
  cell : P → Option (Cell P α)

/-- The entries met by following `next`, at most `limit` of them. -/
def follow (cell : P → Option (Cell P α)) : Nat → Option P → List (P × α)
  | 0, _ => []
  | _ + 1, none => []
  | limit + 1, some ptr =>
    match cell ptr with
    | none => []
    | some node => (ptr, node.value) :: follow cell limit node.next

namespace Chain

variable (chain : Chain P α)

/-- The entries of the list, at most `limit` of them. -/
def entries (limit : Nat) : List (P × α) :=
  follow chain.cell limit chain.first

variable (ptr : P)

/-- The pointer `ptr->next`. -/
def nextOf : Option P :=
  (chain.cell ptr).bind Cell.next

variable [DecidableEq P]

/-- Fill a cell. -/
def store (node : Cell P α) : Chain P α :=
  { chain with cell := Function.update chain.cell ptr (some node) }

/-- Give a cell back. -/
def free : Chain P α :=
  { chain with cell := Function.update chain.cell ptr none }

/-- Change a cell in place. -/
def modify (change : Cell P α → Cell P α) : Chain P α :=
  { chain with
    cell := Function.update chain.cell ptr ((chain.cell ptr).map change) }

/-- `ptr->prev = prev` -/
def setPrev (prev : Option P) : Chain P α :=
  chain.modify ptr fun node => { node with prev := prev }

/-- `ptr->next = next` -/
def setNext (next : Option P) : Chain P α :=
  chain.modify ptr fun node => { node with next := next }

/-- Overwrite the value of a cell. -/
def setValue (value : α) : Chain P α :=
  chain.modify ptr fun node => { node with value := value }

/-- `if (ptr) ptr->prev = prev` -/
def setPrevOf (ptr : Option P) (prev : Option P) : Chain P α :=
  match ptr with
  | none => chain
  | some ptr => chain.setPrev ptr prev

/-- Insert a new cell in front of the list. -/
def linkFirst (value : α) : Chain P α :=
  let next := chain.first
  let chain := chain.store ptr ⟨value, next, none⟩
  let chain := chain.setPrevOf next (some ptr)
  { chain with first := some ptr }

/-- Insert a new cell behind the cell `prev`. -/
def linkAfter (prev ptr : P) (value : α) : Chain P α :=
  let next := chain.nextOf prev
  let chain := chain.store ptr ⟨value, next, some prev⟩
  let chain := chain.setPrevOf next (some ptr)
  chain.setNext prev (some ptr)

/-- Take a cell out of the list and give it back. -/
def unlink : Chain P α :=
  match chain.cell ptr with
  | none => chain
  | some node =>
    let chain := chain.setPrevOf node.next node.prev
    let chain :=
      match node.prev with
      | some prev => chain.setNext prev node.next
      | none => { chain with first := node.next }
    chain.free ptr

end Chain

/-! ## Segments of a list -/

/-- The pointer to the first of some entries, or to what follows them. -/
def headPtr : List (P × α) → Option P → Option P
  | [], stop => stop
  | entry :: _, _ => some entry.1

/-- The pointer to the last of some entries, or to what precedes them. -/
def lastPtr : Option P → List (P × α) → Option P
  | before, [] => before
  | _, entry :: rest => lastPtr (some entry.1) rest

/--
The cells of the entries are linked in this order; `before` is the `prev`
pointer of the first one and `stop` the `next` pointer of the last one.
-/
def Segment (cell : P → Option (Cell P α)) : Option P → List (P × α) → Option P → Prop
  | _, [], _ => True
  | before, entry :: rest, stop =>
    cell entry.1 = some ⟨entry.2, headPtr rest stop, before⟩ ∧ Segment cell (some entry.1) rest stop

@[simp]
theorem lastPtr_append_singleton (before : Option P) (front : List (P × α)) (entry : P × α) :
    lastPtr before (front ++ [entry]) = some entry.1 := by
  induction front generalizing before with
  | nil => rfl
  | cons _ _ ih => exact ih _

variable {entries : List (P × α)} {cell : P → Option (Cell P α)} {stop : Option P}

theorem mem_of_mem_headPtr {ptr : P} (isHead : ptr ∈ headPtr entries none) :
    ptr ∈ entries.map Prod.fst := by
  cases entries with
  | nil => cases isHead
  | cons =>
    cases isHead
    simp

variable {before : Option P}

theorem segment_append {front back : List (P × α)} :
    Segment cell before (front ++ back) stop ↔
      Segment cell before front (headPtr back stop) ∧
        Segment cell (lastPtr before front) back stop := by
  induction front generalizing before with
  | nil => simp [Segment, lastPtr]
  | cons _ rest ih =>
    have headOfRest : headPtr (rest ++ back) stop = headPtr rest (headPtr back stop) := by
      cases rest <;> rfl
    simp [Segment, lastPtr, headOfRest, ih, and_assoc]

theorem Segment.congr {cell' : P → Option (Cell P α)} (segment : Segment cell before entries stop)
    (same : ∀ ptr ∈ entries.map Prod.fst, cell' ptr = cell ptr) :
    Segment cell' before entries stop := by
  induction entries generalizing before with
  | nil => trivial
  | cons _ _ ih =>
    simp only [map_cons, forall_mem_cons] at same
    exact ⟨same.1.trans segment.1, ih segment.2 same.2⟩

/-- Following the `next` pointers meets the entries of a segment. -/
theorem Segment.follow_eq {limit : Nat} (segment : Segment cell before entries none)
    (enough : entries.length ≤ limit) : follow cell limit (headPtr entries none) = entries := by
  induction entries generalizing before limit with
  | nil => cases limit <;> rfl
  | cons head _ ih =>
    obtain ⟨limit, rfl⟩ : ∃ smaller, limit = smaller + 1 :=
      ⟨limit - 1, by simp only [length_cons] at enough; omega⟩
    have rest_eq := ih segment.2 (by simpa using enough)
    rw [headPtr, follow, segment.1]
    exact congrArg (cons head) rest_eq

section Updates

variable [DecidableEq P] {ptr : P} {before stop : Option P}

variable (chain : Chain P α)

theorem Chain.modify_cell_self (ptr : P) (change : Cell P α → Cell P α) :
    (chain.modify ptr change).cell ptr = (chain.cell ptr).map change :=
  update_self _ _ _

/-- Writing a `prev` pointer does not change which cell is the first one. -/
@[simp]
theorem Chain.setPrevOf_first (ptr prev : Option P) :
    (chain.setPrevOf ptr prev).first = chain.first := by
  cases ptr <;> rfl

variable {chain : Chain P α} {entries : List (P × α)}

variable (segment : Segment chain.cell before entries stop)
include segment

theorem Segment.modify (change : Cell P α → Cell P α) (outside : ptr ∉ entries.map Prod.fst) :
    Segment (chain.modify ptr change).cell before entries stop := by
  apply segment.congr
  intro _ member
  exact update_of_ne (ne_of_mem_of_not_mem member outside) _ _

theorem Segment.store (node : Cell P α) (outside : ptr ∉ entries.map Prod.fst) :
    Segment (chain.store ptr node).cell before entries stop := by
  apply segment.congr
  intro _ member
  exact update_of_ne (ne_of_mem_of_not_mem member outside) _ _

theorem Segment.free
    (outside : ptr ∉ entries.map Prod.fst) : Segment (chain.free ptr).cell before entries stop := by
  apply segment.congr
  intro _ member
  exact update_of_ne (ne_of_mem_of_not_mem member outside) _ _

/-- Writing the `prev` pointer of a cell outside leaves the segment. -/
theorem Segment.setPrevOf (ptr prev : Option P)
    (outside : ∀ written ∈ ptr, written ∉ entries.map Prod.fst) :
    Segment (chain.setPrevOf ptr prev).cell before entries stop := by
  cases ptr with
  | none => exact segment
  | some written => exact segment.modify _ (outside written rfl)

omit segment

/-- Writing the `prev` pointer of the first cell. -/
theorem Segment.setPrevOf_head (segment : Segment chain.cell before entries none)
    (distinct : (entries.map Prod.fst).Nodup) (prev : Option P) :
    Segment (chain.setPrevOf (headPtr entries none) prev).cell prev entries none := by
  cases entries with
  | nil => trivial
  | cons =>
    constructor
    · simp [headPtr, Chain.setPrevOf, Chain.setPrev, Chain.modify_cell_self, segment.1]
    · exact segment.2.modify _ (nodup_cons.mp distinct).1

theorem Segment.linkBefore (segment : Segment chain.cell before entries none)
    (distinct : (entries.map Prod.fst).Nodup) (outside : ptr ∉ entries.map Prod.fst) (value : α)
    (prev : Option P) :
    Segment
      ((chain.store ptr ⟨value, headPtr entries none, prev⟩).setPrevOf
        (headPtr entries none) (some ptr)).cell
      prev ((ptr, value) :: entries) none := by
  have stored : Segment (chain.store ptr ⟨value, headPtr entries none, prev⟩).cell
      prev [(ptr, value)] (headPtr entries none) :=
    ⟨update_self _ _ _, trivial⟩
  have alone : ∀ written ∈ headPtr entries none, written ∉ [(ptr, value)].map Prod.fst := by
    intro written isHead same
    obtain rfl : written = ptr := mem_singleton.mp same
    exact outside (mem_of_mem_headPtr isHead)
  exact segment_append.mpr ⟨stored.setPrevOf _ _ alone,
    (segment.store _ outside).setPrevOf_head distinct _⟩

/-- Writing the `next` pointer of the last cell. -/
theorem Segment.setNext_last {front : List (P × α)} {entry : P × α} (stop : Option P)
    (segment : Segment chain.cell before (front ++ [entry]) stop)
    (distinct : ((front ++ [entry]).map Prod.fst).Nodup) (next : Option P) :
    Segment (chain.setNext entry.1 next).cell before (front ++ [entry])
      next := by
  obtain ⟨front', last⟩ := segment_append.mp segment
  refine segment_append.mpr ⟨front'.modify _ ?_, ?_, trivial⟩
  · simp only [map_append, map_cons, map_nil] at distinct
    exact fun member => (nodup_append.mp distinct).2.2 _ member _ (by simp) rfl
  · simp [Chain.setNext, Chain.modify_cell_self, last.1, headPtr]

end Updates

/-! ## Linked lists -/

/-- The chain is a doubly linked list of these entries. -/
structure Linked (chain : Chain P α) (entries : List (P × α)) : Prop where
  distinct : (entries.map Prod.fst).Nodup
  first : chain.first = headPtr entries none
  segment : Segment chain.cell none entries none

namespace Linked

theorem empty (cell : P → Option (Cell P α)) : Linked ⟨none, cell⟩ [] :=
  ⟨nodup_nil, rfl, trivial⟩

variable {chain : Chain P α} {entries back front : List (P × α)} {entry : P × α}

theorem entries_eq (linked : Linked chain entries) {limit : Nat} (enough : entries.length ≤ limit) :
    chain.entries limit = entries := by
  rw [Chain.entries, linked.first]
  exact linked.segment.follow_eq enough

variable (linked : Linked chain (front ++ entry :: back))

include linked in
theorem cell_eq : chain.cell entry.1 = some ⟨entry.2, headPtr back none, lastPtr none front⟩ :=
  (segment_append.mp linked.segment).2.1

variable {ptr : P}

theorem not_mem_of_fresh (linked : Linked chain entries) (fresh : chain.cell ptr = none) :
    ptr ∉ entries.map Prod.fst := by
  intro member
  obtain ⟨_, entryMember, rfl⟩ := mem_map.mp member
  obtain ⟨_, _, rfl⟩ := append_of_mem entryMember
  rw [linked.cell_eq] at fresh
  cases fresh

variable [DecidableEq P]

theorem linkFirst (linked : Linked chain entries) (outside : ptr ∉ entries.map Prod.fst) (value : α)
    : Linked (chain.linkFirst ptr value) ((ptr, value) :: entries) := by
  refine ⟨nodup_cons.mpr ⟨outside, linked.distinct⟩, rfl, ?_⟩
  have segment := linked.segment.linkBefore linked.distinct outside value none
  rw [← linked.first] at segment
  exact segment

/-- Inserting a cell behind another one. -/
theorem linkAfter {prev : P × α} (linked : Linked chain (front ++ prev :: back))
    (outside : ptr ∉ (front ++ prev :: back).map Prod.fst) (value : α) :
    Linked (chain.linkAfter prev.1 ptr value) (front ++ prev :: (ptr, value) :: back) := by
  have next : chain.nextOf prev.1 = headPtr back none := by
    rw [Chain.nextOf, linked.cell_eq]
    rfl
  rw [append_cons] at linked outside ⊢
  have distinct := linked.distinct
  rw [map_append] at distinct outside
  obtain ⟨frontDistinct, backDistinct, apart⟩ := nodup_append'.mp distinct
  obtain ⟨outsideFront, outsideBack⟩ := not_or.mp (mem_append.not.mp outside)
  obtain ⟨frontSegment, backSegment⟩ := segment_append.mp linked.segment
  have prevFront : prev.1 ∈ (front ++ [prev]).map Prod.fst := by simp
  refine ⟨?_, ?_, ?_⟩
  · rw [map_append, map_cons, nodup_middle]
    exact nodup_cons.mpr ⟨outside, distinct⟩
  · simp only [Chain.linkAfter, Chain.setNext, Chain.modify,
      Chain.setPrevOf_first, Chain.store, linked.first]
    cases front <;> rfl
  · rw [Chain.linkAfter, next]
    refine segment_append.mpr ⟨Segment.setNext_last (headPtr back none) ?_ frontDistinct _, ?_⟩
    · exact (frontSegment.store _ outsideFront).setPrevOf _ _
        fun written isHead member => apart member (mem_of_mem_headPtr isHead)
    · rw [lastPtr_append_singleton]
      refine (backSegment.linkBefore backDistinct outsideBack value (some prev.1)).modify _ ?_
      simp only [map_cons, mem_cons, not_or]
      exact ⟨fun same => outsideFront (same ▸ prevFront), apart prevFront⟩

include linked

theorem setValue (value : α) :
    Linked (chain.setValue entry.1 value) (front ++ (entry.1, value) :: back) := by
  have distinct := linked.distinct
  rw [map_append, map_cons, nodup_middle] at distinct
  have outside := (nodup_cons.mp distinct).1
  obtain ⟨outsideFront, outsideBack⟩ := not_or.mp (mem_append.not.mp outside)
  obtain ⟨frontSegment, entryCell, backSegment⟩ := segment_append.mp linked.segment
  refine ⟨?_, ?_, segment_append.mpr
    ⟨frontSegment.modify _ outsideFront, ?_, backSegment.modify _ outsideBack⟩⟩
  · rw [map_append, map_cons, nodup_middle]
    exact distinct
  · show chain.first = _
    rw [linked.first]
    cases front <;> rfl
  · simp [Chain.setValue, Chain.modify_cell_self, entryCell]

theorem unlink : Linked (chain.unlink entry.1) (front ++ back) := by
  have distinct := linked.distinct
  rw [map_append, map_cons, nodup_middle] at distinct
  obtain ⟨outside, distinct⟩ := nodup_cons.mp distinct
  obtain ⟨frontDistinct, backDistinct, apart⟩ := nodup_append'.mp distinct
  obtain ⟨outsideFront, outsideBack⟩ := not_or.mp (mem_append.not.mp outside)
  obtain ⟨frontSegment, -, backSegment⟩ := segment_append.mp linked.segment
  have backLinked := backSegment.setPrevOf_head backDistinct (lastPtr none front)
  refine ⟨by rwa [map_append], ?_, ?_⟩
  · rw [Chain.unlink, linked.cell_eq]
    rcases eq_nil_or_concat' front with rfl | ⟨before, last, rfl⟩
    · rfl
    · simp only [lastPtr_append_singleton, Chain.free, Chain.setNext,
        Chain.modify, Chain.setPrevOf_first, linked.first]
      cases before <;> rfl
  · rw [Chain.unlink, linked.cell_eq]
    rcases eq_nil_or_concat' front with rfl | ⟨_, _, rfl⟩
    · exact backLinked.free outsideBack
    simp only [lastPtr_append_singleton] at backLinked ⊢
    refine segment_append.mpr ⟨?_, ?_⟩
    · refine (Segment.setNext_last (some entry.1) ?_ frontDistinct _).free outsideFront
      exact frontSegment.setPrevOf _ _ fun written isHead member =>
        apart member (mem_of_mem_headPtr isHead)
    · rw [lastPtr_append_singleton]
      refine (backLinked.modify _ ?_).free outsideBack
      exact apart (by simp)

end Linked

end Winex.Cells
