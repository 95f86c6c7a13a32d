import Mathlib.Data.List.Chain
import Mathlib.Data.List.Nodup

namespace Winex.Circular

open List

/-!
# Circular doubly linked lists

A circular list is given by one distinguished node and the list of the others.  `Closed`
says that following `next` visits them in that order and comes back, and that every
`prev` pointer is the inverse.  Two theorems describe taking one node out and putting a
new one between two neighbours.
-/

variable {α : Type}

/-- The two pointers of every node. -/
structure Links (α : Type) where
  next : α → α
  prev : α → α

/-- Two neighbours point at each other. -/
def Joined (links : Links α) (left right : α) : Prop :=
  links.next left = right ∧ links.prev right = left

/-- Following `next` from `first` visits `rest` in order and comes back. -/
def Closed (links : Links α) (first : α) (rest : List α) : Prop :=
  List.IsChain (Joined links) (first :: (rest ++ [first]))

variable {links changed : Links α} {first node left right : α}
  {before after rest : List α}

theorem Closed.neighbours (closed : Closed links first (before ++ node :: after)) :
    links.prev node ∈ (first :: before).getLast? ∧
      links.next (links.prev node) = node ∧
      links.next node ∈ (after ++ [first]).head? ∧
      links.prev (links.next node) = node := by
  have chain : List.IsChain (Joined links) ((first :: before) ++ node :: (after ++ [first])) := by
    simpa [Closed] using closed
  obtain ⟨-, tail, joint⟩ := isChain_append.mp chain
  obtain ⟨last, lastIs⟩ : ∃ last, last ∈ (first :: before).getLast? :=
    ⟨_, getLast?_eq_some_getLast (cons_ne_nil first before)⟩
  obtain ⟨next, nextIs⟩ : ∃ next, next ∈ (after ++ [first]).head? := by cases after <;> simp
  have leftJoined := joint last lastIs node (by simp)
  have rightJoined : Joined links node next := (isChain_cons.mp tail).1 next nextIs
  rw [leftJoined.2, rightJoined.1]
  exact ⟨lastIs, leftJoined.1, nextIs, rightJoined.2⟩

theorem Closed.joined (closed : Closed links first (before ++ after))
    (leftIs : left ∈ (first :: before).getLast?) (rightIs : right ∈ (after ++ [first]).head?) :
    Joined links left right := by
  have chain : List.IsChain (Joined links) ((first :: before) ++ (after ++ [first])) := by
    simpa [Closed] using closed
  exact (isChain_append.mp chain).2.2 left leftIs right rightIs

/-- The list depends on the pointers of its own nodes only. -/
theorem Closed.congr (closed : Closed links first rest)
    (next : ∀ node ∈ first :: rest, changed.next node = links.next node)
    (prev : ∀ node ∈ first :: rest, changed.prev node = links.prev node) :
    Closed changed first rest := by
  refine List.IsChain.imp_of_mem_imp ?_ closed
  intro left right leftIn rightIn joined
  have leftIn : left ∈ first :: rest := by
    simp only [mem_cons, mem_append, not_mem_nil] at leftIn ⊢
    tauto
  have rightIn : right ∈ first :: rest := by
    simp only [mem_cons, mem_append, not_mem_nil] at rightIn ⊢
    tauto
  exact ⟨(next left leftIn).trans joined.1, (prev right rightIn).trans joined.2⟩

section Splice

variable [DecidableEq α]

theorem Closed.remove (closed : Closed links first (before ++ node :: after))
    (distinct : (first :: (before ++ node :: after)).Nodup)
    (next : ∀ other ∈ first :: (before ++ after),
      changed.next other = if other = links.prev node then links.next node else links.next other)
    (prev : ∀ other ∈ first :: (before ++ after), changed.prev other =
          if other = links.next node then links.prev node else links.prev other) :
    Closed changed first (before ++ after) := by
  obtain ⟨lastIs, nextPrev, headIs, prevNext⟩ := closed.neighbours
  have chain : List.IsChain (Joined links) ((first :: before) ++ node :: (after ++ [first])) := by
    simpa [Closed] using closed
  obtain ⟨front, tail, -⟩ := isChain_append.mp chain
  have back := (isChain_cons.mp tail).2
  have absent : node ∉ first :: (before ++ after) := by
    have moved : (first :: (before ++ node :: after)).Perm (node :: first :: (before ++ after)) :=
      ((perm_middle).cons first).trans (List.Perm.swap node first _)
    exact (nodup_cons.mp (moved.nodup_iff.mp distinct)).1
  -- a pair of neighbours that does not contain the node is still joined
  have step : ∀ left right, left ∈ first :: (before ++ after) →
      right ∈ first :: (before ++ after) → Joined links left right →
      Joined changed left right := by
    intro left right leftIn rightIn joined
    constructor
    · rw [next left leftIn, if_neg]
      · exact joined.1
      · intro same
        rw [same, Joined, nextPrev] at joined
        exact absent (joined.1 ▸ rightIn)
    · rw [prev right rightIn, if_neg]
      · exact joined.2
      · intro same
        rw [same, Joined, prevNext] at joined
        exact absent (joined.2 ▸ leftIn)
  have split : first :: (before ++ after ++ [first]) =
      (first :: before) ++ (after ++ [first]) := by simp
  rw [Closed, split]
  refine isChain_append.mpr ⟨?_, ?_, ?_⟩
  · refine List.IsChain.imp_of_mem_imp ?_ front
    intro left right leftIn rightIn
    exact step left right (by simp at leftIn ⊢; tauto) (by simp at rightIn ⊢; tauto)
  · refine List.IsChain.imp_of_mem_imp ?_ back
    intro left right leftIn rightIn
    exact step left right (by simp at leftIn ⊢; tauto) (by simp at rightIn ⊢; tauto)
  · intro left leftIs right rightIs
    obtain rfl : left = links.prev node := Option.mem_unique leftIs lastIs
    obtain rfl : right = links.next node := Option.mem_unique rightIs headIs
    have leftIn := mem_of_getLast? leftIs
    have rightIn := mem_of_head? rightIs
    constructor
    · rw [next _ (by simp at leftIn ⊢; tauto), if_pos rfl]
    · rw [prev _ (by simp at rightIn ⊢; tauto), if_pos rfl]

/-- Putting a new node between two neighbours. -/
theorem Closed.insert (closed : Closed links first (before ++ after))
    (distinct : (first :: (before ++ after)).Nodup) (leftIs : left ∈ (first :: before).getLast?)
    (rightIs : right ∈ (after ++ [first]).head?) (nodeNext : changed.next node = right)
    (nodePrev : changed.prev node = left)
    (next : ∀ other ∈ first :: (before ++ after),
      changed.next other = if other = left then node else links.next other)
    (prev : ∀ other ∈ first :: (before ++ after),
      changed.prev other = if other = right then node else links.prev other) :
    Closed changed first (before ++ node :: after) := by
  have between := closed.joined leftIs rightIs
  have chain : List.IsChain (Joined links) ((first :: before) ++ (after ++ [first])) := by
    simpa [Closed] using closed
  obtain ⟨front, back, -⟩ := isChain_append.mp chain
  have leftIn := mem_of_getLast? leftIs
  have rightIn := mem_of_head? rightIs
  have rotated : (before ++ (after ++ [first])).Nodup := by
    have moved : (first :: (before ++ after)).Perm (before ++ (after ++ [first])) := by
      rw [← append_assoc]
      exact (perm_append_singleton first (before ++ after)).symm
    exact moved.nodup_iff.mp distinct
  have apart : ∀ other ∈ before, other ∉ after ++ [first] := fun other inBefore inAfter =>
    (nodup_append.mp rotated).2.2 other inBefore other inAfter rfl
  -- the right neighbour is not reached by another pair behind the cut
  have rightOnce : right ∉ (after ++ [first]).tail := by
    have later := (nodup_append.mp rotated).2.1
    cases after with
    | nil => simp
    | cons other =>
      obtain rfl : other = right := by simpa using rightIs
      exact (nodup_cons.mp later).1
  have split : first :: (before ++ node :: after ++ [first]) =
      (first :: before) ++ node :: (after ++ [first]) := by simp
  rw [Closed, split]
  refine isChain_append.mpr ⟨?_, isChain_cons.mpr ⟨?_, ?_⟩, ?_⟩
  · refine List.IsChain.imp_of_mem_tail_imp ?_ front
    intro other target otherIn targetIn joined
    have differs : target ≠ right := by
      rintro rfl
      exact apart target targetIn rightIn
    constructor
    · rw [next other (by simp at otherIn ⊢; tauto), if_neg]
      · exact joined.1
      · rintro rfl
        exact differs (joined.1.symm.trans between.1)
    · rw [prev target (by simp; tauto), if_neg differs]
      exact joined.2
  · intro target targetIs
    obtain rfl : target = right := Option.mem_unique targetIs rightIs
    refine ⟨nodeNext, ?_⟩
    rw [prev target (by simp at rightIn ⊢; tauto), if_pos rfl]
  · refine List.IsChain.imp_of_mem_tail_imp ?_ back
    intro other target otherIn targetIn joined
    have differs : target ≠ right := by
      rintro rfl
      exact rightOnce targetIn
    have targetIn := mem_of_mem_tail targetIn
    constructor
    · rw [next other (by simp at otherIn ⊢; tauto), if_neg]
      · exact joined.1
      · rintro rfl
        exact differs (joined.1.symm.trans between.1)
    · rw [prev target (by simp at targetIn ⊢; tauto), if_neg differs]
      exact joined.2
  · intro other otherIs target targetIs
    obtain rfl : other = left := Option.mem_unique otherIs leftIs
    obtain rfl : node = target := by simpa using targetIs
    refine ⟨?_, nodePrev⟩
    rw [next other (by simp at leftIn ⊢; tauto), if_pos rfl]

end Splice

end Winex.Circular
