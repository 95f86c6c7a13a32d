import Winex.ViewList

namespace Winex.Virtual

open Cells List Nat

/-!
# Placing views

`VIRTUAL_TryCreateView` puts a view at a given place if nothing is in the way,
`VIRTUAL_GenerateView` looks for the first place from `0x110000` on, and
`VIRTUAL_DeleteBadView` takes a view out. When nothing is left at the top of the address
space the sums of `VIRTUAL_GenerateView` wrap around, and it places the view there
nevertheless. With that excluded, every run keeps the list linked and spaced.
-/

/-! ## Where the loops stop -/

theorem advance_spec (below : FileView → Bool) (first : ViewPtr × FileView)
    (next : List (ViewPtr × FileView)) :
    ∃ front, first :: next = front ++ (advance below first next).1 :: (advance below first next).2 ∧
      ((advance below first next).1 = first ∨ below (advance below first next).1.2 = true) ∧
      ∀ entry ∈ (advance below first next).2.head?, below entry.2 = false := by
  fun_induction advance below first next with
  | case1 => exact ⟨[], rfl, .inl rfl, by simp⟩
  | case2 prev _ _ isBelow ih =>
    obtain ⟨front, shape, start, beyond⟩ := ih
    refine ⟨prev :: front, by rw [shape]; rfl, .inr ?_, beyond⟩
    rcases start with same | isBelow'
    · rw [same]
      exact isBelow
    · exact isBelow'
  | case3 _ _ _ notBelow => exact ⟨[], rfl, .inl rfl, by simpa using notBelow⟩

variable {views : List (ViewPtr × FileView)} {size : Word} {chain : ViewChain} {ptr : ViewPtr}

/-- What lies behind the first of some spaced views lies behind all of them. -/
theorem Spaced.forall_of_head (spaced : Spaced views) {bound : Nat}
    (head : ∀ entry ∈ views.head?, bound ≤ entry.2.base.toNat) :
    ∀ entry ∈ views, bound ≤ entry.2.base.toNat := by
  cases views with
  | nil => simp
  | cons first =>
    have firstBound : bound ≤ first.2.base.toNat := head first (by simp)
    refine forall_mem_cons.mpr ⟨firstBound, fun entry member => ?_⟩
    have apart := (pairwise_cons.mp spaced.apart).1 entry member
    exact firstBound.trans ((le_add_right _ _).trans apart)

/-- A range of the size that starts at a multiple of the granularity from `0x110000` on,
ends below `2 ^ 32` and avoids all views. -/
def HasRoom (views : List (ViewPtr × FileView)) (size : Word) : Prop :=
  ∃ slot, slot % 65536 = 0 ∧ dosMemoryEnd.toNat ≤ slot ∧
    slot + size.toNat < 2 ^ 32 ∧
    ∀ entry ∈ views, entry.2.stop ≤ slot ∨ slot + size.toNat ≤ entry.2.base.toNat

variable {slot : Nat} {start base : Word} {prev : ViewPtr × FileView} {view : FileView}
  {useMemoryManager : Bool}

theorem roundUpStart_between (aligned : slot % 65536 = 0) (inSpace : slot < 2 ^ 32)
    (reachable : start.toNat ≤ slot) :
    start.toNat ≤ (roundUpStart start).toNat ∧ (roundUpStart start).toNat ≤ slot := by
  rw [toNat_roundUpStart (by omega)]
  omega

/--
As long as there is a slot at or behind the start, the loop of
`VIRTUAL_GenerateView` finds a place that is not behind the slot.
-/
theorem findRoom_spec (aligned : slot % 65536 = 0) (fits : slot + size.toNat < 2 ^ 32)
    {next : List (ViewPtr × FileView)} (spaced : Spaced (prev :: next))
    (avoids : ∀ entry ∈ next, entry.2.stop ≤ slot ∨ slot + size.toNat ≤ entry.2.base.toNat)
    (above : ∀ entry ∈ next, dosMemoryEnd.toNat ≤ entry.2.base.toNat)
    (behind : prev.2.stop ≤ start.toNat) (dosMemory : dosMemoryEnd.toNat ≤ start.toNat)
    (reachable : start.toNat ≤ slot) :
    ∃ front back, prev :: next = front ++ (findRoom size prev next start).1 :: back ∧
      (findRoom size prev next start).1.2.stop ≤ (findRoom size prev next start).2.toNat ∧
      dosMemoryEnd.toNat ≤ (findRoom size prev next start).2.toNat ∧
      (findRoom size prev next start).2.toNat ≤ slot ∧
      ∀ entry ∈ back,
        (findRoom size prev next start).2.toNat + size.toNat ≤ entry.2.base.toNat := by
  fun_induction findRoom size prev next start with
  | case1 =>
    obtain ⟨notBefore, notBehind⟩ := roundUpStart_between aligned (by omega) reachable
    exact ⟨[], [], rfl, behind.trans notBefore, dosMemory.trans notBefore, notBehind, by simp⟩
  | case2 _ next rest _ room =>
    obtain ⟨notBefore, notBehind⟩ := roundUpStart_between aligned (by omega) reachable
    refine ⟨[], next :: rest, rfl, behind.trans notBefore, dosMemory.trans notBefore, notBehind, ?_⟩
    rw [ge_iff_le, BitVec.le_def, BitVec.toNat_add, mod_eq_of_lt (by omega)] at room
    apply Spaced.forall_of_head (spaced.sublist (sublist_cons_self ..))
    simpa using room
  | case3 prev next rest start taken ih =>
    obtain ⟨_, _⟩ := roundUpStart_between aligned (by omega) reachable
    -- The next view is in the way of this start, so it ends at the slot.
    rw [ge_iff_le, BitVec.le_def, BitVec.toNat_add, mod_eq_of_lt (by omega), not_le] at taken
    have nextMember : next ∈ prev :: next :: rest := by simp
    have nextEnd := FileView.toNat_end (spaced.below next nextMember)
    have nextStop : next.2.stop ≤ slot := by
      rcases avoids next (by simp) with ends | _
      · exact ends
      · omega
    have nextDosMemory : dosMemoryEnd.toNat ≤ next.2.stop :=
      (above next (by simp)).trans (le_add_right _ _)
    obtain ⟨front, back, shape, facts⟩ :=
      ih (spaced.sublist (sublist_cons_self ..))
        (fun entry member => avoids entry (mem_cons_of_mem _ member))
        (fun entry member => above entry (mem_cons_of_mem _ member))
        nextEnd.ge (nextEnd ▸ nextDosMemory) (nextEnd ▸ nextStop)
    exact ⟨prev :: front, back, by rw [shape]; rfl, facts⟩

/-! ## One call -/

/-- With its assertions met, `VIRTUAL_AllocView` returns a view of the size. -/
theorem allocView_ok (baseAligned : base &&& pageMask = 0) (sizeAligned : size &&& pageMask = 0)
    (flags : Word) (vprot : Byte) (mapping : Word) :
    ∃ view, allocView base size flags vprot mapping = .ok view ∧
      view.base = base ∧ view.size = size := by
  rw [allocView, dif_pos ⟨baseAligned, sizeAligned⟩]
  refine ⟨_, rfl, rfl, ?_⟩
  apply BitVec.eq_of_toNat_eq
  have aligned := aligned_of_and_pageMask sizeAligned
  have shifted := Words.toNat_shiftRight_shiftLeft size 12
  exact shifted.trans (by omega)

/-- The list after a call is the one before with one more view. -/
def Inserted (chain' : ViewChain) (views : List (ViewPtr × FileView)) (entry : ViewPtr × FileView) :
    Prop :=
  ∃ front back, views = front ++ back ∧
    Linked chain' (front ++ entry :: back) ∧
    Spaced (front ++ entry :: back)

variable (linked : Linked chain views)

include linked in
theorem inserted_linkFirst (spaced : Spaced views)
    (fresh : chain.cell ptr = none) (below : view.stop < 2 ^ 32)
    (head : ∀ entry ∈ views.head?, view.stop ≤ entry.2.base.toNat) :
    Inserted (chain.linkFirst ptr view) views (ptr, view) := by
  refine ⟨[], views, rfl, linked.linkFirst (linked.not_mem_of_fresh fresh) view, ?_⟩
  have spaced' : Spaced ([] ++ views) := spaced
  exact spaced'.insert (by simp) (spaced.forall_of_head head) below

theorem inserted_linkAfter {front back : List (ViewPtr × FileView)}
    (linked : Linked chain (front ++ prev :: back)) (spaced : Spaced (front ++ prev :: back))
    (fresh : chain.cell ptr = none) (below : view.stop < 2 ^ 32)
    (behind : prev.2.stop ≤ view.base.toNat)
    (ahead : ∀ entry ∈ back, view.stop ≤ entry.2.base.toNat) :
    Inserted (chain.linkAfter prev.1 ptr view) (front ++ prev :: back) (ptr, view) := by
  have linked' := linked.linkAfter (linked.not_mem_of_fresh fresh) view
  obtain ⟨before, -⟩ := spaced.stop_le_of_mem
  rw [append_cons] at linked' spaced ⊢
  refine ⟨front ++ [prev], back, rfl, linked', spaced.insert ?_ ahead below⟩
  refine forall_mem_append.mpr ⟨fun entry member => ?_, forall_mem_singleton.mpr behind⟩
  exact (before entry member).trans ((le_add_right _ _).trans behind)

include linked

/--
`VIRTUAL_TryCreateView` inserts the view at the given place, or it returns
`NULL` and leaves the list.
-/
theorem tryCreateView_spec (spaced : Spaced views)
    (fresh : chain.cell ptr = none) (baseAligned : base &&& pageMask = 0)
    (sizeAligned : size &&& pageMask = 0) (noWrap : base.toNat + size.toNat < 2 ^ 32) (flags : Word)
    (vprot : Byte) (mapping : Word) :
    ∃ result chain', tryCreateView chain ptr base size flags vprot mapping = .ok (result, chain') ∧
      ((result = none ∧ chain' = chain) ∨
        ∃ view, result = some (ptr, view) ∧ view.base = base ∧
          view.size = size ∧ Inserted chain' views (ptr, view)) := by
  obtain ⟨view, allocated, viewBase, viewSize⟩ :=
    allocView_ok baseAligned sizeAligned flags vprot mapping
  have viewStop : view.stop = base.toNat + size.toNat := by rw [FileView.stop, viewBase, viewSize]
  have below : view.stop < 2 ^ 32 := viewStop ▸ noWrap
  have stopWord : (base + size).toNat = view.stop := by
    rw [BitVec.toNat_add, mod_eq_of_lt noWrap, viewStop]
  have head_of_not_lt
      {rest : List (ViewPtr × FileView)}
      (clear : ¬ rest.head?.any (fun next => next.2.base < base + size)) :
      ∀ entry ∈ rest.head?, view.stop ≤ entry.2.base.toNat := by
    intro _ isHead
    rw [Option.mem_def.mp isHead] at clear
    simpa [BitVec.lt_def, stopWord] using clear
  simp only [tryCreateView, allocated, viewsOf_eq linked, bind, Except.bind]
  cases views with
  | nil =>
    exact ⟨_, _, rfl, .inr ⟨view, rfl, viewBase, viewSize,
      inserted_linkFirst linked spaced fresh below (by simp)⟩⟩
  | cons first next =>
    dsimp only
    by_cases inFront : first.2.base > base
    · rw [if_pos inFront]
      by_cases overlaps : first.2.base < base + size
      · rw [if_pos overlaps]
        exact ⟨_, _, rfl, .inl ⟨rfl, rfl⟩⟩
      · rw [if_neg overlaps]
        exact ⟨_, _, rfl, .inr ⟨view, rfl, viewBase, viewSize,
          inserted_linkFirst linked spaced fresh below (head_of_not_lt (by simpa using overlaps))⟩⟩
    rw [if_neg inFront]
    obtain ⟨_, shape, -⟩ := advance_spec (fun next => next.base ≤ base) first next
    generalize advance (fun next => next.base ≤ base) first next = stopped at shape ⊢
    obtain ⟨prev, rest⟩ := stopped
    rw [shape] at linked spaced
    by_cases covered : prev.2.base + prev.2.size > base
    · rw [if_pos covered]
      exact ⟨_, _, rfl, .inl ⟨rfl, rfl⟩⟩
    by_cases overlaps : rest.head?.any (fun next => next.2.base < base + size)
    · rw [if_neg covered, if_pos overlaps]
      exact ⟨_, _, rfl, .inl ⟨rfl, rfl⟩⟩
    rw [if_neg covered, if_neg overlaps]
    have prevStop : prev.2.stop ≤ view.base.toNat := by
      have prevEnd := FileView.toNat_end (spaced.below prev (by simp))
      rw [gt_iff_lt, BitVec.lt_def, prevEnd, not_lt] at covered
      rwa [viewBase]
    exact ⟨_, _, rfl, .inr ⟨view, rfl, viewBase, viewSize,
      shape ▸ inserted_linkAfter linked spaced fresh below prevStop
        (spaced.behind.forall_of_head (head_of_not_lt overlaps))⟩⟩

/--
With room for the view, `VIRTUAL_GenerateView` inserts it at `0x110000` or
behind.
-/
theorem generateView_spec (spaced : Spaced views)
    (fresh : chain.cell ptr = none) (sizeAligned : size &&& pageMask = 0)
    (room : HasRoom views size) (flags : Word) (vprot : Byte) (mapping : Word) :
    ∃ view chain',
      generateView true chain ptr size flags vprot mapping = .ok (some (ptr, view), chain') ∧
      dosMemoryEnd.toNat ≤ view.base.toNat ∧ view.size = size ∧
      Inserted chain' views (ptr, view) := by
  obtain ⟨_, allocated, -, viewSize⟩ :=
    allocView_ok (show (0 : Word) &&& pageMask = 0 by decide) sizeAligned flags vprot mapping
  obtain ⟨slot, aligned, _, fits, avoids⟩ := room
  have lowestStop : (dosMemoryEnd + size).toNat = dosMemoryEnd.toNat + size.toNat := by
    rw [BitVec.toNat_add, mod_eq_of_lt (by omega)]
  have lowestBelow : dosMemoryEnd.toNat + size.toNat < 2 ^ 32 := by omega
  simp only [generateView, allocated, viewsOf_eq linked, bind, Except.bind, if_true]
  cases views with
  | nil =>
    refine ⟨_, _, rfl, le_rfl, viewSize, inserted_linkFirst linked spaced fresh ?_ (by simp)⟩
    simpa only [FileView.stop, viewSize] using lowestBelow
  | cons first next =>
    dsimp only
    by_cases inFront : first.2.base ≥ dosMemoryEnd + size
    · rw [if_pos inFront]
      refine ⟨_, _, rfl, le_rfl, viewSize, inserted_linkFirst linked spaced fresh ?_ ?_⟩
      · simpa only [FileView.stop, viewSize] using lowestBelow
      · rw [ge_iff_le, BitVec.le_def, lowestStop] at inFront
        simpa [FileView.stop, viewSize] using inFront
    rw [if_neg inFront]
    rw [ge_iff_le, BitVec.le_def, lowestStop, not_le] at inFront
    obtain ⟨_, shape, stopped, beyond⟩ :=
      advance_spec (fun next => next.base < dosMemoryEnd) first next
    generalize advance (fun next => next.base < dosMemoryEnd) first next =
      reached at shape stopped beyond ⊢
    obtain ⟨prev, rest⟩ := reached
    dsimp only at shape stopped beyond ⊢
    rw [shape] at linked spaced avoids
    have prevStop : prev.2.stop ≤ slot := by
      rcases avoids prev (by simp) with ends | _
      · exact ends
      rcases stopped with rfl | isBelow
      · omega
      · rw [decide_eq_true_eq, BitVec.lt_def] at isBelow
        omega
    have prevEnd := FileView.toNat_end (spaced.below prev (by simp))
    generalize isStart :
        (if dosMemoryEnd < prev.2.base + prev.2.size then
          prev.2.base + prev.2.size else dosMemoryEnd) = start
    obtain ⟨behind, above, reachable⟩ :
        prev.2.stop ≤ start.toNat ∧ dosMemoryEnd.toNat ≤ start.toNat ∧ start.toNat ≤ slot := by
      rw [← isStart]
      split
      case isTrue later =>
        have order := BitVec.lt_def.mp later
        omega
      case isFalse notLater =>
        have order := mt BitVec.lt_def.mpr notLater
        omega
    have restAbove : ∀ entry ∈ rest, dosMemoryEnd.toNat ≤ entry.2.base.toNat := by
      apply spaced.behind.forall_of_head
      intro entry isHead
      have notBelow := of_decide_eq_false (beyond entry isHead)
      rwa [BitVec.lt_def, not_lt] at notBelow
    obtain ⟨_, _, shape', roomBehind, roomAbove, _, ahead⟩ :=
      findRoom_spec aligned fits
        (spaced.sublist (sublist_append_right ..))
        (fun entry member => avoids entry (by simp [member]))
        restAbove behind above reachable
    rw [shape', ← append_assoc] at shape linked spaced
    refine ⟨_, _, rfl, roomAbove, viewSize,
      shape ▸ inserted_linkAfter linked spaced fresh ?_ roomBehind ?_⟩
    · simp only [FileView.stop, viewSize]
      omega
    · simpa only [FileView.stop, viewSize] using ahead

/-! ## Runs -/

/--
A call of one of the three functions.  The pointer is the view the call
allocates, or the one it deletes.
-/
inductive ViewCall where
  | tryCreateView (ptr : ViewPtr) (base size flags : Word) (vprot : Byte) (mapping : Word)
  | generateView (ptr : ViewPtr) (size flags : Word) (vprot : Byte) (mapping : Word)
  | deleteBadView (ptr : ViewPtr)

/-- Run a call; the result is the new view, if there is one. -/
def ViewCall.run (useMemoryManager : Bool) (chain : ViewChain) :
    ViewCall → Except Fault (Option (ViewPtr × FileView) × ViewChain)
  | .tryCreateView ptr base size flags vprot mapping =>
    Virtual.tryCreateView chain ptr base size flags vprot mapping
  | .generateView ptr size flags vprot mapping =>
    Virtual.generateView useMemoryManager chain ptr size flags vprot mapping
  | .deleteBadView ptr => .ok (none, Virtual.deleteBadView chain ptr)

/-- What the callers guarantee: allocated memory is new, sizes and bases are page aligned,
the end of a given range does not wrap, and only listed views are deleted. -/
def ViewCall.Proper (chain : ViewChain) : ViewCall → Prop
  | .tryCreateView ptr base size _ _ _ =>
    chain.cell ptr = none ∧ base &&& pageMask = 0 ∧
      size &&& pageMask = 0 ∧ base.toNat + size.toNat < 2 ^ 32
  | .generateView ptr size _ _ _ => chain.cell ptr = none ∧ size &&& pageMask = 0
  | .deleteBadView ptr => ptr ∈ (viewsOf chain).map Prod.fst

/-- There is room for the view that `VIRTUAL_GenerateView` is to place. -/
def ViewCall.Fits (useMemoryManager : Bool) (chain : ViewChain) : ViewCall → Prop
  | .generateView _ size _ _ _ => useMemoryManager = true → HasRoom (viewsOf chain) size
  | _ => True

/-- A call that places a view by searching for room. -/
def ViewCall.Generates : ViewCall → Prop
  | .generateView .. => True
  | _ => False

/-- The list is linked in both directions, and its views are spaced. -/
def Consistent (chain : ViewChain) : Prop :=
  Linked chain (viewsOf chain) ∧ Spaced (viewsOf chain)

theorem Consistent.of_linked (spaced : Spaced views) : Consistent chain := by
  rw [Consistent, viewsOf_eq linked]
  exact ⟨linked, spaced⟩

omit linked

theorem Inserted.consistent {chain' : ViewChain} {entry : ViewPtr × FileView}
    (inserted : Inserted chain' views entry) : Consistent chain' ∧ entry ∈ viewsOf chain' := by
  obtain ⟨_, _, -, linked, spaced⟩ := inserted
  refine ⟨Consistent.of_linked linked spaced, ?_⟩
  rw [viewsOf_eq linked]
  simp

/--
One call.  It returns, keeps the list consistent, and a view that was placed
by searching starts at `0x110000` or above.
-/
theorem Consistent.step (consistent : Consistent chain) {call : ViewCall}
    (proper : call.Proper chain) (fits : call.Fits useMemoryManager chain) :
    ∃ result chain', call.run useMemoryManager chain = .ok (result, chain') ∧
      Consistent chain' ∧
      ∀ placed, result = some placed →
        placed ∈ viewsOf chain' ∧ (call.Generates → dosMemoryEnd.toNat ≤ placed.2.base.toNat) := by
  obtain ⟨linked, spaced⟩ := consistent
  cases call with
  | tryCreateView _ _ _ flags vprot mapping =>
    obtain ⟨fresh, baseAligned, sizeAligned, noWrap⟩ := proper
    obtain ⟨result, chain', ran, outcome⟩ :=
      tryCreateView_spec linked spaced fresh baseAligned sizeAligned noWrap flags vprot mapping
    refine ⟨result, chain', ran, ?_⟩
    rcases outcome with ⟨rfl, rfl⟩ | ⟨view, rfl, -, -, inserted⟩
    · exact ⟨⟨linked, spaced⟩, by simp⟩
    · refine ⟨inserted.consistent.1, ?_⟩
      rintro placed ⟨⟩
      exact ⟨inserted.consistent.2, False.elim⟩
  | generateView _ _ flags vprot mapping =>
    obtain ⟨fresh, sizeAligned⟩ := proper
    cases useMemoryManager with
    | false => exact ⟨none, chain, rfl, ⟨linked, spaced⟩, by simp⟩
    | true =>
      obtain ⟨_, chain', ran, above, -, inserted⟩ :=
        generateView_spec linked spaced fresh sizeAligned (fits rfl) flags vprot mapping
      refine ⟨_, chain', ran, inserted.consistent.1, ?_⟩
      rintro _ ⟨⟩
      exact ⟨inserted.consistent.2, fun _ => above⟩
  | deleteBadView =>
    refine ⟨none, _, rfl, ?_, by simp⟩
    obtain ⟨_, member, rfl⟩ := mem_map.mp proper
    obtain ⟨front, _, shape⟩ := append_of_mem member
    rw [shape] at linked spaced
    exact Consistent.of_linked linked.unlink
      (spaced.sublist ((List.Sublist.refl front).append (sublist_cons_self ..)))

/-- The lists that runs of proper calls reach, when there always is room. -/
inductive ReachedViews (useMemoryManager : Bool) : ViewChain → Prop
  | initial : ReachedViews useMemoryManager ⟨none, fun _ => none⟩
  | step {chain chain' : ViewChain} (call : ViewCall) {result : Option (ViewPtr × FileView)}
      (reached : ReachedViews useMemoryManager chain) (proper : call.Proper chain)
      (fits : call.Fits useMemoryManager chain)
      (ran : call.run useMemoryManager chain = .ok (result, chain')) :
      ReachedViews useMemoryManager chain'

theorem ReachedViews.consistent (reached : ReachedViews useMemoryManager chain) :
    Consistent chain := by
  induction reached with
  | initial => exact Consistent.of_linked (Linked.empty _) ⟨List.Pairwise.nil, by simp⟩
  | step _ _ proper fits ran ih =>
    obtain ⟨_, _, ran', consistent, -⟩ := ih.step proper fits
    rw [ran] at ran'
    cases ran'
    exact consistent

/-- In every run whose calls find room, the list is doubly linked, sorted and disjoint
inside the address space, and the next such call returns; a search places views at
`0x110000` or above. -/
theorem reached_views_wellPlaced {useMemoryManager : Bool} {chain : ViewChain}
    (reached : ReachedViews useMemoryManager chain) :
    Linked chain (viewsOf chain) ∧ WellPlaced (viewsOf chain) ∧
      ∀ call : ViewCall, call.Proper chain → call.Fits useMemoryManager chain →
        ∃ result chain', call.run useMemoryManager chain = .ok (result, chain') ∧
          ∀ placed, result = some placed →
            placed ∈ viewsOf chain' ∧ (call.Generates → 0x110000 ≤ placed.2.base.toNat) := by
  have consistent := reached.consistent
  refine ⟨consistent.1, consistent.2.wellPlaced, ?_⟩
  intro _ proper fits
  obtain ⟨result, chain', ran, -, placed⟩ := consistent.step proper fits
  exact ⟨result, chain', ran, placed⟩

/-- One page at a given address, and one that is placed behind it. -/
theorem reached_views_wellPlaced_page :
    ∃ chain, ReachedViews true chain ∧
      (viewsOf chain).map (fun entry => entry.2.base) = [0x110000, 0x120000] ∧
      Linked chain (viewsOf chain) ∧ WellPlaced (viewsOf chain) := by
  have reached : ∃ chain, ReachedViews true chain ∧
      (viewsOf chain).map (fun entry => entry.2.base) = [0x110000, 0x120000] := by
    refine ⟨_, .step (.generateView 2 0x1000 0 0 0)
      (.step (.tryCreateView 1 0x110000 0x1000 0 0 0) .initial
        ⟨rfl, by decide, by decide, by decide⟩ trivial rfl)
      ⟨by decide +kernel, by decide⟩ ?_ rfl, by decide +kernel⟩
    exact fun _ => ⟨0x120000, by decide, by decide, by decide, by decide +kernel⟩
  obtain ⟨chain, reached, bases⟩ := reached
  have facts := reached_views_wellPlaced reached
  exact ⟨chain, reached, bases, facts.1, facts.2.1⟩

/--
Three views of the largest size that `VirtualAlloc` accepts: the third one is
placed at the top of the address space and reaches beyond it.
-/
theorem generateView_leaves_addressSpace :
    ∃ result₁ chain₁ result₂ chain₂ result₃ chain₃,
      (ViewCall.generateView 1 0x7fc00000 0 0 0).Proper ⟨none, fun _ => none⟩ ∧
      (ViewCall.generateView 1 0x7fc00000 0 0 0).run true
        ⟨none, fun _ => none⟩ = .ok (result₁, chain₁) ∧
      (ViewCall.generateView 2 0x7fc00000 0 0 0).Proper chain₁ ∧
      (ViewCall.generateView 2 0x7fc00000 0 0 0).run true chain₁ = .ok (result₂, chain₂) ∧
      (ViewCall.generateView 3 0x7fc00000 0 0 0).Proper chain₂ ∧
      (ViewCall.generateView 3 0x7fc00000 0 0 0).run true chain₂ = .ok (result₃, chain₃) ∧
      ¬ WellPlaced (viewsOf chain₃) := by
  refine ⟨_, _, _, _, _, _, ⟨rfl, by decide⟩, rfl,
    ⟨by decide +kernel, by decide⟩, rfl,
    ⟨by decide +kernel, by decide⟩, rfl, ?_⟩
  intro placed
  exact absurd placed.inSpace (by decide +kernel)

end Winex.Virtual
