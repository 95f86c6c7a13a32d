import Mathlib.Data.Fintype.Card
import Winex.VirtualModel

namespace Winex.Virtual

open Cells List BitVec

/-!
# The view list as a list of address ranges

A view is read as the range of addresses from its base up to the address behind it, as
numbers.  The list is well placed when it is sorted by base and its ranges are disjoint
and end within the address space.  The comparisons of the source are those of wrapped
words.
-/

/-! ## Ranges -/

/-- The address behind a view. -/
def FileView.stop (view : FileView) : Nat :=
  view.base.toNat + view.size.toNat

/-- The view contains an address. -/
def FileView.Covers (view : FileView) (address : Nat) : Prop :=
  view.base.toNat ≤ address ∧ address < view.stop

/-- Sorted by base, pairwise disjoint, and inside the address space. -/
structure WellPlaced (views : List (ViewPtr × FileView)) : Prop where
  sorted : views.Pairwise fun first second => first.2.base ≤ second.2.base
  disjoint : views.Pairwise fun first second =>
    ∀ address, ¬ (first.2.Covers address ∧ second.2.Covers address)
  inSpace : ∀ entry ∈ views, entry.2.stop ≤ 2 ^ 32

/--
Each view ends before the next one begins, and the end of a view is a word.
Empty views, which mark a position, are covered as well.
-/
structure Spaced (views : List (ViewPtr × FileView)) : Prop where
  apart : views.Pairwise fun first second => first.2.stop ≤ second.2.base.toNat
  below : ∀ entry ∈ views, entry.2.stop < 2 ^ 32

variable {views front back : List (ViewPtr × FileView)} {entry : ViewPtr × FileView}

theorem Spaced.wellPlaced (spaced : Spaced views) : WellPlaced views where
  sorted := by
    apply spaced.apart.imp
    intro _ _ apart
    exact le_trans (Nat.le_add_right _ _) apart
  disjoint := by
    apply spaced.apart.imp
    intro _ _ apart _ both
    exact absurd (lt_of_lt_of_le both.1.2 apart) (not_lt.mpr both.2.1)
  inSpace := fun entry member => (spaced.below entry member).le

theorem Spaced.insert (spaced : Spaced (front ++ back))
    (behind : ∀ before ∈ front, before.2.stop ≤ entry.2.base.toNat)
    (ahead : ∀ after ∈ back, entry.2.stop ≤ after.2.base.toNat) (below : entry.2.stop < 2 ^ 32) :
    Spaced (front ++ entry :: back) := by
  obtain ⟨frontApart, backApart, across⟩ := pairwise_append.mp spaced.apart
  constructor
  · refine pairwise_append.mpr ⟨frontApart, pairwise_cons.mpr ⟨ahead, backApart⟩, ?_⟩
    intro before beforeMember
    exact forall_mem_cons.mpr ⟨behind before beforeMember, across before beforeMember⟩
  · intro other member
    simp only [mem_append, mem_cons] at member
    rcases member with member | rfl | member
    · exact spaced.below other (mem_append_left _ member)
    · exact below
    · exact spaced.below other (mem_append_right _ member)

theorem Spaced.sublist {fewer : List (ViewPtr × FileView)} (spaced : Spaced views)
    (sublist : fewer.Sublist views) : Spaced fewer where
  apart := spaced.apart.sublist sublist
  below := fun entry member => spaced.below entry (sublist.subset member)

theorem Spaced.behind (spaced : Spaced (front ++ entry :: back)) : Spaced back :=
  spaced.sublist ((sublist_cons_self ..).trans (sublist_append_right ..))

theorem Spaced.stop_le_of_mem (spaced : Spaced (front ++ entry :: back)) :
    (∀ before ∈ front, before.2.stop ≤ entry.2.base.toNat) ∧
      ∀ after ∈ back, entry.2.stop ≤ after.2.base.toNat := by
  obtain ⟨-, backApart, across⟩ := pairwise_append.mp spaced.apart
  exact ⟨fun before member => across before member entry (by simp), (pairwise_cons.mp backApart).1⟩

/-! ## Words and numbers -/

variable {view : FileView}

/-- The end of a view that ends below `2 ^ 32`. -/
theorem FileView.toNat_end (below : view.stop < 2 ^ 32) :
    (view.base + view.size).toNat = view.stop := by
  exact Nat.mod_eq_of_lt below

theorem FileView.end_gt_iff (inSpace : view.stop ≤ 2 ^ 32) (addr : Word) :
    view.base + view.size > addr ↔ addr.toNat < view.stop ∧ view.stop < 2 ^ 32 := by
  have wrapped : (view.base + view.size).toNat = view.stop % 2 ^ 32 := toNat_add _ _
  rw [gt_iff_lt, lt_def, wrapped]
  rcases inSpace.lt_or_eq with below | top
  · rw [Nat.mod_eq_of_lt below]
    exact ⟨fun inside => ⟨inside, below⟩, fun inside => inside.1⟩
  · rw [top]
    simp

theorem toNat_roundAddr_pageMask (addr : Word) :
    (roundAddr addr pageMask).toNat = 4096 * (addr.toNat / 4096) :=
  Words.toNat_and_not_lowMask addr 12

/-- `ROUND_SIZE` as numbers, with the wrap-around of the sum. -/
theorem toNat_roundSize (addr size : Word) :
    (roundSize addr size).toNat =
      4096 * ((size.toNat + addr.toNat % 4096 + 4095) % 2 ^ 32 / 4096) := by
  have offset := Words.toNat_and_lowMask addr (k := 12) (by decide)
  have rounded := Words.toNat_and_not_lowMask (size + (addr &&& pageMask) + pageMask) 12
  refine rounded.trans ?_
  rw [toNat_add, toNat_add]
  have offset' : (addr &&& pageMask).toNat = addr.toNat % 4096 := offset
  have mask : pageMask.toNat = 4095 := by decide
  omega

theorem toNat_roundUpStart {start : Word} (small : start.toNat + 65535 < 2 ^ 32) :
    (roundUpStart start).toNat = 65536 * ((start.toNat + 65535) / 65536) := by
  have rounded := Words.toNat_and_not_lowMask (start + granularityMask) 16
  refine rounded.trans ?_
  have mask : granularityMask.toNat = 65535 := by decide
  rw [toNat_add, mask, Nat.mod_eq_of_lt small]
  rfl

/-! ## Searching the list -/

theorem viewsOf_eq {chain : ViewChain} (linked : Linked chain views) : viewsOf chain = views := by
  apply linked.entries_eq
  have few := linked.distinct.length_le_card
  rwa [length_map, Fintype.card_fin] at few

/-- A view that `VIRTUAL_FindView` finds contains the address. -/
theorem mem_of_findViewFrom (inSpace : ∀ entry ∈ views, entry.2.stop ≤ 2 ^ 32) {addr : Word}
    {found : ViewPtr × FileView} (search : findViewFrom addr views = some found) :
    found ∈ views ∧ found.2.Covers addr.toNat ∧ found.2.stop < 2 ^ 32 := by
  fun_induction findViewFrom addr views with
  | case1 | case2 ptr view next beyond => cases search
  | case3 _ _ _ notBeyond inside =>
    cases search
    have range := (FileView.end_gt_iff (inSpace _ (mem_cons_self ..)) addr).mp inside
    refine ⟨mem_cons_self .., ⟨?_, range.1⟩, range.2⟩
    exact not_lt.mp notBeyond
  | case4 _ _ _ _ _ ih =>
    obtain ⟨member, facts⟩ :=
      ih (fun entry member => inSpace entry (mem_cons_of_mem _ member)) search
    exact ⟨mem_cons_of_mem _ member, facts⟩

/-- A list of one view. -/
def singleView (view : FileView) : ViewChain :=
  Chain.linkFirst ⟨none, fun _ => none⟩ 1 view

theorem linked_singleView (view : FileView) : Linked (singleView view) [(1, view)] :=
  (Linked.empty _).linkFirst (by simp) view

end Winex.Virtual
