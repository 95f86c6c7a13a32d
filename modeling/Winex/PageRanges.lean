import Winex.ViewList
import Winex.VirtualApi

namespace Winex.Virtual

open Cells List

/-!
# The page ranges of the entry points

`VirtualProtect`, `VirtualFree` and `VirtualAlloc` compare the end of the rounded range
with the end of the view before they touch `view->prot`.  The end is a wrapped sum,
which only `VirtualAlloc` checks, and the index of a page two gigabytes above the base
of its view is negative.  This module says exactly when an access leaves the array.
-/

/-! ## Indices -/

variable {view : FileView} {host : Host} {chain : ViewChain}
variable {front back : List (ViewPtr × FileView)} {ptr : ViewPtr} {index count : Nat}
variable {addr : Word} {views : List (ViewPtr × FileView)} {newProt type : Word}

theorem protIndex_of_near {base : Word} (above : view.base.toNat ≤ base.toNat)
    (near : base.toNat - view.base.toNat < 2 ^ 31) :
    protIndex view base = ((base.toNat - view.base.toNat) / 4096 : Nat) := by
  have difference : (base - view.base).toNat = base.toNat - view.base.toNat := by bv_omega
  rw [protIndex, BitVec.toInt_eq_toNat_of_lt (by omega), difference, Int.shiftRight_eq_div_pow]
  rfl

theorem protIndex_of_far {base : Word} (above : view.base.toNat ≤ base.toNat)
    (far : 2 ^ 31 ≤ base.toNat - view.base.toNat) : protIndex view base < 0 := by
  have difference : (base - view.base).toNat = base.toNat - view.base.toNat := by bv_omega
  have negative : (base - view.base).toInt < 0 := by
    rw [BitVec.toInt_eq_toNat_cond]
    split <;> omega
  rw [protIndex, pageShift, Int.shiftRight_eq_div_pow]
  exact Int.ediv_neg_of_neg_of_pos negative (by decide)

theorem toNat_pages (size : Word) : (size >>> pageShift).toNat = size.toNat / 4096 := by
  rw [BitVec.toNat_ushiftRight, Nat.shiftRight_eq_div_pow]
  rfl

/-- The range lies in the view, and its pages have proper indices. -/
def FileView.Holds (view : FileView) (base size : Word) : Prop :=
  base.toNat - view.base.toNat < 2 ^ 31 ∧ base.toNat + size.toNat ≤ view.stop

/-! ## Setting and reading protections -/

/-- Setting the protection of a range in the view changes this view only. -/
theorem setProt_of_holds (host : Host) (linked : Linked chain (front ++ (ptr, view) :: back))
    {base size : Word} (above : view.base.toNat ≤ base.toNat) (vprot : Byte)
    (holds : host.mprotect base size (getUnixProt vprot) = true → size = 0 ∨ view.Holds base size) :
    ∃ set view' chain', setProt host chain ptr view base size vprot = .ok (set, chain') ∧
      Linked chain' (front ++ (ptr, view') :: back) ∧
      view'.base = view.base ∧ view'.size = view.size := by
  rw [setProt]
  by_cases granted : host.mprotect base size (getUnixProt vprot) = true
  · rw [if_pos granted]
    obtain ⟨view', filled, sameBase, sameSize⟩ :
        ∃ view', fillProt view (protIndex view base) (size >>> pageShift).toNat vprot = .ok view' ∧
          view'.base = view.base ∧ view'.size = view.size := by
      rcases holds granted with rfl | ⟨near, inside⟩
      · exact ⟨view, by simp [fillProt], rfl, rfl⟩
      have pages := view.sizePages
      have stop : view.stop = view.base.toNat + view.size.toNat := rfl
      rw [protIndex_of_near above near, toNat_pages, fillProt]
      split
      · exact ⟨view, rfl, rfl, rfl⟩
      · rw [dif_pos ⟨by omega, by omega⟩]
        exact ⟨_, rfl, rfl, rfl⟩
    rw [filled]
    exact ⟨true, view', _, rfl, linked.setValue view', sameBase, sameSize⟩
  · rw [if_neg granted]
    exact ⟨false, view, chain, rfl, linked, rfl, rfl⟩

theorem setProt_of_not_holds (chain : ViewChain) (ptr : ViewPtr) {base size : Word}
    (above : view.base.toNat ≤ base.toNat) (baseAligned : base.toNat % 4096 = 0)
    (sizeAligned : size.toNat % 4096 = 0) {vprot : Byte}
    (granted : host.mprotect base size (getUnixProt vprot) = true) (pages : size ≠ 0)
    (outside : ¬ view.Holds base size) :
    setProt host chain ptr view base size vprot = .error .protOverrun := by
  have viewPages := view.sizePages
  have viewAligned := view.baseAligned
  have stop : view.stop = view.base.toNat + view.size.toNat := rfl
  have positive : size.toNat ≠ 0 := fun zero => pages (BitVec.eq_of_toNat_eq zero)
  rw [setProt, if_pos granted, fillProt, toNat_pages, if_neg (by omega), dif_neg]
  · rfl
  rintro ⟨_, inside⟩
  rcases Nat.lt_or_ge (base.toNat - view.base.toNat) (2 ^ 31) with near | far
  · rw [protIndex_of_near above near] at inside
    exact outside ⟨near, by omega⟩
  · have negative := protIndex_of_far above far
    omega

theorem readProt_of_lt (inside : index < view.prot.length) :
    readProt view index = .ok (view.prot.get ⟨index, inside⟩) := by
  simp [readProt, getElem?_eq_getElem inside]

theorem readProt_of_ge (outside : view.prot.length ≤ index) :
    readProt view index = .error .protOverrun := by
  simp [readProt, getElem?_eq_none outside]

theorem readProt_of_neg {index : Int} (negative : index < 0) :
    readProt view index = .error .protOverrun :=
  if_neg (not_le.mpr negative)

/-- All pages of the view from an index on are committed. -/
def FileView.CommittedFrom (view : FileView) (index : Nat) : Prop :=
  ∀ vprot ∈ view.prot.drop index, vprot &&& vprotCommitted ≠ 0

/-- The loop accepts only ranges in the view, stops at a page that is not committed, and runs
out of the array if there is none. -/
theorem checkCommitted_spec (view : FileView) (count : Nat) (pages : index ≤ view.prot.length) :
    (checkCommitted view index count = .ok true ∧ index + count ≤ view.prot.length) ∨
      (checkCommitted view index count = .ok false ∧ ¬ view.CommittedFrom index) ∨
      (checkCommitted view index count = .error .protOverrun ∧
        view.prot.length < index + count ∧ view.CommittedFrom index) := by
  induction count generalizing index with
  | zero => exact .inl ⟨rfl, pages⟩
  | succ count ih =>
    rw [checkCommitted]
    rcases Nat.lt_or_ge index view.prot.length with inside | beyond
    · rw [readProt_of_lt inside, FileView.CommittedFrom, drop_eq_getElem_cons inside,
        forall_mem_cons]
      simp only [bind, Except.bind, get_eq_getElem]
      split
      next uncommitted => exact .inr (.inl ⟨rfl, fun all => all.1 uncommitted⟩)
      next committed =>
        rw [and_iff_right committed, Nat.add_comm count, ← Nat.add_assoc]
        exact ih inside
    · rw [readProt_of_ge beyond, FileView.CommittedFrom, drop_eq_nil_of_le beyond]
      exact .inr (.inr ⟨rfl, by omega, forall_mem_nil _⟩)

/-! ## The calls -/

/--
The rounded range of `addr` and `size` wraps around, and the wrap-around of
`ROUND_SIZE` itself does not hide it.
-/
def RangeWraps (addr size : Word) : Prop :=
  size.toNat + addr.toNat % 4096 + 4095 < 2 ^ 32 ∧ 0xfffff000 < addr.toNat + size.toNat

theorem rangeWraps_iff (notLast : (roundAddr addr pageMask).toNat < 0xfffff000) (size : Word) :
    2 ^ 32 ≤ (roundAddr addr pageMask).toNat + (roundSize addr size).toNat ↔
      RangeWraps addr size := by
  rw [toNat_roundAddr_pageMask] at notLast
  rw [toNat_roundAddr_pageMask, toNat_roundSize, RangeWraps]
  omega

theorem roundAddr_pageMask_aligned (addr : Word) : (roundAddr addr pageMask).toNat % 4096 = 0 := by
  rw [toNat_roundAddr_pageMask]
  omega

theorem roundSize_aligned (addr size : Word) : (roundSize addr size).toNat % 4096 = 0 := by
  rw [toNat_roundSize]
  omega

/-- The page lies two gigabytes or more above the base of the view. -/
def FileView.Far (view : FileView) (base : Word) : Prop :=
  2 ^ 31 ≤ base.toNat - view.base.toNat

/--
The calls that touch the protections of pages: `VirtualProtect`, `VirtualFree`
that decommits, and `VirtualAlloc` that commits.
-/
inductive PageCall where
  | protect (addr size newProt : Word)
  | decommit (addr size type : Word)
  | commit (addr size type newProt : Word)

/-- The types for which `VirtualFree` decommits and `VirtualAlloc` commits. -/
def PageCall.Applies : PageCall → Prop
  | .protect .. => True
  | .decommit _ _ type => type &&& ~~~memSystem = memDecommit
  | .commit addr _ type _ =>
    addr ≠ 0 ∧ type &&& ~~~memWriteWatch &&& ~~~memTopDown &&& memReserve = 0

/-- Run a call, keeping the list only. -/
def PageCall.run (host : Host) (chain : ViewChain) : PageCall → Except Fault ViewChain
  | .protect addr size newProt => (virtualProtect host chain addr size newProt).map Prod.snd
  | .decommit addr size type => (virtualFree host chain addr size type).map Prod.snd
  | .commit addr size type newProt => (virtualAlloc host chain addr size type newProt).map Prod.snd

/-- The page of the address. -/
def PageCall.base : PageCall → Word
  | .protect addr _ _ => roundAddr addr pageMask
  | .decommit addr _ _ => roundAddr addr pageMask
  | .commit addr _ type _ => allocBase addr (type &&& ~~~memWriteWatch)

/-- The rounded size. -/
def PageCall.size : PageCall → Word
  | .protect addr size _ => roundSize addr size
  | .decommit addr size _ => roundSize addr size
  | .commit addr size type _ => allocSize addr size (type &&& ~~~memWriteWatch)

/-- The call finds the view and gets past its range check. -/
def PageCall.Passes (chain : ViewChain) (call : PageCall) (ptr : ViewPtr) (view : FileView) :
    Prop :=
  findView chain call.base = some (ptr, view) ∧ ¬ (call.base + call.size > view.base + view.size)

/-- `VirtualAlloc` gets to the part that commits pages. -/
def Commits (addr size type : Word) : Prop :=
  let type := type &&& ~~~memWriteWatch
  let known := memCommit ||| memReserve ||| memSystem
  ¬ size > 0x7fc00000 ∧
    ¬ (allocBase addr type ≤ granularityMask) ∧
    ¬ (allocBase addr type + allocSize addr size type < allocBase addr type) ∧
    type &&& ~~~memTopDown &&& known ≠ 0 ∧
    type &&& ~~~memTopDown &&& ~~~known = 0

/-- The byte that `VirtualAlloc` gives to the committed pages. -/
def commitProt (type newProt : Word) : Byte :=
  if type &&& ~~~memWriteWatch &&& ~~~memTopDown &&&
      (memCommit ||| memSystem) ≠ 0 then
    getProt newProt ||| vprotCommitted
  else
    0

/-- The call leaves the array of the view: for every page two gigabytes above the base, and
behind a wrapped range check, where `VirtualProtect` reads until it meets a page that is not
committed, and `VirtualFree` overwrites everything if `mprotect` lets it. -/
def PageCall.Overruns (host : Host) (chain : ViewChain) (call : PageCall) : Prop :=
  ∃ ptr view, call.Passes chain ptr view ∧
    match call with
    | .protect addr size _ =>
      view.Far call.base ∨
        (RangeWraps addr size ∧ view.CommittedFrom ((call.base.toNat - view.base.toNat) / 4096))
    | .decommit addr size _ =>
      view.flags &&& vflagValloc ≠ 0 ∧ call.size ≠ 0 ∧
        host.mprotect call.base call.size (getUnixProt 0) = true ∧
        (view.Far call.base ∨ RangeWraps addr size)
    | .commit addr size type newProt =>
      Commits addr size type ∧ call.size ≠ 0 ∧
        host.mprotect call.base call.size (getUnixProt (commitProt type newProt)) = true ∧
        view.Far call.base

/-- Only the protections of the view found for the page have changed. -/
def OthersKept (chain chain' : ViewChain) (base : Word) : Prop :=
  List.Forall₂
    (fun before after =>
      after.1 = before.1 ∧ after.2.base = before.2.base ∧
        after.2.size = before.2.size ∧
        (findView chain base ≠ some before → after.2.prot = before.2.prot))
    (viewsOf chain) (viewsOf chain')

theorem OthersKept.refl (chain : ViewChain) (base : Word) : OthersKept chain chain base :=
  forall₂_same.mpr fun _ _ => ⟨rfl, rfl, rfl, fun _ => rfl⟩

variable {chain' : ViewChain} {view' : FileView} {call : PageCall}

theorem OthersKept.of_replaced {base : Word} (linked : Linked chain (front ++ (ptr, view) :: back))
    (found : findView chain base = some (ptr, view))
    (linked' : Linked chain' (front ++ (ptr, view') :: back)) (sameBase : view'.base = view.base)
    (sameSize : view'.size = view.size) : OthersKept chain chain' base := by
  rw [OthersKept, viewsOf_eq linked, viewsOf_eq linked']
  refine rel_append (forall₂_same.mpr ?_)
    (.cons ⟨rfl, sameBase, sameSize, fun other => absurd found other⟩ (forall₂_same.mpr ?_)) <;>
  exact fun _ _ => ⟨rfl, rfl, rfl, fun _ => rfl⟩

variable (linked : Linked chain views) (placed : WellPlaced views)

include placed linked in
theorem found_page {base : Word} (found : findView chain base = some (ptr, view)) :
    (∃ front back, views = front ++ (ptr, view) :: back) ∧
      view.base.toNat ≤ base.toNat ∧ base.toNat < view.stop ∧
      view.stop ≤ 0xfffff000 := by
  rw [findView, viewsOf_eq linked] at found
  obtain ⟨member, covers, below⟩ := mem_of_findViewFrom placed.inSpace found
  have viewPages := view.sizePages
  have viewAligned := view.baseAligned
  have stop : view.stop = view.base.toNat + view.size.toNat := rfl
  exact ⟨append_of_mem member, covers.1, covers.2, by simp only at below; omega⟩

theorem end_le_of_passes {base size : Word} (below : view.stop < 2 ^ 32)
    (passes : ¬ (base + size > view.base + view.size)) (noWrap : base.toNat + size.toNat < 2 ^ 32) :
    base.toNat + size.toNat ≤ view.stop := by
  rw [gt_iff_lt, BitVec.lt_def, FileView.toNat_end below, BitVec.toNat_add,
    Nat.mod_eq_of_lt noWrap, not_lt] at passes
  exact passes

variable {size : Word}

theorem holds_iff_of_passes (inView : (roundAddr addr pageMask).toNat < view.stop)
    (below : view.stop ≤ 0xfffff000)
    (passes : ¬ (roundAddr addr pageMask + roundSize addr size > view.base + view.size)) :
    view.Holds (roundAddr addr pageMask) (roundSize addr size) ↔
      ¬ (view.Far (roundAddr addr pageMask) ∨ RangeWraps addr size) := by
  have notLast : (roundAddr addr pageMask).toNat < 0xfffff000 := by omega
  have wraps := rangeWraps_iff notLast size
  have noWrap := end_le_of_passes (by omega) passes
  rw [FileView.Holds, FileView.Far, ← wraps]
  omega

/-- The call returns, and only protections of the view that was found change. -/
def PageCall.Within (host : Host) (chain : ViewChain) (call : PageCall) : Prop :=
  ∃ chain', call.run host chain = .ok chain' ∧
    Linked chain' (viewsOf chain') ∧ OthersKept chain chain' call.base

open PageCall (protect decommit commit run Within)

include linked in
theorem PageCall.Within.of_unchanged (ran : call.run host chain = .ok chain) :
    call.Within host chain :=
  ⟨chain, ran, (viewsOf_eq linked).symm ▸ linked, OthersKept.refl _ _⟩

theorem PageCall.Within.of_replaced (linked : Linked chain (front ++ (ptr, view) :: back))
    (found : findView chain call.base = some (ptr, view)) (ran : call.run host chain = .ok chain')
    (linked' : Linked chain' (front ++ (ptr, view') :: back)) (sameBase : view'.base = view.base)
    (sameSize : view'.size = view.size) : call.Within host chain :=
  ⟨chain', ran, (viewsOf_eq linked').symm ▸ linked',
    OthersKept.of_replaced linked found linked' sameBase sameSize⟩

include placed linked in
/-- `VirtualProtect` stays in the view. -/
theorem within_protect (safe : ¬ (protect addr size newProt).Overruns host chain) :
    (protect addr size newProt).Within host chain := by
  cases search : findView chain (roundAddr addr pageMask) with
  | none =>
    apply Within.of_unchanged linked
    simp only [run, virtualProtect, search]
    rfl
  | some found =>
    obtain ⟨ptr, view⟩ := found
    obtain ⟨⟨_, _, rfl⟩, above, inView, below⟩ := found_page linked placed search
    by_cases passes : roundAddr addr pageMask + roundSize addr size > view.base + view.size
    · apply Within.of_unchanged linked
      simp only [run, virtualProtect, search, if_pos passes]
      rfl
    have safe' : ¬ (view.Far (roundAddr addr pageMask) ∨
        (RangeWraps addr size ∧
          view.CommittedFrom (((roundAddr addr pageMask).toNat - view.base.toNat) / 4096))) :=
      fun overruns => safe ⟨ptr, view, ⟨search, passes⟩, overruns⟩
    obtain ⟨notFar, notThrough⟩ := not_or.mp safe'
    have holds := holds_iff_of_passes inView below passes
    have pages := view.sizePages
    have stop : view.stop = view.base.toNat + view.size.toNat := rfl
    have index := protIndex_of_near above (not_le.mp notFar)
    have inside :
        ((roundAddr addr pageMask).toNat - view.base.toNat) / 4096 < view.prot.length := by omega
    rcases checkCommitted_spec view (roundSize addr size >>> pageShift).toNat inside.le with
      ⟨checked, accepted⟩ | ⟨checked, -⟩ | ⟨-, outside, committed⟩
    · have viewAligned := view.baseAligned
      have baseAligned := roundAddr_pageMask_aligned addr
      have sizeAligned := roundSize_aligned addr size
      rw [toNat_pages] at accepted
      have inRange : view.Holds (roundAddr addr pageMask) (roundSize addr size) :=
        ⟨not_le.mp notFar, by omega⟩
      obtain ⟨set, _, _, ran, linked', sameBase, sameSize⟩ :=
        setProt_of_holds host linked above
          (getProt newProt ||| vprotCommitted) fun _ => .inr inRange
      refine Within.of_replaced linked search ?_ linked' sameBase sameSize
      simp only [run, virtualProtect, search, if_neg passes,
        index, readProt_of_lt inside, checked, ran, bind, Except.bind]
      cases set <;> rfl
    · apply Within.of_unchanged linked
      simp only [run, virtualProtect, search, if_neg passes,
        index, readProt_of_lt inside, checked, bind, Except.bind]
      rfl
    · -- the range wraps, for otherwise it lies in the view
      refine absurd ⟨?_, committed⟩ notThrough
      by_contra noWrap
      have inRange := (holds.mpr (not_or.mpr ⟨notFar, noWrap⟩)).2
      rw [toNat_pages] at outside
      omega

include placed linked in
/-- `VirtualProtect` leaves the array. -/
theorem overruns_protect (overruns : (protect addr size newProt).Overruns host chain) :
    (protect addr size newProt).run host chain = .error .protOverrun := by
  obtain ⟨_, view, ⟨search, passes⟩, overruns⟩ := overruns
  simp only [PageCall.base, PageCall.size] at search passes overruns
  obtain ⟨-, above, _, _⟩ := found_page linked placed search
  have pages := view.sizePages
  have stop : view.stop = view.base.toNat + view.size.toNat := rfl
  simp only [run, virtualProtect, search, if_neg passes, bind, Except.bind]
  by_cases far : view.Far (roundAddr addr pageMask)
  · rw [readProt_of_neg (protIndex_of_far above far)]
    rfl
  obtain ⟨wraps, committed⟩ := overruns.resolve_left far
  have index := protIndex_of_near above (not_le.mp far)
  have inside :
      ((roundAddr addr pageMask).toNat - view.base.toNat) / 4096 < view.prot.length := by omega
  have sizeAligned := roundSize_aligned addr size
  have notLast : (roundAddr addr pageMask).toNat < 0xfffff000 := by omega
  have beyond := (rangeWraps_iff notLast size).mpr wraps
  have outside : view.prot.length <
      ((roundAddr addr pageMask).toNat - view.base.toNat) / 4096 +
        (roundSize addr size >>> pageShift).toNat := by
    rw [toNat_pages]
    omega
  rcases checkCommitted_spec view (roundSize addr size >>> pageShift).toNat inside.le with
    ⟨-, accepted⟩ | ⟨-, uncommitted⟩ | ⟨through, -⟩
  · exact absurd accepted (by omega)
  · exact absurd committed uncommitted
  · simp only [index, readProt_of_lt inside, through]
    rfl

/-- The view with the flag that `VirtualFree` sets for `MEM_SYSTEM`. -/
def markSystem (type : Word) (view : FileView) : FileView :=
  if type &&& memSystem ≠ 0 then
    { view with flags := view.flags ||| vflagSystem }
  else
    view

/-- The list with the flag that `VirtualFree` sets for `MEM_SYSTEM`. -/
def markSystemIn (type : Word) (chain : ViewChain) (ptr : ViewPtr) (view : FileView) : ViewChain :=
  if type &&& memSystem ≠ 0 then
    chain.setValue ptr (markSystem type view)
  else
    chain

/-- `VirtualFree` behind its range check. -/
theorem virtualFree_of_passes (search : findView chain (roundAddr addr pageMask) = some (ptr, view))
    (passes : ¬ (roundAddr addr pageMask + roundSize addr size > view.base + view.size ∨
      view.flags &&& vflagValloc = 0)) :
    virtualFree host chain addr size type =
      if type &&& ~~~memSystem ≠ memDecommit ∧
          type &&& ~~~memSystem ≠ memRelease then
        .ok (.rejected .invalidParameter, markSystemIn type chain ptr view)
      else
        freePages host (markSystemIn type chain ptr view) ptr
          (markSystem type view) (roundAddr addr pageMask)
          (roundSize addr size) (type &&& ~~~memSystem) := by
  simp only [virtualFree, search, if_neg passes]
  rfl

theorem markSystem_same (type : Word) (view : FileView) :
    (markSystem type view).base = view.base ∧
      (markSystem type view).size = view.size ∧
      (markSystem type view).prot = view.prot := by
  rw [markSystem]
  split <;> exact ⟨rfl, rfl, rfl⟩

theorem linked_markSystemIn (linked : Linked chain (front ++ (ptr, view) :: back)) (type : Word) :
    Linked (markSystemIn type chain ptr view) (front ++ (ptr, markSystem type view) :: back) := by
  by_cases system : type &&& memSystem ≠ 0
  · simp only [markSystemIn, if_pos system]
    exact linked.setValue _
  · simp only [markSystemIn, markSystem, if_neg system]
    exact linked

/-- The part of `VirtualFree` that decommits pages. -/
theorem freePages_decommit (host : Host) (chain : ViewChain) (ptr : ViewPtr) (view : FileView)
    (base size : Word) :
    freePages host chain ptr view base size memDecommit =
      if size = 0 ∧ base ≠ view.base then
        .ok (.done (), chain)
      else
        (setProt host chain ptr view base
          (if size = 0 then view.size else size) 0).map fun set =>
            (if set.1 then .done () else .refused none, set.2) := by
  rw [freePages, if_neg (by decide)]
  split
  · rfl
  simp only [bind, Except.bind, Except.map]
  split
  · rfl
  · rename_i set _
    obtain ⟨_ | _, chain'⟩ := set <;> rfl

include placed linked in
/-- `VirtualFree` that decommits stays in the view. -/
theorem within_decommit (decommits : type &&& ~~~memSystem = memDecommit)
    (safe : ¬ (decommit addr size type).Overruns host chain) :
    (decommit addr size type).Within host chain := by
  cases search : findView chain (roundAddr addr pageMask) with
  | none =>
    apply Within.of_unchanged linked
    simp only [run, virtualFree, search]
    rfl
  | some found =>
    obtain ⟨ptr, view⟩ := found
    obtain ⟨⟨_, _, rfl⟩, above, inView, below⟩ := found_page linked placed search
    by_cases fails :
        roundAddr addr pageMask + roundSize addr size > view.base + view.size ∨
          view.flags &&& vflagValloc = 0
    · apply Within.of_unchanged linked
      simp only [run, virtualFree, search, if_pos fails]
      rfl
    obtain ⟨passes, valloc⟩ := not_or.mp fails
    have marked := linked_markSystemIn linked type
    obtain ⟨markedBase, markedSize, -⟩ := markSystem_same type view
    by_cases nothing :
        roundSize addr size = 0 ∧ roundAddr addr pageMask ≠ (markSystem type view).base
    · refine Within.of_replaced linked search ?_ marked markedBase markedSize
      rw [run, virtualFree_of_passes search fails, decommits, freePages_decommit,
        if_pos nothing]
      rfl
    obtain ⟨length, isLength⟩ : ∃ length, (if roundSize addr size = 0 then
        (markSystem type view).size else roundSize addr size) = length := ⟨_, rfl⟩
    have inRange (granted : host.mprotect (roundAddr addr pageMask) length (getUnixProt 0)) :
        (markSystem type view).Holds (roundAddr addr pageMask) length := by
      rw [FileView.Holds, FileView.stop, markedBase, markedSize]
      rw [markedBase] at nothing
      by_cases whole : roundSize addr size = 0
      · have atBase : roundAddr addr pageMask = view.base :=
          not_not.mp fun other => nothing ⟨whole, other⟩
        rw [← isLength, if_pos whole, markedSize, atBase]
        exact ⟨by omega, le_rfl⟩
      · rw [← isLength, if_neg whole] at granted ⊢
        refine (holds_iff_of_passes inView below passes).mpr fun outside => ?_
        exact safe ⟨ptr, view, ⟨search, passes⟩, valloc, whole, granted, outside⟩
    obtain ⟨_, _, _, ran, linked', sameBase, sameSize⟩ :=
      setProt_of_holds host marked (markedBase ▸ above) 0 fun granted => .inr (inRange granted)
    refine Within.of_replaced linked search ?_ linked'
      (sameBase.trans markedBase) (sameSize.trans markedSize)
    rw [run, virtualFree_of_passes search fails, decommits, freePages_decommit,
      if_neg nothing, isLength, ran]
    rfl

include placed linked in
/-- `VirtualFree` that decommits leaves the array. -/
theorem overruns_decommit (decommits : type &&& ~~~memSystem = memDecommit)
    (overruns : (decommit addr size type).Overruns host chain) :
    (decommit addr size type).run host chain = .error .protOverrun := by
  obtain ⟨ptr, view, ⟨search, passes⟩, valloc, pages, granted, outside⟩ := overruns
  simp only [PageCall.base, PageCall.size] at search passes pages granted outside
  obtain ⟨-, above, inView, below⟩ := found_page linked placed search
  obtain ⟨markedBase, markedSize, -⟩ := markSystem_same type view
  have notHolds :
      ¬ (markSystem type view).Holds (roundAddr addr pageMask) (roundSize addr size) := by
    rw [FileView.Holds, FileView.stop, markedBase, markedSize]
    exact mt (holds_iff_of_passes inView below passes).mp (not_not.mpr outside)
  rw [run,
    virtualFree_of_passes search (not_or.mpr ⟨passes, valloc⟩), decommits,
    if_neg (by decide), freePages_decommit, if_neg (fun both => pages both.1),
    if_neg pages,
    setProt_of_not_holds _ ptr (markedBase ▸ above)
      (roundAddr_pageMask_aligned addr) (roundSize_aligned addr size) granted
      pages notHolds]
  rfl

/-- `VirtualAlloc` that commits pages, when it gets that far. -/
theorem virtualAlloc_commit (host : Host) (chain : ViewChain) (size newProt : Word)
    (notNull : addr ≠ 0)
    (notReserve : type &&& ~~~memWriteWatch &&& ~~~memTopDown &&& memReserve = 0) :
    (¬ Commits addr size type ∧
      ∃ error, virtualAlloc host chain addr size type newProt = .ok (.rejected error, chain)) ∨
    (Commits addr size type ∧
      virtualAlloc host chain addr size type newProt =
        commitPages host chain
          (allocBase addr (type &&& ~~~memWriteWatch))
          (allocSize addr size (type &&& ~~~memWriteWatch))
          (commitProt type newProt)) := by
  rw [virtualAlloc, Commits]
  by_cases large : size > 0x7fc00000
  · rw [if_pos large]
    exact .inl ⟨fun commits => commits.1 large, _, rfl⟩
  rw [if_neg large]
  generalize allocBase addr (type &&& ~~~memWriteWatch) = base
  generalize allocSize addr size (type &&& ~~~memWriteWatch) = bytes
  by_cases outside : base ≤ granularityMask ∨ base + bytes < base
  · rw [if_pos ⟨notNull, outside⟩]
    refine .inl ⟨fun commits => ?_, _, rfl⟩
    exact outside.elim commits.2.1 commits.2.2.1
  rw [if_neg fun both => outside both.2]
  obtain ⟨notLow, noWrap⟩ := not_or.mp outside
  by_cases badType :
      type &&& ~~~memWriteWatch &&& ~~~memTopDown &&& (memCommit ||| memReserve ||| memSystem) = 0 ∨
        type &&& ~~~memWriteWatch &&& ~~~memTopDown &&&
          ~~~(memCommit ||| memReserve ||| memSystem) ≠ 0
  · rw [if_pos badType]
    refine .inl ⟨fun commits => ?_, _, rfl⟩
    exact badType.elim commits.2.2.2.1 (fun other => other commits.2.2.2.2)
  obtain ⟨known, noOther⟩ := not_or.mp badType
  have notReserved :
      ¬ (type &&& ~~~memWriteWatch &&& ~~~memTopDown &&& memReserve ≠ 0 ∨ base = 0) := by
    rintro (reserve | rfl)
    · exact reserve notReserve
    · exact notLow (by decide)
  rw [if_neg badType, if_neg notReserved]
  exact .inr ⟨⟨large, notLow, noWrap, known, not_not.mp noOther⟩, rfl⟩

/-- The base of `VirtualAlloc` is a page boundary. -/
theorem allocBase_aligned (addr type : Word) : (allocBase addr type).toNat % 4096 = 0 := by
  rw [allocBase]
  split
  · rfl
  split
  · have rounded := Words.toNat_and_not_lowMask addr 16
    have same : (roundAddr addr granularityMask).toNat = 2 ^ 16 * (addr.toNat / 2 ^ 16) := rounded
    omega
  · exact roundAddr_pageMask_aligned addr

/-- `VirtualAlloc` that commits rounds to pages, without a wrap-around. -/
theorem commits_range (notNull : addr ≠ 0) (commits : Commits addr size type) :
    (allocSize addr size (type &&& ~~~memWriteWatch)).toNat % 4096 = 0 ∧
      (allocBase addr (type &&& ~~~memWriteWatch)).toNat +
        (allocSize addr size (type &&& ~~~memWriteWatch)).toNat < 2 ^ 32 := by
  have aligned := allocBase_aligned addr (type &&& ~~~memWriteWatch)
  have noWrap := commits.2.2.1
  have stopAligned := roundAddr_pageMask_aligned (addr + size + pageMask)
  have isSize : allocSize addr size (type &&& ~~~memWriteWatch) =
      roundAddr (addr + size + pageMask) pageMask -
        allocBase addr (type &&& ~~~memWriteWatch) := by
    rw [allocSize, if_neg notNull]
    rfl
  rw [isSize] at noWrap ⊢
  rw [BitVec.lt_def, BitVec.toNat_add, BitVec.toNat_sub] at noWrap
  rw [BitVec.toNat_sub]
  omega

include placed linked in
/-- Committing pages stays in the view. -/
theorem within_commit (applies : (commit addr size type newProt).Applies)
    (safe : ¬ (commit addr size type newProt).Overruns host chain) :
    (commit addr size type newProt).Within host chain := by
  rcases virtualAlloc_commit host chain size newProt applies.1 applies.2 with
    ⟨-, error, rejected⟩ | ⟨commits, ran⟩
  · apply Within.of_unchanged linked
    rw [run, rejected]
    rfl
  obtain ⟨_, noWrap⟩ := commits_range applies.1 commits
  cases search : findView chain (allocBase addr (type &&& ~~~memWriteWatch)) with
  | none =>
    apply Within.of_unchanged linked
    simp only [run, ran, commitPages, search]
    rfl
  | some found =>
    obtain ⟨ptr, view⟩ := found
    obtain ⟨⟨_, _, rfl⟩, above, _, _⟩ := found_page linked placed search
    by_cases passes :
        allocBase addr (type &&& ~~~memWriteWatch) +
            allocSize addr size (type &&& ~~~memWriteWatch) >
          view.base + view.size
    · apply Within.of_unchanged linked
      simp only [run, ran, commitPages, search, if_pos passes]
      rfl
    · have inRange := end_le_of_passes (by omega) passes noWrap
      obtain ⟨set, _, _, done, linked', sameBase, sameSize⟩ :=
        setProt_of_holds host linked above (commitProt type newProt)
          (fun granted => by
            by_cases empty : allocSize addr size (type &&& ~~~memWriteWatch) = 0
            · exact .inl empty
            · refine .inr ⟨not_le.mp fun far => ?_, inRange⟩
              exact safe ⟨ptr, view, ⟨search, passes⟩, commits, empty, granted, far⟩)
      refine Within.of_replaced linked search ?_ linked' sameBase sameSize
      simp only [run, ran, commitPages, search, if_neg passes, done, bind, Except.bind]
      cases set <;> rfl

include placed linked in
/-- Committing pages leaves the array. -/
theorem overruns_commit (applies : (commit addr size type newProt).Applies)
    (overruns : (commit addr size type newProt).Overruns host chain) :
    (commit addr size type newProt).run host chain = .error .protOverrun := by
  obtain ⟨ptr, _, ⟨search, passes⟩, commits, pages, granted, far⟩ := overruns
  simp only [PageCall.base, PageCall.size] at search passes pages granted far
  obtain ⟨-, above, -⟩ := found_page linked placed search
  obtain ⟨sizeAligned, -⟩ := commits_range applies.1 commits
  have overrun :=
    setProt_of_not_holds chain ptr above
      (allocBase_aligned addr _) sizeAligned granted pages
      fun holds => absurd holds.1 (not_lt.mpr far)
  rcases virtualAlloc_commit host chain size newProt applies.1 applies.2 with
    ⟨stops, -⟩ | ⟨-, ran⟩
  · exact absurd commits stops
  · simp only [run, ran, commitPages, search, if_neg passes, overrun, bind, Except.bind]
    rfl

/--
A call that touches protections of pages stays within the view it found,
exactly when it does not overrun.
-/
theorem pageCall_within_iff (host : Host) {chain : ViewChain} {views : List (ViewPtr × FileView)}
    (linked : Linked chain views) (placed : WellPlaced views) (call : PageCall)
    (applies : call.Applies) : call.Within host chain ↔ ¬ call.Overruns host chain := by
  have settled : (call.Overruns host chain → call.run host chain = .error .protOverrun) ∧
      (¬ call.Overruns host chain → call.Within host chain) := by
    cases call with
    | protect => exact ⟨overruns_protect linked placed, within_protect linked placed⟩
    | decommit =>
      exact ⟨overruns_decommit linked placed applies, within_decommit linked placed applies⟩
    | commit => exact ⟨overruns_commit linked placed applies, within_commit linked placed applies⟩
  refine ⟨?_, settled.2⟩
  rintro ⟨_, ran, -⟩ overruns
  cases (settled.1 overruns).symm.trans ran

theorem two_lt_pointers : 2 < 2 ^ 32 := by decide

/-- A host that grants every protection and maps nothing. -/
def grantingHost : Host where
  malloc := fun _ => ⟨2, two_lt_pointers⟩
  useMemoryManager := true
  deadStacks := []
  reservedList := []
  mprotect := fun _ _ _ => true
  anonMmap := fun _ _ _ _ => none
  errnoIsNoMem := true
  windows95 := false

/-- One committed page from `VirtualAlloc` at `0x110000`. -/
def committedPage : FileView where
  base := 0x110000
  size := 0x1000
  flags := vflagValloc
  mapping := 0
  protect := 0x43
  prot := [0x43]
  baseAligned := by decide
  sizePages := by decide

theorem wellPlaced_singleton (inSpace : view.stop ≤ 2 ^ 32 := by decide) :
    WellPlaced [(ptr, view)] :=
  ⟨pairwise_singleton _ _, pairwise_singleton _ _, by simpa⟩

/-- Protecting the page. -/
theorem pageCall_within_page :
    (protect 0x110000 0x1000 2).Within grantingHost (singleView committedPage) := by
  refine (pageCall_within_iff grantingHost (linked_singleView _) wellPlaced_singleton
    (.protect 0x110000 0x1000 2) trivial).mpr ?_
  rintro ⟨ptr, view, ⟨search, -⟩, overruns⟩
  rw [findView, viewsOf_eq (linked_singleView _)] at search
  obtain ⟨rfl, rfl⟩ : 1 = ptr ∧ committedPage = view := by
    simpa [findViewFrom, committedPage, PageCall.base, roundAddr, pageMask] using search
  rcases overruns with far | ⟨wraps, -⟩
  · exact absurd far (by unfold FileView.Far; decide)
  · exact absurd wraps.2 (by decide)

/-- Protecting up to the end of the address space: the wrapped end passes the check, and the
loop reads behind the only byte of the array. -/
theorem virtualProtect_reads_behind_view :
    Linked (singleView committedPage) [(1, committedPage)] ∧
      WellPlaced [((1 : ViewPtr), committedPage)] ∧
      ¬ (protect 0x110000 0xffef0000 2).Within grantingHost
        (singleView committedPage) := by
  refine ⟨linked_singleView _, wellPlaced_singleton, ?_⟩
  rintro ⟨_, ran, -⟩
  have stopped : ((protect 0x110000 0xffef0000 2).run grantingHost
      (singleView committedPage)).toOption.isNone = true := by decide +kernel
  rw [ran] at stopped
  cases stopped

end Winex.Virtual
