import Winex.PageRanges

namespace Winex.Virtual

open Cells

/-!
# Calls that are rejected

`VirtualAlloc` and `VirtualProtect` change nothing before their last check.
`VirtualFree` sets the flag of a system view as soon as it has found the view, and
checks the type and the address afterwards.
-/

/-- A call of one of the three functions. -/
inductive VirtualCall where
  | alloc (addr size type newProt : Word)
  | free (addr size type : Word)
  | protect (addr size newProt : Word)

/-- A check of the arguments fails, and the call returns with this list. -/
def VirtualCall.Rejects (host : Host) (chain : ViewChain) : VirtualCall → ViewChain → Prop
  | .alloc addr size type newProt, chain' =>
    ∃ error, virtualAlloc host chain addr size type newProt = .ok (.rejected error, chain')
  | .free addr size type, chain' =>
    ∃ error, virtualFree host chain addr size type = .ok (.rejected error, chain')
  | .protect addr size newProt, chain' =>
    ∃ error old, virtualProtect host chain addr size newProt = .ok ((.rejected error, old), chain')

/-! ## `VirtualAlloc` and `VirtualProtect` -/

variable {host : Host} {chain chain' : ViewChain} {base size : Word} {error : WinError}
variable {type addr : Word}

variable {vprot : Byte} {newProt : Word} {ptr : ViewPtr} {view : FileView}

theorem commitPages_rejected
    (ran : commitPages host chain base size vprot = .ok (.rejected error, chain')) :
    chain' = chain := by
  rw [commitPages] at ran
  split at ran
  · cases ran
    rfl
  split at ran
  · cases ran
    rfl
  simp only [bind, Except.bind] at ran
  split at ran
  · cases ran
  · split at ran <;> cases ran

theorem reservePages_not_rejected :
    reservePages host chain base size type vprot ≠ .ok (.rejected error, chain') := by
  intro ran
  rw [reservePages] at ran
  simp only [bind, Except.bind] at ran
  split at ran
  · split at ran <;> cases ran
  split at ran
  · cases ran
  split at ran
  · cases ran
  · split at ran
    · cases ran
    · split at ran <;> cases ran

/-- `VirtualAlloc` is rejected before anything has changed. -/
theorem virtualAlloc_rejected
    (ran : virtualAlloc host chain addr size type newProt = .ok (.rejected error, chain')) :
    chain' = chain := by
  rw [virtualAlloc] at ran
  dsimp only at ran
  split at ran
  · cases ran
    rfl
  split at ran
  · cases ran
    rfl
  split at ran
  · cases ran
    rfl
  · split at ran
    · exact absurd ran reservePages_not_rejected
    · exact commitPages_rejected ran

/-- `VirtualProtect` is rejected before anything has changed. -/
theorem virtualProtect_rejected {old : Option Word}
    (ran : virtualProtect host chain addr size newProt = .ok ((.rejected error, old), chain')) :
    chain' = chain := by
  rw [virtualProtect] at ran
  split at ran
  · cases ran
    rfl
  split at ran
  · cases ran
    rfl
  simp only [bind, Except.bind] at ran
  split at ran
  · cases ran
  split at ran
  · cases ran
  split at ran
  · split at ran
    · cases ran
    · split at ran <;> cases ran
  · cases ran
    rfl

/-! ## `VirtualFree` -/

/--
`VirtualFree` finds the view and gets past its range check, but rejects the
type, or a release that does not name a whole view.
-/
def RejectsLate (chain : ViewChain) (addr size type : Word) (ptr : ViewPtr) (view : FileView) :
    Prop :=
  findView chain (roundAddr addr pageMask) = some (ptr, view) ∧
    ¬ (roundAddr addr pageMask + roundSize addr size > view.base + view.size) ∧
    view.flags &&& vflagValloc ≠ 0 ∧
    ((type &&& ~~~memSystem ≠ memDecommit ∧ type &&& ~~~memSystem ≠ memRelease) ∨
      (type &&& ~~~memSystem = memRelease ∧
        (roundSize addr size ≠ 0 ∨ roundAddr addr pageMask ≠ view.base)))

theorem freePages_rejected
    (ran : freePages host chain ptr view base size type = .ok (.rejected error, chain')) :
    (type = memRelease ∧ (size ≠ 0 ∨ base ≠ view.base)) ∧ chain' = chain := by
  rw [freePages] at ran
  split at ran
  · rename_i release
    split at ran
    · rename_i partly
      cases ran
      exact ⟨⟨release, partly⟩, rfl⟩
    · cases ran
  · split at ran
    · cases ran
    simp only [bind, Except.bind] at ran
    split at ran
    · cases ran
    · split at ran <;> cases ran

/-- `VirtualFree` is rejected by its first check, or with the flag set. -/
theorem virtualFree_rejected
    (ran : virtualFree host chain addr size type = .ok (.rejected error, chain')) :
    chain' = chain ∨
      ∃ ptr view, RejectsLate chain addr size type ptr view ∧
        chain' = markSystemIn type chain ptr view := by
  cases search : findView chain (roundAddr addr pageMask) with
  | none =>
    simp only [virtualFree, search] at ran
    cases ran
    exact .inl rfl
  | some found =>
    obtain ⟨ptr, view⟩ := found
    by_cases fails :
        roundAddr addr pageMask + roundSize addr size > view.base + view.size ∨
          view.flags &&& vflagValloc = 0
    · simp only [virtualFree, search, if_pos fails] at ran
      cases ran
      exact .inl rfl
    · rw [virtualFree_of_passes search fails] at ran
      obtain ⟨passes, valloc⟩ := not_or.mp fails
      split at ran
      · rename_i badType
        cases ran
        exact .inr ⟨ptr, view, ⟨search, passes, valloc, .inl badType⟩, rfl⟩
      · obtain ⟨partly, rfl⟩ := freePages_rejected ran
        rw [(markSystem_same type view).1] at partly
        exact .inr ⟨ptr, view, ⟨search, passes, valloc, .inr partly⟩, rfl⟩

/-- `VirtualFree` rejects late with the flag set. -/
theorem RejectsLate.rejects (late : RejectsLate chain addr size type ptr view) :
    virtualFree host chain addr size type =
      .ok (.rejected .invalidParameter, markSystemIn type chain ptr view) := by
  obtain ⟨search, passes, valloc, reason⟩ := late
  rw [virtualFree_of_passes search (not_or.mpr ⟨passes, valloc⟩)]
  rcases reason with badType | ⟨release, partly⟩
  · rw [if_pos badType]
  · rw [if_neg (fun badType => badType.2 release), freePages, if_pos release,
      (markSystem_same type view).1, if_pos partly]
    rfl

/-! ## The list after a rejected call -/

theorem mem_viewsOf_of_findView {found : ViewPtr × FileView}
    (search : findView chain addr = some found) : found ∈ viewsOf chain := by
  rw [findView] at search
  generalize viewsOf chain = views at search ⊢
  fun_induction findViewFrom addr views with
  | case1 | case2 ptr view next beyond => cases search
  | case3 =>
    cases search
    exact List.mem_cons_self ..
  | case4 _ _ _ _ _ ih =>
    exact List.mem_cons_of_mem _ (ih search)

/--
The call is a `VirtualFree` with `MEM_SYSTEM` that is rejected late, for a view
that is not a system view yet.
-/
def VirtualCall.MarksView (chain : ViewChain) : VirtualCall → Prop
  | .free addr size type =>
    ∃ ptr view, RejectsLate chain addr size type ptr view ∧
      type &&& memSystem ≠ 0 ∧ view.flags ||| vflagSystem ≠ view.flags
  | _ => False

/--
A call that is rejected leaves all views as they were, exactly when it is not
one that marks a view as system view before it is rejected.
-/
theorem rejected_keeps_views_iff (host : Host) {chain : ViewChain}
    {views : List (ViewPtr × FileView)} (linked : Linked chain views) (call : VirtualCall) :
    (∀ chain', call.Rejects host chain chain' → viewsOf chain' = viewsOf chain) ↔
      ¬ call.MarksView chain := by
  cases call with
  | alloc =>
    refine ⟨fun _ => id, ?_⟩
    rintro - chain' ⟨error, ran⟩
    rw [virtualAlloc_rejected ran]
  | protect =>
    refine ⟨fun _ => id, ?_⟩
    rintro - chain' ⟨error, _, ran⟩
    rw [virtualProtect_rejected ran]
  | free _ _ type =>
    constructor
    · rintro keeps ⟨ptr, view, late, system, newFlag⟩
      have kept := keeps _ ⟨_, late.rejects⟩
      obtain ⟨front, back, shape⟩ := List.append_of_mem (mem_viewsOf_of_findView late.1)
      rw [viewsOf_eq linked] at shape kept
      rw [shape] at linked kept
      rw [viewsOf_eq (linked_markSystemIn linked type)] at kept
      have sameView := List.append_cancel_left kept
      have sameFlags : (markSystem type view).flags = view.flags := by
        simp only [List.cons.injEq, Prod.mk.injEq, true_and] at sameView
        rw [sameView.1]
      rw [markSystem, if_pos system] at sameFlags
      exact newFlag sameFlags
    · rintro notMarks _ ⟨_, ran⟩
      rcases virtualFree_rejected ran with rfl | ⟨ptr, view, late, rfl⟩
      · rfl
      obtain ⟨_, _, shape⟩ := List.append_of_mem (mem_viewsOf_of_findView late.1)
      rw [viewsOf_eq linked] at shape
      rw [shape] at linked
      rw [viewsOf_eq (linked_markSystemIn linked type), viewsOf_eq linked]
      by_cases system : type &&& memSystem ≠ 0
      · have oldFlag : view.flags ||| vflagSystem = view.flags :=
          not_not.mp fun newFlag => notMarks ⟨ptr, view, late, system, newFlag⟩
        rw [markSystem, if_pos system]
        simp only [oldFlag]
      · rw [markSystem, if_neg system]

/-- Releasing a page with its size is rejected, and nothing changes. -/
theorem rejected_keeps_views_release :
    ∃ chain', (VirtualCall.free 0x110000 0x1000 memRelease).Rejects grantingHost
        (singleView committedPage) chain' ∧
      viewsOf chain' = viewsOf (singleView committedPage) := by
  have keeps :=
    (rejected_keeps_views_iff grantingHost (linked_singleView committedPage)
      (.free 0x110000 0x1000 memRelease)).mpr (by
        rintro ⟨_, _, -, system, -⟩
        exact system (by decide))
  have rejects : (VirtualCall.free 0x110000 0x1000 memRelease).Rejects grantingHost
      (singleView committedPage) (singleView committedPage) :=
    ⟨.invalidParameter, rfl⟩
  exact ⟨_, rejects, keeps _ rejects⟩

/--
The same with `MEM_SYSTEM`: the call is rejected, and the page has become a
system view, which is never unmapped.
-/
theorem virtualFree_marks_rejected_view :
    ∃ chain', (VirtualCall.free 0x110000 0x1000 (memRelease ||| memSystem)).Rejects
        grantingHost (singleView committedPage) chain' ∧
      (viewsOf (singleView committedPage)).map (fun entry => entry.2.flags) = [vflagValloc] ∧
      (viewsOf chain').map (fun entry => entry.2.flags) = [vflagValloc ||| vflagSystem] :=
  ⟨_, ⟨.invalidParameter, rfl⟩, by decide +kernel, by decide +kernel⟩

end Winex.Virtual
