import Mathlib.Algebra.BigOperators.Group.Finset.Basic
import Mathlib.Algebra.Order.BigOperators.Group.Finset
import Mathlib.Data.Fintype.Basic
import Mathlib.Logic.Function.Basic

namespace Winex.Interleaving

open Finset

/-!
# Interleaved threads over shared memory

Every thread has a local state, and all of them work on one shared state.  A program
says what one thread does in its next atomic step.  A run picks a thread again and
again, with a choice of what the program leaves open.

Invariants count threads: a measure of the local states is added up, and one step
changes it by what the moving thread's own measure changes.
-/

/-- The shared state and the local state of every thread. -/
structure Config (Thread Shared Local : Type) where
  shared : Shared
  locals : Thread → Local

/-- The next atomic step of a thread, `none` where it cannot move. -/
abbrev Program (Thread Choice Shared Local : Type) : Type :=
  Thread → Choice → Shared → Local → Option (Shared × Local)

variable {Thread Choice Shared Local : Type}

section Identifiers

/-- Distinct 32-bit identifiers of the threads, none of them 0. -/
structure ThreadIds (Thread : Type) where
  id : Thread → BitVec 32
  distinct : Function.Injective id
  nonzero : ∀ thread, id thread ≠ 0

/-- The identifiers 1, 2, ... -/
def numbered (threads : Nat) (small : threads < 2 ^ 32) : ThreadIds (Fin threads) where
  id thread := BitVec.ofNat 32 (thread + 1)
  distinct := by
    intro _ _ same
    have value := congrArg BitVec.toNat same
    simp at value
    omega
  nonzero := by
    intro _ zero
    have value := congrArg BitVec.toNat zero
    rw [BitVec.toNat_ofNat] at value
    change _ = 0 at value
    omega

theorem two_small : 2 < 2 ^ 32 := by decide

end Identifiers

section Runs

variable [DecidableEq Thread]

/-- The configuration after one thread has moved. -/
def Config.moved (config : Config Thread Shared Local) (thread : Thread) (shared : Shared)
    (next : Local) : Config Thread Shared Local where
  shared := shared
  locals := Function.update config.locals thread next

/-- One step of one thread. -/
def step (program : Program Thread Choice Shared Local) (config : Config Thread Shared Local)
    (thread : Thread) (choice : Choice) : Option (Config Thread Shared Local) :=
  match program thread choice config.shared (config.locals thread) with
  | none => none
  | some (shared, next) => some (config.moved thread shared next)

/-- Run the threads in the given order, from admitted configurations only. -/
def run (program : Program Thread Choice Shared Local)
    (Admitted : Config Thread Shared Local → Prop) [DecidablePred Admitted]
    (config : Config Thread Shared Local) :
    List (Thread × Choice) → Option (Config Thread Shared Local)
  | [] => some config
  | (thread, choice) :: rest =>
    if Admitted config then
      match step program config thread choice with
      | none => none
      | some next => run program Admitted next rest
    else
      none

/-- One thread moves several times in a row. -/
def times (count : Nat) (thread : Thread) (choice : Choice) : List (Thread × Choice) :=
  List.replicate count (thread, choice)

/--
The configurations met by the runs that go on only from configurations that
meet `Admitted`.
-/
inductive Reached (program : Program Thread Choice Shared Local)
    (Admitted : Config Thread Shared Local → Prop) (start : Config Thread Shared Local) :
    Config Thread Shared Local → Prop
  | start : Reached program Admitted start start
  | step {config next : Config Thread Shared Local} {thread : Thread} {choice : Choice}
      (reached : Reached program Admitted start config) (admitted : Admitted config)
      (moved : step program config thread choice = some next) : Reached program Admitted start next

variable {program : Program Thread Choice Shared Local}
variable {config next start : Config Thread Shared Local}
variable {Admitted : Config Thread Shared Local → Prop} {thread : Thread}

theorem step_eq_some {choice : Choice} (moved : step program config thread choice = some next) :
    ∃ shared loc, program thread choice config.shared (config.locals thread) = some (shared, loc) ∧
      next = config.moved thread shared loc := by
  unfold step at moved
  split at moved
  · exact absurd moved (by simp)
  next shared loc allowed => exact ⟨shared, loc, allowed, (Option.some.inj moved).symm⟩

theorem Reached.invariant {P : Config Thread Shared Local → Prop} (initially : P start)
    (preserved : ∀ config thread choice shared loc, P config →
      Admitted config →
      program thread choice config.shared (config.locals thread) = some (shared, loc) →
      P (config.moved thread shared loc)) (reached : Reached program Admitted start config) :
    P config := by
  induction reached with
  | start => exact initially
  | step _ admitted moved ih =>
    obtain ⟨_, _, allowed, rfl⟩ := step_eq_some moved
    exact preserved _ _ _ _ _ ih admitted allowed

theorem Reached.trans {middle : Config Thread Shared Local}
    (first : Reached program Admitted start middle)
    (second : Reached program Admitted middle config) : Reached program Admitted start config := by
  induction second with
  | start => exact first
  | step _ admitted moved ih =>
    exact .step ih admitted moved

theorem reached_of_run [DecidablePred Admitted] {schedule : List (Thread × Choice)}
    (finished : run program Admitted config schedule = some next) :
    Reached program Admitted config next := by
  induction schedule generalizing config with
  | nil =>
    cases Option.some.inj finished
    exact .start
  | cons _ _ ih =>
    simp only [run] at finished
    split at finished
    next admitted =>
      split at finished
      · exact absurd finished (by simp)
      next moved =>
        exact Reached.trans (.step .start admitted moved) (ih finished)
    · exact absurd finished (by simp)

theorem Reached.exists_of_run [DecidablePred Admitted]
    (reached : Reached program Admitted start config) (schedule : List (Thread × Choice))
    (Meets : Config Thread Shared Local → Prop) [DecidablePred Meets]
    (finished : (run program Admitted config schedule).any (Meets ·) = true) :
    ∃ next, Reached program Admitted start next ∧ Meets next := by
  obtain ⟨next, ended, meets⟩ := (Option.any_eq_true _ _).mp finished
  exact ⟨next, reached.trans (reached_of_run ended), of_decide_eq_true meets⟩

@[simp] theorem moved_shared (thread : Thread) (shared : Shared) (loc : Local) :
    (config.moved thread shared loc).shared = shared :=
  rfl

@[simp] theorem moved_locals_self (thread : Thread) (shared : Shared) (loc : Local) :
    (config.moved thread shared loc).locals thread = loc :=
  Function.update_self ..

theorem moved_locals_ne {other : Thread} (different : other ≠ thread) (shared : Shared)
    (loc : Local) : (config.moved thread shared loc).locals other = config.locals other :=
  Function.update_of_ne different ..

theorem forall_moved {P : Thread → Local → Prop} {shared : Shared} {loc : Local}
    (mover : P thread loc) (others : ∀ other, other ≠ thread → P other (config.locals other)) :
    ∀ other, P other ((config.moved thread shared loc).locals other) := by
  intro other
  by_cases same : other = thread
  · rw [same, moved_locals_self]
    exact mover
  · rw [moved_locals_ne same]
    exact others other same

end Runs

section Tallies

variable [Fintype Thread]

/-- A measure of the local states, added up over all threads. -/
def tally (measure : Local → Nat) (locals : Thread → Local) : Nat :=
  ∑ thread, measure (locals thread)

theorem le_tally (measure : Local → Nat) (locals : Thread → Local) (thread : Thread) :
    measure (locals thread) ≤ tally measure locals :=
  single_le_sum (f := fun thread => measure (locals thread))
    (fun _ _ => Nat.zero_le _) (mem_univ thread)

variable {measure : Local → Nat} {locals : Thread → Local}

theorem tally_eq_zero_iff : tally measure locals = 0 ↔ ∀ thread, measure (locals thread) = 0 := by
  simp [tally]

theorem tally_le_card (atMostOne : ∀ loc, measure loc ≤ 1) (locals : Thread → Local) :
    tally measure locals ≤ Fintype.card Thread := by
  have bound := sum_le_card_nsmul Finset.univ
    (fun thread => measure (locals thread)) 1 fun _ _ => atMostOne _
  simpa [tally] using bound

theorem eq_of_tally_le_one (atMostOne : tally measure locals ≤ 1) {thread other : Thread}
    (counts : 0 < measure (locals thread)) (countsToo : 0 < measure (locals other)) :
    thread = other := by
  classical
  by_contra different
  have pair := sum_le_sum_of_subset (f := fun t => measure (locals t))
    (subset_univ {thread, other})
  rw [sum_pair different] at pair
  unfold tally at atMostOne
  omega

variable [DecidableEq Thread]

theorem tally_update (measure : Local → Nat) (locals : Thread → Local) (thread : Thread)
    (loc : Local) :
    tally measure (Function.update locals thread loc) + measure (locals thread) =
      tally measure locals + measure loc := by
  have before := add_sum_erase Finset.univ
    (fun other => measure (locals other)) (mem_univ thread)
  have after := add_sum_erase Finset.univ
    (fun other => measure (Function.update locals thread loc other))
    (mem_univ thread)
  have others :
      ∑ other ∈ Finset.univ.erase thread, measure (Function.update locals thread loc other) =
        ∑ other ∈ Finset.univ.erase thread, measure (locals other) := by
    refine sum_congr rfl fun other member => ?_
    rw [Function.update_of_ne (ne_of_mem_erase member)]
  simp only [Function.update_self] at after
  unfold tally
  omega

end Tallies

end Winex.Interleaving
