import Mathlib.Data.Nat.Init
import Mathlib.Tactic.Basic

namespace Winex.Looping

/-!
# Loops

A loop is given by the function for one round: it goes on with a new state or ends with
a result.  `Meets` are the states at the beginning of a round, and `run` executes a
bounded number of rounds.
-/

variable {σ ρ : Type}

/-- So many rounds of a loop, `none` if it has not ended by then. -/
def run (step : σ → σ ⊕ ρ) : Nat → σ → Option ρ
  | 0, _ => none
  | fuel + 1, state =>
    match step state with
    | .inl next => run step fuel next
    | .inr result => some result

/-- The states at the beginning of the rounds of a loop. -/
inductive Meets (step : σ → σ ⊕ ρ) (start : σ) : σ → Prop where
  | start : Meets step start start
  | next {state state' : σ} : Meets step start state → step state = .inl state' →
      Meets step start state'

variable {step : σ → σ ⊕ ρ} {start state : σ}

theorem Meets.invariant (meets : Meets step start state) (Holds : σ → Prop) (first : Holds start)
    (keeps : ∀ state state', Meets step start state → Holds state → step state = .inl state' →
      Holds state') : Holds state := by
  induction meets with
  | start => exact first
  | next meets went ih => exact keeps _ _ meets ih went

theorem Meets.trans {middle : σ} (before : Meets step start middle)
    (after : Meets step middle state) : Meets step start state := by
  induction after with
  | start => exact before
  | next _ went ih => exact .next ih went

variable {result : ρ}

theorem Meets.of_run {fuel : Nat} (ended : run step fuel start = some result) :
    ∃ state, Meets step start state ∧ step state = .inr result := by
  induction fuel generalizing start with
  | zero => cases ended
  | succ _ ih =>
    rw [run] at ended
    split at ended
    next next went =>
      obtain ⟨state, meets, stops⟩ := ih ended
      exact ⟨state, (Meets.next .start went).trans meets, stops⟩
    next stops =>
      cases ended
      exact ⟨start, .start, stops⟩

theorem Meets.run_add (meets : Meets step start state) :
    ∃ rounds, ∀ fuel, run step (rounds + fuel) start = run step fuel state := by
  induction meets with
  | start => exact ⟨0, fun fuel => by rw [Nat.zero_add]⟩
  | @next state state' before went ih =>
    obtain ⟨rounds, skipped⟩ := ih
    refine ⟨rounds + 1, fun fuel => ?_⟩
    rw [Nat.add_assoc, Nat.add_comm 1 fuel, skipped, run, went]

theorem Meets.run_eq (meets : Meets step start state) (stops : step state = .inr result) :
    ∃ rounds, ∀ fuel, rounds < fuel → run step fuel start = some result := by
  obtain ⟨rounds, skipped⟩ := meets.run_add
  refine ⟨rounds, fun fuel enough => ?_⟩
  obtain ⟨_, rfl⟩ := Nat.exists_eq_add_of_lt enough
  rw [Nat.add_assoc, skipped, run, stops]

theorem ends (step : σ → σ ⊕ ρ) (Holds : σ → Prop) (first : Holds start) (measure : σ → Nat)
    (keeps : ∀ state state', Holds state → step state = .inl state' →
      Holds state' ∧ measure state' < measure state) :
    ∃ state result, Holds state ∧ step state = .inr result ∧
      ∀ fuel, measure start < fuel → run step fuel start = some result := by
  induction size : measure start using Nat.strong_induction_on generalizing start with
  | _ _ ih =>
    rcases went : step start with next | result
    · obtain ⟨second, less⟩ := keeps start next first went
      obtain ⟨state, result, holds, stops, runs⟩ := ih (measure next) (by omega) second rfl
      refine ⟨state, result, holds, stops, ?_⟩
      intro fuel _
      cases fuel with
      | zero => omega
      | succ fuel =>
        simp only [run, went]
        exact runs fuel (by omega)
    · refine ⟨start, result, first, went, ?_⟩
      intro fuel _
      cases fuel with
      | zero => omega
      | succ => simp only [run, went]

end Winex.Looping
