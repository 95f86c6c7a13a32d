import Mathlib.Logic.Function.Basic

namespace Winex.Linear

/-!
# Linearizability

A history of calls and returns is linearizable if each call can be given a point between
the two, so that the calls in the order of their points are a run of the sequential
object with the results the clients saw.  `Linearized` builds a history with its points.
Calls that have not returned may or may not have passed their point.
-/

variable {Thread Op Res State : Type}

/-- What clients see. -/
inductive Event (Thread Op Res : Type)
  | call (thread : Thread) (op : Op)
  | ret (thread : Thread) (res : Res)
  deriving DecidableEq

/-- Where a thread is with its operation. -/
inductive Status (Op Res : Type)
  | idle
  /-- Called, and not yet applied. -/
  | pending (op : Op)
  /-- Applied with this result, and not yet returned. -/
  | done (res : Res)
  deriving DecidableEq

/-- A sequential object. -/
structure Object (State Op Res : Type) where
  initial : State
  apply : State → Op → State × Res

/--
The history, latest event first, has points that bring the object to `state` and
leave each thread with the given status.
-/
inductive Linearized [DecidableEq Thread] (object : Object State Op Res) :
    List (Event Thread Op Res) → State → (Thread → Status Op Res) → Prop
  | start : Linearized object [] object.initial (fun _ => .idle)
  | call {history : List (Event Thread Op Res)} {state : State} {status : Thread → Status Op Res}
      {thread : Thread} (before : Linearized object history state status)
      (idle : status thread = .idle) (op : Op) :
      Linearized object (.call thread op :: history) state
      (Function.update status thread (.pending op))
  | point {history : List (Event Thread Op Res)} {state : State} {status : Thread → Status Op Res}
      {thread : Thread} {op : Op} (before : Linearized object history state status)
      (pending : status thread = .pending op) : Linearized object history (object.apply state op).1
      (Function.update status thread (.done (object.apply state op).2))
  | ret {history : List (Event Thread Op Res)} {state : State} {status : Thread → Status Op Res}
      {thread : Thread} {res : Res} (before : Linearized object history state status)
      (done : status thread = .done res) :
      Linearized object (.ret thread res :: history) state (Function.update status thread .idle)

/-- Points can be found for the history. -/
def Linearizable [DecidableEq Thread] (object : Object State Op Res)
    (history : List (Event Thread Op Res)) : Prop :=
  ∃ state status, Linearized object history state status

end Winex.Linear
