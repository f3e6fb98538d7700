import EventRing.Word
/-!
# EventRing.Strand

Actions that may have to wait for others.  A `Strand` acts on a shared state until it is done, breaks
off, or pauses; a pause says what it waits for and carries the rest of the strand.  Between a pause
and its rest the state belongs to others, so the rest takes whatever state it finds.

A strand that never pauses is an `Action`.  Who goes on when is not decided here.
-/

namespace EventRing

/-! ## Runs of a strand -/

/-- What a paused strand waits for. -/
structure Pause (σ : Type) where
  /-- The strand may go on as soon as this holds. -/
  ready : σ → Bool
  /-- The strand may go on from this time on in any case. -/
  deadline : Option Nat := none

/-- What a strand has come to. -/
inductive Run (σ α : Type) where
  | done (answer : α) (state : σ)
  | broken (fault : Fault) (state : σ)
  | paused (pause : Pause σ) (state : σ) (resume : σ → Run σ α)

namespace Run

variable {σ α β : Type}

/-- Goes on with the answer of a run. -/
def bind (next : α → σ → Run σ β) : Run σ α → Run σ β
  | .done answer state => next answer state
  | .broken fault state => .broken fault state
  | .paused pause state resume => .paused pause state fun state => (resume state).bind next

/-- Goes on with the fault of a run. -/
def recover (handle : Fault → σ → Run σ α) : Run σ α → Run σ α
  | .done answer state => .done answer state
  | .broken fault state => handle fault state
  | .paused pause state resume => .paused pause state fun state => (resume state).recover handle

end Run

/-! ## Strands -/

/-- An action on a state of type `σ` that answers an `α`, breaks off, or pauses on the way. -/
def Strand (σ α : Type) : Type := σ → Run σ α

namespace Strand

variable {σ α β : Type}

instance : Monad (Strand σ) where
  pure answer := fun state => .done answer state
  bind act next := fun state => (act state).bind next

instance : MonadStateOf σ (Strand σ) where
  get := fun state => .done state state
  set state := fun _ => .done () state
  modifyGet change := fun state => .done (change state).1 (change state).2

instance : MonadExceptOf Fault (Strand σ) where
  throw fault := fun state => .broken fault state
  tryCatch act handle := fun state => (act state).recover handle

/-- An action is a strand that does not pause. -/
instance : MonadLift (EStateM Fault σ) (Strand σ) where
  monadLift act := fun state =>
    match act state with
    | .ok answer state => .done answer state
    | .error fault state => .broken fault state

/-- Waits. -/
def pause (pause : Pause σ) : Strand σ Unit := fun state => .paused pause state (.done ())

end Strand

end EventRing
