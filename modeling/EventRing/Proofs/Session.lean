import EventRing.Proofs.Phases
import EventRing.Proofs.Runs
/-!
# EventRing.Proofs.Session

A processor called to run again and again.  Its control and its progress are its own; handlers,
policies and barriers are outside and answer at will (`Outside`), and anybody may halt it between any
two turns.  A `Session` keeps every request with its answer, so that statements can speak of what
happened; the processor never reads that trace.

The trace is read by `log`: how many runs began, and with which events the handler was called.  One call
hands over one event, or a run of events, and it is `fatal` if it failed and the policy made its error
stop the run.
-/

namespace EventRing

open Processor (Plan Request Phase Kind)

/-- A request and its answer. -/
structure Exchange where
  request : Request
  answer : request.Answer

/-- What handlers, policies and the barrier answer when they are asked next. -/
structure Outside where
  failure : Option Failure := none
  outcome : Wait.Outcome := .cancelled

/-! ## Requests that change something -/

namespace Processor.Request

/-- The control after a request. -/
def controlAfter (c : Control) : Request → Control
  | .begin =>
    match c.begin with
    | .ok (_, begun) => begun
    | .error _ => c
  | .announce => c.announce
  | .finish => c.finish
  | _ => c

/-- The progress after a request. -/
def positionAfter (position : Int) : Request → Int
  | .release sequence => sequence
  | _ => position

end Processor.Request

/-! ## Sessions -/

/-- A processor between and during its runs. -/
structure Session (g : Geometry) where
  plan : Plan g
  control : Control := {}
  phase : Phase := .complete none
  /-- Its progress. -/
  position : Int
  /-- What was asked and answered so far, the latest first. -/
  trace : List Exchange := []

namespace Session

variable {g : Geometry}

/-- A processor that never ran, with the progress `p`. -/
def fresh (g : Geometry) (kind : Kind) (most : Option Nat) (p : Int) : Session g where
  plan := ⟨kind, Processor.limitOf most⟩
  position := p

/-- The answer to a request. -/
def answer (s : Session g) (around : Outside) : (request : Request) → request.Answer
  | .begin => s.control.begin.map Prod.fst
  | .isActive => s.control.isActive
  | .position => s.position
  | .await _ => around.outcome
  | .start | .timeout _ | .event .. | .batch .. | .shutdown | .judge .. => around.failure
  | .rearm | .announce | .batchStart .. | .note _ | .release _ | .finish => ()

/-- The session after a request was answered. -/
def answered (s : Session g) (around : Outside) (request : Request)
    (resume : request.Answer → Phase) : Session g :=
  { s with
    control := request.controlAfter s.control
    position := request.positionAfter s.position
    phase := resume (s.answer around request)
    trace := ⟨request, s.answer around request⟩ :: s.trace }

/-- Takes a turn. -/
def turn (s : Session g) (around : Outside) : Option (Session g) :=
  match s.plan.turn s.phase with
  | .ask request resume => some (s.answered around request resume)
  | .ended _ | .broken _ => none

/-- Calls for another run, when none is under way. -/
def call (s : Session g) : Option (Session g) :=
  match s.plan.turn s.phase with
  | .ask .. => none
  | .ended _ | .broken _ => some { s with phase := .beginning }

/-- The first half of a halt. -/
def halt (s : Session g) : Session g := { s with control := s.control.halt }

/-- What can happen to a processor. -/
inductive Act where
  | call
  | turn (around : Outside)
  | halt

/-- One act; nothing if it cannot be done. -/
def step (s : Session g) : Act → Option (Session g)
  | .call => s.call
  | .turn around => s.turn around
  | .halt => some s.halt

/-- The sessions that some acts lead to, whatever they are. -/
abbrev Leads (s t : Session g) : Prop := Reaches step (fun _ _ => True) s t

end Session

/-! ## Reading the trace -/

/-- A call of a handler with the events from `first` to `last`. -/
structure Call where
  first : Int
  last : Int
  /-- The number of the run in which it was made. -/
  run : Nat
  /-- It failed, and its error stops the run. -/
  fatal : Bool := false
  deriving DecidableEq, Repr

/-- What a trace tells of runs and of calls with events. -/
structure Log where
  /-- How many runs were begun, those that were refused included. -/
  runs : Nat := 0
  /-- The calls with events, the latest first. -/
  calls : List Call := []
  deriving DecidableEq, Repr

namespace Log

/-- The latest call turned out fatal. -/
def condemn (l : Log) : Log :=
  match l.calls with
  | [] => l
  | c :: older => { l with calls := { c with fatal := true } :: older }

/-- A log with one exchange more. -/
def add : Exchange → Log → Log
  | ⟨.begin, _⟩, l => { l with runs := l.runs + 1 }
  | ⟨.event sequence _, _⟩, l => { l with calls := ⟨sequence, sequence, l.runs, false⟩ :: l.calls }
  | ⟨.batch first last, _⟩, l => { l with calls := ⟨first, last, l.runs, false⟩ :: l.calls }
  | ⟨.judge (.event _) _, some _⟩, l | ⟨.judge (.batch ..) _, some _⟩, l => l.condemn
  | _, l => l

end Log

/-- What a session has done so far. -/
def Session.log {g : Geometry} (s : Session g) : Log := s.trace.foldr Log.add {}

/-! ## What an act does -/

namespace Session

variable {g : Geometry} {s t : Session g} {around : Outside}

/-- What can come of an act. -/
inductive Change (s : Session g) : Session g → Prop where
  | called (idle : ∀ request resume, s.plan.turn s.phase ≠ .ask request resume) :
      Change s { s with phase := .beginning }
  | turned {request : Request} {resume : request.Answer → Phase}
      (turn : s.plan.turn s.phase = .ask request resume) (around : Outside) :
      Change s (s.answered around request resume)
  | halted : Change s s.halt

theorem change_of_turn (h : s.turn around = some t) : Change s t := by
  unfold turn at h
  split at h
  · rename_i asked
    cases h
    exact Change.turned asked around
  · cases h
  · cases h

theorem change_of_step {act : Act} (h : s.step act = some t) : Change s t := by
  cases act with
  | call =>
      simp only [step, call] at h
      split at h <;> cases h
      all_goals
        rename_i ended
        exact Change.called fun _ _ asked => by rw [ended] at asked; cases asked
  | turn around => exact change_of_turn h
  | halt =>
      cases h
      exact Change.halted

/-- A trace only gets longer. -/
theorem trace_of_change (h : Change s t) : t.trace = s.trace ∨ ∃ x, t.trace = x :: s.trace := by
  cases h with
  | called => exact Or.inl rfl
  | turned => exact Or.inr ⟨_, rfl⟩
  | halted => exact Or.inl rfl

/-- A processor goes by the same plan in all its runs. -/
theorem plan_of_change (h : Change s t) : t.plan = s.plan := by
  cases h <;> rfl

end Session

end EventRing
