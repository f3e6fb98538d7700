import EventRing.Proofs.Session
import EventRing.Proofs.Faults
/-!
# EventRing.Proofs.Storing

Handlers that store the progress of their processor themselves.  A handler may be given that progress,
to release events before everything that one wait allowed is done.  So the progress has two writers: the
processor between the calls of its handler, and the handler while it is called (`Session.Deed`).
-/

namespace EventRing

open Processor (Plan Request Phase Kind)

namespace Processor

variable {g : Geometry}

/-- A call of the handler. -/
def Request.isHook : Request → Bool
  | .start | .timeout _ | .batchStart .. | .event .. | .batch .. | .shutdown => true
  | _ => false

/-- The first and the last event that the handler is called with. -/
def Phase.inHand (g : Geometry) : Phase → Option (Int × Int)
  | .delivering next _ => some (next, next)
  | .handing next last => (lastOfRun g next last).toOption.map fun cut => (next, cut)
  | _ => none

theorem Phase.inHand_cases {phase : Phase} {first cut : Int}
    (hands : phase.inHand g = some (first, cut)) :
    (∃ last, phase = .delivering first last ∧ cut = first) ∨
      ∃ last, phase = .handing first last ∧ lastOfRun g first last = .ok cut := by
  cases phase with
  | delivering next last =>
      cases hands
      exact Or.inl ⟨last, rfl, rfl⟩
  | handing next last =>
      obtain ⟨found, run, same⟩ := Option.map_eq_some_iff.mp hands
      cases same
      cases ends : lastOfRun g first last with
      | ok cut =>
          rw [ends] at run
          cases run
          exact Or.inr ⟨last, rfl, ends⟩
      | error fault =>
          rw [ends] at run
          cases run
  | _ => cases hands

end Processor

/-- What a wait finds, if anything, has a property. -/
def Outside.Finds (ok : Int → Prop) (around : Outside) : Prop :=
  match around.outcome with
  | .available available => ok available
  | .timeout | .cancelled => True

instance (ok : Int → Prop) [DecidablePred ok] (around : Outside) : Decidable (around.Finds ok) := by
  unfold Outside.Finds
  cases around.outcome <;> infer_instance

namespace Session

variable {g : Geometry} {s t : Session g} {around : Outside} {v : Int}

/-- The handler stores the progress while it is called. -/
def store (s : Session g) (v : Int) : Option (Session g) :=
  match s.plan.turn s.phase with
  | .ask request _ => if request.isHook then some { s with position := v } else none
  | .ended _ | .broken _ => none

/-- What can happen to a processor whose handler has its progress. -/
inductive Deed where
  | act (act : Act)
  | store (v : Int)

/-- One deed; nothing if it cannot be done. -/
def perform (s : Session g) : Deed → Option (Session g)
  | .act act => s.step act
  | .store v => s.store v

theorem turned_of_turn (h : s.turn around = some t) :
    ∃ request resume, s.plan.turn s.phase = .ask request resume ∧
      t = s.answered around request resume := by
  unfold turn at h
  split at h <;> cases h
  exact ⟨_, _, by assumption, rfl⟩

theorem called_of_call (h : s.call = some t) :
    (∀ request resume, s.plan.turn s.phase ≠ .ask request resume) ∧
      t = { s with phase := .beginning } := by
  unfold call at h
  split at h <;> cases h
  all_goals
    rename_i ended
    refine ⟨fun _ _ asked => ?_, rfl⟩
    rw [ended] at asked
    cases asked

theorem stored_of_store (h : s.store v = some t) :
    t = { s with position := v } ∧
      ∃ request resume, s.plan.turn s.phase = .ask request resume ∧ request.isHook := by
  unfold store at h
  split at h
  · split at h <;> cases h
    exact ⟨rfl, _, _, by assumption, by assumption⟩
  · cases h
  · cases h

/-- A turn of a deed. -/
theorem perform_turn {request : Request} {resume : request.Answer → Phase} (around : Outside)
    (turn : s.plan.turn s.phase = .ask request resume) :
    s.perform (.act (.turn around)) = some (s.answered around request resume) := by
  show s.turn around = _
  rw [Session.turn, turn]

/-! ### What turns tell and move -/

variable {request : Request} {resume : request.Answer → Phase}

/-- A processor is told of its own progress, and of what its waits find. -/
theorem tells_answer {ok : Int → Prop} (position : ok s.position)
    (waits : ∀ next, request = .await next →
      ∀ available, around.outcome = .available available → next ≤ available → ok available) :
    request.Tells ok (s.answer around request) := by
  cases request with
  | position => exact position
  | await next => exact waits next rfl
  | _ => trivial

theorem tells_found {ok : Int → Prop} (position : ok s.position) (found : around.Finds ok) :
    request.Tells ok (s.answer around request) := by
  refine tells_answer position fun next _ available outcome _ => ?_
  rwa [Outside.Finds, outcome] at found

/-- Only where the processor stores its progress, a turn moves it. -/
theorem positionAfter_cases (request : Request) :
    (∃ stored, request = .release stored) ∨ ∀ p, request.positionAfter p = p := by
  cases request with
  | release stored => exact Or.inl ⟨stored, rfl⟩
  | _ => exact Or.inr fun _ => rfl

end Session

end EventRing
