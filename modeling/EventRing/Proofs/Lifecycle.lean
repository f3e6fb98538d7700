import EventRing.Proofs.Storing
import EventRing.Proofs.Winding
/-!
# EventRing.Proofs.Lifecycle

One run of a processor from its beginning to its end, whatever its handler does, whatever the policy
decides and whoever halts it.  What a run has come to is read off its requests and answers (`Account`):
the calls of the handler in their order, and the first failure that stopped it.  Each phase comes after
an account of a certain form (`Phase.After`), and a turn leads from the one to the other; so a run that
is over called the start hook first, the shutdown hook last, and answers the first failure that stopped
it.

A run that does not come to its end breaks off: its arithmetic left the 64-bit range, or it found its
progress beyond what it was about to store.  Neither happens as long as the positions that it learns lie
below the end of that range and its handler stores none beyond what is in hand (`Modest`).
-/

namespace EventRing

open Processor (Plan Request Phase Kind)

namespace Processor

/-- A call of the handler between its start hook and its shutdown hook. -/
def Request.isInner : Request → Bool
  | .timeout _ | .batchStart .. | .event .. | .batch .. => true
  | _ => false

/-- A call of the handler with events. -/
def Request.isDelivery : Request → Bool
  | .event .. | .batch .. => true
  | _ => false

end Processor

/-! ## What a run has come to -/

/-- What the latest run has come to. -/
structure Account where
  /-- The calls of the handler, in their order. -/
  hooks : List Request := []
  /-- The first failure that the policy made stop the run. -/
  fatal : Option Failure := none
  /-- The policy made a failure of the start hook stop the run. -/
  spoilt : Bool := false

namespace Account

variable {a : Account} {request : Request} {answer : request.Answer} {failure : Failure}

/-- An account with one exchange more; another run begins another one. -/
def add : Exchange → Account → Account
  | ⟨.begin, _⟩, _ => {}
  | ⟨.judge .start _, some failure⟩, a =>
    { a with fatal := a.fatal.or (some failure), spoilt := true }
  | ⟨.judge _ _, some failure⟩, a => { a with fatal := a.fatal.or (some failure) }
  | ⟨request, _⟩, a => if request.isHook then { a with hooks := a.hooks ++ [request] } else a

/-- A run that called its start hook, and has not come to its shutdown hook. -/
def Open (a : Account) : Prop :=
  ∃ inner, a.hooks = .start :: inner ∧ (∀ r ∈ inner, r.isInner) ∧ (a.spoilt → inner = [])

/-- A run that called its shutdown hook. -/
def Shut (a : Account) : Prop :=
  ∃ inner, a.hooks = .start :: inner ++ [.shutdown] ∧ (∀ r ∈ inner, r.isInner) ∧
    (a.spoilt → inner = [])

/-- A run that nothing has stopped after its start hook. -/
structure Going (a : Account) : Prop where
  opened : a.Open
  fatal : a.fatal = none
  spoilt : a.spoilt = false

/-- A run that called its handler with events. -/
def Served (a : Account) : Prop := ∃ r ∈ a.hooks, r.isDelivery

/-- A run that called its handler between the start hook and the shutdown hook. -/
def Busy (a : Account) : Prop := ∃ r ∈ a.hooks, r.isInner

theorem Open.calm (opened : a.Open) (busy : a.Busy) : a.spoilt = false := by
  obtain ⟨inner, hooks, -, alone⟩ := opened
  refine Bool.eq_false_iff.mpr fun spoilt => ?_
  obtain ⟨r, inside, between⟩ := busy
  rw [hooks, alone spoilt] at inside
  cases List.mem_singleton.mp inside
  cases between

theorem Shut.calm (shut : a.Shut) (busy : a.Busy) : a.spoilt = false := by
  obtain ⟨inner, hooks, -, alone⟩ := shut
  refine Bool.eq_false_iff.mpr fun spoilt => ?_
  obtain ⟨r, inside, between⟩ := busy
  rw [hooks, alone spoilt] at inside
  rcases List.mem_cons.mp inside with rfl | last
  · cases between
  · cases List.mem_singleton.mp last
    cases between

theorem add_of_hook (hook : request.isHook) :
    add ⟨request, answer⟩ a = { a with hooks := a.hooks ++ [request] } := by
  cases request <;> first | rfl | cases hook

theorem Going.hook (going : a.Going) (inner : request.isInner) :
    (add ⟨request, answer⟩ a).Going := by
  have hook : request.isHook := by cases request <;> first | rfl | cases inner
  obtain ⟨⟨before, hooks, all, -⟩, fatal, calm⟩ := going
  rw [add_of_hook hook]
  refine ⟨⟨before ++ [request], ?_, ?_, fun spoilt => ?_⟩, fatal, calm⟩
  · rw [hooks]
    rfl
  · intro r inside
    rcases List.mem_append.mp inside with old | new
    · exact all r old
    · rw [List.mem_singleton.mp new]
      exact inner
  · rw [calm] at spoilt
    cases spoilt

theorem served_of_hook (delivers : request.isDelivery) : (add ⟨request, answer⟩ a).Served := by
  have hook : request.isHook := by cases request <;> first | rfl | cases delivers
  rw [add_of_hook hook]
  exact ⟨request, List.mem_append_right _ List.mem_cons_self, delivers⟩

theorem Open.shut {answer : Option Failure} (opened : a.Open) : (add ⟨.shutdown, answer⟩ a).Shut := by
  obtain ⟨inner, hooks, all, spoilt⟩ := opened
  refine ⟨inner, ?_, all, spoilt⟩
  show a.hooks ++ [.shutdown] = _
  rw [hooks]

/-- A hook is called at most once more with an exchange. -/
theorem mem_hooks_add {r : Request} {x : Exchange} (inside : r ∈ (add x a).hooks) :
    r ∈ a.hooks ∨ r = x.request := by
  unfold add at inside
  split at inside
  · cases inside
  · exact Or.inl inside
  · exact Or.inl inside
  · split at inside
    · exact (List.mem_append.mp inside).imp_right List.mem_singleton.mp
    · exact Or.inl inside

end Account

namespace Processor

variable {g : Geometry} {plan : Plan g} {phase : Phase} {request : Request}
variable {resume : request.Answer → Phase} {a : Account} {next last done available : Int}

/-- What a run has come to in each of its phases. -/
def Phase.After (a : Account) : Phase → Prop
  | .rearming | .starting _ => a = {}
  | .startFailed .. | .announcing _ none | .checking | .positioning => a = { hooks := [.start] }
  | .announcing _ (some failure) => a = { hooks := [.start], fatal := some failure, spoilt := true }
  | .eventFailed .. | .batchFailed .. | .skipping _ | .verifying .. | .releasing .. =>
    a.Going ∧ a.Served
  | .warning _ failure | .stopping _ failure => a.Open ∧ a.fatal = some failure ∧ a.Served
  | .shuttingDown fatal => a.Open ∧ a.fatal = fatal
  | .shutdownFailed fatal _ | .finishing fatal => a.Shut ∧ a.fatal = fatal
  | .complete error => a.Shut ∧ error = a.fatal.map .handler
  | .beginning => True
  | _ => a.Going

theorem Phase.after_admitted (limit : 1 ≤ plan.limit) (going : a.Going) :
    (Phase.admitted plan next available).After a := by
  apply Phase.admitted_cases (P := Phase.After a) limit
  · exact going
  · exact fun _ => going
  · exact fun _ _ _ _ => going
  · exact fun _ _ _ _ => going

theorem Phase.after_advanced (going : a.Going) (served : a.Served) :
    (Phase.advanced plan done last).After a := by
  apply Phase.advanced_cases (P := Phase.After a)
  · exact going
  · exact fun _ _ => going
  · exact fun _ _ => going
  · exact fun _ => ⟨going, served⟩
  · exact fun _ => ⟨going, served⟩

/-- A start hook that was called alone. -/
theorem going_of_start : ({ hooks := [.start] } : Account).Going :=
  ⟨⟨[], rfl, nofun, fun _ => rfl⟩, rfl, rfl⟩

theorem Phase.after_of_turn (limit : 1 ≤ plan.limit) (started : phase ≠ .beginning)
    (after : phase.After a) (turn : plan.turn phase = .ask request resume) (answer : request.Answer) :
    (resume answer).After (Account.add ⟨request, answer⟩ a) := by
  cases phase with
  | beginning => exact absurd rfl started
  | rearming =>
      cases turn
      exact after
  | starting mode =>
      cases turn
      subst after
      cases answer <;> rfl
  | startFailed mode failure =>
      cases turn
      subst after
      cases answer <;> rfl
  | announcing mode fatal =>
      cases turn
      cases fatal with
      | none =>
          subst after
          cases mode
          · rfl
          · exact ⟨going_of_start.opened, rfl⟩
      | some failure =>
          subst after
          cases mode <;> exact ⟨⟨[], rfl, nofun, fun _ => rfl⟩, rfl⟩
  | checking =>
      cases turn
      subst after
      cases answer with
      | true => rfl
      | false => exact ⟨going_of_start.opened, rfl⟩
  | positioning =>
      cases turn
      subst after
      exact orFault_checked going_of_start going_of_start
  | awaiting next =>
      cases turn
      cases answer with
      | available available => exact after_admitted limit after
      | timeout | cancelled => exact after
  | timing next =>
      cases turn
      cases plan.kind <;> exact after
  | noting =>
      cases turn
      exact after
  | timedOut next last =>
      cases turn
      have going : (Account.add ⟨.timeout last, answer⟩ a).Going := after.hook rfl
      cases answer <;> exact going
  | timeoutFailed next last failure =>
      cases turn
      have going : a.Going := after
      cases answer with
      | none => exact going
      | some fatal => exact ⟨going.opened, by simp [Account.add, going.fatal]⟩
  | interrupted next =>
      cases turn
      have going : a.Going := after
      cases answer with
      | true => exact going
      | false => exact ⟨going.opened, going.fatal⟩
  | opening next last available =>
      simp only [Plan.turn] at turn
      split at turn <;> cases turn
      exact Account.Going.hook after rfl
  | delivering next last =>
      cases turn
      have going : (Account.add ⟨.event next (next = last), answer⟩ a).Going := after.hook rfl
      have served : (Account.add ⟨.event next (next = last), answer⟩ a).Served :=
        Account.served_of_hook rfl
      cases answer with
      | none => exact after_advanced going served
      | some failure => exact ⟨going, served⟩
  | eventFailed next last failure =>
      cases turn
      obtain ⟨going, served⟩ := after
      cases answer with
      | none => exact ⟨going, served⟩
      | some fatal =>
          have stopped : (Account.add ⟨.judge (.event next) failure, some fatal⟩ a).fatal =
              some fatal := by
            simp [Account.add, going.fatal]
          cases plan.kind <;> exact ⟨going.opened, stopped, served⟩
  | skipping next =>
      cases turn
      exact orFault_checked after.1 after.1
  | warning =>
      cases turn
      exact after
  | stopping next failure =>
      simp only [Plan.turn] at turn
      split at turn <;> cases turn
      exact ⟨after.1, after.2.1⟩
  | handing next last =>
      simp only [Plan.turn] at turn
      split at turn <;> cases turn
      rename_i cut _
      have going : (Account.add ⟨.batch next cut, answer⟩ a).Going := Account.Going.hook after rfl
      have served : (Account.add ⟨.batch next cut, answer⟩ a).Served := Account.served_of_hook rfl
      cases answer with
      | none => exact after_advanced going served
      | some failure => exact ⟨going, served⟩
  | batchFailed first cut last failure =>
      cases turn
      obtain ⟨going, served⟩ := after
      cases answer with
      | none => exact after_advanced going served
      | some fatal => exact ⟨going.opened, by simp [Account.add, going.fatal], served⟩
  | verifying next last =>
      cases turn
      show Phase.After _ (if last < answer then .faulted (.backwards answer last)
        else .releasing next last)
      split
      · exact after.1
      · exact after
  | releasing next last =>
      cases turn
      exact after.1
  | shuttingDown fatal =>
      cases turn
      obtain ⟨opened, same⟩ := after
      cases answer <;> exact ⟨opened.shut, same⟩
  | shutdownFailed fatal failure =>
      cases turn
      obtain ⟨shut, rfl⟩ := after
      cases answer with
      | none => exact ⟨shut, (Option.or_none).symm⟩
      | some late => exact ⟨shut, rfl⟩
  | finishing fatal =>
      cases turn
      obtain ⟨shut, rfl⟩ := after
      exact ⟨shut, rfl⟩
  | complete | faulted => cases turn

/-- A run whose start hook stopped it calls its handler for nothing but to shut down. -/
theorem Phase.After.calm (after : phase.After a) (started : phase ≠ .beginning) (busy : a.Busy) :
    a.spoilt = false := by
  cases phase with
  | beginning => exact absurd rfl started
  | rearming | starting | startFailed | checking | positioning =>
      cases after
      rfl
  | announcing mode fatal =>
      cases fatal with
      | none =>
          cases after
          rfl
      | some failure =>
          cases after
          obtain ⟨r, inside, inner⟩ := busy
          cases List.mem_singleton.mp inside
          cases inner
  | warning | stopping | shuttingDown => exact after.1.calm busy
  | shutdownFailed | finishing | complete => exact after.1.calm busy
  | eventFailed | batchFailed | skipping | verifying | releasing => exact after.1.spoilt
  | _ => exact after.spoilt

/-- Progress is stored only after the handler was called with events. -/
theorem Phase.After.served {stored : Int} {resume : Unit → Phase} (after : phase.After a)
    (turn : plan.turn phase = .ask (.release stored) resume) : a.Served := by
  rcases release_cases turn with rfl | ⟨failure, rfl⟩ | ⟨next, rfl⟩
  · exact after.2
  · exact after.2.2
  · exact after.2

/-! ## Phases at the edges of a run -/

theorem Phase.outer_of_turn (edge : phase.Early ∨ phase.Late)
    (turn : plan.turn phase = .ask request resume) : request.isInner = false := by
  cases phase with
  | rearming | starting | startFailed | announcing | checking | shuttingDown | shutdownFailed
  | finishing =>
      cases turn
      rfl
  | _ => rcases edge with early | late <;> contradiction

theorem Phase.underWay_of_early (early : phase.Early) : phase.UnderWay := by
  cases phase <;> trivial

/-- A run on its way out gets out. -/
theorem Phase.late_of_turn (late : phase.Late) (turn : plan.turn phase = .ask request resume)
    (answer : request.Answer) :
    (resume answer).Late ∨ ∃ error, resume answer = .complete error := by
  cases phase with
  | shuttingDown fatal =>
      cases turn
      cases answer <;> exact Or.inl trivial
  | shutdownFailed =>
      cases turn
      exact Or.inl trivial
  | finishing fatal =>
      cases turn
      exact Or.inr ⟨_, rfl⟩
  | _ => cases late

/-! ## Progress that is not beyond what is in hand -/

/-- A progress that is not beyond what the processor is about to store. -/
def Phase.Clears (position : Int) : Phase → Prop
  | .awaiting next | .timing next | .interrupted next | .noting next _ | .timedOut next _
  | .timeoutFailed next _ _ => position < next
  | .opening _ last _ | .delivering _ last | .handing _ last | .batchFailed _ _ last _
  | .verifying _ last => position ≤ last
  | _ => True

instance (position : Int) : (phase : Phase) → Decidable (phase.Clears position)
  | .awaiting _ | .timing _ | .interrupted _ | .noting _ _ | .timedOut _ _ | .timeoutFailed _ _ _ =>
    inferInstanceAs (Decidable (_ < _))
  | .opening _ _ _ | .delivering _ _ | .handing _ _ | .batchFailed _ _ _ _ | .verifying _ _ =>
    inferInstanceAs (Decidable (_ ≤ _))
  | .beginning | .rearming | .starting _ | .startFailed _ _ | .announcing _ _ | .checking | .positioning
  | .eventFailed _ _ _ | .skipping _ | .warning _ _ | .stopping _ _ | .releasing _ _ | .shuttingDown _
  | .shutdownFailed _ _ | .finishing _ | .complete _ | .faulted _ => isTrue trivial

variable {position : Int}

theorem Phase.clears_advanced (inside : position ≤ last) :
    (Phase.advanced plan done last).Clears position := by
  apply Phase.advanced_cases (P := Phase.Clears position)
  · trivial
  · exact fun _ _ => inside
  · exact fun _ _ => inside
  · exact fun _ => trivial
  · exact fun _ => inside

theorem Phase.clears_of_turn {ok : Int → Prop} (limit : 1 ≤ plan.limit) (within : phase.Within ok)
    (clears : phase.Clears position) (turn : plan.turn phase = .ask request resume)
    (answer : request.Answer) (sincere : request.Sincere position answer) :
    (resume answer).Clears (request.positionAfter position) := by
  cases phase with
  | beginning =>
      cases turn
      rcases answer with _ | _ | _ <;> trivial
  | starting | checking | shuttingDown =>
      cases turn
      cases answer <;> trivial
  | announcing mode fatal =>
      cases turn
      cases mode <;> cases fatal <;> trivial
  | positioning =>
      cases turn
      obtain rfl : position = answer := Eq.symm sincere
      exact orFault_checked trivial (Int.lt_add_one_of_le (Int.le_refl position))
  | awaiting next =>
      cases turn
      have behind : position < next := clears
      cases answer with
      | available available =>
          apply admitted_cases (P := Phase.Clears position) limit
          · trivial
          · exact fun _ => behind
          · exact fun last _ above _ => Int.le_of_lt (Int.lt_of_lt_of_le behind above)
          · exact fun last _ above _ => Int.le_of_lt (Int.lt_of_lt_of_le behind above)
      | timeout | cancelled => exact behind
  | timing next =>
      cases turn
      cases plan.kind <;> exact clears
  | noting =>
      cases turn
      exact clears
  | timedOut =>
      cases turn
      cases answer <;> exact clears
  | timeoutFailed | interrupted =>
      cases turn
      cases answer <;> first | exact clears | trivial
  | opening next last available =>
      simp only [Plan.turn] at turn
      split at turn <;> cases turn
      exact clears
  | delivering next last =>
      cases turn
      cases answer with
      | none => exact clears_advanced clears
      | some failure => trivial
  | eventFailed next last failure =>
      cases turn
      cases answer with
      | none => trivial
      | some fatal => cases plan.kind <;> trivial
  | skipping next =>
      cases turn
      exact orFault_checked trivial (Int.lt_add_one_of_le (Int.le_refl next))
  | stopping =>
      simp only [Plan.turn] at turn
      split at turn <;> cases turn
      trivial
  | handing next last =>
      simp only [Plan.turn] at turn
      split at turn <;> cases turn
      cases answer with
      | none => exact clears_advanced clears
      | some failure => exact clears
  | batchFailed first cut last failure =>
      cases turn
      cases answer with
      | none => exact clears_advanced clears
      | some fatal => trivial
  | verifying next last =>
      cases turn
      show Phase.Clears _ (if last < answer then .faulted (.backwards answer last)
        else .releasing next last)
      split <;> trivial
  | releasing next last =>
      cases turn
      obtain ⟨rfl, -⟩ := within
      exact Int.lt_add_one_of_le (Int.le_refl last)
  | rearming | startFailed | warning | shutdownFailed | finishing =>
      cases turn
      trivial
  | complete | faulted => cases turn

end Processor

/-! ## Runs -/

namespace Session

variable {g : Geometry} {s b e t u : Session g} {around : Outside} {request : Request}
variable {resume : request.Answer → Phase}

/-- What the latest run of a session has come to. -/
def account (s : Session g) : Account := s.trace.foldr Account.add {}

/-- Anything but another run. -/
def InRun (_ : Session g) : Deed → Prop
  | .act .call => False
  | _ => True

instance (deed : Deed) : Decidable (s.InRun deed) := by
  unfold InRun
  split <;> infer_instance

/-- What holds throughout a run. -/
structure Accounted (s : Session g) : Prop where
  formed : s.Formed
  started : s.phase ≠ .beginning
  after : s.phase.After s.account
  noted : ∀ next last, s.phase = .noting next last → s.position = last
  broke : ∀ fault, s.phase = .faulted fault →
    fault = .overflow ∨ ∃ was now, fault = .backwards was now

/-- A processor that reads its progress is told it. -/
theorem position_of_timing {next last : Int} (timing : s.phase = .timing next)
    (turn : s.plan.turn s.phase = .ask request resume)
    (told : ∀ ok, request.Tells ok (s.answer around request) → ok last) :
    (s.answered around request resume).position = last := by
  rw [timing] at turn
  cases turn
  exact told (s.position = ·) rfl

theorem Accounted.answered (accounted : s.Accounted)
    (turn : s.plan.turn s.phase = .ask request resume) :
    (s.answered around request resume).Accounted := by
  obtain ⟨formed, started, after, noted, broke⟩ := accounted
  have origin := Phase.origin_of_turn formed.limit turn (s.answer around request)
  refine ⟨formed_of_change formed (Change.turned turn around), ?_,
    Phase.after_of_turn formed.limit started after turn _, ?_, ?_⟩
  · intro again
    rw [show resume (s.answer around request) = _ from again] at origin
    exact origin
  · intro next last noting
    rw [show resume (s.answer around request) = _ from noting] at origin
    exact position_of_timing origin.1 turn origin.2
  · intro fault faulted
    rw [show resume (s.answer around request) = _ from faulted] at origin
    exact origin.imp And.left fun ⟨_, last, position, _, same, _⟩ => ⟨position, last, same⟩

theorem Accounted.performed {deed : Deed} (accounted : s.Accounted) (inRun : s.InRun deed)
    (made : s.perform deed = some t) : t.Accounted := by
  cases deed with
  | store v =>
      obtain ⟨rfl, request, resume, turn, hook⟩ := stored_of_store made
      obtain ⟨formed, started, after, noted, broke⟩ := accounted
      refine ⟨⟨formed.limit, formed.upright, formed.busy⟩, started, after, ?_, broke⟩
      intro next last noting
      -- no handler is called while the processor writes a record
      rw [show s.phase = _ from noting] at turn
      cases turn
      cases hook
  | act act =>
      cases act with
      | call => cases inRun
      | turn around =>
          obtain ⟨request, resume, turn, rfl⟩ := turned_of_turn made
          exact accounted.answered turn
      | halt =>
          cases made
          exact ⟨formed_of_change accounted.formed Change.halted, accounted.started,
            accounted.after, accounted.noted, accounted.broke⟩

/-- A run that was halted before the check that follows the start hook: it is at its edges, and called
its handler for nothing else. -/
structure Foiled (s : Session g) : Prop where
  place : s.phase.Early ∧ s.control.state = .halted ∨ s.phase.Late ∨ ∃ error, s.phase = .complete error
  idle : ¬ s.account.Busy

theorem Foiled.answered (foiled : s.Foiled) (accounted : s.Accounted)
    (turn : s.plan.turn s.phase = .ask request resume) :
    (s.answered around request resume).Foiled := by
  have edge : s.phase.Early ∨ s.phase.Late := by
    rcases foiled.place with ⟨early, -⟩ | late | ⟨error, ended⟩
    · exact Or.inl early
    · exact Or.inr late
    · rw [ended] at turn
      cases turn
  refine ⟨?_, ?_⟩
  · rcases foiled.place with ⟨early, halted⟩ | late | ⟨error, ended⟩
    · have heeds : request.Heeds (s.answer around request) := by
        refine heeds_answer halted ?_
        rintro next rfl
        rw [Phase.await_cases turn] at early
        cases early
      have winds := Phase.winds_of_turn accounted.started accounted.formed.upright turn heeds
      rcases winds.early early with still | late
      · have same : (s.answered around request resume).control.state = s.control.state :=
          state_answered turn accounted.started (Phase.underWay_of_early still)
        exact Or.inl ⟨still, same.trans halted⟩
      · exact Or.inr (Or.inl late)
    · exact Or.inr (Phase.late_of_turn late turn _)
    · rw [ended] at turn
      cases turn
  · rintro ⟨r, inside, inner⟩
    rcases Account.mem_hooks_add inside with old | rfl
    · exact foiled.idle ⟨r, old, inner⟩
    · rw [Phase.outer_of_turn edge turn] at inner
      cases inner

theorem Foiled.performed {deed : Deed} (foiled : s.Foiled) (accounted : s.Accounted)
    (inRun : s.InRun deed) (made : s.perform deed = some t) : t.Foiled := by
  cases deed with
  | store v =>
      obtain ⟨rfl, -⟩ := stored_of_store made
      exact ⟨foiled.place, foiled.idle⟩
  | act act =>
      cases act with
      | call => cases inRun
      | turn around =>
          obtain ⟨request, resume, turn, rfl⟩ := turned_of_turn made
          exact foiled.answered accounted turn
      | halt =>
          cases made
          exact ⟨foiled.place.imp_left fun early => ⟨early.1, rfl⟩, foiled.idle⟩

/-- No wait finds the end of the 64-bit range, and the handler stores no progress beyond what is in
hand. -/
def Modest (s : Session g) : Deed → Prop
  | .act .call => False
  | .act (.turn around) => around.Finds (· < Word.greatest)
  | .act .halt => True
  | .store v => Positions v ∧ s.phase.Clears v

instance : (deed : Deed) → Decidable (s.Modest deed)
  | .act .call => inferInstanceAs (Decidable False)
  | .act (.turn around) => inferInstanceAs (Decidable (around.Finds _))
  | .act .halt => inferInstanceAs (Decidable True)
  | .store _ => inferInstanceAs (Decidable (_ ∧ _))

/-- What holds in every run that does not break off. -/
structure Moderate (s : Session g) : Prop where
  limit : 1 ≤ s.plan.limit
  tame : s.phase.Tame
  position : Positions s.position
  clears : s.phase.Clears s.position
  sound : ∀ fault, s.phase ≠ .faulted fault

theorem Moderate.told (moderate : s.Moderate) (turn : s.plan.turn s.phase = .ask request resume)
    (found : around.Finds (· < Word.greatest)) :
    request.Tells Positions (s.answer around request) := by
  refine tells_answer moderate.position ?_
  rintro next rfl available outcome enough
  have within := moderate.tame.within
  rw [Phase.await_cases turn] at within
  have low : -1 ≤ next - 1 := within.1
  rw [Outside.Finds, outcome] at found
  exact ⟨by omega, found⟩

theorem Moderate.answered (moderate : s.Moderate)
    (turn : s.plan.turn s.phase = .ask request resume) (found : around.Finds (· < Word.greatest)) :
    (s.answered around request resume).Moderate := by
  have told := moderate.told turn found
  obtain ⟨limit, tame, position, clears, -⟩ := moderate
  have sincere : request.Sincere s.position (s.answer around request) := by
    cases request with
    | position => rfl
    | await next =>
        intro available outcome
        rwa [Outside.Finds, show around.outcome = _ from outcome] at found
    | _ => trivial
  refine ⟨limit, tame.of_turn limit turn _ told, ?_,
    Phase.clears_of_turn limit tame.within clears turn _ sincere, ?_⟩
  · rcases positionAfter_cases request with ⟨stored, rfl⟩ | same
    · exact Phase.ok_of_release tame.within turn
    · show Positions (request.positionAfter s.position)
      rw [same]
      exact position
  · intro fault broken
    have origin := Phase.origin_of_turn limit turn (s.answer around request)
    rw [show resume (s.answer around request) = _ from broken] at origin
    obtain ⟨rfl, -⟩ | ⟨next, last, was, verifying, -, beyond⟩ := origin
    · exact tame.sound_of_turn limit turn _ told broken
    · rw [verifying] at turn clears
      cases turn
      exact beyond clears

theorem Moderate.performed {deed : Deed} (moderate : s.Moderate) (modest : s.Modest deed)
    (made : s.perform deed = some t) : t.Moderate := by
  cases deed with
  | store v =>
      obtain ⟨rfl, -⟩ := stored_of_store made
      exact ⟨moderate.limit, moderate.tame, modest.1, modest.2, moderate.sound⟩
  | act act =>
      cases act with
      | call => cases modest
      | turn around =>
          obtain ⟨request, resume, turn, rfl⟩ := turned_of_turn made
          exact moderate.answered turn modest
      | halt =>
          cases made
          exact ⟨moderate.limit, moderate.tame, moderate.position, moderate.clears, moderate.sound⟩

theorem Moderate.goes (moderate : s.Moderate) :
    (∃ request resume, s.plan.turn s.phase = .ask request resume) ∨
      ∃ error, s.phase = .complete error := by
  refine Classical.byContradiction fun stuck => ?_
  rw [not_or] at stuck
  have idle : ∀ request resume, s.plan.turn s.phase ≠ .ask request resume :=
    fun request resume asked => stuck.1 ⟨request, resume, asked⟩
  rcases Phase.idle_cases moderate.tame.fitting idle with ended | ⟨fault, broken⟩
  · exact stuck.2 ended
  · exact moderate.sound fault broken

/-! ### From the beginning to the end -/

theorem Accounted.rests (accounted : s.Accounted) (made : s.turn around = some t) :
    t.position = s.position ∨
      s.account.Served ∧ ∃ stored resume, s.plan.turn s.phase = .ask (.release stored) resume := by
  obtain ⟨request, resume, turn, rfl⟩ := turned_of_turn made
  rcases positionAfter_cases request with ⟨stored, rfl⟩ | same
  · exact Or.inr ⟨accounted.after.served turn, stored, resume, turn⟩
  · exact Or.inl (same s.position)

theorem Accounted.goes (accounted : s.Accounted) :
    (∃ request resume, s.plan.turn s.phase = .ask request resume) ∨
      (∃ error, s.phase = .complete error) ∨
      ∃ fault, s.plan.turn s.phase = .broken fault ∧
        (fault = .overflow ∨ ∃ was now, fault = .backwards was now) := by
  cases turn : s.plan.turn s.phase with
  | ask request resume => exact Or.inl ⟨request, resume, rfl⟩
  | ended error => exact Or.inr (Or.inl ⟨error, Phase.ended_cases turn⟩)
  | broken fault =>
      refine Or.inr (Or.inr ⟨fault, rfl, ?_⟩)
      rcases Phase.fault_of_broken accounted.formed.upright turn with faulted | overflow
      · exact accounted.broke fault faulted
      · exact Or.inl overflow

theorem one_le_bits : 1 ≤ 62 := by decide

/-- A processor that is called to run. -/
def ready : Session ⟨1, one_le_bits⟩ :=
  { fresh ⟨1, one_le_bits⟩ .event none (-1) with phase := .beginning }

end Session

end EventRing
