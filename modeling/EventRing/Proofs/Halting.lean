import EventRing.Proofs.Pipeline
import EventRing.Proofs.Winding
/-!
# EventRing.Proofs.Halting

Halts of a processor at its barrier.  A halt has two halves, and anything may happen between them: it
moves the control to halted, and then it cancels the barrier.  A run on its part clears the cancellation
when it begins, so the two can pass each other in many ways.  No halt is lost all the same:

* In a run that somebody halted, once the barrier was cancelled as well, every wait that begins is
  cancelled at once, a wait that is on its way takes three looks at most, and the run winds down
  (`Session.Winds`).
* A halt that finds no run makes the next run pass through its start and shutdown hooks.

The reason in the first case: the cancellation is cleared before the check that follows the start hook,
so a halted run either still has that check ahead, which it will not pass, or finds the barrier
cancelled, or is on its way out (`Duty.Doomed`).
-/

namespace EventRing

/-! ## Waits that are cancelled on their way -/

namespace Wait.Phase

variable {target : Int} {o : Observation} {phase next : Phase}

/-- The waiter looks, or it is woken if it has to be: by a signal, or at its deadline. -/
def Stirs (woken expired : Bool) : Phase → Prop
  | .gated timed .parked | .suspended timed => woken = true ∨ (timed && expired) = true
  | _ => True

/-- How many looks a waiter takes at most before its wait is over that was cancelled, the one that wakes
it included. -/
def looksLeft : Phase → Nat
  | .arriving _ | .gated _ .parked => 3
  | .gated _ _ | .suspended _ => 2
  | _ => 1

theorem looksLeft_le (phase : Phase) : phase.looksLeft ≤ 3 := by
  unfold looksLeft
  split <;> decide

theorem looksLeft_pos (phase : Phase) : 0 < phase.looksLeft := by
  unfold looksLeft
  split <;> decide

/-- A waiter that spins ends with its next look. -/
theorem look_of_cancelled (cancelled : o.cancelled = true) : ∃ outcome, look target o next = .inr outcome := by
  unfold look
  by_cases there : target ≤ o.value
  · exact ⟨_, if_pos there⟩
  · exact ⟨.cancelled, by rw [if_neg there, if_pos cancelled]⟩

/-- A look ends a wait that was cancelled, or takes the waiter nearer to its end, unless it is parked or
suspended and is not woken. -/
theorem step_of_cancelled (cancelled : o.cancelled = true) :
    (∃ outcome, phase.step target o = .inr outcome) ∨
      (∃ next, phase.step target o = .inl next ∧ next.looksLeft < phase.looksLeft) ∨
      (¬ phase.Stirs o.woken o.expired ∧ phase.step target o = .inl phase) := by
  cases phase with
  | spinning | backingOff | yielding | sleeping => exact Or.inl (look_of_cancelled cancelled)
  | budgeted left =>
      cases left with
      | zero =>
          obtain ⟨outcome, ended⟩ : ∃ outcome, look target o (.budgeted 0) = .inr outcome :=
            look_of_cancelled cancelled
          exact Or.inl ⟨outcome, by simp only [step, ended]⟩
      | succ left => exact Or.inl (look_of_cancelled cancelled)
  | arriving timed =>
      -- nobody looks at the cancellation before the gate
      refine Or.inr (Or.inl ?_)
      by_cases ahead : o.cursor < target
      · exact ⟨.gated timed .looking, if_pos ahead, by simp [looksLeft]⟩
      · exact ⟨.spinning, if_neg ahead, by simp [looksLeft]⟩
  | gated timed gate =>
      cases gate with
      | looking =>
          by_cases ahead : o.cursor < target
          · exact Or.inl ⟨.cancelled, by simp [step, Gate.step, ahead, cancelled]⟩
          · exact Or.inr (Or.inl ⟨.spinning, by simp [step, Gate.step, ahead], by simp [looksLeft]⟩)
      | parked =>
          refine Or.inr ?_
          by_cases woken : o.woken = true
          · exact Or.inl ⟨.gated timed .looking, by simp [step, Gate.step, woken], by simp [looksLeft]⟩
          · by_cases late : (timed && o.expired) = true
            · refine Or.inl ⟨.gated timed .lastLook, ?_, by simp [looksLeft]⟩
              simp [step, Gate.step, woken, late]
            · exact Or.inr ⟨not_or.mpr ⟨woken, late⟩, by simp [step, Gate.step, woken, late]⟩
      | lastLook =>
          -- the last look is at the cursor alone, so the deadline goes before the cancellation
          by_cases ahead : o.cursor < target
          · exact Or.inl ⟨.timeout, by simp [step, Gate.step, ahead]⟩
          · exact Or.inr (Or.inl ⟨.spinning, by simp [step, Gate.step, ahead], by simp [looksLeft]⟩)
  | listening timed => exact Or.inl ⟨.cancelled, if_pos cancelled⟩
  | suspended timed =>
      by_cases woken : o.woken = true
      · exact Or.inr (Or.inl ⟨.listening timed, if_pos woken, by simp [looksLeft]⟩)
      · by_cases late : (timed && o.expired) = true
        · exact Or.inl ⟨.timeout, by simp only [step, if_neg woken, if_pos late]⟩
        · exact Or.inr (Or.inr ⟨not_or.mpr ⟨woken, late⟩, by simp only [step, if_neg woken, if_neg late]⟩)
  | following => exact Or.inl ⟨.cancelled, if_pos cancelled⟩

end Wait.Phase

open Processor (Plan Request Phase Kind)

/-! ## Processors at their barriers -/

/-- A processor with the barrier that it waits at. -/
structure Duty (g : Geometry) where
  session : Session g
  barrier : Barrier
  /-- The wait on its way: where the waiter stands, or what it found and has not cut yet. -/
  wait : Option (Wait.Phase ⊕ Wait.Outcome) := none
  /-- How many halts have moved the control and not yet cancelled the barrier. -/
  halting : Nat := 0

namespace Duty

variable {g : Geometry}

/-- A processor that never ran, at a barrier. -/
def fresh (g : Geometry) (kind : Kind) (most : Option Nat) (p : Int) (barrier : Barrier) :
    Duty g where
  session := Session.fresh g kind most p
  barrier := barrier

/-- The worker that waits. -/
def worker (d : Duty g) : Worker g where
  plan := d.session.plan
  barrier := d.barrier
  phase := d.session.phase
  wait := d.wait

/-- Takes a turn.  A wait is over once its outcome is cut. -/
def turn (d : Duty g) (s : Sequencer g) (failure : Option Failure) : Option (Duty g) :=
  match d.session.plan.turn d.session.phase with
  | .ask (.await next) resume =>
    match d.wait with
    | some (.inr outcome) =>
      match d.barrier.published s next outcome with
      | .ok cut => some
        { d with
          session := d.session.answered { failure := failure, outcome := cut } (.await next) resume
          wait := none }
      | .error _ => none
    | _ => none
  | .ask .rearm resume => some
    { d with
      session := d.session.answered { failure := failure } .rearm resume
      barrier := d.barrier.rearm }
  | .ask request resume => some
    { d with session := d.session.answered { failure := failure } request resume }
  | .ended _ | .broken _ => none

/-- What can happen to a processor at its barrier.  Where it looks at the ring, it finds any state. -/
inductive Act (g : Geometry) where
  | call
  /-- Comes to the barrier. -/
  | enter (s : Sequencer g)
  /-- Looks once while it waits. -/
  | watch (s : Sequencer g) (woken expired : Bool)
  | turn (s : Sequencer g) (failure : Option Failure)
  /-- The first half of a halt. -/
  | halt
  /-- The second half of a halt. -/
  | cancel

/-- The first half of a halt. -/
def halt (d : Duty g) : Duty g := { d with session := d.session.halt, halting := d.halting + 1 }

/-- One act; nothing if it cannot be done or breaks off. -/
def step (d : Duty g) : Act g → Option (Duty g)
  | .call => d.session.call.map fun session => { d with session := session }
  | .enter s => (d.worker.enter s).map fun w => { d with wait := w.wait }
  | .watch s woken expired => (d.worker.watch s woken expired).map fun w => { d with wait := w.wait }
  | .turn s failure => d.turn s failure
  | .halt => some d.halt
  | .cancel =>
    if 0 < d.halting then some { d with barrier := d.barrier.cancel, halting := d.halting - 1 }
    else none

/-- The states that some acts lead to, whatever they are. -/
abbrev Leads (d e : Duty g) : Prop := Reaches step (fun _ _ => True) d e

/-! ### What an act does -/

variable {d e f : Duty g}

/-- What can come of an act. -/
inductive Change (d : Duty g) : Duty g → Prop where
  | called (idle : ∀ request resume, d.session.plan.turn d.session.phase ≠ .ask request resume) :
      Change d { d with session := { d.session with phase := .beginning } }
  | entered {next : Int} {resume : Wait.Outcome → Phase} {side : Wait.Side} {s : Sequencer g}
      (turn : d.session.plan.turn d.session.phase = .ask (.await next) resume) :
      Change d { d with wait := some (d.barrier.enter side next s) }
  | watched {next : Int} {resume : Wait.Outcome → Phase} {place : Wait.Phase} {s : Sequencer g}
      {woken expired : Bool} (turn : d.session.plan.turn d.session.phase = .ask (.await next) resume)
      (waiting : d.wait = some (.inl place)) :
      Change d
        { d with
          wait :=
            some (place.step next { d.barrier.observe s with woken := woken, expired := expired }) }
  | awaited {next : Int} {resume : Wait.Outcome → Phase} {outcome cut : Wait.Outcome}
      {failure : Option Failure} {s : Sequencer g}
      (turn : d.session.plan.turn d.session.phase = .ask (.await next) resume)
      (found : d.wait = some (.inr outcome)) (published : d.barrier.published s next outcome = .ok cut) :
      Change d
        { d with
          session := d.session.answered { failure := failure, outcome := cut } (.await next) resume
          wait := none }
  | rearmed {resume : Unit → Phase} {around : Outside}
      (turn : d.session.plan.turn d.session.phase = .ask .rearm resume) :
      Change d
        { d with session := d.session.answered around .rearm resume, barrier := d.barrier.rearm }
  | turned {request : Request} {resume : request.Answer → Phase} {around : Outside}
      (turn : d.session.plan.turn d.session.phase = .ask request resume)
      (other : ∀ next, request ≠ .await next) :
      Change d { d with session := d.session.answered around request resume }
  | halted : Change d d.halt
  | cancelled : Change d { d with barrier := d.barrier.cancel, halting := d.halting - 1 }

theorem change_of_turn {s : Sequencer g} {failure : Option Failure}
    (h : d.turn s failure = some e) : Change d e := by
  unfold turn at h
  split at h
  · rename_i turn
    split at h
    · rename_i found
      split at h
      · rename_i published
        cases h
        exact Change.awaited turn found published
      · cases h
    · cases h
  · rename_i turn
    cases h
    exact Change.rearmed turn
  · rename_i other rearm turn
    cases h
    refine Change.turned turn fun next same => ?_
    subst same
    exact other next _ rfl HEq.rfl
  · cases h
  · cases h

theorem change_of_step {act : Act g} (h : d.step act = some e) : Change d e := by
  cases act with
  | call =>
      obtain ⟨session, called, rfl⟩ := Option.map_eq_some_iff.mp h
      unfold Session.call at called
      split at called <;> cases called
      all_goals
        rename_i ended
        exact Change.called fun _ _ asked => by rw [ended] at asked; cases asked
  | enter s =>
      obtain ⟨w, entered, rfl⟩ := Option.map_eq_some_iff.mp h
      unfold Worker.enter at entered
      split at entered
      · rename_i turn _
        cases entered
        exact Change.entered turn
      · cases entered
  | watch s woken expired =>
      obtain ⟨w, watched, rfl⟩ := Option.map_eq_some_iff.mp h
      unfold Worker.watch at watched
      split at watched
      · rename_i turn waiting
        cases watched
        exact Change.watched turn waiting
      · cases watched
  | turn s failure => exact change_of_turn h
  | halt =>
      cases h
      exact Change.halted
  | cancel =>
      simp only [step] at h
      split at h
      · cases h
        exact Change.cancelled
      · cases h

theorem session_of_change (h : Change d e) :
    e.session = d.session ∨ Session.Change d.session e.session := by
  cases h with
  | called idle => exact Or.inr (Session.Change.called idle)
  | entered => exact Or.inl rfl
  | watched => exact Or.inl rfl
  | awaited turn => exact Or.inr (Session.Change.turned turn _)
  | rearmed turn => exact Or.inr (Session.Change.turned turn _)
  | turned turn => exact Or.inr (Session.Change.turned turn _)
  | halted => exact Or.inr Session.Change.halted
  | cancelled => exact Or.inl rfl

/-- What holds of every processor at its barrier: it waits only where it waits. -/
structure Formed (d : Duty g) : Prop where
  session : d.session.Formed
  waits : d.wait = none ∨ ∃ next, d.session.phase = .awaiting next

theorem Formed.wait_of_other {request : Request} {resume : request.Answer → Phase}
    (formed : d.Formed) (turn : d.session.plan.turn d.session.phase = .ask request resume)
    (other : ∀ next, request ≠ .await next) : d.wait = none := by
  rcases formed.waits with none | ⟨next, phase⟩
  · exact none
  · rw [phase] at turn
    cases turn
    exact absurd rfl (other next)

theorem formed_of_change (formed : d.Formed) (h : Change d e) : e.Formed := by
  refine ⟨?_, ?_⟩
  · rcases session_of_change h with same | change
    · rw [same]
      exact formed.session
    · exact Session.formed_of_change formed.session change
  · cases h with
    | called idle =>
        refine Or.inl (formed.waits.resolve_right ?_)
        rintro ⟨next, phase⟩
        exact idle (.await next) _ (by rw [phase]; rfl)
    | entered turn => exact Or.inr ⟨_, Phase.await_cases turn⟩
    | watched turn => exact Or.inr ⟨_, Phase.await_cases turn⟩
    | awaited => exact Or.inl rfl
    | rearmed turn => exact Or.inl (formed.wait_of_other turn nofun)
    | turned turn other => exact Or.inl (formed.wait_of_other turn other)
    | halted => exact formed.waits
    | cancelled => exact formed.waits

theorem formed_of_leads (formed : d.Formed) (led : Leads d e) : e.Formed :=
  led.invariant formed fun formed _ made => formed_of_change formed (change_of_step made)

theorem runs_of_change (h : Change d e) : d.session.runs ≤ e.session.runs := by
  rcases session_of_change h with same | change
  · exact Nat.le_of_eq (congrArg Session.runs same.symm)
  · rcases Session.runs_of_change change with same | ⟨-, more⟩ <;> omega

theorem runs_of_leads (led : Leads d e) : d.session.runs ≤ e.session.runs :=
  led.invariant (motive := fun e => d.session.runs ≤ e.session.runs) (Nat.le_refl _)
    fun later _ made => Nat.le_trans later (runs_of_change (change_of_step made))

/-- What holds of a run and is preserved as long as it goes on holds until the next one begins. -/
theorem within_run {P : Duty g → Prop} (formed : d.Formed) (initially : P d)
    (preserved : ∀ {e f : Duty g}, e.Formed → P e → Change e f → f.session.runs = e.session.runs → P f)
    (led : Leads d e) (same : e.session.runs = d.session.runs) : P e := by
  induction led with
  | start => exact initially
  | step before _ made ih =>
      have h := change_of_step made
      have earlier := runs_of_leads before
      have later := runs_of_change h
      exact preserved (formed_of_leads formed before) (ih (by omega)) h (by omega)

/-! ### Halts of a run -/

/-- A run that is under way was halted, and it will not wait again: the check after the start hook is
still ahead, or the barrier is cancelled, or it is on its way out. -/
def Doomed (d : Duty g) : Prop :=
  d.session.phase.UnderWay → d.session.control.state = .halted ∧
    (d.session.phase.Early ∨ d.session.phase.Late ∨ d.barrier.cancelled = true)

/-- No wait that is under way will end with anything but its cancellation. -/
def Settled (d : Duty g) : Prop := d.wait = none ∨ d.wait = some (.inr .cancelled)

theorem halted_of_change (halted : d.session.Halted) (h : Change d e)
    (same : e.session.runs = d.session.runs) : e.session.Halted := by
  rcases session_of_change h with equal | change
  · rw [equal]
    exact halted
  · exact Session.halted_of_change halted same change

/-- A doomed processor finds its barrier cancelled where it waits. -/
theorem Doomed.cancelled {next : Int} (doomed : d.Doomed) (phase : d.session.phase = .awaiting next) :
    d.barrier.cancelled = true := by
  unfold Doomed at doomed
  rw [phase] at doomed
  simpa using (doomed trivial).2

/-- So its wait is over as it comes to the barrier. -/
theorem Doomed.enter_eq {next : Int} {side : Wait.Side} {s : Sequencer g} (doomed : d.Doomed)
    (phase : d.session.phase = .awaiting next) :
    d.barrier.enter side next s = .inr .cancelled :=
  if_pos (doomed.cancelled phase)

theorem Doomed.heeds {around : Outside} {request : Request} {resume : request.Answer → Phase}
    (doomed : d.Doomed) (started : d.session.phase ≠ .beginning)
    (turn : d.session.plan.turn d.session.phase = .ask request resume)
    (cancelled : ∀ next, request = .await next → around.outcome = .cancelled) :
    request.Heeds (d.session.answer around request) :=
  Session.heeds_answer (doomed (Phase.underWay_of_turn started turn)).1 cancelled

theorem doomed_of_change (formed : d.Formed) (doomed : d.Doomed) (h : Change d e)
    (same : e.session.runs = d.session.runs) : e.Doomed := by
  cases h with
  | called => exact nofun
  | entered => exact doomed
  | watched => exact doomed
  | awaited turn found published =>
      have started := Session.started_of_runs turn (Nat.le_of_eq same)
      intro going
      rw [Session.state_answered turn started going]
      refine ⟨(doomed (Phase.underWay_of_turn started turn)).1, Or.inr (Or.inr ?_)⟩
      exact doomed.cancelled (Phase.await_cases turn)
  | rearmed turn =>
      have started := Session.started_of_runs turn (Nat.le_of_eq same)
      intro going
      rw [Session.state_answered turn started going]
      refine ⟨(doomed (Phase.underWay_of_turn started turn)).1, Or.inl ?_⟩
      have phase := (Phase.asked_once turn).2.1 rfl
      rw [phase] at turn
      cases turn
      trivial
  | @turned request resume around turn other =>
      have started := Session.started_of_runs turn (Nat.le_of_eq same)
      have heeds : request.Heeds (d.session.answer around request) :=
        doomed.heeds started turn fun next await => absurd await (other next)
      have winds := Phase.winds_of_turn started formed.session.upright turn heeds
      intro going
      rw [Session.state_answered turn started going]
      obtain ⟨halted, early | late | cancelled⟩ := doomed (Phase.underWay_of_turn started turn)
      · exact ⟨halted, (winds.early early).imp_right Or.inl⟩
      · refine ⟨halted, Or.inr (Or.inl ((winds.late late).resolve_right ?_))⟩
        rintro ⟨error, ended⟩
        have still : (resume (d.session.answer around request)).UnderWay := going
        rw [ended] at still
        cases still
      · exact ⟨halted, Or.inr (Or.inr cancelled)⟩
  | halted => exact fun going => ⟨rfl, (doomed going).2⟩
  | cancelled => exact fun going => ⟨(doomed going).1, Or.inr (Or.inr rfl)⟩

/-- A processor whose barrier is cancelled winds down, act by act. -/
theorem winds_of_change {first : Session g} (formed : d.Formed) (doomed : d.Doomed)
    (settled : d.Settled) (winds : ∃ since, Session.Winds first d.session since) (h : Change d e)
    (same : e.session.runs = d.session.runs) :
    e.Settled ∧ ∃ since, Session.Winds first e.session since := by
  obtain ⟨since, winds⟩ := winds
  cases h with
  | called => exact ⟨settled, since, winds.called⟩
  | entered turn =>
      exact ⟨Or.inr (congrArg some (doomed.enter_eq (Phase.await_cases turn))), since, winds⟩
  | watched turn waiting =>
      rcases settled with none | cancelled
      · rw [none] at waiting
        cases waiting
      · rw [cancelled] at waiting
        cases waiting
  | awaited turn found published =>
      have started := Session.started_of_runs turn (Nat.le_of_eq same)
      refine ⟨Or.inl rfl, _, winds.turn started formed.session.upright turn ?_⟩
      rcases settled with none | cancelled
      · rw [none] at found
        cases found
      · rw [cancelled] at found
        cases found
        cases published
        rfl
  | rearmed turn =>
      have started := Session.started_of_runs turn (Nat.le_of_eq same)
      exact ⟨settled, _, winds.turn started formed.session.upright turn trivial⟩
  | turned turn other =>
      have started := Session.started_of_runs turn (Nat.le_of_eq same)
      refine ⟨settled, _, winds.turn started formed.session.upright turn ?_⟩
      exact doomed.heeds started turn fun next await => absurd await (other next)
  | halted => exact ⟨settled, since, winds.halted⟩
  | cancelled => exact ⟨settled, since, winds⟩

/-- How many looks the wait on its way, if any, takes at most before it is over. -/
def looksLeft (d : Duty g) : Nat :=
  match d.wait with
  | some (.inl place) => place.looksLeft
  | _ => 0

theorem looksLeft_of_waiting {place : Wait.Phase} (waiting : d.wait = some (.inl place)) :
    d.looksLeft = place.looksLeft := by
  rw [looksLeft, waiting]

/-- A look at the cancelled barrier. -/
theorem looksLeft_watched {place : Wait.Phase} {next : Int} {sight : Wait.Observation}
    (cancelled : sight.cancelled = true) (waiting : d.wait = some (.inl place)) :
    ({ d with wait := some (place.step next sight) } : Duty g).looksLeft ≤ d.looksLeft ∧
      (place.Stirs sight.woken sight.expired →
        ({ d with wait := some (place.step next sight) } : Duty g).looksLeft < d.looksLeft) := by
  rw [looksLeft_of_waiting waiting]
  rcases Wait.Phase.step_of_cancelled cancelled with ⟨outcome, ended⟩ | ⟨after, onwards, less⟩ | ⟨asleep, stays⟩
  · rw [ended]
    exact ⟨Nat.zero_le _, fun _ => place.looksLeft_pos⟩
  · rw [onwards]
    exact ⟨Nat.le_of_lt less, fun _ => less⟩
  · rw [stays]
    exact ⟨Nat.le_refl _, fun stirs => absurd stirs asleep⟩

/-- A doomed processor does not get further from the end of its wait. -/
theorem looksLeft_of_change (doomed : d.Doomed) (h : Change d e) : e.looksLeft ≤ d.looksLeft := by
  cases h with
  | entered turn =>
      rw [doomed.enter_eq (Phase.await_cases turn)]
      exact Nat.zero_le _
  | watched turn waiting =>
      exact (looksLeft_watched (doomed.cancelled (Phase.await_cases turn)) waiting).1
  | awaited => exact Nat.zero_le _
  | called | rearmed | turned | halted | cancelled => exact Nat.le_refl _

/-- The next step of a processor itself can be made, whatever it finds. -/
def Goes (d : Duty g) : Prop :=
  ∀ s failure, (d.step (.enter s)).isSome ∨ (d.step (.turn s failure)).isSome

theorem goes_of_settled {request : Request} {resume : request.Answer → Phase} (settled : d.Settled)
    (asks : d.session.plan.turn d.session.phase = .ask request resume) : d.Goes := by
  intro s failure
  cases request with
  | await next =>
      rcases settled with none | cancelled
      · -- it comes to the barrier first
        exact Or.inl (by simp [step, Worker.enter, worker, asks, none])
      · exact Or.inr (by simp [step, turn, asks, cancelled, Barrier.published, pure, Except.pure])
  | _ => exact Or.inr (by simp [step, turn, asks])

/-! ### Runs with halts -/

variable {kind : Kind} {most : Option Nat} {p : Int} {barrier : Barrier} {d₁ d₂ : Duty g}

theorem formed_fresh : (fresh g kind most p barrier).Formed :=
  ⟨⟨Processor.limitOf_pos most, trivial, nofun⟩, Or.inl rfl⟩

/-- The second half of a halt, made in the run in which the first half was made, dooms that run. -/
theorem doomed_of_halt (formed : d.Formed) (first : Leads d.halt d₁)
    (second : d₁.step .cancel = some d₂) (same : d₂.session.runs = d.session.runs) : d₂.Doomed := by
  have halted : d₁.session.Halted := by
    have later : d₁.session.runs ≤ d₂.session.runs := runs_of_change (change_of_step second)
    have before : d.halt.session.runs ≤ d₁.session.runs := runs_of_leads first
    refine within_run (P := fun e => e.session.Halted) (formed_of_change formed Change.halted)
      (fun _ => rfl) (fun _ halted h same => halted_of_change halted h same) first ?_
    have started : d.halt.session.runs = d.session.runs := rfl
    omega
  simp only [step] at second
  split at second
  · cases second
    exact fun going => ⟨halted going, Or.inr (Or.inr rfl)⟩
  · cases second

/-- A halted run whose barrier is cancelled, and that is in no wait, winds down. -/
theorem winds_of_leads (formed : d.Formed) (doomed : d.Doomed) (settled : d.Settled)
    (led : Leads d e) (same : e.session.runs = d.session.runs) :
    e.Settled ∧ ∃ since, Session.Winds d.session e.session since := by
  have all := within_run
    (P := fun e => e.Doomed ∧ e.Settled ∧ ∃ since, Session.Winds d.session e.session since) formed
    ⟨doomed, settled, [], Session.Winds.start _⟩ ?_ led same
  · exact all.2
  · rintro e f formed ⟨doomed, settled, winds⟩ h same
    exact ⟨doomed_of_change formed doomed h same,
      winds_of_change formed doomed settled winds h same⟩

/-- A wait that begins now is cancelled at once. -/
def Barred (d : Duty g) : Prop :=
  ∀ s e, d.step (.enter s) = some e → e.wait = some (.inr .cancelled)

theorem barred_of_doomed (doomed : d.Doomed) : d.Barred := by
  intro s e entered
  obtain ⟨w, came, rfl⟩ := Option.map_eq_some_iff.mp entered
  unfold Worker.enter at came
  split at came
  · rename_i turn _
    cases came
    exact congrArg some (doomed.enter_eq (Phase.await_cases turn))
  · cases came

/-- The wait on its way, if any, takes three looks at most, whatever happens in between, and each of them
can be made.  A waiter that is parked or suspended does not look until it is woken; that it will be is
shown in `EventRing.Proofs.Waking`. -/
def Closes (d : Duty g) : Prop :=
  d.looksLeft ≤ 3 ∧ ∀ e, Leads d e → e.session.runs = d.session.runs →
    e.looksLeft ≤ d.looksLeft ∧
    ∀ place, e.wait = some (.inl place) → ∀ s woken expired, place.Stirs woken expired →
      ∃ f, e.step (.watch s woken expired) = some f ∧ f.looksLeft < e.looksLeft

theorem closes_of_doomed (formed : d.Formed) (doomed : d.Doomed) : d.Closes := by
  refine ⟨?_, fun e led same => ?_⟩
  · unfold looksLeft
    split
    · exact Wait.Phase.looksLeft_le _
    · decide
  -- the barrier stays cancelled as long as the run goes on, and no other wait begins
  have later : e.Doomed ∧ e.looksLeft ≤ d.looksLeft := by
    refine within_run (P := fun e => e.Doomed ∧ e.looksLeft ≤ d.looksLeft) formed
      ⟨doomed, Nat.le_refl _⟩ ?_ led same
    rintro e f formed ⟨doomed, less⟩ h same
    exact ⟨doomed_of_change formed doomed h same, Nat.le_trans (looksLeft_of_change doomed h) less⟩
  refine ⟨later.2, fun place waiting s woken expired stirs => ?_⟩
  obtain none | ⟨next, phase⟩ := (formed_of_leads formed led).waits
  · rw [none] at waiting
    cases waiting
  · refine ⟨{ e with wait := some (place.step next { e.barrier.observe s with woken, expired }) }, ?_, ?_⟩
    · simp only [step, Worker.watch, worker, phase, Plan.turn, waiting, Option.map_some]
    · exact (looksLeft_watched (later.1.cancelled phase) waiting).2 stirs

/-- What a wait found is taken with the next turn. -/
theorem exists_turn_of_found {outcome : Wait.Outcome} (start : -1 ≤ p) (formed : d.Formed)
    (kept : d.session.Kept p) (found : d.wait = some (.inr outcome))
    (fits : ∀ sequence, outcome = .available sequence → Word.Fits sequence) (s : Sequencer g)
    (failure : Option Failure) : ∃ e, d.step (.turn s failure) = some e := by
  obtain none | ⟨next, phase⟩ := formed.waits
  · rw [none] at found
    cases found
  have stands := kept.stands
  rw [phase] at stands
  obtain ⟨-, here, -, high⟩ := stands
  have low := kept.order.start_le
  -- only the scan for holes could break off, and it does not get behind the event before the first
  obtain ⟨cut, published⟩ : ∃ cut, d.barrier.published s next outcome = .ok cut := by
    cases outcome with
    | timeout => exact ⟨_, rfl⟩
    | cancelled => exact ⟨_, rfl⟩
    | available sequence =>
        have before : Word.Fits (next - 1) := Processor.fits_of_nonneg (by omega) (by omega)
        obtain ⟨v, scanned⟩ : ∃ v, d.barrier.highestPublished s next sequence = .ok v := by
          unfold Barrier.highestPublished
          split
          · exact Sequencer.exists_highestPublished s before (fits sequence rfl)
          · exact ⟨sequence, rfl⟩
        exact ⟨.available v, congrArg (Wait.Outcome.available <$> ·) scanned⟩
  exact ⟨_, by simp only [step, turn, phase, Plan.turn, found, published]; rfl⟩

/-- A wait is over with the turn that takes its outcome. -/
theorem wait_of_turn {s : Sequencer g} {failure : Option Failure} (formed : d.Formed)
    (h : d.step (.turn s failure) = some e) : e.wait = none := by
  simp only [step, turn] at h
  split at h
  · split at h
    · split at h
      · cases h
        rfl
      · cases h
    · cases h
  · rename_i turn
    cases h
    exact formed.wait_of_other turn nofun
  · rename_i other rearm turn
    cases h
    refine formed.wait_of_other turn fun next same => ?_
    subst same
    exact other next _ rfl HEq.rfl
  · cases h
  · cases h

theorem kept_of_leads (start : -1 ≤ p) (led : Leads (fresh g kind most p barrier) d)
    (bounded : d.session.Bounded) : d.session.Kept p := by
  have all := led.invariant (motive := fun d => d.session.Bounded → d.session.Kept p) ?_ ?_
  · exact all bounded
  · exact Session.kept_of_leads start Reaches.start
  · intro d act e kept _ made bounded
    rcases session_of_change (change_of_step made) with same | change
    · rw [same] at bounded ⊢
      exact kept bounded
    · exact Session.kept_of_change start (kept (Session.bounded_of_change change bounded)) bounded
        change

/-- What becomes of a run that a halt has reached: no wait that begins answers anything but its
cancellation, and the wait on its way, if any, is the last one.  That one takes three looks at most, and
what it found is taken.  Once it is over, the run hands over what is left of the batch in hand at most,
and goes on, without breaking off, through its shutdown hook to its end. -/
structure Ending (p : Int) (d : Duty g) : Prop where
  barred : d.Barred
  closes : d.Closes
  taken : -1 ≤ p → d.session.Bounded → ∀ outcome, d.wait = some (.inr outcome) →
    (∀ sequence, outcome = .available sequence → Word.Fits sequence) →
    ∀ s failure, ∃ e, d.step (.turn s failure) = some e
  last : ∀ s failure e, d.step (.turn s failure) = some e → e.wait = none
  winds : d.wait = none → ∀ e, Leads d e → e.session.runs = d.session.runs →
    ∃ since, Session.Winds d.session e.session since
  goes : d.wait = none → ∀ e, Leads d e → e.session.runs = d.session.runs → -1 ≤ p →
    p < Word.greatest → e.session.Bounded →
      (e.session.phase.UnderWay → e.Goes) ∧ ∀ fault, e.session.phase ≠ .faulted fault

theorem ending_of_doomed (led : Leads (fresh g kind most p barrier) d) (doomed : d.Doomed) :
    d.Ending p := by
  have formed := formed_of_leads formed_fresh led
  refine ⟨barred_of_doomed doomed, closes_of_doomed formed doomed, fun start bounded outcome found fits =>
    exists_turn_of_found start formed (kept_of_leads start led bounded) found fits,
    fun s failure e => wait_of_turn formed, ?_, ?_⟩
  · intro none e onwards same
    exact (winds_of_leads formed doomed (Or.inl none) onwards same).2
  · intro none e onwards same start below bounded
    have settled := (winds_of_leads formed doomed (Or.inl none) onwards same).1
    have kept := kept_of_leads start (led.trans onwards) bounded
    have sound := kept.ne_faulted below
    refine ⟨fun going => ?_, sound⟩
    have unfinished : ∀ error, e.session.phase ≠ .complete error := fun error ended => by
      rw [ended] at going
      cases going
    obtain ⟨request, resume, asked⟩ := kept.asks start unfinished sound
    exact goes_of_settled settled asked

/-- A halt between two runs is found by the next one, which only passes through its hooks. -/
theorem passes_of_leads (formed : d.Formed) (idle : d.session.control.state = .idle)
    (led : Leads d.halt e) (few : e.session.runs ≤ d.session.runs + 1) :
    d.session.Due e.session ∨ ∃ since, d.session.Begun e.session since := by
  induction led with
  | start => exact Or.inl ⟨rfl, rfl, fun going => formed.session.busy going idle, rfl⟩
  | @step e f act before _ made ih =>
      have h := change_of_step made
      have later := runs_of_change h
      have came := ih (by omega)
      rcases session_of_change h with same | change
      · rw [same]
        exact came
      · rcases came with due | ⟨since, begun⟩
        · exact due.next change
        · have upright := formed_of_leads (formed_of_change formed Change.halted) before
          exact Or.inr (begun.next upright.session.upright change few)

/-- No halt is lost.  If its first half is made while a run is under way, that run ends once the second
half is made as well.  If it is made while the processor is idle, the next run only passes through its
start and shutdown hooks. -/
theorem halts_are_not_lost (reached : Leads (fresh g kind most p barrier) d) :
    (d.session.phase.UnderWay →
      ∀ d₁ d₂, Leads d.halt d₁ → d₁.step .cancel = some d₂ →
      ∀ e, Leads d₂ e → e.session.runs = d.session.runs → e.Ending p) ∧
    (d.session.control.state = .idle →
      ∀ e, Leads d.halt e → e.session.runs ≤ d.session.runs + 1 →
        (∃ since, Session.Passes d.session e.session since) ∧
        (e.session.phase.UnderWay → e.Goes)) := by
  have formed := formed_of_leads formed_fresh reached
  have halt : Leads d d.halt := Reaches.start.next (rfl : d.step .halt = some d.halt) trivial
  refine ⟨fun _ d₁ d₂ first second e onwards same => ?_, fun idle e led few => ?_⟩
  · have cancelled : Leads d₁ d₂ := Reaches.start.next second trivial
    have before : d.session.runs ≤ d₂.session.runs :=
      runs_of_leads ((halt.trans first).trans cancelled)
    have after : d₂.session.runs ≤ e.session.runs := runs_of_leads onwards
    have doomed := doomed_of_halt formed first second (by omega)
    have reached₂ := ((reached.trans halt).trans first).trans cancelled
    refine ending_of_doomed (reached₂.trans onwards) ?_
    exact within_run (formed_of_leads formed_fresh reached₂) doomed
      (fun formed doomed h same => doomed_of_change formed doomed h same) onwards (by omega)
  · rcases passes_of_leads formed idle led few with due | ⟨since, begun⟩
    · exact ⟨⟨[], due.passes⟩, fun going => absurd going due.idle⟩
    · refine ⟨⟨since, begun.passes⟩, fun going => ?_⟩
      obtain ⟨request, resume, asked, brief⟩ := Phase.asks_of_brief begun.phase going
      have still := formed_of_leads formed_fresh ((reached.trans halt).trans led)
      refine goes_of_settled (Or.inl (still.wait_of_other asked ?_)) asked
      rintro next rfl
      exact brief

/-- A ring of two slots on which events 0 and 1 are published. -/
def twoPublished : Sequencer ⟨1, by decide⟩ :=
  { Sequencer.fresh ⟨1, by decide⟩ .one false with cursor := 1 }

/-- A processor that never ran, at a barrier behind the cursor of that ring. -/
def atTwoPublished : Duty ⟨1, by decide⟩ :=
  fresh ⟨1, by decide⟩ .event none (-1) (.make twoPublished .spinning [])

/-- A run that has found two events. -/
def untilFound : List (Act ⟨1, by decide⟩) :=
  .call :: List.replicate 6 (.turn twoPublished none) ++ [.enter twoPublished]

/-- A ring of two slots on which nothing is published. -/
def nonePublished : Sequencer ⟨1, by decide⟩ := Sequencer.fresh ⟨1, by decide⟩ .one true

/-- A processor that never ran, at a barrier behind the cursor of that ring, which parks it. -/
def atNonePublished : Duty ⟨1, by decide⟩ :=
  fresh ⟨1, by decide⟩ .event none (-1) (.make nonePublished (.parking false) [])

/-- A run that is parked. -/
def untilParked : List (Act ⟨1, by decide⟩) :=
  .call :: List.replicate 6 (.turn nonePublished none) ++
    .enter nonePublished :: List.replicate 2 (.watch nonePublished false false)

/-- A halt whose halves lie around the turns that take these events in hand ends the run with them.  A
halt before the first run makes that run pass through its hooks.  A halt of a run that is parked is found
with the second look after the waking, and the run calls its shutdown hook. -/
theorem halts_are_not_lost_two_published :
    (∃ d d₁ d₂ e : Duty ⟨1, by decide⟩,
      Leads atTwoPublished d ∧ d.session.phase = .awaiting 0 ∧
      Leads d.halt d₁ ∧ d₁.step .cancel = some d₂ ∧ d₂.session.phase = .delivering 0 1 ∧
      d₂.Ending (-1) ∧
      Leads atTwoPublished.halt e ∧ e.session.runs = 1 ∧ e.session.phase = .complete none ∧
      ∃ since, Session.Passes atTwoPublished.session e.session since) ∧
    ∃ (d d₁ d₂ e : Duty ⟨1, by decide⟩) (since : List Exchange),
      Leads atNonePublished d ∧ d.wait = some (.inl (.gated false .parked)) ∧
      d.halt.step .cancel = some d₁ ∧ d₁.Ending (-1) ∧
      Leads d₁ d₂ ∧ d₂.wait = none ∧ d₂.session.phase = .interrupted 0 ∧
      Leads d₂ e ∧ e.session.phase = .complete none ∧
      Session.Winds d₂.session e.session since ∧ ∃ x ∈ since, x.request = .shutdown := by
  constructor
  · let found := walk step (fun _ _ => True) atTwoPublished untilFound
    have before : Leads atTwoPublished (found.get (by decide)) := reaches_get _
    let inHand := walk step (fun _ _ => True) (found.get (by decide)).halt
      (List.replicate 2 (.turn twoPublished none))
    have first : Leads (found.get (by decide)).halt (inHand.get (by decide)) := reaches_get _
    let cancelled := (inHand.get (by decide)).step .cancel
    have second : (inHand.get (by decide)).step .cancel = some (cancelled.get (by decide)) :=
      (Option.some_get _).symm
    let ended := walk step (fun _ _ => True) atTwoPublished.halt
      (.call :: List.replicate 5 (.turn twoPublished none))
    have passed : Leads atTwoPublished.halt (ended.get (by decide)) := reaches_get _
    refine ⟨_, _, _, _, before, by decide, first, second, by decide, ?_, passed, by decide, by decide,
      ?_⟩
    · exact (halts_are_not_lost before).1 trivial _ _ first second _ Reaches.start (by decide)
    · exact ((halts_are_not_lost Reaches.start).2 rfl _ passed (by decide)).1
  · let parked := walk step (fun _ _ => True) atNonePublished untilParked
    have before : Leads atNonePublished (parked.get (by decide)) := reaches_get _
    let cancelled := (parked.get (by decide)).halt.step .cancel
    have second : (parked.get (by decide)).halt.step .cancel = some (cancelled.get (by decide)) :=
      (Option.some_get _).symm
    let heard := walk step (fun _ _ => True) (cancelled.get (by decide))
      [.watch nonePublished true false, .watch nonePublished false false, .turn nonePublished none]
    have looked : Leads (cancelled.get (by decide)) (heard.get (by decide)) := reaches_get _
    let ended := walk step (fun _ _ => True) (heard.get (by decide))
      (List.replicate 3 (.turn nonePublished none))
    have wound : Leads (heard.get (by decide)) (ended.get (by decide)) := reaches_get _
    -- the halt has reached the run from here on, also once the wait is over
    have ending := (halts_are_not_lost before).1 trivial _ _ Reaches.start second
    have interrupted : (heard.get (by decide)).session.phase = .interrupted 0 := by decide
    have complete : (ended.get (by decide)).session.phase = .complete none := by decide
    obtain ⟨since, winds⟩ := (ending _ looked (by decide)).winds (by decide) _ wound (by decide)
    refine ⟨_, _, _, _, since, before, by decide, second, ending _ Reaches.start (by decide), looked,
      by decide, interrupted, wound, complete, winds, ?_⟩
    refine (winds.shutdown ?_).resolve_left ?_
    · rw [complete]
      trivial
    · rw [interrupted]
      exact id

end Duty

end EventRing
