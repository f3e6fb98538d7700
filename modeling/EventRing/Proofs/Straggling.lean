import EventRing.Proofs.Halting
/-!
# EventRing.Proofs.Straggling

Halts that outlive the run they were aimed at.  The first half of a halt is made during one run, which
then ends for some reason of its own; the next run begins and clears the cancellation of the barrier; and
only now the second half is made.  The next run has not been halted, yet its barrier is cancelled.

That is the only way it can happen (`halts_do_not_straggle`): a run that is not halted, and that cleared
its barrier when no halt was between its halves, finds the barrier armed.  What becomes of a run that is
caught is worse than an error: it takes the cancellation for none of its own and waits again, without end
(`Duty.Spins`), until somebody halts it once more.
-/

namespace EventRing

open Processor (Plan Request Phase Kind)

namespace Duty

variable {g : Geometry} {d e : Duty g} {next : Int} {kind : Kind} {most : Option Nat} {p : Int}
  {barrier : Barrier} {s : Sequencer g} {failure : Option Failure}

/-- A run clears the cancellation of its barrier when no halt is between its halves. -/
def Prompt (d : Duty g) : Act g → Prop
  | .turn .. => d.session.phase = .rearming → d.session.control.state = .running → d.halting = 0
  | _ => True

instance (d : Duty g) (act : Act g) : Decidable (d.Prompt act) := by
  unfold Prompt
  split <;> infer_instance

/-- What a turn does to a processor at its barrier. -/
theorem answered_of_turn (h : d.turn s failure = some e) :
    ∃ (request : Request) (resume : request.Answer → Phase) (around : Outside),
      d.session.plan.turn d.session.phase = .ask request resume ∧
      e.session = d.session.answered around request resume ∧ e.halting = d.halting ∧
      e.barrier.cancelled = (d.barrier.cancelled && decide (d.session.phase ≠ .rearming)) := by
  have other {request : Request} {resume : request.Answer → Phase}
      (turn : d.session.plan.turn d.session.phase = .ask request resume) (no : request ≠ .rearm) :
      d.barrier.cancelled = (d.barrier.cancelled && decide (d.session.phase ≠ .rearming)) := by
    have elsewhere : d.session.phase ≠ .rearming := by
      intro phase
      rw [phase] at turn
      cases turn
      exact no rfl
    rw [decide_eq_true elsewhere, Bool.and_true]
  unfold turn at h
  split at h
  · rename_i turn
    split at h
    · split at h
      · cases h
        exact ⟨_, _, _, turn, rfl, rfl, other turn nofun⟩
      · cases h
    · cases h
  · rename_i turn
    cases h
    refine ⟨_, _, _, turn, rfl, rfl, ?_⟩
    rw [decide_eq_false (not_not_intro ((Phase.asked_once turn).2.1 rfl)), Bool.and_false]
    rfl
  · rename_i rearm turn
    cases h
    refine ⟨_, _, _, turn, rfl, rfl, other turn ?_⟩
    rintro rfl
    exact rearm _ rfl HEq.rfl
  · cases h
  · cases h

/-- Past the beginning of a run that was not halted, the barrier is armed, and no halt is between its
halves. -/
def Armed (d : Duty g) : Prop :=
  d.session.control.state = .running → d.session.phase ≠ .rearming →
    d.barrier.cancelled = false ∧ d.halting = 0

theorem armed_of_turn (armed : d.Armed) (prompt : d.Prompt (.turn s failure))
    (h : d.turn s failure = some e) : e.Armed := by
  obtain ⟨request, resume, around, turn, session, halting, cancelled⟩ := answered_of_turn h
  intro running past
  rw [session] at running past
  rw [cancelled, halting]
  by_cases begins : request = .begin
  · -- a run that is not refused clears the cancellation next
    subst begins
    have phase := (Phase.asked_once turn).1 rfl
    rw [phase] at turn
    cases turn
    cases state : d.session.control.state with
    | idle =>
        refine absurd ?_ past
        simp [Session.answered, Session.answer, Control.begin, state, Except.map]
    | halted =>
        simp [Session.answered, Request.controlAfter, Control.begin, state] at running
    | running =>
        obtain ⟨clear, none⟩ := armed state fun rearming => by cases phase.symm.trans rearming
        rw [clear]
        exact ⟨rfl, none⟩
  · by_cases ends : request = .finish
    · subst ends
      cases running
    · have state : d.session.control.state = .running :=
        (Request.state_controlAfter begins ends).symm.trans running
      by_cases phase : d.session.phase = .rearming
      · rw [decide_eq_false (not_not_intro phase), Bool.and_false]
        exact ⟨rfl, prompt phase state⟩
      · obtain ⟨clear, none⟩ := armed state phase
        rw [clear]
        exact ⟨rfl, none⟩

theorem armed_of_step {act : Act g} (armed : d.Armed) (prompt : d.Prompt act)
    (h : d.step act = some e) : e.Armed := by
  cases act with
  | call =>
      obtain ⟨session, called, rfl⟩ := Option.map_eq_some_iff.mp h
      unfold Session.call at called
      split at called <;> cases called
      all_goals
        rename_i ended
        exact fun running _ => armed running fun phase => by rw [phase] at ended; cases ended
  | enter s =>
      obtain ⟨w, -, rfl⟩ := Option.map_eq_some_iff.mp h
      exact armed
  | watch s woken expired =>
      obtain ⟨w, -, rfl⟩ := Option.map_eq_some_iff.mp h
      exact armed
  | turn s failure => exact armed_of_turn armed prompt h
  | halt =>
      cases h
      exact nofun
  | cancel =>
      simp only [step] at h
      split at h
      · rename_i pending
        cases h
        intro running past
        rw [(armed running past).2] at pending
        exact absurd pending (Nat.lt_irrefl 0)
      · cases h

/-- A run that is not halted, and cleared its barrier when no halt was between its halves, finds it
armed.  The condition is exact: with a halt between its halves the barrier can be cancelled as soon as the
run has cleared it. -/
theorem halts_do_not_straggle (reached : Reaches step Prompt (fresh g kind most p barrier) d) :
    (d.session.control.state = .running → d.session.phase ≠ .rearming →
      d.barrier.cancelled = false) ∧
    (d.session.control.state = .running → d.session.phase = .rearming → 0 < d.halting →
      ∀ (s : Sequencer g) (failure : Option Failure), ∃ e f,
        d.step (.turn s failure) = some e ∧ e.step .cancel = some f ∧
        f.session.control.state = .running ∧ f.session.phase = .starting .run ∧
        f.barrier.cancelled = true) := by
  have armed : d.Armed := reached.invariant (fun running _ => nomatch running) armed_of_step
  refine ⟨fun running past => (armed running past).1, fun running phase pending s failure => ?_⟩
  have turned : d.step (.turn s failure) = some
      { d with
        session := d.session.answered { failure := failure } .rearm fun _ => .starting .run
        barrier := d.barrier.rearm } := by
    simp only [step, turn, phase, Plan.turn]
  exact ⟨_, _, turned, if_pos pending, running, rfl, rfl⟩

/-! ## Runs that are caught -/

/-- A run that goes round: it waits for an event at a cancelled barrier, and it is not halted. -/
structure Spins (next : Int) (d : Duty g) : Prop where
  running : d.session.control.state = .running
  cancelled : d.barrier.cancelled = true
  place : d.session.phase = .awaiting next ∧ (d.wait = none ∨ d.wait = some (.inr .cancelled)) ∨
    d.session.phase = .interrupted next ∧ d.wait = none

/-- Nobody halts. -/
def Unhalted (_ : Duty g) (act : Act g) : Prop := act ≠ .halt

theorem spins_of_turn (spins : d.Spins next) (h : d.turn s failure = some e) : e.Spins next := by
  obtain ⟨running, cancelled, ⟨phase, waits⟩ | ⟨phase, none⟩⟩ := spins
  · -- the wait was cancelled
    simp only [turn, phase, Plan.turn] at h
    rcases waits with none | found
    · simp only [none] at h
      cases h
    · simp only [found, Barrier.published] at h
      cases h
      exact ⟨running, cancelled, Or.inr ⟨rfl, rfl⟩⟩
  · -- it is not halted, so it waits again
    simp only [turn, phase, Plan.turn] at h
    cases h
    refine ⟨running, cancelled, Or.inl ⟨?_, Or.inl none⟩⟩
    simp [Session.answered, Session.answer, Control.isActive, running]

theorem spins_of_step {act : Act g} (spins : d.Spins next) (unhalted : act ≠ .halt)
    (h : d.step act = some e) : e.Spins next := by
  cases act with
  | call =>
      obtain ⟨session, called, -⟩ := Option.map_eq_some_iff.mp h
      unfold Session.call at called
      rcases spins.place with ⟨phase, -⟩ | ⟨phase, -⟩ <;> rw [phase] at called <;> cases called
  | enter s =>
      obtain ⟨w, entered, rfl⟩ := Option.map_eq_some_iff.mp h
      rcases spins.place with ⟨phase, -⟩ | ⟨phase, none⟩
      · simp only [Worker.enter, worker, phase, Plan.turn] at entered
        split at entered
        · cases entered
          rename_i turn _
          cases turn
          exact ⟨spins.running, spins.cancelled, Or.inl ⟨phase, Or.inr
            (congrArg some (if_pos spins.cancelled))⟩⟩
        · cases entered
      · simp only [Worker.enter, worker, phase, Plan.turn] at entered
        cases entered
  | watch s woken expired =>
      obtain ⟨w, watched, rfl⟩ := Option.map_eq_some_iff.mp h
      rcases spins.place with ⟨phase, none | found⟩ | ⟨phase, none⟩
      · simp only [Worker.watch, worker, phase, Plan.turn, none] at watched
        cases watched
      · simp only [Worker.watch, worker, phase, Plan.turn, found] at watched
        cases watched
      · simp only [Worker.watch, worker, phase, Plan.turn] at watched
        cases watched
  | turn s failure => exact spins_of_turn spins h
  | halt => exact absurd rfl unhalted
  | cancel =>
      simp only [step] at h
      split at h
      · cases h
        exact ⟨spins.running, rfl, spins.place⟩
      · cases h

/-- A run that is caught goes round until somebody halts it once more. -/
theorem caught_runs_spin (spins : d.Spins next) (led : Reaches step Unhalted d e) : e.Spins next :=
  led.invariant spins spins_of_step

/-- A halt whose first half was made in the run before catches a run in front of two published events. -/
theorem straggling_halt_catches_next_run :
    ∃ d, Leads atTwoPublished d ∧ d.session.runs = 2 ∧ d.halting = 0 ∧ d.Spins 0 ∧
      ∀ e, Reaches step Unhalted d e → e.Spins 0 := by
  let caught := walk step (fun _ _ => True) atTwoPublished
    (.call :: List.replicate 2 (.turn twoPublished none) ++
      .halt :: List.replicate 5 (.turn twoPublished none) ++
      .call :: List.replicate 2 (.turn twoPublished none) ++
      .cancel :: List.replicate 4 (.turn twoPublished none))
  have spins : (caught.get (by decide)).Spins 0 :=
    ⟨by decide, by decide, Or.inl ⟨by decide, Or.inl rfl⟩⟩
  exact ⟨caught.get (by decide), reaches_get _, by decide, by decide, spins,
    fun e led => caught_runs_spin spins led⟩

end Duty

end EventRing
