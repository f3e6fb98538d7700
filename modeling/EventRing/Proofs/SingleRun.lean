import EventRing.Processor.Control
import EventRing.Proofs.Runs
/-!
# EventRing.Proofs.SingleRun

Several callers that share one control.  A caller whose begin was answered is inside until it calls
finish; halts come from anybody at any time.  A begin while somebody is inside should be refused, so
that there is at most one.

It is refused as long as the run is not halted.  But a halted control does not say whether it halted a
run or an idle processor, and `begin` takes it for the second: a caller that comes between the halt of a
run and its end is let in, for a run that only passes through its hooks, and the first of the two that
finishes makes the control idle under the other.  `active_runs_exclude_others` shows that callers who
keep out there exclude each other, and that everyone who does not gets in.
-/

namespace EventRing

/-- A control, and the callers whose begin was answered and who have not finished, the last one
first. -/
structure Callers where
  control : Control := {}
  inside : List Nat := []

namespace Callers

/-- What callers do.  Only those inside finish. -/
inductive Act where
  | begin (who : Nat)
  | halt
  | finish (who : Nat)

/-- One call; nothing if it is not the caller's turn. -/
def step (c : Callers) : Act → Option Callers
  | .begin who =>
    match c.control.begin with
    | .ok (_, control) => some { control := control, inside := who :: c.inside }
    | .error _ => some c
  | .halt => some { c with control := c.control.halt }
  | .finish who =>
    if who ∈ c.inside then some { control := c.control.finish, inside := c.inside.erase who }
    else none

/-- Nobody begins between the halt of a run and its end. -/
def Patient (c : Callers) : Act → Prop
  | .begin _ => c.inside = [] ∨ c.control.state ≠ .halted
  | _ => True

instance (c : Callers) (act : Act) : Decidable (c.Patient act) := by
  unfold Patient
  split <;> infer_instance

variable {c d : Callers} {act : Act} {who first : Nat} {control : Control}

/-! ## Steps -/

@[simp]
theorem state_halt : control.halt.state = .halted := rfl

@[simp]
theorem state_finish : control.finish.state = .idle := rfl

theorem begin_of_idle (idle : control.state = .idle) :
    control.begin = .ok (.run, { control with state := .running }) := by
  simp [Control.begin, idle]

/-- A halted control lets everyone pass through the hooks, whoever is inside. -/
theorem begin_of_halted (halted : control.state = .halted) :
    control.begin = .ok (.earlyExit, control) := by
  simp [Control.begin, halted]

theorem begin_of_running (running : control.state = .running) :
    control.begin = .error .alreadyRunning := by
  simp [Control.begin, running]

theorem step_finish (inside : who ∈ c.inside) :
    c.step (.finish who) = some { control := c.control.finish, inside := c.inside.erase who } := by
  simp [step, inside]

/-! ## The invariant -/

/-- The control is idle while nobody is inside, except after a halt, and running while somebody is,
except after a halt; and there is at most one. -/
structure Single (c : Callers) : Prop where
  few : c.inside.length ≤ 1
  busy : c.inside ≠ [] → c.control.state ≠ .idle
  taken : c.control.state = .running → c.inside ≠ []

theorem single_initial : Single {} := by
  constructor <;> simp

theorem Single.begin (single : c.Single) (patient : c.Patient (.begin who))
    (made : c.step (.begin who) = some d) : d.Single := by
  cases state : c.control.state with
  | idle =>
      -- nobody is inside an idle control
      have empty : c.inside = [] := by
        refine Classical.byContradiction fun occupied => ?_
        exact single.busy occupied state
      simp only [step, begin_of_idle state, Option.some.injEq] at made
      subst made
      constructor <;> simp [empty]
  | halted =>
      have empty : c.inside = [] := patient.resolve_right fun other => other state
      simp only [step, begin_of_halted state, Option.some.injEq] at made
      subst made
      constructor <;> simp [empty, state]
  | running =>
      simp only [step, begin_of_running state, Option.some.injEq] at made
      subst made
      exact single

theorem Single.halt (single : c.Single) (made : c.step .halt = some d) : d.Single := by
  simp only [step, Option.some.injEq] at made
  subst made
  constructor
  · exact single.few
  · simp
  · simp

theorem Single.finish (single : c.Single) (made : c.step (.finish who) = some d) : d.Single := by
  simp only [step] at made
  split at made
  · rename_i inside
    cases made
    -- the one that was inside is gone
    have length := List.length_erase_of_mem inside
    have few := single.few
    have empty : c.inside.erase who = [] := by
      apply List.eq_nil_of_length_eq_zero
      omega
    constructor <;> simp [empty]
  · cases made

theorem single_of_step (single : c.Single) (patient : c.Patient act) (made : c.step act = some d) :
    d.Single := by
  cases act with
  | begin who => exact single.begin patient made
  | halt => exact single.halt made
  | finish who => exact single.finish made

theorem single_of_reaches (reached : Reaches step Patient {} c) : c.Single :=
  reached.invariant single_initial fun single patient made => single_of_step single patient made

/-! ## Runs and callers -/

/-- A run that was not halted keeps everyone out. -/
theorem Single.refuses (single : c.Single) (occupied : c.inside ≠ []) (going : c.control.state ≠ .halted) :
    c.control.begin = .error .alreadyRunning := by
  cases state : c.control.state with
  | idle => exact absurd state (single.busy occupied)
  | halted => exact absurd state going
  | running => exact begin_of_running state

/-- A caller that comes while a halted run goes on is let in; when it leaves, the control is idle
although the run goes on, and the next caller begins a full run beside it. -/
theorem Single.intruded (single : c.Single) (occupied : c.inside ≠ []) (halted : c.control.state = .halted)
    (who : Nat) :
    ∃ d e first, c.inside = [first] ∧ c.step (.begin who) = some d ∧ d.inside = [who, first] ∧
      d.step (.finish who) = some e ∧ e.inside = [first] ∧ e.control.isRunning = false ∧
      ∃ control, e.control.begin = .ok (.run, control) := by
  obtain ⟨first, only⟩ : ∃ first, c.inside = [first] := by
    apply List.length_eq_one_iff.mp
    have := List.length_pos_iff.mpr occupied
    have := single.few
    omega
  have entered : c.step (.begin who) = some { control := c.control, inside := [who, first] } := by
    simp [step, begin_of_halted halted, only]
  have left : step { control := c.control, inside := [who, first] } (.finish who) = some _ :=
    step_finish List.mem_cons_self
  refine ⟨_, _, first, only, entered, rfl, left, ?_, rfl, _, begin_of_idle rfl⟩
  simp

/-- Wherever patient callers come, at most one of them is inside; as long as its run is not halted
everyone else is refused, and the processor counts as running until it leaves.  And patience is needed:
whoever begins between the halt of a run and its end gets in, and takes the run's place in the control
when it leaves. -/
theorem active_runs_exclude_others (reached : Reaches step Patient {} c) :
    c.inside.length ≤ 1 ∧
    (c.inside ≠ [] → c.control.state ≠ .halted → c.control.begin = .error .alreadyRunning) ∧
    (c.inside ≠ [] → c.control.isRunning = true) ∧
    ∀ who, ¬ c.Patient (.begin who) → ∃ d e first, c.inside = [first] ∧
      c.step (.begin who) = some d ∧ d.inside = [who, first] ∧
      d.step (.finish who) = some e ∧ e.inside = [first] ∧ e.control.isRunning = false ∧
      ∃ control, e.control.begin = .ok (.run, control) := by
  have single := single_of_reaches reached
  refine ⟨single.few, fun occupied going => single.refuses occupied going, ?_, ?_⟩
  · intro occupied
    simpa [Control.isRunning] using single.busy occupied
  · intro who impatient
    obtain ⟨occupied, halted⟩ := not_or.mp impatient
    exact single.intruded occupied (Classical.not_not.mp halted) who

/-- A run that is halted: nobody else is inside, it counts as running, and whoever begins now gets
in. -/
theorem active_runs_exclude_others_halted :
    ∃ c : Callers, Reaches step Patient {} c ∧ c.inside = [0] ∧ c.control.isRunning = true ∧
      ∃ d e, c.step (.begin 1) = some d ∧ d.inside = [1, 0] ∧ d.step (.finish 1) = some e ∧
        e.inside = [0] ∧ e.control.isRunning = false := by
  have walked : ∃ c : Callers, walk step Patient {} [.begin 0, .begin 1, .halt] = some c ∧
      c.inside = [0] ∧ ¬ c.Patient (.begin 1) := ⟨_, rfl, rfl, by decide⟩
  obtain ⟨c, walked, inside, impatient⟩ := walked
  have reached := reaches_of_walk walked
  obtain ⟨-, -, running, intruded⟩ := active_runs_exclude_others reached
  obtain ⟨d, e, first, only, entered, both, left, rest, idle, -⟩ := intruded 1 impatient
  obtain rfl : first = 0 := by simpa [inside] using only.symm
  refine ⟨c, reached, inside, running ?_, d, e, entered, both, left, rest, idle⟩
  simp [inside]

/-- Without patience two callers are inside, and later both have runs that are not halted. -/
theorem halted_run_admits_another :
    (∃ d, [.begin 0, .halt, .begin 1].foldlM step {} = some d ∧ d.inside = [1, 0]) ∧
    ∃ e, [.begin 0, .halt, .begin 1, .finish 1, .begin 2].foldlM step {} = some e ∧
      e.inside = [2, 0] ∧ e.control.state = .running :=
  ⟨⟨_, rfl, rfl⟩, _, rfl, rfl, rfl⟩

end Callers

end EventRing
