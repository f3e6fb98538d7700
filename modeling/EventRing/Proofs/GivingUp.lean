import EventRing.Barrier
import EventRing.Proofs.Consuming
/-!
# EventRing.Proofs.GivingUp

Waits with a deadline for something that does not come.  Nobody else acts while such a wait lasts, so its
looks differ in two things only: whether the waiter was woken, which happens for no reason a few times, and
whether its deadline has passed, which it has from some look on (`Undisturbed`).

A waiter that yields gives up in any case.  One that parks or suspends gives up as long as the cursor is
short of what it waits for.  Behind the cursor it spins or follows, and there it does not read the clock: a
wait for consumers in front that are stuck there lasts for ever.
-/

namespace EventRing

namespace Wait

variable {target : Int} {o sight : Observation} {sights : Nat → Observation} {phase next : Phase}

/-! ## Looks while nobody acts -/

/-- A look finds the same as another, wakings and the clock apart. -/
structure Observation.Same (o sight : Observation) : Prop where
  cursor : sight.cursor = o.cursor
  value : sight.value = o.value
  cancelled : sight.cancelled = o.cancelled

/-- Nothing moves while a waiter looks again and again; from some look on its deadline has passed and it is
not woken any more. -/
structure Undisturbed (o : Observation) (sights : Nat → Observation) : Prop where
  same : ∀ n, o.Same (sights n)
  passes : ∃ late, ∀ n, late ≤ n → (sights n).expired = true ∧ (sights n).woken = false

namespace Phase

/-- What a wait has come to after some looks. -/
def after (target : Int) (sights : Nat → Observation) (phase : Phase) : Nat → Phase ⊕ Outcome
  | 0 => .inl phase
  | n + 1 =>
    match after target sights phase n with
    | .inl phase => phase.step target (sights n)
    | .inr outcome => .inr outcome

theorem after_succ_of_phase {n : Nat} (h : after target sights phase n = .inl next) :
    after target sights phase (n + 1) = next.step target (sights n) := by
  rw [after, h]

/-- In this phase a waiter that finds nothing gives up at its deadline. -/
def Limited (target : Int) (o : Observation) : Phase → Prop
  | .budgeted _ => True
  | .arriving timed | .gated timed _ | .listening timed | .suspended timed =>
    timed = true ∧ o.cursor < target
  | _ => False

/-- In this phase a waiter that finds nothing stays for ever. -/
def Unlimited (target : Int) (o : Observation) : Phase → Prop
  | .spinning | .following => True
  | .arriving _ | .listening _ => target ≤ o.cursor
  | _ => False

/-- How many more steps a waiter makes that gives up at its deadline, if it is not woken. -/
def stepsLeft : Phase → Nat
  | .budgeted left => left + 1
  | .arriving _ => 4
  | .gated _ .looking => 3
  | .gated _ .parked => 2
  | .gated _ .lastLook => 1
  | .listening _ => 2
  | .suspended _ => 1
  | _ => 0

/-! ## One step -/

theorem look_of_short (short : o.value < target) (armed : o.cancelled = false) (same : o.Same sight) :
    look target sight next = .inl next := by
  unfold look
  rw [same.value, same.cancelled, armed, if_neg (Int.not_le.mpr short)]
  rfl

/-- A limited wait goes on limited or times out, and it comes nearer to that unless it is woken. -/
theorem limited_step (short : o.value < target) (armed : o.cancelled = false) (same : o.Same sight)
    (limited : phase.Limited target o) :
    phase.step target sight = .inr .timeout ∨
      ∃ next, phase.step target sight = .inl next ∧ next.Limited target o ∧
        (sight.expired = true → sight.woken = false → next.stepsLeft < phase.stepsLeft) := by
  cases phase with
  | budgeted left =>
      cases left with
      | zero =>
          have stays : step target sight (.budgeted 0) =
              if sight.expired then .inr .timeout else .inl (.budgeted 0) := by
            simp [step, look_of_short short armed same]
          rw [stays]
          by_cases late : sight.expired = true
          · exact Or.inl (if_pos late)
          · exact Or.inr ⟨_, if_neg late, trivial, fun expired => absurd expired late⟩
      | succ left =>
          exact Or.inr ⟨.budgeted left, look_of_short short armed same, trivial,
            fun _ _ => Nat.lt_succ_self _⟩
  | arriving timed =>
      obtain ⟨rfl, ahead⟩ := limited
      refine Or.inr ⟨.gated true .looking, ?_, ⟨rfl, ahead⟩, fun _ _ => by decide⟩
      simp [step, same.cursor, ahead]
  | gated timed gate =>
      obtain ⟨rfl, ahead⟩ := limited
      cases gate with
      | looking =>
          refine Or.inr ⟨.gated true .parked, ?_, ⟨rfl, ahead⟩, fun _ _ => by decide⟩
          simp [step, Gate.step, same.cursor, ahead, same.cancelled, armed]
      | parked =>
          by_cases woken : sight.woken = true
          · refine Or.inr ⟨.gated true .looking, ?_, ⟨rfl, ahead⟩, fun _ still => ?_⟩
            · simp [step, Gate.step, woken]
            · exact absurd (woken.symm.trans still) (by decide)
          · by_cases late : sight.expired = true
            · refine Or.inr ⟨.gated true .lastLook, ?_, ⟨rfl, ahead⟩, fun _ _ => by decide⟩
              simp [step, Gate.step, woken, late]
            · refine Or.inr ⟨.gated true .parked, ?_, ⟨rfl, ahead⟩, fun expired => absurd expired late⟩
              simp [step, Gate.step, woken, late]
      | lastLook =>
          left
          simp [step, Gate.step, same.cursor, ahead]
  | listening timed =>
      obtain ⟨rfl, ahead⟩ := limited
      refine Or.inr ⟨.suspended true, ?_, ⟨rfl, ahead⟩, fun _ _ => by decide⟩
      simp [step, same.cancelled, armed, same.cursor, ahead]
  | suspended timed =>
      obtain ⟨rfl, ahead⟩ := limited
      by_cases woken : sight.woken = true
      · refine Or.inr ⟨.listening true, ?_, ⟨rfl, ahead⟩, fun _ still => ?_⟩
        · simp [step, woken]
        · exact absurd (woken.symm.trans still) (by decide)
      · by_cases late : sight.expired = true
        · left
          simp [step, woken, late]
        · refine Or.inr ⟨.suspended true, ?_, ⟨rfl, ahead⟩, fun expired => absurd expired late⟩
          simp [step, woken, late]
  | _ => cases limited

/-- An unlimited wait goes on unlimited. -/
theorem unlimited_step (short : o.value < target) (armed : o.cancelled = false) (same : o.Same sight)
    (unlimited : phase.Unlimited target o) :
    ∃ next, phase.step target sight = .inl next ∧ next.Unlimited target o := by
  cases phase with
  | spinning => exact ⟨.spinning, look_of_short short armed same, trivial⟩
  | following =>
      refine ⟨.following, ?_, trivial⟩
      simp [step, same.cancelled, armed, same.value, short]
  | arriving timed =>
      have there : target ≤ o.cursor := unlimited
      refine ⟨.spinning, ?_, trivial⟩
      simp [step, same.cursor, there]
  | listening timed =>
      have there : target ≤ o.cursor := unlimited
      refine ⟨.following, ?_, trivial⟩
      simp [step, same.cancelled, armed, same.cursor, there]
  | _ => cases unlimited

/-! ## Whole waits -/

/-- A limited wait stays limited until it times out. -/
theorem limited_after (short : o.value < target) (armed : o.cancelled = false)
    (same : ∀ n, o.Same (sights n)) (limited : phase.Limited target o) (n : Nat) :
    after target sights phase n = .inr .timeout ∨
      ∃ next, after target sights phase n = .inl next ∧ next.Limited target o := by
  induction n with
  | zero => exact Or.inr ⟨phase, rfl, limited⟩
  | succ n ih =>
      unfold after
      rcases ih with ended | ⟨there, here, limited⟩
      · rw [ended]
        exact Or.inl rfl
      · rw [here]
        rcases limited_step short armed (same n) limited with ended | ⟨next, onwards, limited, -⟩
        · exact Or.inl ended
        · exact Or.inr ⟨next, onwards, limited⟩

/-- A limited wait times out. -/
theorem limited_gives_up (short : o.value < target) (armed : o.cancelled = false)
    (undisturbed : Undisturbed o sights) (limited : phase.Limited target o) :
    ∃ n, after target sights phase n = .inr .timeout := by
  obtain ⟨same, late, passes⟩ := undisturbed
  -- behind the deadline, on how many steps are left
  have nearer (left n : Nat) (there : Phase) (behind : late ≤ n)
      (here : after target sights phase n = .inl there) (limited : there.Limited target o)
      (few : there.stepsLeft ≤ left) : ∃ n, after target sights phase n = .inr .timeout := by
    induction left generalizing n there with
    | zero =>
        rcases limited_step short armed (same n) limited with ended | ⟨next, -, -, less⟩
        · exact ⟨n + 1, (after_succ_of_phase here).trans ended⟩
        · have := less (passes n behind).1 (passes n behind).2
          omega
    | succ left ih =>
        rcases limited_step short armed (same n) limited with ended | ⟨next, onwards, limited, less⟩
        · exact ⟨n + 1, (after_succ_of_phase here).trans ended⟩
        · have := less (passes n behind).1 (passes n behind).2
          exact ih (n + 1) next (Nat.le_succ_of_le behind) ((after_succ_of_phase here).trans onwards)
            limited (by omega)
  rcases limited_after short armed same limited late with ended | ⟨there, here, limited⟩
  · exact ⟨late, ended⟩
  · exact nearer there.stepsLeft late there (Nat.le_refl late) here limited (Nat.le_refl _)

/-- An unlimited wait does not end. -/
theorem unlimited_after (short : o.value < target) (armed : o.cancelled = false)
    (same : ∀ n, o.Same (sights n)) (unlimited : phase.Unlimited target o) (n : Nat) :
    ∃ next, after target sights phase n = .inl next ∧ next.Unlimited target o := by
  induction n with
  | zero => exact ⟨phase, rfl, unlimited⟩
  | succ n ih =>
      obtain ⟨there, here, unlimited⟩ := ih
      rw [after_succ_of_phase here]
      exact unlimited_step short armed (same n) unlimited

end Phase

/-! ## Strategies -/

/-- The deadline of a strategy covers all of a wait, and not only the wait for the cursor. -/
def Strategy.boundsAll : Strategy → Bool
  | .timeoutYielding .. => true
  | _ => false

/-- A waiter with a deadline begins limited if the deadline covers all of the wait or the cursor is short. -/
theorem limited_begin {strategy : Strategy} (timed : strategy.budget.isSome = true)
    (covered : strategy.boundsAll = true ∨ o.cursor < target) (owner : Option String) (side : Side) :
    ((strategy.waiter owner).begin side).Limited target o := by
  have ahead (parks : strategy.boundsAll = false) : o.cursor < target := by
    rcases covered with all | ahead
    · exact absurd (parks.symm.trans all) (by decide)
    · exact ahead
  cases strategy with
  | timeoutBlocking ms => exact ⟨rfl, ahead rfl⟩
  | timeoutYielding ms tries => trivial
  | timeoutTask ms =>
      cases side with
      | thread => exact ⟨rfl, ahead rfl⟩
      | task => exact ⟨rfl, ahead rfl⟩
  | _ => cases timed

/-- Where the deadline does not cover all of the wait, a waiter that finds the cursor there begins
unlimited. -/
theorem unlimited_begin {strategy : Strategy} (timed : strategy.budget.isSome = true)
    (parks : strategy.boundsAll = false) (there : target ≤ o.cursor) (owner : Option String) (side : Side) :
    ((strategy.waiter owner).begin side).Unlimited target o := by
  cases strategy with
  | timeoutBlocking ms => exact there
  | timeoutYielding ms tries => cases parks
  | timeoutTask ms =>
      cases side with
      | thread => exact there
      | task => exact there
  | _ => cases timed

end Wait

namespace Barrier

open Wait (Strategy Side Undisturbed)

variable {g : Geometry} {s : Sequencer g} {b : Barrier} {strategy : Strategy} {target : Int}
  {sights : Nat → Wait.Observation}

/-- A wait at a barrier with a deadline, for something that does not come: it begins, and it times out, which
the barrier passes on, if the strategy yields or the cursor is short.  Otherwise it lasts for ever. -/
theorem timed_waits_give_up {owner : Option String} (waiter : b.waiter = strategy.waiter owner)
    (timed : strategy.budget.isSome = true) (armed : b.cancelled = false) (short : b.value s < target)
    (undisturbed : Undisturbed (b.observe s) sights) (side : Side) :
    b.enter side target s = .inl (b.waiter.begin side) ∧
      (strategy.boundsAll = true ∨ s.cursor < target →
        (∃ n, Wait.Phase.after target sights (b.waiter.begin side) n = .inr .timeout) ∧
          b.published s target .timeout = .ok .timeout) ∧
      (strategy.boundsAll = false → target ≤ s.cursor →
        ∀ n outcome, Wait.Phase.after target sights (b.waiter.begin side) n ≠ .inr outcome) := by
  refine ⟨?_, fun covered => ⟨?_, rfl⟩, fun parks there n outcome ended => ?_⟩
  · unfold enter
    rw [armed, if_neg (Int.not_le.mpr short)]
    rfl
  · rw [waiter]
    exact Wait.Phase.limited_gives_up short armed undisturbed (Wait.limited_begin timed covered owner side)
  · rw [waiter] at ended
    obtain ⟨next, lasts, -⟩ := Wait.Phase.unlimited_after short armed undisturbed.same
      (Wait.unlimited_begin timed parks there owner side) n
    rw [lasts] at ended
    cases ended

theorem three_le_bits : 3 ≤ 62 := by decide

/-- A sequencer with everything up to 5 published, and a consumer that is stuck at 2. -/
def stuckAtTwo : Sequencer ⟨3, three_le_bits⟩ :=
  { Sequencer.fresh _ .one true with cursor := 5, counters := ⟨#[2]⟩ }

/-- A barrier behind that consumer, with a strategy that parks and gives up after a millisecond. -/
def behindStuck : Barrier := make stuckAtTwo (Strategy.waiter none (.timeoutBlocking 1)) [0]

/-- The looks of a waiter there whose deadline has passed. -/
def lateLooks : Nat → Wait.Observation := fun _ => { behindStuck.observe stuckAtTwo with expired := true }

theorem undisturbed_lateLooks : Undisturbed (behindStuck.observe stuckAtTwo) lateLooks :=
  ⟨fun _ => ⟨rfl, rfl, rfl⟩, 0, fun _ _ => ⟨rfl, rfl⟩⟩

/-- A wait for the event behind the cursor gives up, and one for an event that is published does not. -/
theorem timed_waits_give_up_behind_stuck :
    behindStuck.enter .thread 6 stuckAtTwo = .inl (.arriving true) ∧
      (∃ n, Wait.Phase.after 6 lateLooks (.arriving true) n = .inr .timeout) ∧
      ∀ n outcome, Wait.Phase.after 4 lateLooks (.arriving true) n ≠ .inr outcome := by
  have waiter : behindStuck.waiter = Strategy.waiter none (.timeoutBlocking 1) := rfl
  have timed : (Strategy.timeoutBlocking 1).budget.isSome = true := rfl
  have short : behindStuck.value stuckAtTwo < 4 := by decide
  have shorter : behindStuck.value stuckAtTwo < 6 := by decide
  obtain ⟨begins, ends, -⟩ := timed_waits_give_up waiter timed rfl shorter undisturbed_lateLooks .thread
  obtain ⟨-, -, lasts⟩ := timed_waits_give_up waiter timed rfl short undisturbed_lateLooks .thread
  exact ⟨begins, (ends (Or.inr (by decide))).1, lasts rfl (by decide)⟩

/-- A wait with a deadline for an event that is published, behind a consumer that is stuck before it, does not
give up. -/
theorem parked_waits_outlast_their_deadline :
    (Strategy.timeoutBlocking 1).budget = some 1 ∧ behindStuck.cancelled = false ∧
      behindStuck.value stuckAtTwo < 4 ∧ Undisturbed (behindStuck.observe stuckAtTwo) lateLooks ∧
      behindStuck.enter .thread 4 stuckAtTwo = .inl (.arriving true) ∧
      ¬ ∃ n, Wait.Phase.after 4 lateLooks (.arriving true) n = .inr .timeout := by
  have short : behindStuck.value stuckAtTwo < 4 := by decide
  have there : (Wait.Phase.arriving true).Unlimited 4 (behindStuck.observe stuckAtTwo) := by
    show (4 : Int) ≤ stuckAtTwo.cursor
    decide
  refine ⟨rfl, rfl, short, undisturbed_lateLooks, by decide, fun ⟨n, ended⟩ => ?_⟩
  obtain ⟨next, lasts, -⟩ := Wait.Phase.unlimited_after short rfl undisturbed_lateLooks.same there n
  rw [lasts] at ended
  cases ended

end Barrier

end EventRing
