import EventRing.Proofs.GivingUp
/-!
# EventRing.Proofs.Spinning

Strategies that spin differ in how they pass the time between two looks, and in nothing that a consumer can
tell.  A look decides a wait if it finds the sequence or the cancellation (`Verdict`), and is fruitless
otherwise.  All waiters that spin end at the first look that decides, and with what that look says.  One with
a deadline may time out before, at a fruitless look that comes after its tries.

The pauses are counted down on the way.  `paused` is the countdown with every subtraction checked: no wait
comes to a phase in which it breaks off.

While nothing moves, a waiter that parks ends like one that spins, if no consumer in front is ahead of the
cursor.
-/

namespace EventRing

namespace Wait

variable {target : Int} {o sight : Observation} {sights others : Nat → Observation}
  {phase next here : Phase} {outcome other : Outcome} {tries k n : Nat}

/-! ## What a look tells -/

/-- A look that finds neither the sequence nor the cancellation. -/
structure Fruitless (target : Int) (o : Observation) : Prop where
  short : o.value < target
  armed : o.cancelled = false

/-- What a look tells that decides a wait: the sequence counts before the cancellation. -/
inductive Verdict (target : Int) (o : Observation) : Outcome → Prop
  | available (there : target ≤ o.value) : Verdict target o (.available o.value)
  | cancelled (short : o.value < target) (cancelled : o.cancelled = true) : Verdict target o .cancelled

theorem fruitless_or_verdict (target : Int) (o : Observation) :
    Fruitless target o ∨ ∃ outcome, Verdict target o outcome := by
  by_cases there : target ≤ o.value
  · exact Or.inr ⟨_, .available there⟩
  · have short := Int.not_le.mp there
    cases armed : o.cancelled with
    | true => exact Or.inr ⟨_, .cancelled short armed⟩
    | false => exact Or.inl ⟨short, armed⟩

theorem Fruitless.of_same (fruitless : Fruitless target o) (same : o.Same sight) : Fruitless target sight :=
  ⟨same.value ▸ fruitless.short, same.cancelled.trans fruitless.armed⟩

theorem Verdict.of_same (tells : Verdict target o outcome) (same : o.Same sight) :
    Verdict target sight outcome := by
  cases tells with
  | available there =>
      rw [← same.value] at there ⊢
      exact .available there
  | cancelled short cancelled => exact .cancelled (same.value ▸ short) (same.cancelled.trans cancelled)

theorem Observation.Same.symm (same : o.Same sight) : sight.Same o :=
  ⟨same.cursor.symm, same.value.symm, same.cancelled.symm⟩

namespace Phase

theorem look_of_fruitless (fruitless : Fruitless target o) : look target o next = .inl next :=
  look_of_short fruitless.short fruitless.armed ⟨rfl, rfl, rfl⟩

theorem look_of_verdict (tells : Verdict target o outcome) : look target o next = .inr outcome := by
  unfold look
  cases tells with
  | available there => exact if_pos there
  | cancelled short cancelled => rw [if_neg (Int.not_le.mpr short), if_pos cancelled]

theorem eq_of_look (goesOn : look target o next = .inl here) : here = next := by
  rcases fruitless_or_verdict target o with fruitless | ⟨outcome, tells⟩
  · rw [look_of_fruitless fruitless] at goesOn
    exact (Sum.inl.inj goesOn).symm
  · rw [look_of_verdict tells] at goesOn
    cases goesOn

/-! ## Ends of waits -/

/-- The wait ends at look `k`. -/
def Ends (target : Int) (sights : Nat → Observation) (phase : Phase) (k : Nat) (outcome : Outcome) : Prop :=
  ∃ here, after target sights phase k = .inl here ∧ here.step target (sights k) = .inr outcome

/-- The wait goes on after `n` looks. -/
def Lasts (target : Int) (sights : Nat → Observation) (phase : Phase) (n : Nat) : Prop :=
  ∃ here, after target sights phase n = .inl here

theorem Ends.after_eq (ends : phase.Ends target sights k outcome) :
    after target sights phase (k + 1) = .inr outcome := by
  obtain ⟨here, there, ended⟩ := ends
  rw [after_succ_of_phase there, ended]

/-- What has ended stays ended. -/
theorem after_of_ended (ended : after target sights phase n = .inr outcome) (more : Nat) :
    after target sights phase (n + more) = .inr outcome := by
  induction more with
  | zero => exact ended
  | succ more ih => rw [← Nat.add_assoc, after, ih]

theorem Ends.not_lasts (ends : phase.Ends target sights k outcome) (later : k < n) :
    ¬ phase.Lasts target sights n := by
  rintro ⟨here, lasts⟩
  obtain ⟨more, rfl⟩ := Nat.exists_eq_add_of_lt later
  rw [Nat.add_right_comm, after_of_ended ends.after_eq] at lasts
  cases lasts

/-- A wait ends once. -/
theorem Ends.unique (ends : phase.Ends target sights k outcome) (again : phase.Ends target sights n other) :
    k = n ∧ outcome = other := by
  have lasts : phase.Lasts target sights k := ends.imp fun _ there => there.1
  have lasted : phase.Lasts target sights n := again.imp fun _ there => there.1
  have same : k = n := by
    rcases Nat.lt_trichotomy k n with before | same | behind
    · exact absurd lasted (ends.not_lasts before)
    · exact same
    · exact absurd lasts (again.not_lasts behind)
  subst same
  exact ⟨rfl, Sum.inr.inj (ends.after_eq.symm.trans again.after_eq)⟩

/-- If one rule closes a wait whenever it does not last, the wait ends as the rule has it. -/
theorem ends_iff_of_closes {closes : Nat → Outcome → Prop}
    (sound : ∀ k outcome, closes k outcome → phase.Ends target sights k outcome)
    (total : ∀ n, phase.Lasts target sights n ∨ ∃ k < n, ∃ outcome, closes k outcome) :
    phase.Ends target sights k outcome ↔ closes k outcome := by
  refine ⟨fun ends => ?_, sound k outcome⟩
  rcases total (k + 1) with lasts | ⟨i, -, other, closed⟩
  · exact absurd lasts (ends.not_lasts (Nat.lt_succ_self k))
  · obtain ⟨rfl, rfl⟩ := ends.unique (sound i other closed)
    exact closed

/-- What some looks come to depends on those looks alone. -/
theorem after_congr (same : ∀ i < n, others i = sights i) :
    after target others phase n = after target sights phase n := by
  induction n with
  | zero => rfl
  | succ n ih =>
      rw [after, after, ih fun i before => same i (Nat.lt_succ_of_lt before), same n (Nat.lt_succ_self n)]

/-! ## The countdown -/

/-- One less, where there is something to take from. -/
def lowered : Nat → Option Nat
  | 0 => none
  | left + 1 => some left

/-- Where a waiter that spins goes on after a fruitless look, with every subtraction checked. -/
def paused : Phase → Option Phase
  | .backingOff backoff => some (.backingOff backoff.snooze)
  | .yielding left => if left = 0 then some (.yielding left) else (lowered left).map .yielding
  | .sleeping retries left =>
    if retries / 2 < left then (lowered left).map (.sleeping retries)
    else if 0 < left then (lowered left).map (.sleeping retries)
    else some (.sleeping retries left)
  | .budgeted left => if left = 0 then some (.budgeted left) else (lowered left).map .budgeted
  | phase => some phase

theorem lowered_of_pos {left : Nat} (pos : 0 < left) : lowered left = some (left - 1) := by
  cases left with
  | zero => cases pos
  | succ left => rfl

theorem paused_yielding (left : Nat) : paused (.yielding left) = some (.yielding (left - 1)) := by
  unfold paused
  cases left with
  | zero => rfl
  | succ left => rfl

theorem paused_budgeted (left : Nat) : paused (.budgeted left) = some (.budgeted (left - 1)) := by
  unfold paused
  cases left with
  | zero => rfl
  | succ left => rfl

theorem paused_sleeping (retries left : Nat) :
    paused (.sleeping retries left) = some (.sleeping retries (napped retries left)) := by
  simp only [paused, napped]
  by_cases upper : retries / 2 < left
  · rw [if_pos upper, if_pos upper, lowered_of_pos (Nat.zero_lt_of_lt upper)]
    rfl
  · rw [if_neg upper, if_neg upper]
    by_cases some : 0 < left
    · rw [if_pos some, if_pos some, lowered_of_pos some]
      rfl
    · rw [if_neg some, if_neg some]

/-- No phase that the wait comes to breaks the countdown off, and if the wait goes on, it goes on there. -/
def CountsDown (target : Int) (sights : Nat → Observation) (phase : Phase) : Prop :=
  ∀ n here, after target sights phase n = .inl here →
    ∃ next, here.paused = some next ∧
      ∀ later, after target sights phase (n + 1) = .inl later → later = next

/-! ## Waiters that spin -/

/-- A phase of a waiter that spins, without a deadline. -/
def Spins : Phase → Prop
  | .spinning | .backingOff _ | .yielding _ | .sleeping _ _ => True
  | _ => False

/-- A waiter that spins does nothing but look; what it counts is no part of a look. -/
theorem step_of_spins (target : Int) (spins : phase.Spins) :
    ∃ next, next.Spins ∧ phase.paused = some next ∧
      ∀ sight, phase.step target sight = look target sight next := by
  cases phase with
  | spinning => exact ⟨.spinning, trivial, rfl, fun _ => rfl⟩
  | backingOff backoff => exact ⟨.backingOff backoff.snooze, trivial, rfl, fun _ => rfl⟩
  | yielding left => exact ⟨.yielding (left - 1), trivial, paused_yielding left, fun _ => rfl⟩
  | sleeping retries left =>
      exact ⟨.sleeping retries (napped retries left), trivial, paused_sleeping retries left, fun _ => rfl⟩
  | _ => cases spins

/-- A waiter that spins goes on as long as its looks are fruitless. -/
theorem after_of_fruitless (spins : phase.Spins) (fruitless : ∀ i < n, Fruitless target (sights i)) :
    ∃ here, here.Spins ∧ after target sights phase n = .inl here := by
  induction n with
  | zero => exact ⟨phase, spins, rfl⟩
  | succ n ih =>
      obtain ⟨here, spins, there⟩ := ih fun i before => fruitless i (Nat.lt_succ_of_lt before)
      obtain ⟨next, spins, -, looks⟩ := step_of_spins target spins
      refine ⟨next, spins, ?_⟩
      rw [after_succ_of_phase there, looks, look_of_fruitless (fruitless n (Nat.lt_succ_self n))]

/-- The first look that decides. -/
structure Decides (target : Int) (sights : Nat → Observation) (k : Nat) (outcome : Outcome) : Prop where
  fruitless : ∀ i < k, Fruitless target (sights i)
  tells : Verdict target (sights k) outcome

theorem Decides.ends (spins : phase.Spins) (decides : Decides target sights k outcome) :
    phase.Ends target sights k outcome := by
  obtain ⟨here, spins, there⟩ := after_of_fruitless spins decides.fruitless
  obtain ⟨next, -, -, looks⟩ := step_of_spins target spins
  exact ⟨here, there, (looks _).trans (look_of_verdict decides.tells)⟩

/-- Among some looks, one is the first that decides, or all are fruitless. -/
theorem fruitless_or_decides (target : Int) (sights : Nat → Observation) (n : Nat) :
    (∀ i < n, Fruitless target (sights i)) ∨ ∃ k < n, ∃ outcome, Decides target sights k outcome := by
  induction n with
  | zero => exact Or.inl fun i before => absurd before (Nat.not_lt_zero i)
  | succ n ih =>
      rcases ih with fruitless | ⟨k, before, outcome, decides⟩
      · rcases fruitless_or_verdict target (sights n) with last | ⟨outcome, tells⟩
        · refine Or.inl fun i before => ?_
          rcases Nat.lt_succ_iff_lt_or_eq.mp before with earlier | rfl
          · exact fruitless i earlier
          · exact last
        · exact Or.inr ⟨n, Nat.lt_succ_self n, outcome, fruitless, tells⟩
      · exact Or.inr ⟨k, Nat.lt_succ_of_lt before, outcome, decides⟩

/-- A waiter that spins ends with the first look that decides. -/
theorem ends_iff_of_spins (spins : phase.Spins) :
    phase.Ends target sights k outcome ↔ Decides target sights k outcome := by
  apply ends_iff_of_closes
  · intro k outcome decides
    exact decides.ends spins
  · intro n
    rcases fruitless_or_decides target sights n with fruitless | decided
    · obtain ⟨here, -, there⟩ := after_of_fruitless spins fruitless
      exact Or.inl ⟨here, there⟩
    · exact Or.inr decided

theorem lasts_iff_of_spins (spins : phase.Spins) :
    phase.Lasts target sights n ↔ ∀ i < n, Fruitless target (sights i) := by
  constructor
  · intro lasts
    rcases fruitless_or_decides target sights n with fruitless | ⟨k, before, outcome, decides⟩
    · exact fruitless
    · exact absurd lasts ((decides.ends spins).not_lasts before)
  · intro fruitless
    obtain ⟨here, -, there⟩ := after_of_fruitless spins fruitless
    exact ⟨here, there⟩

theorem countsDown_of_spins (spins : phase.Spins) : phase.CountsDown target sights := by
  intro n here there
  obtain ⟨reached, spins, alike⟩ := after_of_fruitless spins ((lasts_iff_of_spins spins).mp ⟨here, there⟩)
  cases there.symm.trans alike
  obtain ⟨next, -, pauses, looks⟩ := step_of_spins target spins
  refine ⟨next, pauses, fun later goesOn => ?_⟩
  rw [after_succ_of_phase there, looks] at goesOn
  exact eq_of_look goesOn

/-! ## A waiter that spins with a deadline -/

/-- A fruitless look after all tries, behind the deadline. -/
structure Lapses (target : Int) (tries : Nat) (sights : Nat → Observation) (k : Nat) : Prop where
  used : tries ≤ k
  expired : (sights k).expired = true
  fruitless : ∀ i ≤ k, Fruitless target (sights i)

/-- How a wait with a deadline ends: with the first look that decides, unless it times out before. -/
structure Closes (target : Int) (tries : Nat) (sights : Nat → Observation) (k : Nat) (outcome : Outcome) :
    Prop where
  ends : Decides target sights k outcome ∨ outcome = .timeout ∧ Lapses target tries sights k
  first : ∀ i < k, ¬ Lapses target tries sights i

/-- With tries left, or before the deadline, the waiter does nothing but look. -/
theorem step_budgeted {left : Nat} (runs : ¬ (left = 0 ∧ sight.expired = true)) :
    step target sight (.budgeted left) = look target sight (.budgeted (left - 1)) := by
  cases left with
  | zero =>
      simp only [step]
      cases looked : look target sight (.budgeted 0) with
      | inl next => exact if_neg fun late => runs ⟨rfl, late⟩
      | inr outcome => rfl
  | succ left => rfl

theorem step_budgeted_zero (fruitless : Fruitless target sight) (late : sight.expired = true) :
    step target sight (.budgeted 0) = .inr .timeout := by
  simp only [step]
  rw [look_of_fruitless fruitless]
  exact if_pos late

/-- The look that decides is heard, whatever the clock tells. -/
theorem step_budgeted_of_verdict {left : Nat} (tells : Verdict target sight outcome) :
    step target sight (.budgeted left) = .inr outcome := by
  cases left with
  | zero =>
      simp only [step]
      rw [look_of_verdict tells]
  | succ left => exact look_of_verdict tells

theorem after_budgeted (fruitless : ∀ i < n, Fruitless target (sights i))
    (first : ∀ i < n, ¬ Lapses target tries sights i) :
    after target sights (.budgeted tries) n = .inl (.budgeted (tries - n)) := by
  induction n with
  | zero => rfl
  | succ n ih =>
      have last := Nat.lt_succ_self n
      rw [after_succ_of_phase (ih (fun i before => fruitless i (Nat.lt_succ_of_lt before))
        fun i before => first i (Nat.lt_succ_of_lt before)), step_budgeted, look_of_fruitless (fruitless n last)]
      · rfl
      · rintro ⟨used, late⟩
        exact first n last ⟨Nat.sub_eq_zero_iff_le.mp used, late,
          fun i upTo => fruitless i (Nat.lt_succ_of_le upTo)⟩

theorem Closes.ends_budgeted (closes : Closes target tries sights k outcome) :
    (budgeted tries).Ends target sights k outcome := by
  obtain ⟨decides | ⟨rfl, lapses⟩, first⟩ := closes
  · exact ⟨_, after_budgeted decides.fruitless first, step_budgeted_of_verdict decides.tells⟩
  · refine ⟨_, after_budgeted (fun i before => lapses.fruitless i (Nat.le_of_lt before)) first, ?_⟩
    rw [Nat.sub_eq_zero_iff_le.mpr lapses.used]
    exact step_budgeted_zero (lapses.fruitless k (Nat.le_refl k)) lapses.expired

/-- Among some looks, one closes the wait, or all are fruitless and none lapses. -/
theorem fruitless_or_closes (target : Int) (tries : Nat) (sights : Nat → Observation) (n : Nat) :
    (∀ i < n, Fruitless target (sights i) ∧ ¬ Lapses target tries sights i) ∨
      ∃ k < n, ∃ outcome, Closes target tries sights k outcome := by
  induction n with
  | zero => exact Or.inl fun i before => absurd before (Nat.not_lt_zero i)
  | succ n ih =>
      rcases ih with lasting | ⟨k, before, outcome, closes⟩
      · have first : ∀ i < n, ¬ Lapses target tries sights i := fun i before => (lasting i before).2
        have last := Nat.lt_succ_self n
        rcases fruitless_or_verdict target (sights n) with fruitless | ⟨outcome, tells⟩
        · by_cases lapses : Lapses target tries sights n
          · exact Or.inr ⟨n, last, .timeout, Or.inr ⟨rfl, lapses⟩, first⟩
          · refine Or.inl fun i before => ?_
            rcases Nat.lt_succ_iff_lt_or_eq.mp before with earlier | rfl
            · exact lasting i earlier
            · exact ⟨fruitless, lapses⟩
        · exact Or.inr ⟨n, last, outcome, Or.inl ⟨fun i before => (lasting i before).1, tells⟩, first⟩
      · exact Or.inr ⟨k, Nat.lt_succ_of_lt before, outcome, closes⟩

theorem ends_budgeted_iff :
    (budgeted tries).Ends target sights k outcome ↔ Closes target tries sights k outcome := by
  apply ends_iff_of_closes
  · intro k outcome closes
    exact closes.ends_budgeted
  · intro n
    rcases fruitless_or_closes target tries sights n with lasting | closed
    · exact Or.inl ⟨_, after_budgeted (fun i before => (lasting i before).1) fun i before => (lasting i before).2⟩
    · exact Or.inr closed

theorem countsDown_budgeted : (budgeted tries).CountsDown target sights := by
  intro n here there
  have reached : here = .budgeted (tries - n) := by
    rcases fruitless_or_closes target tries sights n with lasting | ⟨k, before, outcome, closes⟩
    · exact Sum.inl.inj (there.symm.trans
        (after_budgeted (fun i before => (lasting i before).1) fun i before => (lasting i before).2))
    · exact absurd ⟨here, there⟩ (closes.ends_budgeted.not_lasts before)
  subst reached
  refine ⟨_, paused_budgeted _, fun later goesOn => ?_⟩
  rw [after_succ_of_phase there] at goesOn
  rcases fruitless_or_verdict target (sights n) with fruitless | ⟨outcome, tells⟩
  · by_cases out : tries - n = 0 ∧ (sights n).expired = true
    · rw [out.1, step_budgeted_zero fruitless out.2] at goesOn
      cases goesOn
    · rw [step_budgeted out] at goesOn
      exact eq_of_look goesOn
  · rw [step_budgeted_of_verdict tells] at goesOn
    cases goesOn

/-! ## A waiter that parks, while nothing moves -/

/-- A phase in which a waiter that parks stays while its looks are fruitless. -/
def Parks : Phase → Prop
  | .spinning | .arriving false | .gated false .looking | .gated false .parked => True
  | _ => False

theorem parks_step (fruitless : Fruitless target sight) (parks : phase.Parks) :
    ∃ next, next.Parks ∧ phase.step target sight = .inl next := by
  match phase, parks with
  | .spinning, _ => exact ⟨.spinning, trivial, look_of_fruitless fruitless⟩
  | .arriving false, _ =>
      by_cases ahead : sight.cursor < target
      · exact ⟨.gated false .looking, trivial, if_pos ahead⟩
      · exact ⟨.spinning, trivial, if_neg ahead⟩
  | .gated false .looking, _ =>
      by_cases ahead : sight.cursor < target
      · refine ⟨.gated false .parked, trivial, ?_⟩
        simp [step, Gate.step, ahead, fruitless.armed]
      · refine ⟨.spinning, trivial, ?_⟩
        simp [step, Gate.step, ahead]
  | .gated false .parked, _ =>
      cases woken : sight.woken with
      | true =>
          refine ⟨.gated false .looking, trivial, ?_⟩
          simp [step, Gate.step, woken]
      | false =>
          refine ⟨.gated false .parked, trivial, ?_⟩
          simp [step, Gate.step, woken]

/-- While its looks are fruitless, a waiter that parks does not end. -/
theorem parks_after (fruitless : ∀ n, Fruitless target (sights n)) (parks : phase.Parks) (n : Nat) :
    ∃ here, here.Parks ∧ after target sights phase n = .inl here := by
  induction n with
  | zero => exact ⟨phase, parks, rfl⟩
  | succ n ih =>
      obtain ⟨here, parks, there⟩ := ih
      rw [after_succ_of_phase there]
      exact parks_step (fruitless n) parks

/-- What decides a wait while nothing moves ends it at the second look: the first is at the cursor. -/
theorem arriving_ends (behind : o.value ≤ o.cursor) (same : ∀ n, o.Same (sights n))
    (tells : Verdict target o outcome) : (arriving false).Ends target sights 1 outcome := by
  by_cases ahead : o.cursor < target
  · refine ⟨.gated false .looking, ?_, ?_⟩
    · simp [after, step, (same 0).cursor, ahead]
    · cases tells with
      | available there => omega
      | cancelled short cancelled =>
          simp [step, Gate.step, (same 1).cursor, ahead, (same 1).cancelled, cancelled]
  · refine ⟨.spinning, ?_, ?_⟩
    · simp [after, step, (same 0).cursor, ahead]
    · exact look_of_verdict (tells.of_same (same 1))

/-- While nothing moves, a waiter that parks ends with what all its looks say. -/
theorem arriving_ends_iff (behind : o.value ≤ o.cursor) (same : ∀ n, o.Same (sights n)) :
    (∃ k, (arriving false).Ends target sights k outcome) ↔ Verdict target o outcome := by
  constructor
  · rintro ⟨k, ends⟩
    rcases fruitless_or_verdict target o with fruitless | ⟨other, tells⟩
    · have parks : (arriving false).Parks := trivial
      obtain ⟨here, -, there⟩ := parks_after (fun n => fruitless.of_same (same n)) parks (k + 1)
      exact absurd ⟨here, there⟩ (ends.not_lasts (Nat.lt_succ_self k))
    · obtain ⟨-, rfl⟩ := ends.unique (arriving_ends behind same tells)
      exact tells
  · intro tells
    exact ⟨1, arriving_ends behind same tells⟩

/-- While nothing moves, a waiter that spins ends with what all its looks say. -/
theorem spins_ends_iff (spins : phase.Spins) (same : ∀ n, o.Same (sights n)) :
    (∃ k, phase.Ends target sights k outcome) ↔ Verdict target o outcome := by
  constructor
  · rintro ⟨k, ends⟩
    have decides := (ends_iff_of_spins spins).mp ends
    exact decides.tells.of_same (same k).symm
  · intro tells
    have decides : Decides target sights 0 outcome :=
      ⟨fun i before => absurd before (Nat.not_lt_zero i), tells.of_same (same 0)⟩
    exact ⟨0, decides.ends spins⟩

end Phase

/-! ## Strategies -/

/-- The waiters of the strategy spin, and have no deadline. -/
def Strategy.spins : Strategy → Bool
  | .busySpin | .yielding _ | .sleeping _ _ | .hybrid _ => true
  | _ => false

theorem spins_begin {strategy : Strategy} (spins : strategy.spins = true) (owner : Option String)
    (side : Side) : ((strategy.waiter owner).begin side).Spins := by
  cases strategy with
  | busySpin => trivial
  | yielding tries => trivial
  | sleeping retries nanoseconds => trivial
  | hybrid tags =>
      simp only [Strategy.waiter]
      by_cases aggressive : Strategy.isAggressive tags owner = true
      · rw [if_pos aggressive]
        trivial
      · rw [if_neg aggressive]
        trivial
  | _ => cases spins

end Wait

namespace Barrier

open Wait (Strategy Side Outcome Observation Fruitless)
open Wait.Phase (after Ends Lasts Decides Closes CountsDown)

variable {strategy : Strategy} {target : Int} {sights : Nat → Observation}

/-- What is behind consumers that are not ahead of the cursor is not ahead of it either. -/
theorem value_le_cursor {g : Geometry} {b : Barrier} {s : Sequencer g}
    (behind : ∀ id ∈ b.front, s.counters.value id ≤ s.cursor) : b.value s ≤ s.cursor := by
  unfold value
  cases front : b.front with
  | nil => exact Int.le_refl _
  | cons id rest =>
      rw [front] at behind
      exact Int.le_trans (Counters.behind_le_value (List.mem_cons_self ..)) (behind id (List.mem_cons_self ..))

/-- Strategies that spin cannot be told apart: whatever the looks find, the wait ends with the first one that
finds the sequence or the cancellation, and lasts as long as there is none.  With a deadline it ends so or
times out, at a fruitless look after its tries.  No countdown on the way breaks off.  Looks beyond the last
one that was made do not count, and while nothing moves a thread that parks ends in the same way. -/
theorem spinning_waits_agree (spins : strategy.spins = true) (owner : Option String) (side : Side)
    (target : Int) (sights : Nat → Observation) :
    (∀ k outcome, Ends target sights ((strategy.waiter owner).begin side) k outcome ↔
      Decides target sights k outcome) ∧
    (∀ n, Lasts target sights ((strategy.waiter owner).begin side) n ↔
      ∀ i < n, Fruitless target (sights i)) ∧
    (∀ ms tries k outcome,
      Ends target sights (((Strategy.timeoutYielding ms tries).waiter owner).begin side) k outcome ↔
        Closes target tries sights k outcome) ∧
    (CountsDown target sights ((strategy.waiter owner).begin side) ∧
      ∀ ms tries, CountsDown target sights (((Strategy.timeoutYielding ms tries).waiter owner).begin side)) ∧
    (∀ phase others n, (∀ i < n, others i = sights i) →
      after target others phase n = after target sights phase n) ∧
    ∀ {g : Geometry} (b : Barrier) (s : Sequencer g), (∀ id ∈ b.front, s.counters.value id ≤ s.cursor) →
      (∀ n, (b.observe s).Same (sights n)) → ∀ looks, (∀ n, (b.observe s).Same (looks n)) → ∀ outcome,
        (∃ k, Ends target looks ((Strategy.blocking.waiter owner).begin side) k outcome) ↔
          ∃ k, Ends target sights ((strategy.waiter owner).begin side) k outcome := by
  have begins := Wait.spins_begin spins owner side
  refine ⟨fun k outcome => Wait.Phase.ends_iff_of_spins begins, fun n => Wait.Phase.lasts_iff_of_spins begins,
    fun ms tries k outcome => Wait.Phase.ends_budgeted_iff,
    ⟨Wait.Phase.countsDown_of_spins begins, fun ms tries => Wait.Phase.countsDown_budgeted⟩,
    fun phase others n same => Wait.Phase.after_congr same, ?_⟩
  intro g b s behind still looks stands outcome
  have parked : (∃ k, (Wait.Phase.arriving false).Ends target looks k outcome) ↔
      Wait.Verdict target (b.observe s) outcome :=
    Wait.Phase.arriving_ends_iff (value_le_cursor behind) stands
  exact parked.trans (Wait.Phase.spins_ends_iff begins still).symm

/-- The looks of a waiter whose deadline has passed; the fourth finds sequence 5. -/
def rising : Nat → Observation := fun n => ⟨2 + n, 2 + n, false, false, true⟩

/-- A waiter that sleeps ends with the fourth look, and one that yields after two tries times out at the third.
Behind a consumer that is stuck at 2, a thread that parks sees sequence 2 like one that sleeps. -/
theorem spinning_waits_agree_rising :
    (Strategy.sleeping 3 50).spins = true ∧
      (∀ id ∈ behindStuck.front, stuckAtTwo.counters.value id ≤ stuckAtTwo.cursor) ∧
      (∀ _n : Nat, (behindStuck.observe stuckAtTwo).Same (behindStuck.observe stuckAtTwo)) ∧
      Ends 5 rising (.sleeping 3 3) 3 (.available 5) ∧ Ends 5 rising (.budgeted 2) 2 .timeout ∧
      ∃ k, Ends 2 (fun _ => behindStuck.observe stuckAtTwo) (.arriving false) k (.available 2) := by
  have behind : ∀ id ∈ behindStuck.front, stuckAtTwo.counters.value id ≤ stuckAtTwo.cursor := by decide
  have still : ∀ _n : Nat, (behindStuck.observe stuckAtTwo).Same (behindStuck.observe stuckAtTwo) :=
    fun _ => ⟨rfl, rfl, rfl⟩
  have spins : (Strategy.sleeping 3 50).spins = true := rfl
  have fruitless : ∀ i < 3, Fruitless 5 (rising i) := fun i before =>
    ⟨show (2 + (i : Int)) < 5 by omega, rfl⟩
  obtain ⟨sleeps, -, yields, -, -, -⟩ := spinning_waits_agree spins none .thread 5 rising
  obtain ⟨decides, -, -, -, -, parks⟩ :=
    spinning_waits_agree spins none .thread 2 fun _ => behindStuck.observe stuckAtTwo
  refine ⟨spins, behind, still, (sleeps 3 _).mpr ⟨fruitless, .available (by decide)⟩, (yields 1 2 2 _).mpr ?_,
    (parks behindStuck stuckAtTwo behind still _ still _).mpr ⟨0, (decides 0 _).mpr ?_⟩⟩
  · exact ⟨Or.inr ⟨rfl, Nat.le_refl 2, rfl, fun i upTo => fruitless i (Nat.lt_succ_of_le upTo)⟩,
      fun i before lapses => absurd lapses.used (Nat.not_le.mpr before)⟩
  · exact ⟨fun i before => absurd before (Nat.not_lt_zero i), .available (by decide)⟩

end Barrier

end EventRing
