import EventRing.Proofs.Storing
/-!
# EventRing.Proofs.Releasing

Early release.  A handler that has the progress of its processor may move it forward, up to the event
that it is called with, and the processor stores the progress on its own account as well.  Does the
progress ever move back?

It does not, as long as no failure stops the run at an event that the handler has released already.  At
every other exit of the loop, what the processor stores is not behind what the handler stored
(`Phase.Covers`, one case a phase).  A failure that stops the run at a released event does move the
progress back, to the event before the first one of the failed call, and what was released is handed
over again by the next run.
-/

namespace EventRing

open Processor (Plan Request Phase Kind)

namespace Processor

variable {g : Geometry} {plan : Plan g} {phase : Phase} {request : Request}
variable {resume : request.Answer → Phase} {answer : request.Answer} {v w first cut : Int}

/-! ## What phases store -/

/-- The first event of a failed call that the policy is about to judge. -/
def Phase.failedAt : Phase → Option Int
  | .eventFailed next _ _ => some next
  | .batchFailed first _ _ _ => some first
  | _ => none

/-- Nothing that the processor may still store is behind `v`, a failure that stops the run apart.  While
the handler is called, `v` may lie as far as the end of what it is called with. -/
def Phase.Covers (g : Geometry) (v : Int) : Phase → Prop
  | .delivering next last | .eventFailed next last _ => v ≤ next ∧ next ≤ last
  | .handing next last => next ≤ last ∧ ∀ cut, lastOfRun g next last = .ok cut → v ≤ cut
  | .batchFailed first cut last _ => first ≤ cut ∧ v ≤ cut ∧ cut ≤ last
  | phase => phase.Within (v ≤ ·)

theorem Phase.covers_of_within (within : phase.Within (v ≤ ·)) : phase.Covers g v := by
  cases phase with
  | delivering next last | eventFailed next last _ =>
      obtain ⟨before, upright, -⟩ := within
      exact ⟨by omega, upright⟩
  | handing next last =>
      obtain ⟨before, upright, -⟩ := within
      refine ⟨upright, fun cut run => ?_⟩
      have := lastOfRun_eq_ok run
      omega
  | batchFailed first cut last failure =>
      obtain ⟨before, above, below, -⟩ := within
      exact ⟨above, by omega, below⟩
  | _ => exact within

/-- What is handed over begins beyond a position that everything lies beyond. -/
theorem Phase.beyond_of_within (within : phase.Within (v ≤ ·))
    (hands : phase.inHand g = some (first, cut)) : v < first := by
  rcases inHand_cases hands with ⟨last, rfl, -⟩ | ⟨last, rfl, -⟩
  · have : v ≤ first - 1 := within.1
    omega
  · have : v ≤ first - 1 := within.1
    omega

/-- While the handler is called, it may store anything up to the end of what it is called with. -/
theorem Phase.Covers.store (covers : phase.Covers g w) (hands : phase.inHand g = some (first, cut))
    (inside : v ≤ cut) : phase.Covers g v := by
  rcases inHand_cases hands with ⟨last, rfl, rfl⟩ | ⟨last, rfl, run⟩
  · exact ⟨inside, covers.2⟩
  · refine ⟨covers.1, fun found again => ?_⟩
    rw [run] at again
    cases again
    exact inside

/-- A turn that judges no failed call: the position stays covered, and it lies before what is handed
over next. -/
theorem Phase.Covers.of_turn (covers : phase.Covers g v) (limit : 1 ≤ plan.limit)
    (turn : plan.turn phase = .ask request resume) (told : request.Tells (v ≤ ·) answer)
    (calm : phase.failedAt = none) :
    (resume answer).Within (v ≤ ·) ∨
      (resume answer).inHand g = none ∧ (resume answer).Covers g v := by
  have goesOn (within : phase.Within (v ≤ ·)) : (resume answer).Within (v ≤ ·) :=
    within_of_turn limit (convex_above v) within turn answer told
  cases phase with
  | delivering next last =>
      cases turn
      obtain ⟨here, upright⟩ := covers
      cases answer with
      | none => exact Or.inl (within_advanced here upright (Int.le_trans here upright))
      | some failure => exact Or.inr ⟨rfl, here, upright⟩
  | handing next last =>
      simp only [Plan.turn] at turn
      split at turn
      · rename_i cut run
        obtain ⟨above, below⟩ := lastOfRun_eq_ok run
        have here : v ≤ cut := covers.2 cut run
        cases turn
        cases answer with
        | none => exact Or.inl (within_advanced here below (Int.le_trans here below))
        | some failure => exact Or.inr ⟨rfl, above, here, below⟩
      · cases turn
  | eventFailed | batchFailed => cases calm
  | _ => exact Or.inl (goesOn covers)

theorem Phase.judges_of_failedAt (failed : phase.failedAt = some first)
    (turn : plan.turn phase = .ask request resume) :
    ∃ incident failure, request = .judge incident failure := by
  cases phase with
  | eventFailed | batchFailed =>
      cases turn
      exact ⟨_, _, rfl⟩
  | _ => cases failed

/-- A failed call that is let pass is behind the processor, and one that stops the run is so if nothing
of it was released. -/
theorem Phase.Covers.of_judgement {incident : Incident} {failure : Failure}
    {resume : Option Failure → Phase} (covers : phase.Covers g v)
    (failed : phase.failedAt = some first)
    (turn : plan.turn phase = .ask (.judge incident failure) resume) (fatal : Option Failure)
    (spared : fatal ≠ none → v < first) : (resume fatal).Within (v ≤ ·) := by
  cases phase with
  | eventFailed next last =>
      cases turn
      cases failed
      cases fatal with
      | none => exact covers.1
      | some error =>
          have before : v ≤ first - 1 := Int.le_sub_one_of_lt (spared nofun)
          cases plan.kind <;> exact before
  | batchFailed next cut last =>
      cases turn
      cases failed
      obtain ⟨-, here, below⟩ := covers
      cases fatal with
      | none => exact within_advanced here below (Int.le_trans here below)
      | some error => exact Int.le_sub_one_of_lt (spared nofun)
  | _ => cases failed

/-- A failed call that stops the run is left behind once more, and the processor stores the event before
it. -/
theorem Phase.stops_of_failedAt (plan : Plan g) {ok : Int → Prop} (within : phase.Within ok)
    (failed : phase.failedAt = some first) (failure : Failure) :
    ∃ incident error resume, plan.turn phase = .ask (.judge incident error) resume ∧
      (resume (some failure) = .stopping first failure ∨
        resume (some failure) = .warning first failure) ∧ ok (first - 1) := by
  cases phase with
  | eventFailed next last error =>
      cases failed
      refine ⟨_, _, _, rfl, ?_, within.1⟩
      cases plan.kind <;> simp
  | batchFailed next cut last error =>
      cases failed
      exact ⟨_, _, _, rfl, Or.inl rfl, within.1⟩
  | _ => cases failed

/-- A processor stores nothing behind a position that it covers. -/
theorem Phase.Covers.of_release {stored : Int} {resume : Unit → Phase} (covers : phase.Covers g v)
    (turn : plan.turn phase = .ask (.release stored) resume) : phase.Within (v ≤ ·) := by
  rcases release_cases turn with rfl | ⟨failure, rfl⟩ | ⟨next, rfl⟩ <;> exact covers

end Processor

/-! ## Handlers that release early -/

namespace Session

variable {g : Geometry} {s t : Session g} {around : Outside} {request : Request}
variable {resume : request.Answer → Phase} {first : Int}

/-- The handler stores the progress only to move it forward, and not beyond what it is called with. -/
def Forward (s : Session g) : Deed → Prop
  | .store v => ∃ hands ∈ s.phase.inHand g, s.position ≤ v ∧ v ≤ hands.2
  | .act (.turn around) => around.Finds Word.Fits
  | .act _ => True

/-- Moreover, no failure stops the run at events that were released. -/
def Sparing (s : Session g) (deed : Deed) : Prop :=
  s.Forward deed ∧
    match deed with
    | .act (.turn around) => around.failure ≠ none → ∀ first ∈ s.phase.failedAt, s.position < first
    | _ => True

instance (deed : Deed) : Decidable (s.Forward deed) := by
  unfold Forward
  split <;> infer_instance

instance (deed : Deed) : Decidable (s.Sparing deed) := by
  unfold Sparing
  split <;> infer_instance

/-- The progress of a processor that is never behind what its handler released. -/
structure Trails (s : Session g) : Prop where
  limit : 1 ≤ s.plan.limit
  fits : Word.Fits s.position
  within : s.phase.Within Word.Fits
  covers : s.phase.Covers g s.position

/-- A wait that begins behind a position finds nothing before it. -/
theorem Trails.tells_above (trails : s.Trails) (turn : s.plan.turn s.phase = .ask request resume) :
    request.Tells (s.position ≤ ·) (s.answer around request) := by
  refine tells_answer (Int.le_refl _) ?_
  rintro next rfl available - enough
  have covers := trails.covers
  rw [Phase.await_cases turn] at covers
  have : s.position ≤ next - 1 := covers
  omega

/-- A processor that went on to `t` from the progress `p`, and has begun to hand over nothing before
it. -/
structure Onward (p : Int) (t : Session g) : Prop where
  trails : t.Trails
  above : p ≤ t.position
  beyond : ∀ first cut, t.phase.inHand g = some (first, cut) → t.position < first

/-- A turn of a processor that spares what was released does not move the progress back, and what it
begins to hand over lies beyond the progress. -/
theorem Trails.answered (trails : s.Trails) (turn : s.plan.turn s.phase = .ask request resume)
    (sound : around.Finds Word.Fits)
    (spared : around.failure ≠ none → ∀ first ∈ s.phase.failedAt, s.position < first) :
    Onward s.position (s.answered around request resume) := by
  have told : request.Tells (s.position ≤ ·) (s.answer around request) := trails.tells_above turn
  obtain ⟨limit, fits, within, covers⟩ := trails
  have still : (resume (s.answer around request)).Within Word.Fits :=
    Phase.within_of_turn limit Word.convex_fits within turn _ (tells_found fits sound)
  -- where everything in hand lies beyond the progress
  have settle {v : Int} (moved : request.positionAfter s.position = v) (fits : Word.Fits v)
      (above : s.position ≤ v) (beyond : (resume (s.answer around request)).Within (v ≤ ·)) :
      Onward s.position (s.answered around request resume) := by
    subst moved
    exact ⟨⟨limit, fits, still, Phase.covers_of_within beyond⟩, above,
      fun first cut hands => Phase.beyond_of_within beyond hands⟩
  cases failed : s.phase.failedAt with
  | some first =>
      obtain ⟨incident, failure, rfl⟩ := Phase.judges_of_failedAt failed turn
      exact settle rfl fits (Int.le_refl _) (covers.of_judgement failed turn around.failure
        fun fatal => spared fatal first failed)
  | none =>
      rcases positionAfter_cases request with ⟨stored, rfl⟩ | same
      · have before := covers.of_release turn
        exact settle rfl (Phase.ok_of_release within turn) (Phase.ok_of_release before turn)
          (Phase.within_of_turn limit (convex_above stored) (Phase.above_of_release before turn)
            turn () trivial)
      · rcases covers.of_turn limit turn told failed with beyond | ⟨nothing, covered⟩
        · exact settle (same _) fits (Int.le_refl _) beyond
        · have rests : (s.answered around request resume).position = s.position := same _
          refine ⟨⟨limit, rests ▸ fits, still, rests ▸ covered⟩, Int.le_of_eq rests.symm, ?_⟩
          intro first cut hands
          rw [show (s.answered around request resume).phase.inHand g = none from nothing] at hands
          cases hands

theorem Trails.store {v cut : Int} (trails : s.Trails)
    (hands : s.phase.inHand g = some (first, cut)) (above : s.position ≤ v) (inside : v ≤ cut) :
    Trails { s with position := v } := by
  refine ⟨trails.limit, ?_, trails.within, trails.covers.store hands inside⟩
  have within := trails.within
  rcases Phase.inHand_cases hands with ⟨last, phase, rfl⟩ | ⟨last, phase, run⟩
  · rw [phase] at within
    obtain ⟨-, upright, high⟩ := within
    exact trails.fits.between high above (Int.le_trans inside upright)
  · rw [phase] at within
    obtain ⟨-, -, high⟩ := within
    have below := (Processor.lastOfRun_eq_ok run).2
    exact trails.fits.between high above (Int.le_trans inside below)

theorem Trails.performed {deed : Deed} (trails : s.Trails) (spares : s.Sparing deed)
    (made : s.perform deed = some t) : t.Trails ∧ s.position ≤ t.position := by
  obtain ⟨forward, spared⟩ := spares
  cases deed with
  | store v =>
      obtain ⟨⟨first, cut⟩, hands, above, inside⟩ := forward
      obtain ⟨rfl, -⟩ := stored_of_store made
      exact ⟨trails.store hands above inside, above⟩
  | act act =>
      cases act with
      | call =>
          obtain ⟨-, rfl⟩ := called_of_call made
          exact ⟨⟨trails.limit, trails.fits, trivial, trivial⟩, Int.le_refl _⟩
      | turn around =>
          obtain ⟨request, resume, turn, rfl⟩ := turned_of_turn made
          have after := trails.answered turn forward spared
          exact ⟨after.trails, after.above⟩
      | halt =>
          cases made
          exact ⟨⟨trails.limit, trails.fits, trails.within, trails.covers⟩, Int.le_refl _⟩

theorem trails_of_reaches {kind : Kind} {most : Option Nat} {p : Int} (start : Word.Fits p)
    (reached : Reaches perform Sparing (fresh g kind most p) s) : s.Trails :=
  reached.invariant ⟨Processor.limitOf_pos most, start, trivial, trivial⟩
    fun trails spares made => (trails.performed spares made).1

theorem position_of_reaches (trails : s.Trails) (reached : Reaches perform Sparing s t) :
    t.Trails ∧ s.position ≤ t.position :=
  reached.invariant (motive := fun t => t.Trails ∧ s.position ≤ t.position)
    ⟨trails, Int.le_refl _⟩ fun before spares made =>
      have after := before.1.performed spares made
      ⟨after.1, Int.le_trans before.2 after.2⟩

/-- A processor whose progress is not behind what it stores finds no reason to complain about it. -/
theorem Trails.ne_backwards {was now : Int} (trails : s.Trails)
    (turn : s.plan.turn s.phase = .ask request resume) :
    (s.answered around request resume).phase ≠ .faulted (.backwards was now) := by
  intro broken
  have origin := Phase.origin_of_turn trails.limit turn (s.answer around request)
  rw [show resume (s.answer around request) = _ from broken] at origin
  obtain ⟨⟨⟩, -⟩ | ⟨next, last, position, phase, -, beyond⟩ := origin
  have covers := trails.covers
  rw [phase] at turn covers
  cases turn
  exact beyond covers.2

/-! ### Failures at released events -/

theorem reaches_stopped {failure : Failure} (phase : s.phase = .stopping first failure)
    (before : Word.Fits (first - 1)) :
    ∃ t, Reaches perform Forward s t ∧ t.position = first - 1 := by
  have turn : s.plan.turn s.phase =
      .ask (.release (first - 1)) fun _ => .shuttingDown (some failure) := by
    rw [phase, Plan.turn, Word.checked_of_fits before]
  exact ⟨_, Reaches.start.next (perform_turn {} turn) trivial, rfl⟩

/-- A task writes a record before it stores its progress. -/
theorem reaches_warned {failure : Failure} (phase : s.phase = .warning first failure)
    (before : Word.Fits (first - 1)) :
    ∃ t, Reaches perform Forward s t ∧ t.position = first - 1 := by
  have turn : s.plan.turn s.phase =
      .ask (.note (Record.taskStopped first)) fun _ => .stopping first failure := by
    rw [phase]
    rfl
  let u := s.answered {} (.note (Record.taskStopped first)) fun _ => .stopping first failure
  have noted : Reaches perform Forward s u := Reaches.start.next (perform_turn {} turn) trivial
  have stopping : u.phase = .stopping first failure := rfl
  obtain ⟨t, onwards, position⟩ := reaches_stopped stopping before
  exact ⟨t, noted.trans onwards, position⟩

/-- A failure that stops the run moves the progress to the event before the failed call, wherever it
was. -/
theorem Trails.takes_back (trails : s.Trails) (failed : s.phase.failedAt = some first)
    (fatal : around.failure ≠ none) (sound : around.Finds Word.Fits) :
    ∃ t, Reaches perform Forward s t ∧ t.position = first - 1 := by
  obtain ⟨failure, stops⟩ := Option.ne_none_iff_exists'.mp fatal
  obtain ⟨incident, error, resume, turn, after, before⟩ :=
    Phase.stops_of_failedAt s.plan trails.within failed failure
  let u := s.answered around (.judge incident error) resume
  have judged : Reaches perform Forward s u := Reaches.start.next (perform_turn around turn) sound
  have answer : u.phase = resume (some failure) := congrArg resume stops
  rcases after with stopping | warning
  · obtain ⟨t, onwards, position⟩ := reaches_stopped (answer.trans stopping) before
    exact ⟨t, judged.trans onwards, position⟩
  · obtain ⟨t, onwards, position⟩ := reaches_warned (answer.trans warning) before
    exact ⟨t, judged.trans onwards, position⟩

/-! ## The progress of handlers that release early -/

/-- A handler that releases early, and only forwards, does not make the progress move back, does not make
its processor break off for that, and is not handed over again what it released, in whatever run, as long
as no failure stops a run at events that were released.  Where one does, the progress moves back before
them. -/
theorem released_events_stay_released {kind : Kind} {most : Option Nat} {p : Int}
    (start : Word.Fits p) (reached : Reaches perform Sparing (fresh g kind most p) s) :
    (∀ t, Reaches perform Sparing s t → s.position ≤ t.position ∧
      ∀ around u, t.Sparing (.act (.turn around)) → t.turn around = some u →
        (∀ was now, u.phase ≠ .faulted (.backwards was now)) ∧
        ∀ first last, u.phase.inHand g = some (first, last) → s.position < first) ∧
    (∀ (around : Outside) first, around.Finds Word.Fits → around.failure ≠ none →
      s.phase.failedAt = some first → first ≤ s.position →
      ∃ t, Reaches perform Forward s t ∧ t.position < s.position) := by
  have trails := trails_of_reaches start reached
  refine ⟨fun t onwards => ?_, fun around first sound fatal failed released => ?_⟩
  · obtain ⟨later, above⟩ := position_of_reaches trails onwards
    refine ⟨above, fun around u spares made => ?_⟩
    obtain ⟨request, resume, turn, rfl⟩ := turned_of_turn made
    have next := later.answered turn spares.1 spares.2
    refine ⟨fun was now => later.ne_backwards turn, fun first last hands => ?_⟩
    exact Int.lt_of_le_of_lt (Int.le_trans above next.above) (next.beyond first last hands)
  · obtain ⟨t, onwards, position⟩ := trails.takes_back failed fatal sound
    exact ⟨t, onwards, by omega⟩

/-- Turns up to the first wait of a run, and that wait. -/
def untilFound (last : Int) : List Deed :=
  .act .call :: List.replicate 6 (.act (.turn {})) ++ [.act (.turn { outcome := .available last })]

/-- A turn in which the handler fails, or in which the policy stops the run. -/
def failing : Deed := .act (.turn { failure := some ⟨"full", []⟩ })

/-- Event 0 is released before event 1 fails for good; the second run begins with event 1. -/
theorem released_events_stay_released_event_zero :
    ∃ s t : Session ⟨1, by decide⟩,
      Reaches perform Sparing (fresh ⟨1, by decide⟩ .event none (-1)) s ∧ s.position = 0 ∧
      Reaches perform Sparing s t ∧ t.phase = .delivering 1 1 ∧ t.log.runs = 2 ∧
      (∀ t, Reaches perform Sparing s t → s.position ≤ t.position ∧
        ∀ around u, t.Sparing (.act (.turn around)) → t.turn around = some u →
          (∀ was now, u.phase ≠ .faulted (.backwards was now)) ∧
          ∀ first last, u.phase.inHand ⟨1, by decide⟩ = some (first, last) → s.position < first) ∧
      (∀ (around : Outside) first, around.Finds Word.Fits → around.failure ≠ none →
        s.phase.failedAt = some first → first ≤ s.position →
        ∃ t, Reaches perform Forward s t ∧ t.position < s.position) := by
  let released := walk perform Sparing (fresh ⟨1, by decide⟩ .event none (-1))
    (untilFound 1 ++ [.act (.turn {}), .store 0])
  have reached : Reaches perform Sparing (fresh ⟨1, by decide⟩ .event none (-1))
      (released.get (by decide)) := reaches_get _
  let again := walk perform Sparing (released.get (by decide))
    ([.act (.turn {}), failing, failing] ++ List.replicate 3 (.act (.turn {})) ++ untilFound 1 ++
      [.act (.turn {})])
  have onwards : Reaches perform Sparing (released.get (by decide)) (again.get (by decide)) := reaches_get _
  exact ⟨_, _, reached, by decide, onwards, by decide, by decide,
    released_events_stay_released (by decide) reached⟩

/-- A handler that releases the event in hand and then fails for good has it taken back: on both kinds of
threads the progress moves from 0 to -1, and the next run hands event 0 over again. -/
theorem fatal_failure_takes_back :
    (∃ s t u : Session ⟨1, by decide⟩,
      Reaches perform Forward (fresh ⟨1, by decide⟩ .event none (-1)) s ∧ s.position = 0 ∧
      Reaches perform Forward s t ∧ t.position = -1 ∧
      Reaches perform Forward t u ∧ u.phase = .delivering 0 0 ∧ u.log.runs = 2) ∧
    ∃ s t u : Session ⟨1, by decide⟩,
      Reaches perform Forward (fresh ⟨1, by decide⟩ .batch none (-1)) s ∧ s.position = 0 ∧
      Reaches perform Forward s t ∧ t.position = -1 ∧
      Reaches perform Forward t u ∧ u.phase = .handing 0 0 ∧ u.log.runs = 2 := by
  have runs {kind : Kind} {come : List Deed} {s t u : Session ⟨1, by decide⟩}
      (first : walk perform Forward (fresh ⟨1, by decide⟩ kind none (-1)) (come ++ [.store 0]) = some s)
      (second : walk perform Forward s [failing, failing, .act (.turn {})] = some t)
      (third : walk perform Forward t (List.replicate 2 (.act (.turn {})) ++ come) = some u) :
      Reaches perform Forward (fresh ⟨1, by decide⟩ kind none (-1)) s ∧
        Reaches perform Forward s t ∧ Reaches perform Forward t u :=
    ⟨reaches_of_walk first, reaches_of_walk second, reaches_of_walk third⟩
  constructor
  · obtain ⟨reached, stopped, again⟩ := @runs .event (untilFound 0 ++ [.act (.turn {})]) _ _ _
      (Option.some_get (by decide)).symm (Option.some_get (by decide)).symm
      (Option.some_get (by decide)).symm
    exact ⟨_, _, _, reached, by decide, stopped, by decide, again, by decide, by decide⟩
  · obtain ⟨reached, stopped, again⟩ := @runs .batch (untilFound 0) _ _ _
      (Option.some_get (by decide)).symm (Option.some_get (by decide)).symm
      (Option.some_get (by decide)).symm
    exact ⟨_, _, _, reached, by decide, stopped, by decide, again, by decide, by decide⟩

end Session

end EventRing
