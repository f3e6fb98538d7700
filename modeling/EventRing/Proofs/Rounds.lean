import EventRing.Proofs.Storing
import EventRing.Proofs.Publishing
/-!
# EventRing.Proofs.Rounds

What a processor that hands over single events makes of one wait: a round.  It tells its handler how many
events are coming and how many there are, hands them over one by one, marks the last of them, and moves its
progress once (`Round.requests`).  A failure cuts the round short, behind the failed event if the policy
lets it pass and before it if not (`Round.Fits`).

What the handler and the policy have to say to each event is left open (`Verdicts`).  As no event is handed
over twice before a failure stops the run, that is a function of the event.  While a wait finds the same
events again and again, the rounds follow on each other until all of them are handed over, or one is fatal
(`Successive`).
-/

namespace EventRing

open EventRing.Action
open Processor (Plan Request Phase Kind)

namespace Processor

variable {g : Geometry} {plan : Plan g} {next last available done : Int} {most : Option Nat}

/-- A request that belongs to the shape of a round: a wait, a call of the handler, a move of the
progress. -/
def Request.isShown : Request → Bool
  | .await _ | .release _ => true
  | request => request.isHook

/-- How many of the events at hand a round hands over. -/
def roundSize (most : Option Nat) (depth : Int) : Int :=
  match most with
  | none => depth
  | some cap => min depth (max 1 cap)

theorem roundSize_pos (most : Option Nat) {depth : Int} (one : 1 ≤ depth) : 1 ≤ roundSize most depth := by
  cases most with
  | none => exact one
  | some cap =>
      show 1 ≤ min depth (max 1 (cap : Int))
      omega

theorem roundSize_le (most : Option Nat) (depth : Int) : roundSize most depth ≤ depth := by
  cases most with
  | none => exact Int.le_refl depth
  | some cap => exact Int.min_le_left depth _

/-- A limit takes all that is at hand, or less than that and then as much as it says. -/
theorem roundSize_cases (most : Option Nat) {depth : Int} (one : 1 ≤ depth) (fits : depth ≤ Word.greatest) :
    depth ≤ limitOf most ∧ roundSize most depth = depth ∨
      limitOf most < depth ∧ roundSize most depth = limitOf most := by
  cases most with
  | none => exact Or.inl ⟨fits, rfl⟩
  | some cap =>
      show depth ≤ max 1 (min (cap : Int) Word.greatest) ∧ min depth (max 1 (cap : Int)) = depth ∨
        max 1 (min (cap : Int) Word.greatest) < depth ∧
          min depth (max 1 (cap : Int)) = max 1 (min (cap : Int) Word.greatest)
      omega

/-- A wait that finds events opens a round of the size that it should have. -/
theorem Phase.admitted_opening (limit : plan.limit = limitOf most) (single : plan.kind ≠ .batch)
    (low : 0 ≤ next) (found : next ≤ available) (below : available < Word.greatest) :
    Phase.admitted plan next available =
      .opening next (next + roundSize most (available - next + 1) - 1) available := by
  have one := limitOf_pos most
  unfold Phase.admitted
  rw [if_neg (Int.not_lt.mpr found), except_checked_of_fits (fits_of_nonneg (by omega) (by omega)),
    limit]
  have some : 1 ≤ available - next + 1 := by omega
  rcases roundSize_cases most some (by omega) with
    ⟨all, size⟩ | ⟨few, size⟩
  · have last : next + (available - next + 1) - 1 = available := by omega
    rw [if_neg (by omega), size, last]
    cases kind : plan.kind <;> first | rfl | contradiction
  · rw [if_pos (by omega), size, except_checked_of_fits (fits_of_nonneg (by omega) (by omega)),
      except_checked_of_fits (fits_of_nonneg (by omega) (by omega))]
    cases kind : plan.kind <;> first | rfl | contradiction

/-- Behind an event that is not the last one the next one is handed over. -/
theorem Phase.advanced_delivering (single : plan.kind ≠ .batch) (low : 0 ≤ done) (more : done < last)
    (below : last < Word.greatest) : Phase.advanced plan done last = .delivering (done + 1) last := by
  unfold Phase.advanced
  rw [except_checked_of_fits (fits_of_nonneg (by omega) (by omega)), if_pos (by omega)]
  cases kind : plan.kind <;> first | rfl | contradiction

/-- Behind the last event a thread compares its progress before it moves it. -/
theorem Phase.advanced_verifying (kind : plan.kind = .event) (low : 0 ≤ last)
    (below : last < Word.greatest) : Phase.advanced plan last last = .verifying (last + 1) last := by
  unfold Phase.advanced
  rw [except_checked_of_fits (fits_of_nonneg (by omega) (by omega)), if_neg (by omega), kind]
  rfl

end Processor

/-! ## Rounds -/

/-- What a handler and a policy have to say to each event: the failure of the handler, if any, and the
failure that the policy stops the run with, if it does. -/
structure Verdicts where
  fails : Int → Option Failure
  judges : Int → Failure → Option Failure

/-- What is answered to a processor whose waits find the events up to `available`. -/
def Verdicts.around (v : Verdicts) (available : Int) : Request → Outside
  | .await _ => { outcome := .available available }
  | .event t _ => { failure := v.fails t }
  | .judge (.event t) failure => { failure := v.judges t failure }
  | _ => {}

/-- One round. -/
structure Round where
  /-- The first event that was handed over, and the last one. -/
  first : Int
  stop : Int
  /-- The progress that was stored. -/
  stored : Int
  /-- The failure that stops the run. -/
  fatal : Option Failure

namespace Round

variable {v : Verdicts} {most : Option Nat} {available next : Int}

/-- How many events there are. -/
def depth (available : Int) (r : Round) : Int := available - r.first + 1

/-- How many of them are to be handed over. -/
def size (most : Option Nat) (available : Int) (r : Round) : Int :=
  Processor.roundSize most (r.depth available)

/-- The last event that is to be handed over. -/
def last (most : Option Nat) (available : Int) (r : Round) : Int :=
  r.first + r.size most available - 1

/-- What a processor asks in a round. -/
def requests (most : Option Nat) (available : Int) (r : Round) : List Request :=
  [.await r.first, .batchStart (r.size most available) (r.depth available)] ++
    (sequences r.first r.stop).map (fun t => .event t (t = r.last most available)) ++
    [.release r.stored]

/-- Where the processor stands after a round. -/
def onwards (r : Round) : Phase :=
  match r.fatal with
  | none => .awaiting (r.stored + 1)
  | some failure => .shuttingDown (some failure)

/-- A round that hands over as many events as it should, or ends at the first one that fails. -/
structure Fits (v : Verdicts) (last : Int) (r : Round) : Prop where
  first_le : r.first ≤ r.stop
  stop_le : r.stop ≤ last
  accepted : ∀ t, r.first ≤ t → t < r.stop → v.fails t = none
  ends : match v.fails r.stop with
    | none => r.stop = last ∧ r.stored = r.stop ∧ r.fatal = none
    | some failure =>
      match v.judges r.stop failure with
      | none => r.stored = r.stop ∧ r.fatal = none
      | some error => r.stored = r.stop - 1 ∧ r.fatal = some error

theorem Fits.stored_of_passed {last : Int} {r : Round} (fits : r.Fits v last) (passed : r.fatal = none) :
    r.stored = r.stop := by
  have ends := fits.ends
  split at ends
  · exact ends.2.1
  · split at ends
    · exact ends.1
    · exact absurd (passed.symm.trans ends.2) nofun

/-- A round of two events of which the first one is accepted hands over both. -/
theorem Fits.stop_of_two {last : Int} {r : Round} (fits : r.Fits v last) (two : last = r.first + 1)
    (accepted : v.fails r.first = none) : r.stop = last := by
  have above := fits.first_le
  have below := fits.stop_le
  by_cases one : r.stop = r.first
  · have ends := fits.ends
    rw [one, accepted] at ends
    exact one.trans ends.1
  · omega

theorem last_le (r : Round) (most : Option Nat) (available : Int) : r.last most available ≤ available := by
  have := Processor.roundSize_le most (r.depth available)
  unfold last size
  unfold depth at *
  omega

end Round

/-- Rounds of which each begins behind the progress that the one before it stored, until everything up to
`available` is handed over or one of them is fatal. -/
def Successive (available : Int) : Int → List Round → Prop
  | next, [] => next = available + 1
  | next, r :: rest =>
    r.first = next ∧
      match r.fatal with
      | none => Successive available (r.stored + 1) rest
      | some _ => rest = []

/-! ## A processor in its rounds -/

namespace Session

variable {g : Geometry} {s t u : Session g} {around : Request → Outside}

/-- What a processor asks in some turns in which everything is answered in the same way, and where it comes
to. -/
def goOn (around : Request → Outside) : Nat → Session g → Option (List Request × Session g)
  | 0, s => some ([], s)
  | turns + 1, s =>
    match s.plan.turn s.phase with
    | .ask request resume =>
      (goOn around turns (s.answered (around request) request resume)).map fun (asked, t) =>
        (request :: asked, t)
    | .ended _ | .broken _ => none

/-- A processor comes from one session to another, and asks for some things on the way. -/
def Goes (around : Request → Outside) (s : Session g) (asked : List Request) (t : Session g) : Prop :=
  ∃ turns, goOn around turns s = some (asked, t)

theorem Goes.rest (s : Session g) : s.Goes around [] s := ⟨0, rfl⟩

theorem Goes.ask {request : Request} {resume : request.Answer → Phase} {asked : List Request}
    (turn : s.plan.turn s.phase = .ask request resume)
    (onwards : (s.answered (around request) request resume).Goes around asked t) :
    s.Goes around (request :: asked) t := by
  obtain ⟨turns, went⟩ := onwards
  refine ⟨turns + 1, ?_⟩
  rw [goOn, turn]
  show Option.map _ (goOn around turns _) = _
  rw [went]
  rfl

theorem Goes.trans {asked more : List Request} (first : s.Goes around asked t)
    (second : t.Goes around more u) : s.Goes around (asked ++ more) u := by
  obtain ⟨turns, went⟩ := first
  induction turns generalizing s asked with
  | zero =>
      cases went
      exact second
  | succ turns ih =>
      unfold goOn at went
      split at went
      · rename_i turn
        obtain ⟨⟨rest, v⟩, onwards, same⟩ := Option.map_eq_some_iff.mp went
        cases same
        exact Goes.ask turn (ih onwards)
      · cases went
      · cases went

variable {v : Verdicts} {available next last : Int} {most : Option Nat} {failure : Failure}

/-- Behind the last event a processor stores it. -/
theorem goes_of_verifying (v : Verdicts) (available : Int) (phase : s.phase = .verifying next last)
    (behind : s.position ≤ last) :
    ∃ asked t, s.Goes (v.around available) asked t ∧ t.plan = s.plan ∧ t.position = last ∧
      t.phase = .awaiting next ∧ asked.filter Request.isShown = [.release last] := by
  have compares : s.plan.turn s.phase = .ask .position fun position =>
      if last < position then .faulted (.backwards position last) else .releasing next last := by
    rw [phase]
    rfl
  have moves : s.plan.turn (if last < s.position then .faulted (.backwards s.position last)
      else .releasing next last) = .ask (.release last) fun _ => .awaiting next := by
    rw [if_neg (Int.not_lt.mpr behind)]
    rfl
  exact ⟨_, _, Goes.ask compares (Goes.ask moves (Goes.rest _)), rfl, rfl, rfl, rfl⟩

/-- Behind a failed event a processor stores that event if the policy lets the failure pass, and the one
before it if not. -/
theorem goes_of_eventFailed (v : Verdicts) (available : Int) (kind : s.plan.kind = .event)
    (phase : s.phase = .eventFailed next last failure) (low : 0 ≤ next) (below : next < Word.greatest) :
    ∃ asked t, s.Goes (v.around available) asked t ∧ t.plan = s.plan ∧
      asked.filter Request.isShown = [.release t.position] ∧
      match v.judges next failure with
      | none => t.position = next ∧ t.phase = .awaiting (next + 1)
      | some error => t.position = next - 1 ∧ t.phase = .shuttingDown (some error) := by
  obtain ⟨resume, judges, passes, stops⟩ : ∃ resume,
      s.plan.turn s.phase = .ask (.judge (.event next) failure) resume ∧
        resume none = .skipping next ∧ ∀ fatal, resume (some fatal) = .stopping next fatal := by
    rw [phase]
    refine ⟨_, rfl, rfl, fun fatal => ?_⟩
    simp only [kind]
  cases judged : v.judges next failure with
  | none =>
      have skips : Plan.turn s.plan (resume (v.judges next failure)) = .ask (.release next) fun _ =>
          .orFault do return .awaiting (← Word.checked (next + 1)) := by
        rw [judged, passes]
        rfl
      refine ⟨_, _, Goes.ask judges (Goes.ask skips (Goes.rest _)), rfl, rfl, rfl, ?_⟩
      show Phase.orFault (Word.checked (next + 1) >>= _) = _
      rw [except_checked_of_fits (Processor.fits_of_nonneg (by omega) (by omega))]
      rfl
  | some error =>
      have releases : Plan.turn s.plan (resume (v.judges next failure)) =
          .ask (.release (next - 1)) fun _ => .shuttingDown (some error) := by
        rw [judged, stops, Plan.turn,
          Word.checked_of_fits (Processor.fits_of_nonneg (by omega) (by omega))]
      exact ⟨_, _, Goes.ask judges (Goes.ask releases (Goes.rest _)), rfl, rfl, rfl, rfl⟩

/-- A processor that is handing over events up to `last` completes a round from the next one on. -/
def Completes (v : Verdicts) (available last next : Int) (s : Session g) : Prop :=
  ∃ (r : Round) (asked : List Request) (t : Session g), s.Goes (v.around available) asked t ∧
    t.plan = s.plan ∧ r.first = next ∧ r.Fits v last ∧ t.position = r.stored ∧ t.phase = r.onwards ∧
    asked.filter Request.isShown =
      (sequences next r.stop).map (fun t => .event t (t = last)) ++ [.release r.stored]

/-- A processor hands over an event and goes on as its handler answers. -/
theorem delivers (v : Verdicts) (available : Int) (phase : s.phase = .delivering next last) :
    ∃ t : Session g, t.plan = s.plan ∧ t.position = s.position ∧
      t.phase = (match v.fails next with
        | none => .advanced s.plan next last
        | some failure => .eventFailed next last failure) ∧
      ∀ asked u, t.Goes (v.around available) asked u →
        s.Goes (v.around available) (.event next (next = last) :: asked) u := by
  obtain ⟨resume, hands, handed, failed⟩ : ∃ resume : (Request.event next (next = last)).Answer → Phase,
      s.plan.turn s.phase = .ask (.event next (next = last)) resume ∧
        resume none = .advanced s.plan next last ∧
        ∀ failure, resume (some failure) = .eventFailed next last failure := by
    rw [phase]
    exact ⟨_, rfl, rfl, fun _ => rfl⟩
  refine ⟨s.answered (v.around available (.event next (next = last))) _ resume, rfl, rfl, ?_,
    fun asked u onwards => Goes.ask hands onwards⟩
  show resume (v.fails next) = _
  cases v.fails next with
  | none => exact handed
  | some failure => exact failed failure

theorem shown_event (t : Int) (final : Bool) (asked : List Request) :
    (Request.event t final :: asked).filter Request.isShown =
      .event t final :: asked.filter Request.isShown :=
  List.filter_cons_of_pos rfl

/-- A round ends with an event that failed. -/
theorem completes_of_failure (kind : s.plan.kind = .event) (phase : s.phase = .delivering next last)
    (low : 0 ≤ next) (inside : next ≤ last) (below : last < Word.greatest)
    (fails : v.fails next = some failure) : s.Completes v available last next := by
  obtain ⟨failed, plan, -, there, onwards⟩ := delivers v available phase
  rw [fails] at there
  rw [← plan] at kind
  obtain ⟨asked, t, went, same, shown, ends⟩ := goes_of_eventFailed v available kind there low (by omega)
  have accepted : ∀ t, next ≤ t → t < next → v.fails t = none := fun t above below => by omega
  have handed : (Request.event next (next = last) :: asked).filter Request.isShown =
      (sequences next next).map (fun t => .event t (t = last)) ++ [.release t.position] := by
    rw [shown_event, shown, sequences_self]
    rfl
  cases judged : v.judges next failure with
  | none =>
      rw [judged] at ends
      refine ⟨⟨next, next, t.position, none⟩, _, t, onwards asked t went, same.trans plan, rfl,
        ⟨Int.le_refl next, inside, accepted, ?_⟩, rfl, ?_, handed⟩
      · simp only [fails, judged]
        exact ⟨ends.1, trivial⟩
      · rw [ends.2, ← ends.1]
        rfl
  | some error =>
      rw [judged] at ends
      refine ⟨⟨next, next, t.position, some error⟩, _, t, onwards asked t went, same.trans plan, rfl,
        ⟨Int.le_refl next, inside, accepted, ?_⟩, rfl, ends.2, handed⟩
      simp only [fails, judged]
      exact ⟨ends.1, trivial⟩

/-- A round ends with its last event. -/
theorem completes_of_last (kind : s.plan.kind = .event) (phase : s.phase = .delivering last last)
    (low : 0 ≤ last) (below : last < Word.greatest) (behind : s.position ≤ last)
    (fails : v.fails last = none) : s.Completes v available last last := by
  obtain ⟨done, plan, position, there, onwards⟩ := delivers v available phase
  rw [fails] at there
  rw [← position] at behind
  obtain ⟨asked, t, went, same, stored, arrived, shown⟩ :=
    goes_of_verifying v available (there.trans (Phase.advanced_verifying kind low below)) behind
  have accepted : ∀ t, last ≤ t → t < last → v.fails t = none := fun t above below => by omega
  refine ⟨⟨last, last, last, none⟩, _, t, onwards asked t went, same.trans plan, rfl,
    ⟨Int.le_refl last, Int.le_refl last, accepted, ?_⟩, stored, arrived, ?_⟩
  · simp only [fails]
    trivial
  · rw [shown_event, shown, sequences_self]
    rfl

/-- An event that did not fail stands before the rest of its round. -/
theorem Completes.cons {t : Session g} (rest : t.Completes v available last (next + 1))
    (plan : t.plan = s.plan) (fails : v.fails next = none)
    (onwards : ∀ asked u, t.Goes (v.around available) asked u →
      s.Goes (v.around available) (.event next (next = last) :: asked) u) :
    s.Completes v available last next := by
  obtain ⟨r, asked, u, went, same, first, ⟨firstLe, stopLe, accepted, ends⟩, stored, arrived, shown⟩ := rest
  have upright : next ≤ r.stop := by omega
  have earlier : ∀ t, next ≤ t → t < r.stop → v.fails t = none := by
    intro t above below
    by_cases here : t = next
    · rw [here, fails]
    · exact accepted t (by omega) below
  refine ⟨{ r with first := next }, _, u, onwards asked u went, same.trans plan, rfl,
    ⟨upright, stopLe, earlier, ends⟩, stored, arrived, ?_⟩
  show _ = (sequences next r.stop).map _ ++ _
  rw [shown_event, shown, sequences_cons upright]
  rfl

theorem completes_of_delivering (v : Verdicts) (available : Int) (kind : s.plan.kind = .event)
    (phase : s.phase = .delivering next last) (low : 0 ≤ next) (inside : next ≤ last)
    (below : last < Word.greatest) (behind : s.position ≤ last) : s.Completes v available last next := by
  -- on how many events are left behind the next one
  obtain ⟨left, whole⟩ := Int.eq_ofNat_of_zero_le (show 0 ≤ last - next by omega)
  induction left generalizing s next with
  | zero =>
      obtain rfl : next = last := by omega
      cases fails : v.fails next with
      | some failure => exact completes_of_failure kind phase low inside below fails
      | none => exact completes_of_last kind phase low below behind fails
  | succ left ih =>
      cases fails : v.fails next with
      | some failure => exact completes_of_failure kind phase low inside below fails
      | none =>
          obtain ⟨t, plan, position, there, onwards⟩ := delivers v available phase
          have more : next < last := by omega
          rw [fails] at there
          have goesOn := there.trans (Phase.advanced_delivering (by rw [kind]; nofun) low more below)
          have rest : t.Completes v available last (next + 1) :=
            ih (by rw [plan, kind]) goesOn (by omega) (by omega) (by omega) (by omega)
          exact rest.cons plan fails onwards

/-- A processor whose wait finds something completes a round. -/
theorem goes_of_awaiting (plan : s.plan = ⟨.event, Processor.limitOf most⟩)
    (phase : s.phase = .awaiting next) (behind : s.position < next) (low : 0 ≤ next)
    (found : next ≤ available) (below : available < Word.greatest) :
    ∃ (r : Round) (asked : List Request) (t : Session g), s.Goes (v.around available) asked t ∧
      t.plan = s.plan ∧ r.first = next ∧ r.Fits v (r.last most available) ∧ t.position = r.stored ∧
      t.phase = r.onwards ∧ asked.filter Request.isShown = r.requests most available := by
  let size := Processor.roundSize most (available - next + 1)
  have one : 1 ≤ size := Processor.roundSize_pos most (by omega)
  have within : size ≤ available - next + 1 := Processor.roundSize_le most _
  have kind : s.plan.kind = .event := by rw [plan]
  obtain ⟨resume, waits, finds⟩ : ∃ resume, s.plan.turn s.phase = .ask (.await next) resume ∧
      ∀ available, resume (.available available) = .admitted s.plan next available := by
    rw [phase]
    exact ⟨_, rfl, fun available => rfl⟩
  let waited := s.answered (v.around available (.await next)) (.await next) resume
  have opens : waited.plan.turn waited.phase =
      .ask (.batchStart size (available - next + 1)) fun _ => .delivering next (next + size - 1) := by
    have opening : waited.phase = .opening next (next + size - 1) available :=
      (finds available).trans
        (Phase.admitted_opening (by rw [plan]) (by rw [kind]; nofun) low found below)
    rw [opening, Plan.turn, Processor.depth_of_fits low (by omega) (by omega),
      Processor.depth_of_fits low found below]
    have length : next + size - 1 - next + 1 = size := by omega
    rw [length]
  let opened := waited.answered {} (.batchStart size (available - next + 1)) fun _ =>
    .delivering next (next + size - 1)
  have before : opened.position ≤ next + size - 1 := by
    show s.position ≤ _
    omega
  obtain ⟨r, asked, t, went, same, first, fits, stored, arrived, shown⟩ :=
    completes_of_delivering v available (s := opened) kind rfl low (by omega)
      (by omega) before
  have last : r.last most available = next + size - 1 := by
    unfold Round.last Round.size Round.depth
    rw [first]
  refine ⟨r, _, t, Goes.ask waits (Goes.ask opens went), same, first, ?_, stored, arrived, ?_⟩
  · rw [last]
    exact fits
  · unfold Round.requests Round.size Round.depth
    rw [last, first]
    exact congrArg (Request.await next :: Request.batchStart size (available - next + 1) :: ·) shown

/-- The events of some rounds that were handed over. -/
def handed (rounds : List Round) : List Int :=
  rounds.flatMap fun r => sequences r.first r.stop

/-- Behind its rounds a processor has handed over everything there is and waits for more, or it has stopped
at the event that ended the last of them. -/
def Settled (available next : Int) (rounds : List Round) (t : Session g) : Prop :=
  (t.phase = .awaiting (available + 1) ∧ handed rounds = sequences next available) ∨
    ∃ r error, rounds.getLast? = some r ∧ r.fatal = some error ∧ next ≤ r.stop ∧
      t.phase = .shuttingDown (some error) ∧ handed rounds = sequences next r.stop

/-- The rounds behind a first one that was not fatal settle all of them. -/
theorem Settled.behind {r : Round} {rounds : List Round}
    (settled : t.Settled available (r.stored + 1) rounds) (first : r.first = next)
    (upright : next ≤ r.stop) (inside : r.stop ≤ available) (stored : r.stored = r.stop) :
    t.Settled available next (r :: rounds) := by
  have whole : handed (r :: rounds) = sequences next r.stop ++ handed rounds := by
    unfold handed
    rw [List.flatMap_cons, first]
  unfold Settled at *
  rw [whole]
  rw [stored] at settled
  rcases settled with ⟨waits, all⟩ | ⟨last, error, ends, fatal, above, stops, some⟩
  · refine Or.inl ⟨waits, ?_⟩
    rw [all, sequences_append (by omega) inside]
  · refine Or.inr ⟨last, error, ?_, fatal, by omega, stops, ?_⟩
    · rw [List.getLast?_cons, ends]
      rfl
    · rw [some, sequences_append (by omega) (by omega)]

/-- A processor whose waits find the same events again and again hands over all of them, or stops at one
of them. -/
theorem goes_round_by_round (plan : s.plan = ⟨.event, Processor.limitOf most⟩)
    (phase : s.phase = .awaiting next) (behind : s.position < next) (low : 0 ≤ next)
    (upright : next ≤ available + 1) (below : available < Word.greatest) :
    ∃ (rounds : List Round) (asked : List Request) (t : Session g),
      s.Goes (v.around available) asked t ∧ Successive available next rounds ∧
        (∀ r ∈ rounds, r.Fits v (r.last most available)) ∧
        asked.filter Request.isShown = rounds.flatMap (Round.requests most available) ∧
        t.Settled available next rounds := by
  -- on how many events are left; a round that is not fatal stores at least one of them
  obtain ⟨left, whole⟩ := Int.eq_ofNat_of_zero_le (show 0 ≤ available + 1 - next by omega)
  induction left using Nat.strongRecOn generalizing s next with
  | _ left ih =>
    by_cases none : next = available + 1
    · refine ⟨[], [], s, Goes.rest s, none, fun r absent => (nomatch absent), rfl, Or.inl ⟨?_, ?_⟩⟩
      · rw [phase, none]
      · rw [sequences_of_lt (by omega)]
        rfl
    · obtain ⟨r, asked, t, went, same, first, fits, stored, arrived, shown⟩ := goes_of_awaiting
        (v := v) plan phase behind low (by omega) below
      have within := r.last_le most available
      have above := fits.first_le
      have inside := fits.stop_le
      cases fatal : r.fatal with
      | some error =>
          refine ⟨[r], asked, t, went, ⟨first, ?_⟩, ?_, ?_, Or.inr ⟨r, error, rfl, fatal, by omega, ?_, ?_⟩⟩
          · rw [fatal]
          · intro one member
            rw [List.mem_singleton.mp member]
            exact fits
          · rw [shown, List.flatMap_singleton]
          · rw [arrived, Round.onwards, fatal]
          · rw [handed, List.flatMap_singleton, first]
      | none =>
          have goesOn := fits.stored_of_passed fatal
          have waits : t.phase = .awaiting (r.stored + 1) := by
            rw [arrived, Round.onwards, fatal]
          obtain ⟨rounds, more, u, further, successive, all, rest, settled⟩ :=
            ih (available + 1 - (r.stored + 1)).toNat (by omega) (s := t)
              (same.trans plan) waits (by omega) (by omega) (by omega) (by omega)
          refine ⟨r :: rounds, asked ++ more, u, went.trans further, ⟨first, ?_⟩, ?_, ?_, ?_⟩
          · rw [fatal]
            exact successive
          · exact List.forall_mem_cons.mpr ⟨fits, all⟩
          · rw [List.filter_append, shown, rest, List.flatMap_cons]
          · exact settled.behind first (by omega) (by omega) goesOn

/-- A processor on a thread that waits for the events from `next` on completes one round with each wait that
finds some: it tells how many it will hand over and how many there are, hands them over up to the last one or
the first that fails, and stores once how far it came.  While its waits find no more than they did at first,
its rounds follow on each other, and hand over each of the events once or stop at one of them.

A processor only `Goes` through phases in which it asks for something, so nothing broke off on the way. -/
theorem rounds_have_their_shape (plan : s.plan = ⟨.event, Processor.limitOf most⟩)
    (phase : s.phase = .awaiting next) (behind : s.position < next) (low : 0 ≤ next)
    (found : next ≤ available) (below : available < Word.greatest) (v : Verdicts) :
    (∃ (r : Round) (asked : List Request) (t : Session g),
      s.Goes (v.around available) asked t ∧ r.first = next ∧ r.Fits v (r.last most available) ∧
        asked.filter Request.isShown = r.requests most available ∧ t.position = r.stored ∧
        t.phase = r.onwards) ∧
      ∃ (rounds : List Round) (asked : List Request) (t : Session g),
        s.Goes (v.around available) asked t ∧ Successive available next rounds ∧
          (∀ r ∈ rounds, r.Fits v (r.last most available)) ∧
          asked.filter Request.isShown = rounds.flatMap (Round.requests most available) ∧
          t.Settled available next rounds := by
  obtain ⟨r, asked, t, went, -, first, fits, stored, arrived, shown⟩ :=
    goes_of_awaiting (v := v) plan phase behind low found below
  exact ⟨⟨r, asked, t, went, first, fits, shown, stored, arrived⟩,
    goes_round_by_round plan phase behind low (by omega) below⟩

/-- A handler that fails at two events, of which the policy lets the first pass. -/
def twoFailures : Verdicts where
  fails t := if t = 1 then some ⟨"odd", []⟩ else if t = 3 then some ⟨"full", []⟩ else none
  judges t failure := if t = 3 then some failure else none

/-- With two events a round at most, a processor that finds five tells both numbers, and stores the second
event although its handler failed there.  The failure at the fourth event ends its second round and the run,
and the third event is the last one that is stored. -/
theorem rounds_have_their_shape_cut_in_two :
    ∃ (s t u : Session ⟨1, by decide⟩) (asked more : List Request),
      s.plan = ⟨.event, Processor.limitOf (some 2)⟩ ∧ s.phase = .awaiting 0 ∧ s.position < 0 ∧
        (4 : Int) < Word.greatest ∧ s.Goes (twoFailures.around 4) asked t ∧
        asked.filter Request.isShown =
          [.await 0, .batchStart 2 5, .event 0 false, .event 1 true, .release 1] ∧
        t.phase = .awaiting 2 ∧ t.position = 1 ∧
        s.Goes (twoFailures.around 4) more u ∧
        more.filter Request.isShown =
          [.await 0, .batchStart 2 5, .event 0 false, .event 1 true, .release 1,
            .await 2, .batchStart 2 3, .event 2 false, .event 3 true, .release 2] ∧
        u.phase = .shuttingDown (some ⟨"full", []⟩) := by
  let s : Session ⟨1, by decide⟩ := { fresh _ .event (some 2) (-1) with phase := .awaiting 0 }
  have plan : s.plan = ⟨.event, Processor.limitOf (some 2)⟩ := rfl
  have phase : s.phase = .awaiting 0 := rfl
  have found : (0 : Int) ≤ 4 := by decide
  have first (r : Round) (start : r.first = 0) (fits : r.Fits twoFailures (r.last (some 2) 4)) :
      r = ⟨0, 1, 1, none⟩ := by
    obtain ⟨_, stop, progress, fatal⟩ := r
    obtain rfl : _ = (0 : Int) := start
    have both := fits.stop_of_two rfl rfl
    obtain rfl : stop = 1 := both
    obtain ⟨rfl, rfl⟩ : progress = 1 ∧ fatal = none := fits.ends
    rfl
  have second (r : Round) (start : r.first = 2) (fits : r.Fits twoFailures (r.last (some 2) 4)) :
      r = ⟨2, 3, 2, some ⟨"full", []⟩⟩ := by
    obtain ⟨_, stop, progress, fatal⟩ := r
    obtain rfl : _ = (2 : Int) := start
    have both := fits.stop_of_two rfl rfl
    obtain rfl : stop = 3 := both
    obtain ⟨rfl, rfl⟩ : progress = 2 ∧ fatal = some ⟨"full", []⟩ := fits.ends
    rfl
  obtain ⟨⟨r, asked, t, went, start, fits, shown, stored, arrived⟩, rounds, more, u, ran, successive, all,
    told, settled⟩ :=
    rounds_have_their_shape plan phase (by decide) (Int.le_refl 0) found (by decide) twoFailures
  obtain rfl := first r start fits
  obtain rfl : rounds = [⟨0, 1, 1, none⟩, ⟨2, 3, 2, some ⟨"full", []⟩⟩] := by
    cases rounds with
    | nil =>
        have short : (0 : Int) = 4 + 1 := successive
        omega
    | cons one rest =>
        obtain rfl := first one successive.1 (all one List.mem_cons_self)
        cases rest with
        | nil =>
            have short : (1 : Int) + 1 = 4 + 1 := successive.2
            omega
        | cons two rest =>
            obtain rfl := second two successive.2.1 (all two (List.mem_cons_of_mem _ List.mem_cons_self))
            obtain rfl : rest = [] := successive.2.2
            rfl
  refine ⟨s, t, u, asked, more, plan, phase, by decide, by decide, went, shown, arrived, stored, ran, told,
    ?_⟩
  rcases settled with ⟨-, whole⟩ | ⟨last, error, ends, fatal, -, stops, -⟩
  · exact absurd whole (by decide)
  · cases ends
    cases fatal
    exact stops

end Session

end EventRing
