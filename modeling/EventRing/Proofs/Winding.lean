import EventRing.Proofs.Resuming
/-!
# EventRing.Proofs.Winding

How a run that was halted comes to its end.  A run looks at its control after the start hook and when
one of its waits was cancelled.  If it finds itself halted there, and every wait is cancelled (`Heeds`),
it winds down: each turn takes it closer to its end (`Phase.left`), nothing is handed over but what is left
of the batch in hand (`Phase.Ahead`), and the shutdown hook is called on the way (`Phase.Winds`, one case
for each phase; `Session.Winds` over a run).

A run that begins with a halt pending is briefer still: it passes through its start and shutdown hooks
(`Session.Passes`).
-/

namespace EventRing

open Processor (Plan Request Phase Kind)

namespace Processor

variable {g : Geometry} {plan : Plan g} {phase : Phase} {request : Request}
variable {resume : request.Answer → Phase} {answer : request.Answer} {next last done : Int} {t : Int}

/-! ## Phases of a run that was halted -/

/-- Between the beginning of a run and its end. -/
@[simp]
def Phase.UnderWay : Phase → Prop
  | .beginning | .complete _ | .faulted _ => False
  | _ => True

/-- Before the check that follows the start hook. -/
@[simp]
def Phase.Early : Phase → Prop
  | .rearming | .starting _ | .startFailed .. | .announcing .. | .checking => True
  | _ => False

/-- On the way out. -/
@[simp]
def Phase.Late : Phase → Prop
  | .shuttingDown _ | .shutdownFailed .. | .finishing _ => True
  | _ => False

/-- After the shutdown hook. -/
@[simp]
def Phase.Past : Phase → Prop
  | .shutdownFailed .. | .finishing _ | .complete _ => True
  | _ => False

/-- The events of the batch in hand that may still be handed over. -/
@[simp]
def Phase.Ahead (t : Int) : Phase → Prop
  | .opening next last _ | .delivering next last | .handing next last => next ≤ t ∧ t ≤ last
  | .batchFailed _ cut last _ => cut < t ∧ t ≤ last
  | _ => False

/-- A batch in hand begins before it ends. -/
def Phase.Upright (phase : Phase) : Prop := phase.Within fun _ => True

/-- The most turns that a halted run still takes whose waits are cancelled. -/
@[simp]
def Phase.left : Phase → Nat
  | .beginning | .complete _ | .faulted _ => 0
  | .finishing _ => 1
  | .shutdownFailed .. => 2
  | .shuttingDown _ => 3
  | .checking | .interrupted _ | .stopping .. => 4
  | .announcing .. | .awaiting _ | .warning .. => 5
  | .startFailed .. | .positioning | .timeoutFailed .. | .skipping _ | .releasing .. => 6
  | .starting _ | .timedOut .. | .verifying .. => 7
  | .rearming | .noting .. | .eventFailed .. => 8
  | .timing _ => 9
  | .opening next last _ => 10 + 2 * (last - next).toNat
  | .delivering next last | .handing next last => 9 + 2 * (last - next).toNat
  | .batchFailed _ cut last _ => 8 + 2 * (last - cut).toNat

/-- The events that a request hands over. -/
@[simp]
def Request.hands : Request → List Int
  | .event sequence _ => [sequence]
  | .batch first last => sequences first last
  | _ => []

/-- What a run is told that was halted and whose barrier was cancelled. -/
@[simp]
def Request.Heeds : (request : Request) → request.Answer → Prop
  | .isActive => fun (active : Bool) => active = false
  | .await _ => fun (outcome : Wait.Outcome) => outcome = .cancelled
  | _ => fun _ => True

/-- A control moves only where runs begin and end. -/
theorem Request.state_controlAfter {c : Control} (begins : request ≠ .begin)
    (ends : request ≠ .finish) : (request.controlAfter c).state = c.state := by
  cases request with
  | begin => exact absurd rfl begins
  | finish => exact absurd rfl ends
  | _ => rfl

/-- Each of these is asked in one phase only. -/
theorem Phase.asked_once (turn : plan.turn phase = .ask request resume) :
    (request = .begin → phase = .beginning) ∧ (request = .rearm → phase = .rearming) ∧
      (request = .finish → ∃ fatal, phase = .finishing fatal) := by
  cases phase with
  | opening | handing | stopping =>
      simp only [Plan.turn] at turn
      split at turn <;> cases turn
      exact ⟨nofun, nofun, nofun⟩
  | complete | faulted => cases turn
  | _ =>
      cases turn
      simp

theorem Phase.underWay_of_turn (started : phase ≠ .beginning)
    (turn : plan.turn phase = .ask request resume) : phase.UnderWay := by
  cases phase with
  | beginning => exact absurd rfl started
  | complete | faulted => cases turn
  | _ => trivial

/-- What a turn of a halted run comes to: it hands over nothing but what was ahead, it comes closer to
its end, and it does not get past its shutdown hook without calling it. -/
structure Phase.Winds (phase : Phase) (request : Request) (after : Phase) : Prop where
  left : after.left < phase.left
  ahead : ∀ t, after.Ahead t → phase.Ahead t
  hands : ∀ t ∈ request.hands, phase.Ahead t
  past : after.Past → phase.Past ∨ request = .shutdown
  early : phase.Early → after.Early ∨ after.Late
  late : phase.Late → after.Late ∨ ∃ error, after = .complete error

/-- A turn with a batch in hand. -/
theorem Phase.winds_of_batch {after : Phase} (early : ¬ phase.Early) (late : ¬ phase.Late)
    (left : after.left < phase.left) (ahead : ∀ t, after.Ahead t → phase.Ahead t)
    (hands : ∀ t ∈ request.hands, phase.Ahead t) (past : ¬ after.Past) :
    phase.Winds request after :=
  ⟨left, ahead, hands, fun ended => absurd ended past, fun is => absurd is early,
    fun is => absurd is late⟩

/-- After an event or a run of events the batch in hand goes on, or is released. -/
theorem Phase.winds_advanced (early : ¬ phase.Early) (late : ¬ phase.Late)
    (left : 7 + 2 * (last - done).toNat < phase.left)
    (ahead : ∀ t, done < t → t ≤ last → phase.Ahead t)
    (hands : ∀ t ∈ request.hands, phase.Ahead t) :
    phase.Winds request (Phase.advanced plan done last) := by
  apply Phase.advanced_cases (P := fun after => phase.Winds request after)
  · exact winds_of_batch early late (Nat.lt_of_le_of_lt (Nat.zero_le _) left) nofun hands id
  · intro _ more
    refine winds_of_batch early late (Nat.lt_of_le_of_lt ?_ left) ?_ hands id
    · simp only [Phase.left]
      omega
    · rintro t ⟨above, below⟩
      exact ahead t (by omega) below
  · intro _ more
    refine winds_of_batch early late (Nat.lt_of_le_of_lt ?_ left) ?_ hands id
    · simp only [Phase.left]
      omega
    · rintro t ⟨above, below⟩
      exact ahead t (by omega) below
  · intro _
    refine winds_of_batch early late (Nat.lt_of_le_of_lt ?_ left) nofun hands id
    simp only [Phase.left]
    omega
  · intro _
    refine winds_of_batch early late (Nat.lt_of_le_of_lt ?_ left) nofun hands id
    simp only [Phase.left]
    omega

theorem Phase.winds_of_turn (started : phase ≠ .beginning) (upright : phase.Upright)
    (turn : plan.turn phase = .ask request resume) (heeds : request.Heeds answer) :
    phase.Winds request (resume answer) := by
  cases phase with
  | beginning => exact absurd rfl started
  | rearming | startFailed | noting | warning | releasing | shutdownFailed | finishing =>
      cases turn
      constructor <;> simp
  | starting | timedOut | timeoutFailed | shuttingDown =>
      cases turn
      cases answer <;> constructor <;> simp
  | announcing mode fatal =>
      cases turn
      cases mode <;> cases fatal <;> constructor <;> simp
  | checking | interrupted =>
      cases turn
      obtain rfl : answer = false := heeds
      constructor <;> simp
  | positioning | skipping =>
      cases turn
      refine Phase.orFault_checked ?_ ?_
      · constructor <;> simp
      · show Phase.Winds _ _ (.awaiting _)
        constructor <;> simp
  | awaiting next =>
      cases turn
      obtain rfl : answer = .cancelled := heeds
      constructor <;> simp
  | timing next =>
      cases turn
      cases plan.kind <;> constructor <;> simp
  | opening next last available =>
      simp only [Plan.turn] at turn
      split at turn <;> cases turn
      constructor <;> simp
  | delivering next last =>
      cases turn
      have hands : ∀ t ∈ (Request.event next (next = last)).hands,
          (Phase.delivering next last).Ahead t := by
        intro t handed
        rw [List.mem_singleton.mp handed]
        exact ⟨Int.le_refl next, upright.2.1⟩
      cases answer with
      | none =>
          refine Phase.winds_advanced id id ?_ ?_ hands
          · simp only [Phase.left]
            omega
          · intro t above below
            exact ⟨by omega, below⟩
      | some failure =>
          refine Phase.winds_of_batch id id ?_ nofun hands id
          simp only [Phase.left]
          omega
  | eventFailed next last failure =>
      cases turn
      cases answer with
      | none => constructor <;> simp
      | some fatal => cases plan.kind <;> constructor <;> simp
  | stopping next failure =>
      simp only [Plan.turn] at turn
      split at turn <;> cases turn
      constructor <;> simp
  | handing next last =>
      simp only [Plan.turn] at turn
      split at turn <;> cases turn
      rename_i cut run
      obtain ⟨above, inside⟩ := lastOfRun_eq_ok run
      have hands : ∀ t ∈ (Request.batch next cut).hands, (Phase.handing next last).Ahead t := by
        intro t handed
        obtain ⟨first, below⟩ := mem_sequences.mp handed
        exact ⟨first, by omega⟩
      cases answer with
      | none =>
          refine Phase.winds_advanced id id ?_ ?_ hands
          · simp only [Phase.left]
            omega
          · intro t above below
            exact ⟨by omega, below⟩
      | some failure =>
          refine Phase.winds_of_batch id id ?_ ?_ hands id
          · simp only [Phase.left]
            omega
          · rintro t ⟨after, below⟩
            exact ⟨by omega, below⟩
  | batchFailed first cut last failure =>
      cases turn
      cases answer with
      | none =>
          refine Phase.winds_advanced id id ?_ ?_ nofun
          · simp only [Phase.left]
            omega
          · exact fun t above below => ⟨above, below⟩
      | some fatal =>
          constructor <;> simp
          omega
  | verifying next last =>
      cases turn
      show Phase.Winds _ _ (if last < answer then .faulted (.backwards answer last)
        else .releasing next last)
      split <;> constructor <;> simp
  | complete | faulted => cases turn

/-! ## Runs that pass through their hooks -/

/-- A request of a run that only passes through its hooks. -/
@[simp]
def Request.Brief : Request → Prop
  | .begin | .start | .judge .. | .announce | .shutdown | .finish => True
  | _ => False

/-- A phase of a run that only passes through its hooks, or the end of that run. -/
@[simp]
def Phase.Brief : Phase → Prop
  | .starting .earlyExit | .startFailed .earlyExit _ | .announcing .earlyExit _ | .shuttingDown _
  | .shutdownFailed .. | .finishing _ | .complete _ | .beginning => True
  | _ => False

theorem Phase.brief_of_turn (brief : phase.Brief) (started : phase ≠ .beginning)
    (turn : plan.turn phase = .ask request resume) (answer : request.Answer) :
    request.Brief ∧ (resume answer).Brief ∧ (phase = .starting .earlyExit → request = .start) := by
  cases phase with
  | beginning => exact absurd rfl started
  | starting mode =>
      cases mode with
      | run => cases brief
      | earlyExit =>
          cases turn
          cases answer <;> simp
  | startFailed mode failure =>
      cases mode with
      | run => cases brief
      | earlyExit =>
          cases turn
          simp
  | announcing mode fatal =>
      cases mode with
      | run => cases brief
      | earlyExit =>
          cases turn
          simp
  | shuttingDown =>
      cases turn
      cases answer <;> simp
  | shutdownFailed | finishing =>
      cases turn
      simp
  | complete => cases turn
  | _ => cases brief

theorem Request.heeds_of_brief (brief : request.Brief) : request.Heeds answer := by
  cases request <;> trivial

/-- Nothing keeps a run that only passes through its hooks from going on. -/
theorem Phase.asks_of_brief (brief : phase.Brief) (going : phase.UnderWay) :
    ∃ request resume, plan.turn phase = .ask request resume ∧ request.Brief := by
  cases phase with
  | beginning | complete => cases going
  | starting | startFailed | announcing | shuttingDown | shutdownFailed | finishing =>
      exact ⟨_, _, rfl, trivial⟩
  | _ => cases brief

end Processor

/-! ## Sessions that were halted -/

namespace Session

variable {g : Geometry} {s t u : Session g} {since : List Exchange}

/-- How many runs were begun. -/
def runs (s : Session g) : Nat := s.log.runs

/-- A run that is under way was halted. -/
def Halted (s : Session g) : Prop := s.phase.UnderWay → s.control.state = .halted

/-- A run that was halted has gone from `s` to `t`, with these requests and answers. -/
structure Winds (s t : Session g) (since : List Exchange) : Prop where
  trace : t.trace = since ++ s.trace
  heeds : ∀ x ∈ since, x.request.Heeds x.answer
  hands : ∀ x ∈ since, ∀ n ∈ x.request.hands, s.phase.Ahead n
  ahead : ∀ n, t.phase.Ahead n → s.phase.Ahead n
  left : since.length + t.phase.left ≤ s.phase.left
  shutdown : t.phase.Past → s.phase.Past ∨ ∃ x ∈ since, x.request = .shutdown

theorem Winds.start (s : Session g) : Winds s s [] :=
  ⟨rfl, nofun, nofun, fun _ => id, Nat.le_of_eq (Nat.zero_add _), Or.inl⟩

theorem Winds.turn {request : Request} {resume : request.Answer → Phase} {around : Outside}
    (winds : Winds s t since) (started : t.phase ≠ .beginning) (upright : t.phase.Upright)
    (turn : t.plan.turn t.phase = .ask request resume)
    (heeds : request.Heeds (t.answer around request)) :
    Winds s (t.answered around request resume)
      (⟨request, t.answer around request⟩ :: since) := by
  have next := Phase.winds_of_turn started upright turn heeds
  refine ⟨congrArg _ winds.trace, ?_, ?_, fun n ahead => winds.ahead n (next.ahead n ahead), ?_, ?_⟩
  · intro x inside
    rcases List.mem_cons.mp inside with rfl | old
    · exact heeds
    · exact winds.heeds x old
  · intro x inside n handed
    rcases List.mem_cons.mp inside with rfl | old
    · exact winds.ahead n (next.hands n handed)
    · exact winds.hands x old n handed
  · have closer := next.left
    have before := winds.left
    simp only [answered, List.length_cons]
    omega
  · intro past
    rcases next.past past with before | asked
    · rcases winds.shutdown before with early | ⟨x, inside, called⟩
      · exact Or.inl early
      · exact Or.inr ⟨x, List.mem_cons_of_mem _ inside, called⟩
    · exact Or.inr ⟨_, List.mem_cons_self, asked⟩

/-- Between its runs a processor waits to be called. -/
theorem Winds.called (winds : Winds s t since) : Winds s { t with phase := .beginning } since :=
  ⟨winds.trace, winds.heeds, winds.hands, nofun, by
    have := winds.left
    show since.length + 0 ≤ _
    omega, nofun⟩

/-- A halt moves the control alone. -/
theorem Winds.halted (winds : Winds s t since) : Winds s t.halt since :=
  ⟨winds.trace, winds.heeds, winds.hands, winds.ahead, winds.left, winds.shutdown⟩

theorem runs_begun {around : Outside} {request : Request} {resume : request.Answer → Phase}
    (turn : s.plan.turn s.phase = .ask request resume) (start : s.phase = .beginning) :
    (s.answered around request resume).runs = s.runs + 1 := by
  rw [start] at turn
  cases turn
  rfl

theorem started_of_runs {around : Outside} {request : Request} {resume : request.Answer → Phase}
    (turn : s.plan.turn s.phase = .ask request resume)
    (same : (s.answered around request resume).runs ≤ s.runs) : s.phase ≠ .beginning := by
  intro start
  have more : (s.answered around request resume).runs = s.runs + 1 := runs_begun turn start
  omega

theorem runs_of_started {around : Outside} {request : Request} {resume : request.Answer → Phase}
    (turn : s.plan.turn s.phase = .ask request resume) (started : s.phase ≠ .beginning) :
    (s.answered around request resume).runs = s.runs :=
  Log.runs_add fun begun => started ((Phase.asked_once turn).1 begun)

/-- Only a run that begins adds to the runs. -/
theorem runs_of_change (h : Change s t) :
    t.runs = s.runs ∨ (s.phase = .beginning ∧ t.runs = s.runs + 1) := by
  cases h with
  | called => exact Or.inl rfl
  | turned turn around =>
      by_cases start : s.phase = .beginning
      · exact Or.inr ⟨start, runs_begun turn start⟩
      · exact Or.inl (runs_of_started turn start)
  | halted => exact Or.inl rfl

/-- A control keeps its state as long as the run goes on. -/
theorem state_answered {around : Outside} {request : Request} {resume : request.Answer → Phase}
    (turn : s.plan.turn s.phase = .ask request resume) (started : s.phase ≠ .beginning)
    (going : (s.answered around request resume).phase.UnderWay) :
    (s.answered around request resume).control.state = s.control.state := by
  obtain ⟨begins, -, ends⟩ := Phase.asked_once turn
  refine Request.state_controlAfter (fun begun => started (begins begun)) fun finish => ?_
  obtain ⟨fatal, phase⟩ := ends finish
  rw [phase] at turn
  cases turn
  exact going

/-- A halt stays on until the run is over. -/
theorem halted_of_change (halted : s.Halted) (same : t.runs = s.runs) (h : Change s t) :
    t.Halted := by
  cases h with
  | called => exact nofun
  | turned turn around =>
      have started := started_of_runs turn (Nat.le_of_eq same)
      intro going
      rw [state_answered turn started going]
      exact halted (Phase.underWay_of_turn started turn)
  | halted => exact fun _ => rfl

/-- The control of a run that is under way is not idle. -/
theorem busy_of_change (busy : s.phase.UnderWay → s.control.state ≠ .idle) (h : Change s t) :
    t.phase.UnderWay → t.control.state ≠ .idle := by
  cases h with
  | called => exact nofun
  | @turned request resume turn around =>
      intro going
      by_cases start : s.phase = .beginning
      · rw [start] at turn
        cases turn
        unfold answered answer Request.controlAfter Control.begin at going ⊢
        cases state : s.control.state with
        | idle => simp
        | halted => simp [state]
        | running =>
            rw [state] at going
            cases going
      · rw [state_answered turn start going]
        exact busy (Phase.underWay_of_turn start turn)
  | halted => exact fun _ => nofun

/-- What holds of every session. -/
structure Formed (s : Session g) : Prop where
  limit : 1 ≤ s.plan.limit
  upright : s.phase.Upright
  busy : s.phase.UnderWay → s.control.state ≠ .idle

theorem formed_of_change (formed : s.Formed) (h : Change s t) : t.Formed := by
  refine ⟨by rw [plan_of_change h]; exact formed.limit, ?_, busy_of_change formed.busy h⟩
  cases h with
  | called => trivial
  | turned turn around =>
      have convex : Convex fun _ => True := fun _ _ _ _ => trivial
      refine Phase.within_of_turn formed.limit convex formed.upright turn _ ?_
      rename_i request resume
      cases request with
      | await next => exact fun _ _ _ => trivial
      | _ => trivial
  | halted => exact formed.upright

/-- A halted run is told that it is no longer active. -/
theorem heeds_answer {around : Outside} {request : Request} (halted : s.control.state = .halted)
    (cancelled : ∀ next, request = .await next → around.outcome = .cancelled) :
    request.Heeds (s.answer around request) := by
  cases request with
  | isActive => simp [answer, Control.isActive, halted]
  | await next => exact cancelled next rfl
  | _ => trivial

/-! ### Passing through -/

/-- A processor that was halted between its runs has gone from `s` to `t`, with these requests and
answers: the next run only calls its start and shutdown hooks. -/
structure Passes (s t : Session g) (since : List Exchange) : Prop where
  trace : t.trace = since ++ s.trace
  brief : ∀ x ∈ since, x.request.Brief
  left : since.length ≤ 8
  hooks : ∀ error, t.runs = s.runs + 1 → t.phase = .complete error →
    (∃ x ∈ since, x.request = .start) ∧ ∃ x ∈ since, x.request = .shutdown

/-- The next run has not begun, and will find the halt. -/
structure Due (s t : Session g) : Prop where
  trace : t.trace = s.trace
  runs : t.runs = s.runs
  idle : ¬ t.phase.UnderWay
  halted : t.control.state = .halted

/-- The next run has begun, and it came so far. -/
structure Begun (s t : Session g) (since : List Exchange) : Prop where
  trace : t.trace = since ++ s.trace
  runs : t.runs = s.runs + 1
  phase : t.phase.Brief
  brief : ∀ x ∈ since, x.request.Brief
  started : t.phase = .starting .earlyExit ∨ ∃ x ∈ since, x.request = .start
  shut : t.phase.Past → ∃ x ∈ since, x.request = .shutdown
  left : since.length + t.phase.left ≤ 8

theorem Due.next (due : Due s t) (h : Change t u) : Due s u ∨ ∃ since, Begun s u since := by
  cases h with
  | called => exact Or.inl ⟨due.trace, due.runs, id, due.halted⟩
  | @turned request resume turn around =>
      have start : t.phase = .beginning := Decidable.byContradiction fun started =>
        due.idle (Phase.underWay_of_turn started turn)
      have runs : (t.answered around request resume).runs = s.runs + 1 := by
        rw [runs_begun turn start, due.runs]
      have begun : request = .begin ∧
          (t.answered around request resume).phase = .starting .earlyExit := by
        rw [start] at turn
        cases turn
        simp [answered, answer, Control.begin, due.halted, Except.map]
      obtain ⟨begins, phase⟩ := begun
      refine Or.inr ⟨[⟨request, t.answer around request⟩], congrArg (List.cons _) due.trace, runs, ?_,
        ?_, Or.inl phase, ?_, ?_⟩
      · rw [phase]
        trivial
      · intro x inside
        rw [List.mem_singleton.mp inside, begins]
        trivial
      · rw [phase]
        simp
      · rw [phase]
        simp
  | halted => exact Or.inl ⟨due.trace, due.runs, due.idle, rfl⟩

theorem Due.passes (due : Due s t) : Passes s t [] :=
  ⟨due.trace, nofun, Nat.zero_le 8, fun error more => absurd more (by rw [due.runs]; omega)⟩

theorem Begun.passes (begun : Begun s t since) : Passes s t since := by
  have left := begun.left
  refine ⟨begun.trace, begun.brief, by omega, fun error _ ended => ⟨?_, begun.shut ?_⟩⟩
  · refine begun.started.resolve_left fun starting => ?_
    rw [ended] at starting
    cases starting
  · rw [ended]
    trivial

theorem Begun.next (begun : Begun s t since) (upright : t.phase.Upright) (h : Change t u)
    (same : u.runs ≤ s.runs + 1) : ∃ since, Begun s u since := by
  cases h with
  | called idle =>
      refine ⟨since, begun.trace, begun.runs, trivial, begun.brief, Or.inr ?_, nofun, ?_⟩
      · refine begun.started.resolve_left fun starting => ?_
        rw [starting] at idle
        exact idle _ _ rfl
      · have := begun.left
        show since.length + 0 ≤ 8
        omega
  | @turned request resume turn around =>
      have started := started_of_runs turn (begun.runs ▸ same)
      obtain ⟨asked, brief, first⟩ :=
        Phase.brief_of_turn begun.phase started turn (t.answer around request)
      have winds : t.phase.Winds request (resume (t.answer around request)) :=
        Phase.winds_of_turn started upright turn (Request.heeds_of_brief asked)
      refine ⟨⟨request, t.answer around request⟩ :: since, congrArg _ begun.trace, ?_, brief, ?_,
        Or.inr ?_, ?_, ?_⟩
      · rw [runs_of_started turn started, begun.runs]
      · intro x inside
        rcases List.mem_cons.mp inside with rfl | old
        · exact asked
        · exact begun.brief x old
      · rcases begun.started with starting | ⟨x, inside, called⟩
        · exact ⟨_, List.mem_cons_self, first starting⟩
        · exact ⟨x, List.mem_cons_of_mem _ inside, called⟩
      · intro past
        rcases winds.past past with before | called
        · obtain ⟨x, inside, called⟩ := begun.shut before
          exact ⟨x, List.mem_cons_of_mem _ inside, called⟩
        · exact ⟨_, List.mem_cons_self, called⟩
      · have := begun.left
        have closer := winds.left
        simp only [answered, List.length_cons]
        omega
  | halted =>
      exact ⟨since, begun.trace, begun.runs, begun.phase, begun.brief, begun.started, begun.shut,
        begun.left⟩

end Session

end EventRing
