import EventRing.Proofs.Session
import EventRing.Proofs.Faults
import EventRing.Proofs.Publishing
/-!
# EventRing.Proofs.Resuming

What a processor hands over in all its runs together, whatever fails, whoever halts it and whatever its
barrier answers, as long as nobody else stores its progress.  Calls are in order: each begins with the
event after the last one that was handed over, and after a call that turned out fatal with the first
event of that call again, in a later run (`InOrder`).  So, the fatal calls left out, every event is
handed over once (`passed_eq`), and a run that is over has stored exactly what was passed.

The two places where a processor keeps how far it is, the sequence that it waits for and its progress,
are tied to the calls of its trace phase by phase (`Processor.Phase.Stands`).
-/

namespace EventRing

open EventRing.Action
open Processor (Plan Request Phase Kind)

/-! ## Calls in order -/

namespace Call

/-- The event that comes after a call: its own first one again if it turned out fatal. -/
def next (c : Call) : Int := if c.fatal then c.first else c.last + 1

/-- The events of a call. -/
def events (c : Call) : List Int := sequences c.first c.last

end Call

/-- The event that comes after all calls so far, the latest of them first; a processor begins behind
`p`. -/
def upcoming (p : Int) : List Call → Int
  | [] => p + 1
  | c :: _ => c.next

/-- Calls, the latest first, each of which begins where the one before left off, and in a later run if
that one was fatal. -/
inductive InOrder (p : Int) : List Call → Prop where
  | nil : InOrder p []
  | cons {c : Call} {older : List Call} (before : InOrder p older)
      (here : c.first = upcoming p older) (upright : c.first ≤ c.last)
      (below : c.last < Word.greatest)
      (later : ∀ d ∈ older.head?, d.run ≤ c.run ∧ (d.fatal → d.run < c.run)) :
      InOrder p (c :: older)

/-- The events of the calls that were not fatal, the latest call first. -/
def passed : List Call → List Int
  | [] => []
  | c :: older => passed older ++ if c.fatal then [] else c.events

namespace InOrder

variable {p : Int} {c : Call} {calls older : List Call}

theorem start_le (order : InOrder p calls) : p + 1 ≤ upcoming p calls := by
  induction order with
  | nil => exact Int.le_refl _
  | @cons c older before here upright below later ih =>
      show p + 1 ≤ c.next
      unfold Call.next
      split <;> omega

theorem upcoming_le (order : InOrder p calls) (below : p < Word.greatest) :
    upcoming p calls ≤ Word.greatest := by
  cases order with
  | nil => exact below
  | @cons c older before here upright below later =>
      show c.next ≤ Word.greatest
      unfold Call.next
      split <;> omega

theorem start_le_first (order : InOrder p calls) (latest : calls.head? = some c) :
    p + 1 ≤ c.first := by
  cases order with
  | nil => cases latest
  | cons before here upright below later =>
      cases latest
      have := before.start_le
      omega

/-- Whether the latest call was fatal or not does not disturb the order. -/
theorem condemn (order : InOrder p (c :: older)) : InOrder p ({ c with fatal := true } :: older) := by
  cases order with
  | cons before here upright below later => exact InOrder.cons before here upright below later

theorem condemned {l : Log} (order : InOrder p l.calls) : InOrder p l.condemn.calls := by
  unfold Log.condemn
  cases calls : l.calls with
  | nil =>
      show InOrder p l.calls
      exact order
  | cons c older =>
      rw [calls] at order
      exact order.condemn

/-- Calls in order pass the events from the first one on, each of them once. -/
theorem passed_eq (order : InOrder p calls) :
    passed calls = sequences (p + 1) (upcoming p calls - 1) := by
  induction order with
  | nil =>
      have none : upcoming p [] - 1 < p + 1 := by simp only [upcoming]; omega
      exact (sequences_of_lt none).symm
  | @cons c older before here upright below later ih =>
      have begun := before.start_le
      show passed older ++ (if c.fatal then [] else c.events) = sequences (p + 1) (c.next - 1)
      rw [ih, ← here]
      cases fatal : c.fatal with
      | true => simp [Call.next, fatal]
      | false =>
          have meet : c.first = c.first - 1 + 1 := by omega
          simp only [Call.next, Call.events, fatal, Bool.false_eq_true, ite_false,
            Int.add_sub_cancel]
          rw [meet, Int.add_sub_cancel]
          exact sequences_append (by omega) (by omega)

end InOrder

/-! ## What phases know of the calls -/

namespace Log

variable {p : Int} {l : Log} {x : Exchange}

/-- No call is of a run that has not begun. -/
def Counted (l : Log) : Prop := ∀ c ∈ l.calls.head?, c.run ≤ l.runs

/-- The run under way may call: the latest call was not fatal, or was made in an earlier run. -/
def Open (l : Log) : Prop := ∀ c ∈ l.calls.head?, c.run ≤ l.runs ∧ (c.fatal → c.run < l.runs)

theorem open_call (first last : Int) :
    Open { l with calls := ⟨first, last, l.runs, false⟩ :: l.calls } := by
  intro c latest
  cases latest
  exact ⟨Nat.le_refl _, fun fatal => (nomatch fatal)⟩

theorem open_of_latest {first last : Int}
    (latest : l.calls.head? = some ⟨first, last, l.runs, false⟩) : l.Open := by
  intro c here
  rw [latest] at here
  cases here
  exact ⟨Nat.le_refl _, fun fatal => (nomatch fatal)⟩

theorem upcoming_of_latest {c : Call} (latest : l.calls.head? = some c) :
    upcoming p l.calls = c.next := by
  cases calls : l.calls with
  | nil => simp [calls] at latest
  | cons d older =>
      simp only [calls, List.head?_cons, Option.some.injEq] at latest
      rw [← latest]
      rfl

/-- A call that turned out fatal begins again. -/
theorem upcoming_condemn {first last : Int} {run : Nat} {fatal : Bool}
    (latest : l.calls.head? = some ⟨first, last, run, fatal⟩) :
    upcoming p l.condemn.calls = first := by
  cases calls : l.calls with
  | nil => simp [calls] at latest
  | cons d older =>
      simp only [calls, List.head?_cons, Option.some.injEq] at latest
      simp [condemn, calls, upcoming, Call.next, latest]

theorem counted_condemn (counted : l.Counted) : l.condemn.Counted := by
  unfold condemn
  cases calls : l.calls with
  | nil => exact counted
  | cons d older =>
      intro c latest
      cases latest
      exact counted d (by simp [calls])

theorem counted_add (counted : l.Counted) : (Log.add x l).Counted := by
  unfold add
  split
  · exact fun c latest => Nat.le_succ_of_le (counted c latest)
  · exact fun c latest => (open_call _ _ c latest).1
  · exact fun c latest => (open_call _ _ c latest).1
  · exact counted_condemn counted
  · exact counted_condemn counted
  · exact counted

/-- Only a run that begins adds to the runs. -/
theorem runs_add (other : x.request ≠ .begin) : (Log.add x l).runs = l.runs := by
  unfold add
  split
  · exact absurd rfl other
  · rfl
  · rfl
  · unfold condemn
    cases l.calls <;> rfl
  · unfold condemn
    cases l.calls <;> rfl
  · rfl

/-- A run that begins is open. -/
theorem open_begun (counted : l.Counted) : Open { l with runs := l.runs + 1 } := by
  intro c latest
  have := counted c latest
  exact ⟨Nat.le_succ_of_le this, fun _ => Nat.lt_succ_of_le this⟩

end Log

namespace Processor

variable {g : Geometry} {plan : Plan g} {phase : Phase} {p position next last done available : Int}
variable {l : Log}

/-- Where a phase stands after some calls of a processor that began behind `p`: what it waits for or
hands over next comes after them, its progress is behind that, and at rest right behind it. -/
def Phase.Stands (p : Int) (l : Log) (position : Int) : Phase → Prop
  | .awaiting next | .timing next | .interrupted next | .noting next _ | .timedOut next _
  | .timeoutFailed next _ _ =>
    l.Open ∧ next = upcoming p l.calls ∧ position + 1 = next ∧ next ≤ Word.greatest
  | .opening next last available =>
    l.Open ∧ next = upcoming p l.calls ∧ position + 1 = next ∧ next ≤ last ∧ last ≤ available ∧
      available < Word.greatest
  | .delivering next last | .handing next last =>
    l.Open ∧ next = upcoming p l.calls ∧ position < next ∧ next ≤ last ∧ last < Word.greatest
  | .eventFailed next last _ =>
    l.calls.head? = some ⟨next, next, l.runs, false⟩ ∧ next ≤ last ∧ last < Word.greatest
  | .batchFailed first cut last _ =>
    l.calls.head? = some ⟨first, cut, l.runs, false⟩ ∧ position < first ∧ first ≤ cut ∧
      cut ≤ last ∧ last < Word.greatest
  | .skipping next => l.Open ∧ next + 1 = upcoming p l.calls ∧ next < Word.greatest
  | .warning next _ | .stopping next _ => next = upcoming p l.calls ∧ next ≤ Word.greatest
  | .verifying next last | .releasing next last =>
    l.Open ∧ next = upcoming p l.calls ∧ last + 1 = next ∧ position < next ∧ last < Word.greatest
  | .beginning | .shuttingDown _ | .shutdownFailed .. | .finishing _ | .complete _ =>
    position + 1 = upcoming p l.calls
  | .faulted _ => position + 1 = upcoming p l.calls ∧ Word.greatest ≤ position
  | _ => l.Open ∧ position + 1 = upcoming p l.calls

/-- What is answered about the progress is true, and no wait finds the end of the 64-bit range. -/
def Request.Sincere (position : Int) : (request : Request) → request.Answer → Prop
  | .position => fun (now : Int) => now = position
  | .await _ => fun (outcome : Wait.Outcome) =>
    ∀ available, outcome = .available available → available < Word.greatest
  | _ => fun _ => True

/-! ### Turns -/

theorem Phase.stands_admitted (limit : 1 ≤ plan.limit) (started : l.Open)
    (here : next = upcoming p l.calls) (rests : position + 1 = next) (low : 0 ≤ next)
    (high : next ≤ Word.greatest) (below : available < Word.greatest) :
    (Phase.admitted plan next available).Stands p l position := by
  have sound : ∀ fault, Phase.admitted plan next available ≠ .faulted fault :=
    Phase.admitted_ne_faulted limit low below
  revert sound
  apply Phase.admitted_cases
    (P := fun phase => (∀ fault, phase ≠ .faulted fault) → phase.Stands p l position) limit
  · intro sound
    exact absurd rfl (sound .overflow)
  · intro _ _
    exact ⟨started, here, rests, high⟩
  · intro last _ above inside _
    exact ⟨started, here, by omega, above, by omega⟩
  · intro last _ above inside _
    exact ⟨started, here, rests, above, inside, below⟩

theorem Phase.stands_advanced (started : l.Open) (here : done + 1 = upcoming p l.calls)
    (behind : position ≤ done) (low : 0 ≤ done) (inside : done ≤ last)
    (below : last < Word.greatest) : (Phase.advanced plan done last).Stands p l position := by
  have sound : ∀ fault, Phase.advanced plan done last ≠ .faulted fault :=
    Phase.advanced_ne_faulted low (Int.lt_of_le_of_lt inside below)
  revert sound
  apply Phase.advanced_cases
    (P := fun phase => (∀ fault, phase ≠ .faulted fault) → phase.Stands p l position)
  · intro sound
    exact absurd rfl (sound .overflow)
  · intro _ more _
    exact ⟨started, here, by omega, more, below⟩
  · intro _ more _
    exact ⟨started, here, by omega, more, below⟩
  · intro past _
    exact ⟨started, here, by omega, by omega, below⟩
  · intro past _
    exact ⟨started, here, by omega, by omega, below⟩

/-- A processor that is answered sincerely knows after a turn where its calls have come to. -/
theorem Phase.stands_of_turn {request : Request} {resume : request.Answer → Phase}
    (limit : 1 ≤ plan.limit) (start : -1 ≤ p) (order : InOrder p l.calls) (counted : l.Counted)
    (stands : phase.Stands p l position) (turn : plan.turn phase = .ask request resume)
    (answer : request.Answer) (sincere : request.Sincere position answer) :
    (resume answer).Stands p (Log.add ⟨request, answer⟩ l) (request.positionAfter position) := by
  have low := order.start_le
  cases phase with
  | beginning =>
      cases turn
      rcases answer with error | mode
      · exact stands
      · cases mode <;> exact ⟨Log.open_begun counted, stands⟩
  | rearming | startFailed =>
      cases turn
      exact stands
  | starting =>
      cases turn
      cases answer <;> exact stands
  | announcing mode fatal =>
      cases turn
      cases mode <;> cases fatal <;> first | exact stands | exact stands.2
  | checking =>
      cases turn
      cases answer with
      | true => exact stands
      | false => exact stands.2
  | positioning =>
      cases turn
      obtain ⟨started, rests⟩ := stands
      obtain rfl : position = answer := Eq.symm sincere
      by_cases fits : Word.Fits (position + 1)
      · show Phase.Stands _ _ _ (Phase.orFault (Word.checked (position + 1) >>= _))
        rw [except_checked_of_fits fits]
        exact ⟨started, rests, rfl, fits.2⟩
      · -- it stands at the end of the 64-bit range and has nothing more to wait for
        have past : ¬ position + 1 ≤ Word.greatest := fun high =>
          fits (fits_of_nonneg (by omega) high)
        show Phase.Stands _ _ _ (Phase.orFault (Word.checked (position + 1) >>= _))
        rw [Word.checked, if_neg fits]
        exact ⟨rests, Int.le_of_lt_add_one (Int.not_le.mp past)⟩
  | awaiting next =>
      cases turn
      obtain ⟨started, here, rests, high⟩ := stands
      cases answer with
      | available available =>
          exact stands_admitted limit started here rests (by omega) high (sincere available rfl)
      | timeout => exact ⟨started, here, rests, high⟩
      | cancelled => exact ⟨started, here, rests, high⟩
  | timing next =>
      cases turn
      cases plan.kind <;> exact stands
  | noting =>
      cases turn
      exact stands
  | timedOut =>
      cases turn
      cases answer <;> exact stands
  | timeoutFailed next last failure =>
      cases turn
      obtain ⟨started, here, rests, high⟩ := stands
      cases answer with
      | none => exact ⟨started, here, rests, high⟩
      | some fatal => exact rests.trans here
  | interrupted next =>
      cases turn
      obtain ⟨started, here, rests, high⟩ := stands
      cases answer with
      | true => exact ⟨started, here, rests, high⟩
      | false => exact rests.trans here
  | opening next last available =>
      obtain ⟨started, here, rests, above, inside, below⟩ := stands
      simp only [Plan.turn] at turn
      split at turn
      · cases turn
        exact ⟨started, here, by show position < next; omega, above, by omega⟩
      · cases turn
      · cases turn
  | delivering next last =>
      cases turn
      obtain ⟨started, here, behind, above, below⟩ := stands
      cases answer with
      | none =>
          exact stands_advanced (Log.open_call next next) rfl (Int.le_of_lt behind) (by omega) above
            below
      | some failure => exact ⟨rfl, above, below⟩
  | eventFailed next last failure =>
      cases turn
      obtain ⟨latest, above, below⟩ := stands
      cases answer with
      | none =>
          exact ⟨Log.open_of_latest latest, (Log.upcoming_of_latest latest).symm, by omega⟩
      | some fatal =>
          have again := Log.upcoming_condemn (p := p) latest
          cases plan.kind <;> exact ⟨again.symm, by omega⟩
  | skipping next =>
      cases turn
      obtain ⟨started, here, below⟩ := stands
      show Phase.Stands _ _ _ (Phase.orFault (Word.checked (next + 1) >>= _))
      rw [except_checked_of_fits (fits_of_nonneg (by omega) (by omega))]
      exact ⟨started, here, rfl, by omega⟩
  | warning =>
      cases turn
      exact stands
  | stopping next failure =>
      simp only [Plan.turn] at turn
      split at turn
      · rename_i before passed
        obtain ⟨-, rfl⟩ := Word.checked_eq_ok_iff.mp passed
        cases turn
        exact (Int.sub_add_cancel next 1).trans stands.1
      · cases turn
  | handing next last =>
      obtain ⟨started, here, behind, above, below⟩ := stands
      simp only [Plan.turn] at turn
      split at turn
      · rename_i cut run
        obtain ⟨first, inside⟩ := lastOfRun_eq_ok run
        cases turn
        cases answer with
        | none =>
            have behind : position ≤ cut := by omega
            exact stands_advanced (Log.open_call next cut) rfl behind (by omega) inside below
        | some failure => exact ⟨rfl, behind, first, inside, below⟩
      · cases turn
  | batchFailed first cut last failure =>
      cases turn
      obtain ⟨latest, behind, above, inside, below⟩ := stands
      have here : cut + 1 = upcoming p l.calls := (Log.upcoming_of_latest latest).symm
      cases answer with
      | none =>
          have begun : p + 1 ≤ first := order.start_le_first latest
          have behind : position ≤ cut := by omega
          exact stands_advanced (Log.open_of_latest latest) here behind (by omega) inside below
      | some fatal => exact ⟨(Log.upcoming_condemn latest).symm, by omega⟩
  | verifying next last =>
      cases turn
      obtain ⟨started, here, after, behind, below⟩ := stands
      obtain rfl : position = answer := Eq.symm sincere
      show Phase.Stands _ _ _ (if last < position then .faulted (.backwards position last)
        else .releasing next last)
      rw [if_neg (by omega)]
      exact ⟨started, here, after, behind, below⟩
  | releasing next last =>
      cases turn
      obtain ⟨started, here, after, behind, below⟩ := stands
      exact ⟨started, here, after, by omega⟩
  | shuttingDown =>
      cases turn
      cases answer <;> exact stands
  | shutdownFailed | finishing =>
      cases turn
      exact stands
  | complete => cases turn
  | faulted => cases turn

/-- A call is made with what comes next, and after a fatal one in a later run. -/
theorem Phase.inOrder_of_turn {request : Request} {resume : request.Answer → Phase}
    (order : InOrder p l.calls) (stands : phase.Stands p l position)
    (turn : plan.turn phase = .ask request resume) (answer : request.Answer) :
    InOrder p (Log.add ⟨request, answer⟩ l).calls := by
  unfold Log.add
  split
  · exact order
  · rename_i same
    cases same
    obtain ⟨last, rfl⟩ := Phase.event_cases turn
    obtain ⟨started, here, -, above, below⟩ := stands
    exact InOrder.cons order here (Int.le_refl _) (Int.lt_of_le_of_lt above below) started
  · rename_i same
    cases same
    obtain ⟨last, rfl, run⟩ := Phase.batch_cases turn
    obtain ⟨first, inside⟩ := lastOfRun_eq_ok run
    obtain ⟨started, here, -, above, below⟩ := stands
    exact InOrder.cons order here first (Int.lt_of_le_of_lt inside below) started
  · exact order.condemned
  · exact order.condemned
  · exact order

theorem Phase.fitting_of_stands (start : -1 ≤ p) (order : InOrder p l.calls)
    (stands : phase.Stands p l position) : phase.Fitting := by
  have low := order.start_le
  cases phase with
  | opening next last available =>
      obtain ⟨-, here, -, above, inside, below⟩ := stands
      exact ⟨by omega, above, inside, below⟩
  | stopping next failure =>
      obtain ⟨here, high⟩ := stands
      exact ⟨by omega, high⟩
  | handing next last =>
      obtain ⟨-, here, -, above, below⟩ := stands
      exact ⟨by omega, above, below⟩
  | _ => trivial

end Processor

/-! ## Sessions -/

/-- What a wait found, if anything, lies below the end of the 64-bit range. -/
def Exchange.isBounded : Exchange → Bool
  | ⟨.await _, .available available⟩ => available < Word.greatest
  | _ => true

namespace Session

variable {g : Geometry} {s t : Session g} {p : Int} {kind : Kind} {most : Option Nat}

/-- No wait found the end of the 64-bit range. -/
def Bounded (s : Session g) : Prop := ∀ x ∈ s.trace, x.isBounded

instance (s : Session g) : Decidable s.Bounded := List.decidableBAll _ _

/-- What holds of a processor that began behind `p`. -/
structure Kept (p : Int) (s : Session g) : Prop where
  limit : 1 ≤ s.plan.limit
  order : InOrder p s.log.calls
  counted : s.log.Counted
  stands : s.phase.Stands p s.log s.position

/-- What was bounded in the end was bounded before. -/
theorem bounded_of_change (h : Change s t) (bounded : t.Bounded) : s.Bounded := by
  intro x inside
  rcases trace_of_change h with same | ⟨latest, more⟩
  · exact bounded x (same ▸ inside)
  · exact bounded x (more ▸ List.mem_cons_of_mem latest inside)

/-- A session answers its own requests sincerely. -/
theorem sincere_answer {around : Outside} {request : Request}
    (bounded : Exchange.isBounded ⟨request, s.answer around request⟩) :
    request.Sincere s.position (s.answer around request) := by
  cases request with
  | position => rfl
  | await next =>
      intro available found
      rw [found] at bounded
      exact of_decide_eq_true bounded
  | _ => trivial

theorem kept_of_change (start : -1 ≤ p) (kept : s.Kept p) (bounded : t.Bounded)
    (h : Change s t) : t.Kept p := by
  obtain ⟨limit, order, counted, stands⟩ := kept
  cases h with
  | called idle =>
      refine ⟨limit, order, counted, ?_⟩
      rcases Phase.idle_cases (Phase.fitting_of_stands start order stands) idle with ⟨error, phase⟩ | ⟨fault, phase⟩
      · rw [phase] at stands
        exact stands
      · rw [phase] at stands
        exact stands.1
  | turned turn around =>
      exact ⟨limit, Phase.inOrder_of_turn order stands turn _, Log.counted_add counted,
        Phase.stands_of_turn limit start order counted stands turn _ (sincere_answer (bounded _ List.mem_cons_self))⟩
  | halted => exact ⟨limit, order, counted, stands⟩

theorem kept_of_leads (start : -1 ≤ p) (led : Leads (fresh g kind most p) s)
    (bounded : s.Bounded) : s.Kept p := by
  have all := led.invariant (motive := fun s => s.Bounded → s.Kept p) ?_ ?_
  · exact all bounded
  · intro _
    exact ⟨Processor.limitOf_pos most, InOrder.nil, fun _ none => (nomatch none), rfl⟩
  · intro s act t kept _ made bounded
    have change := change_of_step made
    exact kept_of_change start (kept (bounded_of_change change bounded)) bounded change

theorem Kept.ne_faulted (kept : s.Kept p) (below : p < Word.greatest) (fault : Fault) :
    s.phase ≠ .faulted fault := by
  intro broken
  have stands := kept.stands
  rw [broken] at stands
  obtain ⟨rests, past⟩ := stands
  have := kept.order.upcoming_le below
  omega

/-- A run that is not over asks for something, or came to the end of the 64-bit range. -/
theorem Kept.asks (kept : s.Kept p) (start : -1 ≤ p) (going : ∀ error, s.phase ≠ .complete error)
    (sound : ∀ fault, s.phase ≠ .faulted fault) :
    ∃ request resume, s.plan.turn s.phase = .ask request resume := by
  refine Classical.byContradiction fun none => ?_
  have idle : ∀ request resume, s.plan.turn s.phase ≠ .ask request resume :=
    fun request resume asked => none ⟨request, resume, asked⟩
  have fitting := Phase.fitting_of_stands start kept.order kept.stands
  rcases Phase.idle_cases fitting idle with ⟨error, ended⟩ | ⟨fault, broken⟩
  · exact going error ended
  · exact sound fault broken

/-- Whatever fails, whoever halts and whatever is answered, a processor that began behind `p` hands over
the events after `p` in order: a call begins after the last event handed over, except that the events of
a fatal call come again, from the first one on, in the next run that hands over anything.  Between the
runs its progress is the last event passed, and no run breaks off before the 64-bit range is used up. -/
theorem events_are_neither_lost_nor_repeated (start : -1 ≤ p)
    (led : Leads (fresh g kind most p) s) (bounded : s.Bounded) :
    InOrder p s.log.calls ∧
      passed s.log.calls = sequences (p + 1) (upcoming p s.log.calls - 1) ∧
      (∀ error, s.phase = .complete error → s.position = upcoming p s.log.calls - 1) ∧
      (p < Word.greatest → ∀ fault, s.plan.turn s.phase ≠ .broken fault) := by
  have kept := kept_of_leads start led bounded
  refine ⟨kept.order, kept.order.passed_eq, fun error ended => ?_, fun below fault broken => ?_⟩
  · have stands := kept.stands
    rw [ended] at stands
    have rests : s.position + 1 = upcoming p s.log.calls := stands
    omega
  · have going : ∀ error, s.phase ≠ .complete error := fun error ended => by
      rw [ended] at broken
      cases broken
    obtain ⟨request, resume, asked⟩ := kept.asks start going (kept.ne_faulted below)
    rw [asked] at broken
    cases broken

/-- Two runs: the second event of the first one fails for good, and the second run is halted once it has
handed that event over again. -/
def twoRuns : List Act :=
  .call :: List.replicate 6 (.turn {}) ++
    [.turn { outcome := .available 1 }, .turn {}, .turn {}, .turn { failure := some ⟨"full", []⟩ },
      .turn { failure := some ⟨"full", []⟩ }] ++ List.replicate 3 (.turn {}) ++
  .call :: List.replicate 6 (.turn {}) ++
    [.turn { outcome := .available 1 }, .turn {}, .turn {}, .turn {}, .turn {}, .halt] ++
    List.replicate 4 (.turn {})

/-- Over two runs, event 0 is handed over once and the event that failed for good a second time. -/
theorem events_are_neither_lost_nor_repeated_two_runs :
    ∃ s : Session ⟨1, by decide⟩,
      Leads (fresh ⟨1, by decide⟩ .event none (-1)) s ∧ s.Bounded ∧
      s.log.calls = [⟨1, 1, 2, false⟩, ⟨1, 1, 1, true⟩, ⟨0, 0, 1, false⟩] ∧
      InOrder (-1) s.log.calls ∧
      passed s.log.calls = sequences (-1 + 1) (upcoming (-1) s.log.calls - 1) ∧
      (∀ error, s.phase = .complete error → s.position = upcoming (-1) s.log.calls - 1) ∧
      (-1 < Word.greatest → ∀ fault, s.plan.turn s.phase ≠ .broken fault) := by
  let ended := walk step (fun _ _ => True) (fresh ⟨1, by decide⟩ .event none (-1)) twoRuns
  have led : Leads (fresh ⟨1, by decide⟩ .event none (-1)) (ended.get (by decide)) := reaches_get _
  have bounded : (ended.get (by decide)).Bounded := by decide
  exact ⟨_, led, bounded, by decide, events_are_neither_lost_nor_repeated (by decide) led bounded⟩

end Session

end EventRing
