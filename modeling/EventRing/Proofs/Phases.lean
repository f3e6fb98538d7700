import EventRing.Poller
import EventRing.Barrier
import EventRing.Processor.Turn
import EventRing.Proofs.Action
/-!
# EventRing.Proofs.Phases

What the phases of a processor know about sequences.  All a processor learns of the ring are the
outcomes of its waits and its own progress; everything it hands over or stores lies between them.  So
whatever holds of the positions that it learns, and of every position between two of them, holds of all
that it hands over and stores (`within_of_turn`).  The property is left open: that everything up to a
position is published, say, or that the consumers in front have come so far.
-/

namespace EventRing

open EventRing.Action

/-- A property of positions that holds between any two that have it. -/
def Convex (ok : Int → Prop) : Prop := ∀ {u v w}, ok u → ok w → u ≤ v → v ≤ w → ok v

theorem convex_above (counter : Int) : Convex (counter ≤ ·) :=
  fun first _ above _ => Int.le_trans first above

theorem Word.convex_fits : Convex Word.Fits :=
  fun fitsLow fitsHigh above below => fitsLow.between fitsHigh above below

/-- A property of positions that holds of every position below one that has it. -/
structure Lower (ok : Int → Prop) : Prop where
  ge : ∀ {v}, ok v → -1 ≤ v
  down : ∀ {v w}, ok v → -1 ≤ w → w ≤ v → ok w

theorem Lower.convex {ok : Int → Prop} (lower : Lower ok) : Convex ok :=
  fun first last above below => lower.down last (Int.le_trans (lower.ge first) above) below

namespace Geometry

variable {g : Geometry} {lo hi : Int} {length : Nat}

/-- A run of events on one lap is not empty and does not go beyond what is asked for. -/
theorem batchLength_eq_ok (h : g.batchLength lo hi = .ok length) :
    1 ≤ length ∧ lo + length ≤ hi + 1 := by
  unfold batchLength at h
  by_cases empty : hi < lo
  · rw [if_pos empty] at h
    cases h
  · rw [if_neg empty] at h
    obtain ⟨-, rest⟩ := except_checked_eq_ok h
    obtain ⟨-, last⟩ := except_checked_eq_ok rest
    cases last
    have := g.slot_lt lo
    omega

end Geometry

namespace Processor

variable {g : Geometry} {plan : Plan g} {ok : Int → Prop} {next last cut available done : Int}

theorem limitOf_pos (most : Option Nat) : 1 ≤ limitOf most := by
  unfold limitOf
  split
  · decide
  · exact Int.le_max_left 1 _

/-- The run in hand begins at its first event and ends no later than asked. -/
theorem lastOfRun_eq_ok (h : lastOfRun g next last = .ok cut) : next ≤ cut ∧ cut ≤ last := by
  unfold lastOfRun at h
  obtain ⟨length, run, rest⟩ := except_bind_eq_ok h
  obtain ⟨-, more⟩ := except_checked_eq_ok rest
  obtain ⟨-, rfl⟩ := Word.checked_eq_ok_iff.mp more
  have := Geometry.batchLength_eq_ok run
  omega

/-! ## What phases know -/

/-- Everything that a phase hands over or stores has a property, and so has what came before. -/
def Phase.Within (ok : Int → Prop) : Phase → Prop
  | .awaiting next | .timing next | .interrupted next | .noting next _ | .timedOut next _
  | .timeoutFailed next _ _ | .warning next _ | .stopping next _ => ok (next - 1)
  | .opening next last _ | .delivering next last | .eventFailed next last _ | .handing next last =>
    ok (next - 1) ∧ next ≤ last ∧ ok last
  | .batchFailed first cut last _ => ok (first - 1) ∧ first ≤ cut ∧ cut ≤ last ∧ ok last
  | .skipping next => ok next
  | .verifying next last | .releasing next last => next = last + 1 ∧ ok last
  | _ => True

theorem Phase.Within.mono {good : Int → Prop} {phase : Phase} (within : phase.Within ok)
    (weaker : ∀ {v}, ok v → good v) : phase.Within good := by
  cases phase with
  | awaiting | timing | interrupted | noting | timedOut | timeoutFailed | warning | stopping
  | skipping => exact weaker within
  | opening | delivering | eventFailed | handing =>
      exact ⟨weaker within.1, within.2.1, weaker within.2.2⟩
  | batchFailed => exact ⟨weaker within.1, within.2.1, within.2.2.1, weaker within.2.2.2⟩
  | verifying | releasing => exact ⟨within.1, weaker within.2⟩
  | _ => trivial

/-- An answer tells a processor only positions with the property. -/
def Request.Tells (ok : Int → Prop) : (request : Request) → request.Answer → Prop
  | .position => fun (now : Int) => ok now
  | .await next => fun (outcome : Wait.Outcome) =>
    ∀ available, outcome = .available available → next ≤ available → ok available
  | _ => fun _ => True

/-- A computation that begins with a checked value breaks off with an overflow, or goes on with it. -/
theorem Phase.orFault_checked {P : Phase → Prop} {n : Int} {rest : Int → Except Fault Phase}
    (faulted : P (.faulted .overflow)) (reached : P (Phase.orFault (rest n))) :
    P (Phase.orFault (Word.checked n >>= rest)) := by
  by_cases fits : Word.Fits n
  · rw [except_checked_of_fits fits]
    exact reached
  · rw [Word.checked_of_overflow fits]
    exact faulted

/-- What a wait admits lies between where it began and what it found. -/
theorem Phase.admitted_cases {P : Phase → Prop} (limit : 1 ≤ plan.limit)
    (faulted : P (.faulted .overflow)) (short : available < next → P (.awaiting next))
    (handing : ∀ last, plan.kind = .batch → next ≤ last → last ≤ available →
      P (.handing next last))
    (opening : ∀ last, plan.kind ≠ .batch → next ≤ last → last ≤ available →
      P (.opening next last available)) :
    P (Phase.admitted plan next available) := by
  by_cases less : available < next
  · rw [Phase.admitted, if_pos less]
    exact short less
  · rw [Phase.admitted, if_neg less]
    refine Phase.orFault_checked faulted ?_
    by_cases many : plan.limit ≤ available - next
    · -- only as much as the limit allows
      rw [if_pos many]
      refine Phase.orFault_checked faulted (Phase.orFault_checked faulted ?_)
      cases kind : plan.kind with
      | batch => exact handing _ kind (by omega) (by omega)
      | event | task => exact opening _ (by simp [kind]) (by omega) (by omega)
    · rw [if_neg many]
      cases kind : plan.kind with
      | batch => exact handing available kind (Int.not_lt.mp less) (Int.le_refl _)
      | event | task => exact opening available (by simp [kind]) (Int.not_lt.mp less) (Int.le_refl _)

/-- After an event there is more, or everything up to the last one is handed over. -/
theorem Phase.advanced_cases {P : Phase → Prop} (faulted : P (.faulted .overflow))
    (handing : plan.kind = .batch → done + 1 ≤ last → P (.handing (done + 1) last))
    (delivering : plan.kind ≠ .batch → done + 1 ≤ last → P (.delivering (done + 1) last))
    (releasing : last < done + 1 → P (.releasing (done + 1) last))
    (verifying : last < done + 1 → P (.verifying (done + 1) last)) :
    P (Phase.advanced plan done last) := by
  refine Phase.orFault_checked faulted ?_
  by_cases more : done + 1 ≤ last
  · rw [if_pos more]
    cases kind : plan.kind with
    | batch => exact handing kind more
    | event | task => exact delivering (by simp [kind]) more
  · rw [if_neg more]
    cases plan.kind with
    | task => exact releasing (Int.not_le.mp more)
    | event | batch => exact verifying (Int.not_le.mp more)

theorem Phase.within_admitted (limit : 1 ≤ plan.limit) (convex : Convex ok) (before : ok (next - 1))
    (found : next ≤ available → ok available) :
    (Phase.admitted plan next available).Within ok := by
  have upTo {last} (above : next ≤ last) (below : last ≤ available) : ok last :=
    convex before (found (Int.le_trans above below)) (by omega) below
  refine Phase.admitted_cases limit trivial (fun _ => before) ?_ ?_
  · intro last _ above below
    exact ⟨before, above, upTo above below⟩
  · intro last _ above below
    exact ⟨before, above, upTo above below⟩

theorem Phase.within_advanced (here : ok done) (inside : done ≤ last) (good : ok last) :
    (Phase.advanced plan done last).Within ok := by
  have before : ok (done + 1 - 1) := by
    rw [Int.add_sub_cancel]
    exact here
  refine Phase.advanced_cases trivial ?_ ?_ ?_ ?_
  · intro _ more
    exact ⟨before, more, good⟩
  · intro _ more
    exact ⟨before, more, good⟩
  · intro past
    exact ⟨by omega, good⟩
  · intro past
    exact ⟨by omega, good⟩

variable {phase : Phase} {request : Request} {resume : request.Answer → Phase}

/-- Only three phases store progress. -/
theorem Phase.release_cases {stored : Int} {resume : Unit → Phase}
    (turn : plan.turn phase = .ask (.release stored) resume) :
    phase = .skipping stored ∨ (∃ failure, phase = .stopping (stored + 1) failure) ∨
      ∃ next, phase = .releasing next stored := by
  cases phase with
  | skipping next =>
      cases turn
      exact Or.inl rfl
  | stopping next failure =>
      -- it stores the sequence before the one that failed
      simp only [Plan.turn] at turn
      split at turn
      · rename_i before passed
        obtain ⟨-, rfl⟩ := Word.checked_eq_ok_iff.mp passed
        cases turn
        exact Or.inr (Or.inl ⟨failure, by rw [Int.sub_add_cancel]⟩)
      · cases turn
  | releasing next last =>
      cases turn
      exact Or.inr (Or.inr ⟨next, rfl⟩)
  | opening | handing =>
      simp only [Plan.turn] at turn
      split at turn <;> cases turn
  | _ => cases turn

/-- Only one phase hands over an event. -/
theorem Phase.event_cases {t : Int} {final : Bool} {resume : Option Failure → Phase}
    (turn : plan.turn phase = .ask (.event t final) resume) : ∃ last, phase = .delivering t last := by
  cases phase with
  | delivering next last =>
      cases turn
      exact ⟨last, rfl⟩
  | opening | handing | stopping =>
      simp only [Plan.turn] at turn
      split at turn <;> cases turn
  | _ => cases turn

/-- Only one phase hands over a run of events. -/
theorem Phase.batch_cases {first cut : Int} {resume : Option Failure → Phase}
    (turn : plan.turn phase = .ask (.batch first cut) resume) :
    ∃ last, phase = .handing first last ∧ lastOfRun g first last = .ok cut := by
  cases phase with
  | handing next last =>
      simp only [Plan.turn] at turn
      split at turn
      · rename_i run
        cases turn
        exact ⟨last, rfl, run⟩
      · cases turn
  | opening | stopping =>
      simp only [Plan.turn] at turn
      split at turn <;> cases turn
  | _ => cases turn

/-- Only one phase waits. -/
theorem Phase.await_cases {next : Int} {resume : Wait.Outcome → Phase}
    (turn : plan.turn phase = .ask (.await next) resume) : phase = .awaiting next := by
  cases phase with
  | awaiting => cases turn; rfl
  | opening | handing | stopping =>
      simp only [Plan.turn] at turn
      split at turn <;> cases turn
  | _ => cases turn

/-- A run is over in one phase only. -/
theorem Phase.ended_cases {error : Option RingError} (turn : plan.turn phase = .ended error) :
    phase = .complete error := by
  cases phase with
  | complete => cases turn; rfl
  | opening | handing | stopping =>
      simp only [Plan.turn] at turn
      split at turn <;> cases turn
  | _ => cases turn

/-- A processor stores only what has the property. -/
theorem Phase.ok_of_release {stored : Int} {resume : Unit → Phase} (within : phase.Within ok)
    (turn : plan.turn phase = .ask (.release stored) resume) : ok stored := by
  rcases release_cases turn with rfl | ⟨failure, rfl⟩ | ⟨next, rfl⟩
  · exact within
  · have before : ok (stored + 1 - 1) := within
    rwa [Int.add_sub_cancel] at before
  · exact within.2

/-- A processor that stores a position goes on behind it. -/
theorem Phase.above_of_release {stored : Int} {resume : Unit → Phase} (within : phase.Within ok)
    (turn : plan.turn phase = .ask (.release stored) resume) : phase.Within (stored ≤ ·) := by
  rcases release_cases turn with rfl | ⟨failure, rfl⟩ | ⟨next, rfl⟩
  · exact Int.le_refl stored
  · show stored ≤ stored + 1 - 1
    omega
  · exact ⟨within.1, Int.le_refl stored⟩

/-- A processor that is told only what has the property goes on with nothing else. -/
theorem Phase.within_of_turn (limit : 1 ≤ plan.limit) (convex : Convex ok) (within : phase.Within ok)
    (turn : plan.turn phase = .ask request resume) (answer : request.Answer)
    (told : request.Tells ok answer) : (resume answer).Within ok := by
  cases phase with
  | beginning =>
      cases turn
      rcases answer with _ | _ | _ <;> trivial
  | rearming | startFailed | shutdownFailed | finishing =>
      cases turn
      trivial
  | starting =>
      cases turn
      cases answer <;> trivial
  | announcing mode fatal =>
      cases turn
      cases mode <;> cases fatal <;> trivial
  | checking =>
      cases turn
      cases answer <;> trivial
  | positioning =>
      cases turn
      refine Phase.orFault_checked trivial ?_
      show ok (_ + 1 - 1)
      rw [Int.add_sub_cancel]
      exact told
  | awaiting next =>
      cases turn
      cases answer with
      | available available => exact within_admitted limit convex within (told available rfl)
      | timeout => exact within
      | cancelled => exact within
  | timing next =>
      cases turn
      cases plan.kind <;> exact within
  | noting next last =>
      cases turn
      exact within
  | timedOut next last =>
      cases turn
      cases answer <;> exact within
  | timeoutFailed next last failure =>
      cases turn
      cases answer with
      | none => exact within
      | some fatal => trivial
  | interrupted next =>
      cases turn
      cases answer with
      | true => exact within
      | false => trivial
  | opening next last available =>
      simp only [Plan.turn] at turn
      split at turn
      · cases turn
        exact within
      · cases turn
      · cases turn
  | delivering next last =>
      cases turn
      obtain ⟨before, upright, good⟩ := within
      cases answer with
      | none => exact within_advanced (convex before good (by omega) upright) upright good
      | some failure => exact ⟨before, upright, good⟩
  | eventFailed next last failure =>
      cases turn
      obtain ⟨before, upright, good⟩ := within
      cases answer with
      | none => exact convex before good (by omega) upright
      | some fatal => cases plan.kind <;> exact before
  | skipping next =>
      cases turn
      refine Phase.orFault_checked trivial ?_
      show ok (next + 1 - 1)
      rw [Int.add_sub_cancel]
      exact within
  | warning next failure =>
      cases turn
      exact within
  | stopping next failure =>
      simp only [Plan.turn] at turn
      split at turn
      · cases turn
        trivial
      · cases turn
  | handing next last =>
      obtain ⟨before, upright, good⟩ := within
      simp only [Plan.turn] at turn
      split at turn
      · rename_i cut run
        obtain ⟨above, below⟩ := lastOfRun_eq_ok run
        cases turn
        cases answer with
        | none => exact within_advanced (convex before good (by omega) below) below good
        | some failure => exact ⟨before, above, below, good⟩
      · cases turn
  | batchFailed first cut last failure =>
      obtain ⟨before, above, below, good⟩ := within
      cases turn
      cases answer with
      | none => exact within_advanced (convex before good (by omega) below) below good
      | some fatal => exact before
  | verifying next last =>
      cases turn
      show Phase.Within ok (if last < answer then .faulted (.backwards answer last)
        else .releasing next last)
      split
      · trivial
      · exact within
  | releasing next last =>
      obtain ⟨rfl, good⟩ := within
      cases turn
      show ok (last + 1 - 1)
      rw [Int.add_sub_cancel]
      exact good
  | shuttingDown =>
      cases turn
      cases answer <;> trivial
  | complete => cases turn
  | faulted => cases turn

end Processor

end EventRing
