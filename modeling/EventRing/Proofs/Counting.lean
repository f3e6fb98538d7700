import EventRing.Proofs.Consuming
/-!
# EventRing.Proofs.Counting

How far a consumer has come.  As long as no handler fails and nobody but the consumer itself stores its
progress, what it hands over next is the sequence after the last one that it handed over, and at rest
its counter is that last one; in between the counter lags behind and never moves back
(`Consumer.steady_of_step`).  So the number of events that were handed over says everything about where
a consumer stands: the events in a polling, the run in hand of a processor, what is stored in the end.
-/

namespace EventRing

variable {g : Geometry} {ε : Type} {m counter : Int} {read : Nat}

/-! ## Processors -/

namespace Processor

variable {plan : Plan g} {next last cut available done : Int} {phase : Phase}

/-- A processor that has handed over the events below `m`, and `read` of them from the run in hand, with
its counter at `counter`. -/
def Phase.Steady (m counter : Int) (read : Nat) : Phase → Prop
  | .awaiting next | .timing next | .interrupted next | .noting next _ | .timedOut next _
  | .timeoutFailed next _ _ | .opening next _ _ => next = m ∧ counter = m - 1 ∧ read = 0
  | .delivering next _ => next = m ∧ counter < m ∧ read = 0
  | .handing next _ => next + read = m ∧ counter < next
  | .verifying _ last | .releasing _ last => last = m - 1 ∧ counter < m ∧ read = 0
  | .eventFailed .. | .skipping _ | .warning .. | .stopping .. | .batchFailed .. => False
  | .faulted _ => True
  | _ => counter = m - 1 ∧ read = 0

theorem Phase.steady_admitted (limit : 1 ≤ plan.limit) (here : next = m) (rests : counter = m - 1) :
    (Phase.admitted plan next available).Steady m counter 0 := by
  apply Phase.admitted_cases limit
  · trivial
  · intro _
    exact ⟨here, rests, rfl⟩
  · intro last _ _ _
    exact ⟨by omega, by omega⟩
  · intro last _ _ _
    exact ⟨here, rests, rfl⟩

theorem Phase.steady_advanced (here : done + 1 = m) (behind : counter < m) (inside : done ≤ last) :
    (Phase.advanced plan done last).Steady m counter 0 := by
  apply Phase.advanced_cases
  · trivial
  · intro _ _
    exact ⟨by omega, by omega⟩
  · intro _ _
    exact ⟨here, behind, rfl⟩
  · intro past
    exact ⟨by omega, behind, rfl⟩
  · intro past
    exact ⟨by omega, behind, rfl⟩

/-- A processor that reads its own counter goes on behind it. -/
theorem Phase.steady_of_position {resume : Int → Phase} (steady : phase.Steady m counter read)
    (turn : plan.turn phase = .ask .position resume) : (resume counter).Steady m counter read := by
  cases phase with
  | positioning =>
      cases turn
      obtain ⟨rests, none⟩ := steady
      refine Phase.orFault_checked trivial ?_
      exact ⟨by omega, rests, none⟩
  | timing next =>
      cases turn
      cases plan.kind <;> exact steady
  | verifying next last =>
      cases turn
      show Phase.Steady m counter read (if last < counter then .faulted (.backwards counter last)
        else .releasing next last)
      split
      · trivial
      · exact steady
  | opening | handing | stopping =>
      simp only [Plan.turn] at turn
      split at turn <;> cases turn
  | _ => cases turn

/-- Nothing that is answered freely counts. -/
theorem Phase.steady_of_free {request : Request} {resume : request.Answer → Phase}
    (free : request.Free) (steady : phase.Steady m counter read)
    (turn : plan.turn phase = .ask request resume) (answer : request.Answer) :
    (resume answer).Steady m counter read := by
  cases phase with
  | beginning =>
      cases turn
      rcases answer with _ | _ | _ <;> exact steady
  | rearming | startFailed | noting | shutdownFailed | finishing =>
      cases turn
      exact steady
  | starting | checking | interrupted | timedOut | timeoutFailed | shuttingDown =>
      cases turn
      cases answer <;> first | exact steady | exact steady.2
  | announcing mode fatal =>
      cases turn
      cases mode <;> cases fatal <;> exact steady
  | opening next last available =>
      obtain ⟨here, rests, none⟩ := steady
      simp only [Plan.turn] at turn
      split at turn
      · cases turn
        exact ⟨here, by omega, none⟩
      · cases turn
      · cases turn
  | handing | stopping =>
      simp only [Plan.turn] at turn
      split at turn <;> cases turn
      cases free
  | eventFailed | batchFailed | warning | skipping => cases steady
  | positioning | awaiting | timing | delivering | verifying | releasing =>
      cases turn
      cases free
  | complete => cases turn
  | faulted => cases turn

end Processor

/-! ## Steps that count -/

/-- A step of somebody who has handed over the events below `m`: what it hands over is the next one, and
the counter does not move back. -/
structure Done.Counts {α : Type} (steady : Int → Int → α → Prop) (m counter : Int) (done : Done α) :
    Prop where
  after : steady (m + done.hands.length) (done.stores.getD counter) done.after
  forward : counter ≤ done.stores.getD counter
  hands : done.hands = [] ∨ (done.hands = [m] ∧ counter < m)

section Counts

variable {α : Type} {steady : Int → Int → α → Prop} {a : α} {v : Int}

theorem Done.counts_of_quiet (after : steady m counter a) :
    Done.Counts steady m counter { after := a } := by
  refine ⟨?_, Int.le_refl counter, Or.inl rfl⟩
  show steady (m + 0) counter a
  rwa [Int.add_zero]

theorem Done.counts_of_hand (after : steady (m + 1) counter a) (behind : counter < m) :
    Done.Counts steady m counter { after := a, hands := [m] } :=
  ⟨after, Int.le_refl counter, Or.inr ⟨rfl, behind⟩⟩

theorem Done.counts_of_store (after : steady m v a) (forward : counter ≤ v) :
    Done.Counts steady m counter { after := a, stores := some v } := by
  refine ⟨?_, forward, Or.inl rfl⟩
  show steady (m + 0) v a
  rwa [Int.add_zero]

end Counts

/-- No handler fails, and nobody stores progress before its time. -/
def Move.Gentle : Move → Prop
  | .hear (.failed _) | .early => False
  | .turn around => around.failure = none
  | _ => True

/-- A poller that has handed over the events below `m`. -/
def Polled.Steady (m counter : Int) : Polled → Prop
  | .resting => counter = m - 1
  | .handing polling _ => polling.accepted = m - 1 ∧ counter < m
  | .storing accepted => accepted = m - 1 ∧ counter < m

/-- A worker that has handed over the events below `m`. -/
def Worker.Steady (m counter : Int) (w : Worker g) : Prop := w.phase.Steady m counter w.read

variable {ok : Int → Prop} {top : Int} {s : Sequencer g} {move : Move}

/-- The event in hand of a poller is the next one to count. -/
theorem Polled.Steady.next {polling : Polling} {left : Nat}
    (steady : (Polled.handing polling left).Steady m counter)
    (within : (Polled.handing polling left).Within ok) : polling.next = m := by
  obtain ⟨here, -⟩ := steady
  obtain ⟨-, next, -⟩ := within
  omega

theorem Polled.counts_of_change {id : CounterId} {front : List CounterId} {stage : Polled}
    {done : Done Polled} (within : stage.Within ok) (steady : stage.Steady m (s.counters.value id))
    (gentle : move.Gentle) (h : Polled.Change s id front stage move done) :
    done.Counts Polled.Steady m (s.counters.value id) := by
  cases h with
  | idle => exact Done.counts_of_quiet steady
  | @begun polling looked =>
      have start : polling.accepted = s.counters.value id := (Poller.look_eq_polling looked).1
      have rests : s.counters.value id = m - 1 := steady
      apply Done.counts_of_quiet
      exact ⟨by omega, by omega⟩
  | @goesOn polling left =>
      obtain rfl := steady.next within
      obtain ⟨-, behind⟩ := steady
      apply Done.counts_of_hand _ behind
      exact ⟨by simp, by omega⟩
  | @stopped polling left =>
      obtain rfl := steady.next within
      obtain ⟨-, behind⟩ := steady
      apply Done.counts_of_hand _ behind
      exact ⟨by simp, by omega⟩
  | failed => cases gentle
  | @through polling =>
      obtain ⟨here, behind⟩ := steady
      exact Done.counts_of_store here (by omega)
  | stored =>
      obtain ⟨here, behind⟩ := steady
      exact Done.counts_of_store here (by omega)

theorem Worker.counts_of_turned {w : Worker g} {around : Surroundings} {done : Done (Worker g)}
    (within : w.Within ok top) (steady : w.Steady m counter) (calm : around.failure = none)
    (h : w.Turned s counter around done) :
    done.Counts Worker.Steady m counter := by
  unfold Steady at steady
  cases h with
  | @awaited next resume outcome cut turn found published =>
      obtain phase := Processor.Phase.await_cases turn
      rw [phase] at steady turn
      obtain ⟨here, rests, none⟩ := steady
      cases turn
      apply Done.counts_of_quiet
      show Processor.Phase.Steady m counter w.read _
      -- whatever was found, the worker goes on with the same sequence
      cases cut with
      | available available =>
          rw [none]
          exact Processor.Phase.steady_admitted within.limit here rests
      | timeout => exact ⟨here, rests, none⟩
      | cancelled => exact ⟨here, rests, none⟩
  | @batch first last resume turn all =>
      obtain ⟨final, phase, run⟩ := Processor.Phase.batch_cases turn
      obtain ⟨above, below⟩ := Processor.lastOfRun_eq_ok run
      rw [phase] at steady turn
      obtain ⟨here, behind⟩ := steady
      simp only [Processor.Plan.turn, run] at turn
      cases turn
      -- its events were counted as they were read
      apply Done.counts_of_quiet
      show Processor.Phase.Steady m counter 0 _
      rw [calm]
      refine Processor.Phase.steady_advanced ?_ (by omega) below
      unfold Sequencer.runLength at all
      omega
  | @event t final resume turn =>
      obtain ⟨last, phase⟩ := Processor.Phase.event_cases turn
      have known := within.phase
      rw [phase] at steady turn known
      obtain ⟨rfl, behind, none⟩ := steady
      cases turn
      apply Done.counts_of_hand _ behind
      show Processor.Phase.Steady (t + 1) counter w.read _
      rw [calm, none]
      exact Processor.Phase.steady_advanced rfl (by omega) known.2.1
  | @released v resume turn =>
      rcases Processor.Phase.release_cases turn with phase | ⟨failure, phase⟩ | ⟨next, phase⟩
      · rw [phase] at steady
        cases steady
      · rw [phase] at steady
        cases steady
      · have known := within.phase
        rw [phase] at steady turn known
        obtain ⟨here, behind, none⟩ := steady
        obtain ⟨after, -⟩ := known
        cases turn
        refine Done.counts_of_store ?_ (by omega)
        exact ⟨by omega, here, none⟩
  | position turn =>
      apply Done.counts_of_quiet
      exact Processor.Phase.steady_of_position steady turn
  | free turn free answer =>
      apply Done.counts_of_quiet
      exact Processor.Phase.steady_of_free free steady turn answer

theorem Worker.counts_of_change {w : Worker g} {done : Done (Worker g)} (within : w.Within ok top)
    (steady : w.Steady m counter) (gentle : move.Gentle) (h : w.Change s counter move done) :
    done.Counts Worker.Steady m counter := by
  cases h with
  | entered => exact Done.counts_of_quiet steady
  | watched => exact Done.counts_of_quiet steady
  | @readOn first last resume turn more =>
      obtain ⟨final, phase, -⟩ := Processor.Phase.batch_cases turn
      have stands := steady
      unfold Steady at stands
      rw [phase] at stands
      obtain ⟨here, behind⟩ := stands
      obtain rfl : first + w.read = m := here
      apply Done.counts_of_hand _ (by omega)
      unfold Steady
      rw [phase]
      exact ⟨by simp; omega, behind⟩
  | turned turned => exact counts_of_turned within steady gentle turned
  | early => cases gentle
  | again ended =>
      unfold Steady at steady
      rw [ended] at steady
      exact Done.counts_of_quiet steady
  | cancelled => exact Done.counts_of_quiet steady

/-! ## Consumers -/

variable {c after : Consumer g ε} {ring : Ring g ε} {stores : Option Int}

/-- A consumer that has handed over as many events as there are below its next one. -/
def Consumer.Steady (counter : Int) (c : Consumer g ε) : Prop :=
  match c.role with
  | .poller _ stage => stage.Steady c.handed.length counter
  | .worker w => w.Steady c.handed.length counter

theorem Consumer.length_onwards (role : Role g) (hands : List Int) :
    ((c.onwards ring role hands).handed.length : Int) = c.handed.length + hands.length := by
  simp [onwards]

/-- A consumer that goes on has handed over one event more, or none. -/
theorem Consumer.handed_of_counts {role : Role g} {hands : List Int}
    (counts : hands = [] ∨ (hands = [(c.handed.length : Int)] ∧ counter < c.handed.length)) :
    (c.onwards ring role hands).handed = c.handed ∨
      counter < c.handed.length ∧ (c.onwards ring role hands).handed =
        c.handed ++ [((c.handed.length : Int), ring.event c.handed.length)] := by
  rcases counts with rfl | ⟨rfl, behind⟩
  · exact Or.inl (List.append_nil _)
  · exact Or.inr ⟨behind, rfl⟩

/-- A gentle step hands over the next event, if any, and stores no less than there was. -/
theorem Consumer.steady_of_step (within : c.Within ok top)
    (steady : c.Steady (ring.sequencer.counters.value c.counter)) (gentle : move.Gentle)
    (h : c.step ring move = some (after, stores)) :
    after.Steady (stores.getD (ring.sequencer.counters.value c.counter)) ∧
      ring.sequencer.counters.value c.counter ≤
        stores.getD (ring.sequencer.counters.value c.counter) ∧
      (after.handed = c.handed ∨
        ring.sequencer.counters.value c.counter < c.handed.length ∧
          after.handed = c.handed ++ [((c.handed.length : Int), ring.event c.handed.length)]) := by
  cases role : c.role with
  | poller front stage =>
      unfold Within at within
      unfold Steady at steady
      simp only [step, role] at h within steady
      obtain ⟨done, polled, same⟩ := Option.map_eq_some_iff.mp h
      cases same
      have counts := Polled.counts_of_change within steady gentle (Polled.change_of_step polled)
      refine ⟨?_, counts.forward, handed_of_counts counts.hands⟩
      show Polled.Steady ((c.onwards ring _ _).handed.length : Int) _ _
      rw [length_onwards]
      exact counts.after
  | worker w =>
      unfold Within at within
      unfold Steady at steady
      simp only [step, role] at h within steady
      obtain ⟨done, worked, same⟩ := Option.map_eq_some_iff.mp h
      cases same
      have counts := Worker.counts_of_change within steady gentle (Worker.change_of_step worked)
      refine ⟨?_, counts.forward, handed_of_counts counts.hands⟩
      show Worker.Steady ((c.onwards ring _ _).handed.length : Int) _ _
      rw [length_onwards]
      exact counts.after

end EventRing
