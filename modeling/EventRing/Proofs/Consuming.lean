import EventRing.Proofs.Phases
import EventRing.Proofs.Pipeline
/-!
# EventRing.Proofs.Consuming

What consumers make of what they find.  A wait finds nothing but what was in front of its barrier at
the moment it looked, and only if that is enough.  A consumer that finds and scans only positions with
a property hands over and stores only such positions (`within_of_step`), for any property that the
positions below share.  Which property that is, and why everything in front has it, is left to the
theorems that use it.
-/

namespace EventRing

open EventRing.Action Processor

variable {g : Geometry} {ε : Type} {s : Sequencer g}

/-! ## What a wait finds -/

namespace Wait.Phase

variable {target a : Int} {o : Observation} {phase next : Phase}

theorem look_eq_available (h : look target o next = .inr (.available a)) :
    target ≤ a ∧ a = o.value := by
  unfold look at h
  by_cases enough : target ≤ o.value
  · rw [if_pos enough] at h
    cases h
    exact ⟨enough, rfl⟩
  · rw [if_neg enough] at h
    split at h <;> cases h

/-- A wait that ends with a sequence found it in front, and it is enough. -/
theorem step_eq_available (h : step target o phase = .inr (.available a)) :
    target ≤ a ∧ a = o.value := by
  cases phase with
  | spinning => exact look_eq_available h
  | backingOff => exact look_eq_available h
  | yielding => exact look_eq_available h
  | sleeping => exact look_eq_available h
  | budgeted left =>
      cases left with
      | zero =>
          simp only [step] at h
          split at h
          · split at h <;> cases h
          · rename_i outcome looked
            cases h
            exact look_eq_available looked
      | succ left => exact look_eq_available h
  | arriving timed =>
      simp only [step] at h
      split at h <;> cases h
  | gated timed gate =>
      simp only [step] at h
      split at h <;> cases h
  | listening timed =>
      simp only [step] at h
      split at h
      · cases h
      · split at h <;> cases h
  | suspended timed =>
      simp only [step] at h
      split at h
      · cases h
      · split at h <;> cases h
  | following =>
      simp only [step] at h
      split at h
      · cases h
      · split at h
        · rename_i enough
          cases h
          exact ⟨enough, rfl⟩
        · cases h

end Wait.Phase

namespace Barrier

variable {b : Barrier} {target a v : Int}

theorem enter_eq_available {side : Wait.Side} (h : b.enter side target s = .inr (.available a)) :
    target ≤ a ∧ a = b.value s := by
  unfold enter at h
  split at h
  · cases h
  · split at h
    · rename_i enough
      cases h
      exact ⟨enough, rfl⟩
    · cases h

/-- Nobody waits at a barrier that has enough in front. -/
theorem enter_of_le (armed : b.cancelled = false) (enough : target ≤ b.value s)
    (side : Wait.Side) : b.enter side target s = .inr (.available (b.value s)) := by
  simp [enter, armed, enough]

/-- A barrier that does not scan cuts nothing. -/
theorem published_of_scans (scans : b.scans = false) :
    b.published s target (.available a) = .ok (.available a) := by
  simp only [published, highestPublished, scans, Bool.false_eq_true, if_false]
  rfl

/-- A barrier that scans cuts what was found at the first hole. -/
theorem published_of_scanned (scans : b.scans = true)
    (scanned : s.highestPublished target a = .ok v) :
    b.published s target (.available a) = .ok (.available v) := by
  simp only [published, highestPublished, scans, if_true, scanned]
  rfl

/-- Cutting an outcome leaves a sequence a sequence. -/
theorem published_eq_available {outcome : Wait.Outcome}
    (h : b.published s target outcome = .ok (.available v)) :
    ∃ a, outcome = .available a ∧ b.highestPublished s target a = .ok v := by
  cases outcome with
  | available a =>
      refine ⟨a, rfl, ?_⟩
      simp only [published] at h
      cases cut : b.highestPublished s target a with
      | ok w =>
          rw [cut] at h
          cases h
          rfl
      | error fault =>
          rw [cut] at h
          cases h
  | timeout => cases h
  | cancelled => cases h

end Barrier

/-! ## What consumers know -/

/-- Everything that a poll hands over or stores has a property. -/
def Polled.Within (ok : Int → Prop) : Polled → Prop
  | .resting => True
  | .handing polling left => ok polling.accepted ∧ polling.next = polling.accepted + 1 ∧
    polling.next + left = polling.available + 1 ∧ ok polling.available
  | .storing accepted => ok accepted

/-- A position that a wait found and has not cut yet: it may be ahead of the publications, but not of
the claims, if it will be cut. -/
def Barrier.Finds (b : Barrier) (ok : Int → Prop) (top a : Int) : Prop :=
  if b.scans then a ≤ top else ok a

theorem Barrier.Finds.mono {b : Barrier} {ok good : Int → Prop} {top higher a : Int}
    (found : b.Finds ok top a) (weaker : ∀ {v}, ok v → good v) (above : top ≤ higher) :
    b.Finds good higher a := by
  unfold Finds at found ⊢
  by_cases scans : b.scans = true
  · rw [if_pos scans] at found ⊢
    exact Int.le_trans found above
  · rw [if_neg scans] at found ⊢
    exact weaker found

/-- Everything that a worker hands over or stores has a property. -/
structure Worker.Within (ok : Int → Prop) (top : Int) (w : Worker g) : Prop where
  limit : 1 ≤ w.plan.limit
  phase : w.phase.Within ok
  found : ∀ a, w.wait = some (.inr (.available a)) → w.barrier.Finds ok top a

/-- Everything that a consumer hands over or stores has a property. -/
def Consumer.Within (ok : Int → Prop) (top : Int) (c : Consumer g ε) : Prop :=
  match c.role with
  | .poller _ stage => stage.Within ok
  | .worker w => w.Within ok top

theorem Consumer.Within.mono {ok good : Int → Prop} {top higher : Int} {c : Consumer g ε}
    (within : c.Within ok top) (weaker : ∀ {v}, ok v → good v) (above : top ≤ higher) :
    c.Within good higher := by
  obtain ⟨counter, role, handed⟩ := c
  cases role with
  | poller front stage =>
      cases stage with
      | resting => trivial
      | handing polling left =>
          exact ⟨weaker within.1, within.2.1, within.2.2.1, weaker within.2.2.2⟩
      | storing accepted => exact weaker within
  | worker w =>
      exact ⟨within.limit, within.phase.mono weaker, fun a waiting =>
        (within.found a waiting).mono weaker above⟩

/-- What is in front of a consumer has a property, once it is cut where it has to be. -/
structure Consumer.Sees (ok : Int → Prop) (top : Int) (s : Sequencer g) (c : Consumer g ε) :
    Prop where
  position : ok (s.counters.value c.counter)
  looks : ∀ {next v}, ok (next - 1) →
    s.highestPublished next (s.counters.behind c.front s.cursor) = .ok v → next ≤ v → ok v
  finds : ∀ {w}, c.role = .worker w → w.barrier.Finds ok top (w.barrier.value s)
  cuts : ∀ {w}, c.role = .worker w → ∀ {next a v}, ok (next - 1) → w.barrier.Finds ok top a →
    w.barrier.highestPublished s next a = .ok v → next ≤ v → ok v

/-- A step that keeps to a property: what it leaves, hands over and stores. -/
structure Done.Keeps {α : Type} (ok : Int → Prop) (within : α → Prop) (done : Done α) : Prop where
  after : within done.after
  hands : ∀ t ∈ done.hands, ok t
  stores : ∀ v, done.stores = some v → ok v

theorem Done.keeps_of_quiet {α : Type} {ok : Int → Prop} {within : α → Prop} {a : α}
    (after : within a) : Done.Keeps ok within { after := a } :=
  ⟨after, fun _ listed => (nomatch listed), fun _ stored => (nomatch stored)⟩

theorem Done.keeps_of_hand {α : Type} {ok : Int → Prop} {within : α → Prop} {a : α} {t : Int}
    (after : within a) (handed : ok t) : Done.Keeps ok within { after := a, hands := [t] } := by
  refine ⟨after, fun u listed => ?_, fun _ stored => (nomatch stored)⟩
  rw [List.mem_singleton.mp listed]
  exact handed

theorem Done.keeps_of_store {α : Type} {ok : Int → Prop} {within : α → Prop} {a : α} {v : Int}
    (after : within a) (stored : ok v) :
    Done.Keeps ok within { after := a, stores := some v } := by
  refine ⟨after, fun _ listed => (nomatch listed), fun u same => ?_⟩
  cases same
  exact stored

/-! ## Pollers -/

variable {ok : Int → Prop} {top : Int} {counter : CounterId} {front : List CounterId}
  {stage : Polled} {move : Move}

theorem Poller.look_eq_polling {p : Poller} {polling : Polling}
    (h : Poller.look (φ := Failure) p s = .ok (.inr polling)) :
    polling.accepted = s.counters.value p.counter ∧ polling.next = polling.accepted + 1 ∧
      polling.next ≤ polling.available ∧
      s.highestPublished polling.next (s.counters.behind p.front s.cursor) =
        .ok polling.available := by
  unfold look at h
  obtain ⟨-, rest⟩ := except_checked_eq_ok h
  obtain ⟨available, scanned, last⟩ := except_bind_eq_ok rest
  split at last
  · cases last
  · rename_i enough
    cases last
    exact ⟨rfl, rfl, Int.not_lt.mp enough, scanned⟩

/-- As long as there is more to hand over, the next event has the property. -/
theorem Polled.Within.next {polling : Polling} {left : Nat} (convex : Convex ok)
    (within : (Polled.handing polling (left + 1)).Within ok) : ok polling.next := by
  obtain ⟨before, next, count, good⟩ := within
  exact convex before good (by omega) (by omega)

theorem Polled.within_of_change {done : Done Polled} (convex : Convex ok) (within : stage.Within ok)
    (position : ok (s.counters.value counter))
    (looks : ∀ {next v}, ok (next - 1) →
      s.highestPublished next (s.counters.behind front s.cursor) = .ok v → next ≤ v → ok v)
    (h : Polled.Change s counter front stage move done) : done.Keeps ok (Polled.Within ok) := by
  cases h with
  | idle => exact Done.keeps_of_quiet trivial
  | @begun polling looked =>
      obtain ⟨start, next, enough, scanned⟩ := Poller.look_eq_polling looked
      rw [← start] at position
      have before : ok (polling.next - 1) := by
        rw [next, Int.add_sub_cancel]
        exact position
      have count : polling.next + Sequencer.runLength polling.next polling.available =
          polling.available + 1 := by
        unfold Sequencer.runLength
        omega
      exact Done.keeps_of_quiet ⟨position, next, count, looks before scanned enough⟩
  | @goesOn polling left =>
      have handed := within.next convex
      obtain ⟨-, next, count, good⟩ := within
      refine Done.keeps_of_hand ⟨handed, rfl, ?_, good⟩ handed
      simp only
      omega
  | stopped => exact Done.keeps_of_hand (within.next convex) (within.next convex)
  | failed => exact Done.keeps_of_hand within.1 (within.next convex)
  | through => exact Done.keeps_of_store trivial within.1
  | stored => exact Done.keeps_of_store trivial within

/-! ## Workers -/

variable {w : Worker g} {position : Int} {around : Surroundings} {done : Done (Worker g)}

/-- The event in hand has the property. -/
theorem Worker.Within.event {t : Int} {final : Bool} {resume : Option Failure → Processor.Phase}
    (convex : Convex ok) (within : w.Within ok top)
    (turn : w.plan.turn w.phase = .ask (.event t final) resume) : ok t := by
  obtain ⟨last, phase⟩ := Processor.Phase.event_cases turn
  have known := within.phase
  rw [phase] at known
  obtain ⟨before, upright, good⟩ := known
  exact convex before good (by omega) upright

/-- Every event of the run in hand has the property. -/
theorem Worker.Within.batch {first cut t : Int} {resume : Option Failure → Processor.Phase}
    (convex : Convex ok) (within : w.Within ok top)
    (turn : w.plan.turn w.phase = .ask (.batch first cut) resume) (above : first ≤ t)
    (below : t ≤ cut) : ok t := by
  obtain ⟨last, phase, run⟩ := Processor.Phase.batch_cases turn
  have known := within.phase
  rw [phase] at known
  obtain ⟨before, upright, good⟩ := known
  have := Processor.lastOfRun_eq_ok run
  exact convex before good (by omega) (by omega)

theorem Worker.within_of_turned (convex : Convex ok) (within : w.Within ok top) (here : ok position)
    (cuts : ∀ {next a v}, ok (next - 1) → w.barrier.Finds ok top a →
      w.barrier.highestPublished s next a = .ok v → next ≤ v → ok v)
    (h : w.Turned s position around done) : done.Keeps ok (Worker.Within ok top) := by
  have goesOn {request : Request} {resume : request.Answer → Processor.Phase}
      (turn : w.plan.turn w.phase = .ask request resume) (answer : request.Answer)
      (told : request.Tells ok answer) : (resume answer).Within ok :=
    Processor.Phase.within_of_turn within.limit convex within.phase turn answer told
  cases h with
  | @awaited next resume outcome cut turn found published =>
      have before : ok (next - 1) := by
        have known := within.phase
        rw [Processor.Phase.await_cases turn] at known
        exact known
      refine Done.keeps_of_quiet ⟨within.limit, goesOn turn cut ?_, fun a none => (nomatch none)⟩
      -- what was found may have holes, but it is not told before it is cut
      rintro v rfl enough
      obtain ⟨a, rfl, scanned⟩ := Barrier.published_eq_available published
      exact cuts before (within.found a found) scanned enough
  | batch turn => exact Done.keeps_of_quiet ⟨within.limit, goesOn turn _ trivial, within.found⟩
  | event turn =>
      exact Done.keeps_of_hand ⟨within.limit, goesOn turn _ trivial, within.found⟩
        (within.event convex turn)
  | released turn =>
      exact Done.keeps_of_store ⟨within.limit, goesOn turn _ trivial, within.found⟩
        (Processor.Phase.ok_of_release within.phase turn)
  | position turn => exact Done.keeps_of_quiet ⟨within.limit, goesOn turn _ here, within.found⟩
  | @free request resume barrier turn free answer front scans =>
      refine Done.keeps_of_quiet ⟨within.limit, goesOn turn answer ?_, fun a waiting => ?_⟩
      · cases request <;> trivial
      · have found := within.found a waiting
        unfold Barrier.Finds at found ⊢
        rwa [scans]

theorem Worker.within_of_change (convex : Convex ok) (within : w.Within ok top) (here : ok position)
    (finds : w.barrier.Finds ok top (w.barrier.value s))
    (cuts : ∀ {next a v}, ok (next - 1) → w.barrier.Finds ok top a →
      w.barrier.highestPublished s next a = .ok v → next ≤ v → ok v)
    (h : w.Change s position move done) : done.Keeps ok (Worker.Within ok top) := by
  cases h with
  | entered turn =>
      refine Done.keeps_of_quiet ⟨within.limit, within.phase, fun a found => ?_⟩
      obtain ⟨-, rfl⟩ := Barrier.enter_eq_available (Option.some.inj found)
      exact finds
  | watched turn waiting value =>
      refine Done.keeps_of_quiet ⟨within.limit, within.phase, fun a found => ?_⟩
      obtain ⟨-, same⟩ := Wait.Phase.step_eq_available (Option.some.inj found)
      rw [same, value]
      exact finds
  | readOn turn more =>
      refine Done.keeps_of_hand ⟨within.limit, within.phase, within.found⟩
        (within.batch convex turn ?_ ?_)
      · omega
      · unfold Sequencer.runLength at more
        omega
  | turned turned => exact within_of_turned convex within here cuts turned
  | early turn => exact Done.keeps_of_store within (within.event convex turn)
  | again => exact Done.keeps_of_quiet ⟨within.limit, trivial, within.found⟩
  | cancelled => exact Done.keeps_of_quiet ⟨within.limit, within.phase, within.found⟩

/-- Nothing that a worker does changes where it stands. -/
theorem Worker.barrier_of_change (h : w.Change s position move done) :
    done.after.barrier.front = w.barrier.front ∧ done.after.barrier.scans = w.barrier.scans := by
  cases h with
  | turned turned =>
      cases turned with
      | free turn free answer front scans => exact ⟨front, scans⟩
      | _ => exact ⟨rfl, rfl⟩
  | _ => exact ⟨rfl, rfl⟩

/-! ## Consumers -/

/-- What never changes of a consumer. -/
structure Consumer.Stays (c after : Consumer g ε) : Prop where
  counter : after.counter = c.counter
  front : after.front = c.front
  scans : after.scans = c.scans

variable {c after : Consumer g ε} {ring : Ring g ε} {stores : Option Int}

theorem Consumer.stays_of_step (h : c.step ring move = some (after, stores)) : c.Stays after := by
  obtain ⟨counter, role, handed⟩ := c
  cases role with
  | poller front stage =>
      obtain ⟨done, polled, same⟩ := Option.map_eq_some_iff.mp h
      cases same
      exact ⟨rfl, rfl, rfl⟩
  | worker w =>
      obtain ⟨done, worked, same⟩ := Option.map_eq_some_iff.mp h
      cases same
      obtain ⟨front, scans⟩ := Worker.barrier_of_change (Worker.change_of_step worked)
      exact ⟨rfl, front, congrArg some scans⟩

/-- A consumer that sees only positions with a property hands over and stores only such. -/
theorem Consumer.within_of_step (convex : Convex ok) (within : c.Within ok top)
    (sees : c.Sees ok top ring.sequencer) (h : c.step ring move = some (after, stores)) :
    after.Within ok top ∧ (∀ v, stores = some v → ok v) ∧
      ∃ new, after.handed = c.handed ++ new ∧ ∀ e ∈ new, ok e.1 ∧ e.2 = ring.event e.1 := by
  have read {hands : List Int} (good : ∀ t ∈ hands, ok t) (e : Int × ε)
      (inside : e ∈ hands.map fun t => (t, ring.event t)) : ok e.1 ∧ e.2 = ring.event e.1 := by
    obtain ⟨t, handed, rfl⟩ := List.mem_map.mp inside
    exact ⟨good t handed, rfl⟩
  obtain ⟨counter, role, handed⟩ := c
  cases role with
  | poller front stage =>
      obtain ⟨done, polled, same⟩ := Option.map_eq_some_iff.mp h
      cases same
      have keeps := Polled.within_of_change convex within sees.position sees.looks
        (Polled.change_of_step polled)
      exact ⟨keeps.after, keeps.stores, _, rfl, read keeps.hands⟩
  | worker w =>
      obtain ⟨done, worked, same⟩ := Option.map_eq_some_iff.mp h
      cases same
      have keeps := Worker.within_of_change convex within sees.position (sees.finds rfl)
        (sees.cuts rfl) (Worker.change_of_step worked)
      exact ⟨keeps.after, keeps.stores, _, rfl, read keeps.hands⟩

end EventRing
