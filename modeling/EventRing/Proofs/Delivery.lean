import EventRing.Proofs.Counting
import EventRing.Proofs.Keeping
import EventRing.Proofs.Wiring
/-!
# EventRing.Proofs.Delivery

Every consumer is handed the written events, in order, each of them once.  That takes all parts of the
ring at a time.  A consumer goes on only to where everything is published and everybody in front of it
has been (`Ready`), one sequence after the other (`Consumer.Steady`).  What it is handed was not
overwritten, since claims stay within a lap of every gate, and every consumer has a gate behind it: its
own counter, or that of a consumer further down (`Covered`).  Claims in turn do not run into each other
because the gates are behind everything that is still open.

Gates and consumers come in before the first claim.  Afterwards only consumers move their counters, so
all of these facts are kept together by one invariant, `Served`.
-/

namespace EventRing

variable {g : Geometry} {ε : Type}

namespace Pipeline

open Production (Complete Few lower_complete)

variable {p q : Pipeline g ε} {act : Act ε} {c after : Consumer g ε} {id : CounterId} {t v : Int}
  {a : Production.Act ε}

/-! ## The condition -/

/-- A counter that holds producers back, or that of a consumer in front of a covered one. -/
inductive Covered (p : Pipeline g ε) : CounterId → Prop where
  | gate {id : CounterId} (gate : id ∈ p.floor.sequencer.gates) : Covered p id
  | front {d : Consumer g ε} {id : CounterId} (listed : d ∈ p.consumers) (inFront : id ∈ d.front)
      (covered : Covered p d.counter) : Covered p id

/-- Gates and consumers come in before the first claim, claims are made only while every consumer is
covered, counters of consumers are their own, other gates move forward only, and handlers do not
fail. -/
def Proper (p : Pipeline g ε) : Act ε → Prop
  | .produce (.gate _) | .produce (.ungate _) | .hirePoller _ | .hireWorker .. =>
    p.floor.claimed = -1
  | .produce (.claim ..) | .produce (.tryClaim ..) | .produce (.retry _) =>
    ∀ c ∈ p.consumers, p.Covered c.counter
  | .produce (.move id value) =>
    ¬ p.Owned id ∧ (id ∈ p.floor.sequencer.gates → p.floor.counter id ≤ value)
  | .consume _ move => move.Gentle
  | _ => True

/-! ## The invariant -/

/-- What a consumer was handed: the sequences from 0 on, each of them once, with what was written. -/
structure Delivered (p : Pipeline g ε) (c : Consumer g ε) : Prop where
  order : c.handed.map Prod.fst = (List.range c.handed.length).map fun n : Nat => (n : Int)
  written : ∀ e ∈ c.handed, p.floor.Published e.1 ∧ ∀ w, p.floor.drafts e.1 = some w → e.2 = w

/-- How one consumer stands. -/
structure Consumed (p : Pipeline g ε) (c : Consumer g ε) : Prop where
  ready : p.Ready c (p.floor.counter c.counter)
  within : c.Within (p.Ready c) p.floor.claimed
  steady : c.Steady (p.floor.counter c.counter)
  delivered : p.Delivered c

/-- How everybody stands. -/
structure Served (p : Pipeline g ε) : Prop where
  behind : p.floor.CacheBehind
  leash : p.floor.Leash
  drafted : p.floor.Drafted
  apart : p.consumers ≠ [] → p.floor.Window ∧ p.floor.Intact
  covered : p.floor.claimed ≠ -1 → ∀ c ∈ p.consumers, p.Covered c.counter
  consumed : ∀ c ∈ p.consumers, p.Consumed c

theorem Delivered.mono (delivered : p.Delivered c) (sound : p.floor.Sound)
    (change : Production.Change p.floor a q.floor) : q.Delivered c := by
  refine ⟨delivered.order, fun e listed => ?_⟩
  obtain ⟨shown, written⟩ := delivered.written e listed
  refine ⟨Production.published_of_change change shown, fun w draft => ?_⟩
  rw [Production.drafts_of_change sound shown change] at draft
  exact written w draft

/-- A consumer that does nothing stands as before, as long as nobody in front moves back. -/
theorem Consumed.mono (consumed : p.Consumed c) (sound : p.floor.Sound)
    (change : Production.Change p.floor a q.floor)
    (same : q.floor.counter c.counter = p.floor.counter c.counter)
    (forward : ∀ id ∈ c.front, p.floor.counter id ≤ q.floor.counter id) : q.Consumed c := by
  have later {v} (ready : p.Ready c v) : q.Ready c v :=
    ready.mono rfl (Production.published_of_change change) forward
  refine ⟨?_, consumed.within.mono later (Production.claimed_le_of_change sound change), ?_,
    consumed.delivered.mono sound change⟩
  · rw [same]
    exact later consumed.ready
  · rw [same]
    exact consumed.steady

/-! ## Gates -/

/-- Behind a covered counter there is a gate of a consumer. -/
theorem Covered.exists_gate (covered : p.Covered id) (owned : p.Owned id)
    (consumed : ∀ c ∈ p.consumers, p.Consumed c) :
    ∃ gate ∈ p.floor.sequencer.gates, p.Owned gate ∧ p.floor.counter gate ≤ p.floor.counter id := by
  induction covered with
  | gate gate => exact ⟨_, gate, owned, Int.le_refl _⟩
  | @front d id listed inFront covered ih =>
      obtain ⟨gate, holds, others, below⟩ := ih ⟨d, listed, rfl⟩
      have near := (consumed d listed).ready.2 id inFront
      exact ⟨gate, holds, others, Int.le_trans below near⟩

/-- If everybody is covered, then claims are clear: some gate is behind all that is open. -/
theorem Served.clear (served : p.Served) (sound : p.floor.Sound) (some : p.consumers ≠ [])
    (covered : ∀ c ∈ p.consumers, p.Covered c.counter) (before : Int) : p.floor.Clear before := by
  obtain ⟨c, listed⟩ := List.exists_mem_of_ne_nil _ some
  obtain ⟨gate, holds, ⟨d, there, own⟩, -⟩ :=
    (covered c listed).exists_gate ⟨c, listed, rfl⟩ served.consumed
  refine Production.clear_of_gate_behind sound holds (fun t low below => ?_) before
  rw [← own] at below
  exact (served.consumed d there).ready.1.2 t low below

/-- What was written for a published sequence is still there for whoever has not come to it. -/
theorem Served.event {w : ε} (served : p.Served) (sound : p.floor.Sound) (listed : c ∈ p.consumers)
    (shown : p.floor.Published t) (ahead : p.floor.counter c.counter < t)
    (draft : p.floor.drafts t = some w) : p.floor.ring.event t = w := by
  have claimed : p.floor.claimed ≠ -1 := by
    have := sound.split.past shown
    omega
  obtain ⟨gate, holds, -, near⟩ :=
    (served.covered claimed c listed).exists_gate ⟨c, listed, rfl⟩ served.consumed
  refine (served.apart (List.ne_nil_of_mem listed)).2 draft fun u granted => ?_
  have := served.leash u granted gate holds
  omega

/-! ## What happens to the ring -/

/-- An act that the ring can take. -/
structure Admissible (p : Pipeline g ε) (a : Production.Act ε) : Prop where
  orderly : p.floor.Orderly a
  early : ∀ ids, a = .gate ids → p.floor.claimed = -1
  spaced : p.consumers ≠ [] → p.floor.Spaced a

theorem Served.admissible (served : p.Served) (sound : p.floor.Sound)
    (proper : p.Proper (.produce a)) : p.Admissible a := by
  cases a with
  | gate ids =>
      have unclaimed : p.floor.claimed = -1 := proper
      refine ⟨fun single => Or.inr ?_, fun _ _ => unclaimed, fun _ => trivial⟩
      have cache := sound.cache_le
      have := (Production.complete_cursor sound single).1
      omega
  | claim i n =>
      exact ⟨trivial, fun ids other => (by cases other), fun some _ => served.clear sound some proper _⟩
  | tryClaim i n =>
      exact ⟨trivial, fun ids other => (by cases other), fun some _ => served.clear sound some proper _⟩
  | retry i =>
      refine ⟨trivial, fun ids other => (by cases other), fun some => ?_⟩
      simp only [Production.Spaced]
      split
      · exact fun _ => served.clear sound some proper _
      · trivial
  | move id value =>
      exact ⟨proper.2, fun ids other => (by cases other), fun _ => proper.2⟩
  | _ => exact ⟨trivial, fun ids other => (by cases other), fun _ => trivial⟩

/-- What an admissible act leaves of the ring. -/
theorem Served.floor {floor : Production g ε} (served : p.Served) (sound : p.floor.Sound)
    (admissible : p.Admissible a) (change : Production.Change p.floor a floor) :
    floor.CacheBehind ∧ floor.Leash ∧ floor.Drafted ∧
      (p.consumers ≠ [] → floor.Window ∧ floor.Intact) := by
  refine ⟨Production.cacheBehind_of_change sound served.behind admissible.orderly change,
    Production.leash_of_change sound served.behind served.leash admissible.orderly admissible.early
      change,
    Production.drafted_of_change served.drafted change, fun some => ?_⟩
  obtain ⟨window, intact⟩ := served.apart some
  exact ⟨Production.window_later sound served.behind window (admissible.spaced some) change,
    Production.intact_of_change sound window served.drafted intact change⟩

/-- A covered counter stays covered, if no gate is taken off and nobody leaves. -/
theorem Covered.mono (covered : p.Covered id)
    (gates : ∀ {id}, id ∈ p.floor.sequencer.gates → id ∈ q.floor.sequencer.gates)
    (consumers : ∀ d ∈ p.consumers, ∃ e ∈ q.consumers, e.counter = d.counter ∧ e.front = d.front) :
    q.Covered id := by
  induction covered with
  | gate gate => exact Covered.gate (gates gate)
  | front listed inFront _ ih =>
      obtain ⟨e, there, counter, front⟩ := consumers _ listed
      rw [← counter] at ih
      rw [← front] at inFront
      exact Covered.front there inFront ih

/-! ## Steps of producers -/

/-- Producers do not move the counters of consumers: a gate comes in while these are at the cursor. -/
theorem Served.counter_of_produced {floor : Production g ε} (served : p.Served)
    (sound : p.floor.Sound) (wired : p.Wired) (proper : p.Proper (.produce a))
    (change : Production.Change p.floor a floor) (owned : p.Owned id) :
    floor.counter id = p.floor.counter id := by
  obtain ⟨c, listed, rfl⟩ := owned
  refine (served.consumed c listed).ready.1.still sound (wired.made c listed) ?_ ?_ change
  · rintro ids rfl
    exact proper
  · rintro value rfl
    exact proper.1 ⟨c, listed, rfl⟩

theorem served_of_produced {floor : Production g ε} (served : p.Served) (sound : p.floor.Sound)
    (wired : p.Wired) (proper : p.Proper (.produce a)) (change : Production.Change p.floor a floor) :
    Served { p with floor := floor } := by
  obtain ⟨behind, leash, drafted, apart⟩ :=
    served.floor sound (served.admissible sound proper) change
  have counters {id} (owned : p.Owned id) : floor.counter id = p.floor.counter id :=
    served.counter_of_produced sound wired proper change owned
  refine ⟨behind, leash, drafted, apart, fun claimed c listed => ?_, fun c listed => ?_⟩
  · -- before the first claim everybody was covered, and since then no gate was taken off
    have before : p.Covered c.counter ∧ ∀ id, a ≠ .ungate id := by
      rcases Production.claimed_of_change change with same | ⟨i, n, rfl | rfl⟩ | ⟨i, rfl⟩
      · have already : p.floor.claimed ≠ -1 := same ▸ claimed
        refine ⟨served.covered already c listed, fun id off => ?_⟩
        subst off
        exact already proper
      · exact ⟨proper c listed, fun id off => (nomatch off)⟩
      · exact ⟨proper c listed, fun id off => (nomatch off)⟩
      · exact ⟨proper c listed, fun id off => (nomatch off)⟩
    refine before.1.mono (fun {id} gate => ?_) fun d there => ⟨d, there, rfl, rfl⟩
    exact (Production.gate_of_change change gate).resolve_right (before.2 id)
  · refine (served.consumed c listed).mono sound change (counters ⟨c, listed, rfl⟩) ?_
    intro id inFront
    exact Int.le_of_eq (counters (wired.owned c listed id inFront)).symm

/-! ## Consumers that come in -/

/-- A consumer that comes in stands before sequence 0. -/
theorem Entry.consumed {s : Sequencer g} {front : List CounterId} {role : Role g}
    {counter : CounterId} (entry : Entry s front role) (start : q.floor.counter counter = -1)
    (others : ∀ id ∈ front, -1 ≤ q.floor.counter id) :
    q.Consumed { counter := counter, role := role } := by
  refine ⟨entry.ready start others, entry.within _ _ _, ?_, rfl, fun e none => (nomatch none)⟩
  show Consumer.Steady (q.floor.counter counter) _
  rw [start]
  cases entry with
  | poller => exact Int.zero_sub 1
  | worker => exact ⟨Int.zero_sub 1, rfl⟩

theorem served_of_hired {front : List CounterId} {role : Role g} (served : p.Served)
    (sound : p.floor.Sound) (wired : p.Wired) (unclaimed : p.floor.claimed = -1)
    (owned : ∀ id ∈ front, p.Owned id) (entry : Entry p.floor.sequencer front role) :
    Served
      { floor := p.floor.withCounters (p.floor.sequencer.counters.make Counter.initial).2
        consumers := p.consumers ++
          [{ counter := p.floor.sequencer.counters.values.size, role := role }] } := by
  have change : Production.Change p.floor (.make Counter.initial)
      (p.floor.withCounters (p.floor.sequencer.counters.make Counter.initial).2) :=
    Production.Change.made
  have admissible : p.Admissible (.make Counter.initial) :=
    ⟨trivial, fun ids other => (by cases other), fun _ => trivial⟩
  obtain ⟨behind, leash, drafted, -⟩ := served.floor sound admissible change
  have same {id} (there : p.Owned id) :
      (p.floor.withCounters (p.floor.sequencer.counters.make Counter.initial).2).counter id =
        p.floor.counter id := by
    obtain ⟨c, listed, rfl⟩ := there
    exact Counters.value_make _ (wired.made c listed)
  have nothing {t} := Production.not_granted (t := t) sound unclaimed
  refine ⟨behind, leash, drafted, fun _ => ⟨?_, ?_⟩, fun claimed => absurd unclaimed claimed, ?_⟩
  · intro t granted
    exact absurd granted nothing
  · intro t w draft
    exact absurd (drafted draft) nothing
  · intro c listed
    rcases List.mem_append.mp listed with old | new
    · refine (served.consumed c old).mono sound change (same ⟨c, old, rfl⟩) ?_
      intro id inFront
      exact Int.le_of_eq (same (wired.owned c old id inFront)).symm
    · rw [List.mem_singleton.mp new]
      refine entry.consumed (Counters.value_make_self _) fun id inFront => ?_
      obtain ⟨d, there, rfl⟩ := owned id inFront
      show -1 ≤ (p.floor.withCounters _).counter d.counter
      rw [same ⟨d, there, rfl⟩]
      exact (served.consumed d there).ready.1.1

/-! ## Steps of consumers -/

/-- A consumer that is handed the next event is handed what was written for it. -/
theorem Delivered.step (delivered : p.Delivered c) (served : p.Served) (sound : p.floor.Sound)
    (listed : c ∈ p.consumers) (change : Production.Change p.floor a q.floor)
    (handed : after.handed = c.handed ∨
      p.floor.counter c.counter < c.handed.length ∧ after.handed =
        c.handed ++ [((c.handed.length : Int), p.floor.ring.event c.handed.length)])
    (ready : ∀ e ∈ after.handed, e ∈ c.handed ∨ p.Ready c e.1 ∧ e.2 = p.floor.ring.event e.1) :
    q.Delivered after := by
  have still := delivered.mono (q := q) sound change
  rcases handed with same | ⟨ahead, more⟩
  · refine ⟨?_, ?_⟩
    · rw [same]
      exact still.order
    · rw [same]
      exact still.written
  · refine ⟨?_, fun e inside => ?_⟩
    · rw [more, List.map_append, delivered.order, List.length_append, List.length_singleton,
        List.range_succ, List.map_append]
      rfl
    · rcases ready e inside with old | ⟨here, value⟩
      · exact still.written e old
      · rw [more] at inside
        rcases List.mem_append.mp inside with old | new
        · exact still.written e old
        · obtain rfl := List.mem_singleton.mp new
          have shown := here.1.2 c.handed.length (Int.natCast_nonneg _) (Int.le_refl _)
          refine ⟨Production.published_of_change change shown, fun w draft => ?_⟩
          rw [Production.drafts_of_change sound shown change] at draft
          exact served.event sound listed shown ahead draft

theorem Served.step {j : Nat} {move : Move} {stores : Option Int} {floor : Production g ε}
    (served : p.Served) (sound : p.floor.Sound) (wired : p.Wired) (few : p.floor.Few)
    (there : p.consumers[j]? = some c) (gentle : move.Gentle)
    (stepped : c.step p.floor.ring move = some (after, stores))
    (change : Production.Change p.floor a floor) (admissible : p.Admissible a)
    (stored : p.Stored c stores floor) :
    Served { floor := floor, consumers := p.consumers.set j after } := by
  have here := List.mem_of_getElem? there
  have stands := served.consumed c here
  have sees := sees_ready wired sound (Production.tells_of_few sound few)
    (fun d listed => (served.consumed d listed).ready) here
  obtain ⟨within, stores', new, appended, ready⟩ :=
    Consumer.within_of_step lower_ready.convex stands.within sees stepped
  obtain ⟨steady, forward, handed⟩ :=
    Consumer.steady_of_step stands.within stands.steady gentle stepped
  have stays := Consumer.stays_of_step stepped
  have ahead (id : CounterId) : p.floor.counter id ≤ floor.counter id := by
    by_cases own : id = c.counter
    · rw [own, stored.own]
      exact forward
    · exact Int.le_of_eq (stored.others own).symm
  obtain ⟨behind, leash, drafted, apart⟩ := served.floor sound admissible change
  refine ⟨behind, leash, drafted, fun _ => apart (List.ne_nil_of_mem here), ?_, ?_⟩
  · intro claimed d listed
    rw [stored.claimed] at claimed
    have covered : p.Covered d.counter := by
      rcases wired.mem_set there listed with rfl | ⟨old, -⟩
      · rw [stays.counter]
        exact served.covered claimed c here
      · exact served.covered claimed d old
    refine covered.mono (fun {id} gate => ?_) fun e inside => exists_mem_set there stays inside
    show id ∈ floor.sequencer.gates
    rw [stored.gates]
    exact gate
  · intro d listed
    rcases wired.mem_set there listed with rfl | ⟨old, other⟩
    · -- where it may go was settled before it moved, and moving takes nothing back
      have later {v} (ready : p.Ready c v) :
          Ready { floor := floor, consumers := p.consumers.set j d } d v :=
        ready.mono stays.front (Production.published_of_change change) fun id _ => ahead id
      have now : p.Ready c (stores.getD (p.floor.counter c.counter)) := by
        cases stores with
        | none => exact stands.ready
        | some v => exact stores' v rfl
      have counter : floor.counter d.counter = stores.getD (p.floor.counter c.counter) := by
        rw [stays.counter]
        exact stored.own
      refine ⟨?_, within.mono later (Int.le_of_eq stored.claimed.symm), ?_,
        stands.delivered.step served sound here change handed fun e inside => ?_⟩
      · show Ready _ _ (floor.counter d.counter)
        rw [counter]
        exact later now
      · show d.Steady (floor.counter d.counter)
        rw [counter]
        exact steady
      · rw [appended] at inside
        exact (List.mem_append.mp inside).imp_right (ready e)
    · exact (served.consumed d old).mono sound change (stored.others other) fun id _ => ahead id

theorem served_of_change (served : p.Served) (sound : p.floor.Sound) (wired : p.Wired)
    (few : p.floor.Few) (proper : p.Proper act) (h : Change p act q) : q.Served := by
  cases h with
  | produced change => exact served_of_produced served sound wired proper change
  | hired asks owned entry =>
      have unclaimed : p.floor.claimed = -1 := by
        rcases asks with rfl | ⟨kind, most, waiter, rfl⟩ <;> exact proper
      exact served_of_hired served sound wired unclaimed owned entry
  | consumed there stepped =>
      refine served.step sound wired few there proper stepped
        (Production.Change.idle .measure) ?_ stored_none
      exact ⟨trivial, fun ids other => (by cases other), fun _ => trivial⟩
  | @stored j move c after progress there stepped made =>
      have here := List.mem_of_getElem? there
      have stands := served.consumed c here
      have forward : p.floor.counter c.counter ≤ progress :=
        (Consumer.steady_of_step stands.within stands.steady proper stepped).2.1
      refine served.step sound wired few there proper stepped (Production.Change.moved made) ?_
        (stored_some made)
      exact ⟨fun _ => forward, fun ids other => (by cases other), fun _ _ => forward⟩

/-! ## Runs -/

theorem served_fresh (g : Geometry) (kind : Producers) (parks : Bool) (factory : Nat → ε) :
    (fresh g kind parks factory).Served := by
  refine ⟨fun id gate => (nomatch gate), ?_, fun draft => (nomatch draft), fun some => absurd rfl some,
    fun _ c none => (nomatch none), fun c none => (nomatch none)⟩
  intro t _ id gate
  cases gate

/-- The invariant holds wherever a proper run leads, as long as there are few claims. -/
theorem served_of_reaches {kind : Producers} {parks : Bool} {factory : Nat → ε}
    (reached : Reaches step Proper (fresh g kind parks factory) p) (few : p.floor.Few) :
    p.Served := by
  have all := reached.invariant
    (motive := fun p => p.floor.Sound ∧ p.Wired ∧ (p.floor.Few → p.Served))
    ⟨Production.sound_fresh g kind parks factory, wired_fresh g kind parks factory,
      fun _ => served_fresh g kind parks factory⟩ ?_
  · exact all.2.2 few
  · rintro p act q ⟨sound, wired, served⟩ proper made
    have h := change_of_step made
    obtain ⟨a, change⟩ := floor_of_change h
    refine ⟨Production.sound_of_change sound change, wired_of_change wired h, fun few => ?_⟩
    have before := (later_of_change sound h).few few
    exact served_of_change (served before) sound wired before proper h

/-- Wherever a proper run leads, every consumer was handed exactly the first sequences there are, in
order and each of them once, and with each what its owner wrote before it was published. -/
theorem events_are_delivered_in_order {kind : Producers} {parks : Bool} {factory : Nat → ε}
    (reached : Reaches step Proper (fresh g kind parks factory) p) (few : p.floor.Few) :
    ∀ c ∈ p.consumers,
      c.handed.map Prod.fst = (List.range c.handed.length).map (fun n : Nat => (n : Int)) ∧
      ∀ e ∈ c.handed, p.floor.Published e.1 ∧ ∀ w, p.floor.drafts e.1 = some w → e.2 = w := by
  intro c listed
  have delivered := ((served_of_reaches reached few).consumed c listed).delivered
  exact ⟨delivered.order, delivered.written⟩

/-- A ring of two slots for many producers, with a poller and behind it a worker that holds producers
back: the poller is handed both events that were written. -/
theorem events_are_delivered_in_order_size_two :
    ∃ p : Pipeline ⟨1, by decide⟩ Nat,
      Reaches step Proper (fresh ⟨1, by decide⟩ .many false fun _ => 0) p ∧ p.floor.Few ∧
      (∃ c ∈ p.consumers, c.handed = [(0, 7), (1, 8)]) ∧
      ∀ c ∈ p.consumers,
        c.handed.map Prod.fst = (List.range c.handed.length).map (fun n : Nat => (n : Int)) ∧
        ∀ e ∈ c.handed, p.floor.Published e.1 ∧ ∀ w, p.floor.drafts e.1 = some w → e.2 = w := by
  have begun : Reaches step Proper
      (fresh (ε := Nat) ⟨1, by decide⟩ .many false fun _ => 0) _ := Reaches.start
  have ready := (((begun.next (rfl : step _ (.hirePoller []) = some _) (by rfl)).next
    (rfl : step _ (.hireWorker .event none .spinning [0]) = some _) (by rfl)).next
    (rfl : step _ (.produce (.gate [1])) = some _) (by rfl)).next
    (rfl : step _ (.produce .enlist) = some _) trivial
  have claimed := ready.next (rfl : step _ (.produce (.claim 0 2)) = some _) (by
    -- the worker is a gate, and the poller is in front of it
    intro c listed
    rcases List.mem_append.mp listed with first | second
    · rw [List.mem_singleton.mp first]
      exact Covered.front (List.mem_append_right _ (List.mem_singleton_self _))
        (List.mem_singleton_self 0) (Covered.gate (List.mem_singleton_self 1))
    · rw [List.mem_singleton.mp second]
      exact Covered.gate (List.mem_singleton_self 1))
  have published := ((claimed.next
    (rfl : step _ (.produce (.write 0 0 fun _ _ => 7)) = some _) trivial).next
    (rfl : step _ (.produce (.write 0 1 fun _ _ => 8)) = some _) trivial).next
    (rfl : step _ (.produce (.publish 0)) = some _) trivial
  have handed := ((published.next (rfl : step _ (.consume 0 .look) = some _) trivial).next
    (rfl : step _ (.consume 0 (.hear .keepGoing)) = some _) trivial).next
    (rfl : step _ (.consume 0 (.hear .keepGoing)) = some _) trivial
  refine ⟨_, handed, fun _ => by decide, ⟨_, List.mem_cons_self, rfl⟩, ?_⟩
  exact events_are_delivered_in_order handed fun _ => by decide

end Pipeline

end EventRing
