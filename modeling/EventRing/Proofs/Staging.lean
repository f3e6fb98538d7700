import EventRing.Proofs.Marking
/-!
# EventRing.Proofs.Staging

A stage never overtakes the stages in front of it.  How far a consumer may go it learns from one look at
everybody in front, and while it hands over what it found they all move on.  That look stays good as
long as nobody moves back, and nobody does: what a consumer has in hand is never behind its counter
(`Consumer.Ahead`), so neither is anything that it stores, whether its handler accepted the events,
failed on one of them or was stopped.

So every consumer stays at positions where everything is published and everybody in front has been
(`Ready`), and this is kept for all of them together (`Aligned`).  Marks have to tell the truth for
that: they do if claims stay in a window, which any gate brings about, or if the laps have not
repeated (`Guarded`).
-/

namespace EventRing

open Processor

variable {g : Geometry} {ε : Type}

/-! ## Nobody moves back -/

/-- A step that does not move back: what it stores is not below the counter, and what it leaves in hand
is not below what it stored. -/
structure Done.Climbs {α : Type} (within : (Int → Prop) → α → Prop) (counter : Int) (done : Done α) :
    Prop where
  forward : counter ≤ done.stores.getD counter
  after : within (done.stores.getD counter ≤ ·) done.after

section Climbing

variable {s : Sequencer g} {counter v : Int} {id : CounterId} {front : List CounterId} {move : Move}

theorem Polled.climbs_of_change {stage : Polled} {done : Done Polled}
    (ahead : stage.Within (s.counters.value id ≤ ·)) (h : Polled.Change s id front stage move done) :
    done.Climbs Polled.Within (s.counters.value id) := by
  have keeps : done.Keeps (s.counters.value id ≤ ·) (Polled.Within (s.counters.value id ≤ ·)) := by
    apply within_of_change (convex_above _) ahead (Int.le_refl _) _ h
    intro next v before _ enough
    show s.counters.value id ≤ v
    omega
  cases h with
  | through => exact ⟨keeps.stores _ rfl, trivial⟩
  | stored => exact ⟨keeps.stores _ rfl, trivial⟩
  | _ => exact ⟨Int.le_refl _, keeps.after⟩

/-- Everything that a worker has in hand has a property.  What it waits for is left out: that is not cut
yet. -/
def Worker.Carries (ok : Int → Prop) (w : Worker g) : Prop := w.phase.Within ok

theorem Worker.climbs_of_turned {w : Worker g} {around : Surroundings} {done : Done (Worker g)}
    (limit : 1 ≤ w.plan.limit) (ahead : w.Carries (counter ≤ ·)) (h : w.Turned s counter around done) :
    done.Climbs Worker.Carries counter := by
  have goesOn {request : Request} {resume : request.Answer → Phase}
      (turn : w.plan.turn w.phase = .ask request resume) (answer : request.Answer)
      (told : request.Tells (counter ≤ ·) answer) : (resume answer).Within (counter ≤ ·) :=
    Phase.within_of_turn limit (convex_above counter) ahead turn answer told
  cases h with
  | @awaited next resume outcome cut turn =>
      have before : counter ≤ next - 1 := by
        have known : w.phase.Within (counter ≤ ·) := ahead
        rw [Phase.await_cases turn] at known
        exact known
      refine ⟨Int.le_refl _, goesOn turn cut ?_⟩
      rintro v rfl enough
      show counter ≤ v
      omega
  | batch turn => exact ⟨Int.le_refl _, goesOn turn _ trivial⟩
  | event turn => exact ⟨Int.le_refl _, goesOn turn _ trivial⟩
  | @released v resume turn =>
      refine ⟨Phase.ok_of_release ahead turn, ?_⟩
      -- what is left in hand is behind what was stored
      exact Phase.within_of_turn limit (convex_above v) (Phase.above_of_release ahead turn) turn ()
        trivial
  | position turn => exact ⟨Int.le_refl _, goesOn turn _ (Int.le_refl counter)⟩
  | @free request _ _ turn free answer =>
      refine ⟨Int.le_refl _, goesOn turn answer ?_⟩
      cases request <;> trivial

theorem Worker.climbs_of_change {w : Worker g} {done : Done (Worker g)} (limit : 1 ≤ w.plan.limit)
    (ahead : w.Carries (counter ≤ ·)) (late : move ≠ .early) (h : w.Change s counter move done) :
    done.Climbs Worker.Carries counter := by
  cases h with
  | turned turned => exact climbs_of_turned limit ahead turned
  | early => exact absurd rfl late
  | again => exact ⟨Int.le_refl _, trivial⟩
  | _ => exact ⟨Int.le_refl _, ahead⟩

end Climbing

/-- Nothing that a consumer has in hand is behind its counter. -/
def Consumer.Ahead (counter : Int) (c : Consumer g ε) : Prop :=
  match c.role with
  | .poller _ stage => stage.Within (counter ≤ ·)
  | .worker w => w.Carries (counter ≤ ·)

/-- A step of a consumer does not move it back, unless its handler stores progress early. -/
theorem Consumer.ahead_of_step {c after : Consumer g ε} {ring : Ring g ε} {move : Move}
    {stores : Option Int} {ok : Int → Prop} {top : Int} (within : c.Within ok top)
    (ahead : c.Ahead (ring.sequencer.counters.value c.counter)) (late : move ≠ .early)
    (h : c.step ring move = some (after, stores)) :
    ring.sequencer.counters.value c.counter ≤
        stores.getD (ring.sequencer.counters.value c.counter) ∧
      after.Ahead (stores.getD (ring.sequencer.counters.value c.counter)) := by
  obtain ⟨counter, role, handed⟩ := c
  cases role with
  | poller front stage =>
      obtain ⟨done, polled, same⟩ := Option.map_eq_some_iff.mp h
      cases same
      have climbs := Polled.climbs_of_change ahead (Polled.change_of_step polled)
      exact ⟨climbs.forward, climbs.after⟩
  | worker w =>
      obtain ⟨done, worked, same⟩ := Option.map_eq_some_iff.mp h
      cases same
      have climbs := Worker.climbs_of_change within.limit ahead late (Worker.change_of_step worked)
      exact ⟨climbs.forward, climbs.after⟩

/-! ## The condition -/

namespace Production

variable {p q : Production g ε} {act : Act ε}

/-- Something holds producers back, or they have not claimed enough for the laps to repeat. -/
def Guarded (p : Production g ε) : Prop := p.sequencer.gates ≠ [] ∨ p.Few

/-- What guards later guarded before, if gates come in before the first claim. -/
theorem Guarded.before (guarded : q.Guarded) (sound : p.Sound)
    (early : ∀ ids, act = .gate ids → p.claimed = -1) (h : Change p act q) : p.Guarded := by
  rcases guarded with gated | few
  · rcases gates_eq_of_change h with same | ⟨ids, gate, -⟩ | ⟨id, -, same⟩
    · rw [same] at gated
      exact Or.inl gated
    · right
      intro _
      have := early ids gate
      have := g.size_cast_pos
      omega
    · rw [same] at gated
      refine Or.inl fun none => gated ?_
      rw [none]
      rfl
  · right
    intro many
    have := few ((kind_of_change h).trans many)
    have := claimed_le_of_change sound h
    omega

/-- If there are gates, then claims stay in a window and the marks are the latest. -/
def Marked (p : Production g ε) : Prop := p.sequencer.gates ≠ [] → p.Window ∧ p.Latest

theorem Marked.tells (marked : p.Marked) (sound : p.Sound) (guarded : p.Guarded) : p.Tells := by
  rcases guarded with gated | few
  · obtain ⟨window, latest⟩ := marked gated
    exact tells_of_latest sound window latest
  · exact tells_of_few sound few

theorem marked_of_change (sound : p.Sound) (behind : p.CacheBehind) (marked : p.Marked)
    (spaced : p.sequencer.gates ≠ [] → p.Spaced act)
    (early : ∀ ids, act = .gate ids → p.claimed = -1) (h : Change p act q) : q.Marked := by
  intro gated
  have before (some : p.sequencer.gates ≠ []) : q.Window ∧ q.Latest := by
    obtain ⟨window, latest⟩ := marked some
    exact ⟨window_later sound behind window (spaced some) h,
      latest_of_change sound window latest h⟩
  rcases gates_eq_of_change h with same | ⟨ids, rfl, -⟩ | ⟨id, -, same⟩
  · rw [same] at gated
    exact before gated
  · -- a gate comes in before anything is claimed
    have unclaimed : q.claimed = -1 := by
      rcases claimed_of_change h with same | ⟨i, n, claim | claim⟩ | ⟨i, retry⟩
      · exact same.trans (early ids rfl)
      · cases claim
      · cases claim
      · cases retry
    have soundQ := sound_of_change sound h
    exact ⟨window_of_unclaimed soundQ unclaimed, latest_of_unclaimed soundQ unclaimed⟩
  · rw [same] at gated
    refine before fun none => gated ?_
    rw [none]
    rfl

end Production

namespace Pipeline

open Production (Complete Guarded lower_complete)

variable {p q : Pipeline g ε} {act : Act ε} {c after : Consumer g ε} {id : CounterId}
  {a : Production.Act ε}

/-- Gates come in and go before the first claim only, counters of consumers and gates are moved by
consumers only, and no handler stores progress early. -/
def Staged (p : Pipeline g ε) : Act ε → Prop
  | .produce (.gate _) | .produce (.ungate _) => p.floor.claimed = -1
  | .produce (.move id _) => ¬ p.Owned id ∧ id ∉ p.floor.sequencer.gates
  | .consume _ move => move ≠ .early
  | _ => True

instance (move : Move) : Decidable (move = .early) :=
  match move with
  | .early => isTrue rfl
  | .look | .hear _ | .store | .enter | .watch _ _ | .readOn | .turn _ | .again | .cancel =>
    isFalse nofun

instance (p : Pipeline g ε) : (act : Act ε) → Decidable (p.Staged act)
  | .produce (.gate _) | .produce (.ungate _) => inferInstanceAs (Decidable (_ = _))
  | .produce (.move _ _) => inferInstanceAs (Decidable (_ ∧ _))
  | .consume _ move => inferInstanceAs (Decidable (move ≠ .early))
  | .produce .enlist | .produce (.dismiss _) | .produce (.claim _ _) | .produce (.tryClaim _ _)
  | .produce (.retry _) | .produce (.write _ _ _) | .produce (.publish _) | .produce (.ask _)
  | .produce .measure | .produce (.make _) | .hirePoller _ | .hireWorker _ _ _ _ => isTrue trivial

/-! ## The invariant -/

/-- How one consumer stands: where it may be, with nothing in hand that is beyond where it may go or
behind where it is. -/
structure Posted (p : Pipeline g ε) (c : Consumer g ε) : Prop where
  ready : p.Ready c (p.floor.counter c.counter)
  within : c.Within (p.Ready c) p.floor.claimed
  ahead : c.Ahead (p.floor.counter c.counter)

/-- How everybody stands. -/
structure Aligned (p : Pipeline g ε) : Prop where
  behind : p.floor.CacheBehind
  complete : ∀ id ∈ p.floor.sequencer.gates, p.floor.Complete (p.floor.counter id)
  marked : p.floor.Marked
  posted : ∀ c ∈ p.consumers, p.Posted c

/-- A consumer that does nothing stands as before, as long as nobody in front moves back. -/
theorem Posted.mono (posted : p.Posted c) (sound : p.floor.Sound)
    (change : Production.Change p.floor a q.floor)
    (same : q.floor.counter c.counter = p.floor.counter c.counter)
    (forward : ∀ id ∈ c.front, p.floor.counter id ≤ q.floor.counter id) : q.Posted c := by
  have later {v} (ready : p.Ready c v) : q.Ready c v :=
    ready.mono rfl (Production.published_of_change change) forward
  refine ⟨?_, posted.within.mono later (Production.claimed_le_of_change sound change), ?_⟩
  · rw [same]
    exact later posted.ready
  · rw [same]
    exact posted.ahead

/-- Every gate keeps claims clear: it has passed nothing that is unpublished. -/
theorem Aligned.clear (aligned : p.Aligned) (sound : p.floor.Sound)
    (gated : p.floor.sequencer.gates ≠ []) (before : Int) : p.floor.Clear before := by
  obtain ⟨id, gate⟩ := List.exists_mem_of_ne_nil _ gated
  exact Production.clear_of_gate_behind sound gate (aligned.complete id gate).2 before

/-- An act of producers that is staged is orderly, and spaced if anything gates. -/
theorem Aligned.admits (aligned : p.Aligned) (sound : p.floor.Sound)
    (staged : p.Staged (.produce a)) :
    p.floor.Orderly a ∧ (p.floor.sequencer.gates ≠ [] → p.floor.Spaced a) := by
  cases a with
  | gate ids =>
      refine ⟨fun _ => Or.inr ?_, fun _ => trivial⟩
      have unclaimed : p.floor.claimed = -1 := staged
      have cache := sound.cache_le
      rw [Production.cursor_of_unclaimed sound unclaimed]
      omega
  | claim i n => exact ⟨trivial, fun gated _ => aligned.clear sound gated _⟩
  | tryClaim i n => exact ⟨trivial, fun gated _ => aligned.clear sound gated _⟩
  | retry i =>
      refine ⟨trivial, fun gated => ?_⟩
      simp only [Production.Spaced]
      split
      · exact fun _ => aligned.clear sound gated _
      · trivial
  | move id value =>
      exact ⟨fun gate => absurd gate staged.2, fun _ gate => absurd gate staged.2⟩
  | _ => exact ⟨trivial, fun _ => trivial⟩

/-! ## Steps of producers -/

/-- What producers do leaves everybody where they stand. -/
theorem Aligned.produced {floor : Production g ε} (aligned : p.Aligned) (sound : p.floor.Sound)
    (wired : p.Wired) (staged : p.Staged (.produce a))
    (change : Production.Change p.floor a floor) : Aligned { p with floor := floor } := by
  obtain ⟨orderly, spaced⟩ := aligned.admits sound staged
  have early (ids) (gate : a = .gate ids) : p.floor.claimed = -1 := by
    subst gate
    exact staged
  have published {t} : p.floor.Published t → floor.Published t :=
    Production.published_of_change change
  have counters {id} (owned : p.Owned id) : floor.counter id = p.floor.counter id := by
    obtain ⟨c, listed, rfl⟩ := owned
    refine (aligned.posted c listed).ready.1.still sound (wired.made c listed) early ?_ change
    rintro value rfl
    exact staged.1 ⟨c, listed, rfl⟩
  refine ⟨Production.cacheBehind_of_change sound aligned.behind orderly change, fun id gate => ?_,
    Production.marked_of_change sound aligned.behind aligned.marked spaced early change,
    fun c listed => ?_⟩
  · rcases Production.gates_of_change change gate with old | ⟨ids, rfl⟩
    · have same : floor.counter id = p.floor.counter id := by
        refine (aligned.complete id old).still sound (aligned.behind id old).1 early ?_ change
        rintro value rfl
        exact staged.2 old
      show floor.Complete (floor.counter id)
      rw [same]
      exact (aligned.complete id old).mono published
    · cases change with
      | idle => exact aligned.complete id gate
      | claimed asks => rcases asks with other | other <;> cases other
      | gated made =>
          show Complete _ ((p.floor.sequencer.counters.setAll ids p.floor.sequencer.cursor).value id)
          rw [Counters.value_setAll]
          split
          · rw [Production.cursor_of_unclaimed sound staged]
            exact Production.complete_start
          · rename_i out
            refine aligned.complete id ((List.mem_append.mp gate).resolve_right fun listed => ?_)
            exact out ⟨listed, made id listed⟩
  · refine (aligned.posted c listed).mono sound change (counters ⟨c, listed, rfl⟩) ?_
    intro id inFront
    exact Int.le_of_eq (counters (wired.owned c listed id inFront)).symm

/-! ## Consumers that come in -/

theorem Entry.posted {s : Sequencer g} {front : List CounterId} {role : Role g} {counter : CounterId}
    (entry : Entry s front role) (start : q.floor.counter counter = -1)
    (others : ∀ id ∈ front, -1 ≤ q.floor.counter id) :
    q.Posted { counter := counter, role := role } := by
  refine ⟨entry.ready start others, entry.within _ _ _, ?_⟩
  cases entry <;> trivial

/-- Whoever comes in stands before sequence 0. -/
theorem Aligned.hired {front : List CounterId} {role : Role g} (aligned : p.Aligned)
    (sound : p.floor.Sound) (wired : p.Wired) (owned : ∀ id ∈ front, p.Owned id)
    (entry : Entry p.floor.sequencer front role) :
    Aligned
      { floor := p.floor.withCounters (p.floor.sequencer.counters.make Counter.initial).2
        consumers := p.consumers ++
          [{ counter := p.floor.sequencer.counters.values.size, role := role }] } := by
  have change : Production.Change p.floor (.make Counter.initial)
      (p.floor.withCounters (p.floor.sequencer.counters.make Counter.initial).2) :=
    Production.Change.made
  have same {id} (made : p.floor.Made id) :
      (p.floor.withCounters (p.floor.sequencer.counters.make Counter.initial).2).counter id =
        p.floor.counter id := Counters.value_make _ made
  have made {id} (there : p.Owned id) : p.floor.Made id := by
    obtain ⟨c, listed, rfl⟩ := there
    exact wired.made c listed
  have orderly : p.floor.Orderly (.make Counter.initial) := trivial
  have spaced : p.floor.Spaced (.make Counter.initial) := trivial
  refine ⟨Production.cacheBehind_of_change sound aligned.behind orderly change, fun id gate => ?_,
    Production.marked_of_change sound aligned.behind aligned.marked (fun _ => spaced)
      (fun ids other => (by cases other)) change, fun c listed => ?_⟩
  · show Complete _ ((p.floor.withCounters _).counter id)
    rw [same (aligned.behind id gate).1]
    exact aligned.complete id gate
  · rcases List.mem_append.mp listed with old | new
    · refine (aligned.posted c old).mono sound change (same (made ⟨c, old, rfl⟩)) ?_
      intro id inFront
      exact Int.le_of_eq (same (made (wired.owned c old id inFront))).symm
    · rw [List.mem_singleton.mp new]
      refine entry.posted (Counters.value_make_self _) fun id inFront => ?_
      show -1 ≤ (p.floor.withCounters _).counter id
      rw [same (made (owned id inFront))]
      obtain ⟨d, there, rfl⟩ := owned id inFront
      exact (aligned.posted d there).ready.1.1

/-! ## Steps of consumers -/

/-- A step of a consumer leaves it where it may be, and others where they stand. -/
theorem Aligned.step {j : Nat} {move : Move} {stores : Option Int} {floor : Production g ε}
    (aligned : p.Aligned) (sound : p.floor.Sound) (wired : p.Wired) (guarded : p.floor.Guarded)
    (there : p.consumers[j]? = some c) (late : move ≠ .early)
    (stepped : c.step p.floor.ring move = some (after, stores))
    (change : Production.Change p.floor a floor) (behind : floor.CacheBehind) (marked : floor.Marked)
    (stored : p.Stored c stores floor) :
    Aligned { floor := floor, consumers := p.consumers.set j after } := by
  have here := List.mem_of_getElem? there
  have stands := aligned.posted c here
  have sees := sees_ready wired sound (aligned.marked.tells sound guarded)
    (fun d listed => (aligned.posted d listed).ready) here
  obtain ⟨within, stores', -⟩ :=
    Consumer.within_of_step lower_ready.convex stands.within sees stepped
  obtain ⟨forward, ahead⟩ := Consumer.ahead_of_step stands.within stands.ahead late stepped
  have stays := Consumer.stays_of_step stepped
  have published {t} : p.floor.Published t → floor.Published t :=
    Production.published_of_change change
  have climbs (id : CounterId) : p.floor.counter id ≤ floor.counter id := by
    by_cases own : id = c.counter
    · rw [own, stored.own]
      exact forward
    · exact Int.le_of_eq (stored.others own).symm
  have now : p.Ready c (stores.getD (p.floor.counter c.counter)) := by
    cases stores with
    | none => exact stands.ready
    | some v => exact stores' v rfl
  refine ⟨behind, fun id gate => ?_, marked, fun d listed => ?_⟩
  · have before : id ∈ p.floor.sequencer.gates := by
      rw [← stored.gates]
      exact gate
    show floor.Complete (floor.counter id)
    by_cases own : id = c.counter
    · rw [own, stored.own]
      exact now.1.mono published
    · rw [stored.others own]
      exact (aligned.complete id before).mono published
  · rcases wired.mem_set there listed with rfl | ⟨old, other⟩
    · have later {v} (ready : p.Ready c v) :
          Ready { floor := floor, consumers := p.consumers.set j d } d v :=
        ready.mono stays.front published fun id _ => climbs id
      have counter : floor.counter d.counter = stores.getD (p.floor.counter c.counter) := by
        rw [stays.counter]
        exact stored.own
      refine ⟨?_, within.mono later (Int.le_of_eq stored.claimed.symm), ?_⟩
      · show Ready _ _ (floor.counter d.counter)
        rw [counter]
        exact later now
      · show d.Ahead (floor.counter d.counter)
        rw [counter]
        exact ahead
    · exact (aligned.posted d old).mono sound change (stored.others other) fun id _ => climbs id

theorem aligned_of_change (aligned : p.Aligned) (sound : p.floor.Sound) (wired : p.Wired)
    (guarded : p.floor.Guarded) (staged : p.Staged act) (h : Change p act q) : q.Aligned := by
  cases h with
  | produced change => exact aligned.produced sound wired staged change
  | hired asks owned entry => exact aligned.hired sound wired owned entry
  | consumed there stepped =>
      exact aligned.step sound wired guarded there staged stepped (Production.Change.idle .measure)
        aligned.behind aligned.marked stored_none
  | @stored j move c after progress there stepped made =>
      have stands := aligned.posted c (List.mem_of_getElem? there)
      have forward : p.floor.counter c.counter ≤ progress :=
        (Consumer.ahead_of_step stands.within stands.ahead staged stepped).1
      have change : Production.Change p.floor (.move c.counter progress) _ :=
        Production.Change.moved made
      have orderly : p.floor.Orderly (.move c.counter progress) := fun _ => forward
      have spaced : p.floor.Spaced (.move c.counter progress) := fun _ => forward
      refine aligned.step sound wired guarded there staged stepped change ?_ ?_ (stored_some made)
      · exact Production.cacheBehind_of_change sound aligned.behind orderly change
      · exact Production.marked_of_change sound aligned.behind aligned.marked (fun _ => spaced)
          (fun ids other => (by cases other)) change

/-! ## Runs -/

/-- Gates come in before the first claim only. -/
theorem Staged.early (staged : p.Staged act) (h : Change p act q) :
    ∃ a, Production.Change p.floor a q.floor ∧ ∀ ids, a = .gate ids → p.floor.claimed = -1 := by
  cases h with
  | @produced a floor change =>
      refine ⟨a, change, fun ids gate => ?_⟩
      subst gate
      exact staged
  | hired => exact ⟨.make Counter.initial, Production.Change.made, fun ids other => nomatch other⟩
  | consumed => exact ⟨.measure, Production.Change.idle _, fun ids other => nomatch other⟩
  | stored _ _ made =>
      exact ⟨.move _ _, Production.Change.moved made, fun ids other => nomatch other⟩

theorem aligned_fresh (g : Geometry) (kind : Producers) (parks : Bool) (factory : Nat → ε) :
    (fresh g kind parks factory).Aligned :=
  ⟨fun _ gate => (nomatch gate), fun _ gate => (nomatch gate), fun gated => absurd rfl gated,
    fun _ none => (nomatch none)⟩

/-- The invariant holds wherever a staged run leads, as long as it is guarded. -/
theorem aligned_of_reaches {kind : Producers} {parks : Bool} {factory : Nat → ε}
    (reached : Reaches step Staged (fresh g kind parks factory) p) :
    p.floor.Sound ∧ p.Wired ∧ (p.floor.Guarded → p.Aligned) := by
  refine reached.invariant
    (motive := fun p => p.floor.Sound ∧ p.Wired ∧ (p.floor.Guarded → p.Aligned))
    ⟨Production.sound_fresh g kind parks factory, wired_fresh g kind parks factory,
      fun _ => aligned_fresh g kind parks factory⟩ ?_
  rintro p act q ⟨sound, wired, aligned⟩ staged made
  have h := change_of_step made
  obtain ⟨a, change, early⟩ := staged.early h
  refine ⟨Production.sound_of_change sound change, wired_of_change wired h, fun guarded => ?_⟩
  have before := guarded.before sound early change
  exact aligned_of_change (aligned before) sound wired before staged h

/-- What a consumer is handed everybody in front of it has stored. -/
theorem Aligned.hands {j : Nat} {move : Move} (aligned : p.Aligned) (sound : p.floor.Sound)
    (wired : p.Wired) (guarded : p.floor.Guarded) (there : p.consumers[j]? = some c)
    (h : Change p (.consume j move) q) :
    ∃ after new, q.consumers[j]? = some after ∧ after.handed = c.handed ++ new ∧
      ∀ e ∈ new, e.2 = p.floor.ring.event e.1 ∧ p.Ready c e.1 := by
  obtain ⟨c', after, stores, there', stepped, consumers⟩ := stepped_of_change h
  cases there.symm.trans there'
  have here := List.mem_of_getElem? there
  have sees := sees_ready wired sound (aligned.marked.tells sound guarded)
    (fun d listed => (aligned.posted d listed).ready) here
  obtain ⟨-, -, new, handed, ready⟩ :=
    Consumer.within_of_step lower_ready.convex (aligned.posted c here).within sees stepped
  obtain ⟨inside, -⟩ := List.getElem?_eq_some_iff.mp there
  refine ⟨after, new, ?_, handed, fun e fresh => (ready e fresh).symm⟩
  rw [consumers]
  exact List.getElem?_set_self inside

/-- Wherever a staged run leads, no stage is ahead of one in front of it or of the published run, and
what a stage is handed next everybody in front of it has stored. -/
theorem stages_do_not_overtake {kind : Producers} {parks : Bool} {factory : Nat → ε}
    (reached : Reaches step Staged (fresh g kind parks factory) p)
    (guarded : p.floor.sequencer.gates ≠ [] ∨ p.floor.Few) :
    (∀ c ∈ p.consumers, p.floor.Complete (p.floor.counter c.counter) ∧
      ∀ id ∈ c.front, p.floor.counter c.counter ≤ p.floor.counter id) ∧
    ∀ {j move c q}, p.consumers[j]? = some c → p.step (.consume j move) = some q →
      ∃ after new, q.consumers[j]? = some after ∧ after.handed = c.handed ++ new ∧
        ∀ e ∈ new, e.2 = p.floor.ring.event e.1 ∧ p.floor.Complete e.1 ∧
          ∀ id ∈ c.front, e.1 ≤ p.floor.counter id := by
  obtain ⟨sound, wired, all⟩ := aligned_of_reaches reached
  have aligned := all guarded
  refine ⟨fun c listed => (aligned.posted c listed).ready, ?_⟩
  intro j move c q there made
  exact aligned.hands sound wired guarded there (change_of_step made)

/-- A ring of two slots for many producers, with a poller and behind it a worker that holds producers
back: the worker is about to be handed the event that the poller has stored. -/
theorem stages_do_not_overtake_size_two :
    ∃ p q : Pipeline ⟨1, by decide⟩ Nat,
      Reaches step Staged (fresh ⟨1, by decide⟩ .many false fun _ => 0) p ∧
      p.floor.sequencer.gates = [1] ∧
      (∀ c ∈ p.consumers, p.floor.Complete (p.floor.counter c.counter) ∧
        ∀ id ∈ c.front, p.floor.counter c.counter ≤ p.floor.counter id) ∧
      p.step (.consume 1 (.turn {})) = some q ∧
      ∃ c after, p.consumers[1]? = some c ∧ c.front = [0] ∧ q.consumers[1]? = some after ∧
        after.handed = [(0, 7)] ∧ 0 ≤ p.floor.counter 0 := by
  have walked : ∃ p q : Pipeline ⟨1, by decide⟩ Nat, ∃ c after,
      walk step Staged (fresh ⟨1, by decide⟩ .many false fun _ => 0)
        [.hirePoller [], .hireWorker .event none .spinning [0], .produce (.gate [1]),
          .produce .enlist, .produce (.claim 0 1), .produce (.write 0 0 fun _ _ => 7),
          .produce (.publish 0), .consume 0 .look, .consume 0 (.hear .keepGoing), .consume 0 .store,
          .consume 1 (.turn {}), .consume 1 (.turn {}), .consume 1 (.turn {}), .consume 1 (.turn {}),
          .consume 1 (.turn {}), .consume 1 (.turn {}), .consume 1 .enter, .consume 1 (.turn {}),
          .consume 1 (.turn {})] = some p ∧
      p.floor.sequencer.gates = [1] ∧ p.step (.consume 1 (.turn {})) = some q ∧
      p.consumers[1]? = some c ∧ c.front = [0] ∧ c.handed = [] ∧ q.consumers[1]? = some after ∧
      after.handed = [(0, 7)] :=
    ⟨_, _, _, _, rfl, rfl, rfl, rfl, rfl, rfl, rfl, rfl⟩
  obtain ⟨p, q, c, after, walked, gates, made, there, front, before, here, handed⟩ := walked
  have reached := reaches_of_walk walked
  obtain ⟨order, hands⟩ := stages_do_not_overtake reached (Or.inl (by rw [gates]; decide))
  obtain ⟨after', new, here', appended, ready⟩ := hands there made
  cases here.symm.trans here'
  rw [handed, before, List.nil_append] at appended
  refine ⟨p, q, reached, gates, order, made, c, after, there, front, here, handed, ?_⟩
  -- the poller in front has stored what the worker is handed
  have stored := (ready (0, 7) (by rw [← appended]; exact List.mem_singleton_self _)).2.2 0
  exact stored (by rw [front]; exact List.mem_singleton_self 0)

end Pipeline

end EventRing
