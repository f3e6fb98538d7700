import EventRing.Proofs.Staging
import EventRing.Proofs.Faults
/-!
# EventRing.Proofs.Registering

Consumers whose counter is let hold producers back while they are at work.  A gate is put at the cursor
when it comes in.  For a consumer that has nothing in hand this is a move forward; one that is in the
middle of a poll or of a batch still stores where it comes to, and that may be behind the cursor.

So its progress stays monotone exactly as far as this does not happen: it never decreases, and no run of
a worker breaks off for it, as long as nothing in hand is behind the cursor at the moment of a
registration (`Clear`, `Placed`).  A consumer that is registered otherwise comes, by moves of its own, to
store a position behind the cursor, or its run breaks off because it was about to (`FallsBack`).
-/

namespace EventRing

open Processor

variable {g : Geometry} {ε : Type}

/-! ## The cursor -/

namespace Production

variable {p q : Production g ε} {act : Act ε} {v : Int}

/-- The positions up to the cursor. -/
def Span (p : Production g ε) (v : Int) : Prop := -1 ≤ v ∧ v ≤ p.sequencer.cursor

theorem lower_span : Lower p.Span where
  ge span := span.1
  down span start below := ⟨start, Int.le_trans below span.2⟩

theorem cursor_le_claimed (sound : p.Sound) : p.sequencer.cursor ≤ p.claimed := by
  cases kind : p.kind with
  | one => exact (complete_cursor sound kind).le_claimed sound
  | many => exact Int.le_of_eq (cursor_of_many kind)

theorem span_start (sound : p.Sound) : p.Span (-1) := by
  refine ⟨Int.le_refl _, ?_⟩
  cases kind : p.kind with
  | one => exact (complete_cursor sound kind).1
  | many =>
      rw [cursor_of_many kind]
      exact sound.start

/-- The cursor never moves back. -/
theorem cursor_le_of_change (sound : p.Sound) (h : Change p act q) :
    p.sequencer.cursor ≤ q.sequencer.cursor := by
  cases kind : p.kind with
  | many =>
      rw [cursor_of_many kind, cursor_of_many ((kind_of_change h).trans kind)]
      exact claimed_le_of_change sound h
  | one =>
      obtain ⟨c, ledger⟩ := kind_eq_one_iff.mp kind
      have below : p.sequencer.cursor ≤ c := by
        rw [← Sequencer.claimed_solo ledger]
        exact cursor_le_claimed sound
      cases h with
      | lent _ sequencer => exact Int.le_of_eq (congrArg Sequencer.cursor sequencer).symm
      | returned _ sequencer => exact Int.le_of_eq (congrArg Sequencer.cursor sequencer).symm
      | claimed _ _ taken =>
          rcases (taken.moved.solo c ledger).2 with same | followed
          · exact Int.le_of_eq same.symm
          · exact Int.le_trans below (Int.le_of_eq followed.symm)
      | parked _ parked => exact Int.le_trans below (Int.le_of_eq (parked.solo c ledger).2.symm)
      | declined => exact cursor_le_claimed sound
      | resumed _ settled => exact Int.le_of_eq settled.cursor.symm
      | published holds shown =>
          -- the claim that is published begins right after the cursor
          have first := ((sound.alone kind).opened holds).1
          have upright := (sound.split.span (takes_of_holds holds)).2.1
          refine Int.le_trans ?_ (Int.le_of_eq (shown.solo c ledger).2.symm)
          omega
      | _ => exact Int.le_refl _

end Production
/-! ## Consumers and the cursor -/

namespace Pipeline

open Production (Span lower_span span_start)

variable {p q : Pipeline g ε} {act : Act ε} {c : Consumer g ε}

/-- Whatever is in front of a consumer lies up to the cursor. -/
theorem span_of_behind {front : List CounterId} (sound : p.floor.Sound)
    (counters : ∀ id ∈ front, p.floor.Span (p.floor.counter id)) :
    p.floor.Span (p.floor.sequencer.counters.behind front p.floor.sequencer.cursor) := by
  by_cases none : front = []
  · rw [none, Counters.behind_nil]
    exact ⟨(span_start sound).2, Int.le_refl _⟩
  · obtain ⟨id, listed⟩ := List.exists_mem_of_ne_nil front none
    refine ⟨Counters.le_behind none (by decide) fun id inFront => (counters id inFront).1, ?_⟩
    exact Int.le_trans (Counters.behind_le_value listed) (counters id listed).2

/-- Consumers see nothing beyond the cursor. -/
theorem sees_span (wired : p.Wired) (sound : p.floor.Sound)
    (counters : ∀ c ∈ p.consumers, p.floor.Span (p.floor.counter c.counter))
    (listed : c ∈ p.consumers) :
    c.Sees p.floor.Span p.floor.sequencer.cursor p.floor.sequencer := by
  have behind : p.floor.Span
      (p.floor.sequencer.counters.behind c.front p.floor.sequencer.cursor) := by
    refine span_of_behind sound fun id inFront => ?_
    obtain ⟨d, there, rfl⟩ := wired.owned c listed id inFront
    exact counters d there
  refine ⟨counters c listed, ?_, ?_, ?_⟩
  · intro next v before scanned enough
    have low := before.1
    exact ⟨by omega, Int.le_trans (le_of_scanned scanned enough) behind.2⟩
  · intro w role
    have front := (wired.suits listed role).1
    have found : p.floor.Span (w.barrier.value p.floor.sequencer) := by
      unfold Barrier.value
      rw [front]
      exact behind
    unfold Barrier.Finds
    split
    · exact found.2
    · exact found
  · intro w role next a v before found cut enough
    have low := before.1
    unfold Barrier.Finds at found
    unfold Barrier.highestPublished at cut
    split at found
    · rename_i scans
      rw [if_pos scans] at cut
      exact ⟨by omega, Int.le_trans (le_of_scanned cut enough) found⟩
    · rename_i scans
      rw [if_neg scans] at cut
      cases cut
      exact found

end Pipeline

/-! ## What is in hand -/

instance (counter : Int) (phase : Phase) : Decidable (phase.Within (counter ≤ ·)) := by
  unfold Phase.Within
  split <;> infer_instance

instance (counter : Int) (stage : Polled) : Decidable (stage.Within (counter ≤ ·)) := by
  unfold Polled.Within
  split <;> infer_instance

instance (counter : Int) (c : Consumer g ε) : Decidable (c.Ahead counter) := by
  unfold Consumer.Ahead Worker.Carries
  split <;> infer_instance

/-! ## Workers that do not break off -/

section Workers

variable {w : Worker g} {s : Sequencer g} {counter : Int} {around : Surroundings} {move : Move}
  {done : Done (Worker g)}

/-- A worker breaks off only if its arithmetic leaves the 64-bit range. -/
def Worker.Quiet (w : Worker g) : Prop := ∀ fault, w.phase = .faulted fault → fault = .overflow

/-- A worker that has nothing in hand behind its counter does not find it beyond what it would store. -/
theorem Worker.quiet_of_turned (limit : 1 ≤ w.plan.limit) (ahead : w.Carries (counter ≤ ·))
    (h : w.Turned s counter around done) : done.after.Quiet := by
  have goesOn {request : Request} {resume : request.Answer → Phase}
      (turn : w.plan.turn w.phase = .ask request resume) (answer : request.Answer)
      (told : ∀ next last, w.phase = .verifying next last → request.Tells (· ≤ last) answer)
      (fault : Fault) (broken : resume answer = .faulted fault) : fault = .overflow := by
    have origin := Phase.origin_of_turn limit turn answer
    rw [broken] at origin
    rcases origin with ⟨overflow, -⟩ | ⟨next, last, was, verifying, -, beyond⟩
    · exact overflow
    · exact absurd (told next last verifying) beyond
  cases h with
  | awaited turn =>
      refine goesOn turn _ fun next last verifying => ?_
      rw [Phase.await_cases turn] at verifying
      cases verifying
  | batch turn => exact goesOn turn _ fun _ _ _ => trivial
  | event turn => exact goesOn turn _ fun _ _ _ => trivial
  | released turn => exact goesOn turn _ fun _ _ _ => trivial
  | position turn =>
      refine goesOn turn _ fun next last verifying => ?_
      have known : w.phase.Within (counter ≤ ·) := ahead
      rw [verifying] at known
      exact known.2
  | @free request _ _ turn free answer =>
      refine goesOn turn answer fun _ _ _ => ?_
      cases request <;> trivial

theorem Worker.quiet_of_change (limit : 1 ≤ w.plan.limit) (ahead : w.Carries (counter ≤ ·))
    (quiet : w.Quiet) (h : w.Change s counter move done) : done.after.Quiet := by
  cases h with
  | turned turned => exact quiet_of_turned limit ahead turned
  | again => exact nofun
  | _ => exact quiet

/-! ### Runs of events in hand -/

/-- A worker has read no more of a run than there is, and nothing of what it has not in hand. -/
def Worker.Counted (w : Worker g) : Prop :=
  match w.phase with
  | .handing first last => ∀ cut, lastOfRun g first last = .ok cut →
    w.read ≤ Sequencer.runLength first cut
  | _ => w.read = 0

theorem Worker.counted_of_none (none : w.read = 0) : w.Counted := by
  unfold Worker.Counted
  split
  · intro cut _
    rw [none]
    exact Nat.zero_le _
  · exact none

theorem Worker.Counted.idle {request : Request} {resume : request.Answer → Phase}
    (counted : w.Counted) (turn : w.plan.turn w.phase = .ask request resume)
    (other : ∀ first cut, request ≠ .batch first cut) : w.read = 0 := by
  unfold Worker.Counted at counted
  split at counted
  · rename_i handing
    rw [handing] at turn
    simp only [Plan.turn] at turn
    split at turn <;> cases turn
    exact absurd rfl (other _ _)
  · exact counted

theorem Worker.counted_of_turned (counted : w.Counted) (h : w.Turned s counter around done) :
    done.after.Counted := by
  cases h with
  | awaited turn => exact counted_of_none (counted.idle turn nofun)
  | batch => exact counted_of_none rfl
  | event turn => exact counted_of_none (counted.idle turn nofun)
  | released turn => exact counted_of_none (counted.idle turn nofun)
  | position turn => exact counted_of_none (counted.idle turn nofun)
  | free turn free =>
      refine counted_of_none (counted.idle turn ?_)
      rintro first cut rfl
      exact free

theorem Worker.counted_of_change (counted : w.Counted) (h : w.Change s counter move done) :
    done.after.Counted := by
  cases h with
  | turned turned => exact counted_of_turned counted turned
  | @readOn first cut resume turn more =>
      obtain ⟨last, handing, run⟩ := Phase.batch_cases turn
      unfold Worker.Counted
      rw [handing]
      intro found again
      rw [run] at again
      cases again
      exact more
  | again ended =>
      refine counted_of_none ?_
      unfold Worker.Counted at counted
      rwa [ended] at counted
  | _ => exact counted

end Workers

/-! ## The consumer that is registered -/

/-- Nothing that a consumer has in hand is behind `counter`, and it does not break off for that. -/
structure Consumer.Placed (counter : Int) (c : Consumer g ε) : Prop where
  ahead : c.Ahead counter
  quiet : ∀ w, c.role = .worker w → w.Quiet
  counted : ∀ w, c.role = .worker w → w.Counted

/-- What a worker is after a step comes from a change of what it was. -/
theorem Consumer.worked_of_step {c after : Consumer g ε} {ring : Ring g ε} {move : Move}
    {stores : Option Int} {w : Worker g} (h : c.step ring move = some (after, stores))
    (role : after.role = .worker w) : ∃ (v : Worker g) (done : Done (Worker g)),
      c.role = .worker v ∧ done.after = w ∧
      v.Change ring.sequencer (ring.sequencer.counters.value c.counter) move done := by
  obtain ⟨counter, kind, handed⟩ := c
  cases kind with
  | poller front stage =>
      obtain ⟨done, -, same⟩ := Option.map_eq_some_iff.mp h
      cases same
      cases role
  | worker v =>
      obtain ⟨done, worked, same⟩ := Option.map_eq_some_iff.mp h
      cases same
      cases role
      exact ⟨v, done, rfl, rfl, Worker.change_of_step worked⟩

theorem Consumer.placed_of_step {c after : Consumer g ε} {ring : Ring g ε} {move : Move}
    {stores : Option Int} {ok : Int → Prop} {top : Int} (within : c.Within ok top)
    (placed : c.Placed (ring.sequencer.counters.value c.counter)) (late : move ≠ .early)
    (h : c.step ring move = some (after, stores)) :
    ring.sequencer.counters.value c.counter ≤
        stores.getD (ring.sequencer.counters.value c.counter) ∧
      after.Placed (stores.getD (ring.sequencer.counters.value c.counter)) := by
  obtain ⟨forward, ahead⟩ := ahead_of_step within placed.ahead late h
  refine ⟨forward, ahead, fun w role => ?_, fun w role => ?_⟩
  · obtain ⟨v, done, before, rfl, change⟩ := worked_of_step h role
    have known := placed.ahead
    unfold Consumer.Within at within
    unfold Consumer.Ahead at known
    rw [before] at within known
    exact Worker.quiet_of_change within.limit known (placed.quiet v before) change
  · obtain ⟨v, done, before, rfl, change⟩ := worked_of_step h role
    exact Worker.counted_of_change (placed.counted v before) change

/-! ## The condition -/

namespace Pipeline

open Production (Span lower_span span_start cursor_le_of_change)

variable {p q : Pipeline g ε} {act : Act ε} {j : Nat} {c after : Consumer g ε}

/-- Nobody else moves the counters of consumers, and the handler of one of them does not store progress
early. -/
def Undisturbed (j : Nat) (p : Pipeline g ε) : Act ε → Prop
  | .produce (.move id _) => ¬ p.Owned id
  | .consume i move => i = j → move ≠ .early
  | _ => True

/-- Moreover, whenever a consumer is let hold producers back, it has nothing in hand behind the cursor. -/
def Clear (j : Nat) (p : Pipeline g ε) (act : Act ε) : Prop :=
  p.Undisturbed j act ∧ match act with
    | .produce (.gate ids) => ∀ c ∈ p.consumers[j]?, c.counter ∈ ids →
      c.Ahead p.floor.sequencer.cursor
    | _ => True

instance (j : Nat) (p : Pipeline g ε) (act : Act ε) : Decidable (p.Undisturbed j act) := by
  unfold Undisturbed
  split <;> infer_instance

instance (j : Nat) (p : Pipeline g ε) (act : Act ε) : Decidable (p.Clear j act) := by
  unfold Clear
  refine @instDecidableAnd _ _ _ ?_
  split <;> infer_instance

/-- How things stand for a consumer: its counter is up to the cursor, like everybody's, and it has
nothing in hand behind it. -/
structure Held (j : Nat) (p : Pipeline g ε) : Prop where
  sound : p.floor.Sound
  wired : p.Wired
  everywhere : p.Everywhere p.floor.Span p.floor.sequencer.cursor
  placed : ∀ c, p.consumers[j]? = some c → c.Placed (p.floor.counter c.counter)

theorem held_fresh (g : Geometry) (kind : Producers) (parks : Bool) (factory : Nat → ε) (j : Nat) :
    (fresh g kind parks factory).Held j where
  sound := Production.sound_fresh g kind parks factory
  wired := wired_fresh g kind parks factory
  everywhere := ⟨fun _ none => (nomatch none), fun _ none => (nomatch none)⟩
  placed _ none := nomatch none

theorem everywhere_span_of_change (held : p.Held j) (undisturbed : p.Undisturbed j act)
    (h : Change p act q) : q.Everywhere q.floor.Span q.floor.sequencer.cursor := by
  obtain ⟨a, change⟩ := floor_of_change h
  have onwards := cursor_le_of_change held.sound change
  have later {v} (span : p.floor.Span v) : q.floor.Span v := ⟨span.1, Int.le_trans span.2 onwards⟩
  have start : q.floor.Span (-1) := span_start (Production.sound_of_change held.sound change)
  have sees (c) (listed : c ∈ p.consumers) :=
    sees_span held.wired held.sound held.everywhere.counters listed
  refine everywhere_of_change held.everywhere held.wired lower_span.convex sees later onwards start
    ?_ ?_ h
  · rintro ids rfl c listed gated
    exact ⟨(span_start held.sound).2, onwards⟩
  · rintro id v rfl
    exact undisturbed

/-- A consumer that comes in has nothing in hand. -/
theorem Entry.placed {s : Sequencer g} {front : List CounterId} {role : Role g}
    (entry : Entry s front role) (counter : CounterId) (position : Int) :
    Consumer.Placed (ε := ε) position { counter := counter, role := role } := by
  cases entry with
  | poller => exact ⟨trivial, fun _ other => (nomatch other), fun _ other => (nomatch other)⟩
  | worker =>
      refine ⟨trivial, fun w same => ?_, fun w same => ?_⟩
      · cases same
        exact fun _ broken => (nomatch broken)
      · cases same
        exact Worker.counted_of_none rfl

/-- What becomes of a consumer: it keeps its counter, does not move back, and stands as before. -/
structure Onwards (j : Nat) (id : CounterId) (p q : Pipeline g ε) : Prop where
  stays : ∃ c, q.consumers[j]? = some c ∧ c.counter = id ∧ c.Placed (q.floor.counter id)
  forward : p.floor.counter id ≤ q.floor.counter id

theorem onwards_of_step {i : Nat} {move : Move} {stores : Option Int} {floor : Production g ε}
    {d : Consumer g ε} (held : p.Held j) (late : i = j → move ≠ .early)
    (moved : p.consumers[i]? = some d) (stepped : d.step p.floor.ring move = some (after, stores))
    (stored : p.Stored d stores floor) (there : p.consumers[j]? = some c) :
    Onwards j c.counter p { floor := floor, consumers := p.consumers.set i after } := by
  by_cases own : i = j
  · subst own
    cases there.symm.trans moved
    obtain ⟨forward, placed⟩ := Consumer.placed_of_step
      (held.everywhere.within c (List.mem_of_getElem? there)) (held.placed c there) (late rfl) stepped
    rw [← stored.own] at forward placed
    obtain ⟨inside, -⟩ := List.getElem?_eq_some_iff.mp there
    exact ⟨⟨after, List.getElem?_set_self inside, (Consumer.stays_of_step stepped).counter, placed⟩,
      forward⟩
  · have same := stored.others (held.wired.counter_ne moved there (Ne.symm own))
    refine ⟨⟨c, ?_, rfl, ?_⟩, Int.le_of_eq same.symm⟩
    · rw [List.getElem?_set_ne own]
      exact there
    · show c.Placed (floor.counter c.counter)
      rw [same]
      exact held.placed c there

theorem onwards_of_change (held : p.Held j) (clear : p.Clear j act) (h : Change p act q)
    (there : p.consumers[j]? = some c) : Onwards j c.counter p q := by
  have here := List.mem_of_getElem? there
  have placed := held.placed c there
  cases h with
  | @produced a floor change =>
      rcases Production.counter_of_change change (held.wired.made c here) with
        same | ⟨ids, rfl, inside, same⟩ | ⟨value, rfl, -⟩
      · refine ⟨⟨c, there, rfl, ?_⟩, Int.le_of_eq same.symm⟩
        show c.Placed (floor.counter c.counter)
        rw [same]
        exact placed
      · -- it is put at the cursor, and has nothing in hand behind that
        have ahead := clear.2 c there inside
        refine ⟨⟨c, there, rfl, ?_⟩, ?_⟩
        · show c.Placed (floor.counter c.counter)
          rw [same]
          exact ⟨ahead, placed.quiet, placed.counted⟩
        · show _ ≤ floor.counter c.counter
          rw [same]
          exact (held.everywhere.counters c here).2
      · exact absurd ⟨c, here, rfl⟩ clear.1
  | hired asks owned entry =>
      have same := Counters.value_make Counter.initial (held.wired.made c here)
      refine ⟨⟨c, ?_, rfl, ?_⟩, Int.le_of_eq same.symm⟩
      · obtain ⟨inside, -⟩ := List.getElem?_eq_some_iff.mp there
        show (p.consumers ++ _)[j]? = _
        rw [List.getElem?_append_left inside]
        exact there
      · show c.Placed ((p.floor.sequencer.counters.make _).2.value c.counter)
        rw [same]
        exact placed
  | consumed moved stepped => exact onwards_of_step held clear.1 moved stepped stored_none there
  | stored moved stepped made =>
      exact onwards_of_step held clear.1 moved stepped (stored_some made) there

theorem held_of_change (held : p.Held j) (clear : p.Clear j act) (h : Change p act q) : q.Held j := by
  obtain ⟨a, change⟩ := floor_of_change h
  refine ⟨Production.sound_of_change held.sound change, wired_of_change held.wired h,
    everywhere_span_of_change held clear.1 h, fun d there => ?_⟩
  cases before : p.consumers[j]? with
  | some c =>
      obtain ⟨⟨e, stays, same, placed⟩, -⟩ := onwards_of_change held clear h before
      cases stays.symm.trans there
      rw [same]
      exact placed
  | none =>
      -- it has just come in
      cases h with
      | produced => cases before.symm.trans there
      | @hired _ front role asks owned entry =>
          have beyond := List.getElem?_eq_none_iff.mp before
          change (p.consumers ++ _)[j]? = _ at there
          rw [List.getElem?_append_right beyond] at there
          rw [List.mem_singleton.mp (List.mem_of_getElem? there)]
          exact entry.placed _ _
      | consumed moved =>
          obtain ⟨inside, -⟩ := List.getElem?_eq_some_iff.mp there
          rw [List.length_set] at inside
          exact absurd inside (Nat.not_lt.mpr (List.getElem?_eq_none_iff.mp before))
      | stored moved =>
          obtain ⟨inside, -⟩ := List.getElem?_eq_some_iff.mp there
          rw [List.length_set] at inside
          exact absurd inside (Nat.not_lt.mpr (List.getElem?_eq_none_iff.mp before))

end Pipeline

/-! ## Falling back -/

/-- By moves of its own, a consumer comes to store a position behind its counter, or its run breaks off
because it was about to. -/
inductive Consumer.Falls (ring : Ring g ε) : Consumer g ε → Prop where
  | stores {c after : Consumer g ε} {v : Int} (move : Move)
      (stepped : c.step ring move = some (after, some v)) (late : move ≠ .early)
      (behind : v < ring.sequencer.counters.value c.counter) : Falls ring c
  | breaks {c : Consumer g ε} {w : Worker g} {position last : Int} (role : c.role = .worker w)
      (broken : w.phase = .faulted (.backwards position last)) : Falls ring c
  | goesOn {c after : Consumer g ε} (move : Move) (stepped : c.step ring move = some (after, none))
      (late : move ≠ .early) (onwards : Falls ring after) : Falls ring c

/-- The phases from where a processor hands over what it found until it has stored where it came to. -/
def Processor.Phase.Engaged : Phase → Prop
  | .delivering .. | .eventFailed .. | .skipping _ | .warning .. | .stopping .. | .handing ..
  | .batchFailed .. | .verifying .. | .releasing .. => True
  | _ => False

/-- A worker that is about to come to its barrier, and finds something there. -/
structure Worker.Finds (s : Sequencer g) (next : Int) (w : Worker g) : Prop where
  waits : w.phase = .awaiting next
  idle : w.wait = none
  armed : w.barrier.cancelled = false
  found : next ≤ w.barrier.value s ∧ ∃ v,
    w.barrier.highestPublished s next (w.barrier.value s) = .ok v ∧ next ≤ v

namespace Consumer

/-- A consumer that has something to hand over or to store, come what may. -/
def Engaged (s : Sequencer g) (c : Consumer g ε) : Prop :=
  match c.role with
  | .poller _ .resting => False
  | .poller .. => True
  | .worker w => w.phase.Engaged ∨ ∃ next, w.Finds s next

variable {ring : Ring g ε} {id : CounterId} {handed : List (Int × ε)} {next first cut last : Int}
  {failure : Failure}

section Pollers

variable {front : List CounterId} {accepted : Int} {polling : Polling}

theorem falls_storing (behind : accepted < ring.sequencer.counters.value id) :
    Falls ring ⟨id, .poller front (.storing accepted), handed⟩ :=
  .stores .store rfl (by simp) behind

/-- A poll whose handler fails stores the last event that was accepted. -/
theorem falls_polling {left : Nat}
    (behind : polling.accepted < ring.sequencer.counters.value id) :
    Falls ring ⟨id, .poller front (.handing polling left), handed⟩ := by
  cases left with
  | zero => exact .stores .store rfl (by simp) behind
  | succ left => exact .goesOn (.hear (.failed default)) rfl (by simp) (falls_storing behind)

end Pollers

section Workers

variable {w v : Worker g}

theorem falls_of_turn (around : Surroundings) {hands : List Int}
    (turn : w.turn ring.sequencer (ring.sequencer.counters.value id) around =
      some { after := v, hands := hands })
    (onwards : ∀ more, Falls ring ⟨id, .worker v, handed ++ more⟩) :
    Falls ring ⟨id, .worker w, handed⟩ :=
  .goesOn (.turn around) (congrArg (Option.map _) turn) (by simp) (onwards _)

theorem falls_of_release {stored : Int} {resume : Unit → Phase}
    (turn : w.plan.turn w.phase = .ask (.release stored) resume)
    (behind : stored < ring.sequencer.counters.value id) :
    Falls ring ⟨id, .worker w, handed⟩ := by
  have turned : w.turn ring.sequencer (ring.sequencer.counters.value id) {} =
      some { after := { w with phase := resume () }, stores := some stored } := by
    simp only [Worker.turn, turn]
  exact .stores (.turn {}) (congrArg (Option.map _) turned) (by simp) behind

/-- A failure that stops a run has it store the position before what failed. -/
theorem falls_stopping (phase : w.phase = .stopping next failure) (fits : Word.Fits (next - 1))
    (behind : next - 1 < ring.sequencer.counters.value id) :
    Falls ring ⟨id, .worker w, handed⟩ := by
  have turn : w.plan.turn w.phase =
      .ask (.release (next - 1)) fun _ => .shuttingDown (some failure) := by
    rw [phase]
    simp only [Plan.turn, Word.checked_of_fits fits]
  exact falls_of_release turn behind

/-- The policy may let a failure of an event stop the run; a task leaves a record of that. -/
theorem falls_eventFailed (phase : w.phase = .eventFailed next last failure)
    (fits : Word.Fits (next - 1)) (behind : next - 1 < ring.sequencer.counters.value id) :
    Falls ring ⟨id, .worker w, handed⟩ := by
  obtain ⟨after, turn, goesOn⟩ : ∃ after, w.turn ring.sequencer (ring.sequencer.counters.value id)
      { failure := some failure } = some { after := { w with phase := after } } ∧
        (after = .warning next failure ∨ after = .stopping next failure) := by
    rw [Worker.turn, phase]
    refine ⟨_, rfl, ?_⟩
    cases w.plan.kind with
    | task => exact Or.inl rfl
    | event | batch => exact Or.inr rfl
  refine falls_of_turn _ turn fun _ => ?_
  rcases goesOn with rfl | rfl
  · exact falls_of_turn {} rfl fun _ => falls_stopping rfl fits behind
  · exact falls_stopping rfl fits behind

/-- The handler may fail at an event. -/
theorem falls_delivering (phase : w.phase = .delivering next last) (fits : Word.Fits (next - 1))
    (behind : next - 1 < ring.sequencer.counters.value id) :
    Falls ring ⟨id, .worker w, handed⟩ := by
  have turn : w.turn ring.sequencer (ring.sequencer.counters.value id) { failure := some default } =
      some { after := { w with phase := .eventFailed next last default }, hands := [next] } := by
    simp only [Worker.turn, phase, Plan.turn]
  exact falls_of_turn _ turn fun _ => falls_eventFailed rfl fits behind

/-- The policy may let a failure of a run of events stop the run of the worker. -/
theorem falls_batchFailed (phase : w.phase = .batchFailed first cut last failure)
    (fits : Word.Fits (first - 1)) (behind : first - 1 < ring.sequencer.counters.value id) :
    Falls ring ⟨id, .worker w, handed⟩ := by
  have turn : w.turn ring.sequencer (ring.sequencer.counters.value id) { failure := some failure } =
      some { after := { w with phase := .stopping first failure } } := by
    simp only [Worker.turn, phase, Plan.turn]
  exact falls_of_turn _ turn fun _ => falls_stopping rfl fits behind

/-- The handler may fail at a run of events, once it has read it. -/
theorem falls_handing {left : Nat} (phase : w.phase = .handing first last)
    (run : lastOfRun g first last = .ok cut)
    (count : w.read + left = Sequencer.runLength first cut) (fits : Word.Fits (first - 1))
    (behind : first - 1 < ring.sequencer.counters.value id) :
    Falls ring ⟨id, .worker w, handed⟩ := by
  induction left generalizing w handed with
  | zero =>
      have turn : w.turn ring.sequencer (ring.sequencer.counters.value id)
          { failure := some default } = some
            { after := { w with phase := .batchFailed first cut last default, read := 0 } } := by
        simp only [Worker.turn, phase, Plan.turn, run]
        exact if_pos count
      exact falls_of_turn _ turn fun _ => falls_batchFailed rfl fits behind
  | succ left ih =>
      have read : w.readOn =
          some { after := { w with read := w.read + 1 }, hands := [first + w.read] } := by
        simp only [Worker.readOn, phase, Plan.turn, run]
        exact if_pos (by omega)
      refine .goesOn .readOn (congrArg (Option.map _) read) (by simp) (ih phase ?_)
      show w.read + 1 + left = _
      omega

/-- A worker that checks where it is breaks off. -/
theorem falls_verifying (phase : w.phase = .verifying next last)
    (behind : last < ring.sequencer.counters.value id) :
    Falls ring ⟨id, .worker w, handed⟩ := by
  have turn : w.turn ring.sequencer (ring.sequencer.counters.value id) {} =
      some { after := { w with
        phase := .faulted (.backwards (ring.sequencer.counters.value id) last) } } := by
    simp only [Worker.turn, phase, Plan.turn]
    rw [if_pos behind]
  exact falls_of_turn _ turn fun _ => .breaks rfl rfl

theorem falls_opening {available : Int} (phase : w.phase = .opening next last available)
    (low : 0 ≤ next) (upright : next ≤ last) (inside : last ≤ available)
    (below : available < Word.greatest) (behind : next - 1 < ring.sequencer.counters.value id) :
    Falls ring ⟨id, .worker w, handed⟩ := by
  have handing : depth next last = .ok (last - next + 1) :=
    depth_of_fits low upright (Int.lt_of_le_of_lt inside below)
  have found : depth next available = .ok (available - next + 1) :=
    depth_of_fits low (Int.le_trans upright inside) below
  have turn : w.turn ring.sequencer (ring.sequencer.counters.value id) {} =
      some { after := { w with phase := .delivering next last } } := by
    simp only [Worker.turn, phase, Plan.turn, handing, found]
  exact falls_of_turn _ turn fun _ =>
    falls_delivering rfl (fits_of_nonneg (by omega) (by omega)) behind

/-- A worker that finds something at its barrier takes it in hand, and then its handler may fail. -/
theorem falls_of_found {v : Int} (limit : 1 ≤ w.plan.limit) (counted : w.Counted)
    (finds : w.Finds ring.sequencer next) (before : Positions (next - 1)) (below : Positions v)
    (enough : next ≤ v)
    (cut : w.barrier.highestPublished ring.sequencer next (w.barrier.value ring.sequencer) = .ok v)
    (behind : next - 1 < ring.sequencer.counters.value id) :
    Falls ring ⟨id, .worker w, handed⟩ := by
  have fits : Word.Fits (next - 1) := fits_of_nonneg before.1 (Int.le_of_lt before.2)
  have low := before.1
  have unread : w.read = 0 := by
    unfold Worker.Counted at counted
    rwa [finds.waits] at counted
  -- it comes to the barrier, and takes what is cut
  have entered : w.enter ring.sequencer = some
      { w with wait := some (.inr (.available (w.barrier.value ring.sequencer))) } := by
    simp only [Worker.enter, finds.waits, Plan.turn, finds.idle,
      Barrier.enter_of_le finds.armed finds.found.1]
  refine .goesOn .enter (congrArg (Option.map _) (congrArg (Option.map _) entered)) (by simp) ?_
  have turn : Worker.turn
      { w with wait := some (.inr (.available (w.barrier.value ring.sequencer))) } ring.sequencer
      (ring.sequencer.counters.value id) {} =
      some { after := { w with phase := Phase.admitted w.plan next v, wait := none } } := by
    simp only [Worker.turn, finds.waits, Plan.turn, Barrier.published, cut]
    rfl
  refine falls_of_turn _ turn fun more => ?_
  have sound := Phase.admitted_ne_faulted limit (by omega : 0 ≤ next) below.2 .overflow
  revert sound
  apply Phase.admitted_cases (P := fun phase => phase ≠ .faulted .overflow →
    Falls ring ⟨id, .worker { w with phase := phase, wait := none }, _⟩) limit
  · exact fun fine => absurd rfl fine
  · exact fun short => absurd enough (Int.not_le.mpr short)
  · intro last _ above inside _
    obtain ⟨run, told⟩ := lastOfRun_of_fits (g := g) (by omega) above
      (Int.lt_of_le_of_lt inside below.2)
    have count : w.read + Sequencer.runLength next run = Sequencer.runLength next run := by
      rw [unread, Nat.zero_add]
    exact falls_handing rfl told count fits behind
  · intro last _ above inside _
    exact falls_opening rfl (by omega) above inside below.2 behind

/-- A worker that is engaged and has something in hand behind its counter falls back. -/
theorem falls_of_phase (known : w.phase.Within Positions) (counted : w.Counted)
    (engaged : w.phase.Engaged) (behind : ¬ w.Carries (ring.sequencer.counters.value id ≤ ·)) :
    Falls ring ⟨id, .worker w, handed⟩ := by
  have outside : ¬ w.phase.Within (ring.sequencer.counters.value id ≤ ·) := behind
  unfold Worker.Counted at counted
  cases phase : w.phase with
  | delivering next last =>
      rw [phase] at known outside
      obtain ⟨⟨low, high⟩, upright, -⟩ := known
      have less : next - 1 < ring.sequencer.counters.value id := by
        refine Int.not_le.mp fun above => outside ⟨above, upright, ?_⟩
        omega
      exact falls_delivering phase (fits_of_nonneg low (Int.le_of_lt high)) less
  | eventFailed next last failure =>
      rw [phase] at known outside
      obtain ⟨⟨low, high⟩, upright, -⟩ := known
      refine falls_eventFailed phase (fits_of_nonneg low (Int.le_of_lt high)) ?_
      refine Int.not_le.mp fun above => outside ⟨above, upright, ?_⟩
      omega
  | handing first last =>
      rw [phase] at known outside counted
      obtain ⟨⟨low, high⟩, upright, -, below⟩ := known
      obtain ⟨cut, run⟩ := lastOfRun_of_fits (g := g) (by omega) upright below
      refine falls_handing phase run (Nat.add_sub_cancel' (counted cut run))
        (fits_of_nonneg low (Int.le_of_lt high)) ?_
      refine Int.not_le.mp fun above => outside ⟨above, upright, ?_⟩
      omega
  | batchFailed first cut last failure =>
      rw [phase] at known outside
      obtain ⟨⟨low, high⟩, above, inside, -⟩ := known
      refine falls_batchFailed phase (fits_of_nonneg low (Int.le_of_lt high)) ?_
      refine Int.not_le.mp fun before => outside ⟨before, above, inside, ?_⟩
      omega
  | warning next failure =>
      rw [phase] at known outside
      have turn : w.turn ring.sequencer (ring.sequencer.counters.value id) {} =
          some { after := { w with phase := .stopping next failure } } := by
        simp only [Worker.turn, phase, Plan.turn]
      exact falls_of_turn _ turn fun _ =>
        falls_stopping rfl (fits_of_nonneg known.1 (Int.le_of_lt known.2)) (Int.not_le.mp outside)
  | stopping next failure =>
      rw [phase] at known outside
      exact falls_stopping phase (fits_of_nonneg known.1 (Int.le_of_lt known.2))
        (Int.not_le.mp outside)
  | verifying next last =>
      rw [phase] at known outside
      exact falls_verifying phase (Int.not_le.mp fun above => outside ⟨known.1, above⟩)
  | skipping next =>
      rw [phase] at outside
      exact falls_of_release (by rw [phase]; rfl) (Int.not_le.mp outside)
  | releasing next last =>
      rw [phase] at known outside
      exact falls_of_release (by rw [phase]; rfl)
        (Int.not_le.mp fun above => outside ⟨known.1, above⟩)
  | _ =>
      rw [phase] at engaged
      exact engaged.elim

end Workers

/-- A consumer that is engaged and has something in hand behind its counter falls back. -/
theorem falls_of_engaged {c : Consumer g ε} {ok : Int → Prop} {top : Int} (within : c.Within ok top)
    (sees : c.Sees ok top ring.sequencer) (below : ∀ {v}, ok v → Positions v)
    (counted : ∀ w, c.role = .worker w → w.Counted) (engaged : c.Engaged ring.sequencer)
    (behind : ¬ c.Ahead (ring.sequencer.counters.value c.counter)) : c.Falls ring := by
  obtain ⟨id, role, handed⟩ := c
  cases role with
  | worker w =>
      rcases engaged with engaged | ⟨next, finds⟩
      · exact falls_of_phase (within.phase.mono below) (counted w rfl) engaged behind
      · have outside : ¬ w.phase.Within (ring.sequencer.counters.value id ≤ ·) := behind
        have before := within.phase
        rw [finds.waits] at outside before
        obtain ⟨-, v, cut, enough⟩ := finds.found
        have known := sees.cuts rfl before (sees.finds rfl) cut enough
        exact falls_of_found within.limit (counted w rfl) finds (below before) (below known) enough cut
          (Int.not_le.mp outside)
  | poller front stage =>
      cases stage with
      | resting => exact engaged.elim
      | storing accepted => exact falls_storing (Int.not_le.mp behind)
      | handing polling left =>
          obtain ⟨-, next, count, -⟩ := within
          refine falls_polling (Int.not_le.mp fun above => behind ⟨above, next, count, ?_⟩)
          exact Int.le_trans above (by omega)

end Consumer

namespace Pipeline

variable {p q : Pipeline g ε} {j : Nat} {c d after : Consumer g ε} {move : Move}

/-- Moves of one consumer only, whose handler does not store progress early. -/
def Alone (j : Nat) (_ : Pipeline g ε) : Act ε → Prop
  | .consume i move => i = j ∧ move ≠ .early
  | _ => False

/-- Left alone, a consumer comes to a position behind where it is, or its run breaks off because it was
about to store one. -/
def FallsBack (j : Nat) (id : CounterId) (p : Pipeline g ε) : Prop :=
  ∃ q, Reaches step (Alone j) p q ∧ (q.floor.counter id < p.floor.counter id ∨
    ∃ c w position last, q.consumers[j]? = some c ∧ c.role = .worker w ∧
      w.phase = .faulted (.backwards position last))

theorem step_consume_quiet (there : p.consumers[j]? = some c)
    (stepped : c.step p.floor.ring move = some (after, none)) :
    p.step (.consume j move) = some { p with consumers := p.consumers.set j after } := by
  simp only [step, there, stepped, Option.bind_eq_bind, Option.bind_some, Option.pure_def]

theorem step_consume_stores {progress : Int} (there : p.consumers[j]? = some c)
    (stepped : c.step p.floor.ring move = some (after, some progress))
    (made : p.floor.Made c.counter) :
    p.step (.consume j move) = some
      { floor := p.floor.withCounters (p.floor.sequencer.counters.set c.counter progress)
        consumers := p.consumers.set j after } := by
  simp only [step, there, stepped, Production.step_move made progress, Option.bind_eq_bind,
    Option.bind_some, Option.pure_def]

theorem fallsBack_of_falls {ring : Ring g ε} (falls : c.Falls ring) (same : p.floor.ring = ring)
    (there : p.consumers[j]? = some c) (made : p.floor.Made c.counter) :
    p.FallsBack j c.counter := by
  induction falls generalizing p with
  | stores move stepped late behind =>
      subst same
      refine ⟨_, Reaches.start.next (step_consume_stores there stepped made) ⟨rfl, late⟩, Or.inl ?_⟩
      exact Int.lt_of_le_of_lt (Int.le_of_eq (Counters.value_set_self _ made _)) behind
  | breaks role broken => exact ⟨p, Reaches.start, Or.inr ⟨_, _, _, _, there, role, broken⟩⟩
  | @goesOn c after move stepped late _ ih =>
      subst same
      have counter := (Consumer.stays_of_step stepped).counter
      obtain ⟨inside, -⟩ := List.getElem?_eq_some_iff.mp there
      rw [← counter] at made ⊢
      obtain ⟨q, reached, fallen⟩ := ih (p := { p with consumers := p.consumers.set j after }) rfl
        (List.getElem?_set_self inside) made
      exact ⟨q, (Reaches.start.next (step_consume_quiet there stepped) ⟨rfl, late⟩).trans reached,
        fallen⟩

/-! ## Progress of consumers that hold producers back -/

theorem held_of_reaches (held : p.Held j) (reached : Reaches step (Clear j) p q)
    (there : p.consumers[j]? = some c) : q.Held j ∧ Onwards j c.counter p q := by
  refine reached.invariant (motive := fun q => q.Held j ∧ Onwards j c.counter p q)
    ⟨held, ⟨c, there, rfl, held.placed c there⟩, Int.le_refl _⟩ ?_
  rintro r act r' ⟨held, ⟨d, here, same, -⟩, forward⟩ clear made
  have h := change_of_step made
  have onwards := onwards_of_change held clear h here
  rw [same] at onwards
  exact ⟨held_of_change held clear h, onwards.stays, Int.le_trans forward onwards.forward⟩

/-- As long as nothing in hand is behind the cursor whenever a consumer is let hold producers back, its
progress never decreases and its run breaks off for overflow only.  Otherwise it falls back: one that is
let hold producers back against this, and is engaged then, comes by moves of its own to a position behind
the cursor, or breaks off because it was about to store one. -/
theorem registered_progress_stays {kind : Producers} {parks : Bool} {factory : Nat → ε}
    (reached : Reaches step (Clear j) (fresh g kind parks factory) p)
    (there : p.consumers[j]? = some c) :
    (∀ {q}, Reaches step (Clear j) p q → ∃ d, q.consumers[j]? = some d ∧ d.counter = c.counter ∧
      p.floor.counter c.counter ≤ q.floor.counter c.counter ∧
      ∀ w fault, d.role = .worker w → w.plan.turn w.phase = .broken fault → fault = .overflow) ∧
    ∀ {ids}, (∀ id ∈ ids, p.floor.Made id) → c.counter ∈ ids →
      p.floor.sequencer.cursor < Word.greatest → ¬ c.Ahead p.floor.sequencer.cursor →
      ∃ q, p.step (.produce (.gate ids)) = some q ∧
        (c.Engaged q.floor.sequencer → q.FallsBack j c.counter) := by
  have held : p.Held j := reached.invariant (held_fresh g kind parks factory j)
    fun held clear made => held_of_change held clear (change_of_step made)
  refine ⟨fun onwards => ?_, fun {ids} made gated below behind => ?_⟩
  · obtain ⟨later, ⟨d, here, same, placed⟩, forward⟩ := held_of_reaches held onwards there
    refine ⟨d, here, same, forward, fun w fault role broken => ?_⟩
    have within := later.everywhere.within d (List.mem_of_getElem? here)
    unfold Consumer.Within at within
    rw [role] at within
    rcases Phase.fault_of_broken within.phase broken with faulted | overflow
    · exact placed.quiet w role fault faulted
    · exact overflow
  · have here := List.mem_of_getElem? there
    have registered := step_produce (Production.step_gate made)
    refine ⟨_, registered, fun engaged => ?_⟩
    have change := change_of_step registered
    obtain ⟨a, onFloor⟩ := floor_of_change change
    have wired := wired_of_change held.wired change
    have sound := Production.sound_of_change held.sound onFloor
    have undisturbed : p.Undisturbed j (.produce (.gate ids)) := trivial
    have all := everywhere_span_of_change held undisturbed change
    refine fallsBack_of_falls ?_ rfl there (wired.made c here)
    refine Consumer.falls_of_engaged (all.within c here) (sees_span wired sound all.counters here)
      (fun span => ⟨span.1, Int.lt_of_le_of_lt span.2 below⟩) (held.placed c there).counted engaged ?_
    -- it has been put at the cursor
    show ¬ c.Ahead ((p.floor.sequencer.counters.setAll ids p.floor.sequencer.cursor).value c.counter)
    rw [Counters.value_setAll, if_pos ⟨gated, made _ gated⟩]
    exact behind

/-- A poller on a ring of two slots that has accepted one of two events: let hold producers back when the
poll is over, it stays at the second; let hold them back at once, it falls back. -/
theorem registered_progress_stays_poller :
    ∃ p q : Pipeline ⟨1, by decide⟩ Unit,
      Reaches step (Clear 0) (fresh ⟨1, by decide⟩ .one false fun _ => ()) p ∧
      p.floor.counter 0 = -1 ∧ Reaches step (Clear 0) p q ∧ q.floor.sequencer.gates = [0] ∧
      q.floor.counter 0 = 1 ∧ p.floor.counter 0 ≤ q.floor.counter 0 ∧
      ∃ r, p.step (.produce (.gate [0])) = some r ∧ r.floor.counter 0 = 1 ∧ r.FallsBack 0 0 := by
  have walked : ∃ p q r : Pipeline ⟨1, by decide⟩ Unit, ∃ c, p.consumers[0]? = some c ∧
      walk step (Clear 0) (fresh ⟨1, by decide⟩ .one false fun _ => ())
        [.hirePoller [], .produce .enlist, .produce (.claim 0 2), .produce (.publish 0),
          .consume 0 .look, .consume 0 (.hear .keepGoing)] = some p ∧
      walk step (Clear 0) p [.consume 0 (.hear .keepGoing), .consume 0 .store,
        .produce (.gate [0])] = some q ∧
      c.counter = 0 ∧ c.role = .poller [] (.handing ⟨0, 1, 1⟩ 1) ∧ p.floor.Made 0 ∧
      p.floor.counter 0 = -1 ∧
      p.floor.sequencer.cursor = 1 ∧ q.floor.sequencer.gates = [0] ∧ q.floor.counter 0 = 1 ∧
      p.step (.produce (.gate [0])) = some r ∧ r.floor.counter 0 = 1 :=
    ⟨_, _, _, _, rfl, rfl, rfl, rfl, rfl, by decide, rfl, rfl, rfl, rfl, rfl, rfl⟩
  obtain ⟨p, q, r, c, there, toP, toQ, counter, role, made, before, cursor, gates, after, gate, put⟩ :=
    walked
  obtain ⟨stays, falls⟩ := registered_progress_stays (reaches_of_walk toP) there
  obtain ⟨-, -, -, forward, -⟩ := stays (reaches_of_walk toQ)
  rw [counter] at forward falls
  have engaged : c.Engaged r.floor.sequencer := by
    unfold Consumer.Engaged
    rw [role]
    trivial
  have behind : ¬ c.Ahead p.floor.sequencer.cursor := by
    unfold Consumer.Ahead
    rw [role, cursor]
    decide
  have all : ∀ id ∈ [0], p.floor.Made id := by
    intro id listed
    rw [List.mem_singleton.mp listed]
    exact made
  obtain ⟨r', gate', fallen⟩ := falls all (List.mem_singleton_self 0) (by rw [cursor]; decide) behind
  cases gate.symm.trans gate'
  exact ⟨p, q, reaches_of_walk toP, before, reaches_of_walk toQ, gates, after, forward, r, gate, put,
    fallen engaged⟩

/-- A poller that is let hold producers back in the middle of a poll moves back when it stops, and a
worker that hands over one event at a time breaks off. -/
theorem registering_at_work_moves_back :
    (∃ p q : Pipeline ⟨1, by decide⟩ Unit,
      Reaches step (Undisturbed 0) (fresh ⟨1, by decide⟩ .one false fun _ => ()) p ∧
      p.floor.sequencer.gates = [0] ∧ p.floor.counter 0 = 1 ∧
      p.step (.consume 0 .store) = some q ∧ q.floor.counter 0 = 0) ∧
    ∃ p : Pipeline ⟨1, by decide⟩ Unit,
      Reaches step (Undisturbed 0) (fresh ⟨1, by decide⟩ .one false fun _ => ()) p ∧
      p.floor.sequencer.gates = [0] ∧ ∃ c w, p.consumers[0]? = some c ∧ c.role = .worker w ∧
        w.plan.turn w.phase = .broken (.backwards 1 0) := by
  have polled : ∃ p q : Pipeline ⟨1, by decide⟩ Unit,
      walk step (Undisturbed 0) (fresh ⟨1, by decide⟩ .one false fun _ => ())
        [.hirePoller [], .produce .enlist, .produce (.claim 0 2), .produce (.publish 0),
          .consume 0 .look, .produce (.gate [0]), .consume 0 (.hear .stop)] = some p ∧
      p.floor.sequencer.gates = [0] ∧ p.floor.counter 0 = 1 ∧
      p.step (.consume 0 .store) = some q ∧ q.floor.counter 0 = 0 :=
    ⟨_, _, rfl, rfl, rfl, rfl, rfl⟩
  have worked : ∃ p : Pipeline ⟨1, by decide⟩ Unit,
      walk step (Undisturbed 0) (fresh ⟨1, by decide⟩ .one false fun _ => ())
        [.hireWorker .event (some 1) .spinning [], .produce .enlist, .produce (.claim 0 2),
          .produce (.publish 0), .consume 0 (.turn {}), .consume 0 (.turn {}), .consume 0 (.turn {}),
          .consume 0 (.turn {}), .consume 0 (.turn {}), .consume 0 (.turn {}), .consume 0 .enter,
          .consume 0 (.turn {}), .consume 0 (.turn {}), .produce (.gate [0]), .consume 0 (.turn {}),
          .consume 0 (.turn {})] = some p ∧
      p.floor.sequencer.gates = [0] ∧ ∃ c w, p.consumers[0]? = some c ∧ c.role = .worker w ∧
        w.plan.turn w.phase = .broken (.backwards 1 0) :=
    ⟨_, rfl, rfl, _, _, rfl, rfl, rfl⟩
  obtain ⟨p, q, toP, gates, before, stored, after⟩ := polled
  obtain ⟨r, toR, gated, broken⟩ := worked
  exact ⟨⟨p, q, reaches_of_walk toP, gates, before, stored, after⟩,
    r, reaches_of_walk toR, gated, broken⟩

end Pipeline

end EventRing
