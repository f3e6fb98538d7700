import EventRing.Proofs.Consuming
/-!
# EventRing.Proofs.Wiring

How the consumers of a ring hang together, whatever anybody does: each has a counter of its own,
stands behind counters of others, and its barrier scans for holes exactly if there are many producers
and nobody in front (`Wired`).

A position is `Complete` if everything up to it is published.  The end of a scan is complete if the
scan began at a complete position (`complete_of_scan`), as long as the laps in the slots tell the truth
(`Tells`), which they do if they have not repeated yet (`tells_of_few`); what lies in front of a
consumer is complete, once cut, if the counters in front are (`complete_of_look`, `Barrier.Suits.cuts`).

A position is `Ready` for a consumer if everything up to it is published and everybody in front of the
consumer has been there.  It stays so (`Ready.mono`), and a consumer sees only positions that are
(`sees_ready`).
-/

namespace EventRing

variable {g : Geometry} {ε : Type}

/-! ## Complete positions -/

namespace Production

open Sequencer

variable {p q : Production g ε} {act : Act ε} {i : Nat} {b : Block} {lo hi v w : Int}

/-- Everything up to a position is published. -/
def Complete (p : Production g ε) (v : Int) : Prop :=
  -1 ≤ v ∧ ∀ t, 0 ≤ t → t ≤ v → p.Published t

/-- The claimed sequences are so few that the laps in the slots tell them apart.  One producer keeps no
laps. -/
def Few (p : Production g ε) : Prop := p.kind = .many → p.claimed < 2 ^ 32 * g.size

theorem complete_start : p.Complete (-1) := ⟨Int.le_refl _, fun t low high => by omega⟩

theorem lower_complete : Lower p.Complete where
  ge complete := complete.1
  down complete start below := ⟨start, fun t low high => complete.2 t low (Int.le_trans high below)⟩

theorem Complete.mono (complete : p.Complete v) (published : ∀ {t}, p.Published t → q.Published t) :
    q.Complete v :=
  ⟨complete.1, fun t low high => published (complete.2 t low high)⟩

theorem Complete.le_claimed (complete : p.Complete v) (sound : p.Sound) : v ≤ p.claimed := by
  by_cases start : 0 ≤ v
  · exact (sound.split.past (complete.2 v start (Int.le_refl v))).2
  · have := sound.start
    omega

/-- The cursor of one producer is behind its open claim. -/
theorem complete_cursor (sound : p.Sound) (single : p.kind = .one) :
    p.Complete p.sequencer.cursor := by
  have alone := sound.alone single
  have start := sound.start
  by_cases opened : ∃ i b, p.Holds i b
  · obtain ⟨i, b, holds⟩ := opened
    obtain ⟨first, last⟩ := alone.opened holds
    obtain ⟨low, upright, -⟩ := sound.split.span (takes_of_holds holds)
    refine ⟨by omega, fun t above below => ?_⟩
    rcases sound.split.cover above (by omega) with shown | ⟨j, c, took, inside⟩
    · exact shown
    · have other := holds_of_takes single took
      obtain rfl := alone.only ⟨_, holds, by simp⟩ ⟨_, other, by simp⟩
      cases holds.symm.trans other
      rw [Block.mem_iff] at inside
      omega
  · have rest := alone.rest fun i b holds => opened ⟨i, b, holds⟩
    rw [rest]
    refine ⟨start, fun t above below => ?_⟩
    rcases sound.split.cover above below with shown | ⟨j, c, took, -⟩
    · exact shown
    · exact absurd ⟨j, c, holds_of_takes single took⟩ opened

/-- Before the first claim no position is complete but the one before sequence 0. -/
theorem Complete.eq_of_unclaimed (complete : p.Complete v) (sound : p.Sound)
    (unclaimed : p.claimed = -1) : v = -1 := by
  have := complete.le_claimed sound
  have := complete.1
  omega

theorem cursor_of_unclaimed (sound : p.Sound) (unclaimed : p.claimed = -1) :
    p.sequencer.cursor = -1 := by
  cases kind : p.kind with
  | one => exact (complete_cursor sound kind).eq_of_unclaimed sound unclaimed
  | many => rw [cursor_of_many kind, unclaimed]

/-- A counter at a complete position stays there if nobody moves it: it is let hold producers back
before the first claim only, and then the cursor is where it is. -/
theorem Complete.still {id : CounterId} (complete : p.Complete (p.counter id)) (sound : p.Sound)
    (made : p.Made id) (early : ∀ ids, act = .gate ids → p.claimed = -1)
    (unmoved : ∀ value, act ≠ .move id value) (h : Change p act q) : q.counter id = p.counter id := by
  rcases counter_of_change h made with same | ⟨ids, gate, -, same⟩ | ⟨value, move, -⟩
  · exact same
  · have unclaimed := early ids gate
    rw [same, cursor_of_unclaimed sound unclaimed, complete.eq_of_unclaimed sound unclaimed]
  · exact absurd move (unmoved value)

/-- If nothing is open, everything that was claimed is published. -/
theorem complete_claimed (sound : p.Sound) (closed : p.taken = []) : p.Complete p.claimed := by
  refine ⟨sound.start, fun t above below => ?_⟩
  rcases sound.split.cover above below with shown | ⟨j, c, took, -⟩
  · exact shown
  · have listed := mem_taken_iff.mpr ⟨j, took⟩
    rw [closed] at listed
    cases listed

/-- Marks tell the truth about a sequence before which everything is published. -/
def Tells (p : Production g ε) : Prop :=
  ∀ {laps : Vector Int32 g.size} {t : Int}, p.sequencer.ledger = .shared laps → 0 ≤ t →
    t ≤ p.claimed → (∀ u, 0 ≤ u → u < t → p.Published u) → isMarked laps t = true → p.Published t

theorem tells_of_few (sound : p.Sound) (few : p.Few) : p.Tells := by
  intro laps t ledger low high before marked
  exact Marks.published_of_isMarked (sound.marks ledger) sound.split.past sound.fits
    (few (producers_shared ledger)) low high before marked

/-- The end of a scan from a complete position is complete. -/
theorem complete_of_scan {laps : Vector Int32 g.size} (tells : p.Tells)
    (ledger : p.sequencer.ledger = .shared laps) (before : p.Complete (lo - 1))
    (inside : hi ≤ p.claimed) (scanned : p.sequencer.highestPublished lo hi = .ok v)
    (enough : lo ≤ v) : p.Complete v := by
  obtain ⟨most, -, marked, -⟩ := highestPublished_shared ledger scanned
  have start := before.1
  -- one sequence after the other, since a mark says something only if all before it are published
  have upTo (n : Nat) : ∀ t, 0 ≤ t → t ≤ v → t < lo + n → p.Published t := by
    induction n with
    | zero =>
        intro t low _ near
        exact before.2 t low (by omega)
    | succ n ih =>
        intro t low high near
        by_cases old : t < lo + n
        · exact ih t low high old
        · refine tells ledger low (by omega) ?_ (marked t (by omega) high)
          intro u positive below
          exact ih u positive (by omega) (by omega)
  refine ⟨by omega, fun t low high => ?_⟩
  exact upTo (v + 1 - lo).toNat t low high (by omega)

/-- What lies behind complete counters is complete. -/
theorem complete_of_behind {front : List CounterId} (some : front ≠ [])
    (counters : ∀ id ∈ front, p.Complete (p.counter id)) :
    p.Complete (p.sequencer.counters.behind front p.sequencer.cursor) := by
  obtain ⟨id, listed⟩ := List.exists_mem_of_ne_nil front some
  refine lower_complete.down (counters id listed) ?_ (Counters.behind_le_value listed)
  exact Counters.le_behind some (by decide) fun id inFront => (counters id inFront).1

/-- What lies in front of a consumer is claimed. -/
theorem behind_le_claimed {front : List CounterId} (sound : p.Sound)
    (counters : ∀ id ∈ front, p.Complete (p.counter id)) :
    p.sequencer.counters.behind front p.sequencer.cursor ≤ p.claimed := by
  by_cases none : front = []
  · subst none
    rw [Counters.behind_nil]
    cases kind : p.kind with
    | one => exact (complete_cursor sound kind).le_claimed sound
    | many => exact Int.le_of_eq (cursor_of_many kind)
  · exact (complete_of_behind none counters).le_claimed sound

/-- A poller finds what is complete. -/
theorem complete_of_look {front : List CounterId} (sound : p.Sound) (tells : p.Tells)
    (counters : ∀ id ∈ front, p.Complete (p.counter id)) (before : p.Complete (lo - 1))
    (scanned : p.sequencer.highestPublished lo
      (p.sequencer.counters.behind front p.sequencer.cursor) = .ok v)
    (enough : lo ≤ v) : p.Complete v := by
  cases ledger : p.sequencer.ledger with
  | shared laps =>
      exact complete_of_scan tells ledger before (behind_le_claimed sound counters) scanned enough
  | solo c =>
      cases (highestPublished_solo ledger).symm.trans scanned
      by_cases none : front = []
      · subst none
        exact complete_cursor sound (producers_solo ledger)
      · exact complete_of_behind none counters

end Production

/-! ## Barriers -/

/-- A barrier made for producers of a kind scans if they are many and nobody is in front. -/
def Barrier.Suits (b : Barrier) (kind : Producers) : Prop :=
  b.scans = (decide (kind = .many) && b.front.isEmpty)

theorem Barrier.suits_make (s : Sequencer g) (waiter : Wait.Waiter) (front : List CounterId) :
    (Barrier.make s waiter front).Suits s.producers := rfl

section Barriers

variable {p : Production g ε} {b : Barrier} {lo a v : Int}

theorem Barrier.Suits.many {kind : Producers} (suits : b.Suits kind) (scans : b.scans = true) :
    kind = .many ∧ b.front = [] := by
  rw [suits, Bool.and_eq_true, decide_eq_true_iff, List.isEmpty_iff] at scans
  exact scans

/-- What is in front of a barrier that does not scan is complete. -/
theorem Barrier.Suits.finds (suits : b.Suits p.kind) (sound : p.Sound)
    (counters : ∀ id ∈ b.front, p.Complete (p.counter id)) :
    b.Finds p.Complete p.claimed (b.value p.sequencer) := by
  unfold Finds
  cases scans : b.scans with
  | true =>
      rw [if_pos rfl]
      exact Production.behind_le_claimed sound counters
  | false =>
      rw [if_neg (by decide)]
      by_cases none : b.front = []
      · have single : p.kind = .one := by
          rw [suits, none] at scans
          cases kind : p.kind with
          | one => rfl
          | many =>
              rw [kind] at scans
              cases scans
        show p.Complete (p.sequencer.counters.behind b.front p.sequencer.cursor)
        rw [none]
        exact Production.complete_cursor sound single
      · exact Production.complete_of_behind none counters

/-- What a wait found is complete once it is cut. -/
theorem Barrier.Suits.cuts (suits : b.Suits p.kind) (tells : p.Tells)
    (before : p.Complete (lo - 1)) (found : b.Finds p.Complete p.claimed a)
    (cut : b.highestPublished p.sequencer lo a = .ok v) (enough : lo ≤ v) : p.Complete v := by
  unfold Finds at found
  unfold highestPublished at cut
  cases scans : b.scans with
  | true =>
      rw [scans, if_pos rfl] at found cut
      obtain ⟨laps, ledger⟩ := Production.kind_eq_many_iff.mp (suits.many scans).1
      exact Production.complete_of_scan tells ledger before found cut enough
  | false =>
      rw [scans, if_neg (by decide)] at found cut
      cases cut
      exact found

end Barriers

/-! ## Pipelines -/

namespace Pipeline

variable {p q r : Pipeline g ε} {act : Act ε} {id : CounterId} {j : Nat} {c after : Consumer g ε}

theorem owned_iff : p.Owned id ↔ id ∈ p.consumers.map Consumer.counter := List.mem_map.symm

/-- How consumers hang together. -/
structure Wired (p : Pipeline g ε) : Prop where
  made : ∀ c ∈ p.consumers, p.floor.Made c.counter
  apart : (p.consumers.map Consumer.counter).Nodup
  owned : ∀ c ∈ p.consumers, ∀ id ∈ c.front, p.Owned id
  suited : ∀ c ∈ p.consumers, ∀ scans ∈ c.scans,
    scans = (decide (p.floor.kind = .many) && c.front.isEmpty)

/-- A consumer that takes a step keeps its counter. -/
theorem counters_of_set (there : p.consumers[j]? = some c) (stays : c.Stays after) :
    (p.consumers.set j after).map Consumer.counter = p.consumers.map Consumer.counter := by
  have same : (p.consumers.map Consumer.counter)[j]? = some after.counter := by
    rw [List.getElem?_map, there, stays.counter]
    rfl
  obtain ⟨inside, here⟩ := List.getElem?_eq_some_iff.mp same
  rw [List.map_set, ← here]
  exact List.set_getElem_self inside

/-- Every step is an act of producers, or leaves the ring alone. -/
theorem floor_of_change (h : Change p act q) : ∃ a, Production.Change p.floor a q.floor := by
  cases h with
  | produced change => exact ⟨_, change⟩
  | hired => exact ⟨.make Counter.initial, Production.Change.made⟩
  | consumed => exact ⟨.measure, Production.Change.idle _⟩
  | stored _ _ made => exact ⟨.move _ _, Production.Change.moved made⟩

/-- What stays of a state in every state after it. -/
structure Later (p q : Pipeline g ε) : Prop where
  kind : q.floor.kind = p.floor.kind
  published : ∀ {t}, p.floor.Published t → q.floor.Published t
  claimed : p.floor.claimed ≤ q.floor.claimed
  owned : ∀ {id}, p.Owned id → q.Owned id

theorem Later.refl (p : Pipeline g ε) : Later p p := ⟨rfl, id, Int.le_refl _, id⟩

theorem Later.trans (first : Later p q) (second : Later q r) : Later p r where
  kind := second.kind.trans first.kind
  published shown := second.published (first.published shown)
  claimed := Int.le_trans first.claimed second.claimed
  owned there := second.owned (first.owned there)

theorem Later.complete {v : Int} (later : Later p q) (complete : p.floor.Complete v) :
    q.floor.Complete v := complete.mono later.published

/-- If there are few claims later, there were few before. -/
theorem Later.few (later : Later p q) (few : q.floor.Few) : p.floor.Few := by
  intro many
  have after := few (later.kind.trans many)
  have := later.claimed
  omega

theorem owned_of_change (h : Change p act q) (owned : p.Owned id) : q.Owned id := by
  rw [owned_iff] at owned ⊢
  cases h with
  | produced => exact owned
  | hired =>
      rw [List.map_append]
      exact List.mem_append_left _ owned
  | consumed there stepped =>
      rwa [counters_of_set there (Consumer.stays_of_step stepped)]
  | stored there stepped =>
      rwa [counters_of_set there (Consumer.stays_of_step stepped)]

theorem later_of_change (sound : p.floor.Sound) (h : Change p act q) : Later p q := by
  obtain ⟨a, change⟩ := floor_of_change h
  exact ⟨Production.kind_of_change change, Production.published_of_change change,
    Production.claimed_le_of_change sound change, owned_of_change h⟩

theorem Entry.suited {s : Sequencer g} {front : List CounterId} {role : Role g}
    (entry : Entry s front role) (counter : CounterId) :
    let c : Consumer g ε := { counter := counter, role := role }
    c.front = front ∧ ∀ scans ∈ c.scans, scans = (decide (s.producers = .many) && front.isEmpty) := by
  cases entry with
  | poller =>
      refine ⟨rfl, fun scans none => ?_⟩
      cases none
  | worker =>
      refine ⟨rfl, fun scans same => ?_⟩
      cases same
      rfl

/-- A consumer that comes in has nothing in hand. -/
theorem Entry.within {s : Sequencer g} {front : List CounterId} {role : Role g}
    (entry : Entry s front role) (ok : Int → Prop) (top : Int) (counter : CounterId) :
    Consumer.Within (ε := ε) ok top { counter := counter, role := role } := by
  cases entry with
  | poller => trivial
  | worker kind most waiter =>
      exact ⟨Processor.limitOf_pos most, trivial, fun a none => (nomatch none)⟩

/-- A consumer that takes a step stays where it stands. -/
theorem Wired.set {floor : Production g ε} (wired : p.Wired) (there : p.consumers[j]? = some c)
    (stays : c.Stays after) (kind : floor.kind = p.floor.kind)
    (made : ∀ {id}, p.floor.Made id → floor.Made id) :
    Wired { floor := floor, consumers := p.consumers.set j after } := by
  have listed := List.mem_of_getElem? there
  have counters := counters_of_set there stays
  refine ⟨?_, ?_, ?_, ?_⟩
  · intro d inside
    rcases List.mem_or_eq_of_mem_set inside with old | rfl
    · exact made (wired.made d old)
    · rw [stays.counter]
      exact made (wired.made c listed)
  · rw [counters]
    exact wired.apart
  · intro d inside id inFront
    rw [owned_iff, counters, ← owned_iff]
    rcases List.mem_or_eq_of_mem_set inside with old | rfl
    · exact wired.owned d old id inFront
    · rw [stays.front] at inFront
      exact wired.owned c listed id inFront
  · intro d inside scans same
    rw [kind]
    rcases List.mem_or_eq_of_mem_set inside with old | rfl
    · exact wired.suited d old scans same
    · rw [stays.scans] at same
      rw [stays.front]
      exact wired.suited c listed scans same

theorem wired_of_change (wired : p.Wired) (h : Change p act q) : q.Wired := by
  obtain ⟨a, change⟩ := floor_of_change h
  have kind := Production.kind_of_change change
  have made {id} : p.floor.Made id → q.floor.Made id := Production.made_of_change change
  have owned {id} : p.Owned id → q.Owned id := owned_of_change h
  cases h with
  | produced =>
      refine ⟨fun c listed => made (wired.made c listed), wired.apart, wired.owned, ?_⟩
      rw [kind]
      exact wired.suited
  | @hired _ front role _ inFront entry =>
      obtain ⟨stands, suits⟩ :=
        entry.suited (ε := ε) p.floor.sequencer.counters.values.size
      refine ⟨?_, ?_, ?_, ?_⟩
      · intro c listed
        rcases List.mem_append.mp listed with old | new
        · exact made (wired.made c old)
        · rw [List.mem_singleton.mp new]
          show _ < (p.floor.sequencer.counters.make _).2.values.size
          rw [Counters.size_make]
          exact Nat.lt_succ_self _
      · -- the new counter did not exist before
        rw [List.map_append, List.nodup_append]
        refine ⟨wired.apart, by simp, ?_⟩
        intro a old b new same
        obtain ⟨c, listed, rfl⟩ := List.mem_map.mp old
        obtain rfl : b = p.floor.sequencer.counters.values.size := by simpa using new
        exact absurd (wired.made c listed) (by rw [same]; exact Nat.lt_irrefl _)
      · intro c listed id front'
        rcases List.mem_append.mp listed with old | new
        · exact owned (wired.owned c old id front')
        · rw [List.mem_singleton.mp new, stands] at front'
          exact owned (inFront id front')
      · intro c listed scans same
        rw [kind]
        rcases List.mem_append.mp listed with old | new
        · exact wired.suited c old scans same
        · rw [List.mem_singleton.mp new] at same ⊢
          rw [stands]
          exact suits scans same
  | consumed there stepped => exact wired.set there (Consumer.stays_of_step stepped) rfl id
  | stored there stepped => exact wired.set there (Consumer.stays_of_step stepped) kind made

theorem wired_fresh (g : Geometry) (kind : Producers) (parks : Bool) (factory : Nat → ε) :
    (fresh g kind parks factory).Wired :=
  ⟨fun _ none => (nomatch none), List.nodup_nil, fun _ none => (nomatch none),
    fun _ none => (nomatch none)⟩

/-- Consumers at different places have different counters. -/
theorem Wired.counter_ne {i : Nat} {d : Consumer g ε} (wired : p.Wired)
    (there : p.consumers[j]? = some c) (other : p.consumers[i]? = some d) (apart : i ≠ j) :
    d.counter ≠ c.counter := by
  intro same
  obtain ⟨inside, -⟩ := List.getElem?_eq_some_iff.mp other
  refine apart ((List.getElem?_inj (by simpa using inside) wired.apart).mp ?_)
  rw [List.getElem?_map, List.getElem?_map, there, other]
  exact congrArg some same

/-- A consumer after one of them took a step is that one, or another one that stayed as it was. -/
theorem Wired.mem_set {d : Consumer g ε} (wired : p.Wired) (there : p.consumers[j]? = some c)
    (listed : d ∈ p.consumers.set j after) :
    d = after ∨ (d ∈ p.consumers ∧ d.counter ≠ c.counter) := by
  obtain ⟨i, other⟩ := List.mem_iff_getElem?.mp listed
  by_cases own : j = i
  · subst own
    obtain ⟨inside, -⟩ := List.getElem?_eq_some_iff.mp there
    rw [List.getElem?_set_self inside] at other
    exact Or.inl (Option.some.inj other).symm
  · rw [List.getElem?_set_ne own] at other
    exact Or.inr ⟨List.mem_of_getElem? other, wired.counter_ne there other (Ne.symm own)⟩

/-- Nobody leaves when a consumer takes a step. -/
theorem exists_mem_set {d : Consumer g ε} (there : p.consumers[j]? = some c) (stays : c.Stays after)
    (listed : d ∈ p.consumers) :
    ∃ e ∈ p.consumers.set j after, e.counter = d.counter ∧ e.front = d.front := by
  obtain ⟨i, other⟩ := List.mem_iff_getElem?.mp listed
  obtain ⟨inside, -⟩ := List.getElem?_eq_some_iff.mp there
  by_cases own : j = i
  · subst own
    cases there.symm.trans other
    exact ⟨after, List.mem_of_getElem? (List.getElem?_set_self inside), stays.counter, stays.front⟩
  · refine ⟨d, List.mem_of_getElem? (i := i) ?_, rfl, rfl⟩
    rw [List.getElem?_set_ne own]
    exact other

/-- The ring when a consumer has taken a step that stores some progress, or none. -/
structure Stored (p : Pipeline g ε) (c : Consumer g ε) (stores : Option Int) (floor : Production g ε) :
    Prop where
  claimed : floor.claimed = p.floor.claimed
  gates : floor.sequencer.gates = p.floor.sequencer.gates
  own : floor.counter c.counter = stores.getD (p.floor.counter c.counter)
  others : ∀ {id}, id ≠ c.counter → floor.counter id = p.floor.counter id

theorem stored_none : p.Stored c none p.floor := ⟨rfl, rfl, rfl, fun _ => rfl⟩

theorem stored_some {progress : Int} (made : p.floor.Made c.counter) :
    p.Stored c (some progress)
      (p.floor.withCounters (p.floor.sequencer.counters.set c.counter progress)) := by
  refine ⟨rfl, rfl, Counters.value_set_self _ made _, fun {id} other => ?_⟩
  exact Counters.value_set_ne _ (Ne.symm other) _

/-! ## Properties of all consumers -/

/-- All consumers are at positions with a property, and so is everything that they have in hand. -/
structure Everywhere (p : Pipeline g ε) (ok : Int → Prop) (top : Int) : Prop where
  counters : ∀ c ∈ p.consumers, ok (p.floor.counter c.counter)
  within : ∀ c ∈ p.consumers, c.Within ok top

section Everywhere

variable {ok good : Int → Prop} {top higher : Int}

/-- A step of a consumer that sees only positions with the property. -/
theorem Everywhere.step {move : Move} {stores : Option Int} {floor : Production g ε}
    (all : p.Everywhere ok top) (wired : p.Wired) (convex : Convex ok)
    (sees : c.Sees ok top p.floor.sequencer) (later : ∀ {v}, ok v → good v) (above : top ≤ higher)
    (there : p.consumers[j]? = some c) (stepped : c.step p.floor.ring move = some (after, stores))
    (stored : p.Stored c stores floor) :
    Everywhere { floor := floor, consumers := p.consumers.set j after } good higher := by
  have here := List.mem_of_getElem? there
  have stays := Consumer.stays_of_step stepped
  obtain ⟨within, stands, -⟩ := Consumer.within_of_step convex (all.within c here) sees stepped
  refine ⟨fun d listed => ?_, fun d listed => ?_⟩
  · show good (floor.counter d.counter)
    rcases wired.mem_set there listed with rfl | ⟨old, other⟩
    · rw [stays.counter, stored.own]
      apply later
      cases stores with
      | none => exact all.counters c here
      | some progress => exact stands progress rfl
    · rw [stored.others other]
      exact later (all.counters d old)
  · rcases wired.mem_set there listed with rfl | ⟨old, -⟩
    · exact within.mono later above
    · exact (all.within d old).mono later above

/-- A property is kept by everybody if consumers see only positions that have it, and nobody else moves
their counters but to such positions. -/
theorem everywhere_of_change (all : p.Everywhere ok top) (wired : p.Wired) (convex : Convex ok)
    (sees : ∀ c ∈ p.consumers, c.Sees ok top p.floor.sequencer)
    (later : ∀ {v}, ok v → good v) (above : top ≤ higher) (start : good (-1))
    (gated : ∀ ids, act = .produce (.gate ids) → ∀ c ∈ p.consumers, c.counter ∈ ids →
      good p.floor.sequencer.cursor)
    (unmoved : ∀ id v, act = .produce (.move id v) → ¬ p.Owned id) (h : Change p act q) :
    q.Everywhere good higher := by
  cases h with
  | @produced a floor change =>
      refine ⟨fun c listed => ?_, fun c listed => (all.within c listed).mono later above⟩
      show good (floor.counter c.counter)
      rcases Production.counter_of_change change (wired.made c listed) with
        same | ⟨ids, rfl, inside, same⟩ | ⟨value, rfl, -⟩
      · rw [same]
        exact later (all.counters c listed)
      · rw [same]
        exact gated ids rfl c listed inside
      · exact absurd ⟨c, listed, rfl⟩ (unmoved _ _ rfl)
  | hired asks owned entry =>
      refine ⟨fun c listed => ?_, fun c listed => ?_⟩
      · show good ((p.floor.sequencer.counters.make _).2.value c.counter)
        rcases List.mem_append.mp listed with old | new
        · rw [Counters.value_make _ (wired.made c old)]
          exact later (all.counters c old)
        · rw [List.mem_singleton.mp new, Counters.value_make_self]
          exact start
      · rcases List.mem_append.mp listed with old | new
        · exact (all.within c old).mono later above
        · rw [List.mem_singleton.mp new]
          exact entry.within _ _ _
  | consumed there stepped =>
      exact all.step wired convex (sees _ (List.mem_of_getElem? there)) later above there stepped
        stored_none
  | stored there stepped made =>
      exact all.step wired convex (sees _ (List.mem_of_getElem? there)) later above there stepped
        (stored_some made)

end Everywhere

/-- The barrier of a worker suits the ring, and stands where the worker does. -/
theorem Wired.suits {w : Worker g} (wired : p.Wired) (listed : c ∈ p.consumers)
    (role : c.role = .worker w) : w.barrier.front = c.front ∧ w.barrier.Suits p.floor.kind := by
  have front : c.front = w.barrier.front := by
    unfold Consumer.front
    rw [role]
  refine ⟨front.symm, ?_⟩
  unfold Barrier.Suits
  rw [← front]
  refine wired.suited c listed w.barrier.scans ?_
  unfold Consumer.scans
  rw [role]
  rfl

/-- A consumer whose front is complete sees only what is complete. -/
theorem Wired.sees (wired : p.Wired) (sound : p.floor.Sound) (tells : p.floor.Tells)
    (complete : ∀ c ∈ p.consumers, p.floor.Complete (p.floor.counter c.counter))
    (listed : c ∈ p.consumers) :
    c.Sees p.floor.Complete p.floor.claimed p.floor.sequencer := by
  have counters : ∀ id ∈ c.front, p.floor.Complete (p.floor.counter id) := by
    intro id inFront
    obtain ⟨d, there, rfl⟩ := wired.owned c listed id inFront
    exact complete d there
  refine ⟨complete c listed, ?_, ?_, ?_⟩
  · intro next v before scanned enough
    exact Production.complete_of_look sound tells counters before scanned enough
  · intro w role
    obtain ⟨front, suits⟩ := wired.suits listed role
    rw [← front] at counters
    exact suits.finds sound counters
  · intro w role next a v before found cut enough
    exact (wired.suits listed role).2.cuts tells before found cut enough

/-! ## Where consumers may go -/

open Production (lower_complete)

variable {v : Int}

/-- Everything up to a position is published, and everybody in front of a consumer has been there. -/
def Ready (p : Pipeline g ε) (c : Consumer g ε) (v : Int) : Prop :=
  p.floor.Complete v ∧ ∀ id ∈ c.front, v ≤ p.floor.counter id

theorem lower_ready : Lower (p.Ready c) where
  ge ready := ready.1.1
  down ready start below := ⟨lower_complete.down ready.1 start below,
    fun id inFront => Int.le_trans below (ready.2 id inFront)⟩

/-- Where a consumer may go now it may go later, if nobody in front moves back. -/
theorem Ready.mono (ready : p.Ready c v) (front : after.front = c.front)
    (published : ∀ {t}, p.floor.Published t → q.floor.Published t)
    (forward : ∀ id ∈ c.front, p.floor.counter id ≤ q.floor.counter id) : q.Ready after v := by
  refine ⟨ready.1.mono published, fun id inFront => ?_⟩
  rw [front] at inFront
  exact Int.le_trans (ready.2 id inFront) (forward id inFront)

/-- A scan that gets anywhere gets no further than asked. -/
theorem le_of_scanned {s : Sequencer g} {next hi : Int} (scanned : s.highestPublished next hi = .ok v)
    (enough : next ≤ v) : v ≤ hi := by
  cases ledger : s.ledger with
  | solo =>
      cases (Sequencer.highestPublished_solo ledger).symm.trans scanned
      exact Int.le_refl v
  | shared laps =>
      have := (Sequencer.highestPublished_shared ledger scanned).1
      omega

/-- A consumer sees only where it may go. -/
theorem sees_ready (wired : p.Wired) (sound : p.floor.Sound) (tells : p.floor.Tells)
    (ready : ∀ c ∈ p.consumers, p.Ready c (p.floor.counter c.counter)) (listed : c ∈ p.consumers) :
    c.Sees (p.Ready c) p.floor.claimed p.floor.sequencer := by
  have sees := wired.sees sound tells (fun d there => (ready d there).1) listed
  have behind {id} (inFront : id ∈ c.front) :
      p.floor.sequencer.counters.behind c.front p.floor.sequencer.cursor ≤ p.floor.counter id :=
    Counters.behind_le_value inFront
  refine ⟨ready c listed, ?_, ?_, ?_⟩
  · intro next v before scanned enough
    refine ⟨sees.looks before.1 scanned enough, fun id inFront => ?_⟩
    exact Int.le_trans (le_of_scanned scanned enough) (behind inFront)
  · intro w role
    have front := (wired.suits listed role).1
    have found := sees.finds role
    unfold Barrier.Finds at found ⊢
    by_cases scans : w.barrier.scans = true
    · rw [if_pos scans] at found ⊢
      exact found
    · rw [if_neg scans] at found ⊢
      refine ⟨found, fun id inFront => ?_⟩
      have below := behind inFront
      rwa [← front] at below
  · intro w role next a v before found cut enough
    obtain ⟨front, suits⟩ := wired.suits listed role
    have complete := sees.cuts role before.1 (found.mono (fun ready => ready.1) (Int.le_refl _)) cut
      enough
    refine ⟨complete, fun id inFront => ?_⟩
    unfold Barrier.Finds at found
    unfold Barrier.highestPublished at cut
    by_cases scans : w.barrier.scans = true
    · -- a barrier scans only if nobody is in front
      rw [← front, (suits.many scans).2] at inFront
      cases inFront
    · rw [if_neg scans] at found cut
      cases cut
      exact found.2 id inFront

/-- A consumer that comes in stands before sequence 0. -/
theorem Entry.ready {s : Sequencer g} {front : List CounterId} {role : Role g} {counter : CounterId}
    (entry : Entry s front role) (start : q.floor.counter counter = -1)
    (others : ∀ id ∈ front, -1 ≤ q.floor.counter id) :
    q.Ready { counter := counter, role := role } (q.floor.counter counter) := by
  rw [start]
  refine ⟨Production.complete_start, fun id inFront => ?_⟩
  rw [(entry.suited counter).1] at inFront
  exact others id inFront

end Pipeline

end EventRing
