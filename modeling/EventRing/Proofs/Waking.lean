import EventRing.Proofs.Owing
/-!
# EventRing.Proofs.Waking

No waking is lost.  Whenever no claim is open and nobody publishes or cancels, nobody is parked or suspended
whose sequence the cursor has reached or whose barrier is cancelled, however the steps of all were interleaved.

`Hall.Attended` is what every step keeps.  Besides what holds of the guests it says who has the lock, and where
the cursor is: with one producer a claim stores it as well, but nothing new, since the cursor is at the claim
position whenever nothing is claimed (`Hall.Level`).
-/

namespace EventRing

open Wait (Strategy Side Observation Outcome)

namespace Hall

variable {g : Geometry} {h h' : Hall g} {i j : Nat} {e e' : Hand} {guest : Guest}

/-! ## Where the cursor is -/

/-- Where the cursor will be when the first hand has published what it has. -/
def front (h : Hall g) : Int := (h.hands[0]?.bind Hand.block?).elim h.sequencer.cursor Block.hi

/-- Only those that produce claim, and with one producer the cursor is at the claim position, but for an open
claim. -/
structure Level (h : Hall g) : Prop where
  produces : ∀ i e, h.hands[i]? = some e → e.isEngaged = true → h.Produces i
  front : ∀ c, h.sequencer.ledger = .solo c → h.front = c

theorem Produces.first {c : Int} (produces : h.Produces i) (solo : h.sequencer.ledger = .solo c) : i = 0 := by
  rcases produces with many | first
  · cases (Sequencer.producers_solo solo).symm.trans many
  · exact first

theorem front_of_first (here : h.hands[0]? = some e) : h.front = e.block?.elim h.sequencer.cursor Block.hi := by
  rw [front, here]
  rfl

theorem hands_set (here : h.hands[i]? = some e) (hands : h'.hands = h.hands.set i e') :
    h'.hands[i]? = some e' := by
  obtain ⟨inside, -⟩ := List.getElem?_eq_some_iff.mp here
  rw [hands, List.getElem?_set_self inside]

theorem hands_set_ne (hands : h'.hands = h.hands.set i e') (other : i ≠ j) : h'.hands[j]? = h.hands[j]? := by
  rw [hands, List.getElem?_set_ne other]

/-- With one producer a hand that does not claim may do as it likes, and the first leaves its claim to be read
off the ledger. -/
theorem Level.set (level : h.Level) (here : h.hands[i]? = some e) (hands : h'.hands = h.hands.set i e')
    (producers : h'.sequencer.producers = h.sequencer.producers)
    (produces : e'.isEngaged = true → h.Produces i)
    (front : ∀ c, h'.sequencer.ledger = .solo c → h'.front = c) : h'.Level where
  produces j f there engaged := by
    suffices h.Produces j by
      unfold Produces at this ⊢
      rwa [producers]
    by_cases same : i = j
    · subst same
      cases (hands_set here hands).symm.trans there
      exact produces engaged
    · rw [hands_set_ne hands same] at there
      exact level.produces j f there engaged
  front := front

/-- The hand that claims leaves the cursor, or what it has claimed, at the claim position. -/
theorem Level.put {s : Sequencer g} (level : h.Level) (here : h.hands[i]? = some e) (produces : h.Produces i)
    (producers : s.producers = h.sequencer.producers)
    (solo : ∀ c d, h.sequencer.ledger = .solo d → s.ledger = .solo c → e'.block?.elim s.cursor Block.hi = c) :
    ((h.withSequencer s).put i e').Level := by
  refine level.set here rfl producers (fun _ => produces) fun c after => ?_
  cases before : h.sequencer.ledger with
  | solo d =>
      obtain rfl := produces.first before
      rw [front_of_first (hands_set here rfl)]
      exact solo c d before after
  | shared laps =>
      have one : s.producers = .one := Sequencer.producers_solo after
      rw [producers, Sequencer.producers_shared before] at one
      cases one

/-- What the first hand has claimed with one producer ends at the claim position. -/
theorem Level.hi_eq {block : Block} {c : Int} (level : h.Level) (here : h.hands[i]? = some e)
    (engaged : e.isEngaged = true) (has : e.block? = some block) (solo : h.sequencer.ledger = .solo c) :
    block.hi = c := by
  obtain rfl := (level.produces i e here engaged).first solo
  have front := level.front c solo
  rw [front_of_first here, has] at front
  exact front

/-- A hand without a claim does not matter. -/
theorem front_of_idle (here : h.hands[i]? = some e) (hands : h'.hands = h.hands.set i e')
    (cursor : h'.sequencer.cursor = h.sequencer.cursor) (before : e.block? = none) (after : e'.block? = none) :
    h'.front = h.front := by
  by_cases first : i = 0
  · subst first
    rw [front_of_first here, front_of_first (hands_set here hands), before, after, cursor]
  · rw [front, front, hands_set_ne hands first, cursor]

theorem Level.idle (level : h.Level) (here : h.hands[i]? = some e) (hands : h'.hands = h.hands.set i e')
    (cursor : h'.sequencer.cursor = h.sequencer.cursor) (ledger : h'.sequencer.ledger = h.sequencer.ledger)
    (before : e.isEngaged = false) (after : e'.isEngaged = false) : h'.Level := by
  refine level.set here hands ?_ (fun engaged => ?_) fun c solo => ?_
  · rw [Sequencer.producers, Sequencer.producers, ledger]
  · cases after.symm.trans engaged
  · rw [front_of_idle here hands cursor (Hand.block?_of_not_engaged before) (Hand.block?_of_not_engaged after)]
    exact level.front c (ledger ▸ solo)

/-! ## The lock -/

/-- Who wakes under the lock has it. -/
def Latched (h : Hall g) : Prop :=
  ∀ i e, h.hands[i]? = some e → e.hasLock = true → h.lock = some (.hand i)

theorem Latched.set (latched : h.Latched) (here : h.hands[i]? = some e) (hands : h'.hands = h.hands.set i e')
    (own : e'.hasLock = true → h'.lock = some (.hand i))
    (others : ∀ j, i ≠ j → h.lock = some (.hand j) → h'.lock = some (.hand j)) : h'.Latched := by
  intro j f there locks
  by_cases same : i = j
  · subst same
    cases (hands_set here hands).symm.trans there
    exact own locks
  · rw [hands_set_ne hands same] at there
    exact others j same (latched j f there locks)

/-! ## Steps of hands -/

/-- A hand that owes a ringing afterwards makes up for all that it did. -/
theorem later_of_owing (here : h.hands[i]? = some e) (hands : h'.hands = h.hands.set i e')
    (strategy : h'.strategy = h.strategy) (rings : h'.rings = h.rings) (calls : h'.calls = h.calls)
    (owes : e'.owesRing = true) : Later h h' where
  strategy := strategy
  rings := Nat.le_of_eq rings.symm
  calls := Nat.le_of_eq calls.symm
  cursor := Or.inr (owes_of_set here hands owes)
  token _ _ := Or.inr (owes_of_set here hands owes)
  ringing _ := Or.inl (owes_of_set here hands owes)
  calling _ _ := Or.inl (owes_of_set here hands (Hand.owesCall_of_owesRing owes))

/-- What a hand does that sets no token and leaves the cursor where it is. -/
theorem later_of_waking (here : h.hands[i]? = some e) (hands : h'.hands = h.hands.set i e')
    (strategy : h'.strategy = h.strategy) (rings : h.rings ≤ h'.rings) (calls : h.calls ≤ h'.calls)
    (cursor : h'.sequencer.cursor = h.sequencer.cursor) (barriers : h'.barriers = h.barriers)
    (ringing : e.owesRing = true → e'.owesRing = true ∨ h.rings < h'.rings ∧ ∃ j, h.lock = some (.hand j))
    (calling : h.strategy.hasTasks = true → e.owesCall = true → e'.owesCall = true ∨ h.calls < h'.calls) :
    Later h h' where
  strategy := strategy
  rings := rings
  calls := calls
  cursor := Or.inl cursor
  token b cancelled := by
    unfold Cancelled at *
    rw [barriers] at cancelled
    exact Or.inl cancelled
  ringing owed := by
    by_cases rang : h.rings < h'.rings ∧ ∃ j, h.lock = some (.hand j)
    · exact Or.inr rang
    · exact Or.inl (owed.set here hands fun owes => (ringing owes).resolve_right rang)
  calling tasks owed := by
    by_cases called : h.calls < h'.calls
    · exact Or.inr called
    · exact Or.inl (owed.set here hands fun owes => (calling tasks owes).resolve_right called)

/-! ## Steps that leave hands and cursor -/

/-- A step of somebody who is not a hand. -/
structure Still (h h' : Hall g) : Prop where
  strategy : h'.strategy = h.strategy
  hands : h'.hands = h.hands ∨ h'.hands = h.hands ++ [.free]
  cursor : h'.sequencer.cursor = h.sequencer.cursor
  ledger : h'.sequencer.ledger = h.sequencer.ledger
  rings : h'.rings = h.rings
  calls : h'.calls = h.calls
  token : ∀ b, h'.Cancelled b → h.Cancelled b
  lock : ∀ i, h.lock = some (.hand i) → h'.lock = some (.hand i)

theorem Still.owes {debt : Hand → Bool} (still : Still h h') (owed : h.Owes debt) : h'.Owes debt := by
  obtain ⟨e, listed, owes⟩ := owed
  refine ⟨e, ?_, owes⟩
  rcases still.hands with same | hired
  · exact same ▸ listed
  · exact hired ▸ List.mem_append_left _ listed

theorem Still.later (still : Still h h') : Later h h' where
  strategy := still.strategy
  rings := Nat.le_of_eq still.rings.symm
  calls := Nat.le_of_eq still.calls.symm
  cursor := Or.inl still.cursor
  token b cancelled := Or.inl (still.token b cancelled)
  ringing ringing := Or.inl (still.owes ringing)
  calling _ calling := Or.inl (still.owes calling)

/-- What is in a list that has become longer was there before, or is what has come. -/
theorem getElem?_concat {α : Type} {l : List α} {a x : α} (there : (l ++ [a])[i]? = some x) :
    l[i]? = some x ∨ a = x := by
  rcases Nat.lt_or_ge i l.length with inside | beyond
  · exact Or.inl (by rwa [List.getElem?_append_left inside] at there)
  · rw [List.getElem?_append_right beyond] at there
    exact Or.inr (List.mem_singleton.mp (List.mem_of_getElem? there)).symm

/-- What is in a list in which something was replaced was there before, or is what has come in its place. -/
theorem getElem?_replaced {α : Type} {l : List α} {a x : α} (there : (l.set i a)[j]? = some x) :
    i ≠ j ∧ l[j]? = some x ∨ i = j ∧ a = x := by
  by_cases same : i = j
  · subst same
    obtain ⟨-, rfl⟩ : i < l.length ∧ a = x := by simpa [List.getElem?_set] using there
    exact Or.inr ⟨rfl, rfl⟩
  · rw [List.getElem?_set_ne same] at there
    exact Or.inl ⟨same, there⟩

theorem Still.here (still : Still h h') (there : h'.hands[i]? = some e) : h.hands[i]? = some e ∨ e = .free := by
  rcases still.hands with same | hired
  · exact Or.inl (same ▸ there)
  · rw [hired] at there
    exact (getElem?_concat there).imp_right Eq.symm

theorem Still.front (still : Still h h') : h'.front = h.front := by
  unfold Hall.front
  rw [still.cursor]
  rcases still.hands with same | hired
  · rw [same]
  · rw [hired]
    cases h.hands <;> rfl

theorem Still.level (still : Still h h') (level : h.Level) : h'.Level where
  produces i e there engaged := by
    have same : h'.sequencer.producers = h.sequencer.producers := by
      rw [Sequencer.producers, Sequencer.producers, still.ledger]
    rcases still.here there with here | rfl
    · have := level.produces i e here engaged
      unfold Produces at this ⊢
      rwa [same]
    · cases engaged
  front c solo := still.front.trans (level.front c (still.ledger ▸ solo))

theorem Still.latched (still : Still h h') (latched : h.Latched) : h'.Latched := by
  intro i e there locks
  rcases still.here there with here | rfl
  · exact still.lock i (latched i e here locks)
  · cases locks

/-! ## All steps -/

/-- All waiters are of the one strategy. -/
def Fitted (h : Hall g) (barriers : List Barrier) : Prop :=
  ∀ barrier ∈ barriers, ∃ owner, barrier.waiter = h.strategy.waiter owner

/-- What holds of a hall at all times. -/
structure Attended (h : Hall g) : Prop where
  parks : h.strategy.parks = true
  fitted : h.Fitted h.barriers
  level : h.Level
  latched : h.Latched
  wary : ∀ i guest, h.guests[i]? = some guest → h.Wary i guest

/-- The guests were wary before, and do not lose the lock to somebody else. -/
def Guarded (h h' : Hall g) : Prop :=
  ∀ i guest, h'.guests[i]? = some guest → h.Wary i guest ∧
    (guest.isLooking = true → h.lock = some (.guest i) → h'.lock = some (.guest i))

theorem Attended.guarded (attended : h.Attended) (guests : h'.guests = h.guests)
    (lock : ∀ i, h.lock = some (.guest i) → h'.lock = some (.guest i)) : Guarded h h' :=
  fun i guest here => ⟨attended.wary i guest (guests ▸ here), fun _ => lock i⟩

theorem Attended.after (attended : h.Attended) (later : Later h h') (fitted : h.Fitted h'.barriers)
    (level : h'.Level) (latched : h'.Latched) (guarded : Guarded h h') : h'.Attended where
  parks := later.strategy ▸ attended.parks
  fitted barrier listed := later.strategy ▸ fitted barrier listed
  level := level
  latched := latched
  wary i guest here := (guarded i guest here).1.later later (guarded i guest here).2

/-- A hand has done something. -/
theorem Attended.handed (attended : h.Attended) (later : Later h h') (level : h'.Level)
    (latched : h'.Latched) (fitted : h.Fitted h'.barriers) (guests : h'.guests = h.guests)
    (lock : ∀ i, h.lock = some (.guest i) → h'.lock = some (.guest i)) : h'.Attended :=
  attended.after later fitted level latched (attended.guarded guests lock)

/-- A hand that owes a ringing afterwards may have moved the cursor and set a token. -/
theorem Attended.indebted {s : Sequencer g} {barriers : List Barrier} (attended : h.Attended)
    (here : h.hands[i]? = some e) (owes : e'.owesRing = true) (unlocked : e'.hasLock = false)
    (level : Level ({ h with sequencer := s, barriers := barriers }.put i e')) (fitted : h.Fitted barriers) :
    Attended ({ h with sequencer := s, barriers := barriers }.put i e') := by
  refine attended.handed (later_of_owing here rfl rfl rfl rfl owes) level ?_ fitted rfl fun _ locked => locked
  refine attended.latched.set here rfl (fun locks => ?_) fun _ _ locked => locked
  cases unlocked.symm.trans locks

theorem Attended.claimed {n : Nat} {hi : Int} {s : Sequencer g} (attended : h.Attended)
    (produces : h.Produces i) (free : h.hands[i]? = some .free) (taken : Sequencer.Taken h.sequencer n hi s) :
    Attended ((h.withSequencer s).put i (.holding (Production.blockTo hi n))) := by
  refine attended.indebted free rfl rfl ?_ attended.fitted
  refine attended.level.put free produces taken.moved.producers fun c d before after => ?_
  cases (taken.moved.solo d before).1.symm.trans after
  rfl

theorem Attended.waited {n : Nat} {claim : Pending} {s : Sequencer g} (attended : h.Attended)
    (produces : h.Produces i) (free : h.hands[i]? = some .free)
    (parked : Sequencer.Parked h.sequencer n claim s) :
    Attended ((h.withSequencer s).put i (.claiming claim n)) := by
  refine attended.indebted free rfl rfl ?_ attended.fitted
  refine attended.level.put free produces parked.producers fun c d before after => ?_
  obtain ⟨ledger, cursor⟩ := parked.solo d before
  cases ledger.symm.trans after
  exact cursor

theorem Attended.resumed {n : Nat} {claim : Pending} {s : Sequencer g} (attended : h.Attended)
    (waits : h.hands[i]? = some (.claiming claim n)) (settled : Sequencer.Settled h.sequencer claim s) :
    Attended ((h.withSequencer s).put i (.holding (Production.blockTo claim.hi n))) := by
  refine attended.indebted waits rfl rfl ?_ attended.fitted
  have produces := attended.level.produces i _ waits rfl
  refine attended.level.put waits produces settled.producers fun c d before after => ?_
  cases (settled.solo d before).symm.trans after
  rfl

theorem Attended.published {block : Block} (attended : h.Attended)
    (holds : h.hands[i]? = some (.holding block)) : Attended (h.put i (.storing block block.lo)) := by
  refine attended.indebted holds rfl rfl ?_ attended.fitted
  have produces := attended.level.produces i _ holds rfl
  exact attended.level.put holds produces rfl fun c d _ after => attended.level.hi_eq holds rfl rfl after

theorem Attended.stored {block : Block} {next : Int} (attended : h.Attended)
    (stores : h.hands[i]? = some (.storing block next)) : (h.stored i block next).Attended := by
  have produces := attended.level.produces i _ stores rfl
  unfold Hall.stored
  rw [alarm, if_pos attended.parks]
  split
  · refine attended.indebted stores rfl rfl ?_ attended.fitted
    refine attended.level.put stores produces rfl fun c _ _ after => ?_
    exact attended.level.hi_eq stores rfl rfl after
  · rename_i laps ledger
    split
    · refine attended.indebted stores rfl rfl ?_ attended.fitted
      refine attended.level.put stores produces ?_ fun c _ _ after => ?_
      · rw [Sequencer.producers_shared ledger]
        rfl
      · cases after
    · refine attended.indebted stores rfl rfl ?_ attended.fitted
      refine attended.level.put stores produces rfl fun c _ _ after => ?_
      cases ledger.symm.trans after

/-- A barrier that is cancelled or armed keeps its waiter. -/
theorem Attended.fitted_set {b : Nat} {barrier changed : Barrier} (attended : h.Attended)
    (there : h.barriers[b]? = some barrier) (same : changed.waiter = barrier.waiter) :
    h.Fitted (h.barriers.set b changed) := by
  intro other listed
  rcases List.mem_or_eq_of_mem_set listed with before | rfl
  · exact attended.fitted other before
  · rw [same]
    exact attended.fitted barrier (List.mem_of_getElem? there)

theorem Attended.cancelled {b : Nat} {barrier : Barrier} (attended : h.Attended)
    (free : h.hands[i]? = some .free) (there : h.barriers[b]? = some barrier) :
    Attended ({ h with barriers := h.barriers.set b barrier.cancel }.put i (h.alarm false)) := by
  rw [alarm, if_pos attended.parks]
  refine attended.indebted free rfl rfl ?_ (attended.fitted_set there rfl)
  exact attended.level.idle free rfl rfl rfl rfl rfl

/-- A hand that rings does so under the lock, and gives it back afterwards. -/
theorem Attended.alarmed {published : Bool} {alarm : Alarm} (attended : h.Attended)
    (wakes : h.hands[i]? = some (.waking published alarm)) (made : h.alarmed i published alarm = some h') :
    h'.Attended := by
  have settled {s : Sequencer g} {e' : Hand} {lock : Option Party} {rings calls : Nat}
      (cursor : s.cursor = h.sequencer.cursor) (ledger : s.ledger = h.sequencer.ledger)
      (idle : e'.isEngaged = false) :
      Level ({ h with sequencer := s, lock := lock, rings := rings, calls := calls }.put i e') :=
    attended.level.idle wakes rfl cursor ledger rfl idle
  cases alarm with
  | knocking =>
      simp only [Hall.alarmed] at made
      split at made
      · rename_i unlocked
        cases made
        have later : Later h ({ h with lock := some (.hand i) }.put i (.waking published .ringing)) :=
          later_of_owing wakes rfl rfl rfl rfl rfl
        refine attended.handed later (settled rfl rfl rfl) ?_ attended.fitted rfl fun j locked => ?_
        · refine attended.latched.set wakes rfl (fun _ => rfl) fun j _ locked => ?_
          cases unlocked.symm.trans locked
        · cases unlocked.symm.trans locked
      · cases made
  | ringing =>
      have locked := attended.latched i _ wakes rfl
      have kept : (if published then h.sequencer.signal else h.sequencer).cursor = h.sequencer.cursor ∧
          (if published then h.sequencer.signal else h.sequencer).ledger = h.sequencer.ledger := by
        split
        · exact ⟨Sequencer.cursor_signal, Sequencer.ledger_signal⟩
        · exact ⟨rfl, rfl⟩
      cases made
      refine attended.handed ?_ (settled kept.1 kept.2 rfl) ?_ attended.fitted rfl fun _ locked => locked
      · exact later_of_waking wakes rfl rfl (Nat.le_succ _) (Nat.le_refl _) kept.1 rfl
          (fun _ => Or.inr ⟨Nat.lt_succ_self _, i, locked⟩) fun _ _ => Or.inl rfl
      · exact attended.latched.set wakes rfl (fun _ => locked) fun _ _ locked => locked
  | leaving =>
      have locked := attended.latched i _ wakes rfl
      have next : Hand.isEngaged (if h.strategy.hasTasks then .waking published .calling else .free) = false ∧
          Hand.hasLock (if h.strategy.hasTasks then .waking published .calling else .free) = false := by
        split <;> exact ⟨rfl, rfl⟩
      cases made
      refine attended.handed ?_ (settled rfl rfl next.1) ?_ attended.fitted rfl fun j elsewhere => ?_
      · refine later_of_waking wakes rfl rfl (Nat.le_refl _) (Nat.le_refl _) rfl rfl (fun owes => ?_) ?_
        · cases owes
        · intro tasks _
          rw [if_pos tasks]
          exact Or.inl rfl
      · refine attended.latched.set wakes rfl (fun locks => ?_) fun j other elsewhere => ?_
        · cases next.2.symm.trans locks
        · cases locked.symm.trans elsewhere
          exact absurd rfl other
      · cases locked.symm.trans elsewhere
  | calling =>
      cases made
      have later : Later h ({ h with calls := h.calls + 1 }.put i .free) :=
        later_of_waking wakes rfl rfl (Nat.le_refl _) (Nat.le_succ _) rfl rfl (fun owes => by cases owes)
          fun _ _ => Or.inr (Nat.lt_succ_self _)
      refine attended.handed later (settled rfl rfl rfl) ?_ attended.fitted rfl fun _ locked => locked
      exact attended.latched.set wakes rfl (fun locks => by cases locks) fun _ _ locked => locked

/-! ### Steps of guests and barriers -/

/-- Somebody who is not a hand has done something. -/
theorem Attended.still (attended : h.Attended) (still : Still h h') (fitted : h.Fitted h'.barriers)
    (guarded : Guarded h h') : h'.Attended :=
  attended.after still.later fitted (still.level attended.level) (still.latched attended.latched) guarded

/-- Barriers, gates or counters have changed, and no token was set. -/
theorem Attended.rearranged {s : Sequencer g} {barriers : List Barrier} (attended : h.Attended)
    (cursor : s.cursor = h.sequencer.cursor) (ledger : s.ledger = h.sequencer.ledger)
    (token : ∀ b, Cancelled { h with sequencer := s, barriers := barriers } b → h.Cancelled b)
    (fitted : h.Fitted barriers) : Attended { h with sequencer := s, barriers := barriers } := by
  have still : Still h { h with sequencer := s, barriers := barriers } :=
    ⟨rfl, Or.inl rfl, cursor, ledger, rfl, rfl, token, fun _ => id⟩
  exact attended.still still fitted (attended.guarded rfl fun _ => id)

/-- A guest has done something, possibly with the lock that it has. -/
theorem Attended.seated {next : Guest} {lock : Option Party} (attended : h.Attended) (own : h.Wary i next)
    (hand : ∀ j, h.lock = some (.hand j) → lock = some (.hand j))
    (others : ∀ j, i ≠ j → h.lock = some (.guest j) → lock = some (.guest j))
    (looking : next.isLooking = true → h.lock = some (.guest i) → lock = some (.guest i)) :
    Attended { h.seat i next with lock := lock } := by
  have still : Still h { h.seat i next with lock := lock } :=
    ⟨rfl, Or.inl rfl, rfl, rfl, rfl, rfl, fun _ => id, hand⟩
  refine attended.still still attended.fitted fun j guest there => ?_
  rcases getElem?_replaced there with ⟨other, here⟩ | ⟨rfl, rfl⟩
  · exact ⟨attended.wary j guest here, fun _ => others j other⟩
  · exact ⟨own, looking⟩

/-- A guest has read something, or registered. -/
theorem Attended.reseated {next : Guest} (attended : h.Attended) (own : h.Wary i next) :
    Attended (h.seat i next) :=
  attended.seated own (fun _ => id) (fun _ _ => id) fun _ => id

theorem Attended.hired (attended : h.Attended) : Attended { h with hands := h.hands ++ [.free] } := by
  have still : Still h { h with hands := h.hands ++ [.free] } :=
    ⟨rfl, Or.inr rfl, rfl, rfl, rfl, rfl, fun _ => id, fun _ => id⟩
  exact attended.still still attended.fitted (attended.guarded rfl fun _ => id)

theorem Attended.fit (attended : h.Attended) (owner : Option String) (front : List CounterId) :
    Attended { h with
      barriers := h.barriers ++ [Barrier.make h.sequencer (h.strategy.waiter owner) front] } := by
  refine attended.rearranged rfl rfl (fun b cancelled => ?_) fun barrier listed => ?_
  · obtain ⟨barrier, listed, set⟩ := cancelled
    rcases getElem?_concat listed with before | rfl
    · exact ⟨barrier, before, set⟩
    · cases set
  · rcases List.mem_append.mp listed with before | made
    · exact attended.fitted barrier before
    · cases List.mem_singleton.mp made
      exact ⟨owner, rfl⟩

theorem Attended.rearmed {b : Nat} {barrier : Barrier} (attended : h.Attended)
    (there : h.barriers[b]? = some barrier) :
    Attended { h with barriers := h.barriers.set b barrier.rearm } := by
  refine attended.rearranged rfl rfl (fun c cancelled => ?_) (attended.fitted_set there rfl)
  obtain ⟨other, listed, set⟩ := cancelled
  rcases getElem?_replaced listed with ⟨-, before⟩ | ⟨-, rfl⟩
  · exact ⟨other, before, set⟩
  · cases set

/-- With one producer the cursor is at the claim position when the first hand is free. -/
theorem Level.cursor_eq (level : h.Level) (produces : h.Produces i) (free : h.hands[i]? = some .free) :
    h.sequencer.cursor = h.sequencer.claimed := by
  cases ledger : h.sequencer.ledger with
  | solo c =>
      obtain rfl := produces.first ledger
      have front := level.front c ledger
      rw [front_of_first free] at front
      rw [Sequencer.claimed_solo ledger]
      exact front
  | shared laps => exact (Sequencer.claimed_shared ledger).symm

/-- A claim that is declined has stored the cursor, but nothing new. -/
theorem Attended.declined (attended : h.Attended) (produces : h.Produces i) (free : h.hands[i]? = some .free) :
    Attended (h.withSequencer (h.sequencer.read true)) :=
  attended.rearranged (attended.level.cursor_eq produces free).symm rfl
    (fun _ cancelled => cancelled) attended.fitted

theorem Attended.arrived {b : Nat} {barrier : Barrier} (attended : h.Attended)
    (there : h.barriers[b]? = some barrier) (side : Side) (target : Int) :
    Attended { h with
      guests := h.guests ++ [⟨b, target, .inl (barrier.waiter.begin side), none, none, none⟩] } := by
  have still : Still h { h with
      guests := h.guests ++ [⟨b, target, .inl (barrier.waiter.begin side), none, none, none⟩] } :=
    ⟨rfl, Or.inl rfl, rfl, rfl, rfl, rfl, fun _ => id, fun _ => id⟩
  refine attended.still still attended.fitted fun i guest here => ⟨?_, fun _ => id⟩
  rcases getElem?_concat here with before | rfl
  · exact attended.wary i guest before
  · obtain ⟨owner, waiter⟩ := attended.fitted barrier (List.mem_of_getElem? there)
    rw [waiter]
    exact wary_begin

theorem Attended.went {phase : Wait.Phase} {o : Observation} (attended : h.Attended)
    (here : h.guests[i]? = some guest) (place : guest.place = .inl phase) (sees : guest.sees o phase = true) :
    (h.gone i guest phase o).Attended := by
  have wary := attended.wary i guest here
  unfold gone
  cases parks : (guest.moved h.rings (phase.step guest.target o)).isParked with
  | false =>
      simp only [parks, Bool.false_eq_true, if_false]
      exact attended.seated (wary.moved place sees) (fun _ => id) (fun _ _ => id) fun _ => id
  | true =>
      obtain ⟨timed, rfl⟩ := looking_of_parked sees parks
      have locked : h.lock = some (.guest i) := ((wary_looking place).mp wary).locked_of_sees sees
      refine attended.seated (wary.moved place sees) (fun j other => ?_) (fun j other elsewhere => ?_) ?_
      · cases locked.symm.trans other
      · cases locked.symm.trans elsewhere
        exact absurd rfl other
      · intro looking
        cases (Guest.isLooking_of_isParked parks).symm.trans looking

/-- The lock is taken, or given back by a guest that is through. -/
theorem Attended.relocked {lock : Option Party} (attended : h.Attended)
    (hand : ∀ j, h.lock = some (.hand j) → lock = some (.hand j))
    (looking : ∀ j guest, h.guests[j]? = some guest → guest.isLooking = true →
      h.lock = some (.guest j) → lock = some (.guest j)) : Attended { h with lock := lock } := by
  have still : Still h { h with lock := lock } := ⟨rfl, Or.inl rfl, rfl, rfl, rfl, rfl, fun _ => id, hand⟩
  exact attended.still still attended.fitted fun i guest here =>
    ⟨attended.wary i guest here, looking i guest here⟩

theorem Attended.entered (attended : h.Attended) (unlocked : h.lock = none) :
    Attended { h with lock := some (.guest i) } := by
  refine attended.relocked (fun j locked => ?_) fun j _ _ _ locked => ?_
  · cases unlocked.symm.trans locked
  · cases unlocked.symm.trans locked

theorem Attended.left (attended : h.Attended) (here : h.guests[i]? = some guest)
    (outside : ∀ timed gate, guest.place ≠ .inl (.gated timed gate)) (locked : h.lock = some (.guest i)) :
    Attended { h with lock := none } := by
  refine attended.relocked (fun j other => ?_) fun j other there looking elsewhere => ?_
  · cases locked.symm.trans other
  · cases locked.symm.trans elsewhere
    cases here.symm.trans there
    unfold Guest.isLooking at looking
    split at looking
    · rename_i place
      exact absurd place (outside _ _)
    · rename_i place
      exact absurd place (outside _ _)
    · cases looking

/-- Every step keeps what holds at all times. -/
theorem Attended.after_change (attended : h.Attended) (change : Change h h') : h'.Attended := by
  cases change with
  | idle => exact attended
  | hired => exact attended.hired
  | fitted owner front => exact attended.fit owner front
  | arrived there side target => exact attended.arrived there side target
  | rearmed there => exact attended.rearmed there
  | drifted cursor ledger => exact attended.rearranged cursor ledger (fun _ => id) attended.fitted
  | claimed produces free taken => exact attended.claimed produces free taken
  | waited produces free parked => exact attended.waited produces free parked
  | declined produces free => exact attended.declined produces free
  | resumed waits settled => exact attended.resumed waits settled
  | published holds => exact attended.published holds
  | stored stores => exact attended.stored stores
  | cancelled free there => exact attended.cancelled free there
  | alarmed wakes made => exact attended.alarmed wakes made
  | registered here listening unheard =>
      exact attended.reseated ((attended.wary _ _ here).registered listening unheard)
  | entered unlocked => exact attended.entered unlocked
  | looked here reads => exact attended.reseated ((attended.wary _ _ here).looked reads)
  | checked here there reads => exact attended.reseated ((attended.wary _ _ here).checked there reads)
  | went here place sees => exact attended.went here place sees
  | left here outside locked => exact attended.left here outside locked

theorem attended_opened {kind : Producers} {strategy : Strategy} (parks : strategy.parks = true) :
    (opened g kind strategy).Attended where
  parks := parks
  fitted barrier listed := by cases listed
  level := by
    refine ⟨fun i e here _ => ?_, fun c solo => ?_⟩
    · cases here
    · cases kind with
      | one =>
          cases solo
          rfl
      | many => cases solo
  latched i e here := by cases here
  wary i guest here := by cases here

/-! ## No waking is lost -/

/-- The guest is parked or suspended, and was not woken since. -/
def Sleeps (h : Hall g) (guest : Guest) : Prop :=
  match guest.place with
  | .inl (.gated _ .parked) => guest.heard = some h.rings
  | .inl (.suspended _) => guest.heard = some h.calls
  | _ => False

theorem Wary.owed (wary : h.Wary i guest) (sleeps : h.Sleeps guest) (due : h.Due guest) : h.Calling := by
  unfold Sleeps at sleeps
  split at sleeps
  case h_1 place =>
    obtain ⟨k, heard, -, owed⟩ := (wary_parked place).mp wary
    cases heard.symm.trans sleeps
    exact (owed rfl due).calling
  case h_2 place =>
    obtain ⟨-, k, heard, -, owed⟩ := (wary_suspended place).mp wary
    cases heard.symm.trans sleeps
    exact owed rfl due
  case h_3 => exact sleeps.elim

/-- Whenever no claim is open and nobody publishes or cancels, nobody is parked or suspended whose sequence the
cursor has reached, or whose barrier is cancelled. -/
theorem no_waking_is_lost {kind : Producers} {strategy : Strategy} (parks : strategy.parks = true)
    (reached : Reaches step (fun _ _ => True) (opened g kind strategy) h)
    (quiet : ∀ e ∈ h.hands, e = .free) :
    ∀ guest ∈ h.guests, h.Sleeps guest → h.sequencer.cursor < guest.target ∧ ¬ h.Cancelled guest.barrier := by
  have attended : h.Attended := reached.invariant (attended_opened parks)
    fun before _ made => before.after_change (change_of_step made)
  intro guest listed sleeps
  obtain ⟨i, here⟩ := List.mem_iff_getElem?.mp listed
  have undue : ¬ h.Due guest := by
    intro due
    obtain ⟨e, engaged, owes⟩ := (attended.wary i guest here).owed sleeps due
    rw [quiet e engaged] at owes
    cases owes
  exact ⟨Int.not_le.mp fun reached => undue (Or.inl reached), fun cancelled => undue (Or.inr cancelled)⟩

/-- A thread waits for the sequence 0 and a task for 2.  Between the look of the thread and its parking a claim
moves the cursor to 0, so the thread parks although the cursor is there.  The publication wakes both, and the
task goes back to sleep. -/
def claimBeforeParking : List Act :=
  [.hire, .fit none [], .arrive 0 .thread 0, .arrive 0 .task 2,
    .look 0, .go 0 ⟨-1, -1, false, false, false⟩, .enter 0, .look 0, .claim 0 1, .check 0,
    .go 0 ⟨-1, -1, false, false, false⟩,
    .register 1, .check 1, .look 1, .go 1 ⟨0, 0, false, false, false⟩,
    .publish 0, .store 0, .store 0, .wake 0, .wake 0, .wake 0, .wake 0,
    .go 1 ⟨0, 0, false, true, false⟩,
    .register 1, .check 1, .look 1, .go 1 ⟨0, 0, false, false, false⟩]

theorem walk_claimBeforeParking :
    ∃ h : Hall ⟨1, by decide⟩,
      walk step (fun _ _ => True) (opened ⟨1, by decide⟩ .many .task) claimBeforeParking = some h ∧
      h.hands = [.free] ∧ h.rings = 1 ∧ h.calls = 1 ∧
      h.guests = [⟨0, 0, .inl (.gated false .parked), none, none, some 0⟩,
        ⟨0, 2, .inl (.suspended false), none, none, some 1⟩] :=
  ⟨_, rfl, rfl, rfl, rfl, rfl⟩

theorem no_waking_is_lost_claim_before_parking :
    ∃ (h : Hall ⟨1, by decide⟩) (thread task : Guest),
      Reaches step (fun _ _ => True) (opened ⟨1, by decide⟩ .many .task) h ∧ (∀ e ∈ h.hands, e = .free) ∧
        h.guests = [thread, task] ∧ thread.isParked = true ∧ thread.heard = some 0 ∧ h.rings = 1 ∧
        h.Sleeps task ∧ h.sequencer.cursor < task.target ∧ ¬ h.Cancelled task.barrier := by
  obtain ⟨h, walked, hands, rings, calls, guests⟩ := walk_claimBeforeParking
  have reached := reaches_of_walk walked
  have quiet : ∀ e ∈ h.hands, e = .free := by
    rw [hands]
    intro e listed
    exact List.mem_singleton.mp listed
  have there : ⟨0, 2, .inl (.suspended false), none, none, some 1⟩ ∈ h.guests := by
    rw [guests]
    exact List.mem_cons_of_mem _ List.mem_cons_self
  have waits : h.Sleeps ⟨0, 2, .inl (.suspended false), none, none, some 1⟩ := congrArg some calls.symm
  have short := no_waking_is_lost rfl reached quiet _ there waits
  exact ⟨h, _, _, reached, quiet, guests, rfl, rfl, rings, waits, short⟩

end Hall

end EventRing
