import EventRing.Barrier
import EventRing.Proofs.Production
/-!
# EventRing.Proofs.Parking

Waiting and waking, in steps as small as others can see.  A `Hall` has `Hand`s, that claim, publish or cancel,
and `Guest`s, that wait at barriers.  They share the cursor, the marks, the tokens of the barriers and the lock
of the gate, and take their steps in any order.

* A publication stores: with one producer the cursor, with many one mark after another.  Then it wakes, and so
  does a cancellation once it has set the token.  Waking is taking the lock, waking those that are parked,
  giving the lock back, and waking the tasks.
* A claim counts as one step, as long as it need not wait: others see the cursor of it, which it moves at once.
  It wakes nobody.
* A waiter goes by the steps of `Wait.Phase`, and reads what it needs for the next one piece by piece.  In the
  gate it first reads the cursor and then the token, both under the lock; parking gives the lock back in the
  same step, and who is woken takes it again.  A task first registers for the wakings to come, and then reads
  the token and the cursor.

Consumers that move their counters, and gates that come and go, have no part in this; they may change at will
(`Act.drift`).  Nor does it matter what a guest finds before it begins to wait, or behind the gate.
-/

namespace EventRing

open Wait (Strategy Side Observation Outcome)

/-! ## State -/

/-- Somebody who can have the lock of the gate. -/
inductive Party where
  | hand (i : Nat)
  | guest (i : Nat)
  deriving DecidableEq

/-- How far somebody has come with waking the others. -/
inductive Alarm where
  /-- About to take the lock. -/
  | knocking
  /-- About to wake those that are parked. -/
  | ringing
  /-- About to give the lock back. -/
  | leaving
  /-- About to wake the tasks. -/
  | calling
  deriving DecidableEq

/-- What somebody is doing who claims, publishes or cancels. -/
inductive Hand where
  | free
  /-- Waiting for the slots of a claim of `n` sequences. -/
  | claiming (claim : Pending) (n : Nat)
  /-- Holding an open claim. -/
  | holding (block : Block)
  /-- Publishing; what is before `next` is stored. -/
  | storing (block : Block) (next : Int)
  /-- Waking, for a publication or for a cancellation. -/
  | waking (published : Bool) (alarm : Alarm)
  deriving DecidableEq

/-- A waiter. -/
structure Guest where
  barrier : Nat
  target : Int
  place : Wait.Phase ⊕ Outcome
  /-- The cursor, if it was read for the next step. -/
  cursor : Option Int := none
  /-- The token, if it was read for the next step. -/
  cancelled : Option Bool := none
  /-- How often those that are parked, or the tasks, were woken before it parked or registered. -/
  heard : Option Nat := none
  deriving DecidableEq

/-- A ring with everybody who wakes and waits. -/
structure Hall (g : Geometry) where
  strategy : Strategy
  sequencer : Sequencer g
  barriers : List Barrier := []
  hands : List Hand := []
  guests : List Guest := []
  lock : Option Party := none
  /-- How often those that are parked were woken. -/
  rings : Nat := 0
  /-- How often the tasks were woken. -/
  calls : Nat := 0

/-- Tasks may wait, and not only threads. -/
def Wait.Strategy.hasTasks : Strategy → Bool
  | .task | .timeoutTask _ => true
  | _ => false

/-! ## What guests read -/

namespace Guest

/-- The guest reads the cursor next: before the gate, in the gate under the lock, or registered and armed. -/
def readsCursor (guest : Guest) (inside : Bool) : Bool :=
  match guest.place with
  | .inl (.arriving _) => true
  | .inl (.gated _ .looking) | .inl (.gated _ .lastLook) => inside
  | .inl (.listening _) => guest.heard.isSome && guest.cancelled == some false
  | _ => false

/-- The guest reads the token next: in the gate if the cursor was short, or registered. -/
def readsToken (guest : Guest) (inside : Bool) : Bool :=
  match guest.place with
  | .inl (.gated _ .looking) => inside && guest.cursor.any (· < guest.target)
  | .inl (.listening _) => guest.heard.isSome
  | _ => false

/-- The guest has read nothing for the next step. -/
def Fresh (guest : Guest) : Prop := guest.cursor = none ∧ guest.cancelled = none

/-- The guest has read what a step of its phase goes by.  One that is parked or suspended takes no step before
it is woken, for whatever reason, or its deadline passes. -/
def sees (guest : Guest) (o : Observation) : Wait.Phase → Bool
  | .arriving _ | .gated _ .lastLook => guest.cursor == some o.cursor
  | .gated _ .looking =>
    guest.cursor == some o.cursor && (guest.target ≤ o.cursor || guest.cancelled == some o.cancelled)
  | .listening _ => guest.cancelled == some o.cancelled && (o.cancelled || guest.cursor == some o.cursor)
  | .gated timed .parked | .suspended timed => o.woken || timed && o.expired
  | _ => true

/-- The guest at another place; what it read for the last step it reads anew. -/
def moved (guest : Guest) (rings : Nat) (place : Wait.Phase ⊕ Outcome) : Guest :=
  { guest with
    place := place
    cursor := none
    cancelled := none
    heard := match place with
      | .inl (.gated _ .parked) => some rings
      | .inl (.suspended _) => guest.heard
      | _ => none }

/-- The guest is parked, or about to be woken. -/
def isParked (guest : Guest) : Bool :=
  match guest.place with
  | .inl (.gated _ .parked) => true
  | _ => false

/-- The guest is about to look in the gate. -/
def isLooking (guest : Guest) : Bool :=
  match guest.place with
  | .inl (.gated _ .looking) | .inl (.gated _ .lastLook) => true
  | _ => false

/-- The guest is a task that is about to look. -/
def isListening (guest : Guest) : Bool :=
  match guest.place with
  | .inl (.listening _) => true
  | _ => false

theorem isLooking_of_isParked {guest : Guest} (parked : guest.isParked = true) : guest.isLooking = false := by
  unfold isParked at parked
  split at parked
  · rename_i place
    rw [isLooking, place]
  · cases parked

end Guest

namespace Hall

variable {g : Geometry}

/-! ## Steps -/

/-- A hall that nobody has come to yet. -/
def opened (g : Geometry) (kind : Producers) (strategy : Strategy) : Hall g where
  strategy := strategy
  sequencer := Sequencer.fresh g kind strategy.parks

/-- What can happen; hands, guests and barriers are named by the order they came in. -/
inductive Act where
  /-- One more comes who claims, publishes or cancels. -/
  | hire
  /-- Make a barrier. -/
  | fit (owner : Option String) (front : List CounterId)
  /-- Begin to wait at a barrier. -/
  | arrive (b : Nat) (side : Side) (target : Int)
  /-- Arm a barrier again. -/
  | rearm (b : Nat)
  /-- Gates and counters change, and what is remembered of them. -/
  | drift (gates : List CounterId) (counters : Counters) (cachedGate : Int)
  /-- Claim `n` sequences, or begin to wait for them. -/
  | claim (i n : Nat)
  /-- Claim `n` sequences if that needs no waiting. -/
  | tryClaim (i n : Nat)
  /-- Look at the gates again for the claim that a hand waits for. -/
  | retry (i : Nat)
  /-- Begin to publish an open claim. -/
  | publish (i : Nat)
  /-- Store the next that is to be published. -/
  | store (i : Nat)
  /-- Set the token of a barrier. -/
  | cancel (i b : Nat)
  /-- Go on waking. -/
  | wake (i : Nat)
  /-- A task registers for the wakings to come. -/
  | register (i : Nat)
  /-- A guest takes the lock. -/
  | enter (i : Nat)
  /-- A guest reads the cursor. -/
  | look (i : Nat)
  /-- A guest reads the token. -/
  | check (i : Nat)
  /-- A guest goes by what it read. -/
  | go (i : Nat) (o : Observation)
  /-- A guest that is through gives the lock back. -/
  | leave (i : Nat)

/-- A ring for one producer has one publisher, which the first hand has. -/
def Produces (h : Hall g) (i : Nat) : Prop := h.sequencer.producers = .many ∨ i = 0

instance (h : Hall g) (i : Nat) : Decidable (h.Produces i) := inferInstanceAs (Decidable (_ ∨ _))

/-- A hand does something else. -/
def put (h : Hall g) (i : Nat) (e : Hand) : Hall g := { h with hands := h.hands.set i e }

/-- A guest is somewhere else, or has read something. -/
def seat (h : Hall g) (i : Nat) (guest : Guest) : Hall g := { h with guests := h.guests.set i guest }

def withSequencer (h : Hall g) (s : Sequencer g) : Hall g := { h with sequencer := s }

/-- What follows on a publication or a cancellation: waking, if there can be anybody to wake. -/
def alarm (h : Hall g) (published : Bool) : Hand :=
  if h.strategy.parks then .waking published .knocking else .free

/-- A hand goes on with what became of its claim of `n` sequences. -/
def engage (h : Hall g) (i n : Nat) : Grant → Option (Hall g)
  | .granted hi =>
    match Block.upTo hi n with
    | .ok block => some (h.put i (.holding block))
    | .error _ => none
  | .waiting claim _ => some (h.put i (.claiming claim n))

/-- A hand that publishes stores the cursor, or the next mark. -/
def stored (h : Hall g) (i : Nat) (block : Block) (next : Int) : Hall g :=
  match h.sequencer.ledger with
  | .solo _ => (h.withSequencer { h.sequencer with cursor := block.hi }).put i (h.alarm true)
  | .shared laps =>
    if next ≤ block.hi then
      (h.withSequencer { h.sequencer with ledger := .shared (Sequencer.mark laps next) }).put i
        (.storing block (next + 1))
    else
      h.put i (h.alarm true)

/-- A hand goes on waking; the lock is to be had only if nobody else has it. -/
def alarmed (h : Hall g) (i : Nat) (published : Bool) : Alarm → Option (Hall g)
  | .knocking =>
    if h.lock = none then some ({ h with lock := some (.hand i) }.put i (.waking published .ringing)) else none
  | .ringing =>
    let sequencer := if published then h.sequencer.signal else h.sequencer
    some ({ h with rings := h.rings + 1, sequencer := sequencer }.put i (.waking published .leaving))
  | .leaving =>
    let next := if h.strategy.hasTasks then .waking published .calling else .free
    some ({ h with lock := none }.put i next)
  | .calling => some ({ h with calls := h.calls + 1 }.put i .free)

/-- A guest goes by what it read.  If it parks, it gives the lock back. -/
def gone (h : Hall g) (i : Nat) (guest : Guest) (phase : Wait.Phase) (o : Observation) : Hall g :=
  let next := guest.moved h.rings (phase.step guest.target o)
  { h.seat i next with lock := if next.isParked then none else h.lock }

/-- One act; nothing if it cannot be done or breaks off. -/
@[grind =]
def step (h : Hall g) : Act → Option (Hall g)
  | .hire => some { h with hands := h.hands ++ [.free] }
  | .fit owner front =>
    some { h with barriers := h.barriers ++ [Barrier.make h.sequencer (h.strategy.waiter owner) front] }
  | .arrive b side target =>
    match h.barriers[b]? with
    | some barrier =>
      some { h with guests := h.guests ++ [⟨b, target, .inl (barrier.waiter.begin side), none, none, none⟩] }
    | none => none
  | .rearm b =>
    match h.barriers[b]? with
    | some barrier => some { h with barriers := h.barriers.set b barrier.rearm }
    | none => none
  | .drift gates counters cachedGate =>
    some (h.withSequencer
      { h.sequencer with gates := gates, counters := counters, cachedGate := cachedGate })
  | .claim i n =>
    if h.Produces i ∧ h.hands[i]? = some .free then
      match Sequencer.claim n h.sequencer with
      | .ok (.ok grant) s => (h.withSequencer s).engage i n grant
      | .ok (.error _) _ => some h
      | .error .. => none
    else none
  | .tryClaim i n =>
    if h.Produces i ∧ h.hands[i]? = some .free then
      match Sequencer.tryClaim n h.sequencer with
      | .ok (some hi) s => (h.withSequencer s).engage i n (.granted hi)
      | .ok none s => some (h.withSequencer s)
      | .error .. => none
    else none
  | .retry i =>
    match h.hands[i]? with
    | some (.claiming claim n) =>
      match Sequencer.settle claim h.sequencer with
      | .ok grant s => (h.withSequencer s).engage i n grant
      | .error .. => none
    | _ => none
  | .publish i =>
    match h.hands[i]? with
    | some (.holding block) => some (h.put i (.storing block block.lo))
    | _ => none
  | .store i =>
    match h.hands[i]? with
    | some (.storing block next) => some (h.stored i block next)
    | _ => none
  | .cancel i b =>
    match h.hands[i]?, h.barriers[b]? with
    | some .free, some barrier =>
      some ({ h with barriers := h.barriers.set b barrier.cancel }.put i (h.alarm false))
    | _, _ => none
  | .wake i =>
    match h.hands[i]? with
    | some (.waking published alarm) => h.alarmed i published alarm
    | _ => none
  | .register i =>
    match h.guests[i]? with
    | some guest =>
      if guest.isListening && guest.heard.isNone then some (h.seat i { guest with heard := some h.calls })
      else none
    | none => none
  | .enter i =>
    match h.guests[i]? with
    | some guest =>
      if guest.isLooking ∧ guest.cursor = none ∧ h.lock = none then some { h with lock := some (.guest i) }
      else none
    | none => none
  | .look i =>
    match h.guests[i]? with
    | some guest =>
      if guest.readsCursor (h.lock == some (.guest i)) && guest.cursor.isNone then
        some (h.seat i { guest with cursor := some h.sequencer.cursor })
      else none
    | none => none
  | .check i =>
    match h.guests[i]? with
    | some guest =>
      match h.barriers[guest.barrier]? with
      | some barrier =>
        if guest.readsToken (h.lock == some (.guest i)) && guest.cancelled.isNone then
          some (h.seat i { guest with cancelled := some barrier.cancelled })
        else none
      | none => none
    | none => none
  | .go i o =>
    match h.guests[i]? with
    | some guest =>
      match guest.place with
      | .inl phase => if guest.sees o phase then some (h.gone i guest phase o) else none
      | .inr _ => none
    | none => none
  | .leave i =>
    match h.guests[i]? with
    | some guest =>
      match guest.place with
      | .inl (.gated ..) => none
      | _ => if h.lock = some (.guest i) then some { h with lock := none } else none
    | none => none

/-! ## What an act can do -/

/-- What an act can do. -/
inductive Change (h : Hall g) : Hall g → Prop where
  | idle : Change h h
  | hired : Change h { h with hands := h.hands ++ [.free] }
  | fitted (owner : Option String) (front : List CounterId) :
      Change h { h with barriers := h.barriers ++ [Barrier.make h.sequencer (h.strategy.waiter owner) front] }
  | arrived {b : Nat} {barrier : Barrier} (there : h.barriers[b]? = some barrier) (side : Side) (target : Int) :
      Change h { h with
        guests := h.guests ++ [⟨b, target, .inl (barrier.waiter.begin side), none, none, none⟩] }
  | rearmed {b : Nat} {barrier : Barrier} (there : h.barriers[b]? = some barrier) :
      Change h { h with barriers := h.barriers.set b barrier.rearm }
  | drifted {s : Sequencer g} (cursor : s.cursor = h.sequencer.cursor) (ledger : s.ledger = h.sequencer.ledger) :
      Change h (h.withSequencer s)
  | claimed {i n : Nat} {hi : Int} {s : Sequencer g} (produces : h.Produces i)
      (free : h.hands[i]? = some .free) (taken : Sequencer.Taken h.sequencer n hi s) :
      Change h ((h.withSequencer s).put i (.holding (Production.blockTo hi n)))
  | waited {i n : Nat} {claim : Pending} {s : Sequencer g} (produces : h.Produces i)
      (free : h.hands[i]? = some .free) (parked : Sequencer.Parked h.sequencer n claim s) :
      Change h ((h.withSequencer s).put i (.claiming claim n))
  | declined {i : Nat} (produces : h.Produces i) (free : h.hands[i]? = some .free) :
      Change h (h.withSequencer (h.sequencer.read true))
  | resumed {i n : Nat} {claim : Pending} {s : Sequencer g} (waits : h.hands[i]? = some (.claiming claim n))
      (settled : Sequencer.Settled h.sequencer claim s) :
      Change h ((h.withSequencer s).put i (.holding (Production.blockTo claim.hi n)))
  | published {i : Nat} {block : Block} (holds : h.hands[i]? = some (.holding block)) :
      Change h (h.put i (.storing block block.lo))
  | stored {i : Nat} {block : Block} {next : Int} (stores : h.hands[i]? = some (.storing block next)) :
      Change h (h.stored i block next)
  | cancelled {i b : Nat} {barrier : Barrier} (free : h.hands[i]? = some .free)
      (there : h.barriers[b]? = some barrier) :
      Change h ({ h with barriers := h.barriers.set b barrier.cancel }.put i (h.alarm false))
  | alarmed {i : Nat} {published : Bool} {alarm : Alarm} {h' : Hall g}
      (wakes : h.hands[i]? = some (.waking published alarm)) (made : h.alarmed i published alarm = some h') :
      Change h h'
  | registered {i : Nat} {guest : Guest} (here : h.guests[i]? = some guest)
      (listening : guest.isListening = true) (unheard : guest.heard = none) :
      Change h (h.seat i { guest with heard := some h.calls })
  | entered {i : Nat} (unlocked : h.lock = none) : Change h { h with lock := some (.guest i) }
  | looked {i : Nat} {guest : Guest} (here : h.guests[i]? = some guest)
      (reads : guest.readsCursor (h.lock == some (.guest i)) = true) :
      Change h (h.seat i { guest with cursor := some h.sequencer.cursor })
  | checked {i : Nat} {guest : Guest} {barrier : Barrier} (here : h.guests[i]? = some guest)
      (there : h.barriers[guest.barrier]? = some barrier)
      (reads : guest.readsToken (h.lock == some (.guest i)) = true) :
      Change h (h.seat i { guest with cancelled := some barrier.cancelled })
  | went {i : Nat} {guest : Guest} {phase : Wait.Phase} {o : Observation} (here : h.guests[i]? = some guest)
      (place : guest.place = .inl phase) (sees : guest.sees o phase = true) :
      Change h (h.gone i guest phase o)
  | left {i : Nat} {guest : Guest} (here : h.guests[i]? = some guest)
      (outside : ∀ timed gate, guest.place ≠ .inl (.gated timed gate)) (locked : h.lock = some (.guest i)) :
      Change h { h with lock := none }

variable {h h' : Hall g} {act : Act} {i n : Nat}

theorem engage_granted {hi : Int} (made : h.engage i n (.granted hi) = some h') :
    h' = h.put i (.holding (Production.blockTo hi n)) := by
  unfold engage at made
  cases upTo : Block.upTo hi n with
  | error f => simp [upTo] at made
  | ok block =>
      obtain ⟨-, -, rfl⟩ := Production.upTo_eq_ok_iff.mp upTo
      simp only [upTo] at made
      exact (Option.some.inj made).symm

/-- A hand that does what it did changes nothing. -/
theorem put_same {e : Hand} (here : h.hands[i]? = some e) : h.put i e = h := by
  obtain ⟨inside, rfl⟩ := List.getElem?_eq_some_iff.mp here
  unfold put
  rw [List.set_getElem_self]

theorem change_of_claim (made : h.step (.claim i n) = some h') : Change h h' := by
  simp only [step] at made
  by_cases able : h.Produces i ∧ h.hands[i]? = some .free
  · rw [if_pos able] at made
    split at made
    · rename_i grant s claims
      cases grant with
      | granted hi =>
          rw [engage_granted made]
          exact Change.claimed able.1 able.2 (Sequencer.claim_granted claims)
      | waiting claim slowest =>
          cases made
          exact Change.waited able.1 able.2 (Sequencer.claim_waiting claims)
    · cases made
      exact Change.idle
    · cases made
  · rw [if_neg able] at made
    cases made

theorem change_of_tryClaim (made : h.step (.tryClaim i n) = some h') : Change h h' := by
  simp only [step] at made
  by_cases able : h.Produces i ∧ h.hands[i]? = some .free
  · rw [if_pos able] at made
    split at made
    · rename_i hi s claims
      rw [engage_granted made]
      exact Change.claimed able.1 able.2 (Sequencer.tryClaim_some claims)
    · rename_i s declines
      cases made
      rcases Sequencer.tryClaim_none declines with rfl | rfl
      · exact Change.idle
      · exact Change.declined able.1 able.2
    · cases made
  · rw [if_neg able] at made
    cases made

theorem change_of_retry (made : h.step (.retry i) = some h') : Change h h' := by
  simp only [step] at made
  split at made
  · rename_i claim n waits
    split at made
    · rename_i grant s settles
      cases grant with
      | granted hi =>
          obtain ⟨rfl, settled⟩ := Sequencer.settle_granted settles
          rw [engage_granted made]
          exact Change.resumed waits settled
      | waiting again slowest =>
          obtain ⟨rfl, rfl⟩ := Sequencer.settle_waiting settles
          cases made
          have same : (h.withSequencer h.sequencer).put i (.claiming again n) = h := put_same waits
          rw [same]
          exact Change.idle
    · cases made
  · cases made

theorem change_of_cancel {b : Nat} (made : h.step (.cancel i b) = some h') : Change h h' := by
  simp only [step] at made
  split at made
  · rename_i barrier free there
    cases made
    exact Change.cancelled free there
  · cases made

theorem change_of_look (made : h.step (.look i) = some h') : Change h h' := by
  simp only [step] at made
  split at made
  · rename_i guest here
    split at made
    · rename_i able
      cases made
      exact Change.looked here (Bool.and_eq_true_iff.mp able).1
    · cases made
  · cases made

theorem change_of_check (made : h.step (.check i) = some h') : Change h h' := by
  simp only [step] at made
  split at made
  · rename_i guest here
    split at made
    · rename_i barrier there
      split at made
      · rename_i able
        cases made
        exact Change.checked here there (Bool.and_eq_true_iff.mp able).1
      · cases made
    · cases made
  · cases made

theorem change_of_go {o : Observation} (made : h.step (.go i o) = some h') : Change h h' := by
  simp only [step] at made
  split at made
  · rename_i guest here
    split at made
    · rename_i phase place
      split at made
      · rename_i sees
        cases made
        exact Change.went here place sees
      · cases made
    · cases made
  · cases made

theorem change_of_leave (made : h.step (.leave i) = some h') : Change h h' := by
  simp only [step] at made
  split at made
  · rename_i guest here
    split at made
    · cases made
    · rename_i outside
      split at made
      · rename_i locked
        cases made
        exact Change.left here outside locked
      · cases made
  · cases made

/-- Every step is one of the changes. -/
theorem change_of_step (made : h.step act = some h') : Change h h' := by
  cases act with
  | hire =>
      cases made
      exact Change.hired
  | fit owner front =>
      cases made
      exact Change.fitted owner front
  | arrive b side target =>
      simp only [step] at made
      split at made
      · rename_i barrier there
        cases made
        exact Change.arrived there side target
      · cases made
  | rearm b =>
      simp only [step] at made
      split at made
      · rename_i barrier there
        cases made
        exact Change.rearmed there
      · cases made
  | drift gates counters cachedGate =>
      cases made
      exact Change.drifted rfl rfl
  | claim i n => exact change_of_claim made
  | tryClaim i n => exact change_of_tryClaim made
  | retry i => exact change_of_retry made
  | publish i =>
      simp only [step] at made
      split at made
      · rename_i block holds
        cases made
        exact Change.published holds
      · cases made
  | store i =>
      simp only [step] at made
      split at made
      · rename_i block next stores
        cases made
        exact Change.stored stores
      · cases made
  | cancel i b => exact change_of_cancel made
  | wake i =>
      simp only [step] at made
      split at made
      · rename_i published alarm wakes
        exact Change.alarmed wakes made
      · cases made
  | register i =>
      simp only [step] at made
      split at made
      · rename_i guest here
        split at made
        · rename_i able
          obtain ⟨listening, unheard⟩ := Bool.and_eq_true_iff.mp able
          cases made
          exact Change.registered here listening (Option.isNone_iff_eq_none.mp unheard)
        · cases made
      · cases made
  | enter i =>
      simp only [step] at made
      split at made
      · split at made
        · rename_i able
          cases made
          exact Change.entered able.2.2
        · cases made
      · cases made
  | look i => exact change_of_look made
  | check i => exact change_of_check made
  | go i o => exact change_of_go made
  | leave i => exact change_of_leave made

/-! ## A publication that nobody disturbs

The stores and the waking of a publication add up to what a publication does as a whole. -/

section Undisturbed

variable {e e' : Hand} {block : Block} {next : Int} {laps : Vector Int32 g.size} {s : Sequencer g}

theorem hands_put (here : h.hands[i]? = some e) : (h.put i e').hands[i]? = some e' := by
  obtain ⟨inside, -⟩ := List.getElem?_eq_some_iff.mp here
  exact List.getElem?_set_self inside

theorem put_put : (h.put i e).put i e' = h.put i e' := by
  unfold put
  rw [List.set_set]

/-- Other marks, everything else the same. -/
def withLaps (h : Hall g) (laps : Vector Int32 g.size) : Hall g :=
  h.withSequencer { h.sequencer with ledger := .shared laps }

theorem withLaps_self (shared : h.sequencer.ledger = .shared laps) : h.withLaps laps = h := by
  unfold withLaps
  rw [← shared]
  rfl

theorem withLaps_put {marks : Vector Int32 g.size} :
    (((h.withLaps laps).put i e).withLaps marks).put i e' = (h.withLaps marks).put i e' := by
  simp only [withLaps, withSequencer, put, List.set_set]

theorem step_store_shared (stores : h.hands[i]? = some (.storing block next))
    (shared : h.sequencer.ledger = .shared laps) (within : next ≤ block.hi) :
    h.step (.store i) = some ((h.withLaps (Sequencer.mark laps next)).put i (.storing block (next + 1))) := by
  simp only [step, stores, stored, shared, if_pos within]
  rfl

/-- The last store of a publication by one of many producers finds nothing more to mark. -/
theorem step_store_beyond (stores : h.hands[i]? = some (.storing block next))
    (shared : h.sequencer.ledger = .shared laps) (beyond : block.hi < next) (parks : h.strategy.parks = true) :
    h.step (.store i) = some (h.put i (.waking true .knocking)) := by
  simp only [step, stores, stored, shared, if_neg (Int.not_le.mpr beyond), alarm, if_pos parks]

/-- After `count` stores of a publication by one of many producers, as many sequences are marked. -/
theorem reaches_marked {count : Nat} (stores : h.hands[i]? = some (.storing block block.lo))
    (shared : h.sequencer.ledger = .shared laps) (within : block.lo + count ≤ block.hi + 1) :
    Reaches step (fun _ _ => True) h
      ((h.withLaps (Sequencer.markRun laps block.lo count)).put i (.storing block (block.lo + count))) := by
  induction count with
  | zero =>
      rw [Sequencer.markRun_zero, withLaps_self shared, Int.natCast_zero, Int.add_zero, put_same stores]
      exact Reaches.start
  | succ count ih =>
      have here : ((h.withLaps (Sequencer.markRun laps block.lo count)).put i
          (.storing block (block.lo + count))).hands[i]? = some (.storing block (block.lo + count)) :=
        hands_put stores
      have made := step_store_shared here rfl (by omega)
      rw [withLaps_put] at made
      rw [Sequencer.markRun_succ, Int.natCast_succ, ← Int.add_assoc]
      exact (ih (by omega)).next made trivial

/-- How a hand goes on waking does not depend on what it did before. -/
theorem step_wake_put {published : Bool} {alarm : Alarm} (inside : i < h.hands.length) :
    (h.put i (.waking published alarm)).step (.wake i) = h.alarmed i published alarm := by
  have here : (h.put i (.waking published alarm)).hands[i]? = some (.waking published alarm) :=
    List.getElem?_set_self inside
  simp only [step, here]
  cases alarm with
  | leaving =>
      simp only [alarmed, put, List.set_set]
      rfl
  | _ => simp only [alarmed, put, List.set_set]

/-- The waking that follows on a publication or a cancellation, while the lock is free. -/
theorem reaches_woken {published : Bool} (wakes : h.hands[i]? = some (.waking published .knocking))
    (unlocked : h.lock = none) :
    Reaches step (fun _ _ => True) h ({ h with
      sequencer := if published then h.sequencer.signal else h.sequencer
      rings := h.rings + 1
      calls := if h.strategy.hasTasks then h.calls + 1 else h.calls
      lock := none }.put i .free) := by
  obtain ⟨inside, -⟩ := List.getElem?_eq_some_iff.mp wakes
  let locked : Hall g := { h with lock := some (.hand i) }
  let rung : Hall g := { h with
    sequencer := if published then h.sequencer.signal else h.sequencer
    rings := h.rings + 1
    lock := some (.hand i) }
  have knock : h.step (.wake i) = some (locked.put i (.waking published .ringing)) := by
    simp only [step, wakes, alarmed, if_pos unlocked]
    rfl
  have ring : (locked.put i (.waking published .ringing)).step (.wake i) =
      some (rung.put i (.waking published .leaving)) := step_wake_put inside
  have leave : (rung.put i (.waking published .leaving)).step (.wake i) =
      some ({ rung with lock := none }.put i
        (if h.strategy.hasTasks then .waking published .calling else .free)) := step_wake_put inside
  have left : Reaches step (fun _ _ => True) h _ :=
    ((Reaches.start.next knock trivial).next ring trivial).next leave trivial
  cases tasks : h.strategy.hasTasks with
  | false =>
      rw [tasks] at left
      exact left
  | true =>
      rw [tasks] at left
      exact left.next (step_wake_put inside) trivial

theorem step_publish (holds : h.hands[i]? = some (.holding block)) :
    h.step (.publish i) = some (h.put i (.storing block block.lo)) := by
  grind

/-- The stores of a publication, after which it is left to signal. -/
theorem reaches_stored (parks : h.strategy.parks = true) (stores : h.hands[i]? = some (.storing block block.lo))
    (made : Sequencer.publishRange block.lo block.hi h.sequencer = .ok () s) :
    ∃ t, s = t.signal ∧
      Reaches step (fun _ _ => True) h ((h.withSequencer t).put i (.waking true .knocking)) := by
  have upright : block.lo ≤ block.hi := (Sequencer.publishRange_eq_ok made).1
  unfold Sequencer.publishRange at made
  rw [if_neg (Int.not_lt.mpr upright)] at made
  cases ledger : h.sequencer.ledger with
  | solo c =>
      refine ⟨{ h.sequencer with cursor := block.hi }, ?_, ?_⟩
      · cases made
        simp only [ledger]
      · have store : h.step (.store i) = some ((h.withSequencer { h.sequencer with cursor := block.hi }).put i
            (.waking true .knocking)) := by
          simp only [step, stores, stored, ledger, alarm, withSequencer, if_pos parks]
        exact Reaches.start.next store trivial
  | shared laps =>
      let marks := Sequencer.markRun laps block.lo (Sequencer.runLength block.lo block.hi)
      refine ⟨{ h.sequencer with ledger := .shared marks }, ?_, ?_⟩
      · cases made
        simp only [ledger]
        rfl
      · have last : block.lo + (Sequencer.runLength block.lo block.hi : Int) = block.hi + 1 := by
          unfold Sequencer.runLength
          omega
        have marked := reaches_marked stores ledger (Int.le_of_eq last)
        rw [last] at marked
        have store := step_store_beyond (h := (h.withLaps marks).put i (.storing block (block.hi + 1)))
          (hands_put stores) rfl (Int.lt_succ block.hi) parks
        rw [put_put] at store
        exact marked.next store trivial

/-- A publication that nobody disturbs comes to what `Sequencer.publishRange` does, and gives the lock back. -/
theorem reaches_published (parks : h.strategy.parks = true) (holds : h.hands[i]? = some (.holding block))
    (unlocked : h.lock = none) (made : Sequencer.publishRange block.lo block.hi h.sequencer = .ok () s) :
    ∃ h', Reaches step (fun _ _ => True) h h' ∧ h'.sequencer = s ∧ h'.hands = h.hands.set i .free ∧
      h'.lock = none ∧ h'.rings = h.rings + 1 := by
  have begun : Reaches step (fun _ _ => True) h _ := Reaches.start.next (step_publish holds) trivial
  obtain ⟨t, rfl, stored⟩ :=
    reaches_stored (h := h.put i (.storing block block.lo)) parks (hands_put holds) made
  have wakes : (((h.put i (.storing block block.lo)).withSequencer t).put i
      (.waking true .knocking)).hands[i]? = some (.waking true .knocking) := by
    simp only [put, withSequencer, List.set_set]
    exact hands_put holds
  refine ⟨_, (begun.trans stored).trans (reaches_woken wakes unlocked), rfl, ?_, rfl, rfl⟩
  simp only [put, withSequencer, List.set_set]

end Undisturbed

end Hall

end EventRing
