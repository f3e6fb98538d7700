import EventRing.Poller
import EventRing.Barrier
import EventRing.Processor.Turn
import EventRing.Proofs.Books
/-!
# EventRing.Proofs.Pipeline

Producers and consumers on one ring, taking steps in any order.  A consumer is a poller, or a worker
that runs a processor at a barrier.  It stands behind consumers that were there before it, so the
wiring has no cycles, and it is alone in storing its own counter, apart from the gates.

A step of a consumer is as small as what it reads together: one look at what is in front of it, one
scan for the end of the published run, one event, one store.  Between any two of them everybody else
may go on.  What is outside of the ring answers at will: handlers, policies, and whoever halts a
processor (`Surroundings`).

`Consumer.step` says what a consumer does to itself, which events it is handed and what it stores;
`Consumer.handed` keeps the events for the sake of statements.
-/

namespace EventRing

open Processor (Plan Request Phase)

/-! ## Pollers -/

/-- Where a poll stands. -/
inductive Polled where
  | resting
  /-- At most `left` events are still to be handed over. -/
  | handing (polling : Polling) (left : Nat)
  /-- About to store its progress. -/
  | storing (accepted : Int)

/-! ## Workers -/

/-- A processor at its barrier. -/
structure Worker (g : Geometry) where
  plan : Plan g
  barrier : Barrier
  phase : Phase := .beginning
  /-- The wait on its way: where the waiter stands, or what it found and has not cut yet. -/
  wait : Option (Wait.Phase ⊕ Wait.Outcome) := none
  /-- How many events of the run in hand were read. -/
  read : Nat := 0

/-- What handlers, policies and callers answer when they are asked next. -/
structure Surroundings where
  admission : Except RingError RunMode := .ok .run
  failure : Option Failure := none
  active : Bool := true

/-- What comes of a step of a consumer. -/
structure Done (α : Type) where
  after : α
  /-- The sequences of the events that were handed over. -/
  hands : List Int := []
  /-- The progress that was stored. -/
  stores : Option Int := none

namespace Worker

variable {g : Geometry}

/-- Whether a processor waits as a thread or as a task. -/
def side (w : Worker g) : Wait.Side :=
  match w.plan.kind with
  | .task => .task
  | .event | .batch => .thread

/-- Comes to the barrier. -/
def enter (w : Worker g) (s : Sequencer g) : Option (Worker g) :=
  match w.plan.turn w.phase, w.wait with
  | .ask (.await next) _, none => some { w with wait := some (w.barrier.enter w.side next s) }
  | _, _ => none

/-- Looks once while it waits. -/
def watch (w : Worker g) (s : Sequencer g) (woken expired : Bool) : Option (Worker g) :=
  match w.plan.turn w.phase, w.wait with
  | .ask (.await next) _, some (.inl phase) =>
    let sight := { w.barrier.observe s with woken := woken, expired := expired }
    some { w with wait := some (phase.step next sight) }
  | _, _ => none

/-- Reads the next event of the run in hand. -/
def readOn (w : Worker g) : Option (Done (Worker g)) :=
  match w.plan.turn w.phase with
  | .ask (.batch first last) _ =>
    if w.read < Sequencer.runLength first last then
      some { after := { w with read := w.read + 1 }, hands := [first + w.read] }
    else none
  | _ => none

/-- Takes a turn.  A wait is over once its outcome is cut, a run of events once all were read. -/
def turn (w : Worker g) (s : Sequencer g) (position : Int) (around : Surroundings) :
    Option (Done (Worker g)) :=
  match w.plan.turn w.phase with
  | .ask (.await next) resume =>
    match w.wait with
    | some (.inr outcome) =>
      match w.barrier.published s next outcome with
      | .ok outcome => some { after := { w with phase := resume outcome, wait := none } }
      | .error _ => none
    | _ => none
  | .ask (.batch first last) resume =>
    if w.read = Sequencer.runLength first last then
      some { after := { w with phase := resume around.failure, read := 0 } }
    else none
  | .ask (.event sequence _) resume =>
    some { after := { w with phase := resume around.failure }, hands := [sequence] }
  | .ask (.release sequence) resume =>
    some { after := { w with phase := resume () }, stores := some sequence }
  | .ask .rearm resume =>
    some { after := { w with phase := resume (), barrier := w.barrier.rearm } }
  | .ask .position resume => some { after := { w with phase := resume position } }
  | .ask .begin resume => some { after := { w with phase := resume around.admission } }
  | .ask .isActive resume => some { after := { w with phase := resume around.active } }
  | .ask .start resume | .ask (.timeout _) resume | .ask .shutdown resume
  | .ask (.judge ..) resume => some { after := { w with phase := resume around.failure } }
  | .ask .announce resume | .ask (.batchStart ..) resume | .ask (.note _) resume
  | .ask .finish resume => some { after := { w with phase := resume () } }
  | .ended _ | .broken _ => none

/-- Stores the event in hand as progress, before the handler is done with it. -/
def early (w : Worker g) : Option (Done (Worker g)) :=
  match w.plan.turn w.phase with
  | .ask (.event sequence _) _ => some { after := w, stores := some sequence }
  | _ => none

/-- Begins another run after one that is over. -/
def again (w : Worker g) : Option (Worker g) :=
  match w.phase with
  | .complete _ => some { w with phase := .beginning }
  | _ => none

end Worker

/-! ## Consumers -/

/-- What a consumer is. -/
inductive Role (g : Geometry) where
  | poller (front : List CounterId) (stage : Polled)
  | worker (w : Worker g)

/-- A consumer of events of type `ε`. -/
structure Consumer (g : Geometry) (ε : Type) where
  counter : CounterId
  role : Role g
  /-- The events it was handed, in order. -/
  handed : List (Int × ε) := []

/-- What a consumer can do. -/
inductive Move where
  /-- A poll begins. -/
  | look
  /-- A poll hands over an event and gets a reply. -/
  | hear (reply : Reply Failure)
  /-- A poll stores its progress and is over. -/
  | store
  | enter
  | watch (woken expired : Bool)
  | readOn
  | turn (around : Surroundings)
  | early
  | again
  /-- Somebody cancels the barrier. -/
  | cancel

namespace Consumer

variable {g : Geometry} {ε : Type}

/-- The counters of the consumers in front; none means the cursor. -/
def front (c : Consumer g ε) : List CounterId :=
  match c.role with
  | .poller front _ => front
  | .worker w => w.barrier.front

/-- Whether what is in front of a consumer may have holes, as its barrier takes it to be.  A poller
has no barrier. -/
def scans (c : Consumer g ε) : Option Bool :=
  match c.role with
  | .poller .. => none
  | .worker w => some w.barrier.scans

/-- A step of a poller. -/
def pollStep (s : Sequencer g) (counter : CounterId) (front : List CounterId) :
    Polled → Move → Option (Done Polled)
  | .resting, .look =>
    match Poller.look (φ := Failure) ⟨front, counter⟩ s with
    | .ok (.inl _) => some { after := .resting }
    | .ok (.inr polling) => some
      { after := .handing polling (Sequencer.runLength polling.next polling.available) }
    | .error _ => none
  | .handing polling (left + 1), .hear reply =>
    match polling.hear reply with
    | .ok (onwards, none) => some { after := .handing onwards left, hands := [polling.next] }
    | .ok (ended, some _) => some { after := .storing ended.accepted, hands := [polling.next] }
    | .error _ => none
  | .handing polling 0, .store => some { after := .resting, stores := some polling.accepted }
  | .storing accepted, .store => some { after := .resting, stores := some accepted }
  | _, _ => none

/-- A step of a worker. -/
def workStep (s : Sequencer g) (position : Int) (w : Worker g) : Move → Option (Done (Worker g))
  | .enter => (w.enter s).map fun w => { after := w }
  | .watch woken expired => (w.watch s woken expired).map fun w => { after := w }
  | .readOn => w.readOn
  | .turn around => w.turn s position around
  | .early => w.early
  | .again => w.again.map fun w => { after := w }
  | .cancel => some { after := { w with barrier := w.barrier.cancel } }
  | _ => none

/-- The consumer after a step, with the events that the ring holds for what it was handed. -/
def onwards (c : Consumer g ε) (ring : Ring g ε) (role : Role g) (hands : List Int) :
    Consumer g ε :=
  { c with role := role, handed := c.handed ++ hands.map fun t => (t, ring.event t) }

/-- A step of a consumer, and what it stores. -/
def step (ring : Ring g ε) (c : Consumer g ε) (move : Move) :
    Option (Consumer g ε × Option Int) :=
  match c.role with
  | .poller front stage =>
    (pollStep ring.sequencer c.counter front stage move).map fun done =>
      (c.onwards ring (.poller front done.after) done.hands, done.stores)
  | .worker w =>
    (workStep ring.sequencer (ring.sequencer.counters.value c.counter) w move).map fun done =>
      (c.onwards ring (.worker done.after) done.hands, done.stores)

end Consumer

/-! ## Producers and consumers -/

/-- A ring with its publishers and consumers. -/
structure Pipeline (g : Geometry) (ε : Type) where
  floor : Production g ε
  consumers : List (Consumer g ε) := []

namespace Pipeline

variable {g : Geometry} {ε : Type}

/-- A ring that nobody has used yet. -/
def fresh (g : Geometry) (kind : Producers) (parks : Bool) (factory : Nat → ε) : Pipeline g ε where
  floor := Production.fresh g kind parks factory

/-- The counter of a consumer. -/
def Owned (p : Pipeline g ε) (id : CounterId) : Prop := ∃ c ∈ p.consumers, c.counter = id

instance (p : Pipeline g ε) (id : CounterId) : Decidable (p.Owned id) := by
  unfold Owned
  infer_instance

/-- What can be done; consumers are named by the order they came in. -/
inductive Act (ε : Type) where
  | produce (act : Production.Act ε)
  /-- Make a poller behind some counters. -/
  | hirePoller (front : List CounterId)
  /-- Make a processor at a new barrier behind some counters. -/
  | hireWorker (kind : Processor.Kind) (most : Option Nat) (waiter : Wait.Waiter)
      (front : List CounterId)
  | consume (j : Nat) (move : Move)

/-- Makes a consumer with a counter of its own. -/
def hire (p : Pipeline g ε) (front : List CounterId) (role : Role g) : Option (Pipeline g ε) :=
  if ∀ id ∈ front, p.Owned id then do
    let floor ← p.floor.step (.make Counter.initial)
    let counter := p.floor.sequencer.counters.values.size
    return { floor := floor, consumers := p.consumers ++ [{ counter := counter, role := role }] }
  else none

/-- One act; nothing if it cannot be done or breaks off. -/
def step (p : Pipeline g ε) : Act ε → Option (Pipeline g ε)
  | .produce act => do return { p with floor := ← p.floor.step act }
  | .hirePoller front => p.hire front (.poller front .resting)
  | .hireWorker kind most waiter front =>
    p.hire front (.worker
      { plan := ⟨kind, Processor.limitOf most⟩, barrier := .make p.floor.sequencer waiter front })
  | .consume j move => do
    let c ← p.consumers[j]?
    let (after, stores) ← c.step p.floor.ring move
    let floor ← match stores with
      | none => some p.floor
      | some progress => p.floor.step (.move c.counter progress)
    return { floor := floor, consumers := p.consumers.set j after }

end Pipeline

/-! ## What a step of a consumer can do -/

variable {g : Geometry} {s : Sequencer g} {counter : CounterId} {front : List CounterId}

/-- What a step of a poller can do. -/
inductive Polled.Change (s : Sequencer g) (counter : CounterId) (front : List CounterId) :
    Polled → Move → Done Polled → Prop where
  | idle : Change s counter front .resting .look { after := .resting }
  | begun {polling : Polling}
      (looked : Poller.look (φ := Failure) ⟨front, counter⟩ s = .ok (.inr polling)) :
      Change s counter front .resting .look
        { after := .handing polling (Sequencer.runLength polling.next polling.available) }
  | goesOn {polling : Polling} {left : Nat} :
      Change s counter front (.handing polling (left + 1)) (.hear .keepGoing)
        { after := .handing ⟨polling.next, polling.next + 1, polling.available⟩ left
          hands := [polling.next] }
  | stopped {polling : Polling} {left : Nat} :
      Change s counter front (.handing polling (left + 1)) (.hear .stop)
        { after := .storing polling.next, hands := [polling.next] }
  | failed {polling : Polling} {left : Nat} {failure : Failure} :
      Change s counter front (.handing polling (left + 1)) (.hear (.failed failure))
        { after := .storing polling.accepted, hands := [polling.next] }
  | through {polling : Polling} :
      Change s counter front (.handing polling 0) .store
        { after := .resting, stores := some polling.accepted }
  | stored {accepted : Int} :
      Change s counter front (.storing accepted) .store
        { after := .resting, stores := some accepted }

/-- A handler that wants more has accepted the event, and so has one that stops the poll; one that
fails has not. -/
theorem Polling.hear_eq_ok {polling after : Polling} {reply : Reply Failure}
    {result : Option (PollResult Failure)} (h : polling.hear reply = .ok (after, result)) :
    (reply = .keepGoing ∧ result = none ∧
        after = ⟨polling.next, polling.next + 1, polling.available⟩) ∨
      (reply = .stop ∧ result.isSome ∧
        after = ⟨polling.next, polling.next + 1, polling.available⟩) ∨
      ∃ failure, reply = .failed failure ∧ result.isSome ∧ after = polling := by
  cases reply with
  | failed failure =>
      cases h
      exact Or.inr (Or.inr ⟨failure, rfl, rfl, rfl⟩)
  | stop =>
      obtain ⟨-, last⟩ := Action.except_checked_eq_ok h
      cases last
      exact Or.inr (Or.inl ⟨rfl, rfl, rfl⟩)
  | keepGoing =>
      obtain ⟨-, last⟩ := Action.except_checked_eq_ok h
      cases last
      exact Or.inl ⟨rfl, rfl, rfl⟩

theorem Polled.change_of_step {stage : Polled} {move : Move} {done : Done Polled}
    (h : Consumer.pollStep s counter front stage move = some done) :
    Polled.Change s counter front stage move done := by
  unfold Consumer.pollStep at h
  split at h
  · split at h
    · cases h
      exact Change.idle
    · rename_i looked
      cases h
      exact Change.begun looked
    · cases h
  · split at h
    · rename_i heard
      cases h
      rcases Polling.hear_eq_ok heard with ⟨rfl, -, rfl⟩ | ⟨-, ended, -⟩ | ⟨_, -, ended, -⟩
      · exact Change.goesOn
      · cases ended
      · cases ended
    · rename_i heard
      cases h
      rcases Polling.hear_eq_ok heard with ⟨-, ended, -⟩ | ⟨rfl, -, rfl⟩ | ⟨_, rfl, -, rfl⟩
      · cases ended
      · exact Change.stopped
      · exact Change.failed
    · cases h
  · cases h
    exact Change.through
  · cases h
    exact Change.stored
  · cases h

/-- A request that anybody answers as they like. -/
def Processor.Request.Free : Request → Prop
  | .position | .await _ | .event .. | .batch .. | .release _ => False
  | _ => True

/-- What a turn of a worker can do. -/
inductive Worker.Turned (w : Worker g) (s : Sequencer g) (position : Int) (around : Surroundings) :
    Done (Worker g) → Prop where
  | awaited {next : Int} {resume : Wait.Outcome → Phase} {outcome cut : Wait.Outcome}
      (turn : w.plan.turn w.phase = .ask (.await next) resume)
      (found : w.wait = some (.inr outcome))
      (published : w.barrier.published s next outcome = .ok cut) :
      Turned w s position around { after := { w with phase := resume cut, wait := none } }
  | batch {first last : Int} {resume : Option Failure → Phase}
      (turn : w.plan.turn w.phase = .ask (.batch first last) resume)
      (all : w.read = Sequencer.runLength first last) :
      Turned w s position around { after := { w with phase := resume around.failure, read := 0 } }
  | event {sequence : Int} {last : Bool} {resume : Option Failure → Phase}
      (turn : w.plan.turn w.phase = .ask (.event sequence last) resume) :
      Turned w s position around
        { after := { w with phase := resume around.failure }, hands := [sequence] }
  | released {sequence : Int} {resume : Unit → Phase}
      (turn : w.plan.turn w.phase = .ask (.release sequence) resume) :
      Turned w s position around { after := { w with phase := resume () }, stores := some sequence }
  | position {resume : Int → Phase} (turn : w.plan.turn w.phase = .ask .position resume) :
      Turned w s position around { after := { w with phase := resume position } }
  | free {request : Request} {resume : request.Answer → Phase} {barrier : Barrier}
      (turn : w.plan.turn w.phase = .ask request resume) (free : request.Free)
      (answer : request.Answer) (front : barrier.front = w.barrier.front)
      (scans : barrier.scans = w.barrier.scans) :
      Turned w s position around { after := { w with phase := resume answer, barrier := barrier } }

theorem Worker.turned_of_turn {w : Worker g} {position : Int} {around : Surroundings}
    {done : Done (Worker g)} (h : w.turn s position around = some done) :
    w.Turned s position around done := by
  unfold Worker.turn at h
  split at h
  · rename_i turn
    split at h
    · rename_i found
      split at h
      · rename_i published
        cases h
        exact Turned.awaited turn found published
      · cases h
    · cases h
  · rename_i turn
    split at h
    · rename_i all
      cases h
      exact Turned.batch turn all
    · cases h
  · rename_i turn
    cases h
    exact Turned.event turn
  · rename_i turn
    cases h
    exact Turned.released turn
  · rename_i turn
    cases h
    exact Turned.free turn trivial () rfl rfl
  · rename_i turn
    cases h
    exact Turned.position turn
  -- everything else is up to those who are asked
  all_goals
    cases h
  all_goals
    rename_i turn
    exact Turned.free turn trivial _ rfl rfl

/-- What a step of a worker can do. -/
inductive Worker.Change (w : Worker g) (s : Sequencer g) (position : Int) :
    Move → Done (Worker g) → Prop where
  | entered {next : Int} {resume : Wait.Outcome → Phase}
      (turn : w.plan.turn w.phase = .ask (.await next) resume) (fresh : w.wait = none) :
      Change w s position .enter
        { after := { w with wait := some (w.barrier.enter w.side next s) } }
  | watched {next : Int} {resume : Wait.Outcome → Phase} {phase : Wait.Phase} {woken expired : Bool}
      {sight : Wait.Observation} (turn : w.plan.turn w.phase = .ask (.await next) resume)
      (waiting : w.wait = some (.inl phase)) (value : sight.value = w.barrier.value s) :
      Change w s position (.watch woken expired)
        { after := { w with wait := some (phase.step next sight) } }
  | readOn {first last : Int} {resume : Option Failure → Phase}
      (turn : w.plan.turn w.phase = .ask (.batch first last) resume)
      (more : w.read < Sequencer.runLength first last) :
      Change w s position .readOn
        { after := { w with read := w.read + 1 }, hands := [first + w.read] }
  | turned {around : Surroundings} {done : Done (Worker g)}
      (turned : w.Turned s position around done) : Change w s position (.turn around) done
  | early {sequence : Int} {last : Bool} {resume : Option Failure → Phase}
      (turn : w.plan.turn w.phase = .ask (.event sequence last) resume) :
      Change w s position .early { after := w, stores := some sequence }
  | again {error : Option RingError} (ended : w.phase = .complete error) :
      Change w s position .again { after := { w with phase := .beginning } }
  | cancelled : Change w s position .cancel { after := { w with barrier := w.barrier.cancel } }

theorem Worker.change_of_step {w : Worker g} {position : Int} {move : Move} {done : Done (Worker g)}
    (h : Consumer.workStep s position w move = some done) : w.Change s position move done := by
  cases move with
  | enter =>
      obtain ⟨after, entered, rfl⟩ := Option.map_eq_some_iff.mp h
      unfold Worker.enter at entered
      split at entered
      · rename_i turn fresh
        cases entered
        exact Change.entered turn fresh
      · cases entered
  | watch woken expired =>
      obtain ⟨after, watched, rfl⟩ := Option.map_eq_some_iff.mp h
      unfold Worker.watch at watched
      split at watched
      · rename_i turn waiting
        cases watched
        exact Change.watched turn waiting rfl
      · cases watched
  | readOn =>
      have h : w.readOn = some done := h
      unfold Worker.readOn at h
      split at h
      · rename_i turn
        split at h
        · rename_i more
          cases h
          exact Change.readOn turn more
        · cases h
      · cases h
  | turn around => exact Change.turned (turned_of_turn h)
  | early =>
      have h : w.early = some done := h
      unfold Worker.early at h
      split at h
      · rename_i turn
        cases h
        exact Change.early turn
      · cases h
  | again =>
      obtain ⟨after, begun, rfl⟩ := Option.map_eq_some_iff.mp h
      unfold Worker.again at begun
      split at begun
      · rename_i ended
        cases begun
        exact Change.again ended
      · cases begun
  | cancel =>
      cases h
      exact Change.cancelled
  | look | hear | store => cases h

/-! ## What a step of a pipeline can do -/

namespace Pipeline

variable {ε : Type} {p q : Pipeline g ε} {act : Act ε}

/-- What a consumer is when it comes in. -/
inductive Entry (s : Sequencer g) (front : List CounterId) : Role g → Prop where
  | poller : Entry s front (.poller front .resting)
  | worker (kind : Processor.Kind) (most : Option Nat) (waiter : Wait.Waiter) :
      Entry s front (.worker
        { plan := ⟨kind, Processor.limitOf most⟩, barrier := .make s waiter front })

/-- What a step can do. -/
inductive Change (p : Pipeline g ε) : Act ε → Pipeline g ε → Prop where
  | produced {act : Production.Act ε} {floor : Production g ε}
      (change : Production.Change p.floor act floor) :
      Change p (.produce act) { p with floor := floor }
  | hired {act : Act ε} {front : List CounterId} {role : Role g}
      (asks : act = .hirePoller front ∨
        ∃ kind most waiter, act = .hireWorker kind most waiter front)
      (owned : ∀ id ∈ front, p.Owned id) (entry : Entry p.floor.sequencer front role) :
      Change p act
        { floor := p.floor.withCounters (p.floor.sequencer.counters.make Counter.initial).2
          consumers := p.consumers ++
            [{ counter := p.floor.sequencer.counters.values.size, role := role }] }
  | consumed {j : Nat} {move : Move} {c after : Consumer g ε} (there : p.consumers[j]? = some c)
      (stepped : c.step p.floor.ring move = some (after, none)) :
      Change p (.consume j move) { p with consumers := p.consumers.set j after }
  | stored {j : Nat} {move : Move} {c after : Consumer g ε} {progress : Int}
      (there : p.consumers[j]? = some c)
      (stepped : c.step p.floor.ring move = some (after, some progress))
      (made : p.floor.Made c.counter) :
      Change p (.consume j move)
        { floor := p.floor.withCounters (p.floor.sequencer.counters.set c.counter progress)
          consumers := p.consumers.set j after }

theorem change_of_hire {front : List CounterId} {role : Role g}
    (asks : act = .hirePoller front ∨ ∃ kind most waiter, act = .hireWorker kind most waiter front)
    (entry : Entry p.floor.sequencer front role) (h : p.hire front role = some q) :
    Change p act q := by
  unfold hire at h
  by_cases owned : ∀ id ∈ front, p.Owned id
  · rw [if_pos owned] at h
    cases h
    exact Change.hired asks owned entry
  · rw [if_neg owned] at h
    cases h

/-- Every step is one of the changes. -/
theorem change_of_step (h : p.step act = some q) : Change p act q := by
  cases act with
  | produce act =>
      obtain ⟨floor, made, last⟩ := Option.bind_eq_some_iff.mp h
      cases last
      exact Change.produced (Production.change_of_step made)
  | hirePoller front => exact change_of_hire (Or.inl rfl) Entry.poller h
  | hireWorker kind most waiter front =>
      exact change_of_hire (Or.inr ⟨kind, most, waiter, rfl⟩) (Entry.worker kind most waiter) h
  | consume j move =>
      obtain ⟨c, there, rest⟩ := Option.bind_eq_some_iff.mp h
      obtain ⟨⟨after, stores⟩, stepped, more⟩ := Option.bind_eq_some_iff.mp rest
      cases stores with
      | none =>
          cases more
          exact Change.consumed there stepped
      | some progress =>
          obtain ⟨floor, stored, last⟩ := Option.bind_eq_some_iff.mp more
          cases last
          by_cases made : p.floor.Made c.counter
          · cases (Production.step_move made progress).symm.trans stored
            exact Change.stored there stepped made
          · rw [Production.step, if_neg made] at stored
            cases stored

/-- A step of a consumer touches no other consumer. -/
theorem stepped_of_change {j : Nat} {move : Move} (h : Change p (.consume j move) q) :
    ∃ (c after : Consumer g ε) (stores : Option Int), p.consumers[j]? = some c ∧
      c.step p.floor.ring move = some (after, stores) ∧ q.consumers = p.consumers.set j after := by
  cases h with
  | hired asks =>
      rcases asks with other | ⟨_, _, _, other⟩
      · cases other
      · cases other
  | consumed there stepped => exact ⟨_, _, _, there, stepped, rfl⟩
  | stored there stepped => exact ⟨_, _, _, there, stepped, rfl⟩

/-! ## Steps that can be done -/

theorem step_produce {act : Production.Act ε} {floor : Production g ε}
    (made : p.floor.step act = some floor) :
    p.step (.produce act) = some { p with floor := floor } := by
  show (p.floor.step act).bind _ = _
  rw [made]
  rfl

theorem step_hireWorker {front : List CounterId} (owned : ∀ id ∈ front, p.Owned id)
    (kind : Processor.Kind) (most : Option Nat) (waiter : Wait.Waiter) :
    p.step (.hireWorker kind most waiter front) = some
      { floor := p.floor.withCounters (p.floor.sequencer.counters.make Counter.initial).2
        consumers := p.consumers ++
          [{ counter := p.floor.sequencer.counters.values.size
             role := .worker
              { plan := ⟨kind, Processor.limitOf most⟩
                barrier := .make p.floor.sequencer waiter front } }] } := by
  show p.hire front _ = _
  unfold hire
  rw [if_pos owned]
  rfl

end Pipeline

end EventRing
