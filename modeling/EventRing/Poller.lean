import EventRing.Ring
/-!
# EventRing.Poller

A poller looks for events when its owner asks it to, and never waits.  One poll hands over, in order,
everything that was published when it began, until the handler stops it or fails.  Afterwards the
poller's counter is at the last event that the handler accepted.
-/

namespace EventRing

/-- A consumer that is asked to look. -/
structure Poller where
  /-- The counters of the consumers in front; none means the cursor. -/
  front : List CounterId
  /-- The poller's own progress. -/
  counter : CounterId

/-- What a handler says to one event. -/
inductive Reply (φ : Type) where
  | keepGoing
  | stop
  | failed (failure : φ)

/-- What comes of a poll. -/
inductive PollResult (φ : Type) where
  /-- Events were handed over. -/
  | processing
  /-- There are events, but not yet for this poller. -/
  | gating
  /-- There are no events. -/
  | idle
  /-- The handler failed at an event. -/
  | failed (failure : φ)

/-- A poll on its way. -/
structure Polling where
  /-- The last accepted event. -/
  accepted : Int
  next : Int
  available : Int

namespace Polling

variable {φ : Type} {m : Type → Type} [Monad m] [MonadLiftT (Except Fault) m]

/-- What a reply does to a poll; it is over if there is a result.  A handler that stops has accepted
the event, one that fails has not. -/
def hear (p : Polling) : Reply φ → Except Fault (Polling × Option (PollResult φ))
  | .failed failure => return (p, some (.failed failure))
  | .stop => do
    let next ← Word.checked (p.next + 1)
    return ({ p with accepted := p.next, next := next }, some .processing)
  | .keepGoing => do
    let next ← Word.checked (p.next + 1)
    return ({ p with accepted := p.next, next := next }, none)

/-- Hands over at most `count` events. -/
def drain (handler : Int → Bool → m (Reply φ)) : Nat → Polling → m (Polling × PollResult φ)
  | 0, p => return (p, .processing)
  | count + 1, p => do
    let reply ← handler p.next (p.next = p.available)
    match ← p.hear reply with
    | (p, some result) => return (p, result)
    | (p, none) => drain handler count p

end Polling

namespace Poller

variable {g : Geometry} {ε φ : Type}

/-- Looks for events: either there is nothing to hand over, or a poll begins. -/
def look (p : Poller) (s : Sequencer g) : Except Fault (PollResult φ ⊕ Polling) := do
  let current := s.counters.value p.counter
  let next ← Word.checked (current + 1)
  let available ← s.highestPublished next (s.counters.behind p.front s.cursor)
  if available < next then
    return .inl (if next ≤ s.cursor then .gating else .idle)
  else
    return .inr ⟨current, next, available⟩

/-- One poll, wherever actions of a sequencer can be run.  The handler may do what can be done
there. -/
def pollWithin {m : Type → Type} [Monad m] [MonadLiftT (Except Fault) m]
    (onSequencer : {α : Type} → Action (Sequencer g) α → m α)
    (handler : Int → Bool → m (Reply φ)) (p : Poller) : m (PollResult φ) := do
  match ← p.look (← onSequencer get) with
  | .inl result => return result
  | .inr polling =>
    let (polling, result) ← polling.drain handler (Sequencer.runLength polling.next polling.available)
    onSequencer (Sequencer.setCounter p.counter polling.accepted)
    return result

/-- One poll of a ring, with a handler that only sees events. -/
def poll (handler : ε → Int → Bool → Reply φ) (p : Poller) : Action (Ring g ε) (PollResult φ) :=
  p.pollWithin Ring.onSequencer fun sequence last => do
    return handler ((← get).event sequence) sequence last

end Poller

end EventRing
