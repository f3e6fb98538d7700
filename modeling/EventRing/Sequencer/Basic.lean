import EventRing.Geometry
import EventRing.Counter
/-!
# EventRing.Sequencer.Basic

A sequencer hands out sequence numbers to producers and knows which of them are published.  It comes
in two kinds, told apart by how they remember publications:

* with one producer, publications happen in order, so a published cursor and the producer's own
  claim position say everything;
* with many producers, the cursor is the claim position they share, and every slot carries the lap
  of the last sequence published in it.

Both kinds are held back by the same gates: counters of consumers whose slots must not be taken over
before they are released.  The least gate is cached, because reading all of them is slow.
-/

namespace EventRing

/-! ## State -/

/-- How many threads may claim. -/
inductive Producers where
  | one
  | many
  deriving DecidableEq, Repr

/-- How publications are remembered. -/
inductive Ledger (g : Geometry) where
  /-- One producer: its claim position; the cursor is what it published. -/
  | solo (claimed : Int)
  /-- Many producers: the lap last published in each slot; the cursor is the claim position. -/
  | shared (laps : Vector Int32 g.size)

/-- The state of a sequencer over a ring of a given geometry. -/
structure Sequencer (g : Geometry) where
  /-- The last published sequence with one producer, the last claimed one with many. -/
  cursor : Int := Counter.initial
  ledger : Ledger g
  /-- The least gate as it was last read. -/
  cachedGate : Int := Counter.initial
  /-- The counters that hold producers back; one may be listed several times. -/
  gates : List CounterId := []
  /-- All progress counters, gates or not. -/
  counters : Counters := {}
  /-- Consumers may be parked, so publications have to wake them. -/
  parks : Bool
  /-- The number of times parked consumers were woken. -/
  signals : Nat := 0

namespace Sequencer

variable {g : Geometry}

/-- A sequencer from which nothing was claimed yet. -/
def fresh (g : Geometry) (producers : Producers) (parks : Bool) : Sequencer g where
  ledger := match producers with
    | .one => .solo Counter.initial
    | .many => .shared (Vector.replicate g.size (-1))
  parks := parks

/-- The kind of a sequencer. -/
def producers (s : Sequencer g) : Producers :=
  match s.ledger with
  | .solo _ => .one
  | .shared _ => .many

/-- The last claimed sequence. -/
def claimed (s : Sequencer g) : Int :=
  match s.ledger with
  | .solo claimed => claimed
  | .shared _ => s.cursor

/-! ## Gates -/

/-- The least gate; the default if it is lower, or if nothing gates. -/
def slowestGate (s : Sequencer g) (default : Int) : Int := s.counters.least s.gates default

/-- The least gate as seen from the cursor. -/
def lowestGate (s : Sequencer g) : Int := s.slowestGate s.cursor

/-- Lets counters hold producers back.  Each of them is moved to the cursor first, so it does not
claim slots that were released before.  Answers how many gates there are now. -/
def addGates (ids : List CounterId) : Action (Sequencer g) Nat := do
  let s ← get
  let gates := s.gates ++ ids
  set { s with counters := s.counters.setAll ids s.cursor, gates := gates }
  return gates.length

/-- Takes every listing of a counter off the gates.  Answers whether there was one, and how many
gates are left. -/
def removeGate (id : CounterId) : Action (Sequencer g) (Bool × Nat) := do
  let s ← get
  let gates := s.gates.filter (· ≠ id)
  set { s with gates := gates }
  return (gates.length ≠ s.gates.length, gates.length)

/-! ## Counters -/

/-- Makes a counter. -/
def makeCounter (value : Int) : Action (Sequencer g) CounterId := do
  let s ← get
  let (id, counters) := s.counters.make value
  set { s with counters := counters }
  return id

/-- Stores a value in a counter. -/
def setCounter (id : CounterId) (value : Int) : Action (Sequencer g) Unit :=
  modify fun s => { s with counters := s.counters.set id value }

/-- Runs an action on the value of one counter. -/
def onCounter {α : Type} (id : CounterId) (act : Action Int α) : Action (Sequencer g) α :=
  Action.onPart (fun s => s.counters.value id)
    (fun value s => { s with counters := s.counters.set id value }) act

end Sequencer

end EventRing
