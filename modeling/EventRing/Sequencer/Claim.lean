import EventRing.Sequencer.Basic
/-!
# EventRing.Sequencer.Claim

Claiming sequences.  A claim takes the next `n` sequences; it may be made when the sequence one ring
below the highest of them is released by every gate.  The cached gate answers that without reading
the gates, unless the claim reaches past it or it lies ahead of the claim position (after the
position was moved back); then the gates are read and the cache renewed.

A claim that cannot be made yet is answered as `Grant.waiting` with what it waits for, and `settle`
looks at the gates again.  With many producers the sequences are already taken by then, which is why
their order is fixed; with one producer they are taken when the wait is over.
-/

namespace EventRing

/-- A claim on its way. -/
structure Pending where
  /-- The claim position before the claim. -/
  before : Int
  /-- The highest claimed sequence. -/
  hi : Int
  /-- The highest sequence whose slot the claim takes over. -/
  wrap : Int
  deriving DecidableEq, Repr

/-- What becomes of a claim that may have to wait. -/
inductive Grant where
  /-- The sequences up to `hi` are claimed. -/
  | granted (hi : Int)
  /-- The slowest gate has not released the slots yet. -/
  | waiting (claim : Pending) (slowest : Int)
  deriving DecidableEq, Repr

namespace Sequencer

variable {g : Geometry}

/-- The number of sequences of a claim, as a distance; a claim takes at least one slot and at most
all of them. -/
def claimSize (g : Geometry) (n : Nat) : Except RingError Int :=
  if 1 ≤ n ∧ n ≤ g.size then .ok n else .error (.invalidClaimSize n g.size)

/-- The cached gate does not settle the question whether `wrap` is released. -/
def mustLook (s : Sequencer g) (wrap position : Int) : Bool :=
  decide (s.cachedGate < wrap) || decide (position < s.cachedGate)

/-- The highest sequence whose slot is taken over when `hi` is claimed. -/
def wrapPoint (g : Geometry) (hi : Int) : Except Fault Int := Word.checked (hi - g.size)

/-- Looks at the gates for a claim on its way, and makes it if they have released its slots. -/
def settle (claim : Pending) : Action (Sequencer g) Grant := do
  let s ← get
  let slowest := s.slowestGate claim.before
  if slowest < claim.wrap then
    return .waiting claim slowest
  else
    let ledger := match s.ledger with
      | .solo _ => .solo claim.hi
      | .shared laps => .shared laps
    set { s with cachedGate := slowest, ledger := ledger }
    return .granted claim.hi

/-- The gates have released the slots of a claim on its way. -/
def hasReleased (s : Sequencer g) (claim : Pending) : Bool :=
  decide (claim.wrap ≤ s.slowestGate claim.before)

/-- Claims the next `delta` sequences, or begins to wait for them. -/
def claimBy (delta : Int) : Action (Sequencer g) Grant := do
  let s ← get
  match s.ledger with
  | .solo claimed =>
    let hi ← Word.checked (claimed + delta)
    let wrap ← wrapPoint g hi
    if s.mustLook wrap claimed then
      -- parked consumers must see everything published so far while the producer waits for them
      modify fun s => { s with cursor := claimed }
      settle ⟨claimed, hi, wrap⟩
    else
      modify fun s => { s with ledger := .solo hi }
      return .granted hi
  | .shared _ =>
    let hi ← Action.onPart cursor (fun cursor s => { s with cursor := cursor }) (Counter.add delta)
    let wrap ← wrapPoint g hi
    if s.mustLook wrap s.cursor then settle ⟨s.cursor, hi, wrap⟩ else return .granted hi

/-- Claims the next `n` sequences, or begins to wait for them. -/
def claim (n : Nat) : Action (Sequencer g) (Except RingError Grant) :=
  match claimSize g n with
  | .error error => return .error error
  | .ok delta => .ok <$> claimBy delta

/-- Whether `delta` sequences can be claimed without waiting.  A producer that asks in order to
claim (`announce`) publishes its position if it has to look at the gates. -/
def hasRoom (delta : Int) (announce : Bool) : Action (Sequencer g) Bool := do
  let s ← get
  let hi ← Word.checked (s.claimed + delta)
  let wrap ← wrapPoint g hi
  if s.mustLook wrap s.claimed then
    let slowest := s.slowestGate s.claimed
    set { s with
      cursor := if announce then s.claimed else s.cursor
      cachedGate := slowest }
    return decide (wrap ≤ slowest)
  else
    return true

/-- Moves the claim position. -/
def reposition (sequence : Int) : Action (Sequencer g) Unit :=
  modify fun s => match s.ledger with
    | .solo _ => { s with ledger := .solo sequence }
    | .shared _ => { s with cursor := sequence }

/-- Claims the next `n` sequences if that needs no waiting. -/
def tryClaim (n : Nat) : Action (Sequencer g) (Option Int) :=
  match claimSize g n with
  | .error _ => return none
  | .ok delta => do
    let hi ← Word.checked ((← get).claimed + delta)
    if ← hasRoom delta true then
      reposition hi
      return some hi
    else
      return none

/-- Whether `n` sequences could be claimed without waiting. -/
def hasCapacity (n : Nat) : Action (Sequencer g) Bool :=
  match claimSize g n with
  | .error _ => return false
  | .ok delta => hasRoom delta false

/-- How many sequences could be claimed without waiting. -/
def remaining (s : Sequencer g) : Except Fault Int := do
  let unreleased ← Word.checked (s.claimed - s.slowestGate s.claimed)
  Word.checked (g.size - unreleased)

end Sequencer

end EventRing
