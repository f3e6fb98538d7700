import EventRing.Ring
/-!
# EventRing.Publisher

Producing events.  A publisher claims slots, lets the caller write them, and publishes exactly what
it claimed.  A claim that has to wait comes back as `Grant.waiting`, and the operation goes on from
there once the gates have moved (`resumeEvent`, `resumeEvents`).

A ring for one producer lends out one publisher at a time.
-/

namespace EventRing

/-- A claimed run of sequences. -/
structure Block where
  lo : Int
  hi : Int
  deriving DecidableEq, Repr

/-- The run of `n` sequences up to `hi`. -/
def Block.upTo (hi : Int) (n : Nat) : Except Fault Block := do
  let before ← Word.checked (hi - n)
  let lo ← Word.checked (before + 1)
  return ⟨lo, hi⟩

/-- The number of sequences of a run. -/
def Block.length (b : Block) : Nat := Sequencer.runLength b.lo b.hi

namespace Ring

variable {g : Geometry} {ε : Type}

/-! ## Lending publishers -/

/-- Lends a publisher, unless the ring is for one producer and has lent its only one. -/
def takePublisher : Action (Ring g ε) (Except RingError Unit) := do
  let ring ← get
  match ring.sequencer.producers with
  | .many => return .ok ()
  | .one =>
    if ring.publisherTaken then return .error .publisherInUse
    modify fun ring => { ring with publisherTaken := true }
    return .ok ()

/-- Takes a publisher back. -/
def releasePublisher : Action (Ring g ε) Unit :=
  modify fun ring => match ring.sequencer.producers with
    | .many => ring
    | .one => { ring with publisherTaken := false }

/-! ## Claims -/

/-- Claims `n` sequences, or begins to wait for them. -/
def claim (n : Nat) : Action (Ring g ε) (Except RingError Grant) :=
  onSequencer (Sequencer.claim n)

/-- Claims `n` sequences if that needs no waiting. -/
def tryClaim (n : Nat) : Action (Ring g ε) (Option Int) := onSequencer (Sequencer.tryClaim n)

/-- Looks at the gates again for a claim that waits. -/
def settle (claim : Pending) : Action (Ring g ε) Grant := onSequencer (Sequencer.settle claim)

/-- Publishes one claimed sequence. -/
def publish (sequence : Int) : Action (Ring g ε) Unit := onSequencer (Sequencer.publish sequence)

/-- Publishes a claimed run. -/
def publishBlock (b : Block) : Action (Ring g ε) Unit :=
  onSequencer (Sequencer.publishRange b.lo b.hi)

/-! ## One event -/

/-- Writes and publishes an event that is claimed; nothing if the claim waits. -/
def finishEvent (writer : ε → Int → ε) : Grant → Action (Ring g ε) Grant
  | .granted hi => do
    write writer hi
    publish hi
    return .granted hi
  | grant => return grant

/-- Claims, writes and publishes one event. -/
def publishEvent (writer : ε → Int → ε) : Action (Ring g ε) Grant := do
  finishEvent writer (← onSequencer (Sequencer.claimBy 1))

/-- Goes on with an event whose claim waited. -/
def resumeEvent (writer : ε → Int → ε) (claim : Pending) : Action (Ring g ε) Grant := do
  finishEvent writer (← settle claim)

/-- Claims, writes and publishes one event if that needs no waiting. -/
def tryPublishEvent (writer : ε → Int → ε) : Action (Ring g ε) (Option Int) := do
  match ← tryClaim 1 with
  | none => return none
  | some hi =>
    discard <| finishEvent writer (.granted hi)
    return some hi

/-! ## Several events -/

/-- Writes and publishes a claimed run of `n` events; nothing if the claim waits. -/
def finishEvents (writer : ε → Int → ε) (n : Nat) : Grant → Action (Ring g ε) Grant
  | .granted hi => do
    let block ← Block.upTo hi n
    writeRun writer block.lo block.length
    publishBlock block
    return .granted hi
  | grant => return grant

/-- Claims, writes and publishes `n` events together. -/
def publishEvents (writer : ε → Int → ε) (n : Nat) :
    Action (Ring g ε) (Except RingError Grant) := do
  match ← claim n with
  | .error error => return .error error
  | .ok grant => .ok <$> finishEvents writer n grant

/-- Goes on with events whose claim waited. -/
def resumeEvents (writer : ε → Int → ε) (n : Nat) (claim : Pending) :
    Action (Ring g ε) Grant := do
  finishEvents writer n (← settle claim)

end Ring

end EventRing
