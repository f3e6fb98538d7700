import EventRing.Word
import EventRing.Wait.Waiter
import EventRing.Processor.Turn
/-!
# EventRing.Script.Op

The operations a script can play on a ring or on a bare sequencer.  Objects are named by the script.
Operations nest: a handler may play operations when it is called, an open claim before it is
published, and another thread (a *helper*) while an operation waits; without operations for a helper
there is none.
-/

namespace EventRing.Script

/-! ## Parts of operations -/

/-- What is written to a slot: `value + factor * sequence`, on top of the old event if it
accumulates. -/
structure Writing where
  value : Int := 0
  factor : Int := 0
  accumulate : Bool := false

/-- The event after a write; events are words that wrap. -/
def Writing.apply (w : Writing) (old sequence : Int) : Int :=
  let fresh := w.value + w.factor * sequence
  Word.wrap (if w.accumulate then old + fresh else fresh)

/-- The hooks of a handler. -/
inductive Hook where
  | start
  | shutdown
  | timeout
  | batchStart
  | event
  | batch
  deriving DecidableEq, Repr

/-- Operations that a handler plays in a hook: at its `nth` call, or for a sequence, or always. -/
structure Attached (α : Type) where
  hook : Hook
  nth : Option Int := none
  sequence : Option Int := none
  ops : List α

/-- A scripted handler. -/
structure Handler (α : Type) where
  attached : List (Attached α) := []
  /-- Releases each event as soon as it has seen it. -/
  release : Bool := false
  /-- So many first calls of the start hook fail; likewise the next two. -/
  failStart : Nat := 0
  failShutdown : Nat := 0
  failTimeout : Nat := 0
  /-- The handler breaks off at these events. -/
  faultAt : List Int := []
  /-- These events fail the first time they are seen. -/
  failOnce : List Int := []
  /-- These events fail every time. -/
  fail : List Int := []
  maxBatch : Option Nat := none

/-- What happens when a run has to wait: operations are played, and the wait may be given an
outcome. -/
structure Idle (α : Type) where
  ops : List α := []
  outcome : Option Wait.Outcome := none

/-- A processor to be made. -/
structure ProcessorSpec (α : Type) where
  name : String
  kind : Processor.Kind
  front : List String := []
  owner : Option String := none
  policy : Policy := .skip
  handler : Handler α
  /-- Only the event or batch hook is there. -/
  minimal : Bool := false

/-- Operations that a poll's handler plays at a sequence. -/
structure PollPlay (α : Type) where
  sequence : Int
  ops : List α

/-- What can be described. -/
inductive Described where
  | ring
  | publisher
  | barrier
  | poller
  | processor
  | thread
  | handle
  deriving DecidableEq, Repr

/-! ## Operations -/

/-- An operation of a script. -/
inductive Op where
  -- counters and gates
  | makeCounter (name : String) (value : Option Int)
  | setCounter (name : String) (value : Int)
  | swapCounter (name : String) (expected value : Int)
  | addCounter (name : String) (delta : Int)
  | gate (names : List String)
  | ungate (name : String)
  -- claims by hand
  | claim (n : Nat) (helper : List Op)
  | tryClaim (n : Nat)
  | publish (sequence : Int)
  | publishRange (lo hi : Int)
  | reposition (sequence : Int)
  | resetTo (sequence : Int)
  | hasCapacity (n : Nat)
  | isPublished (sequences : List Int)
  | highest (lower available : Int)
  | info
  -- slots
  | put (sequence : Int) (writing : Writing)
  | read (sequences : List Int)
  | view (lo hi : Int) (indices : List Nat)
  -- publishers
  | publisher (name : String)
  | dropPublisher (name : String)
  | publishEvent (name : String) (writing : Writing) (helper : List Op)
  | tryPublishEvent (name : String) (writing : Writing)
  | publishEvents (name : String) (n : Nat) (writing : Writing) (helper : List Op)
  /-- Holds a claim of one slot open; `waits` if it may wait for room. -/
  | openEvent (name : String) (waits : Bool) (writing : Writing) (during : List Op)
      (overwrite : Option Int) (helper : List Op)
  /-- Holds a claim of `n` slots open; `sets` writes single slots of it once more. -/
  | openBlock (name : String) (waits : Bool) (n : Nat) (writing : Writing)
      (sets : List (Nat × Int)) (during : List Op) (helper : List Op)
  -- barriers
  | barrier (name : String) (front : List String) (owner : Option String)
  | wait (name : String) (side : Wait.Side) (published : Bool) (sequence : Int)
      (helper : List Op)
  | barrierHighest (name : String) (lower available : Int)
  | cancelBarrier (name : String)
  | rearmBarrier (name : String)
  | barrierInfo (name : String)
  -- pollers
  | poller (name : String) (front : List String)
  | poll (name : String) (stop fail : List Int) (plays : List (PollPlay Op))
  -- processors
  | processor (spec : ProcessorSpec Op)
  | run (name : String) (idle : List (Idle Op)) (helper : List Op)
  | halt (name : String)
  | isRunning (name : String)
  | handleSequence (name : String)
  | waitStarted (name : String) (milliseconds : Nat)
  | handlerCalls (name : String)
  | setHandler (name : String) (handler : Handler Op)
  -- threads
  | start (name thread : String)
  | awaitSequence (name : String) (value : Int)
  | awaitFinished (name : String)
  | join (name : String)
  -- texts
  | describe (what : Described) (name : String)

end EventRing.Script
