import EventRing.Describe
import EventRing.Threads
/-!
# EventRing.Bench.Controlling

The control of a processor on the bench: its state, the cancellation of its barrier and its position,
moved by the calls that a processor and those who control it would make.
-/

namespace EventRing.Bench

/-- A control with what belongs to it. -/
structure Controlling where
  control : Control := {}
  /-- The barrier is cancelled. -/
  cancelled : Bool := false
  position : Int := Counter.initial

/-- An operation on the bench. -/
inductive ControlOp where
  | begin
  | announce
  | finish
  | halt
  | rearm
  | setPosition (value : Int)
  /-- Waits so many milliseconds for the start of a run, which another thread may announce meanwhile. -/
  | waitStarted (milliseconds : Nat) (announced : Bool)
  | describe
  deriving DecidableEq, Repr

/-- What an operation answers. -/
inductive ControlAnswer where
  | done
  | began (mode : RunMode)
  | refused (error : RingError)
  | number (n : Int)
  | flag (b : Bool)
  | texts (control handle : String)
  deriving DecidableEq, Repr

/-- An operation with what could be seen after it. -/
structure ControlStep where
  answer : ControlAnswer
  records : List Record
  isRunning : Bool
  isActive : Bool
  cancelled : Bool

namespace Controlling

/-- Performs an operation: its answer, the records it writes, and the bench afterwards. -/
def perform (b : Controlling) : ControlOp → ControlAnswer × List Record × Controlling
  | .begin =>
    match b.control.begin with
    | .error error => (.refused error, [], b)
    | .ok (.run, control) => (.began .run, [Record.running b.position], { b with control := control })
    | .ok (.earlyExit, control) =>
      (.began .earlyExit, [Record.earlyExit], { b with control := control })
  | .announce => (.done, [], { b with control := b.control.announce })
  | .finish => (.done, [Record.stopped b.position], { b with control := b.control.finish })
  | .halt =>
    (.done, [Record.haltRequested b.position],
      { b with control := b.control.halt, cancelled := true })
  | .rearm => (.done, [], { b with cancelled := false })
  | .setPosition value => (.number value, [], { b with position := value })
  | .waitStarted milliseconds announced =>
    let isHeard := announced && Strand.helperDelay < milliseconds
    let control := if announced then b.control.announce else b.control
    (.flag (b.control.started || isHeard), [], { b with control := control })
  | .describe =>
    (.texts (b.control.describe b.position) (b.control.describeHandle b.position), [], b)

/-- Performs operations one after the other. -/
def steps (b : Controlling) : List ControlOp → List ControlStep
  | [] => []
  | op :: rest =>
    let (answer, records, b) := b.perform op
    ⟨answer, records, b.control.isRunning, b.control.isActive, b.cancelled⟩ :: b.steps rest

end Controlling

end EventRing.Bench
