import EventRing.Failure
import EventRing.Record
import EventRing.Poller
import EventRing.Script.Op
/-!
# EventRing.Script.Answer

What a script reports: for each operation an `Answer`, and with it a `View` of the ring and the
records written meanwhile.  A run reports the log of its processor, whose entries hold the steps that
were played inside it.
-/

namespace EventRing.Script

/-- What the ring looks like from outside after a step; a number that cannot be computed is left
out. -/
structure View where
  cursor : Int
  remaining : Option Int
  lowestGate : Option Int
  signals : Nat
  counters : List (String × Int)

/-- The settings of a ring. -/
structure Info where
  size : Nat
  sharedByProducers : Bool
  parks : Bool
  timeout : Option Nat

/-- A view of events. -/
structure BatchReport where
  first : Int
  last : Int
  events : List Int
  pairs : List (Int × Int)
  picked : List (Option Int)
  text : String

/-- The state of a barrier. -/
structure BarrierReport where
  cancelled : Bool
  cursor : Int
  value : Int
  front : Nat
  size : Nat

/-- How a run ended. -/
inductive Ending where
  | done
  | stopped (error : RingError)
  | broken (fault : Fault)

mutual

/-- The report on one operation. -/
inductive Answer where
  | done
  | absent
  | wouldBlock
  | number (n : Int)
  | flag (b : Bool)
  | text (s : String)
  | flags (bs : List Bool)
  | numbers (ns : List Int)
  | refused (error : RingError)
  | faulted (fault : Fault)
  | info (info : Info)
  | view (report : BatchReport)
  | tried (sequence : Option Int)
  | openEvent (sequence before : Int) (during : List Step)
  | openBlock (lo hi : Int) (length : Nat) (before : List (Int × Int)) (sets : List Bool)
      (during : List Step)
  | waited (outcome : Wait.Outcome)
  | barrier (report : BarrierReport)
  | polled (result : PollResult String) (seen : List Entry)
  | ran (ending : Ending) (log : List Entry)
  | calls (counts : List (Hook × Nat))

/-- An operation with what could be seen after it. -/
inductive Step where
  | step (answer : Answer) (view : Option View) (records : List Record)

/-- An entry of a log. -/
inductive Entry where
  | counterReceived (value : Int)
  | start
  | shutdown
  | timeout (last : Int)
  | batchStart (size depth : Int)
  | event (sequence value : Int) (last : Bool)
  | batch (first last : Int) (values : List Int)
  | ops (steps : List Step)
  /-- The policy judged a failure; `verdict` holds the texts of the failure to stop with. -/
  | judged (incident : Incident) (value : Int) (text : String) (verdict : Option (List String))
  | wait (target : Int)
  | autoHalt
  | idle (steps : List Step)

end

/-- The answer of a step. -/
def Step.answer : Step → Answer
  | .step answer _ _ => answer

/-- The step broke off, so the script ends here. -/
def Step.isFaulted (s : Step) : Bool :=
  match s.answer with
  | .faulted _ => true
  | _ => false

end EventRing.Script
