import EventRing.Failure
import EventRing.Record
/-!
# EventRing.Processor.Policy

What a processor does about a failure of its handler: go on, or stop with an error.  Three policies
are given, which also write a record; a custom policy stops for the kinds of incident it names.
-/

namespace EventRing

/-- At which call a handler failed. -/
inductive Incident where
  | event (sequence : Int)
  /-- The events from `first` on, `length` of them. -/
  | batch (first : Int) (length : Nat)
  /-- A wait timed out at position `last`. -/
  | timeout (last : Int)
  | start
  | shutdown
  deriving DecidableEq, Repr

/-- For which kinds of incident a custom policy stops. -/
structure Stops where
  event : Bool := false
  batch : Bool := false
  timeout : Bool := false
  start : Bool := false
  shutdown : Bool := false
  deriving DecidableEq, Repr

/-- A policy for failures. -/
inductive Policy where
  /-- Skip what failed; failures of the start and shutdown hooks stop. -/
  | skip
  /-- Stop at any failure, with the sequence added to it. -/
  | fatal
  /-- Skip everything. -/
  | ignore
  | custom (stops : Stops)
  deriving DecidableEq, Repr

namespace Policy

/-- The sequence and length that a record of an incident shows. -/
def details : Incident → List (String × Detail)
  | .event sequence | .timeout sequence | .batch sequence _ => [("sequence", .number sequence)]
  | .start | .shutdown => []

/-- A record of an incident. -/
def record (incident : Incident) (failure : Failure) (message : String) : Record :=
  ⟨.error, message, details incident ++ [("error", .text failure.text)]⟩

/-- The decision about an incident: `none` to go on, or the failure to stop with. -/
def judge : Policy → Incident → Failure → Option Failure
  | .skip, .start, failure | .skip, .shutdown, failure => some failure
  | .skip, _, _ => none
  | .fatal, .event sequence, failure => some (failure.within s!"event at sequence {sequence}")
  | .fatal, .batch first _, failure =>
    some (failure.within s!"batch starting at sequence {first}")
  | .fatal, _, failure => some failure
  | .ignore, _, _ => none
  | .custom stops, incident, failure =>
    let stop := match incident with
      | .event _ => stops.event
      | .batch .. => stops.batch
      | .timeout _ => stops.timeout
      | .start => stops.start
      | .shutdown => stops.shutdown
    if stop then some (failure.within "custom stop") else none

/-- The record written about an incident, if the policy writes one. -/
def recordOf (policy : Policy) (incident : Incident) (failure : Failure) : Option Record :=
  match policy, incident with
  | .custom _, _ => none
  | .skip, .event _ => record incident failure "event handler failed, skipping event"
  | .skip, .batch first length =>
    some ⟨.error, "batch handler failed, skipping batch",
      [("sequence", .number first), ("len", .number length), ("error", .text failure.text)]⟩
  | .skip, .timeout _ => record incident failure "timeout handler failed"
  | .fatal, .event _ => record incident failure "event handler failed, stopping processor"
  | .fatal, .batch .. => record incident failure "batch handler failed, stopping processor"
  | .fatal, .timeout _ => record incident failure "timeout handler failed, stopping processor"
  | .ignore, .event _ => record incident failure "ignoring event handler failure"
  | .ignore, .batch .. => record incident failure "ignoring batch handler failure"
  | .ignore, .timeout _ => record incident failure "ignoring timeout handler failure"
  | .ignore, .start => record incident failure "ignoring start hook failure"
  | .ignore, .shutdown => record incident failure "ignoring shutdown hook failure"
  | _, .start => record incident failure "start hook failed"
  | _, .shutdown => record incident failure "shutdown hook failed"

end Policy

end EventRing
