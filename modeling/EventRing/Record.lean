/-!
# EventRing.Record

The log records that the ring, its consumers and their failure policies write.  Each kind of record
has one constructor function here, so the wording stands in one place.
-/

namespace EventRing

/-- How serious a record is. -/
inductive Level where
  | trace
  | debug
  | warn
  | error
  deriving DecidableEq, Repr

/-- A value attached to a record. -/
inductive Detail where
  | number (n : Int)
  | flag (b : Bool)
  | text (s : String)
  deriving DecidableEq, Repr

/-- One line of the log. -/
structure Record where
  level : Level
  message : String
  details : List (String × Detail) := []
  deriving DecidableEq, Repr

namespace Record

/-! ## Gating and claims -/

/-- Counters began to hold producers back. -/
def gatesAdded (added total : Nat) (cursor : Int) : Record :=
  ⟨.debug, "gating sequences added",
    [("added", .number added), ("total", .number total), ("cursor", .number cursor)]⟩

/-- A counter was asked to stop holding producers back. -/
def gateRemoved (removed : Bool) (total : Nat) : Record :=
  ⟨.debug, "gating sequence removed", [("removed", .flag removed), ("total", .number total)]⟩

/-- A claim found no room and began to wait. -/
def producerWaiting (sequence slowest : Int) : Record :=
  ⟨.trace, "producer waiting for consumers",
    [("sequence", .number sequence), ("slowest", .number slowest)]⟩

/-! ## Runs of a processor -/

/-- A record about a processor at a position. -/
def atSequence (level : Level) (message : String) (sequence : Int) : Record :=
  ⟨level, message, [("sequence", .number sequence)]⟩

def running : Int → Record := atSequence .debug "processor running"
def stopped : Int → Record := atSequence .debug "processor stopped"
def haltRequested : Int → Record := atSequence .debug "processor halt requested"
def earlyExit : Record := ⟨.debug, "processor halted before start, exiting early", []⟩
def taskTimedOut : Int → Record := atSequence .debug "async processor wait timed out"
def taskStopped : Int → Record := atSequence .warn "handler failure stopped async processor"

end Record

end EventRing
