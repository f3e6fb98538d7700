import EventRing.Barrier
import EventRing.Poller
import EventRing.Publisher
import EventRing.Processor.Turn
import EventRing.Text.Hidden
/-!
# EventRing.Describe

The texts in which the parts of a ring show themselves to a person.  A text names the kind of thing,
then its shown fields in braces; two dots stand for what is not shown.
-/

namespace EventRing

/-! ## The form -/

namespace Describe

/-- A thing with shown fields; `more` if it has others. -/
def thing (kind : String) (fields : List (String × String)) (more : Bool) : String :=
  let shown := fields.map fun (name, value) => name ++ ": " ++ value
  let parts := if more then shown ++ [".."] else shown
  kind ++ " \x7b " ++ ", ".intercalate parts ++ " \x7d"

/-- The hexadecimal digits of a number, in lower case. -/
def hex (n : Nat) : String := String.ofList (Nat.toDigits 16 n)

/-- A character inside a quoted text. -/
def quotedChar (c : Char) : String :=
  match c with
  | '"' => "\\\""
  | '\\' => "\\\\"
  | '\n' => "\\n"
  | '\r' => "\\r"
  | '\t' => "\\t"
  | '\x00' => "\\0"
  | c => if Text.isHidden c then "\\u\x7b" ++ hex c.toNat ++ "\x7d" else c.toString

/-- A text in quotes. -/
def quoted (s : String) : String := "\"" ++ String.join (s.toList.map quotedChar) ++ "\""

/-- A list of values in brackets. -/
def list (values : List String) : String := "[" ++ ", ".intercalate values ++ "]"

end Describe

open Describe

/-! ## Parts of a ring -/

variable {g : Geometry}

def Backoff.describe (b : Backoff) : String := thing "Backoff" [("step", toString b.step)] false

/-- A ring shows its size, its cursor and whether it is for many producers. -/
def Sequencer.describeRing (s : Sequencer g) : String :=
  thing "RingBuffer"
    [("buffer_size", toString g.size), ("cursor", toString s.cursor),
      ("multi_producer", toString (decide (s.producers = .many)))] true

def Sequencer.describePublisher (s : Sequencer g) : String :=
  thing "Publisher" [("cursor", toString s.cursor)] false

def Batch.describe (b : Batch Int) : String :=
  thing "EventBatch"
    [("first_sequence", toString b.first), ("events", list (b.events.toList.map toString))] false

def Barrier.describe (b : Barrier) (s : Sequencer g) : String :=
  thing "SequenceBarrier"
    [("cursor", toString s.cursor), ("dependencies", toString b.front.length),
      ("cancelled", toString b.cancelled),
      ("is_dependent_sequence_published", toString (!b.scans))] true

def Poller.describe (p : Poller) (s : Sequencer g) : String :=
  thing "EventPoller"
    [("sequence", toString (s.counters.value p.counter)),
      ("dependencies", toString p.front.length)] true

/-! ## Processors -/

def RunState.label : RunState → String
  | .idle => "idle"
  | .halted => "halted"
  | .running => "running"

def Control.describe (c : Control) (position : Int) : String :=
  thing "ProcessorControl"
    [("state", quoted c.state.label), ("sequence", toString position)] true

def Control.describeHandle (c : Control) (position : Int) : String :=
  thing "ProcessorHandle" [("control", c.describe position)] false

/-- A thread shows the handle of its processor and its own name. -/
def Control.describeThread (c : Control) (position : Int) (name : String) : String :=
  thing "ProcessorThread"
    [("handle", c.describeHandle position), ("thread", "Some(" ++ quoted name ++ ")")] false

def Processor.Kind.label : Processor.Kind → String
  | .event => "BatchEventProcessor"
  | .batch => "EventBatchProcessor"
  | .task => "AsyncBatchEventProcessor"

def Processor.describe (kind : Processor.Kind) (control barrier : String) : String :=
  thing kind.label [("control", control), ("barrier", barrier)] true

end EventRing
