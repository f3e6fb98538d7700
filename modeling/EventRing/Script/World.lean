import EventRing.Threads
import EventRing.Publisher
import EventRing.Barrier
import EventRing.Poller
import EventRing.Processor.Turn
import EventRing.Script.Answer
/-!
# EventRing.Script.World

Everything a script has made so far: the ring or bare sequencer it plays on, the objects around it,
its threads, and the records written since the last report.

Objects have names and numbers.  A name given again moves to the new object, but whoever holds the old
one, such as a wait that has begun or a run on its way, holds it by its number and is not disturbed.
-/

namespace EventRing.Script

/-! ## Named objects -/

/-- Objects by name, in the order they were named. -/
abbrev Names (α : Type) := List (String × α)

namespace Names

variable {α : Type}

/-- Names an object; a name given again moves to the new object. -/
def put (names : Names α) (name : String) (object : α) : Names α :=
  if names.any (·.1 = name) then
    names.map fun entry => if entry.1 = name then (name, object) else entry
  else names ++ [(name, object)]

/-- Forgets a name. -/
def erase (names : Names α) (name : String) : Names α := names.filter (·.1 ≠ name)

/-- The object of a name; without one the script breaks off. -/
def get (names : Names α) (name : String) : Except Fault α :=
  match names.lookup name with
  | some object => .ok object
  | none => .error (.unknown name)

end Names

/-- Objects that change, each under its number, and the numbers of those that have a name. -/
structure Roster (α : Type) where
  numbers : Names Nat := []
  objects : Array α := #[]

namespace Roster

variable {α : Type}

/-- Takes a new object in; its number is how many there were before. -/
def add (r : Roster α) (object : α) : Roster α := { r with objects := r.objects.push object }

/-- Takes a new object in under a name. -/
def enter (r : Roster α) (name : String) (object : α) : Roster α :=
  { r.add object with numbers := r.numbers.put name r.objects.size }

/-- Changes the object of a number. -/
def change (r : Roster α) (number : Nat) (f : α → α) : Roster α :=
  { r with objects := r.objects.modify number f }

/-- The object of a number; without one the script breaks off. -/
def get (r : Roster α) (number : Nat) : Except Fault α :=
  match r.objects[number]? with
  | some object => .ok object
  | none => .error (.unknown (toString number))

end Roster

/-! ## Processors -/

/-- The number of a barrier. -/
abbrev BarrierId := Nat

/-- The number of a processor. -/
abbrev WorkerId := Nat

/-- A thread that runs a processor. -/
structure Thread where
  name : String
  /-- How the run ended. -/
  ending : Option Ending := none

/-- A processor with its scripted handler. -/
structure Worker (g : Geometry) where
  plan : Processor.Plan g
  barrier : BarrierId
  control : Control := {}
  counter : CounterId
  policy : Policy
  handler : Handler Op
  minimal : Bool
  /-- How often each hook was called. -/
  calls : List (Hook × Nat) := []
  /-- Events that have failed once and will not again. -/
  failed : List Int := []
  /-- What was logged since the last report, the latest first. -/
  log : List Entry := []
  /-- Waits of the current run go through the script. -/
  watched : Bool := false
  idle : List (Idle Op) := []
  thread : Option Thread := none
  /-- The processor was lost with its thread. -/
  gone : Bool := false

namespace Worker

variable {g : Geometry}

/-- The handler was given the progress counter. -/
def hearsCounter (w : Worker g) : Bool := w.plan.kind ≠ .task && !w.minimal

/-- The waits of the processor belong to a thread or to a task. -/
def side (w : Worker g) : Wait.Side :=
  match w.plan.kind with
  | .task => .task
  | .event | .batch => .thread

/-- How often a hook was called. -/
def callsOf (w : Worker g) (hook : Hook) : Nat := (w.calls.lookup hook).getD 0

/-- One more call of a hook. -/
def tally (w : Worker g) (hook : Hook) : Worker g :=
  let count := w.callsOf hook + 1
  { w with calls := (hook, count) :: w.calls.filter (·.1 ≠ hook) }

def record (w : Worker g) (entry : Entry) : Worker g := { w with log := entry :: w.log }

/-- The thread of the processor has come to its end. -/
def isFinished (w : Worker g) : Bool := w.thread.any (·.ending.isSome)

end Worker

/-! ## The world -/

/-- What a script plays on. -/
inductive Subject (g : Geometry) where
  | bare (sequencer : Sequencer g)
  | ring (ring : Ring g Int)

/-- The sequencer of a subject. -/
def Subject.sequencer {g : Geometry} : Subject g → Sequencer g
  | .bare s => s
  | .ring r => r.sequencer

/-- A thread that was made and has not begun. -/
inductive Arrival where
  /-- Runs a processor. -/
  | worker (number : WorkerId)
  /-- Plays operations a little later. -/
  | helper (number : Nat) (ops : List Op)

structure World (g : Geometry) where
  subject : Subject g
  strategy : Wait.Strategy
  /-- Records are reported. -/
  traced : Bool := false
  counters : Names CounterId := []
  publishers : Names Unit := []
  barriers : Roster Barrier := {}
  pollers : Names Poller := []
  workers : Roster (Worker g) := {}
  /-- The records written since the last report, the latest first. -/
  records : List Record := []
  /-- How often waiters were woken by a cancellation. -/
  alarms : Nat := 0
  threads : Threads Arrival := {}

namespace World

variable {g : Geometry} {α : Type}

instance : Shared (World g) Arrival where
  threads := World.threads
  change f w := { w with threads := f w.threads }

def sequencer (w : World g) : Sequencer g := w.subject.sequencer

/-- How often waiters were woken, by publications and by cancellations. -/
def wakings (w : World g) : Nat := w.sequencer.signals + w.alarms

/-- A new barrier behind some counters. -/
def freshBarrier (w : World g) (front : List CounterId) (owner : Option String) : Barrier :=
  Barrier.make w.sequencer (w.strategy.waiter owner) front

/-- What the ring looks like from outside. -/
def view (w : World g) : View where
  cursor := w.sequencer.cursor
  remaining := w.sequencer.remaining.toOption
  lowestGate := some w.sequencer.lowestGate
  signals := w.sequencer.signals
  counters := w.counters.map fun (name, id) => (name, w.sequencer.counters.value id)

/-- Runs an action of the sequencer. -/
def onSequencer (act : Action (Sequencer g) α) : Action (World g) α :=
  Action.onPart sequencer
    (fun s w => { w with subject := match w.subject with
      | .bare _ => .bare s
      | .ring r => .ring { r with sequencer := s } }) act

/-- Runs an action of the ring; a bare sequencer has no slots. -/
def onRing (act : Action (Ring g Int) α) : Action (World g) α := fun w =>
  match w.subject with
  | .bare _ => .error (.unknown "slots") w
  | .ring r => Action.onPart (fun _ => r) (fun r w => { w with subject := .ring r }) act w

end World

end EventRing.Script
