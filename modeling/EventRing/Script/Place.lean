import EventRing.Script.World
/-!
# EventRing.Script.Place

Playing on several threads.  A `Play` is a strand on the world that knows its `Place`: whether it is
the script's own thread, and whether it is inside a task.

Records are kept for the script's own thread alone.
-/

namespace EventRing.Script

/-- Where operations are played. -/
structure Place where
  /-- On the script's own thread. -/
  isMain : Bool
  /-- Inside a task. -/
  inTask : Bool := false

/-- Something played in the world. -/
abbrev Play (g : Geometry) (α : Type) : Type := ReaderT Place (Strand (World g)) α

namespace Play

variable {g : Geometry} {α : Type}

/-- Plays to the end and turns a fault into an answer. -/
def caught (act : Play g α) : Play g (Except Fault α) :=
  tryCatch (Except.ok <$> act) fun fault => return .error fault

/-- Plays inside a task, if the condition holds. -/
def inTask (condition : Bool) (act : Play g α) : Play g α :=
  withReader (fun place => { place with inTask := place.inTask || condition }) act

/-! ## The ring -/

/-- Runs an action of the sequencer. -/
def onSequencer (act : Action (Sequencer g) α) : Play g α := World.onSequencer act

/-- Runs an action of the ring. -/
def onRing (act : Action (Ring g Int) α) : Play g α := World.onRing act

/-- The event in the slot of a sequence. -/
def event (sequence : Int) : Play g Int :=
  onRing do return (← get).event sequence

/-! ## Objects -/

def counterOf (name : String) : Play g CounterId := do (← get).counters.get name

def countersOf (names : List String) : Play g (List CounterId) := names.mapM counterOf

/-- The value of a counter. -/
def counterValue (id : CounterId) : Play g Int := do return (← get).sequencer.counters.value id

/-- Makes a counter under a name. -/
def makeCounter (name : String) (value : Int) : Play g CounterId := do
  let id ← onSequencer (Sequencer.makeCounter value)
  modify fun w => { w with counters := w.counters.put name id }
  return id

def barrierNumber (name : String) : Play g BarrierId := do (← get).barriers.numbers.get name

def barrierAt (number : BarrierId) : Play g Barrier := do (← get).barriers.get number

def barrierOf (name : String) : Play g Barrier := do barrierAt (← barrierNumber name)

/-- Changes a barrier. -/
def changeBarrier (number : BarrierId) (f : Barrier → Barrier) : Play g Unit :=
  modify fun w => { w with barriers := w.barriers.change number f }

/-- Cancels a barrier, which wakes all waiters. -/
def cancelBarrier (number : BarrierId) : Play g Unit := do
  changeBarrier number Barrier.cancel
  modify fun w => { w with alarms := w.alarms + 1 }

def pollerOf (name : String) : Play g Poller := do (← get).pollers.get name

def workerNumber (name : String) : Play g WorkerId := do (← get).workers.numbers.get name

def workerAt (number : WorkerId) : Play g (Worker g) := do (← get).workers.get number

def workerOf (name : String) : Play g (Worker g) := do workerAt (← workerNumber name)

/-- Changes a processor. -/
def changeWorker (number : WorkerId) (f : Worker g → Worker g) : Play g Unit :=
  modify fun w => { w with workers := w.workers.change number f }

/-- The position of a processor. -/
def position (number : WorkerId) : Play g Int := do counterValue (← workerAt number).counter

/-! ## Logs and records -/

/-- Logs an entry for a processor. -/
def log (number : WorkerId) (entry : Entry) : Play g Unit := changeWorker number (·.record entry)

/-- Takes what a processor has logged. -/
def takeLog (number : WorkerId) : Play g (List Entry) := do
  let worker ← workerAt number
  changeWorker number fun w => { w with log := [] }
  return worker.log.reverse

/-- Writes a record. -/
def note (record : Record) : Play g Unit := do
  if (← read).isMain then
    modify fun w => { w with records := record :: w.records }

/-- Takes the records written since the last report. -/
def takeRecords : Play g (List Record) := do
  let w ← get
  unless (← read).isMain do return []
  set { w with records := [] }
  return if w.traced then w.records.reverse else []

/-! ## Other threads -/

/-- Waits for something, until a deadline if there is one. -/
def waitFor (ready : World g → Bool) (deadline : Option Nat) : Play g Unit := fun _ =>
  Strand.waitFor ready deadline

/-- Waits for something at most so many milliseconds, and says whether it holds then. -/
def waitAtMost (milliseconds : Nat) (holds : World g → Bool) : Play g Bool := fun _ =>
  Strand.waitAtMost milliseconds holds

/-- Does something with the help of another thread, if there are operations for it. -/
def helped (ops : List Op) (act : Play g α) : Play g α := fun place =>
  if ops.isEmpty then act place else Strand.helped (Arrival.helper · ops) (act place)

end Play

end EventRing.Script
