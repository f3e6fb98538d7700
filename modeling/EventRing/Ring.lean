import EventRing.Sequencer.Claim
import EventRing.Sequencer.Publish
/-!
# EventRing.Ring

The ring itself: a sequencer and one event per slot.  The events are made once, by a factory, and
are written over again and again; a sequence names the event in its slot.

A `Batch` is a view of consecutive events.  It never crosses the physical end of the ring, so a
range that does is cut there and the rest of it needs a second view.
-/

namespace EventRing

/-! ## State -/

/-- A ring of events of type `ε`. -/
structure Ring (g : Geometry) (ε : Type) where
  sequencer : Sequencer g
  slots : Vector ε g.size
  /-- A publisher is out; only a ring for one producer keeps count. -/
  publisherTaken : Bool := false

namespace Ring

variable {g : Geometry} {ε α : Type}

/-- A ring over a sequencer, with the event of each slot made by the factory, in slot order. -/
def make (sequencer : Sequencer g) (factory : Nat → ε) : Ring g ε where
  sequencer := sequencer
  slots := Vector.ofFn fun slot => factory slot

/-- Runs an action of the sequencer. -/
def onSequencer (act : Action (Sequencer g) α) : Action (Ring g ε) α :=
  Action.onPart sequencer (fun sequencer ring => { ring with sequencer := sequencer }) act

/-! ## Slots -/

/-- The event in the slot of a sequence. -/
def event (ring : Ring g ε) (sequence : Int) : ε := ring.slots.get (g.slot sequence)

/-- The ring with another event in the slot of a sequence. -/
def putEvent (ring : Ring g ε) (sequence : Int) (event : ε) : Ring g ε :=
  { ring with slots := ring.slots.set (g.slot sequence) event (g.slot_lt sequence) }

/-- Writes the event of a sequence; the write sees the old event and the sequence. -/
def write (write : ε → Int → ε) (sequence : Int) : Action (Ring g ε) Unit :=
  modify fun ring => ring.putEvent sequence (write (ring.event sequence) sequence)

/-- Writes the events of `count` sequences from `lo` on, in order. -/
def writeRun (writer : ε → Int → ε) (lo : Int) (count : Nat) : Action (Ring g ε) Unit :=
  modify fun ring => (List.range count).foldl
    (fun ring (i : Nat) => ring.putEvent (lo + i) (writer (ring.event (lo + i)) (lo + i))) ring

/-- Moves the claim position and publishes it, as if everything up to it had been published. -/
def resetTo (sequence : Int) : Action (Ring g ε) Unit := do
  onSequencer (Sequencer.reposition sequence)
  onSequencer (Sequencer.publish sequence)

end Ring

/-! ## Views -/

/-- A view of consecutive events. -/
structure Batch (ε : Type) where
  /-- The sequence of the first event. -/
  first : Int
  events : Array ε

namespace Batch

variable {ε : Type} (b : Batch ε)

/-- The number of events. -/
def length : Nat := b.events.size

/-- The sequence of the last event; one below the first if there is none. -/
def last : Except Fault Int := do
  let past ← Word.checked (b.first + b.length)
  Word.checked (past - 1)

/-- The event at a position of the view. -/
def event? (index : Nat) : Option ε := b.events[index]?

/-- The events with their sequences. -/
def pairs : List (Int × ε) :=
  b.events.toList.zipIdx.map fun (event, offset) => (b.first + offset, event)

end Batch

/-- How many sequences from `lo` to `hi` share the lap of `lo`: none beyond the physical end. -/
def Geometry.batchLength (g : Geometry) (lo hi : Int) : Except Fault Nat := do
  if hi < lo then throw (.emptyRange lo hi)
  let span ← Word.checked (hi - lo)
  let wanted ← Word.checked (span + 1)
  return min wanted.toNat (g.size - g.slot lo)

/-- The view of the events from `lo` to `hi`, cut at the physical end of the ring. -/
def Ring.batch {g : Geometry} {ε : Type} (ring : Ring g ε) (lo hi : Int) :
    Except Fault (Batch ε) := do
  let length ← g.batchLength lo hi
  let start : Nat := g.slot lo
  return ⟨lo, ring.slots.toArray.extract start (start + length)⟩

end EventRing
