import EventRing.Sequencer.Basic
/-!
# EventRing.Sequencer.Publish

Publishing claimed sequences, and asking what is published.  With one producer a publication moves
the cursor; with many it marks the slot with the lap of the sequence, so sequences may be published
in any order, and `highestPublished` finds where the unbroken run of them ends.
-/

namespace EventRing.Sequencer

variable {g : Geometry}

/-! ## Laps -/

/-- Marks a slot with the lap of the sequence published in it. -/
def mark (laps : Vector Int32 g.size) (sequence : Int) : Vector Int32 g.size :=
  laps.set (g.slot sequence) (g.lap sequence) (g.slot_lt sequence)

/-- The slot of a sequence carries its lap. -/
def isMarked (laps : Vector Int32 g.size) (sequence : Int) : Bool :=
  laps.get (g.slot sequence) == g.lap sequence

/-- Marks `count` sequences from `lo` on. -/
def markRun (laps : Vector Int32 g.size) (lo : Int) (count : Nat) : Vector Int32 g.size :=
  (List.range count).foldl (fun laps (i : Nat) => mark laps (lo + i)) laps

/-- The first of `count` sequences from `lo` on that is not marked. -/
def firstGap (laps : Vector Int32 g.size) : Nat → Int → Option Int
  | 0, _ => none
  | count + 1, lo => if isMarked laps lo then firstGap laps count (lo + 1) else some lo

/-- The number of sequences from `lo` to `hi`. -/
def runLength (lo hi : Int) : Nat := (hi - lo + 1).toNat

/-! ## Publishing -/

/-- Wakes parked consumers, if there can be any. -/
def signal (s : Sequencer g) : Sequencer g :=
  if s.parks then { s with signals := s.signals + 1 } else s

/-- Publishes a claimed sequence; with one producer also every one before it. -/
def publish (sequence : Int) : Action (Sequencer g) Unit :=
  modify fun s => signal <| match s.ledger with
    | .solo _ => { s with cursor := sequence }
    | .shared laps => { s with ledger := .shared (mark laps sequence) }

/-- Publishes the claimed sequences from `lo` to `hi` and wakes consumers once. -/
def publishRange (lo hi : Int) : Action (Sequencer g) Unit := do
  if hi < lo then throw (.emptyRange lo hi)
  modify fun s => signal <| match s.ledger with
    | .solo _ => { s with cursor := hi }
    | .shared laps => { s with ledger := .shared (markRun laps lo (runLength lo hi)) }

/-! ## What is published -/

/-- A sequence is published and its slot not yet taken over. -/
def isPublished (s : Sequencer g) (sequence : Int) : Except Fault Bool :=
  match s.ledger with
  | .solo _ =>
    if sequence ≤ s.cursor then do
      let released ← Word.checked (s.cursor - g.size)
      return decide (released < sequence)
    else
      return false
  | .shared laps => return isMarked laps sequence

/-- The end of the run of published sequences from `lower` on, at most `available`; one below
`lower` if that is not published.  With one producer everything up to `available` is. -/
def highestPublished (s : Sequencer g) (lower available : Int) : Except Fault Int :=
  match s.ledger with
  | .solo _ => return available
  | .shared laps =>
    match firstGap laps (runLength lower available) lower with
    | none => return available
    | some gap => Word.checked (gap - 1)

end EventRing.Sequencer
