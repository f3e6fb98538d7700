/-!
# EventRing.Failure

What can go wrong without breaking anything: the errors that operations answer to their callers.
A `Failure` is what a handler reports, with the causes behind it; a `RingError` is what the ring and
its processors report.  The wording of each error is in `RingError.message` alone.
-/

namespace EventRing

/-! ## Failures of handlers -/

/-- A failure as reported: its own text, and the texts of its causes from the nearest to the root. -/
structure Failure where
  text : String
  causes : List String := []
  deriving DecidableEq, Repr, Inhabited

namespace Failure

/-- The texts of a failure and its causes, outermost first. -/
def chain (f : Failure) : List String := f.text :: f.causes

/-- The same failure seen from further out, with a new outermost text. -/
def within (f : Failure) (context : String) : Failure := ⟨context, f.chain⟩

/-- A failure from its texts, root cause first; each next text is put around what came before. -/
def ofRoot (root : String) (contexts : List String) : Failure :=
  contexts.foldl within ⟨root, []⟩

end Failure

/-! ## Errors of the ring -/

/-- The errors a caller can be answered. -/
inductive RingError where
  /-- The ring was asked to have a size that is no power of two in range. -/
  | invalidBufferSize (size : Nat)
  /-- A claim of no slot at all or of more slots than the ring has. -/
  | invalidClaimSize (requested size : Nat)
  /-- A second publisher on a ring for one producer. -/
  | publisherInUse
  /-- A run on a processor that is already in a run. -/
  | alreadyRunning
  /-- A failure that the policy of the processor let stop it. -/
  | handler (failure : Failure)
  /-- The thread for a processor could not be made. -/
  | spawn (reason : String)
  /-- The thread of a processor ended in a fault. -/
  | processorFaulted
  deriving DecidableEq, Repr

namespace RingError

/-- The text of an error; a handler's failure shows its outermost text only. -/
def message : RingError → String
  | .invalidBufferSize size => s!"buffer size must be a positive power of two, got {size}"
  | .invalidClaimSize requested size => s!"cannot claim {requested} slots from a ring of {size}"
  | .publisherInUse => "single-producer ring buffer already has a live publisher"
  | .alreadyRunning => "event processor is already running"
  | .handler failure => s!"event handler failed: {failure.text}"
  | .spawn reason => s!"failed to spawn processor thread: {reason}"
  | .processorFaulted => "event processor thread panicked"

/-- An error that the configuration of the ring is to blame for. -/
def isConfiguration : RingError → Bool
  | .invalidBufferSize _ => true
  | _ => false

/-- An error that the use of a well-configured ring is to blame for. -/
def isUsage : RingError → Bool
  | .invalidClaimSize .. | .publisherInUse | .alreadyRunning => true
  | _ => false

end RingError

end EventRing
