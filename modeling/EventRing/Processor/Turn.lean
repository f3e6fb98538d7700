import EventRing.Ring
import EventRing.Wait.Waiter
import EventRing.Processor.Control
import EventRing.Processor.Policy
/-!
# EventRing.Processor.Turn

The run of a processor, turn by turn.  In each `Phase` the processor asks one thing of its
surroundings, a `Request`, and the answer decides the next phase; nothing else influences it.  So a
run is determined by the answers, whatever handler, policy, barrier and halting callers give them,
and it can be suspended between any two turns.

A run passes its start hook, handles events until its control says it is no longer active, and
passes its shutdown hook.  In between it waits for the sequence after its progress, and hands over
what the wait allows:

* processors of kind `event` and `task` hand over one event at a time.  A failure that the policy
  lets pass releases the failed event and waits anew; one that stops releases what came before it.
* processors of kind `batch` hand over runs of events that do not cross the physical end of the
  ring.  A failed run is skipped as a whole, or the run before it is released.

Progress is released once everything handed over after one wait is done.  Threads check that this
does not move it backwards; tasks do not check, have no limit on what they hand over, and leave more
records.
-/

namespace EventRing

namespace Processor

/-! ## Plans -/

/-- What a processor hands its handler, and on what it runs. -/
inductive Kind where
  /-- Single events, on a thread. -/
  | event
  /-- Runs of events, on a thread. -/
  | batch
  /-- Single events, in a task. -/
  | task
  deriving DecidableEq, Repr

/-- The fixed parts of a processor's behaviour. -/
structure Plan (g : Geometry) where
  kind : Kind
  /-- The most events handed over after one wait. -/
  limit : Int

/-- The limit for a handler that has, or has not, named one: at least one event, at most what the
64-bit range allows. -/
def limitOf : Option Nat → Int
  | none => Word.greatest
  | some most => max 1 (min (most : Int) Word.greatest)

/-- The last event of the run that is handed over from `first` on: the physical end of the ring, if
that comes before `last`. -/
def lastOfRun (g : Geometry) (first last : Int) : Except Fault Int := do
  let length ← g.batchLength first last
  let past ← Word.checked (first + length)
  Word.checked (past - 1)

/-! ## Requests -/

/-- What a processor asks of its surroundings. -/
inductive Request where
  /-- Begin a run. -/
  | begin
  /-- Arm the barrier. -/
  | rearm
  /-- Call the start hook. -/
  | start
  /-- Let the policy judge a failure. -/
  | judge (incident : Incident) (failure : Failure)
  /-- Tell those who wait for the start. -/
  | announce
  /-- Is the run still active? -/
  | isActive
  /-- The progress so far. -/
  | position
  /-- Wait at the barrier for published events from `next` on. -/
  | await (next : Int)
  /-- Call the timeout hook. -/
  | timeout (last : Int)
  /-- Call the hook before events are handed over: how many there will be, and how many there are. -/
  | batchStart (size depth : Int)
  /-- Call the event hook; `last` if it is the last event after this wait. -/
  | event (sequence : Int) (last : Bool)
  /-- Call the batch hook. -/
  | batch (first last : Int)
  /-- Write a record. -/
  | note (record : Record)
  /-- Move the progress. -/
  | release (sequence : Int)
  /-- Call the shutdown hook. -/
  | shutdown
  /-- End the run. -/
  | finish

/-- What the surroundings answer.  A hook answers its failure, if any; the policy answers the failure
to stop with, if any. -/
abbrev Request.Answer : Request → Type
  | .begin => Except RingError RunMode
  | .start | .timeout _ | .event .. | .batch .. | .shutdown => Option Failure
  | .judge .. => Option Failure
  | .isActive => Bool
  | .position => Int
  | .await _ => Wait.Outcome
  | .rearm | .announce | .batchStart .. | .note _ | .release _ | .finish => Unit

/-! ## Phases -/

/-- Where a run stands. -/
inductive Phase where
  | beginning
  | rearming
  | starting (mode : RunMode)
  | startFailed (mode : RunMode) (failure : Failure)
  /-- The start hook is over; `fatal` if its failure stops the run. -/
  | announcing (mode : RunMode) (fatal : Option Failure)
  /-- A halt during the start hook ends the run here. -/
  | checking
  /-- About to read where to go on. -/
  | positioning
  | awaiting (next : Int)
  /-- The wait timed out, and the progress is read for the hook. -/
  | timing (next : Int)
  | noting (next last : Int)
  | timedOut (next last : Int)
  | timeoutFailed (next last : Int) (failure : Failure)
  /-- The wait was cancelled. -/
  | interrupted (next : Int)
  /-- The events from `next` to `last` are about to be handed over. -/
  | opening (next last available : Int)
  | delivering (next last : Int)
  | eventFailed (next last : Int) (failure : Failure)
  /-- The failed event `next` is let pass. -/
  | skipping (next : Int)
  | warning (next : Int) (failure : Failure)
  /-- The failure at `next` stops the run; what came before is released. -/
  | stopping (next : Int) (failure : Failure)
  | handing (next last : Int)
  /-- The run `first` to `cut` failed. -/
  | batchFailed (first cut last : Int) (failure : Failure)
  /-- Everything up to `last` was handed over; the progress is read to compare. -/
  | verifying (next last : Int)
  | releasing (next last : Int)
  | shuttingDown (fatal : Option Failure)
  | shutdownFailed (fatal : Option Failure) (failure : Failure)
  | finishing (fatal : Option Failure)
  /-- The run is over, with the first error that stopped it. -/
  | complete (error : Option RingError)
  /-- The run broke off. -/
  | faulted (fault : Fault)
  deriving DecidableEq

/-- One turn: a request with what each answer leads to, or the end. -/
inductive Turn where
  | ask (request : Request) (resume : request.Answer → Phase)
  | ended (error : Option RingError)
  | broken (fault : Fault)

namespace Phase

/-- Goes on if a computation succeeded. -/
def orFault : Except Fault Phase → Phase
  | .ok phase => phase
  | .error fault => .faulted fault

/-- The wait allows the events up to `available`: none after all, or as many of them as the limit
admits. -/
def admitted {g : Geometry} (plan : Plan g) (next available : Int) : Phase := orFault do
  if available < next then return .awaiting next
  let span ← Word.checked (available - next)
  let last ←
    if plan.limit ≤ span then
      let past ← Word.checked (next + plan.limit)
      Word.checked (past - 1)
    else
      pure available
  match plan.kind with
  | .batch => return .handing next last
  | .event | .task => return .opening next last available

/-- Everything up to `last` is handed over, or there is more. -/
def advanced {g : Geometry} (plan : Plan g) (done last : Int) : Phase := orFault do
  let next ← Word.checked (done + 1)
  if next ≤ last then
    match plan.kind with
    | .batch => return .handing next last
    | .event | .task => return .delivering next last
  else
    match plan.kind with
    | .task => return .releasing next last
    | .event | .batch => return .verifying next last

end Phase

/-! ## Turns -/

/-- How many events there are from `lo` to `hi`, as the batch-start hook is told. -/
def depth (lo hi : Int) : Except Fault Int := do
  let span ← Word.checked (hi - lo)
  Word.checked (span + 1)

/-- The turn of a processor in each phase. -/
@[grind =]
def Plan.turn {g : Geometry} (plan : Plan g) : Phase → Turn
  | .beginning => .ask .begin fun
    | .error error => .complete (some error)
    | .ok .run => .rearming
    | .ok .earlyExit => .starting .earlyExit
  | .rearming => .ask .rearm fun _ => .starting .run
  | .starting mode => .ask .start fun
    | none => .announcing mode none
    | some failure => .startFailed mode failure
  | .startFailed mode failure => .ask (.judge .start failure) fun fatal => .announcing mode fatal
  | .announcing mode fatal => .ask .announce fun _ =>
    match mode, fatal with
    | .run, none => .checking
    | _, _ => .shuttingDown fatal
  | .checking => .ask .isActive fun
    | true => .positioning
    | false => .shuttingDown none
  | .positioning => .ask .position fun position =>
    .orFault do return .awaiting (← Word.checked (position + 1))
  | .awaiting next => .ask (.await next) fun
    | .available available => .admitted plan next available
    | .timeout => .timing next
    | .cancelled => .interrupted next
  | .timing next => .ask .position fun last =>
    match plan.kind with
    | .task => .noting next last
    | .event | .batch => .timedOut next last
  | .noting next last => .ask (.note (Record.taskTimedOut last)) fun _ => .timedOut next last
  | .timedOut next last => .ask (.timeout last) fun
    | none => .awaiting next
    | some failure => .timeoutFailed next last failure
  | .timeoutFailed next last failure => .ask (.judge (.timeout last) failure) fun
    | none => .awaiting next
    | some fatal => .shuttingDown (some fatal)
  | .interrupted next => .ask .isActive fun
    | true => .awaiting next
    | false => .shuttingDown none
  | .opening next last available =>
    match depth next last, depth next available with
    | .ok size, .ok depth => .ask (.batchStart size depth) fun _ => .delivering next last
    | .error fault, _ | _, .error fault => .broken fault
  | .delivering next last => .ask (.event next (next = last)) fun
    | none => .advanced plan next last
    | some failure => .eventFailed next last failure
  | .eventFailed next _ failure => .ask (.judge (.event next) failure) fun
    | none => .skipping next
    | some fatal =>
      match plan.kind with
      | .task => .warning next fatal
      | .event | .batch => .stopping next fatal
  | .skipping next => .ask (.release next) fun _ =>
    .orFault do return .awaiting (← Word.checked (next + 1))
  | .warning next failure => .ask (.note (Record.taskStopped next)) fun _ => .stopping next failure
  | .stopping next failure =>
    match Word.checked (next - 1) with
    | .ok before => .ask (.release before) fun _ => .shuttingDown (some failure)
    | .error fault => .broken fault
  | .handing next last =>
    match lastOfRun g next last with
    | .ok cut => .ask (.batch next cut) fun
      | none => .advanced plan cut last
      | some failure => .batchFailed next cut last failure
    | .error fault => .broken fault
  | .batchFailed first cut last failure =>
    .ask (.judge (.batch first (Sequencer.runLength first cut)) failure) fun
    | none => .advanced plan cut last
    | some fatal => .stopping first fatal
  | .verifying next last => .ask .position fun position =>
    if last < position then .faulted (.backwards position last) else .releasing next last
  | .releasing next last => .ask (.release last) fun _ => .awaiting next
  | .shuttingDown fatal => .ask .shutdown fun
    | none => .finishing fatal
    | some failure => .shutdownFailed fatal failure
  | .shutdownFailed fatal failure => .ask (.judge .shutdown failure) fun late =>
    .finishing (fatal.or late)
  | .finishing fatal => .ask .finish fun _ => .complete (fatal.map .handler)
  | .complete error => .ended error
  | .faulted fault => .broken fault

end Processor

end EventRing
