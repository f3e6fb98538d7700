import EventRing.Script.Waiting
/-!
# EventRing.Script.Run

Runs of processors with scripted handlers.  A run makes its requests one after the other, and this
module answers them from the world: hooks are logged and play the operations attached to them, waits
go to the barrier.

A run that a script makes itself must not wait for ever, so its waits are watched: each wait that
cannot end at once takes the next idle entry, which may play operations or give the wait an outcome;
when no entry is left the processor is halted.  A run on a thread of its own just waits.
-/

namespace EventRing.Script

open Processor (Request Phase)

/-- The operations belong to the `nth` call of the hook, made for a sequence or for none. -/
def Attached.matches {α : Type} (a : Attached α) (hook : Hook) (nth : Nat)
    (sequence : Option Int) : Bool :=
  a.hook = hook && a.nth.all (· = Int.ofNat nth) && a.sequence.all (fun s => some s = sequence)

namespace Play

variable {g : Geometry} (play : List Op → Play g (List Step))

/-! ## Control -/

/-- Halts a processor and ends its waits. -/
def halt (number : WorkerId) : Play g Unit := do
  let worker ← workerAt number
  changeWorker number fun w => { w with control := w.control.halt }
  cancelBarrier worker.barrier
  note (Record.haltRequested (← position number))

/-- Begins a run of a processor. -/
def begin (number : WorkerId) : Play g (Except RingError RunMode) := do
  match (← workerAt number).control.begin with
  | .error error => return .error error
  | .ok (mode, control) =>
    changeWorker number fun w => { w with control := control }
    match mode with
    | .run => note (Record.running (← position number))
    | .earlyExit => note Record.earlyExit
    return .ok mode

/-- Ends a run of a processor. -/
def finish (number : WorkerId) : Play g Unit := do
  changeWorker number fun w => { w with control := w.control.finish }
  note (Record.stopped (← position number))

/-! ## Hooks -/

/-- Logs a call of a hook and plays what is attached to it.  Answers how many calls came before. -/
def callHook (number : WorkerId) (hook : Hook) (sequence : Option Int) (entry : Entry) :
    Play g Nat := do
  let worker ← workerAt number
  let nth := worker.callsOf hook
  changeWorker number fun w => (w.tally hook).record entry
  (worker.handler.attached.filter (·.matches hook nth sequence)).forM fun a => do
    log number (.ops (← play a.ops))
  return nth

/-- A hook that fails at its first calls. -/
def callEarlyFailing (number : WorkerId) (hook : Hook) (label : String)
    (failures : Handler Op → Nat) (entry : Entry) : Play g (Option Failure) := do
  let worker ← workerAt number
  if worker.minimal then return none
  let nth ← callHook play number hook none entry
  return if nth < failures worker.handler then some ⟨s!"fail {label} {nth}", []⟩ else none

/-- The handler fails at an event: this time, if it fails there once, or always. -/
def failsAt (number : WorkerId) (sequence : Int) : Play g Bool := do
  let worker ← workerAt number
  if worker.handler.faultAt.contains sequence then
    throw (.raised s!"handler panic at {sequence}")
  if worker.handler.failOnce.contains sequence && !worker.failed.contains sequence then
    changeWorker number fun w => { w with failed := sequence :: w.failed }
    return true
  return worker.handler.fail.contains sequence

/-- Hands over one event. -/
def handEvent (number : WorkerId) (sequence : Int) (last : Bool) : Play g (Option Failure) := do
  let value ← event sequence
  discard <| callHook play number .event (some sequence) (.event sequence value last)
  let worker ← workerAt number
  if worker.handler.release && worker.hearsCounter then
    onSequencer (Sequencer.setCounter worker.counter sequence)
  return if ← failsAt number sequence then some ⟨s!"fail event {sequence}", []⟩ else none

/-- Hands over a run of events, which fails if the handler fails at any of them. -/
def handBatch (number : WorkerId) (first last : Int) : Play g (Option Failure) := do
  let sequences := (List.range (Sequencer.runLength first last)).map fun (i : Nat) => first + i
  let values ← sequences.mapM event
  discard <| callHook play number .batch (some first) (.batch first last values)
  let bad ← sequences.mapM (failsAt number)
  return if bad.any id then some ⟨s!"fail batch {first}", []⟩ else none

/-- Lets the policy of a processor judge a failure. -/
def judge (number : WorkerId) (incident : Incident) (failure : Failure) :
    Play g (Option Failure) := do
  let policy := (← workerAt number).policy
  let verdict := policy.judge incident failure
  (policy.recordOf incident failure).forM note
  let value ← match incident with
    | .event sequence => event sequence
    | _ => pure 0
  log number (.judged incident value failure.text (verdict.map Failure.chain))
  return verdict

/-! ## Waits -/

/-- A watched wait, with `count` idle entries at most. -/
def watchedWait (fuel : Nat) (number : WorkerId) (target : Int) (phase : Wait.Phase) :
    Nat → Play g Wait.Outcome
  | 0 => throw .exhausted
  | count + 1 => do
    let worker ← workerAt number
    match worker.idle with
    | [] =>
      log number .autoHalt
      halt number
      waitFrom fuel worker.barrier target phase
    | entry :: rest =>
      changeWorker number fun w => { w with idle := rest }
      unless entry.ops.isEmpty do
        log number (.idle (← play entry.ops))
      match entry.outcome with
      | some outcome => return outcome
      | none =>
        if (← get).wouldBlock (← barrierAt worker.barrier) target phase then
          watchedWait fuel number target phase count
        else
          waitFrom fuel worker.barrier target phase

/-- The wait of a processor for published events from `next` on. -/
def await (fuel : Nat) (number : WorkerId) (next : Int) : Play g Wait.Outcome := do
  let worker ← workerAt number
  let outcome ← match (← barrierAt worker.barrier).enter worker.side next (← get).sequencer with
    | .inr outcome => pure outcome
    | .inl phase =>
      if worker.watched then
        log number (.wait next)
        watchedWait play fuel number next phase (worker.idle.length + 1)
      else
        waitFrom fuel worker.barrier next phase
  let published ← (← barrierAt worker.barrier).published (← get).sequencer next outcome
  if let .available available := published then
    if available < next then waitAtHole worker.barrier worker.side next
  return published

/-! ## Runs -/

/-- Answers a request of a processor. -/
def answer (fuel : Nat) (number : WorkerId) : (request : Request) → Play g request.Answer
  | .begin => begin number
  | .rearm => do changeBarrier (← workerAt number).barrier Barrier.rearm
  | .start => callEarlyFailing play number .start "start" (·.failStart) .start
  | .judge incident failure => judge number incident failure
  | .announce => changeWorker number fun w => { w with control := w.control.announce }
  | .isActive => return (← workerAt number).control.isActive
  | .position => position number
  | .await next => await play fuel number next
  | .timeout last =>
    callEarlyFailing play number .timeout "timeout" (·.failTimeout) (.timeout last)
  | .batchStart size depth => do
    unless (← workerAt number).minimal do
      discard <| callHook play number .batchStart none (.batchStart size depth)
  | .event sequence last => handEvent play number sequence last
  | .batch first last => handBatch play number first last
  | .note record => note record
  | .release sequence => do
    onSequencer (Sequencer.setCounter (← workerAt number).counter sequence)
  | .shutdown => callEarlyFailing play number .shutdown "shutdown" (·.failShutdown) .shutdown
  | .finish => finish number

/-- Takes the turns of a run, at most `fuel` of them. -/
def drive (number : WorkerId) (plan : Processor.Plan g) :
    Nat → Phase → Play g (Option RingError)
  | 0, _ => throw .exhausted
  | fuel + 1, phase =>
    match plan.turn phase with
    | .ended error => return error
    | .broken fault => throw fault
    | .ask request resume => do drive number plan fuel (resume (← answer play fuel number request))

/-- How a run came out. -/
def endingOf : Except Fault (Option RingError) → Ending
  | .ok none => .done
  | .ok (some error) => .stopped error
  | .error fault => .broken fault

/-- A whole run of a processor, inside a task if the processor is made for one. -/
def runWhole (fuel : Nat) (number : WorkerId) : Play g Ending := do
  let worker ← workerAt number
  let run := drive play number worker.plan fuel .beginning
  return endingOf (← (inTask (worker.plan.kind = .task) run).caught)

/-- A run that the script makes itself. -/
def runWatched (fuel : Nat) (number : WorkerId) (idle : List (Idle Op)) : Play g Ending := do
  let before ← workerAt number
  if before.plan.kind = .task && (← read).inTask then return .broken .nestedRuntime
  changeWorker number fun w => { w with watched := true, idle := idle }
  let ending ← runWhole play fuel number
  changeWorker number fun w => { w with watched := before.watched, idle := before.idle }
  return ending

/-- The run of a processor on a thread of its own. -/
def runThread (fuel : Nat) (number : WorkerId) : Play g Unit := do
  let ending ← runWhole play fuel number
  changeWorker number fun w => { w with
    thread := w.thread.map fun thread => { thread with ending := some ending } }

end Play

end EventRing.Script
