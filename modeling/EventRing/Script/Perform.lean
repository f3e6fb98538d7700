import EventRing.Describe
import EventRing.Script.Run
/-!
# EventRing.Script.Perform

One operation of a script, given how the operations nested in it are played.

An operation that would wait for ever as things stand is not begun and answers `wouldBlock`, unless
another thread helps: then it begins and waits.
-/

namespace EventRing.Script

open Describe

namespace Play

variable {g : Geometry} (play : List Op → Play g (List Step))

/-! ## Claims -/

/-- Makes a claim of `n` sequences that may wait: `first` begins it, `again` goes on with it.
Answers the highest claimed sequence, or why there is none. -/
def claimWaiting (n : Nat) (isHelped : Bool) (first : Play g (Except RingError Grant))
    (again : Pending → Play g Grant) : Play g (Except Answer Int) := do
  match Sequencer.claimSize g n with
  | .error error => return .error (.refused error)
  | .ok _ =>
    unless isHelped do
      let room ← (← get).sequencer.remaining
      if room < n then return .error .wouldBlock
    match ← first with
    | .error error => return .error (.refused error)
    | .ok (.granted hi) => return .ok hi
    | .ok (.waiting claim slowest) =>
      note (Record.producerWaiting claim.hi slowest)
      waitFor (fun w => w.sequencer.hasReleased claim) none
      match ← again claim with
      | .granted hi => return .ok hi
      | .waiting .. => throw .exhausted

/-- A claim that may wait, or one that is made at once or not at all. -/
def claimEither (waits : Bool) (n : Nat) (isHelped : Bool) : Play g (Except Answer Int) := do
  if waits then
    claimWaiting n isHelped (onRing (Ring.claim n)) fun claim => onRing (Ring.settle claim)
  else
    match ← onRing (Ring.tryClaim n) with
    | some hi => return .ok hi
    | none => return .error .absent

/-- The answer of an operation that claims. -/
def claimAnswer : Except Answer Int → Answer
  | .ok hi => .number hi
  | .error answer => answer

/-- Holds a claim of one slot open. -/
def openEvent (waits : Bool) (writing : Writing) (during : List Op) (overwrite : Option Int)
    (isHelped : Bool) : Play g Answer := do
  match ← claimEither waits 1 isHelped with
  | .error answer => return answer
  | .ok hi =>
    let before ← event hi
    onRing (Ring.write writing.apply hi)
    let steps ← play during
    overwrite.forM fun value => onRing (Ring.write (fun _ _ => value) hi)
    onRing (Ring.publish hi)
    return .openEvent hi before steps

/-- Writes a slot of a block; a position outside of it is not written. -/
def setInBlock (block : Block) (index : Nat) (value : Int) : Play g Bool := do
  if index < block.length then
    onRing (Ring.write (fun _ _ => value) (block.lo + index))
    return true
  else
    return false

/-- Holds a claim of `n` slots open. -/
def openBlock (waits : Bool) (n : Nat) (writing : Writing) (sets : List (Nat × Int))
    (during : List Op) (isHelped : Bool) : Play g Answer := do
  match ← claimEither waits n isHelped with
  | .error answer => return answer
  | .ok hi =>
    let block ← Block.upTo hi n
    let sequences := (List.range block.length).map fun (i : Nat) => block.lo + i
    let before ← sequences.mapM fun sequence => do return (sequence, ← event sequence)
    onRing (Ring.writeRun writing.apply block.lo block.length)
    let done ← sets.mapM fun (index, value) => setInBlock block index value
    let steps ← play during
    onRing (Ring.publishBlock block)
    return .openBlock block.lo block.hi block.length before done steps

/-! ## Pollers -/

/-- One poll with a scripted handler, which logs what it sees. -/
def pollWith (poller : Poller) (stop fail : List Int) (plays : List (PollPlay Op)) :
    Play g Answer := do
  let see (entry : Entry) : StateT (Array Entry) (Play g) Unit :=
    modifyThe (Array Entry) (·.push entry)
  let handler (sequence : Int) (last : Bool) : StateT (Array Entry) (Play g) (Reply String) := do
    see (.event sequence (← StateT.lift (event sequence)) last)
    (plays.filter (·.sequence = sequence)).forM fun entry => do
      see (.ops (← StateT.lift (play entry.ops)))
    if fail.contains sequence then return .failed s!"poll fail {sequence}"
    return if stop.contains sequence then .stop else .keepGoing
  let (result, seen) ← (poller.pollWithin (fun act => StateT.lift (onSequencer act)) handler).run #[]
  return .polled result seen.toList

/-! ## Objects -/

/-- Makes a processor with a counter and a barrier of its own. -/
def makeProcessor (spec : ProcessorSpec Op) : Play g Unit := do
  let front ← countersOf spec.front
  let counter ← makeCounter spec.name Counter.initial
  let w ← get
  let named := if spec.minimal || spec.kind = .task then none else spec.handler.maxBatch
  let number := w.workers.objects.size
  let worker : Worker g :=
    { plan := ⟨spec.kind, Processor.limitOf named⟩
      barrier := w.barriers.objects.size
      counter := counter
      policy := spec.policy
      handler := spec.handler
      minimal := spec.minimal }
  set { w with
    barriers := w.barriers.add (w.freshBarrier front spec.owner)
    workers := w.workers.enter spec.name worker }
  if worker.hearsCounter then log number (.counterReceived (← counterValue counter))

/-- Names a publisher, which replaces the one that had the name. -/
def makePublisher (name : String) : Play g Answer := do
  match ← onRing Ring.takePublisher with
  | .error error => return .refused error
  | .ok () =>
    if ((← get).publishers.lookup name).isSome then onRing Ring.releasePublisher
    modify fun w => { w with publishers := w.publishers.put name () }
    return .done

/-- The text of an object. -/
def describe (what : Described) (name : String) : Play g String := do
  let s := (← get).sequencer
  match what with
  | .ring => return s.describeRing
  | .publisher => return s.describePublisher
  | .barrier => return (← barrierOf name).describe s
  | .poller => return (← pollerOf name).describe s
  | .handle => do
    let number ← workerNumber name
    return (← workerAt number).control.describeHandle (← position number)
  | .processor =>
    let number ← workerNumber name
    let worker ← workerAt number
    return Processor.describe worker.plan.kind (worker.control.describe (← position number))
      ((← barrierAt worker.barrier).describe s)
  | .thread =>
    let number ← workerNumber name
    let worker ← workerAt number
    match worker.thread with
    | some thread => return worker.control.describeThread (← position number) thread.name
    | none => throw (.unknown name)

/-! ## Threads -/

/-- How many milliseconds a script waits for a counter or for the end of a thread. -/
def patience : Nat := 5000

/-- A processor that is there and not on another thread. -/
def atHand (name : String) : Play g WorkerId := do
  let number ← workerNumber name
  let worker ← workerAt number
  if worker.gone || worker.thread.isSome then throw (.unknown name)
  return number

/-- Puts a processor on a thread of its own.  It is lost if the thread cannot have its name. -/
def startThread (number : WorkerId) (thread : String) : Play g Unit := do
  if thread.contains '\x00' then
    changeWorker number fun w => { w with gone := true }
    throw (.zeroInName thread)
  changeWorker number fun w => { w with watched := false, thread := some { name := thread } }
  modify (Shared.change (·.arrive (.worker number)))

/-- The processor satisfies a condition. -/
def holdsFor (number : WorkerId) (condition : Worker g → Bool) (w : World g) : Bool :=
  w.workers.objects[number]?.any condition

/-- Waits for a thread and takes its processor back, which is lost if its run did not end well. -/
def joinThread (number : WorkerId) : Play g Answer := do
  if (← workerAt number).thread.isNone then throw (.unknown "a thread")
  let ended := holdsFor number Worker.isFinished
  unless ended (← get) do waitFor ended none
  let some ending := (← workerAt number).thread.bind (·.ending) | throw .exhausted
  let ending := match ending with
    | .broken _ => .stopped .processorFaulted
    | ending => ending
  let lost := match ending with
    | .done => false
    | _ => true
  changeWorker number fun w => { w with thread := none, gone := lost }
  modify (Shared.change Threads.join)
  return .ran ending (← takeLog number)

/-! ## Operations -/

/-- Does an action and answers that it is done. -/
def done (act : Play g Unit) : Play g Answer := do
  act
  return .done

/-- Performs one operation. -/
def perform (fuel : Nat) : Op → Play g Answer
  | .makeCounter name value => do
    discard <| makeCounter name (value.getD Counter.initial)
    return .done
  | .setCounter name value => done do
    onSequencer (Sequencer.setCounter (← counterOf name) value)
  | .swapCounter name expected value => do
    let swap := Counter.compareAndSet expected value
    return .flag (← onSequencer (Sequencer.onCounter (← counterOf name) swap))
  | .addCounter name delta => do
    return .number (← onSequencer (Sequencer.onCounter (← counterOf name) (Counter.add delta)))
  | .gate names => done do
    let ids ← countersOf names
    let total ← onSequencer (Sequencer.addGates ids)
    note (Record.gatesAdded ids.length total (← get).sequencer.cursor)
  | .ungate name => do
    let (removed, total) ← onSequencer (Sequencer.removeGate (← counterOf name))
    note (Record.gateRemoved removed total)
    return .flag removed
  | .claim n helper => claimAnswer <$> (helped helper <| claimWaiting n (!helper.isEmpty)
      (onSequencer (Sequencer.claim n)) fun claim => onSequencer (Sequencer.settle claim))
  | .tryClaim n => do
    match ← onSequencer (Sequencer.tryClaim n) with
    | some hi => return .number hi
    | none => return .absent
  | .publish sequence => done <| onSequencer (Sequencer.publish sequence)
  | .publishRange lo hi => done <| onSequencer (Sequencer.publishRange lo hi)
  | .reposition sequence => done <| onSequencer (Sequencer.reposition sequence)
  | .resetTo sequence => done <| onRing (Ring.resetTo sequence)
  | .hasCapacity n => .flag <$> onSequencer (Sequencer.hasCapacity n)
  | .isPublished sequences => do
    let s := (← get).sequencer
    return .flags (← sequences.mapM (m := Except Fault) s.isPublished)
  | .highest lower available => do
    return .number (← (← get).sequencer.highestPublished lower available)
  | .info => do
    let w ← get
    return .info ⟨g.size, w.sequencer.producers = .many, w.strategy.parks, w.strategy.timeout⟩
  | .put sequence writing => done <| onRing (Ring.write writing.apply sequence)
  | .read sequences => .numbers <$> sequences.mapM event
  | .view lo hi indices => do
    let batch ← (← onRing get).batch lo hi
    return .view
      { first := batch.first
        last := ← batch.last
        events := batch.events.toList
        pairs := batch.pairs
        picked := indices.map batch.event?
        text := batch.describe }
  | .publisher name => makePublisher name
  | .dropPublisher name => done do
    (← get).publishers.get name
    onRing Ring.releasePublisher
    modify fun w => { w with publishers := w.publishers.erase name }
  | .publishEvent name writing helper => do
    (← get).publishers.get name
    claimAnswer <$> (helped helper <| claimWaiting 1 (!helper.isEmpty)
      (.ok <$> onRing (Ring.publishEvent writing.apply))
      fun claim => onRing (Ring.resumeEvent writing.apply claim))
  | .tryPublishEvent name writing => do
    (← get).publishers.get name
    .tried <$> onRing (Ring.tryPublishEvent writing.apply)
  | .publishEvents name n writing helper => do
    (← get).publishers.get name
    claimAnswer <$> (helped helper <| claimWaiting n (!helper.isEmpty)
      (onRing (Ring.publishEvents writing.apply n))
      fun claim => onRing (Ring.resumeEvents writing.apply n claim))
  | .openEvent name waits writing during overwrite helper => do
    (← get).publishers.get name
    let helper := if waits then helper else []
    helped helper (openEvent play waits writing during overwrite !helper.isEmpty)
  | .openBlock name waits n writing sets during helper => do
    (← get).publishers.get name
    let helper := if waits then helper else []
    helped helper (openBlock play waits n writing sets during !helper.isEmpty)
  | .barrier name front owner => done do
    let front ← countersOf front
    modify fun w => { w with barriers := w.barriers.enter name (w.freshBarrier front owner) }
  | .wait name side published sequence helper =>
    helped helper (waitAt fuel name side published sequence !helper.isEmpty)
  | .barrierHighest name lower available => do
    return .number (← (← barrierOf name).highestPublished (← get).sequencer lower available)
  | .cancelBarrier name => done do cancelBarrier (← barrierNumber name)
  | .rearmBarrier name => done do changeBarrier (← barrierNumber name) Barrier.rearm
  | .barrierInfo name => do
    let barrier ← barrierOf name
    let s := (← get).sequencer
    return .barrier ⟨barrier.cancelled, s.cursor, barrier.value s, barrier.front.length, g.size⟩
  | .poller name front => done do
    let front ← countersOf front
    let counter ← makeCounter name Counter.initial
    modify fun w => { w with pollers := w.pollers.put name ⟨front, counter⟩ }
  | .poll name stop fail plays => do pollWith play (← pollerOf name) stop fail plays
  | .processor spec => done <| makeProcessor spec
  | .run name idle helper => do
    let number ← atHand name
    let ending ← helped helper (runWatched play fuel number idle)
    return .ran ending (← takeLog number)
  | .halt name => done do halt (← workerNumber name)
  | .isRunning name => do return .flag (← workerOf name).control.isRunning
  | .handleSequence name => do return .number (← position (← workerNumber name))
  | .waitStarted name milliseconds => do
    let isStarted := holdsFor (← workerNumber name) (·.control.started)
    return .flag (← waitAtMost milliseconds isStarted)
  | .handlerCalls name => do return .calls (← workerOf name).calls
  | .setHandler name handler => done do
    changeWorker (← workerNumber name) fun w => { w with handler := handler }
  | .start name thread => done do startThread (← atHand name) thread
  | .awaitSequence name value => do
    let id ← counterOf name
    return .flag (← waitAtMost patience fun w => decide (value ≤ w.sequencer.counters.value id))
  | .awaitFinished name => do
    return .flag (← waitAtMost patience (holdsFor (← workerNumber name) Worker.isFinished))
  | .join name => do joinThread (← workerNumber name)
  | .describe what name => .text <$> describe what name

end Play

end EventRing.Script

