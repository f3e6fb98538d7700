import EventRing.Strand
/-!
# EventRing.Threads

Threads that share a state.  The state keeps a part for them (`Shared`): the time, the threads that
were made and have not begun, and how many are at work.

An operation may have a helper, another thread that does something of its own a little after the
operation began; the operation is over when both are done, however they end.

Time passes only while every thread waits.
-/

namespace EventRing

/-- What a shared state knows of its threads; what a thread does is told by a `task`. -/
structure Threads (task : Type) where
  /-- Milliseconds since the beginning. -/
  now : Nat := 0
  /-- Threads that were made and have not begun. -/
  arrivals : List task := []
  /-- How many threads besides the first are at work, until they are joined. -/
  others : Nat := 0
  /-- How many helpers there were. -/
  helpers : Nat := 0
  /-- The helpers that are done and have not been joined. -/
  helped : List Nat := []

/-- A state shared by threads. -/
class Shared (σ : Type) (task : outParam Type) where
  threads : σ → Threads task
  change : (Threads task → Threads task) → σ → σ

namespace Threads

variable {task : Type}

/-- A thread is made. -/
def arrive (t : Threads task) (begin : task) : Threads task :=
  { t with others := t.others + 1, arrivals := t.arrivals ++ [begin] }

/-- A thread is joined. -/
def join (t : Threads task) : Threads task := { t with others := t.others - 1 }

end Threads

namespace Strand

variable {σ task α : Type} [Shared σ task]

/-! ## Waiting -/

/-- Waits for something, until a deadline if there is one. -/
def waitFor (ready : σ → Bool) (deadline : Option Nat) : Strand σ Unit :=
  pause { ready := ready, deadline := deadline }

/-- Waits for something at most so many milliseconds, and says whether it holds then. -/
def waitAtMost (milliseconds : Nat) (holds : σ → Bool) : Strand σ Bool := do
  let s ← get
  unless holds s do waitFor holds (some ((Shared.threads s).now + milliseconds))
  return holds (← get)

/-! ## Helpers -/

/-- After how many milliseconds a helper begins. -/
def helperDelay : Nat := 2

/-- Acts with a helper, which is told its number and then does its task. -/
def helped (helper : Nat → task) (act : Strand σ α) : Strand σ α := do
  let number := (Shared.threads (← get)).helpers
  modify (Shared.change fun t => { t.arrive (helper number) with helpers := number + 1 })
  let result : Except Fault α ← tryCatch (Except.ok <$> act) fun fault => return .error fault
  waitFor (fun s => (Shared.threads s).helped.contains number) none
  modify (Shared.change fun t => { t.join with helped := t.helped.erase number })
  MonadExcept.ofExcept result

/-- What a helper does. -/
def help (number : Nat) (act : Strand σ Unit) : Strand σ Unit := do
  waitFor (fun _ => false) (some ((Shared.threads (← get)).now + helperDelay))
  act
  modify (Shared.change fun t => { t with helped := number :: t.helped })

end Strand

end EventRing
