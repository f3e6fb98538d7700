import EventRing.Threads
/-!
# EventRing.Turns

The threads of a shared state take turns.  A thread goes on until it pauses.  Those that were made go
first, in the order they were made, and the first thread of all goes on when none of them can.  When
nobody can go on, time passes until the next deadline.
-/

namespace EventRing

variable {σ task : Type} [Shared σ task]

/-- A pause is over: what it waits for holds, or its deadline has come. -/
def Pause.isOver (pause : Pause σ) (s : σ) : Bool :=
  pause.ready s || pause.deadline.any (· ≤ (Shared.threads s).now)

/-- A thread that waits. -/
structure Parked (σ : Type) where
  pause : Pause σ
  resume : σ → Run σ Unit

/-- Lets the first thread go on that can; nothing if none can. -/
def goOn (s : σ) : List (Parked σ) → Option (List (Parked σ) × σ)
  | [] => none
  | thread :: rest =>
    if thread.pause.isOver s then
      match thread.resume s with
      | .done _ s | .broken _ s => some (rest, s)
      | .paused pause s resume => some (⟨pause, resume⟩ :: rest, s)
    else
      (goOn s rest).map fun (rest, s) => (thread :: rest, s)

/-- The first of some deadlines. -/
def firstDeadline (pauses : List (Pause σ)) : Option Nat :=
  (pauses.filterMap (·.deadline)).min?

/-- Plays the first thread together with the others, in at most `fuel` turns.  What a thread does
that was made is said by `begin`. -/
def together {α : Type} (begin : task → Strand σ Unit) :
    Nat → List (Parked σ) → Run σ α → Except Fault α × σ
  | _, _, .done answer s => (.ok answer, s)
  | _, _, .broken fault s => (.error fault, s)
  | 0, _, .paused _ s _ => (.error .exhausted, s)
  | fuel + 1, threads, .paused pause s resume =>
    let arrived : List (Parked σ) :=
      (Shared.threads s).arrivals.map fun t => ⟨{ ready := fun _ => true }, begin t⟩
    let threads := threads ++ arrived
    let s := Shared.change (fun t => { t with arrivals := [] }) s
    match goOn s threads with
    | some (threads, s) => together begin fuel threads (.paused pause s resume)
    | none =>
      if pause.isOver s then
        together begin fuel threads (resume s)
      else
        match firstDeadline (pause :: threads.map (·.pause)) with
        | some time =>
          let s := Shared.change (fun t => { t with now := time }) s
          together begin fuel threads (.paused pause s resume)
        | none => (.error .exhausted, s)

/-- The fuel that threads are played with. -/
def fuel : Nat := 2000000

/-- Plays a strand as the first thread, with all the threads that it makes. -/
def playTogether {α : Type} (begin : task → Strand σ Unit) (strand : Strand σ α) (s : σ) :
    Except Fault α × σ :=
  together begin fuel [] (strand s)

end EventRing
