/-!
# EventRing.Word

Sequence numbers are integers that live in the signed 64-bit range.  The arithmetic on them is
checked: a result outside the range breaks the operation off with `Fault.overflow` instead of
wrapping around.  The few places that do wrap say so and use `Word.wrap`.

A `Fault` is a reason to break off for good, as opposed to an error that is answered to the caller.
An `Action` is a step on a state that may break off; the state reached so far survives the fault,
because a consumer that catches it goes on from there.
-/

namespace EventRing

/-! ## Faults -/

/-- Why an operation broke off. -/
inductive Fault where
  /-- An arithmetic result left the signed 64-bit range. -/
  | overflow
  /-- A range of sequences whose upper end lies below its lower end. -/
  | emptyRange (lo hi : Int)
  /-- The progress of a processor was about to move backwards. -/
  | backwards (was now : Int)
  /-- A handler gave up with a text of its own. -/
  | raised (text : String)
  /-- A task runtime was entered from inside a running task. -/
  | nestedRuntime
  /-- More slots than memory has addresses for. -/
  | tooLarge
  /-- A thread was given a name with a zero in it. -/
  | zeroInName (name : String)
  /-- A script named something that does not exist (any more). -/
  | unknown (name : String)
  /-- A run was given up after too many steps. -/
  | exhausted
  deriving DecidableEq, Repr

/-- The text of a fault. -/
def Fault.message : Fault → String
  | .overflow => "arithmetic overflow"
  | .emptyRange lo hi => s!"invalid sequence range: {lo} > {hi}"
  | .backwards was now => s!"processor sequence decreased from {was} to {now}"
  | .raised text => text
  | .nestedRuntime =>
    "Cannot start a runtime from within a runtime. This happens because a function (like `block_on`) " ++
    "attempted to block the current thread while the thread is being used to drive asynchronous tasks. " ++
    "If you are in an async function, use `.await` on the future instead of blocking on it."
  | .tooLarge => "capacity overflow"
  | .zeroInName name =>
    let bytes := name.toUTF8.toList.map UInt8.toNat
    let shown := ", ".intercalate (bytes.map toString)
    s!"thread name may not contain interior null bytes: NulError({bytes.idxOf 0}, [{shown}])"
  | .unknown name => "nothing is called " ++ name
  | .exhausted => "the run did not come to an end"

/-! ## The 64-bit range -/

namespace Word

/-- The least sequence number. -/
def least : Int := -9223372036854775808

/-- The greatest sequence number. -/
def greatest : Int := 9223372036854775807

/-- A number that fits the signed 64-bit range. -/
def Fits (n : Int) : Prop := least ≤ n ∧ n ≤ greatest

instance (n : Int) : Decidable (Fits n) := inferInstanceAs (Decidable (_ ∧ _))

/-- Passes a number that fits; any other is an overflow. -/
def checked (n : Int) : Except Fault Int :=
  if Fits n then .ok n else .error .overflow

/-- The number of the range that agrees with `n` modulo 2^64. -/
def wrap (n : Int) : Int := (BitVec.ofInt 64 n).toInt

theorem checked_of_fits {n : Int} (h : Fits n) : checked n = .ok n :=
  if_pos h

theorem checked_eq_ok_iff {n m : Int} : checked n = .ok m ↔ Fits n ∧ m = n := by
  by_cases h : Fits n
  · rw [checked_of_fits h]
    exact ⟨fun e => ⟨h, (Except.ok.inj e).symm⟩, fun e => congrArg _ e.2.symm⟩
  · rw [checked, if_neg h]
    exact ⟨fun e => (nomatch e), fun e => absurd e.1 h⟩

end Word

/-! ## Actions -/

/-- A step on a state of type `σ` that answers an `α` or breaks off with a fault. -/
abbrev Action (σ α : Type) : Type := EStateM Fault σ α

/-- A checked value inside an action: the state is left alone. -/
instance {σ : Type} : MonadLift (Except Fault) (EStateM Fault σ) where
  monadLift
    | .ok a => fun s => .ok a s
    | .error f => fun s => .error f s

namespace Action

variable {σ τ α : Type}

/-- Runs an action on a part of a larger state. -/
def onPart (part : τ → σ) (put : σ → τ → τ) (act : Action σ α) : Action τ α := fun t =>
  match act (part t) with
  | .ok a s => .ok a (put s t)
  | .error f s => .error f (put s t)

/-- Runs an action to its end and turns a fault into an answer. -/
def caught (act : Action σ α) : Action σ (Except Fault α) := fun s =>
  match act s with
  | .ok a s => .ok (.ok a) s
  | .error f s => .ok (.error f) s

end Action

end EventRing
