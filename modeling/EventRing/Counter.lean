import EventRing.Word
/-!
# EventRing.Counter

Progress counters.  A counter holds one sequence number; consumers keep their position in one, and
the same counter may hold producers back and be waited on by consumers further down.  Because
counters are shared, they live together in a table of `Counters` and are named by a `CounterId`.
-/

namespace EventRing

/-! ## One counter -/

namespace Counter

/-- Where every counter begins: just before the first sequence. -/
def initial : Int := -1

/-- Adds to the counter and answers the new value.  The sum is stored as a word first, so after an
overflow the counter holds the wrapped sum. -/
def add (delta : Int) : Action Int Int := fun value =>
  match Word.checked (value + delta) with
  | .ok sum => .ok sum sum
  | .error fault => .error fault (Word.wrap (value + delta))

/-- Replaces the value if it is the expected one, and says whether it was. -/
def compareAndSet (expected next : Int) : Action Int Bool := fun value =>
  if value = expected then .ok true next else .ok false value

end Counter

/-- The least of some values, starting from a default. -/
def leastFrom (default : Int) (values : List Int) : Int := values.foldl min default

/-! ## The table -/

/-- The name of a counter in its table. -/
abbrev CounterId := Nat

/-- All counters that were ever made, by name. -/
structure Counters where
  values : Array Int := #[]
  deriving Repr

namespace Counters

variable (t : Counters)

/-- The value of a counter; one that was never made reads as a fresh one. -/
def value (id : CounterId) : Int := t.values.getD id Counter.initial

/-- Stores a value in a counter. -/
def set (id : CounterId) (value : Int) : Counters := ⟨t.values.setIfInBounds id value⟩

/-- Makes a counter with the given value. -/
def make (value : Int) : CounterId × Counters := (t.values.size, ⟨t.values.push value⟩)

/-- Stores one value in several counters. -/
def setAll (ids : List CounterId) (value : Int) : Counters :=
  ids.foldl (fun t id => t.set id value) t

/-- The least value of some counters, starting from a default. -/
def least (ids : List CounterId) (default : Int) : Int := leastFrom default (ids.map t.value)

/-- What a consumer behind some counters may see: the cursor if there are none, else the value of
the slowest of them. -/
def behind (ids : List CounterId) (cursor : Int) : Int :=
  match ids with
  | [] => cursor
  | [id] => t.value id
  | ids => t.least ids Word.greatest

theorem value_set_self {id : CounterId} (h : id < t.values.size) (v : Int) :
    (t.set id v).value id = v := by
  simp [value, set, h]

theorem value_set_ne {id other : CounterId} (h : id ≠ other) (v : Int) :
    (t.set id v).value other = t.value other := by
  simp [value, set, Array.getD_eq_getD_getElem?, h]

end Counters

end EventRing
