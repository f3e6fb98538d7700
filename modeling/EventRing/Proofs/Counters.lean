import EventRing.Counter
import EventRing.Proofs.Action
/-!
# EventRing.Proofs.Counters

What is known of a table of counters after some of them were set, and of the least of several.  The
least of some values is used through its lower bounds only (`le_leastFrom_iff`): nothing depends on
which of the values it is.
-/

namespace EventRing

variable {x default : Int}

/-! ## The least of some values -/

theorem le_leastFrom_iff {values : List Int} :
    x ≤ leastFrom default values ↔ x ≤ default ∧ ∀ v ∈ values, x ≤ v := by
  induction values generalizing default with
  | nil => simp [leastFrom]
  | cons v rest ih =>
      have step : leastFrom default (v :: rest) = leastFrom (min default v) rest := rfl
      rw [step, ih, Int.le_min, List.forall_mem_cons]
      exact and_assoc

/-! ## Adding to a counter -/

theorem Counter.add_eq_ok {delta v w sum : Int} (h : Counter.add delta v = .ok sum w) :
    Word.Fits (v + delta) ∧ sum = v + delta ∧ w = v + delta := by
  unfold Counter.add at h
  cases checked : Word.checked (v + delta) with
  | ok m =>
      obtain ⟨fits, rfl⟩ := Word.checked_eq_ok_iff.mp checked
      rw [checked] at h
      cases h
      exact ⟨fits, rfl, rfl⟩
  | error f =>
      rw [checked] at h
      cases h

theorem Counter.add_of_fits {delta v : Int} (fits : Word.Fits (v + delta)) :
    Counter.add delta v = .ok (v + delta) (v + delta) := by
  unfold Counter.add
  rw [Word.checked_of_fits fits]

theorem Counter.add_of_overflow {delta v : Int} (exceeds : ¬ Word.Fits (v + delta)) :
    Counter.add delta v = .error .overflow (Word.wrap (v + delta)) := by
  unfold Counter.add
  rw [Word.checked_of_overflow exceeds]

namespace Counters

variable {t : Counters} {ids : List CounterId} {id other : CounterId}

theorem le_least_iff :
    x ≤ t.least ids default ↔ x ≤ default ∧ ∀ id ∈ ids, x ≤ t.value id := by
  rw [least, le_leastFrom_iff]
  simp only [List.forall_mem_map]

theorem least_le_default : t.least ids default ≤ default :=
  (le_least_iff.mp (Int.le_refl _)).1

theorem least_le_value (gates : id ∈ ids) : t.least ids default ≤ t.value id :=
  (le_least_iff.mp (Int.le_refl _)).2 id gates

theorem least_nil : t.least [] default = default := rfl

/-! ## What lies in front -/

theorem behind_nil {cursor : Int} : t.behind [] cursor = cursor := rfl

/-- Nothing behind some counters is ahead of any of them. -/
theorem behind_le_value {cursor : Int} (inFront : id ∈ ids) : t.behind ids cursor ≤ t.value id := by
  match ids, inFront with
  | [only], inFront =>
      rw [List.mem_singleton.mp inFront]
      exact Int.le_refl _
  | _ :: _ :: _, inFront => exact least_le_value inFront

/-- What is below every counter in front is below what they let through. -/
theorem le_behind {cursor : Int} (some : ids ≠ []) (small : x ≤ Word.greatest)
    (below : ∀ id ∈ ids, x ≤ t.value id) : x ≤ t.behind ids cursor := by
  match ids, some, below with
  | [only], _, below => exact below only (List.mem_singleton_self only)
  | _ :: _ :: _, _, below => exact le_least_iff.mpr ⟨small, below⟩

/-! ## Setting counters -/

@[simp]
theorem size_set (id : CounterId) (v : Int) : (t.set id v).values.size = t.values.size := by
  simp [set]

/-- A counter that was set has its value; one that does not exist reads as a fresh one. -/
theorem value_set (id other : CounterId) (v : Int) :
    (t.set id v).value other =
      if id = other ∧ id < t.values.size then v else t.value other := by
  by_cases same : id = other
  · subst same
    by_cases made : id < t.values.size
    · rw [value_set_self t made, if_pos ⟨rfl, made⟩]
    · have : ¬ (id = id ∧ id < t.values.size) := fun h => made h.2
      rw [if_neg this]
      simp [value, set, made]
  · rw [value_set_ne t same, if_neg fun h => same h.1]

theorem size_make (v : Int) : (t.make v).2.values.size = t.values.size + 1 := by
  simp [make]

/-- Making a counter leaves those alone that are there. -/
theorem value_make (v : Int) (made : id < t.values.size) : (t.make v).2.value id = t.value id := by
  simp only [value, make, Array.getD_eq_getD_getElem?]
  rw [Array.getElem?_push_lt made, Array.getElem?_eq_getElem made]

/-- A counter that is made has its value. -/
theorem value_make_self (v : Int) : (t.make v).2.value t.values.size = v := by
  simp [value, make]

@[simp]
theorem size_setAll (ids : List CounterId) (v : Int) :
    (t.setAll ids v).values.size = t.values.size := by
  induction ids generalizing t with
  | nil => rfl
  | cons id rest ih =>
      have step : t.setAll (id :: rest) v = (t.set id v).setAll rest v := rfl
      rw [step, ih, size_set]

/-- Setting several counters to one value is the same in any order and however often. -/
theorem value_setAll (ids : List CounterId) (other : CounterId) (v : Int) :
    (t.setAll ids v).value other =
      if other ∈ ids ∧ other < t.values.size then v else t.value other := by
  induction ids generalizing t with
  | nil => simp [setAll]
  | cons id rest ih =>
      have step : t.setAll (id :: rest) v = (t.set id v).setAll rest v := rfl
      rw [step, ih, size_set, value_set]
      by_cases later : other ∈ rest
      · by_cases made : other < t.values.size
        · rw [if_pos ⟨later, made⟩, if_pos ⟨List.mem_cons_of_mem id later, made⟩]
        · grind
      · grind

theorem value_setAll_of_not_mem {v : Int} (out : other ∉ ids) :
    (t.setAll ids v).value other = t.value other := by
  rw [value_setAll, if_neg fun h => out h.1]

end Counters

end EventRing
