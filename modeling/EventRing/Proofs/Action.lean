import EventRing.Word
/-!
# EventRing.Proofs.Action

What an action comes to in a given state, one lemma for each way of building one.  Proofs about an
operation rewrite with these until only the decisions of the operation are left.
-/

namespace EventRing

/-- What lies between two numbers that fit fits as well. -/
theorem Word.Fits.between {low high n : Int} (fitsLow : Word.Fits low) (fitsHigh : Word.Fits high)
    (above : low ≤ n) (below : n ≤ high) : Word.Fits n :=
  ⟨Int.le_trans fitsLow.1 above, Int.le_trans below fitsHigh.2⟩

theorem Word.checked_of_overflow {n : Int} (exceeds : ¬ Word.Fits n) : Word.checked n = .error .overflow :=
  if_neg exceeds

theorem Word.checked_eq_error {n : Int} {fault : Fault} (h : Word.checked n = .error fault) :
    fault = .overflow := by
  by_cases fits : Word.Fits n
  · rw [Word.checked_of_fits fits] at h
    cases h
  · rw [Word.checked_of_overflow fits] at h
    cases h
    rfl

namespace Action

variable {σ τ α β : Type}

theorem pure_apply (a : α) (s : σ) : (pure a : Action σ α) s = .ok a s := rfl

theorem get_apply (s : σ) : (get : Action σ σ) s = .ok s s := rfl

theorem set_apply (s t : σ) : (set t : Action σ PUnit) s = .ok ⟨⟩ t := rfl

theorem modify_apply (change : σ → σ) (s : σ) :
    (modify change : Action σ PUnit) s = .ok ⟨⟩ (change s) := rfl

/-- The second action finds the state that the first one left. -/
theorem bind_apply (act : Action σ α) (next : α → Action σ β) (s : σ) :
    (act >>= next) s = match act s with
      | .ok a s => next a s
      | .error f s => .error f s := by
  show EStateM.bind act next s = _
  unfold EStateM.bind
  cases act s <;> rfl

theorem get_bind_apply (next : σ → Action σ α) (s : σ) : (get >>= next) s = next s s := rfl

theorem map_apply (f : α → β) (act : Action σ α) (s : σ) :
    (f <$> act) s = match act s with
      | .ok a s => .ok (f a) s
      | .error fault s => .error fault s := by
  show EStateM.map f act s = _
  unfold EStateM.map
  cases act s <;> rfl

/-- A checked value leaves the state alone. -/
theorem lift_apply (e : Except Fault α) (s : σ) :
    (liftM e : Action σ α) s = match e with
      | .ok a => .ok a s
      | .error f => .error f s := by
  cases e <;> rfl

/-! ## Taking an answered action apart -/

theorem bind_eq_ok {act : Action σ α} {next : α → Action σ β} {s s' : σ} {b : β}
    (h : (act >>= next) s = .ok b s') : ∃ a t, act s = .ok a t ∧ next a t = .ok b s' := by
  rw [bind_apply] at h
  cases e : act s with
  | ok a t =>
      rw [e] at h
      exact ⟨a, t, rfl, h⟩
  | error f t =>
      rw [e] at h
      cases h

theorem lift_eq_ok {e : Except Fault α} {s s' : σ} {a : α}
    (h : (liftM e : Action σ α) s = .ok a s') : e = .ok a ∧ s' = s := by
  rw [lift_apply] at h
  cases e with
  | ok b =>
      cases h
      exact ⟨rfl, rfl⟩
  | error f => cases h

/-- An action that begins with a checked value is answered only if the value fits. -/
theorem checked_bind_eq_ok {n : Int} {next : Int → Action σ α} {s s' : σ} {a : α}
    (h : ((liftM (Word.checked n) : Action σ Int) >>= next) s = .ok a s') :
    Word.Fits n ∧ next n s = .ok a s' := by
  obtain ⟨m, t, lifted, rest⟩ := bind_eq_ok h
  obtain ⟨passed, rfl⟩ := lift_eq_ok lifted
  obtain ⟨fits, rfl⟩ := Word.checked_eq_ok_iff.mp passed
  exact ⟨fits, rest⟩

theorem bind_of_ok {act : Action σ α} {next : α → Action σ β} {s t : σ} {a : α}
    (h : act s = .ok a t) : (act >>= next) s = next a t := by
  rw [bind_apply, h]

theorem bind_of_error {act : Action σ α} {next : α → Action σ β} {s t : σ} {fault : Fault}
    (h : act s = .error fault t) : (act >>= next) s = .error fault t := by
  rw [bind_apply, h]

theorem checked_bind_of_fits {n : Int} {next : Int → Action σ α} {s : σ} (fits : Word.Fits n) :
    ((liftM (Word.checked n) : Action σ Int) >>= next) s = next n s := by
  rw [bind_apply, lift_apply, Word.checked_of_fits fits]

theorem checked_bind_of_overflow {n : Int} {next : Int → Action σ α} {s : σ}
    (exceeds : ¬ Word.Fits n) :
    ((liftM (Word.checked n) : Action σ Int) >>= next) s = .error .overflow s := by
  rw [bind_apply, lift_apply, Word.checked_of_overflow exceeds]

theorem map_eq_ok {f : α → β} {act : Action σ α} {s s' : σ} {b : β}
    (h : (f <$> act) s = .ok b s') : ∃ a, act s = .ok a s' ∧ b = f a := by
  rw [map_apply] at h
  cases e : act s with
  | ok a t =>
      rw [e] at h
      cases h
      exact ⟨a, rfl, rfl⟩
  | error fault t =>
      rw [e] at h
      cases h

/-- An action on a part of a state that is answered was answered on the part. -/
theorem onPart_eq_ok {part : τ → σ} {put : σ → τ → τ} {act : Action σ α} {t t' : τ} {a : α}
    (h : onPart part put act t = .ok a t') : ∃ s, act (part t) = .ok a s ∧ t' = put s t := by
  unfold onPart at h
  cases e : act (part t) with
  | ok b s =>
      rw [e] at h
      cases h
      exact ⟨s, rfl, rfl⟩
  | error f s =>
      rw [e] at h
      cases h

theorem onPart_of_error {part : τ → σ} {put : σ → τ → τ} {act : Action σ α} {t : τ} {fault : Fault}
    {s : σ} (h : act (part t) = .error fault s) :
    onPart part put act t = .error fault (put s t) := by
  unfold onPart
  rw [h]

theorem onPart_of_ok {part : τ → σ} {put : σ → τ → τ} {act : Action σ α} {t : τ} {a : α} {s : σ}
    (h : act (part t) = .ok a s) : onPart part put act t = .ok a (put s t) := by
  unfold onPart
  rw [h]

/-! ## Computations with checked values -/

theorem except_bind_eq_ok {e : Except Fault α} {next : α → Except Fault β} {b : β}
    (h : (e >>= next) = .ok b) : ∃ a, e = .ok a ∧ next a = .ok b := by
  cases e with
  | ok a => exact ⟨a, rfl, h⟩
  | error f => cases h

/-- A computation that begins with a checked value succeeds only if the value fits. -/
theorem except_checked_eq_ok {n : Int} {next : Int → Except Fault α} {a : α}
    (h : (Word.checked n >>= next) = .ok a) : Word.Fits n ∧ next n = .ok a := by
  obtain ⟨m, passed, rest⟩ := except_bind_eq_ok h
  obtain ⟨fits, rfl⟩ := Word.checked_eq_ok_iff.mp passed
  exact ⟨fits, rest⟩

theorem except_bind_eq_error {e : Except Fault α} {next : α → Except Fault β} {fault : Fault}
    (h : (e >>= next) = .error fault) : e = .error fault ∨ ∃ a, e = .ok a ∧ next a = .error fault := by
  cases e with
  | ok a => exact Or.inr ⟨a, rfl, h⟩
  | error f =>
      cases h
      exact Or.inl rfl

theorem except_checked_eq_error {n : Int} {next : Int → Except Fault α} {fault : Fault}
    (h : (Word.checked n >>= next) = .error fault) : fault = .overflow ∨ next n = .error fault := by
  rcases except_bind_eq_error h with overflow | ⟨m, passed, rest⟩
  · exact Or.inl (Word.checked_eq_error overflow)
  · obtain ⟨-, rfl⟩ := Word.checked_eq_ok_iff.mp passed
    exact Or.inr rest

theorem except_checked_of_fits {n : Int} {next : Int → Except Fault α} (fits : Word.Fits n) :
    (Word.checked n >>= next) = next n := by
  rw [Word.checked_of_fits fits]
  rfl

end Action

end EventRing
