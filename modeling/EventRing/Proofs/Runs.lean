/-!
# EventRing.Proofs.Runs

Runs of a system that takes one step after another.  A step is a partial function of a state and an
act; `Reaches` are the states that a run comes to when every act on the way is allowed in the state
that it meets.  What a step preserves holds wherever a run leads (`Reaches.invariant`).

`walk` makes the acts of a list, as long as they are allowed, so that a run on given acts can be
computed.
-/

namespace EventRing

variable {σ α : Type} {step : σ → α → Option σ} {allowed : σ → α → Prop} {start p q : σ}

/-- The states that a run of allowed acts comes to. -/
inductive Reaches (step : σ → α → Option σ) (allowed : σ → α → Prop) (start : σ) : σ → Prop where
  | start : Reaches step allowed start start
  | step {p q : σ} {act : α} (before : Reaches step allowed start p) (allows : allowed p act)
      (made : step p act = some q) : Reaches step allowed start q

/-- A run goes on with an act that can be made and is allowed. -/
theorem Reaches.next {act : α} (before : Reaches step allowed start p) (made : step p act = some q)
    (allows : allowed p act) : Reaches step allowed start q :=
  Reaches.step before allows made

/-- What holds at the start and is preserved by every allowed act holds wherever a run leads. -/
theorem Reaches.invariant {motive : σ → Prop} (reached : Reaches step allowed start p)
    (initially : motive start)
    (preserved : ∀ {p act q}, motive p → allowed p act → step p act = some q → motive q) :
    motive p := by
  induction reached with
  | start => exact initially
  | step _ allows made ih => exact preserved ih allows made

/-- A run goes on where another one ended. -/
theorem Reaches.trans (first : Reaches step allowed start p) (second : Reaches step allowed p q) :
    Reaches step allowed start q := by
  induction second with
  | start => exact first
  | step _ allows made ih => exact Reaches.step ih allows made

/-- What is allowed may be allowed more generously. -/
theorem Reaches.mono {wider : σ → α → Prop} (reached : Reaches step allowed start p)
    (allows : ∀ p act, allowed p act → wider p act) : Reaches step wider start p := by
  induction reached with
  | start => exact Reaches.start
  | step _ allowed made ih => exact Reaches.step ih (allows _ _ allowed) made

/-- A run of several acts that begins with one that can be made. -/
theorem foldlM_step {act : α} {acts : List α} (made : step p act = some q) :
    (act :: acts).foldlM step p = acts.foldlM step q := by
  rw [List.foldlM_cons, made]
  rfl

theorem foldlM_last {act : α} (made : step p act = some q) : [act].foldlM step p = some q :=
  foldlM_step made

/-- Makes the acts of a list, as long as they are allowed. -/
def walk (step : σ → α → Option σ) (allowed : σ → α → Prop)
    [∀ p act, Decidable (allowed p act)] : σ → List α → Option σ
  | p, [] => some p
  | p, act :: acts =>
    if allowed p act then (step p act).bind fun q => walk step allowed q acts else none

theorem reaches_of_walk [∀ p act, Decidable (allowed p act)] {acts : List α}
    (h : walk step allowed p acts = some q) : Reaches step allowed p q := by
  induction acts generalizing p with
  | nil =>
      cases h
      exact Reaches.start
  | cons act rest ih =>
      unfold walk at h
      by_cases allows : allowed p act
      · rw [if_pos allows] at h
        obtain ⟨next, made, onwards⟩ := Option.bind_eq_some_iff.mp h
        exact (Reaches.step Reaches.start allows made).trans (ih onwards)
      · rw [if_neg allows] at h
        cases h

/-- Acts that can all be made lead to where they are walked. -/
theorem reaches_get [∀ p act, Decidable (allowed p act)] {acts : List α}
    (made : (walk step allowed p acts).isSome = true) :
    Reaches step allowed p ((walk step allowed p acts).get made) :=
  reaches_of_walk (Option.some_get made).symm

end EventRing
