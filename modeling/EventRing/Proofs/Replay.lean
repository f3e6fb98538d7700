import EventRing.Proofs.Availability
/-!
# EventRing.Proofs.Replay

A reset lets a ring go on after another sequence, ahead of where it was or behind, so that what comes after
it can be published once more.  Whether something beyond that sequence looks published although nobody
published it again is decided when the reset is made: a ring for one producer has only its cursor to go by,
but on one for many producers every slot keeps its mark, and the reset overwrites that of a single slot.
So nothing of the past shows if nothing else was marked beyond the new start (`Covered`), and then until
the next reset; if something was, it shows at once.

Resets forwards need no such care: nothing is marked beyond the claim position of a ring that was never
sent back (`covered_of_forwards`).
-/

namespace EventRing

open Sequencer

namespace Sequencer

variable {g : Geometry} {s : Sequencer g} {c t : Int}

/-- With one producer nothing beyond the cursor is published. -/
theorem le_cursor_of_isPublished (ledger : s.ledger = .solo c) (published : s.isPublished t = .ok true) :
    t ≤ s.cursor := by
  unfold isPublished at published
  simp only [ledger] at published
  split at published
  · assumption
  · cases published

/-- The mark of a sequence before it leaves an early one marked only in another slot. -/
theorem isMarked_mark_of_lt {laps : Vector Int32 g.size} {u : Int} (low : -1 ≤ u) (before : u < t)
    (early : g.Early t) :
    isMarked (mark laps u) t = true ↔ g.slot u ≠ g.slot t ∧ isMarked laps t = true := by
  rw [isMarked_mark_of_told (early.eq_of_lap_of_lt low before)]
  exact or_iff_right (Int.ne_of_lt before)

end Sequencer

namespace Journal

variable {g : Geometry} {ε : Type} {j k q : Journal g ε} {act : Act ε} {laps : Vector Int32 g.size}
  {s t : Int}

/-! ## What a reset leaves visible -/

/-- Nothing beyond `s` looks published but in the slot that a reset to `s` overwrites. -/
def Covered (j : Journal g ε) (s : Int) : Prop :=
  ∀ t, s < t → g.Early t → j.sequencer.isPublished t = .ok true → g.slot t = g.slot s

/-- What looks published beyond `s` is in the journal. -/
structure Accounted (j : Journal g ε) (s : Int) : Prop where
  published : ∀ t, s < t → g.Early t → j.sequencer.isPublished t = .ok true → t ∈ j.shown
  search : ∃ v, j.sequencer.highestPublished (s + 1) j.sequencer.cursor = .ok v ∧
    ∀ t, s < t → t ≤ v → t ∈ j.shown

/-- A reset overwrites the mark of its own slot only. -/
theorem isMarked_reset (start : -1 ≤ s) (after : s < t) (early : g.Early t)
    (ledger : j.sequencer.ledger = .shared laps) :
    isMarked (mark laps s) t = true ↔
      g.slot t ≠ g.slot s ∧ j.sequencer.isPublished t = .ok true := by
  rw [isMarked_mark_of_lt start after early, isPublished_shared ledger, Except.ok.injEq, ne_comm]

/-- With one producer the journal holds everything up to the cursor. -/
theorem Sound.accounted_of_one (sound : j.Sound) (single : j.kind = .one) (floor : j.floor = s) :
    j.Accounted s := by
  obtain ⟨c, ledger⟩ := exists_solo single
  have order := sound.solo single
  have passed {t : Int} (after : s < t) (before : t ≤ j.sequencer.cursor) : t ∈ j.shown :=
    (order.mem_shown t).mpr ⟨by omega, before⟩
  refine ⟨fun t after _ published => passed after (le_cursor_of_isPublished ledger published), ?_⟩
  exact ⟨j.sequencer.cursor, highestPublished_solo ledger, fun t => passed⟩

/-- With many, a mark beyond `s` is that of a sequence of the journal, if the marks it was made over say
nothing. -/
theorem Sound.accounted_of_stamped (sound : j.Sound) (start : -1 ≤ s) (fits : Word.Fits s)
    (near : j.claimed < 2 ^ 31 * g.size) (ledger : j.sequencer.ledger = .shared (stamped laps j.shown))
    (clear : ∀ t, s < t → g.Early t → isMarked laps t = false) : j.Accounted s := by
  have cursor : j.sequencer.cursor = j.claimed := (claimed_shared ledger).symm
  have listed {t : Int} (after : s < t) (early : g.Early t)
      (marked : isMarked (stamped laps j.shown) t = true) : t ∈ j.shown := by
    rcases (isMarked_stamped (sound.early near) early).mp marked with newest | ⟨-, old⟩
    · exact newest.mem
    · rw [clear t after early] at old
      cases old
  constructor
  · intro t after early published
    rw [isPublished_shared ledger, Except.ok.injEq] at published
    exact listed after early published
  · have fitsC : Word.Fits j.sequencer.cursor := by
      rw [cursor]
      exact sound.fits
    have fitsS : Word.Fits (s + 1 - 1) := by rwa [Int.add_sub_cancel]
    obtain ⟨v, found⟩ := exists_highestPublished j.sequencer fitsS fitsC
    obtain ⟨below, -, run, -⟩ := highestPublished_shared ledger found
    refine ⟨v, found, fun t after le => ?_⟩
    rw [cursor] at below
    have early : g.Early t :=
      ⟨by omega, by omega, Word.Fits.between fits sound.fits (by omega) (by omega)⟩
    exact listed after early (run t (by omega) le)

/-! ## Resets forwards -/

/-- Nothing beyond the claim position looks published. -/
def Unmarked (j : Journal g ε) : Prop :=
  ∀ t, j.claimed < t → g.Early t → ¬ j.sequencer.isPublished t = .ok true

theorem Sound.unmarked_of_one (sound : j.Sound) (single : j.kind = .one) : j.Unmarked := by
  intro t beyond _ published
  obtain ⟨c, ledger⟩ := exists_solo single
  have := le_cursor_of_isPublished ledger published
  have := (sound.solo single).cursor_le
  omega

/-- Marks for earlier sequences do not make a sequence look published. -/
theorem isMarked_of_stamped {order : List Int} (before : ∀ u ∈ order, -1 ≤ u ∧ u < t)
    (early : g.Early t) (marked : isMarked (stamped laps order) t = true) :
    isMarked laps t = true := by
  have told : ∀ u ∈ order, g.slot u = g.slot t → g.lap u = g.lap t → u = t := fun u listed =>
    early.eq_of_lap_of_lt (before u listed).1 (before u listed).2
  rcases (isMarked_stamped_of_told told).mp marked with newest | ⟨-, old⟩
  · exact absurd (before t newest.mem).2 (Int.lt_irrefl t)
  · exact old

theorem unmarked_of_change (sound : j.Sound) (unmarked : j.Unmarked) (forwards : j.Forwards act)
    (h : Change j act k) : k.Unmarked := by
  have later := sound_of_change sound h
  cases ledger : j.sequencer.ledger with
  | solo c => exact later.unmarked_of_one ((kind_of_change h).trans (producers_solo ledger))
  | shared laps =>
      obtain ⟨order, marks, origin⟩ := marks_of_change h ledger
      -- whatever was marked is claimed afterwards
      have past : ∀ u ∈ order, -1 ≤ u ∧ u ≤ k.claimed := by
        intro u marked
        rcases origin with shown | ⟨t, -, rfl, start, position⟩
        · obtain ⟨above, below⟩ := later.past u (shown ▸ List.mem_append_left _ marked)
          have := later.start
          exact ⟨by omega, below⟩
        · rw [List.mem_singleton.mp marked]
          exact ⟨start, Int.le_of_eq position.symm⟩
      intro t beyond early published
      rw [isPublished_shared marks, Except.ok.injEq] at published
      have old : isMarked laps t = true := isMarked_of_stamped
        (fun u marked => ⟨(past u marked).1, Int.lt_of_le_of_lt (past u marked).2 beyond⟩) early published
      refine unmarked t (Int.lt_of_le_of_lt (sound.claimed_le forwards h) beyond) early ?_
      rw [isPublished_shared ledger, old]

theorem unmarked_fresh (g : Geometry) (kind : Producers) (parks : Bool) (factory : Nat → ε) :
    (fresh g kind parks factory).Unmarked := by
  cases kind with
  | one => exact (sound_fresh g .one parks factory).unmarked_of_one rfl
  | many =>
      intro t _ early published
      rw [isPublished_shared rfl, isMarked_initial early] at published
      cases published

/-- A ring that was never sent back may be sent forwards. -/
theorem covered_of_forwards {kind : Producers} {parks : Bool} {factory : Nat → ε}
    (reached : Reaches step Forwards (fresh g kind parks factory) j) (ahead : j.claimed ≤ s) :
    j.Covered s := by
  have unmarked : j.Sound ∧ j.Unmarked := by
    refine reached.invariant (motive := fun j => j.Sound ∧ j.Unmarked)
      ⟨sound_fresh g kind parks factory, unmarked_fresh g kind parks factory⟩ ?_
    rintro p act q ⟨sound, unmarked⟩ forwards made
    have change := change_of_step made
    exact ⟨sound_of_change sound change, unmarked_of_change sound unmarked forwards change⟩
  intro t after early published
  exact absurd published (unmarked.2 t (Int.lt_of_le_of_lt ahead after) early)

/-! ## Resets -/

/-- After a reset nothing beyond its start looks published that was not published since, whatever is
claimed and published until the next reset: with one producer always, and with many if nothing else was
marked beyond the start.  If something was, it looks published although nothing was published yet. -/
theorem resets_hide_the_past {kind : Producers} {parks : Bool} {factory : Nat → ε}
    (reached : Reaches step (fun _ _ => True) (fresh g kind parks factory) j) (quiet : j.Quiet)
    (start : -1 ≤ s) (fits : Word.Fits s) :
    ∃ k, j.step (.reset s) = some k ∧
      (kind = .one ∨ j.Covered s → ∀ q, Reaches step Onward k q → q.claimed < 2 ^ 31 * g.size →
        q.Accounted s) ∧
      (kind = .many → ¬ j.Covered s → ∃ t, s < t ∧ g.Early t ∧
        k.sequencer.isPublished t = .ok true ∧ t ∉ k.shown) := by
  obtain ⟨ring, done, restarted⟩ := restarted_of_reset j.ring s
  have made : j.step (.reset s) = some { j with ring := ring, floor := s, shown := [] } := by
    have allowed : j.Quiet ∧ -1 ≤ s ∧ Word.Fits s := ⟨quiet, start, fits⟩
    simp only [step, if_pos allowed, onRing, done]
  have same : j.kind = kind := (kind_of_reaches reached).trans (kind_fresh g kind parks factory)
  refine ⟨_, made, fun covered q onward near => ?_, fun many uncovered => ?_⟩
  · have sound : q.Sound := sound_of_reaches (sound_of_change
      (sound_of_reaches (sound_fresh g kind parks factory) reached) (change_of_step made)) onward
    cases ledger : j.sequencer.ledger with
    | solo c =>
        have single : q.kind = .one := by
          rw [kind_of_reaches onward]
          exact producers_solo (restarted.solo c ledger).1
        exact sound.accounted_of_one single (floor_of_reaches onward)
    | shared laps =>
        obtain ⟨later, shown, marks⟩ := stamped_of_reaches onward (restarted.shared laps ledger).1
        obtain rfl : q.shown = later := by simpa using shown
        refine sound.accounted_of_stamped start fits near marks fun t after early => ?_
        have covered : j.Covered s := by
          refine covered.resolve_left fun one => ?_
          cases (producers_shared ledger).symm.trans (same.trans one)
        refine Bool.eq_false_iff.mpr fun marked => ?_
        obtain ⟨other, published⟩ := (isMarked_reset start after early ledger).mp marked
        exact other (covered t after early published)
  · cases ledger : j.sequencer.ledger with
    | solo c =>
        cases (producers_solo ledger).symm.trans (same.trans many)
    | shared laps =>
        obtain ⟨t, uncovered⟩ := Classical.not_forall.mp uncovered
        simp only [Classical.not_imp] at uncovered
        obtain ⟨after, early, published, other⟩ := uncovered
        refine ⟨t, after, early, ?_, List.not_mem_nil⟩
        have marked := (isMarked_reset start after early ledger).mpr ⟨other, published⟩
        rw [← marked]
        exact isPublished_shared (restarted.shared laps ledger).1 t

/-- A ring of four slots for many producers is filled, sent ahead and used again: what looks published
beyond the new start was published since, although the slot of 6 still carries a mark. -/
theorem resets_hide_the_past_ahead :
    ∃ j k q : Journal ⟨2, by decide⟩ Unit,
      Reaches step Forwards (fresh ⟨2, by decide⟩ .many false fun _ => ()) j ∧
      j.step (.reset 5) = some k ∧ Reaches step Onward k q ∧ q.shown = [7] ∧ q.held = [6] ∧
      ¬ q.sequencer.isPublished 6 = .ok true := by
  have walked : ∃ j k q : Journal ⟨2, by decide⟩ Unit,
      walk step Forwards (fresh ⟨2, by decide⟩ .many false fun _ => ())
        [.claim 4, .publishRun 0 3] = some j ∧ j.Quiet ∧ j.claimed ≤ 5 ∧
      j.step (.reset 5) = some k ∧ walk step Onward k [.claim 2, .publish 7] = some q ∧
      q.claimed = 7 ∧ q.shown = [7] ∧ q.held = [6] :=
    ⟨_, _, _, rfl, by decide, by decide, rfl, rfl, rfl, rfl, rfl⟩
  obtain ⟨j, k, q, walked, quiet, ahead, made, later, claimed, shown, held⟩ := walked
  have forwards := reaches_of_walk walked
  have onward := reaches_of_walk later
  obtain ⟨k', made', hidden, -⟩ := resets_hide_the_past (forwards.mono fun _ _ _ => trivial) quiet
    (by decide : -1 ≤ (5 : Int)) (by decide)
  obtain rfl : k = k' := Option.some.inj (made.symm.trans made')
  have accounted := hidden (Or.inr (covered_of_forwards forwards ahead)) q onward
    (by rw [claimed]; decide)
  refine ⟨j, k, q, forwards, made, onward, shown, held, fun published => ?_⟩
  have listed := accounted.published 6 (by decide) ⟨by decide, by decide, by decide⟩ published
  rw [shown] at listed
  revert listed
  decide

/-- The same ring sent back to 1: 2 and 3 look published at once, and when 2 is claimed it is exposed
while it is held open. -/
theorem backward_reset_shows_the_past :
    ∃ j k q : Journal ⟨2, by decide⟩ Unit,
      [.claim 4, .publishRun 0 3].foldlM step (fresh ⟨2, by decide⟩ .many false fun _ => ()) = some j ∧
      j.Quiet ∧ j.step (.reset 1) = some k ∧ k.sequencer.isPublished 2 = .ok true ∧ 2 ∉ k.shown ∧
      k.step (.claim 1) = some q ∧ q.held = [2] ∧ q.sequencer.isPublished 2 = .ok true ∧
      q.sequencer.highestPublished 2 q.sequencer.cursor = .ok 2 :=
  ⟨_, _, _, rfl, by decide, rfl, rfl, by decide, rfl, rfl, rfl, rfl⟩

end Journal

end EventRing
