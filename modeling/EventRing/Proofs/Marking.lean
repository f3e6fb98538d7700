import EventRing.Proofs.Keeping
import EventRing.Proofs.Wiring
/-!
# EventRing.Proofs.Marking

What the laps in the slots say as long as claims stay in a window of one lap.  Then the sequences of a
slot are published one after the other, and the slot carries the lap of the greatest of them
(`Latest`).  That lap can only be mistaken for the lap of a sequence 2^32 laps away, and before such a
sequence the scan would have stopped: so marks tell the truth, however many laps were claimed
(`tells_of_latest`).
-/

namespace EventRing.Production

open Sequencer

variable {g : Geometry} {ε : Type} {p q : Production g ε} {act : Act ε} {i : Nat} {b : Block}
  {u v : Int} {laps : Vector Int32 g.size}

/-- Every slot carries the lap of the greatest published sequence of that slot, or of one before 0 if
none was published. -/
def Latest (p : Production g ε) : Prop :=
  ∀ {laps : Vector Int32 g.size}, p.sequencer.ledger = .shared laps →
    ∀ t, ∃ u, g.slot u = g.slot t ∧ laps.get (g.slot t) = g.lap u ∧
      (p.Published u ∨ (-g.size ≤ u ∧ u < 0)) ∧ ∀ v, p.Published v → g.slot v = g.slot t → v ≤ u

/-- Before the first claim every slot carries the lap before the first one. -/
theorem latest_of_unclaimed (sound : p.Sound) (unclaimed : p.claimed = -1) : p.Latest := by
  have nothing {v : Int} (shown : p.Published v) : False :=
    not_granted sound unclaimed (Or.inl shown)
  intro laps ledger t
  obtain ⟨u, slot, lap, origin⟩ := sound.marks ledger t
  refine ⟨u, slot, lap, Or.inr ?_, fun v shown => (nothing shown).elim⟩
  rcases origin with shown | ⟨above, negative, -⟩
  · exact (nothing shown).elim
  · exact ⟨above, negative⟩

/-- Before the first claim nothing is in a window. -/
theorem window_of_unclaimed (sound : p.Sound) (unclaimed : p.claimed = -1) : p.Window :=
  fun _ granted => absurd granted (not_granted sound unclaimed)

/-- What was published in a slot before an open claim of it lies below the claim. -/
theorem lt_of_published (sound : p.Sound) (window : p.Window) (holds : p.Holds i b) (inside : u ∈ b)
    (shown : p.Published v) (slot : g.slot v = g.slot u) : v < u := by
  rcases Int.lt_trichotomy v u with less | same | more
  · exact less
  · rw [same] at shown
    exact absurd inside (sound.split.once (takes_of_holds holds) shown)
  · exact absurd slot.symm (slot_ne_of_window sound window holds inside (Or.inl shown) more)

/-- Only a publication changes the laps. -/
theorem laps_of_change (h : Change p act q) (ledger : q.sequencer.ledger = .shared laps) :
    (p.sequencer.ledger = .shared laps ∧ q.history = p.history) ∨
      ∃ i b old, p.Holds i b ∧ p.sequencer.ledger = .shared old ∧
        laps = markRun old b.lo (runLength b.lo b.hi) ∧ q.history = b :: p.history := by
  obtain ⟨old, before⟩ : ∃ old, p.sequencer.ledger = .shared old := by
    rw [← kind_eq_many_iff, ← kind_of_change h]
    exact kind_eq_many_iff.mpr ⟨laps, ledger⟩
  have same (still : q.sequencer.ledger = .shared old) : p.sequencer.ledger = .shared laps :=
    before.trans (still.symm.trans ledger)
  cases h with
  | lent _ sequencer => exact Or.inl ⟨same ((congrArg _ sequencer).trans before), rfl⟩
  | returned _ sequencer => exact Or.inl ⟨same ((congrArg _ sequencer).trans before), rfl⟩
  | claimed _ _ taken => exact Or.inl ⟨same (taken.moved.shared old before).1, rfl⟩
  | parked _ parked => exact Or.inl ⟨same (parked.shared old before).1, rfl⟩
  | resumed _ settled => exact Or.inl ⟨same (settled.shared old before), rfl⟩
  | published holds shown =>
      have marked := (shown.shared old before).1
      have equal : laps = markRun old _ _ := Ledger.shared.inj (ledger.symm.trans marked)
      exact Or.inr ⟨_, _, old, holds, before, equal, rfl⟩
  | _ => exact Or.inl ⟨same before, rfl⟩

theorem latest_of_change (sound : p.Sound) (window : p.Window) (latest : p.Latest)
    (h : Change p act q) : q.Latest := by
  intro laps ledger t
  rcases laps_of_change h ledger with ⟨before, history⟩ | ⟨i, b, old, holds, before, rfl, history⟩
  · simpa only [Published, history] using latest before t
  · obtain ⟨low, upright, high, short⟩ := sound.split.span (takes_of_holds holds)
    have shown {v : Int} : q.Published v ↔ v ∈ b ∨ p.Published v := by
      simp [Published, history]
    have length {v : Int} (above : b.lo ≤ v) : v < b.lo + runLength b.lo b.hi ↔ v ≤ b.hi := by
      unfold runLength
      omega
    rcases get_markRun old b.lo t (runLength b.lo b.hi) with ⟨same, others⟩ | ⟨u, above, under, slot, lap⟩
    · -- the slot is none of the claim's
      obtain ⟨u, slot, lap, origin, greatest⟩ := latest before t
      refine ⟨u, slot, same.trans lap, origin.imp_left fun was => shown.mpr (Or.inr was), ?_⟩
      intro v published slotV
      rcases shown.mp published with inside | was
      · exact absurd slotV (others v inside.1 ((length inside.1).mpr inside.2))
      · exact greatest v was slotV
    · have below := (length above).mp under
      refine ⟨u, slot, lap, Or.inl (shown.mpr (Or.inl ⟨above, below⟩)), fun v published slotV => ?_⟩
      have slots : g.slot v = g.slot u := slotV.trans slot.symm
      rcases shown.mp published with inside | was
      · refine Int.not_lt.mp fun more => Geometry.slot_ne_of_near more ?_ slots.symm
        have := inside.2
        omega
      · exact Int.le_of_lt (lt_of_published sound window holds ⟨above, below⟩ was slots)

/-- Marks tell the truth as long as claims stay in a window. -/
theorem tells_of_latest (sound : p.Sound) (window : p.Window) (latest : p.Latest) : p.Tells := by
  intro laps t ledger low high before marked
  obtain ⟨u, slot, lap, origin, greatest⟩ := latest ledger t
  have size := g.size_cast_pos
  have sameLap : g.lap u = g.lap t := by
    rw [← lap]
    exact eq_of_beq marked
  have fitsT : Word.Fits t := Word.Fits.between (by decide : Word.Fits 0) sound.fits low high
  have fitsU : Word.Fits u := by
    rcases origin with shown | ⟨above, negative⟩
    · obtain ⟨start, below⟩ := sound.split.past shown
      exact Word.Fits.between (by decide : Word.Fits 0) sound.fits start below
    · have := g.size_le
      simp only [Word.Fits, Word.least, Word.greatest]
      omega
  rcases Int.lt_trichotomy u t with less | rfl | more
  · -- then the sequence of the slot one lap below `t` is published, so `u` cannot be 2^32 laps away
    have near : t < u + 2 ^ 32 * g.size := by
      by_cases first : t < g.size
      · have above : -g.size ≤ u := by
          rcases origin with shown | ⟨above, -⟩
          · have := (sound.split.past shown).1
            omega
          · exact above
        omega
      · have greatestBefore : t - g.size ≤ u := by
          refine greatest (t - g.size) (before _ (by omega) (by omega)) ?_
          rw [Geometry.slot_eq_iff_dvd]
          exact ⟨-1, by omega⟩
        omega
    have := Geometry.eq_of_slot_of_lap fitsU fitsT (by omega) near slot sameLap
    omega
  · rcases origin with shown | ⟨-, negative⟩
    · exact shown
    · omega
  · -- above an open claim of `t` nothing of its slot is published
    have shownU : p.Published u := origin.resolve_right (by omega)
    rcases sound.split.cover low high with shown | ⟨i, b, took, inside⟩
    · exact shown
    · refine absurd slot.symm (Geometry.slot_ne_of_near more ?_)
      have start := inside.1
      by_cases within : u ≤ b.hi
      · exact absurd ⟨by omega, within⟩ (sound.split.once took shownU)
      · have := window u (Or.inl shownU) i b took (by omega)
        omega

end EventRing.Production
