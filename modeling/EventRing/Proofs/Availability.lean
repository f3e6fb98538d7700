import EventRing.Proofs.Journal
/-!
# EventRing.Proofs.Availability

What the laps in the slots say on a ring for many producers, in whatever order sequences are published.
Every publication writes the lap of its sequence into its slot, so a slot tells which sequence was the last
one published there (`Newest`), among the sequences of the first 2^31 laps (`Early`): their laps are not
negative as numbers of 32 bits, and none of them is the lap that slots begin with.

From this the search for the end of the published run needs nothing else: it stops at the first sequence
that is not available, wherever it was asked to stop, also more than a lap ahead.
-/

namespace EventRing

open Sequencer

/-- A sequence of the first 2^31 laps. -/
structure Geometry.Early (g : Geometry) (t : Int) : Prop where
  nonneg : 0 ≤ t
  lt : t < 2 ^ 31 * g.size
  fits : Word.Fits t

namespace Geometry

variable {g : Geometry} {s t : Int}

theorem Early.mono (early : g.Early t) (nonneg : 0 ≤ s) (le : s ≤ t) : g.Early s :=
  ⟨nonneg, Int.lt_of_le_of_lt le early.lt,
    Word.Fits.between (by decide : Word.Fits 0) early.fits nonneg le⟩

/-- Slot and lap tell early sequences apart. -/
theorem Early.eq_of_lap_eq (earlyS : g.Early s) (earlyT : g.Early t) (slot : g.slot s = g.slot t)
    (lap : g.lap s = g.lap t) : s = t := by
  have := earlyS.nonneg
  have := earlyS.lt
  have := earlyT.nonneg
  have := earlyT.lt
  exact eq_of_slot_of_lap earlyS.fits earlyT.fits (by omega) (by omega) slot lap

/-- They tell an early sequence also from the one in front of the first. -/
theorem Early.eq_of_lap_of_lt (early : g.Early t) (low : -1 ≤ s) (before : s < t)
    (slot : g.slot s = g.slot t) (lap : g.lap s = g.lap t) : s = t := by
  have fits := Word.Fits.between (by decide : Word.Fits (-1)) early.fits low (Int.le_of_lt before)
  have := early.lt
  exact eq_of_slot_of_lap fits early.fits (by omega) (by omega) slot lap

/-- No early sequence has the lap that slots begin with. -/
theorem Early.lap_ne_initial (early : g.Early t) : g.lap t ≠ -1 := by
  intro initial
  have size := g.size_cast_pos
  have small := g.size_le
  have nonneg := early.nonneg
  have below := early.lt
  -- the sequence of the same slot in the lap before the first one
  have low := Int.emod_nonneg t (Int.ne_of_gt size)
  have high := Int.emod_lt_of_pos t size
  have fits : Word.Fits (t % g.size - g.size) := by
    simp only [Word.Fits, Word.least, Word.greatest]
    omega
  have slot : g.slot (t % g.size - g.size) = g.slot t := by
    rw [slot_eq_iff]
    simp
  have lap : g.lap (t % g.size - g.size) = g.lap t := by
    rw [initial]
    exact lap_of_neg (by omega) (by omega)
  have := eq_of_slot_of_lap fits early.fits (by omega) (by omega) slot lap
  omega

end Geometry

namespace Sequencer

variable {g : Geometry} {s : Sequencer g} {laps : Vector Int32 g.size} {order : List Int}
  {t u lo hi r : Int}

/-! ## Marks -/

theorem isMarked_mark (laps : Vector Int32 g.size) (u t : Int) :
    isMarked (mark laps u) t = if g.slot u = g.slot t then g.lap u == g.lap t else isMarked laps t := by
  unfold isMarked
  rw [get_mark]
  split <;> rfl

/-- A mark is that of its own sequence, if its lap tells it from the one that is asked for. -/
theorem isMarked_mark_of_told (told : g.slot u = g.slot t → g.lap u = g.lap t → u = t) :
    isMarked (mark laps u) t = true ↔ u = t ∨ g.slot u ≠ g.slot t ∧ isMarked laps t = true := by
  rw [isMarked_mark]
  by_cases same : g.slot u = g.slot t
  · have apart : g.lap u = g.lap t ↔ u = t := ⟨told same, fun equal => by rw [equal]⟩
    simp [same, apart]
  · have different : u ≠ t := fun equal => same (by rw [equal])
    simp [same, different]

theorem isMarked_initial (early : g.Early t) :
    isMarked (Vector.replicate g.size (-1) : Vector Int32 g.size) t = false := by
  have initial : (Vector.replicate g.size (-1) : Vector Int32 g.size).get (g.slot t) = -1 := by
    show (Vector.replicate g.size (-1 : Int32))[(g.slot t : Nat)] = -1
    simp
  unfold isMarked
  rw [initial]
  exact beq_eq_false_iff_ne.mpr early.lap_ne_initial.symm

/-- A sequence is in a journal, and nothing of its slot came after it. -/
def Newest (g : Geometry) (order : List Int) (t : Int) : Prop :=
  ∃ later earlier, order = later ++ t :: earlier ∧ ∀ u ∈ later, g.slot u ≠ g.slot t

theorem not_newest_nil : ¬ Newest g [] t := by
  rintro ⟨later, earlier, empty, -⟩
  simp at empty

theorem newest_cons :
    Newest g (u :: order) t ↔ u = t ∨ g.slot u ≠ g.slot t ∧ Newest g order t := by
  constructor
  · rintro ⟨_ | ⟨first, later⟩, earlier, split, others⟩
    · exact Or.inl (List.cons.inj split).1
    · obtain ⟨rfl, rest⟩ := List.cons.inj split
      obtain ⟨first, others⟩ := List.forall_mem_cons.mp others
      exact Or.inr ⟨first, later, earlier, rest, others⟩
  · rintro (rfl | ⟨other, later, earlier, rfl, others⟩)
    · exact ⟨[], order, rfl, fun u none => (nomatch none)⟩
    · exact ⟨u :: later, earlier, rfl, List.forall_mem_cons.mpr ⟨other, others⟩⟩

theorem Newest.mem (newest : Newest g order t) : t ∈ order := by
  obtain ⟨later, earlier, rfl, -⟩ := newest
  simp

/-- A slot is marked for the sequence that came last in it, and if none did as it was before.  For that the
laps have to tell the sequence from the others of its slot. -/
theorem isMarked_stamped_of_told
    (told : ∀ u ∈ order, g.slot u = g.slot t → g.lap u = g.lap t → u = t) :
    isMarked (Journal.stamped laps order) t = true ↔
      Newest g order t ∨ (∀ u ∈ order, g.slot u ≠ g.slot t) ∧ isMarked laps t = true := by
  induction order with
  | nil => simp [Journal.stamped, not_newest_nil]
  | cons u order ih =>
      obtain ⟨toldU, told⟩ := List.forall_mem_cons.mp told
      have step : Journal.stamped laps (u :: order) = mark (Journal.stamped laps order) u := rfl
      rw [step, isMarked_mark_of_told toldU, newest_cons, List.forall_mem_cons, ih told, and_or_left,
        or_assoc, and_assoc]

/-- Among early sequences the laps tell. -/
theorem isMarked_stamped (early : ∀ u ∈ order, g.Early u) (earlyT : g.Early t) :
    isMarked (Journal.stamped laps order) t = true ↔
      Newest g order t ∨ (∀ u ∈ order, g.slot u ≠ g.slot t) ∧ isMarked laps t = true :=
  isMarked_stamped_of_told fun u listed slot lap => (early u listed).eq_of_lap_eq earlyT slot lap

/-! ## What is published -/

theorem isPublished_shared (ledger : s.ledger = .shared laps) (t : Int) :
    s.isPublished t = .ok (isMarked laps t) := by
  unfold isPublished
  rw [ledger]
  rfl

/-- The published run from `lo` on ends at `r`, or it was cut there. -/
structure RunEnd (s : Sequencer g) (lo hi r : Int) : Prop where
  ge : lo - 1 ≤ r
  le : r ≤ hi
  run : ∀ t, lo ≤ t → t ≤ r → s.isPublished t = .ok true
  stop : r = hi ∨ s.isPublished (r + 1) = .ok false

theorem RunEnd.unique {q : Int} (one : RunEnd s lo hi r) (other : RunEnd s lo hi q) : q = r := by
  have ends {q r : Int} (one : RunEnd s lo hi r) (other : RunEnd s lo hi q) : ¬ r < q := by
    intro less
    rcases one.stop with last | hole
    · have := other.le
      omega
    · -- the longer run goes through the hole
      have low := one.ge
      rw [other.run (r + 1) (by omega) (by omega)] at hole
      cases hole
  have := ends one other
  have := ends other one
  omega

/-- The search finds the end of the published run. -/
theorem runEnd_of_highestPublished (ledger : s.ledger = .shared laps) (meets : lo - 1 ≤ hi)
    (found : s.highestPublished lo hi = .ok r) : RunEnd s lo hi r := by
  obtain ⟨below, above, run, stop⟩ := highestPublished_shared ledger found
  refine ⟨above (by omega), by omega, fun t low high => ?_, ?_⟩
  · rw [isPublished_shared ledger, run t low high]
  · by_cases last : r = hi
    · exact Or.inl last
    · refine Or.inr ?_
      rw [isPublished_shared ledger, stop (by omega)]

end Sequencer

namespace Journal

variable {g : Geometry} {ε : Type} {j k : Journal g ε} {t : Int}

/-- What was published is early as long as the claim position is. -/
theorem Sound.early (sound : j.Sound) (near : j.claimed < 2 ^ 31 * g.size) :
    ∀ u ∈ j.shown, g.Early u := by
  intro u shown
  obtain ⟨above, below⟩ := sound.past u shown
  have start := sound.start
  have fits := Word.Fits.between (by decide : Word.Fits 0) sound.fits (by omega : 0 ≤ u) below
  exact ⟨by omega, by omega, fits⟩

/-- Whatever is claimed from a ring for many producers and in whatever order it is published, a sequence
is available exactly if it was published and nothing of its slot was published after it; and from any
sequence on, the search answers the end of the run of available sequences, cut where it was asked to
stop. -/
theorem availability_is_exact {parks : Bool} {factory : Nat → ε}
    (reached : Reaches step Onward (fresh g .many parks factory) j)
    (near : j.claimed < 2 ^ 31 * g.size) :
    (∀ t, g.Early t → (j.sequencer.isPublished t = .ok true ↔ Newest g j.shown t)) ∧
    ∀ lower available, 0 ≤ lower → lower - 1 ≤ available → Word.Fits available →
      ∃ r, j.sequencer.highestPublished lower available = .ok r ∧
        RunEnd j.sequencer lower available r ∧
        ∀ other, RunEnd j.sequencer lower available other → other = r := by
  obtain ⟨order, shown, ledger⟩ := stamped_of_reaches reached rfl
  obtain rfl : j.shown = order := by simpa [fresh] using shown
  have sound := sound_of_reaches (sound_fresh g .many parks factory) reached
  refine ⟨fun t early => ?_, fun lower available low meets fits => ?_⟩
  · rw [isPublished_shared ledger, Except.ok.injEq, isMarked_stamped (sound.early near) early,
      isMarked_initial early]
    simp
  · have before : Word.Fits (lower - 1) :=
      Word.Fits.between (by decide : Word.Fits (-1)) fits (by omega) meets
    obtain ⟨r, found⟩ := exists_highestPublished j.sequencer before fits
    have ends := runEnd_of_highestPublished ledger meets found
    exact ⟨r, found, ends, fun other also => ends.unique also⟩

/-- A ring of two slots, twice around: 3 was published before 1, which has the same slot, and 0 was not
published.  So 1 and 2 are available, and the search from 1 on ends at 2. -/
theorem availability_is_exact_size_two :
    ∃ j : Journal ⟨1, by decide⟩ Unit,
      Reaches step Onward (fresh ⟨1, by decide⟩ .many false fun _ => ()) j ∧ j.shown = [2, 1, 3] ∧
      j.sequencer.isPublished 1 = .ok true ∧ j.sequencer.isPublished 2 = .ok true ∧
      ¬ j.sequencer.isPublished 3 = .ok true ∧ j.sequencer.highestPublished 1 3 = .ok 2 := by
  have walked : ∃ j : Journal ⟨1, by decide⟩ Unit,
      walk step Onward (fresh ⟨1, by decide⟩ .many false fun _ => ())
        [.claim 2, .claim 2, .publish 3, .publishRun 1 2] = some j ∧
      j.shown = [2, 1, 3] ∧ j.claimed = 3 ∧ j.sequencer.isPublished 3 = .ok false :=
    ⟨_, rfl, rfl, rfl, rfl⟩
  obtain ⟨j, walked, shown, claimed, hole⟩ := walked
  have reached := reaches_of_walk walked
  have early (t : Int) (low : 0 ≤ t) (high : t ≤ 3) : Geometry.Early ⟨1, by decide⟩ t :=
    Geometry.Early.mono ⟨by decide, by decide, by decide⟩ low high
  obtain ⟨published, search⟩ := availability_is_exact reached (by rw [claimed]; decide)
  rw [shown] at published
  have first : j.sequencer.isPublished 1 = .ok true :=
    (published 1 (early 1 (by decide) (by decide))).mpr ⟨[2], [3], rfl, by decide⟩
  have second : j.sequencer.isPublished 2 = .ok true :=
    (published 2 (early 2 (by decide) (by decide))).mpr ⟨[], [1, 3], rfl, by decide⟩
  refine ⟨j, reached, shown, first, second, fun third => ?_, ?_⟩
  · rw [hole] at third
    cases third
  · obtain ⟨r, found, -, unique⟩ := search 1 3 (by decide) (by decide) (by decide)
    have ends : RunEnd j.sequencer 1 3 2 := by
      refine ⟨by decide, by decide, fun t low high => ?_, Or.inr hole⟩
      obtain rfl | rfl : t = 1 ∨ t = 2 := by omega
      · exact first
      · exact second
    rw [found, unique 2 ends]

end Journal

end EventRing
