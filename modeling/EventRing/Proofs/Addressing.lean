import Mathlib.Data.List.Nodup
import EventRing.Proofs.Availability
/-!
# EventRing.Proofs.Addressing

From the size that somebody asks for to the place of a sequence.  A size is accepted exactly if it is a power of
two up to 2^62 (`Config.accepted_iff`), and the mask and the shift are read off the number itself.  The mask leaves
the remainder of a word and the shift its quotient, rounded down, so lap and index are put together to the word
again, also if that is negative (`Geometry.Located`).

A mark keeps only 32 bits of a lap.  They tell a sequence from those of its slot that are fewer than 2^32 laps
away, and so a sequence is available through its own publication and through no other one
(`Sequencer.isPublished_of_publishAll`).
-/

namespace EventRing

/-! ## Accepted sizes -/

namespace Config

variable {c : Config} {g : Geometry}

/-- The valid sizes are the powers of two that fit the signed 64-bit range. -/
theorem valid_iff : c.Valid ↔ ∃ bits ≤ 62, c.size = 2 ^ bits := by
  constructor
  · intro valid
    obtain ⟨bits, power⟩ :=
      Nat.ne_zero_and_sub_one_eq_zero_iff_isPowerOfTwo.mp ⟨valid.1, valid.2.1⟩
    have few := log2_size_le valid
    rw [power, Nat.log2_two_pow] at few
    exact ⟨bits, few, power⟩
  · rintro ⟨bits, few, power⟩
    obtain ⟨positive, single⟩ :=
      Nat.ne_zero_and_sub_one_eq_zero_iff_isPowerOfTwo.mpr ⟨bits, power⟩
    have small : 2 ^ bits ≤ 2 ^ 62 := Nat.pow_le_pow_right (by decide) few
    refine ⟨positive, single, ?_⟩
    simp only [Word.greatest]
    omega

/-- A size is accepted as the geometry with as many slots. -/
theorem geometry_eq_ok_iff : c.geometry = .ok g ↔ g.size = c.size := by
  constructor
  · intro accepted
    unfold geometry at accepted
    split at accepted
    next valid =>
      cases accepted
      obtain ⟨bits, -, power⟩ := valid_iff.mp valid
      show 2 ^ c.size.log2 = c.size
      rw [power, Nat.log2_two_pow]
    next => cases accepted
  · intro same
    have valid : c.Valid := valid_iff.mpr ⟨g.bits, g.bits_le, same.symm⟩
    have bits : c.size.log2 = g.bits := by rw [← same, Geometry.size_eq, Nat.log2_two_pow]
    unfold geometry
    rw [dif_pos valid]
    simp only [bits]

theorem accepted_iff : (∃ g, c.geometry = .ok g) ↔ ∃ bits ≤ 62, c.size = 2 ^ bits := by
  constructor
  · rintro ⟨g, accepted⟩
    exact ⟨g.bits, g.bits_le, (geometry_eq_ok_iff.mp accepted).symm⟩
  · rintro ⟨bits, few, power⟩
    exact ⟨⟨bits, few⟩, geometry_eq_ok_iff.mpr power.symm⟩

theorem geometry_of_invalid (invalid : ¬ ∃ g, c.geometry = .ok g) :
    c.geometry = .error (.invalidBufferSize c.size) := by
  rw [accepted_iff, ← valid_iff] at invalid
  exact dif_neg invalid

/-- A number of index bits is accepted up to 62.  With 63 there is a size that is refused, and with more of them
there is none. -/
theorem accepted_ofBits_iff {bits : Nat} :
    (∃ c g, ofBits bits = .ok c ∧ c.geometry = .ok g) ↔ bits ≤ 62 := by
  constructor
  · rintro ⟨c, g, built, accepted⟩
    unfold ofBits at built
    split at built
    next =>
      cases built
      have power : 2 ^ g.bits = 2 ^ bits := by
        rw [← Nat.one_shiftLeft bits]
        exact geometry_eq_ok_iff.mp accepted
      rw [← (Nat.pow_right_inj (by decide : 1 < 2)).mp power]
      exact g.bits_le
    next => cases built
  · intro few
    refine ⟨⟨1 <<< bits⟩, ⟨bits, few⟩, if_pos (by omega), geometry_eq_ok_iff.mpr ?_⟩
    exact (Nat.one_shiftLeft bits).symm

/-- The sizes that nobody has to ask for are accepted. -/
theorem presets_accepted : ∀ c ∈ [standard, lowLatency, highThroughput], ∃ g, c.geometry = .ok g := by
  intro c listed
  rw [accepted_iff]
  simp only [List.mem_cons, List.not_mem_nil, or_false] at listed
  rcases listed with rfl | rfl | rfl
  · exact ⟨16, by decide, rfl⟩
  · exact ⟨12, by decide, rfl⟩
  · exact ⟨18, by decide, rfl⟩

/-! ## Mask and shift -/

/-- The mask of an accepted size is that of its geometry. -/
theorem mask_of_accepted (accepted : c.geometry = .ok g) :
    ∃ mask, c.mask = .ok mask ∧ Int64.ofNat mask = g.mask := by
  have same := geometry_eq_ok_iff.mp accepted
  have positive := g.size_pos
  refine ⟨c.size - 1, if_neg (by omega), ?_⟩
  rw [← same]
  rfl

/-- Below the one bit of a power of two all bits are zero. -/
theorem trailingZeros_two_pow {bits width : Nat} (below : bits < width) :
    trailingZeros width (2 ^ bits) = bits := by
  -- on the width, a bit of which is looked at in each round
  induction width generalizing bits with
  | zero => omega
  | succ width ih =>
      unfold trailingZeros
      cases bits with
      | zero => rfl
      | succ bits =>
          have even : ¬ 2 ^ (bits + 1) % 2 = 1 := by
            rw [Nat.pow_succ]
            omega
          have half : 2 ^ (bits + 1) / 2 = 2 ^ bits := by
            rw [Nat.pow_succ]
            omega
          rw [if_neg even, half, ih (by omega)]

/-- The shift of an accepted size is the number of index bits. -/
theorem indexShift_of_accepted (accepted : c.geometry = .ok g) : c.indexShift = g.bits := by
  have few := g.bits_le
  unfold indexShift
  rw [← geometry_eq_ok_iff.mp accepted, Geometry.size_eq, trailingZeros_two_pow (by omega)]

end Config

/-! ## Places -/

/-- The slots of a ring as they lie in memory, with as many places without an event before them as behind
them. -/
def Ring.store {g : Geometry} {ε : Type} (ring : Ring g ε) (padding : Nat) :
    Vector (Option ε) (g.size + 2 * padding) :=
  Vector.ofFn fun place =>
    if live : padding ≤ place ∧ place < padding + g.size then
      some ring.slots[place - padding]
    else none

theorem Ring.getElem?_slots {g : Geometry} {ε : Type} (ring : Ring g ε) (t : Int) :
    ring.slots[(g.slot t : Nat)]? = some (ring.event t) :=
  Vector.getElem?_eq_getElem (g.slot_lt t)

/-- The event of a sequence lies behind the padding, at its slot. -/
theorem Ring.getElem?_store {g : Geometry} {ε : Type} (ring : Ring g ε) (padding : Nat) (t : Int) :
    (ring.store padding)[padding + (g.slot t : Nat)]? = some (some (ring.event t)) := by
  have inside := g.slot_lt t
  have behind : padding + (g.slot t : Nat) - padding = g.slot t := Nat.add_sub_cancel_left ..
  have live : padding ≤ padding + (g.slot t : Nat) ∧ padding + (g.slot t : Nat) < padding + g.size :=
    ⟨Nat.le_add_right .., by omega⟩
  unfold store
  rw [Vector.getElem?_ofFn, dif_pos (by omega), dif_pos live]
  simp only [behind]
  rfl

/-- The mark of a sequence is read at its slot. -/
theorem Sequencer.isMarked_eq_getElem? {g : Geometry} (laps : Vector Int32 g.size) (t : Int) :
    isMarked laps t = (laps[(g.slot t : Nat)]? == some (g.lap t)) := by
  rw [Vector.getElem?_eq_getElem (g.slot_lt t)]
  rfl

theorem nodup_sequences (lo hi : Int) : (sequences lo hi).Nodup := by
  refine List.Nodup.map (fun m n same => ?_) List.nodup_range
  have : lo + (m : Int) = lo + n := same
  omega

namespace Geometry

variable {g : Geometry}

/-- A word is taken apart into an index and a lap, which are those of the sequence. -/
structure Located (g : Geometry) (word index lap : Int64) : Prop where
  nonneg : 0 ≤ index.toInt
  lt : index.toInt < g.size
  whole : word.toInt = lap.toInt * g.size + index.toInt
  slot : (g.slot word.toInt : Nat) = index.toUInt64.toNat
  cut : g.lap word.toInt = lap.toInt32
  /-- The index is inside the slots of a ring, where it leads to the event of the sequence. -/
  event : ∀ {ε : Type} (ring : Ring g ε), ring.slots[index.toUInt64.toNat]? = some (ring.event word.toInt)
  /-- So it is behind the padding, however much of that there is. -/
  place : ∀ {ε : Type} (ring : Ring g ε) (padding : Nat),
    (ring.store padding)[padding + index.toUInt64.toNat]? = some (some (ring.event word.toInt))
  /-- The index is inside the marks, and the sequence is marked if the lap is there, cut to 32 bits. -/
  mark : ∀ laps : Vector Int32 g.size,
    Sequencer.isMarked laps word.toInt = (laps[index.toUInt64.toNat]? == some lap.toInt32)

/-- The slot of the sequence of a word is what the mask leaves of it. -/
theorem slot_toInt (g : Geometry) (word : Int64) :
    (g.slot word.toInt : Nat) = (word &&& g.mask).toUInt64.toNat := by
  show g.slotIndex word.toInt = _
  unfold slotIndex
  rw [Int64.ofInt_toInt]

/-- Masking a word leaves its remainder. -/
theorem toInt_and_mask (g : Geometry) (word : Int64) : (word &&& g.mask).toInt = word.toInt % g.size := by
  have slot : g.slotIndex word.toInt = (word &&& g.mask).toBitVec.toNat := g.slot_toInt word
  have inside := g.slotIndex_lt word.toInt
  have small := g.size_le
  rw [← g.slotIndex_eq word.toInt, slot, ← Int64.toInt_toBitVec]
  exact BitVec.toInt_eq_toNat_of_lt (by omega)

/-- What the mask and the shift make of a word is where its sequence is found. -/
theorem located (g : Geometry) (word : Int64) :
    g.Located word (word &&& g.mask) (word >>> Int64.ofNat g.bits) := by
  have positive := g.size_cast_pos
  have index := g.toInt_and_mask word
  have lap := g.toInt_shiftRight word
  have slot := g.slot_toInt word
  have cut : g.lap word.toInt = (word >>> Int64.ofNat g.bits).toInt32 := by
    unfold Geometry.lap
    rw [Int64.ofInt_toInt]
  refine ⟨?_, ?_, ?_, slot, cut, fun ring => ?_, fun ring padding => ?_, fun laps => ?_⟩
  · rw [index]
    exact Int.emod_nonneg _ (Int.ne_of_gt positive)
  · rw [index]
    exact Int.emod_lt_of_pos _ positive
  · rw [index, lap, Int.mul_comm]
    exact (Int.mul_ediv_add_emod word.toInt g.size).symm
  · rw [← slot]
    exact ring.getElem?_slots word.toInt
  · rw [← slot]
    exact ring.getElem?_store padding word.toInt
  · rw [← slot, ← cut]
    exact Sequencer.isMarked_eq_getElem? laps word.toInt

/-- As many consecutive sequences as there are slots have one slot each. -/
theorem nodup_slots (g : Geometry) (lo : Int) :
    ((sequences lo (lo + g.size - 1)).map g.slot).Nodup := by
  refine List.Nodup.map_on (fun s inS t inT same => ?_) (nodup_sequences lo _)
  rw [mem_sequences] at inS inT
  exact slot_injective (Nat.le_refl _) ⟨inS.1, by omega⟩ ⟨inT.1, by omega⟩ same

end Geometry

/-! ## Publications in any order -/

namespace Sequencer

open EventRing.Action

variable {g : Geometry} {s : Sequencer g} {laps : Vector Int32 g.size} {t u : Int}

/-- What a producer publishes at a time. -/
inductive Publication where
  | single (t : Int)
  | run (lo hi : Int) (upright : lo ≤ hi)

/-- The sequences of a publication, in the order of their marks. -/
def Publication.members : Publication → List Int
  | single t => [t]
  | run lo hi _ => sequences lo hi

def Publication.perform : Publication → Action (Sequencer g) Unit
  | single t => publish t
  | run lo hi _ => publishRange lo hi

/-- Publishes one thing after the other. -/
def publishAll : List Publication → Action (Sequencer g) Unit
  | [] => pure ()
  | p :: rest => do
    p.perform
    publishAll rest

/-- What was published, the last sequence first. -/
def journal (ps : List Publication) : List Int := (ps.flatMap Publication.members).reverse

theorem journal_cons (p : Publication) (ps : List Publication) :
    journal (p :: ps) = journal ps ++ p.members.reverse := by
  unfold journal
  rw [List.flatMap_cons, List.reverse_append]

/-- A publication on a ring for many producers marks its sequences. -/
theorem Publication.perform_shared (p : Publication) (ledger : s.ledger = .shared laps) :
    ∃ s', p.perform s = .ok () s' ∧ s'.ledger = .shared (Journal.stamped laps p.members.reverse) := by
  cases p with
  | single t =>
      refine ⟨_, rfl, ?_⟩
      rw [ledger_signal, ledger]
      rfl
  | run lo hi upright =>
      obtain ⟨s', published⟩ := publishRange_of_le (s := s) upright
      obtain ⟨-, shown⟩ := publishRange_eq_ok published
      refine ⟨s', published, ?_⟩
      rw [(shown.shared laps ledger).1, Journal.markRun_eq_stamped]
      rfl

theorem publishAll_shared (ps : List Publication) (ledger : s.ledger = .shared laps) :
    ∃ s', publishAll ps s = .ok () s' ∧ s'.ledger = .shared (Journal.stamped laps (journal ps)) := by
  induction ps generalizing s laps with
  | nil => exact ⟨s, rfl, ledger⟩
  | cons p rest ih =>
      obtain ⟨next, performed, marks⟩ := p.perform_shared ledger
      obtain ⟨s', published, after⟩ := ih marks
      refine ⟨s', (bind_of_ok performed).trans published, ?_⟩
      rw [after, journal_cons, Journal.stamped_append]

/-- A sequence is available if it was the last one published in its slot, or if nothing was published there
and it was available before.  All that is asked of the others of the slot is that they are fewer than 2^32
laps away. -/
theorem isPublished_of_publishAll (ps : List Publication) (ledger : s.ledger = .shared laps)
    (fits : Word.Fits t) (near : ∀ u ∈ journal ps, g.slot u = g.slot t →
      Word.Fits u ∧ (u / g.size - t / g.size).natAbs < 2 ^ 32) :
    ∃ s', publishAll ps s = .ok () s' ∧ (s'.isPublished t = .ok true ↔
      Newest g (journal ps) t ∨ (∀ u ∈ journal ps, g.slot u ≠ g.slot t) ∧ s.isPublished t = .ok true) := by
  obtain ⟨s', published, marks⟩ := publishAll_shared ps ledger
  have told : ∀ u ∈ journal ps, g.slot u = g.slot t → g.lap u = g.lap t → u = t := by
    intro u listed slot lap
    obtain ⟨fitsU, few⟩ := near u listed slot
    exact Geometry.eq_of_few_laps fitsU fits few slot lap
  refine ⟨s', published, ?_⟩
  rw [isPublished_shared marks, isPublished_shared ledger, Except.ok.injEq, Except.ok.injEq,
    isMarked_stamped_of_told told]

end Sequencer

/-! ## Identity -/

/-- What a slot and a lap say of a sequence, where `index` and `lap` take its word apart. -/
structure Geometry.Identifies (g : Geometry) (index lap : Int64 → Int64) : Prop where
  located : ∀ word, g.Located word (index word) (lap word)
  /-- As many consecutive sequences as there are slots have one slot each. -/
  apart : ∀ lo, ((sequences lo (lo + g.size - 1)).map g.slot).Nodup
  /-- Cut to 32 bits, the laps still tell two sequences of a slot apart that are fewer than 2^32 laps away from
  each other, and the mark of the one hides the other. -/
  told : ∀ word other, index word = index other → word ≠ other →
    ((lap word).toInt - (lap other).toInt).natAbs < 2 ^ 32 →
      (lap word).toInt32 ≠ (lap other).toInt32 ∧
        ∀ s : Sequencer g, s.producers = .many → ∃ s', Sequencer.publish other.toInt s = .ok () s' ∧
          s'.isPublished word.toInt = .ok false
  /-- Whatever is published of others, a sequence is available through its own publication only. -/
  available : ∀ (s : Sequencer g) (ps : List Sequencer.Publication) (word : Int64), s.producers = .many →
    (∀ u ∈ Sequencer.journal ps, g.slot u = g.slot word.toInt →
      Word.Fits u ∧ (u / g.size - word.toInt / g.size).natAbs < 2 ^ 32) →
      ∃ s', Sequencer.publishAll ps s = .ok () s' ∧ (s'.isPublished word.toInt = .ok true ↔
        Sequencer.Newest g (Sequencer.journal ps) word.toInt ∨
          (∀ u ∈ Sequencer.journal ps, g.slot u ≠ g.slot word.toInt) ∧ s.isPublished word.toInt = .ok true)

theorem Word.fits_toInt (word : Int64) : Word.Fits word.toInt := by
  have low := word.le_toInt
  have high := word.toInt_lt
  simp only [Word.Fits, Word.least, Word.greatest]
  omega

namespace Geometry

variable {g : Geometry} {word other : Int64}

/-- Two words with one index have different cut laps if they are fewer than 2^32 laps apart. -/
theorem cut_ne_of_index_eq (index : word &&& g.mask = other &&& g.mask) (different : word ≠ other)
    (few : ((word >>> Int64.ofNat g.bits).toInt - (other >>> Int64.ofNat g.bits).toInt).natAbs < 2 ^ 32) :
    g.slot word.toInt = g.slot other.toInt ∧ g.lap word.toInt ≠ g.lap other.toInt := by
  have slots : g.slot word.toInt = g.slot other.toInt := by
    apply Fin.ext
    rw [(g.located word).slot, (g.located other).slot, index]
  rw [toInt_shiftRight, toInt_shiftRight] at few
  refine ⟨slots, fun laps => different ?_⟩
  exact Int64.toInt_inj.mp (eq_of_few_laps (Word.fits_toInt word) (Word.fits_toInt other) few slots laps)

theorem identifies (g : Geometry) :
    g.Identifies (fun word => word &&& g.mask) fun word => word >>> Int64.ofNat g.bits := by
  refine ⟨g.located, g.nodup_slots, fun word other index different few => ?_, fun s ps word many near => ?_⟩
  · obtain ⟨slots, laps⟩ := cut_ne_of_index_eq index different few
    rw [← (g.located word).cut, ← (g.located other).cut]
    refine ⟨laps, fun s many => ?_⟩
    obtain ⟨marks, ledger⟩ := Sequencer.producers_eq_many_iff.mp many
    obtain ⟨s', published, after⟩ := (Sequencer.Publication.single other.toInt).perform_shared ledger
    refine ⟨s', published, ?_⟩
    have hidden : Sequencer.isMarked (Sequencer.mark marks other.toInt) word.toInt = false := by
      rw [Sequencer.isMarked_mark, if_pos slots.symm]
      exact beq_eq_false_iff_ne.mpr laps.symm
    exact (Sequencer.isPublished_shared after _).trans (congrArg _ hidden)
  · obtain ⟨marks, ledger⟩ := Sequencer.producers_eq_many_iff.mp many
    exact Sequencer.isPublished_of_publishAll ps ledger (Word.fits_toInt word) near

end Geometry

/-- Exactly the powers of two from 1 to 2^62 are accepted as sizes.  The mask and the shift of an accepted size
take every word apart into an index, which is that of a slot of the ring and of a mark, and a lap; they are put
together to the word again.  Consecutive sequences have different slots up to as many as there are, and as long
as they are fewer than 2^32 laps apart, the marks of a slot tell its sequences from each other. -/
theorem slot_and_lap_identify_sequences (c : Config) :
    ((∃ g, c.geometry = .ok g) ↔ ∃ bits ≤ 62, c.size = 2 ^ bits) ∧
      ((¬ ∃ g, c.geometry = .ok g) → c.geometry = .error (.invalidBufferSize c.size)) ∧
      ∀ g, c.geometry = .ok g → g.size = c.size ∧ ∃ mask, c.mask = .ok mask ∧
        g.Identifies (fun word => word &&& Int64.ofNat mask) fun word => word >>> Int64.ofNat c.indexShift := by
  refine ⟨Config.accepted_iff, Config.geometry_of_invalid, fun g accepted => ?_⟩
  obtain ⟨mask, masked, bits⟩ := Config.mask_of_accepted accepted
  refine ⟨Config.geometry_eq_ok_iff.mp accepted, mask, masked, ?_⟩
  rw [bits, Config.indexShift_of_accepted accepted]
  exact g.identifies

/-- On a ring of four slots -5 is in the last one, on the lap -2, and the sequences from it on are in the others.
The mark of 3, which shares the slot, hides -5, until it is published with the sequences that follow it. -/
theorem slot_and_lap_identify_sequences_size_four :
    ∃ (g : Geometry) (s : Sequencer g), (Config.mk 4).geometry = .ok g ∧ s.producers = .many ∧
      g.Located (-5) 3 (-2) ∧ ((sequences (-5) (-2)).map fun t => (g.slot t : Nat)) = [3, 0, 1, 2] ∧
      (∃ s', Sequencer.publish 3 s = .ok () s' ∧ s'.isPublished (-5) = .ok false) ∧
      ∃ s', Sequencer.publishAll [.single 3, .run (-5) (-2) (by decide)] s = .ok () s' ∧
        s'.isPublished (-5) = .ok true := by
  have accepted : (Config.mk 4).geometry = .ok ⟨2, by decide⟩ := Config.geometry_eq_ok_iff.mpr rfl
  obtain ⟨-, mask, masked, identifies⟩ := (slot_and_lap_identify_sequences ⟨4⟩).2.2 _ accepted
  obtain rfl : mask = 3 := by
    cases masked
    rfl
  have hidden := (identifies.told (-5) 3 (by decide) (by decide) (by decide)).2
    (Sequencer.fresh _ .many false) rfl
  obtain ⟨s', published, available⟩ := identifies.available (Sequencer.fresh _ .many false)
    [.single 3, .run (-5) (-2) (by decide)] (-5) rfl (by decide)
  refine ⟨_, _, accepted, rfl, identifies.located (-5), by decide, hidden, s', published, ?_⟩
  exact available.mpr (Or.inl ⟨[-2, -3, -4], [3], by decide, by decide⟩)

end EventRing
