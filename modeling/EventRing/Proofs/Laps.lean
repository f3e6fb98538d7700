import Mathlib.Algebra.Group.Int.Defs
import Mathlib.Algebra.Group.Nat.Defs
import EventRing.Geometry
/-!
# EventRing.Proofs.Laps

Slot and lap are read off the bits of a 64-bit word.  As numbers they are the remainder and the
quotient of the sequence by the size, rounded down, so negative sequences need no case of their own.

Two facts carry everything that is said about slots elsewhere: sequences less than a ring apart have
different slots (`slot_ne_of_near`), and a lap that was cut to 32 bits still tells the sequences of a
slot apart as long as fewer than 2^32 laps lie between them (`eq_of_slot_of_lap`).
-/

namespace EventRing.Geometry

variable {g : Geometry} {s t : Int}

theorem size_eq (g : Geometry) : g.size = 2 ^ g.bits := rfl

theorem size_cast_pos (g : Geometry) : (0 : Int) < g.size := by
  have := g.size_pos
  omega

theorem size_dvd_word (g : Geometry) : (g.size : Int) ∣ (2 : Int) ^ 64 := by
  have : g.size ∣ 2 ^ 64 := Nat.pow_dvd_pow 2 (Nat.le_trans g.bits_le (by decide))
  exact_mod_cast this

/-! ## Slots -/

/-- The low bits of the word of a sequence are its remainder. -/
theorem slotIndex_eq (g : Geometry) (s : Int) : (g.slotIndex s : Int) = s % g.size := by
  have word : (Int64.ofInt s).toUInt64.toNat = (s % 2 ^ 64).toNat := by
    simp [Int64.ofInt, UInt64.toNat, BitVec.toNat_ofInt]
  -- the mask is all ones below the size, and the size divides the range of the word
  have low : g.slotIndex s = (s % 2 ^ 64).toNat &&& (2 ^ g.bits - 1) := by
    have h : g.slotIndex s =
        (Int64.ofInt s).toUInt64.toNat &&& g.mask.toUInt64.toNat := rfl
    rw [h, toNat_mask, word, size_eq]
  have positive : (0 : Int) ≤ s % 2 ^ 64 := Int.emod_nonneg _ (by decide)
  rw [low, Nat.and_two_pow_sub_one_eq_mod, ← size_eq, Int.natCast_emod, Int.toNat_of_nonneg positive]
  exact Int.emod_emod_of_dvd s g.size_dvd_word

theorem slot_eq_iff : g.slot s = g.slot t ↔ s % g.size = t % g.size := by
  rw [← slotIndex_eq, ← slotIndex_eq]
  simp only [slot, Fin.mk.injEq]
  omega

/-- Sequences share a slot exactly if whole laps lie between them. -/
theorem slot_eq_iff_dvd : g.slot s = g.slot t ↔ (g.size : Int) ∣ s - t := by
  rw [slot_eq_iff, Int.emod_eq_emod_iff_emod_sub_eq_zero, Int.dvd_iff_emod_eq_zero]

/-- The sequence one lap on has the same slot. -/
theorem slot_add_size (g : Geometry) (s : Int) : g.slot (s + g.size) = g.slot s := by
  rw [slot_eq_iff_dvd]
  exact ⟨1, by omega⟩

/-- Sequences less than a ring apart have different slots. -/
theorem slot_ne_of_near (before : s < t) (near : t < s + g.size) : g.slot s ≠ g.slot t := by
  intro same
  have apart := slot_eq_iff_dvd.mp same.symm
  have := Int.le_of_dvd (by omega) apart
  omega

/-- No slot is that of two sequences of a run that is not longer than the ring. -/
theorem slot_injective {lo : Int} {n : Nat} (most : n ≤ g.size) (inS : lo ≤ s ∧ s < lo + n)
    (inT : lo ≤ t ∧ t < lo + n) (same : g.slot s = g.slot t) : s = t := by
  rcases Int.lt_trichotomy s t with less | equal | more
  · exact absurd same (slot_ne_of_near less (by omega))
  · exact equal
  · exact absurd same.symm (slot_ne_of_near more (by omega))

/-! ## Laps -/

/-- A shift by the index bits is a shift by their number: it is below the width of the word. -/
theorem toNat_smod_bits (g : Geometry) :
    ((Int64.ofNat g.bits).toBitVec.smod 64).toNat = g.bits := by
  have few := g.bits_le
  have small : (Int64.ofNat g.bits).toBitVec.toInt = g.bits := by
    have : (Int64.ofNat g.bits).toBitVec = BitVec.ofNat 64 g.bits := rfl
    rw [this, BitVec.toInt_ofNat', Int.bmod_eq_of_le] <;> omega
  have result : ((Int64.ofNat g.bits).toBitVec.smod 64).toInt = g.bits := by
    rw [BitVec.toInt_smod, small]
    show (g.bits : Int).fmod 64 = g.bits
    rw [Int.fmod_eq_emod_of_nonneg _ (by decide)]
    omega
  have := BitVec.toInt_eq_toNat_cond ((Int64.ofNat g.bits).toBitVec.smod 64)
  omega

/-- Shifting the index bits out of a word leaves its quotient. -/
theorem toInt_shiftRight (g : Geometry) (word : Int64) :
    (word >>> Int64.ofNat g.bits).toInt = word.toInt / g.size := by
  rw [← Int64.toInt_toBitVec, Int64.toBitVec_shiftRight, BitVec.toInt_sshiftRight',
    toNat_smod_bits, Int64.toInt_toBitVec, Int.shiftRight_eq_div_pow, size_eq]

/-- The high bits of the word of a sequence are its quotient, cut to 32 bits. -/
theorem lap_eq (fits : Word.Fits s) : g.lap s = Int32.ofInt (s / g.size) := by
  have word : (Int64.ofInt s).toInt = s := by
    simp only [Word.Fits, Word.least, Word.greatest] at fits
    exact Int64.toInt_ofInt_of_le (by omega) (by omega)
  rw [lap, ← Int32.ofInt_int64ToInt, toInt_shiftRight, word]

/-- Sequences have the same cut lap exactly if a multiple of 2^32 laps lies between them. -/
theorem lap_eq_iff (fitsS : Word.Fits s) (fitsT : Word.Fits t) :
    g.lap s = g.lap t ↔ (2 : Int) ^ 32 ∣ s / g.size - t / g.size := by
  have cut : (2 : Int) ^ 32 ∣ s / g.size - t / g.size ↔
      (s / g.size).bmod (2 ^ 32) = (t / g.size).bmod (2 ^ 32) := by
    rw [Int.bmod_eq_bmod_iff_bmod_sub_eq_zero, ← Int.dvd_iff_bmod_eq_zero]
    rfl
  rw [cut, lap_eq fitsS, lap_eq fitsT, ← Int32.toInt_inj, Int32.toInt_ofInt, Int32.toInt_ofInt]
  rfl

/-- Slot and lap together determine a sequence, among those fewer than 2^32 laps apart. -/
theorem eq_of_few_laps (fitsS : Word.Fits s) (fitsT : Word.Fits t)
    (few : (s / g.size - t / g.size).natAbs < 2 ^ 32)
    (slots : g.slot s = g.slot t) (laps : g.lap s = g.lap t) : s = t := by
  have apart := (lap_eq_iff fitsS fitsT).mp laps
  have none : s / g.size - t / g.size = 0 := Int.eq_zero_of_dvd_of_natAbs_lt_natAbs apart few
  have quotient : s / g.size = t / g.size := by omega
  have remainder := slot_eq_iff.mp slots
  rw [← Int.mul_ediv_add_emod s g.size, ← Int.mul_ediv_add_emod t g.size, quotient, remainder]

/-- The same for sequences whose distance is less than that of 2^32 laps. -/
theorem eq_of_slot_of_lap (fitsS : Word.Fits s) (fitsT : Word.Fits t)
    (above : s < t + 2 ^ 32 * g.size) (below : t < s + 2 ^ 32 * g.size)
    (slots : g.slot s = g.slot t) (laps : g.lap s = g.lap t) : s = t := by
  have remainder := slot_eq_iff.mp slots
  have splitS := Int.mul_ediv_add_emod s g.size
  have splitT := Int.mul_ediv_add_emod t g.size
  have positive := g.size_cast_pos
  have distance : g.size * (s / g.size - t / g.size) = s - t := by
    rw [Int.mul_sub]
    omega
  have upper : s / g.size - t / g.size < 2 ^ 32 := by
    refine Int.lt_of_mul_lt_mul_left (a := g.size) ?_ (Int.le_of_lt positive)
    omega
  have lower : -2 ^ 32 < s / g.size - t / g.size := by
    refine Int.lt_of_mul_lt_mul_left (a := g.size) ?_ (Int.le_of_lt positive)
    omega
  exact eq_of_few_laps fitsS fitsT (by omega) slots laps

/-- The lap before the first one. -/
theorem lap_of_neg (low : -g.size ≤ s) (neg : s < 0) : g.lap s = -1 := by
  have positive := g.size_cast_pos
  have quotient : s / g.size = -1 := by
    have split := Int.mul_ediv_add_emod s g.size
    have := Int.emod_nonneg s (Int.ne_of_gt positive)
    have := Int.emod_lt_of_pos s positive
    have upper : s / g.size < 0 := Int.ediv_neg_of_neg_of_pos neg positive
    have lower : -1 ≤ s / g.size := Int.le_ediv_of_mul_le positive (by omega)
    omega
  have fits : Word.Fits s := by
    have := g.size_le
    simp only [Word.Fits, Word.least, Word.greatest]
    omega
  rw [lap_eq fits, quotient]
  rfl

end EventRing.Geometry
