import EventRing.Word
import EventRing.Failure
/-!
# EventRing.Geometry

Sizes of rings.  A `Config` is the size somebody asks for; `Config.geometry` accepts it exactly when
it is a power of two that a ring can have.  A `Geometry` is an accepted size: it maps a sequence to
its slot and to its lap, and the pair of them tells sequences apart.

Slot and lap are taken from the bits of the 64-bit word: the low bits are the slot, the rest is the
lap.  For negative sequences this still counts slots upwards, so the sequence before 0 sits in the
last slot of lap -1.
-/

namespace EventRing

/-! ## Accepted sizes -/

/-- The size of a ring, as the number of its index bits. -/
structure Geometry where
  bits : Nat
  bits_le : bits ≤ 62
  deriving DecidableEq

namespace Geometry

variable (g : Geometry)

/-- The number of slots. -/
def size : Nat := Nat.pow 2 g.bits

theorem size_pos : 0 < g.size := Nat.two_pow_pos g.bits

theorem size_le : g.size ≤ 4611686018427387904 :=
  Nat.pow_le_pow_right (by decide : 0 < 2) g.bits_le

/-- There are addresses for a store with `width` bytes for each slot. -/
def isAddressable (width : Nat) : Bool := g.size * width ≤ 9223372036854775807

/-- The bits of a sequence that choose its slot. -/
def mask : Int64 := Int64.ofNat (g.size - 1)

theorem toNat_mask : g.mask.toUInt64.toNat = g.size - 1 := by
  have h := g.size_le
  have : g.mask.toUInt64.toNat = (g.size - 1) % 2 ^ 64 := rfl
  omega

/-- The slot of a sequence: its low bits. -/
def slotIndex (sequence : Int) : Nat := (Int64.ofInt sequence &&& g.mask).toUInt64.toNat

theorem slotIndex_lt (sequence : Int) : g.slotIndex sequence < g.size := by
  have h : g.slotIndex sequence =
      (Int64.ofInt sequence).toUInt64.toNat &&& g.mask.toUInt64.toNat := rfl
  have := g.size_pos
  have := @Nat.and_le_right (Int64.ofInt sequence).toUInt64.toNat g.mask.toUInt64.toNat
  rw [toNat_mask] at this
  rw [h, toNat_mask]
  omega

/-- The slot of a sequence, as an index into the ring. -/
def slot (sequence : Int) : Fin g.size := ⟨g.slotIndex sequence, g.slotIndex_lt sequence⟩

theorem slot_lt (sequence : Int) : (g.slot sequence : Nat) < g.size := (g.slot sequence).isLt

/-- The lap of a sequence, cut to 32 bits: the bits above those that choose the slot. -/
def lap (sequence : Int) : Int32 := (Int64.ofInt sequence >>> Int64.ofNat g.bits).toInt32

end Geometry

/-! ## Requested sizes -/

/-- The size somebody asks for; any unsigned 64-bit number. -/
structure Config where
  size : Nat
  deriving DecidableEq, Repr

namespace Config

/-- The size when nobody asks for one. -/
def standard : Config := ⟨65536⟩

/-- A small ring, which stays in the fast memory. -/
def lowLatency : Config := ⟨4096⟩

/-- A large ring, which rides out bursts. -/
def highThroughput : Config := ⟨262144⟩

/-- The size with `bits` index bits; a word has room for fewer than 64 of them. -/
def ofBits (bits : Nat) : Except Fault Config :=
  if bits < 64 then .ok ⟨1 <<< bits⟩ else .error .overflow

/-- The bits that choose a slot, one less than the size; no number for the size 0. -/
def mask (c : Config) : Except Fault Nat :=
  if c.size = 0 then .error .overflow else .ok (c.size - 1)

/-- The number of zero bits below the lowest one bit of a `width`-bit word. -/
def trailingZeros : Nat → Nat → Nat
  | 0, _ => 0
  | width + 1, n => if n % 2 = 1 then 0 else trailingZeros width (n / 2) + 1

/-- How far a sequence is shifted to get its lap. -/
def indexShift (c : Config) : Nat := trailingZeros 64 c.size

/-- A size a ring can have: a power of two whose sequences fit the 64-bit range. -/
def Valid (c : Config) : Prop :=
  c.size ≠ 0 ∧ c.size &&& (c.size - 1) = 0 ∧ (c.size : Int) ≤ Word.greatest

instance (c : Config) : Decidable c.Valid := inferInstanceAs (Decidable (_ ∧ _ ∧ _))

theorem log2_size_le {c : Config} (h : c.Valid) : c.size.log2 ≤ 62 := by
  have small : c.size < 2 ^ 63 := by
    have := h.2.2
    simp only [Word.greatest] at this
    omega
  have := (Nat.log2_lt h.1).2 small
  omega

/-- The geometry of a valid size; an error for any other. -/
def geometry (c : Config) : Except RingError Geometry :=
  if h : c.Valid then .ok ⟨c.size.log2, log2_size_le h⟩ else .error (.invalidBufferSize c.size)

end Config

end EventRing
