import EventRing.Ring
import EventRing.Proofs.Action
import EventRing.Proofs.Counters
/-!
# EventRing.Proofs.Claiming

What a claim finds and what it leaves behind, said once for all the ways of claiming.  A claim that
is made took the next sequences (`Taken`), and the gates admitted it (`Admitted`): either the cached
gate settled it, or the gates were read and the cache renewed.  Nothing is said here about what the
cached gate is worth; that depends on how the gates were added and moved.

A claim that has to wait has taken its sequences only if there are many producers.
-/

namespace EventRing.Sequencer

open EventRing.Action

variable {g : Geometry} {s s' : Sequencer g} {before hi wrap delta c : Int} {n : Nat}

/-! ## The parts of a claim -/

theorem claimSize_eq_ok_iff : claimSize g n = .ok delta ↔ 1 ≤ n ∧ n ≤ g.size ∧ delta = n := by
  unfold claimSize
  by_cases valid : 1 ≤ n ∧ n ≤ g.size
  · rw [if_pos valid]
    exact ⟨fun h => ⟨valid.1, valid.2, (Except.ok.inj h).symm⟩, fun h => congrArg _ h.2.2.symm⟩
  · rw [if_neg valid]
    refine ⟨fun h => ?_, fun h => absurd ⟨h.1, h.2.1⟩ valid⟩
    cases h

theorem claimSize_of_valid (one : 1 ≤ n) (most : n ≤ g.size) : claimSize g n = .ok (n : Int) :=
  claimSize_eq_ok_iff.mpr ⟨one, most, rfl⟩

theorem claimSize_of_invalid (invalid : ¬ (1 ≤ n ∧ n ≤ g.size)) :
    claimSize g n = .error (.invalidClaimSize n g.size) := if_neg invalid

/-- The cached gate settles a claim that it lies ahead of, if it is not ahead of the producer. -/
theorem mustLook_eq_false_iff :
    s.mustLook wrap before = false ↔ wrap ≤ s.cachedGate ∧ s.cachedGate ≤ before := by
  simp only [mustLook, Bool.or_eq_false_iff, decide_eq_false_iff_not, Int.not_lt]

theorem claimed_solo (h : s.ledger = .solo c) : s.claimed = c := by
  unfold claimed
  rw [h]

theorem claimed_shared {laps : Vector Int32 g.size} (h : s.ledger = .shared laps) :
    s.claimed = s.cursor := by
  unfold claimed
  rw [h]

theorem producers_solo (h : s.ledger = .solo c) : s.producers = .one := by
  unfold producers
  rw [h]

theorem producers_shared {laps : Vector Int32 g.size} (h : s.ledger = .shared laps) :
    s.producers = .many := by
  unfold producers
  rw [h]

theorem producers_eq_one_iff : s.producers = .one ↔ ∃ c, s.ledger = .solo c := by
  unfold producers
  cases s.ledger <;> simp

theorem producers_eq_many_iff : s.producers = .many ↔ ∃ laps, s.ledger = .shared laps := by
  unfold producers
  cases s.ledger <;> simp

/-- A sequencer whose ledger stays of its kind has the same producers. -/
theorem producers_eq_of_ledger (solo : ∀ c, s.ledger = .solo c → ∃ d, s'.ledger = .solo d)
    (shared : ∀ laps, s.ledger = .shared laps → ∃ marks, s'.ledger = .shared marks) :
    s'.producers = s.producers := by
  cases ledger : s.ledger with
  | solo c =>
      obtain ⟨d, after⟩ := solo c ledger
      rw [producers_solo ledger, producers_solo after]
  | shared laps =>
      obtain ⟨marks, after⟩ := shared laps ledger
      rw [producers_shared ledger, producers_shared after]

/-! ## What is left behind -/

/-- The gates admit a claim up to `hi` by a producer at `before`. -/
structure Admitted (s : Sequencer g) (before hi : Int) (s' : Sequencer g) : Prop where
  gates : s'.gates = s.gates
  counters : s'.counters = s.counters
  cache : (hi - g.size ≤ s.cachedGate ∧ s.cachedGate ≤ before ∧ s'.cachedGate = s.cachedGate) ∨
    (hi - g.size ≤ s.slowestGate before ∧ s'.cachedGate = s.slowestGate before)

/-- The claim position is at `hi`.  With one producer the cursor may have followed the position that
the claim began at. -/
structure Moved (s : Sequencer g) (hi : Int) (s' : Sequencer g) : Prop where
  solo : ∀ c, s.ledger = .solo c → s'.ledger = .solo hi ∧ (s'.cursor = s.cursor ∨ s'.cursor = c)
  shared : ∀ laps, s.ledger = .shared laps → s'.ledger = .shared laps ∧ s'.cursor = hi

/-- The next `n` sequences are claimed, up to `hi`. -/
structure Taken (s : Sequencer g) (n : Nat) (hi : Int) (s' : Sequencer g) : Prop where
  one_le : 1 ≤ n
  le_size : n ≤ g.size
  hi_eq : hi = s.claimed + n
  fits : Word.Fits hi
  admitted : Admitted s s.claimed hi s'
  moved : Moved s hi s'

theorem Moved.producers (moved : Moved s hi s') : s'.producers = s.producers :=
  producers_eq_of_ledger (fun c ledger => ⟨hi, (moved.solo c ledger).1⟩)
    (fun laps ledger => ⟨laps, (moved.shared laps ledger).1⟩)

/-- The claim position is where the claim ends. -/
theorem Moved.claimed_eq (moved : Moved s hi s') : s'.claimed = hi := by
  cases ledger : s.ledger with
  | solo c => exact claimed_solo (moved.solo c ledger).1
  | shared laps =>
      rw [claimed_shared (moved.shared laps ledger).1]
      exact (moved.shared laps ledger).2

/-- A claim of the next `n` sequences has to wait. -/
structure Parked (s : Sequencer g) (n : Nat) (claim : Pending) (s' : Sequencer g) : Prop where
  one_le : 1 ≤ n
  le_size : n ≤ g.size
  fits : Word.Fits (s.claimed + n)
  claim_eq : claim = ⟨s.claimed, s.claimed + n, s.claimed + n - g.size⟩
  gates : s'.gates = s.gates
  counters : s'.counters = s.counters
  cachedGate : s'.cachedGate = s.cachedGate
  solo : ∀ c, s.ledger = .solo c → s'.ledger = .solo c ∧ s'.cursor = c
  shared : ∀ laps, s.ledger = .shared laps →
    s'.ledger = .shared laps ∧ s'.cursor = s.claimed + n

theorem Parked.producers {claim : Pending} (parked : Parked s n claim s') :
    s'.producers = s.producers :=
  producers_eq_of_ledger (fun c ledger => ⟨c, (parked.solo c ledger).1⟩)
    (fun laps ledger => ⟨laps, (parked.shared laps ledger).1⟩)

/-- A cache that admits a producer is not ahead of it afterwards. -/
theorem Admitted.cache_le (admitted : Admitted s before hi s') : s'.cachedGate ≤ before := by
  rcases admitted.cache with ⟨-, low, same⟩ | ⟨-, read⟩
  · rw [same]
    exact low
  · rw [read]
    exact Counters.least_le_default

/-! ## Settling -/

theorem settle_apply (claim : Pending) (s : Sequencer g) :
    settle claim s =
      if s.slowestGate claim.before < claim.wrap then
        .ok (.waiting claim (s.slowestGate claim.before)) s
      else
        .ok (.granted claim.hi) { s with
          cachedGate := s.slowestGate claim.before
          ledger := match s.ledger with
            | .solo _ => .solo claim.hi
            | .shared laps => .shared laps } := by
  unfold settle
  simp only [bind_apply, get_apply]
  split <;> rfl

/-- What a claim that waited leaves behind when it is made. -/
structure Settled (s : Sequencer g) (claim : Pending) (s' : Sequencer g) : Prop where
  gates : s'.gates = s.gates
  counters : s'.counters = s.counters
  cursor : s'.cursor = s.cursor
  released : claim.wrap ≤ s.slowestGate claim.before
  cachedGate : s'.cachedGate = s.slowestGate claim.before
  solo : ∀ c, s.ledger = .solo c → s'.ledger = .solo claim.hi
  shared : ∀ laps, s.ledger = .shared laps → s'.ledger = .shared laps

theorem Settled.producers {claim : Pending} (settled : Settled s claim s') :
    s'.producers = s.producers :=
  producers_eq_of_ledger (fun c ledger => ⟨claim.hi, settled.solo c ledger⟩)
    (fun laps ledger => ⟨laps, settled.shared laps ledger⟩)

theorem settle_granted {claim : Pending} (h : settle claim s = .ok (.granted hi) s') :
    hi = claim.hi ∧ Settled s claim s' := by
  rw [settle_apply] at h
  split at h
  · cases h
  · rename_i released
    cases h
    refine ⟨rfl, rfl, rfl, rfl, Int.not_lt.mp released, rfl, ?_, ?_⟩
    · intro c ledger
      simp only [ledger]
    · intro laps ledger
      simp only [ledger]

theorem settle_waiting {claim again : Pending} {slowest : Int}
    (h : settle claim s = .ok (.waiting again slowest) s') : again = claim ∧ s' = s := by
  rw [settle_apply] at h
  split at h
  · cases h
    exact ⟨rfl, rfl⟩
  · cases h

/-! ## Claims that may wait -/

/-- The sequencer while a claim up to `hi` is on its way. -/
def underway (s : Sequencer g) (hi : Int) : Sequencer g :=
  match s.ledger with
  | .solo c => { s with cursor := c }
  | .shared _ => { s with cursor := hi }

/-- The sequencer with another claim position. -/
def movedTo (s : Sequencer g) (hi : Int) : Sequencer g :=
  match s.ledger with
  | .solo _ => { s with ledger := .solo hi }
  | .shared _ => { s with cursor := hi }

theorem moved_movedTo (s : Sequencer g) (hi : Int) : Moved s hi (s.movedTo hi) := by
  constructor
  · intro c ledger
    simp [movedTo, ledger]
  · intro laps ledger
    simp [movedTo, ledger]

@[simp]
theorem gates_movedTo : (s.movedTo hi).gates = s.gates := by
  unfold movedTo
  split <;> rfl

@[simp]
theorem counters_movedTo : (s.movedTo hi).counters = s.counters := by
  unfold movedTo
  split <;> rfl

@[simp]
theorem cachedGate_movedTo : (s.movedTo hi).cachedGate = s.cachedGate := by
  unfold movedTo
  split <;> rfl

@[simp]
theorem parks_movedTo : (s.movedTo hi).parks = s.parks := by
  unfold movedTo
  split <;> rfl

@[simp]
theorem signals_movedTo : (s.movedTo hi).signals = s.signals := by
  unfold movedTo
  split <;> rfl

@[simp]
theorem gates_underway : (s.underway hi).gates = s.gates := by
  unfold underway
  split <;> rfl

@[simp]
theorem counters_underway : (s.underway hi).counters = s.counters := by
  unfold underway
  split <;> rfl

@[simp]
theorem cachedGate_underway : (s.underway hi).cachedGate = s.cachedGate := by
  unfold underway
  split <;> rfl

@[simp]
theorem parks_underway : (s.underway hi).parks = s.parks := by
  unfold underway
  split <;> rfl

@[simp]
theorem signals_underway : (s.underway hi).signals = s.signals := by
  unfold underway
  split <;> rfl

@[simp]
theorem ledger_underway : (s.underway hi).ledger = s.ledger := by
  unfold underway
  split <;> rfl

/-- A claim that is underway has moved the cursor, but no gate. -/
theorem slowestGate_underway : (s.underway hi).slowestGate before = s.slowestGate before := by
  simp only [slowestGate, gates_underway, counters_underway]

/-- A claim is settled by the cached gate, or it looks at the gates. -/
theorem claimBy_of_fits (fits : Word.Fits (s.claimed + delta))
    (low : Word.Fits (s.claimed + delta - g.size)) :
    claimBy delta s = if s.mustLook (s.claimed + delta - g.size) s.claimed then
        settle ⟨s.claimed, s.claimed + delta, s.claimed + delta - g.size⟩
          (s.underway (s.claimed + delta))
      else .ok (.granted (s.claimed + delta)) (s.movedTo (s.claimed + delta)) := by
  unfold claimBy wrapPoint
  rw [get_bind_apply]
  cases ledger : s.ledger with
  | solo c =>
      have under : s.underway (c + delta) = { s with cursor := c } := by rw [underway, ledger]
      have moved : s.movedTo (c + delta) = { s with ledger := .solo (c + delta) } := by
        rw [movedTo, ledger]
      rw [claimed_solo ledger] at fits low ⊢
      rw [under, moved]
      refine (checked_bind_of_fits fits).trans ((checked_bind_of_fits low).trans ?_)
      cases s.mustLook (c + delta - g.size) c <;> rfl
  | shared laps =>
      have under : s.underway (s.cursor + delta) = { s with cursor := s.cursor + delta } := by
        rw [underway, ledger]
      have moved : s.movedTo (s.cursor + delta) = { s with cursor := s.cursor + delta } := by
        rw [movedTo, ledger]
      rw [claimed_shared ledger] at fits low ⊢
      rw [under, moved]
      refine (bind_of_ok (onPart_of_ok (Counter.add_of_fits fits))).trans ?_
      refine (checked_bind_of_fits low).trans ?_
      cases s.mustLook (s.cursor + delta - g.size) s.cursor <;> rfl

/-- A claim that is answered was settled by the cached gate, or it looked at the gates. -/
theorem claimBy_eq_ok {grant : Grant} (h : claimBy delta s = .ok grant s') :
    Word.Fits (s.claimed + delta) ∧
      ((s.mustLook (s.claimed + delta - g.size) s.claimed = false ∧
          grant = .granted (s.claimed + delta) ∧ s' = s.movedTo (s.claimed + delta)) ∨
        settle ⟨s.claimed, s.claimed + delta, s.claimed + delta - g.size⟩
          (s.underway (s.claimed + delta)) = .ok grant s') := by
  obtain ⟨cursor, ledger, cachedGate, gates, counters, parks, signals⟩ := s
  unfold claimBy at h
  rw [get_bind_apply] at h
  cases ledger with
  | solo c =>
      obtain ⟨fits, h⟩ := checked_bind_eq_ok h
      obtain ⟨-, h⟩ := checked_bind_eq_ok h
      refine ⟨fits, ?_⟩
      split at h
      · exact Or.inr h
      · rename_i look
        cases h
        exact Or.inl ⟨Bool.eq_false_iff.mpr look, rfl, rfl⟩
  | shared laps =>
      -- the sequences are taken before anything is looked at
      obtain ⟨_, _, added, rest⟩ := bind_eq_ok h
      obtain ⟨_, sum, rfl⟩ := onPart_eq_ok added
      obtain ⟨fits, rfl, rfl⟩ := Counter.add_eq_ok sum
      obtain ⟨-, last⟩ := checked_bind_eq_ok rest
      refine ⟨fits, ?_⟩
      split at last
      · exact Or.inr last
      · rename_i look
        cases last
        exact Or.inl ⟨Bool.eq_false_iff.mpr look, rfl, rfl⟩

/-- A size that a ring does not have is refused, and nothing else happens. -/
theorem claim_of_invalid (invalid : ¬ (1 ≤ n ∧ n ≤ g.size)) :
    claim n s = .ok (.error (.invalidClaimSize n g.size)) s := by
  unfold claim
  rw [claimSize_of_invalid invalid]
  rfl

/-- Only a size that a ring does not have is refused. -/
theorem claim_refused {error : RingError} (h : claim n s = .ok (.error error) s') :
    ¬ (1 ≤ n ∧ n ≤ g.size) ∧ s' = s := by
  by_cases valid : 1 ≤ n ∧ n ≤ g.size
  · unfold claim at h
    rw [claimSize_of_valid valid.1 valid.2] at h
    obtain ⟨_, _, other⟩ := map_eq_ok h
    cases other
  · rw [claim_of_invalid valid] at h
    cases h
    exact ⟨valid, rfl⟩

/-- A claim of `n` sequences that is answered is one of the next `n`. -/
theorem claim_eq_ok {grant : Grant} (h : claim n s = .ok (.ok grant) s') :
    1 ≤ n ∧ n ≤ g.size ∧ claimBy n s = .ok grant s' := by
  unfold claim at h
  cases size : claimSize g n with
  | error e =>
      rw [size] at h
      cases h
  | ok delta =>
      obtain ⟨one, most, rfl⟩ := claimSize_eq_ok_iff.mp size
      rw [size] at h
      obtain ⟨_, made, same⟩ := map_eq_ok h
      cases same
      exact ⟨one, most, made⟩

/-- A claim that is made took the next sequences, and the gates admitted it. -/
theorem claim_granted (h : claim n s = .ok (.ok (.granted hi)) s') : Taken s n hi s' := by
  obtain ⟨one, most, made⟩ := claim_eq_ok h
  obtain ⟨fits, ⟨ahead, same, rfl⟩ | looked⟩ := claimBy_eq_ok made
  · obtain rfl : hi = s.claimed + n := Grant.granted.inj same
    obtain ⟨low, high⟩ := mustLook_eq_false_iff.mp ahead
    refine ⟨one, most, rfl, fits, ⟨gates_movedTo, counters_movedTo, ?_⟩, moved_movedTo s _⟩
    exact Or.inl ⟨low, high, cachedGate_movedTo⟩
  · obtain ⟨rfl, settled⟩ := settle_granted looked
    refine ⟨one, most, rfl, fits, ⟨?_, ?_, Or.inr ⟨?_, ?_⟩⟩, ?_, ?_⟩
    · rw [settled.gates, gates_underway]
    · rw [settled.counters, counters_underway]
    · rw [← slowestGate_underway]
      exact settled.released
    · rw [settled.cachedGate, slowestGate_underway]
    · intro c ledger
      refine ⟨settled.solo c (by rw [ledger_underway, ledger]), Or.inr ?_⟩
      rw [settled.cursor, underway, ledger]
    · intro laps ledger
      refine ⟨settled.shared laps (by rw [ledger_underway, ledger]), ?_⟩
      rw [settled.cursor, underway, ledger]

/-- A claim that has to wait took its sequences only if there are many producers. -/
theorem claim_waiting {claim : Pending} {slowest : Int}
    (h : Sequencer.claim n s = .ok (.ok (.waiting claim slowest)) s') : Parked s n claim s' := by
  obtain ⟨one, most, made⟩ := claim_eq_ok h
  obtain ⟨fits, ⟨-, same, -⟩ | looked⟩ := claimBy_eq_ok made
  · cases same
  · obtain ⟨rfl, rfl⟩ := settle_waiting looked
    refine ⟨one, most, fits, rfl, gates_underway, counters_underway, cachedGate_underway, ?_, ?_⟩
    · intro c ledger
      exact ⟨by rw [ledger_underway, ledger], by rw [underway, ledger]⟩
    · intro laps ledger
      exact ⟨by rw [ledger_underway, ledger], by rw [underway, ledger]⟩

/-! ## Claims that never wait -/

/-- The sequencer after its gates were read from the claim position, for the sake of a claim if it
is announced. -/
def read (s : Sequencer g) (announce : Bool) : Sequencer g :=
  { s with
    cursor := if announce then s.claimed else s.cursor
    cachedGate := s.slowestGate s.claimed }

/-- Reading the gates does not move the claim position. -/
theorem claimed_read {announce : Bool} : (s.read announce).claimed = s.claimed := by
  cases ledger : s.ledger with
  | solo c => rw [claimed_solo (s := s.read announce) ledger, claimed_solo ledger]
  | shared laps =>
      rw [claimed_shared (s := s.read announce) ledger]
      cases announce with
      | true => rfl
      | false => exact (claimed_shared ledger).symm

/-- There is room for a claim if the cached gate says so, or else if the gates do. -/
theorem hasRoom_eq_ok {announce room : Bool} (h : hasRoom delta announce s = .ok room s') :
    Word.Fits (s.claimed + delta) ∧
      ((s.mustLook (s.claimed + delta - g.size) s.claimed = false ∧ room = true ∧ s' = s) ∨
        (room = decide (s.claimed + delta - g.size ≤ s.slowestGate s.claimed) ∧
          s' = s.read announce)) := by
  unfold hasRoom at h
  rw [get_bind_apply] at h
  obtain ⟨fits, h⟩ := checked_bind_eq_ok h
  obtain ⟨-, h⟩ := checked_bind_eq_ok h
  refine ⟨fits, ?_⟩
  split at h
  · cases h
    exact Or.inr ⟨rfl, rfl⟩
  · rename_i look
    cases h
    exact Or.inl ⟨Bool.eq_false_iff.mpr look, rfl, rfl⟩

/-- Asking for room claims nothing. -/
theorem hasCapacity_eq_ok {room : Bool} (h : hasCapacity n s = .ok room s') :
    s' = s ∨ s' = s.read false := by
  unfold hasCapacity at h
  cases size : claimSize g n with
  | error e =>
    rw [size] at h
    cases h
    exact Or.inl rfl
  | ok delta =>
    rw [size] at h
    obtain ⟨-, ⟨-, -, same⟩ | ⟨-, same⟩⟩ := hasRoom_eq_ok h
    · exact Or.inl same
    · exact Or.inr same

/-- A claim that is made at once or not at all asks for room first. -/
theorem tryClaim_eq_ok {result : Option Int} (h : tryClaim n s = .ok result s') :
    (result = none ∧ s' = s) ∨
      ∃ room t, 1 ≤ n ∧ n ≤ g.size ∧ hasRoom n true s = .ok room t ∧
        ((room = false ∧ result = none ∧ s' = t) ∨
          (room = true ∧ result = some (s.claimed + n) ∧ s' = t.movedTo (s.claimed + n))) := by
  unfold tryClaim at h
  cases size : claimSize g n with
  | error e =>
    rw [size] at h
    cases h
    exact Or.inl ⟨rfl, rfl⟩
  | ok delta =>
    obtain ⟨one, most, rfl⟩ := claimSize_eq_ok_iff.mp size
    rw [size] at h
    simp only [get_bind_apply] at h
    obtain ⟨-, rest⟩ := checked_bind_eq_ok h
    obtain ⟨room, t, asked, last⟩ := bind_eq_ok rest
    refine Or.inr ⟨room, t, one, most, asked, ?_⟩
    cases room with
    | false =>
        cases last
        exact Or.inl ⟨rfl, rfl, rfl⟩
    | true =>
        cases last
        exact Or.inr ⟨rfl, rfl, rfl⟩

/-- A claim that is made at once took the next sequences, and the gates admitted it. -/
theorem tryClaim_some (h : tryClaim n s = .ok (some hi) s') : Taken s n hi s' := by
  obtain ⟨none, -⟩ | ⟨room, t, one, most, asked, ⟨-, none, -⟩ | ⟨rfl, same, rfl⟩⟩ := tryClaim_eq_ok h
  · cases none
  · cases none
  · obtain rfl : hi = s.claimed + n := Option.some.inj same
    obtain ⟨fits, ⟨ahead, -, rfl⟩ | ⟨enough, rfl⟩⟩ := hasRoom_eq_ok asked
    · obtain ⟨low, high⟩ := mustLook_eq_false_iff.mp ahead
      refine ⟨one, most, rfl, fits, ⟨gates_movedTo, counters_movedTo, ?_⟩, moved_movedTo _ _⟩
      exact Or.inl ⟨low, high, cachedGate_movedTo⟩
    · refine ⟨one, most, rfl, fits, ⟨gates_movedTo, counters_movedTo, Or.inr ⟨?_, ?_⟩⟩, ?_, ?_⟩
      · exact of_decide_eq_true enough.symm
      · rw [cachedGate_movedTo]
        rfl
      · -- an announced look leaves the cursor at the old claim position
        intro c ledger
        have moved := (moved_movedTo (s.read true) (s.claimed + n)).solo c ledger
        refine ⟨moved.1, Or.inr ?_⟩
        have : (s.read true).cursor = c := claimed_solo ledger
        obtain same | same := moved.2 <;> rw [same]
        exact this
      · intro laps ledger
        exact (moved_movedTo (s.read true) (s.claimed + n)).shared laps ledger

/-- A claim that is not made leaves at most a renewed cache. -/
theorem tryClaim_none (h : tryClaim n s = .ok none s') : s' = s ∨ s' = s.read true := by
  obtain ⟨-, same⟩ | ⟨room, t, -, -, asked, ⟨-, -, rfl⟩ | ⟨-, none, -⟩⟩ := tryClaim_eq_ok h
  · exact Or.inl same
  · obtain ⟨-, ⟨-, -, same⟩ | ⟨-, same⟩⟩ := hasRoom_eq_ok asked
    · exact Or.inl same
    · exact Or.inr same
  · cases none

/-- A claim is made at once if the cached gate or the gates themselves admit it. -/
theorem tryClaim_of_admitted (one : 1 ≤ n) (most : n ≤ g.size) (fits : Word.Fits (s.claimed + n))
    (low : Word.Fits (s.claimed + n - g.size))
    (room : (s.claimed + n - g.size ≤ s.cachedGate ∧ s.cachedGate ≤ s.claimed) ∨
      s.claimed + n - g.size ≤ s.slowestGate s.claimed) :
    ∃ s', tryClaim n s = .ok (some (s.claimed + n)) s' := by
  have size := claimSize_of_valid one most
  have asked : ∃ t, hasRoom n true s = .ok true t := by
    unfold hasRoom
    rw [get_bind_apply]
    simp only [bind_apply, lift_apply, Word.checked_of_fits fits, wrapPoint, Word.checked_of_fits low]
    cases look : s.mustLook (s.claimed + n - g.size) s.claimed with
    | false => exact ⟨s, rfl⟩
    | true =>
        -- the cache does not settle it, so it must be the gates that do
        have released : s.claimed + n - g.size ≤ s.slowestGate s.claimed := by
          refine room.resolve_left fun ahead => ?_
          rw [mustLook_eq_false_iff.mpr ahead] at look
          cases look
        refine ⟨s.read true, ?_⟩
        simp only [if_true, bind_apply, set_apply, pure_apply, decide_eq_true released]
        rfl
  obtain ⟨t, asked⟩ := asked
  refine ⟨t.movedTo (s.claimed + n), ?_⟩
  unfold tryClaim
  simp only [size, bind_apply, get_apply, lift_apply, Word.checked_of_fits fits, asked, if_true]
  rfl

/-! ## Claims of a wrong size, or too many -/

theorem hasCapacity_of_valid (one : 1 ≤ n) (most : n ≤ g.size) :
    hasCapacity n s = hasRoom n false s := by
  unfold hasCapacity
  rw [claimSize_of_valid one most]

theorem hasCapacity_of_invalid (invalid : ¬ (1 ≤ n ∧ n ≤ g.size)) :
    hasCapacity n s = .ok false s := by
  unfold hasCapacity
  rw [claimSize_of_invalid invalid]
  rfl

theorem tryClaim_of_invalid (invalid : ¬ (1 ≤ n ∧ n ≤ g.size)) : tryClaim n s = .ok none s := by
  unfold tryClaim
  rw [claimSize_of_invalid invalid]
  rfl

/-- Beyond the greatest sequence nothing can be claimed or asked for. -/
theorem hasRoom_of_overflow {announce : Bool} (exceeds : ¬ Word.Fits (s.claimed + delta)) :
    hasRoom delta announce s = .error .overflow s := by
  unfold hasRoom
  rw [get_bind_apply, checked_bind_of_overflow exceeds]

theorem tryClaim_of_overflow (one : 1 ≤ n) (most : n ≤ g.size)
    (exceeds : ¬ Word.Fits (s.claimed + n)) : tryClaim n s = .error .overflow s := by
  unfold tryClaim
  simp only [claimSize_of_valid one most]
  rw [get_bind_apply, checked_bind_of_overflow exceeds]

theorem claimBy_of_overflow (exceeds : ¬ Word.Fits (s.claimed + delta)) :
    ∃ t, claimBy delta s = .error .overflow t := by
  unfold claimBy
  rw [get_bind_apply]
  cases ledger : s.ledger with
  | solo c =>
      rw [claimed_solo ledger] at exceeds
      exact ⟨_, checked_bind_of_overflow exceeds⟩
  | shared laps =>
      rw [claimed_shared ledger] at exceeds
      exact ⟨_, bind_of_error (onPart_of_error (Counter.add_of_overflow exceeds))⟩

theorem claim_of_overflow (one : 1 ≤ n) (most : n ≤ g.size) (exceeds : ¬ Word.Fits (s.claimed + n)) :
    ∃ t, claim n s = .error .overflow t := by
  obtain ⟨t, broken⟩ := claimBy_of_overflow exceeds
  refine ⟨t, ?_⟩
  unfold claim
  simp only [claimSize_of_valid one most]
  rw [map_apply, broken]

end EventRing.Sequencer
