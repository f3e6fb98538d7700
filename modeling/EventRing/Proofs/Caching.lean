import EventRing.Proofs.Interchange
/-!
# EventRing.Proofs.Caching

The cached gate spares producers the reading of all gates, and nobody should notice it.  A sequencer is
`Metered` if the cached gate is not ahead of what the gates say, and they are not more than a ring behind
the claim position.  Then all questions for room are answered as the gates would answer them
(`Metered.hasRoom`, `Metered.tryClaim`, `Metered.claim`), and so is how much room there is.

What such a question changes is the cached gate only.  Two sequencers that differ in nothing else are
`Recached`; as long as both are metered, every action of a producer ends alike on them.
-/

namespace EventRing.Sequencer

open EventRing.Action

variable {g : Geometry} {s t : Sequencer g} {n : Nat} {announce : Bool}

/-! ## Room -/

/-- The gates have released the slots of the next `n` sequences. -/
def Room (s : Sequencer g) (n : Nat) : Prop := s.claimed + n - g.size ≤ s.slowestGate s.claimed

instance (s : Sequencer g) (n : Nat) : Decidable (s.Room n) := inferInstanceAs (Decidable (_ ≤ _))

/-- The cached gate is not ahead of the gates, and they are not more than a ring behind. -/
structure Metered (s : Sequencer g) : Prop where
  start : -1 ≤ s.claimed
  cached : s.cachedGate ≤ s.slowestGate s.claimed
  spread : s.claimed - g.size ≤ s.slowestGate s.claimed

/-- How many sequences the gates have released the slots of. -/
def spare (s : Sequencer g) : Int := g.size - (s.claimed - s.slowestGate s.claimed)

theorem room_iff : s.Room n ↔ n ≤ s.spare := by
  unfold Room spare
  omega

theorem spare_le_size (s : Sequencer g) : s.spare ≤ g.size := by
  have : s.slowestGate s.claimed ≤ s.claimed := Counters.least_le_default
  unfold spare
  omega

theorem Metered.remaining (metered : s.Metered) : s.remaining = .ok s.spare := by
  have size := g.size_le
  have spread := metered.spread
  have most := s.spare_le_size
  have inside {d : Int} (low : 0 ≤ d) (high : d ≤ g.size) : Word.Fits d := by
    simp only [Word.Fits, Word.least, Word.greatest]
    omega
  unfold spare at most
  unfold Sequencer.remaining
  rw [except_checked_of_fits (inside (by omega) (by omega)),
    Word.checked_of_fits (inside (by omega) (by omega))]
  rfl

theorem Metered.fits_wrap (metered : s.Metered) (fits : Word.Fits (s.claimed + n)) :
    Word.Fits (s.claimed + n - g.size) := by
  have start := metered.start
  have size := g.size_le
  simp only [Word.Fits, Word.least, Word.greatest] at fits ⊢
  omega

/-- Where the cached gate settles the question there is room. -/
theorem Metered.room_of_settled (metered : s.Metered)
    (settled : s.mustLook (s.claimed + n - g.size) s.claimed = false) : s.Room n :=
  Int.le_trans (mustLook_eq_false_iff.mp settled).1 metered.cached

/-- A question for room leaves the sequencer as it was, or with the gates read. -/
def Looked (s : Sequencer g) (announce : Bool) (t : Sequencer g) : Prop := t = s ∨ t = s.read announce

theorem Metered.hasRoom (metered : s.Metered) (announce : Bool) (fits : Word.Fits (s.claimed + n)) :
    ∃ t, s.Looked announce t ∧ Sequencer.hasRoom n announce s = .ok (decide (s.Room n)) t := by
  unfold Sequencer.hasRoom wrapPoint
  rw [get_bind_apply, checked_bind_of_fits fits, checked_bind_of_fits (metered.fits_wrap fits)]
  cases look : s.mustLook (s.claimed + n - g.size) s.claimed with
  | false =>
      refine ⟨s, Or.inl rfl, ?_⟩
      rw [decide_eq_true (metered.room_of_settled look)]
      rfl
  | true => exact ⟨s.read announce, Or.inr rfl, rfl⟩

theorem Metered.tryClaim (metered : s.Metered) (one : 1 ≤ n) (most : n ≤ g.size)
    (fits : Word.Fits (s.claimed + n)) :
    ∃ t, s.Looked true t ∧ Sequencer.tryClaim n s =
      if s.Room n then .ok (some (s.claimed + n)) (t.movedTo (s.claimed + n)) else .ok none t := by
  obtain ⟨t, looked, asked⟩ := metered.hasRoom true fits
  refine ⟨t, looked, ?_⟩
  unfold Sequencer.tryClaim
  simp only [claimSize_of_valid one most]
  rw [get_bind_apply, checked_bind_of_fits fits, bind_apply, asked]
  simp only [decide_eq_true_eq]
  split <;> rfl

/-- A claim that need not wait is granted. -/
theorem Metered.claim (metered : s.Metered) (one : 1 ≤ n) (most : n ≤ g.size)
    (fits : Word.Fits (s.claimed + n)) (room : s.Room n) :
    ∃ t, s.Looked true t ∧ Sequencer.claim n s =
      .ok (.ok (.granted (s.claimed + n))) (t.movedTo (s.claimed + n)) := by
  have claimed := claimBy_of_fits fits (metered.fits_wrap fits)
  have answers {grant : Grant} {t : Sequencer g} (made : claimBy n s = .ok grant t) :
      Sequencer.claim n s = .ok (.ok grant) t := by
    unfold Sequencer.claim
    simp only [claimSize_of_valid one most]
    rw [map_apply, made]
  by_cases look : s.mustLook (s.claimed + n - g.size) s.claimed = true
  · rw [if_pos look, settle_apply] at claimed
    simp only [slowestGate_underway] at claimed
    rw [if_neg (Int.not_lt.mpr room)] at claimed
    refine ⟨s.read true, Or.inr rfl, ?_⟩
    rw [answers claimed]
    obtain ⟨cursor, ledger, cachedGate, gates, counters, parks, signals⟩ := s
    cases ledger <;> rfl
  · rw [if_neg look] at claimed
    exact ⟨s, Or.inl rfl, answers claimed⟩

/-! ## What is told about room -/

/-- The answers about room agree: `r` sequences can be claimed, there is room for a claim exactly if it is
not larger than that, nor than the ring, and then it is made.  A claim that would lead beyond the
greatest sequence breaks off, and one of a size that a ring does not have is refused. -/
structure Exact (s : Sequencer g) (r : Int) : Prop where
  remaining : s.remaining = .ok r
  asked : ∀ n : Nat, (1 ≤ n → n ≤ g.size → Word.Fits (s.claimed + n)) →
    (hasCapacity n).answer s = .ok (decide (1 ≤ n ∧ n ≤ min (g.size : Int) r))
  tried : ∀ n : Nat, (1 ≤ n → n ≤ g.size → Word.Fits (s.claimed + n)) →
    (tryClaim n).answer s =
      .ok (if 1 ≤ n ∧ n ≤ min (g.size : Int) r then some (s.claimed + n) else none)
  beyond : ∀ n : Nat, 1 ≤ n → n ≤ g.size → ¬ Word.Fits (s.claimed + n) →
    (hasCapacity n).answer s = .error .overflow ∧ (tryClaim n).answer s = .error .overflow
  refused : ∀ n : Nat, ¬ (1 ≤ n ∧ n ≤ g.size) →
    claim n s = .ok (.error (.invalidClaimSize n g.size)) s

theorem Metered.exact (metered : s.Metered) : s.Exact s.spare := by
  have room (n : Nat) (most : n ≤ g.size) : n ≤ min (g.size : Int) s.spare ↔ s.Room n := by
    rw [Int.le_min, room_iff]
    omega
  constructor
  case remaining => exact metered.remaining
  case asked =>
    intro n fits
    by_cases valid : 1 ≤ n ∧ n ≤ g.size
    · obtain ⟨one, most⟩ := valid
      obtain ⟨t, -, asked⟩ := metered.hasRoom false (fits one most)
      simp only [answer_of_ok ((hasCapacity_of_valid one most).trans asked), room n most, one, true_and]
    · have none : ¬ (1 ≤ n ∧ n ≤ min (g.size : Int) s.spare) := by omega
      rw [answer_of_ok (hasCapacity_of_invalid valid), decide_eq_false none]
  case tried =>
    intro n fits
    by_cases valid : 1 ≤ n ∧ n ≤ g.size
    · obtain ⟨one, most⟩ := valid
      obtain ⟨t, -, tried⟩ := metered.tryClaim one most (fits one most)
      simp only [room n most, one, true_and]
      by_cases enough : s.Room n
      · rw [if_pos enough] at tried ⊢
        exact answer_of_ok tried
      · rw [if_neg enough] at tried ⊢
        exact answer_of_ok tried
    · have none : ¬ (1 ≤ n ∧ n ≤ min (g.size : Int) s.spare) := by omega
      rw [answer_of_ok (tryClaim_of_invalid valid), if_neg none]
  case beyond =>
    intro n one most exceeds
    have asked := (hasCapacity_of_valid one most).trans (hasRoom_of_overflow exceeds)
    exact ⟨answer_of_error asked, answer_of_error (tryClaim_of_overflow one most exceeds)⟩
  case refused => exact fun n invalid => claim_of_invalid invalid

/-! ## The cache does not show -/

/-- The same sequencer with another cached gate. -/
def recached (s : Sequencer g) (cache : Int) : Sequencer g := { s with cachedGate := cache }

/-- Two sequencers that differ in nothing but the cached gate. -/
def Recached (s t : Sequencer g) : Prop := ∃ cache, t = s.recached cache

namespace Recached

theorem refl (s : Sequencer g) : Recached s s := ⟨s.cachedGate, rfl⟩

theorem symm (same : Recached s t) : Recached t s := by
  obtain ⟨cache, rfl⟩ := same
  exact ⟨s.cachedGate, rfl⟩

theorem trans {u : Sequencer g} (first : Recached s t) (second : Recached t u) : Recached s u := by
  obtain ⟨cache, rfl⟩ := first
  obtain ⟨cache, rfl⟩ := second
  exact ⟨cache, rfl⟩

theorem claimed_eq (same : Recached s t) : t.claimed = s.claimed := by
  obtain ⟨cache, rfl⟩ := same
  rfl

theorem room_iff (same : Recached s t) : t.Room n ↔ s.Room n := by
  obtain ⟨cache, rfl⟩ := same
  exact Iff.rfl

theorem movedTo (same : Recached s t) (hi : Int) : Recached (s.movedTo hi) (t.movedTo hi) := by
  obtain ⟨cache, rfl⟩ := same
  refine ⟨cache, ?_⟩
  obtain ⟨cursor, ledger, cachedGate, gates, counters, parks, signals⟩ := s
  cases ledger <;> rfl

/-- A question that is not announced, or that comes while the cursor is where it announces, changes the
cached gate only. -/
theorem of_looked (still : announce = true → s.cursor = s.claimed) (looked : s.Looked announce t) :
    Recached s t := by
  rcases looked with rfl | rfl
  · exact refl t
  · refine ⟨s.slowestGate s.claimed, ?_⟩
    cases announce with
    | false => rfl
    | true =>
        unfold Sequencer.read Sequencer.recached
        simp only [if_true, ← still rfl]

variable {s' t' : Sequencer g}

/-- Questions lead from such sequencers to such sequencers. -/
theorem looked (same : Recached s t) (still : announce = true → s.cursor = s.claimed)
    (lookedS : s.Looked announce s') (lookedT : t.Looked announce t') : Recached s' t' := by
  have stillT : announce = true → t.cursor = t.claimed := by
    obtain ⟨cache, rfl⟩ := same
    exact still
  exact ((of_looked still lookedS).symm.trans same).trans (of_looked stillT lookedT)

theorem hasCapacity (same : Recached s t) (meteredS : s.Metered) (meteredT : t.Metered) (n : Nat) :
    Alike (fun _ => Recached) (Sequencer.hasCapacity n s) (Sequencer.hasCapacity n t) := by
  by_cases valid : 1 ≤ n ∧ n ≤ g.size
  · rw [hasCapacity_of_valid valid.1 valid.2, hasCapacity_of_valid valid.1 valid.2]
    by_cases fits : Word.Fits (s.claimed + n)
    · obtain ⟨s', lookedS, askedS⟩ := meteredS.hasRoom false fits
      obtain ⟨t', lookedT, askedT⟩ := meteredT.hasRoom false (by rwa [same.claimed_eq])
      rw [askedS, askedT, decide_eq_decide.mpr same.room_iff]
      exact .answered (same.looked (fun announced : false = true => nomatch announced) lookedS lookedT)
    · rw [hasRoom_of_overflow fits, hasRoom_of_overflow (by rwa [same.claimed_eq])]
      exact .faulted ..
  · rw [hasCapacity_of_invalid valid, hasCapacity_of_invalid valid]
    exact .answered same

theorem tryClaim (same : Recached s t) (meteredS : s.Metered) (meteredT : t.Metered)
    (still : s.cursor = s.claimed) (n : Nat) :
    Alike (fun _ => Recached) (Sequencer.tryClaim n s) (Sequencer.tryClaim n t) := by
  by_cases valid : 1 ≤ n ∧ n ≤ g.size
  · obtain ⟨one, most⟩ := valid
    by_cases fits : Word.Fits (s.claimed + n)
    · obtain ⟨s', lookedS, triedS⟩ := meteredS.tryClaim one most fits
      obtain ⟨t', lookedT, triedT⟩ := meteredT.tryClaim one most (by rwa [same.claimed_eq])
      have after : Recached s' t' := same.looked (fun _ => still) lookedS lookedT
      rw [triedS, triedT, same.claimed_eq]
      simp only [same.room_iff]
      split
      · exact .answered (after.movedTo _)
      · exact .answered after
    · rw [tryClaim_of_overflow one most fits, tryClaim_of_overflow one most (by rwa [same.claimed_eq])]
      exact .faulted ..
  · rw [tryClaim_of_invalid valid, tryClaim_of_invalid valid]
    exact .answered same

/-- Claims end alike if they need not wait. -/
theorem claim (same : Recached s t) (meteredS : s.Metered) (meteredT : t.Metered)
    (still : s.cursor = s.claimed) (room : 1 ≤ n → n ≤ g.size → s.Room n) :
    Alike (fun _ => Recached) (Sequencer.claim n s) (Sequencer.claim n t) := by
  by_cases valid : 1 ≤ n ∧ n ≤ g.size
  · obtain ⟨one, most⟩ := valid
    have roomS := room one most
    by_cases fits : Word.Fits (s.claimed + n)
    · obtain ⟨s', lookedS, claimedS⟩ := meteredS.claim one most fits roomS
      obtain ⟨t', lookedT, claimedT⟩ :=
        meteredT.claim one most (by rwa [same.claimed_eq]) (same.room_iff.mpr roomS)
      have after : Recached s' t' := same.looked (fun _ => still) lookedS lookedT
      rw [claimedS, claimedT, same.claimed_eq]
      exact .answered (after.movedTo _)
    · obtain ⟨_, brokenS⟩ := claim_of_overflow one most fits
      obtain ⟨_, brokenT⟩ := claim_of_overflow (s := t) one most (by rwa [same.claimed_eq])
      rw [brokenS, brokenT]
      exact .faulted ..
  · rw [claim_of_invalid valid, claim_of_invalid valid]
    exact .answered same

theorem signal (same : Recached s t) : Recached s.signal t.signal := by
  obtain ⟨cache, rfl⟩ := same
  refine ⟨cache, ?_⟩
  obtain ⟨cursor, ledger, cachedGate, gates, counters, parks, signals⟩ := s
  cases parks <;> rfl

theorem publishRange (same : Recached s t) (lo hi : Int) :
    Alike (fun _ => Recached) (Sequencer.publishRange lo hi s) (Sequencer.publishRange lo hi t) := by
  obtain ⟨cache, rfl⟩ := same
  unfold Sequencer.publishRange
  split
  · exact .faulted ..
  · refine .answered (signal ⟨cache, ?_⟩)
    obtain ⟨cursor, ledger, cachedGate, gates, counters, parks, signals⟩ := s
    cases ledger <;> rfl

theorem addGates (same : Recached s t) (ids : List CounterId) :
    Alike (fun _ => Recached) (Sequencer.addGates ids s) (Sequencer.addGates ids t) := by
  obtain ⟨cache, rfl⟩ := same
  exact .answered ⟨cache, rfl⟩

theorem removeGate (same : Recached s t) (id : CounterId) :
    Alike (fun _ => Recached) (Sequencer.removeGate id s) (Sequencer.removeGate id t) := by
  obtain ⟨cache, rfl⟩ := same
  exact .answered ⟨cache, rfl⟩

theorem makeCounter (same : Recached s t) (value : Int) :
    Alike (fun _ => Recached) (Sequencer.makeCounter value s) (Sequencer.makeCounter value t) := by
  obtain ⟨cache, rfl⟩ := same
  exact .answered ⟨cache, rfl⟩

theorem setCounter (same : Recached s t) (id : CounterId) (value : Int) :
    Alike (fun _ => Recached) (Sequencer.setCounter id value s) (Sequencer.setCounter id value t) := by
  obtain ⟨cache, rfl⟩ := same
  exact .answered ⟨cache, rfl⟩

end Recached

end EventRing.Sequencer

namespace EventRing.Ring

variable {g : Geometry} {ε α : Type} {r s : Ring g ε}

/-! ## Rings -/

/-- Two rings that differ in nothing but the cached gate. -/
def Recached (r s : Ring g ε) : Prop :=
  ∃ cache, s = { r with sequencer := r.sequencer.recached cache }

namespace Recached

theorem sequencer (same : Recached r s) : Sequencer.Recached r.sequencer s.sequencer := by
  obtain ⟨cache, rfl⟩ := same
  exact ⟨cache, rfl⟩

theorem onSequencer {act : Action (Sequencer g) α} (same : Recached r s)
    (inner : Alike (fun _ => Sequencer.Recached) (act r.sequencer) (act s.sequencer)) :
    Alike (fun _ => Recached) (Ring.onSequencer act r) (Ring.onSequencer act s) := by
  refine inner.onPart fun after => ?_
  obtain ⟨cache, rfl⟩ := same
  obtain ⟨cache, rfl⟩ := after
  exact ⟨cache, rfl⟩

theorem takePublisher (same : Recached r s) :
    Alike (fun _ => Recached) (Ring.takePublisher r) (Ring.takePublisher s) := by
  obtain ⟨cache, rfl⟩ := same
  obtain ⟨⟨cursor, ledger, cachedGate, gates, counters, parks, signals⟩, slots, taken⟩ := r
  cases ledger <;> cases taken <;> exact .answered ⟨cache, rfl⟩

theorem releasePublisher (same : Recached r s) :
    Alike (fun _ => Recached) (Ring.releasePublisher r) (Ring.releasePublisher s) := by
  obtain ⟨cache, rfl⟩ := same
  obtain ⟨⟨cursor, ledger, cachedGate, gates, counters, parks, signals⟩, slots, taken⟩ := r
  cases ledger <;> exact .answered ⟨cache, rfl⟩

theorem claim {n : Nat} (same : Recached r s) (meteredR : r.sequencer.Metered)
    (meteredS : s.sequencer.Metered) (still : r.sequencer.cursor = r.sequencer.claimed)
    (room : 1 ≤ n → n ≤ g.size → r.sequencer.Room n) :
    Alike (fun _ => Recached) (Ring.claim n r) (Ring.claim n s) :=
  same.onSequencer (same.sequencer.claim meteredR meteredS still room)

theorem tryClaim (same : Recached r s) (meteredR : r.sequencer.Metered)
    (meteredS : s.sequencer.Metered) (still : r.sequencer.cursor = r.sequencer.claimed) (n : Nat) :
    Alike (fun _ => Recached) (Ring.tryClaim n r) (Ring.tryClaim n s) :=
  same.onSequencer (same.sequencer.tryClaim meteredR meteredS still n)

theorem publishBlock (same : Recached r s) (block : Block) :
    Alike (fun _ => Recached) (Ring.publishBlock block r) (Ring.publishBlock block s) :=
  same.onSequencer (same.sequencer.publishRange block.lo block.hi)

theorem write (same : Recached r s) (writer : ε → Int → ε) (t : Int) :
    Alike (fun _ => Recached) (Ring.write writer t r) (Ring.write writer t s) := by
  obtain ⟨cache, rfl⟩ := same
  exact .answered ⟨cache, rfl⟩

end Recached

end EventRing.Ring
