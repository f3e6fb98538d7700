import EventRing.Proofs.Keeping
/-!
# EventRing.Proofs.Batching

Publishing events together against publishing them one by one.  A publication of `n` events that is not held
back by the gates leaves a ring as `Ring.Advanced` has it: the next `n` sequences are claimed and published,
and each of their slots was written once (`Ring.filled`).  Publications add up, so as many single ones leave
the ring advanced by `n` as well, and there is one such ring only, the cached gate and the number of wakings
apart.

The room for `n` events is measured before the first of them.  It is enough for each single claim, since the
claim position that a gate is compared with only moves on.
-/

namespace EventRing

open EventRing.Action

namespace Sequencer

variable {g : Geometry} {s s' : Sequencer g} {n : Nat} {lo hi : Int}

/-! ## Claims with room -/

/-- The next sequences up to `hi` are claimed, and nobody was woken. -/
structure Claimed (s : Sequencer g) (hi : Int) (s' : Sequencer g) : Prop where
  gates : s'.gates = s.gates
  counters : s'.counters = s.counters
  parks : s'.parks = s.parks
  signals : s'.signals = s.signals
  moved : Moved s hi s'

theorem claimed_movedTo (s : Sequencer g) (hi : Int) : Claimed s hi (s.movedTo hi) := by
  exact ⟨gates_movedTo, counters_movedTo, parks_movedTo, signals_movedTo, moved_movedTo s hi⟩

/-- Every gate has released the slots of the next sequences up to `hi`. -/
def Released (s : Sequencer g) (hi : Int) : Prop := ∀ id ∈ s.gates, hi - g.size ≤ s.counters.value id

theorem Released.mono (released : s.Released hi) (less : lo ≤ hi) : s.Released lo := by
  intro id gate
  have := released id gate
  omega

/-- What the gates have released is enough at any claim position behind it. -/
theorem Released.le_slowestGate {before : Int} (released : s.Released hi) (near : hi - g.size ≤ before) :
    hi - g.size ≤ s.slowestGate before := Counters.le_least_iff.mpr ⟨near, released⟩

/-- A claim whose slots are released is made at once. -/
theorem claimBy_of_released (most : n ≤ g.size) (fits : Word.Fits (s.claimed + n))
    (low : Word.Fits (s.claimed + n - g.size)) (released : s.Released (s.claimed + n)) :
    ∃ s', claimBy n s = .ok (.granted (s.claimed + n)) s' ∧ Claimed s (s.claimed + n) s' := by
  rw [claimBy_of_fits fits low]
  cases look : s.mustLook (s.claimed + n - g.size) s.claimed with
  | false => exact ⟨_, rfl, claimed_movedTo s _⟩
  | true =>
      have enough : ¬ (s.underway (s.claimed + n)).slowestGate s.claimed < s.claimed + n - g.size := by
        rw [slowestGate_underway]
        exact Int.not_lt.mpr (released.le_slowestGate (by omega))
      have made := (settle_apply ⟨s.claimed, s.claimed + n, s.claimed + n - g.size⟩ _).trans (if_neg enough)
      obtain ⟨-, settled⟩ := settle_granted made
      refine ⟨_, made, gates_underway, counters_underway, parks_underway, signals_underway, ?_, ?_⟩
      · intro c ledger
        refine ⟨settled.solo c (by rw [ledger_underway, ledger]), Or.inr ?_⟩
        rw [settled.cursor, underway, ledger]
      · intro laps ledger
        refine ⟨settled.shared laps (by rw [ledger_underway, ledger]), ?_⟩
        rw [settled.cursor, underway, ledger]

end Sequencer

namespace Ring

variable {g : Geometry} {ε : Type} {r s t : Ring g ε} {writer : ε → Int → ε} {n k : Nat} {lo hi : Int}

/-! ## Written slots -/

/-- The ring after `count` events from `lo` on were written, in order. -/
def filled (writer : ε → Int → ε) (lo : Int) : Nat → Ring g ε → Ring g ε
  | 0, ring => ring
  | count + 1, ring =>
    let before := filled writer lo count ring
    before.putEvent (lo + count) (writer (before.event (lo + count)) (lo + count))

theorem writeRun_apply (writer : ε → Int → ε) (lo : Int) (count : Nat) (r : Ring g ε) :
    writeRun writer lo count r = .ok () (filled writer lo count r) := by
  unfold writeRun
  rw [modify_apply]
  congr 1
  induction count with
  | zero => rfl
  | succ count ih =>
      rw [List.range_succ, List.foldl_append, ih]
      rfl

@[simp]
theorem sequencer_filled : (filled writer lo n r).sequencer = r.sequencer := by
  induction n with
  | zero => rfl
  | succ n ih => exact ih

@[simp]
theorem publisherTaken_filled : (filled writer lo n r).publisherTaken = r.publisherTaken := by
  induction n with
  | zero => rfl
  | succ n ih => exact ih

/-- What is written into a slot depends on what is in the slots. -/
theorem slots_putEvent (same : s.slots = t.slots) (writer : ε → Int → ε) (u : Int) :
    (s.putEvent u (writer (s.event u) u)).slots = (t.putEvent u (writer (t.event u) u)).slots := by
  unfold putEvent event
  simp only [same]

/-- Each event of a run was written once, over the event that was in its slot. -/
theorem event_filled (most : n ≤ g.size) {u : Int} (inside : lo ≤ u ∧ u < lo + n) :
    (filled writer lo n r).event u = writer (r.event u) u := by
  have kept (k : Nat) (few : k ≤ n) (behind : lo + k ≤ u) : (filled writer lo k r).event u = r.event u := by
    induction k with
    | zero => rfl
    | succ k ih =>
        have other : g.slot (lo + k) ≠ g.slot u := Geometry.slot_ne_of_near (by omega) (by omega)
        show ((filled writer lo k r).putEvent _ _).event u = _
        rw [Production.event_putEvent, if_neg other]
        exact ih (by omega) (by omega)
  induction n with
  | zero => omega
  | succ n ih =>
      show ((filled writer lo n r).putEvent _ _).event u = _
      rw [Production.event_putEvent]
      by_cases last : u = lo + n
      · subst last
        rw [if_pos rfl, kept n (Nat.le_succ n) (Int.le_refl _)]
      · have other : g.slot (lo + n) ≠ g.slot u := fun same =>
          last (Geometry.slot_injective most inside (by omega) same.symm)
        rw [if_neg other]
        exact ih (by omega) (by omega) fun k few behind => kept k (by omega) behind

/-- No other slot was written. -/
theorem get_filled {i : Fin g.size} (others : ∀ u, lo ≤ u → u < lo + n → g.slot u ≠ i) :
    (filled writer lo n r).slots.get i = r.slots.get i := by
  induction n with
  | zero => rfl
  | succ n ih =>
      have other : (g.slot (lo + n) : Nat) ≠ i := fun same =>
        others (lo + n) (by omega) (by omega) (Fin.ext same)
      show ((filled writer lo n r).slots.set (g.slot (lo + n)) _ (g.slot_lt _))[(i : Nat)] = _
      rw [Vector.getElem_set_ne _ _ other]
      exact ih fun u above below => others u above (by omega)

/-! ## Publications -/

/-- The ring after its next `n` events were written and published. -/
structure Advanced (writer : ε → Int → ε) (n : Nat) (r s : Ring g ε) : Prop where
  gates : s.sequencer.gates = r.sequencer.gates
  counters : s.sequencer.counters = r.sequencer.counters
  parks : s.sequencer.parks = r.sequencer.parks
  publisherTaken : s.publisherTaken = r.publisherTaken
  cursor : s.sequencer.cursor = r.sequencer.claimed + n
  solo : ∀ c, r.sequencer.ledger = .solo c → s.sequencer.ledger = .solo (c + n)
  shared : ∀ laps, r.sequencer.ledger = .shared laps →
    s.sequencer.ledger = .shared (Sequencer.markRun laps (r.sequencer.claimed + 1) n)
  slots : s.slots = (filled writer (r.sequencer.claimed + 1) n r).slots

namespace Advanced

/-- Nothing was published yet, and the cursor is where the claim position is. -/
theorem rest (rest : r.sequencer.cursor = r.sequencer.claimed) : Advanced writer 0 r r := by
  refine ⟨rfl, rfl, rfl, rfl, rest.trans (Int.add_zero _).symm, fun c solo => ?_, fun laps shared => shared,
    rfl⟩
  rw [solo, Int.natCast_zero, Int.add_zero]

theorem claimed (advanced : Advanced writer n r s) : s.sequencer.claimed = r.sequencer.claimed + n := by
  cases ledger : r.sequencer.ledger with
  | solo c => rw [Sequencer.claimed_solo (advanced.solo c ledger), Sequencer.claimed_solo ledger]
  | shared laps => rw [Sequencer.claimed_shared (advanced.shared laps ledger), advanced.cursor]

/-- One event more. -/
theorem next (advanced : Advanced writer n r s) (one : Advanced writer 1 s t) :
    Advanced writer (n + 1) r t := by
  have claimed := advanced.claimed
  have here : r.sequencer.claimed + n + 1 = r.sequencer.claimed + 1 + n := by omega
  refine ⟨one.gates.trans advanced.gates, one.counters.trans advanced.counters,
    one.parks.trans advanced.parks, one.publisherTaken.trans advanced.publisherTaken, ?_, ?_, ?_, ?_⟩
  · rw [one.cursor, claimed, Int.natCast_add, Int.add_assoc]
  · intro c solo
    rw [one.solo _ (advanced.solo c solo), Int.natCast_add, Int.add_assoc]
  · intro laps shared
    rw [one.shared _ (advanced.shared laps shared), claimed, here, Sequencer.markRun_one,
      Sequencer.markRun_succ]
  · have single : t.slots = (s.putEvent (r.sequencer.claimed + 1 + n)
        (writer (s.event (r.sequencer.claimed + 1 + n)) (r.sequencer.claimed + 1 + n))).slots := by
      rw [one.slots, claimed, here]
      show (s.putEvent (_ + (0 : Nat)) _).slots = _
      simp only [Int.natCast_zero, Int.add_zero]
      rfl
    rw [single]
    exact slots_putEvent advanced.slots writer _

/-- Gates that have released the slots of a run have released those of its rest. -/
theorem released (advanced : Advanced writer n r s) (released : r.sequencer.Released hi) :
    s.sequencer.Released hi := by
  unfold Sequencer.Released
  rw [advanced.gates, advanced.counters]
  exact released

end Advanced

theorem onSequencer_of_ok {α : Type} {act : Action (Sequencer g) α} {a : α} {after : Sequencer g}
    (ran : act r.sequencer = .ok a after) : onSequencer act r = .ok a { r with sequencer := after } :=
  onPart_of_ok ran

theorem onSequencer_of_error {α : Type} {act : Action (Sequencer g) α} {fault : Fault} {after : Sequencer g}
    (ran : act r.sequencer = .error fault after) :
    onSequencer act r = .error fault { r with sequencer := after } :=
  onPart_of_error ran

/-- A ring whose next events were claimed, written and published is advanced by them. -/
theorem advanced_of_published {claimed shown : Sequencer g}
    (made : Sequencer.Claimed r.sequencer (r.sequencer.claimed + n) claimed)
    (published : Sequencer.publishRange (r.sequencer.claimed + 1) (r.sequencer.claimed + n) claimed =
      .ok () shown) :
    Advanced writer n r
      { filled writer (r.sequencer.claimed + 1) n { r with sequencer := claimed } with sequencer := shown } := by
  obtain ⟨-, showing⟩ := Sequencer.publishRange_eq_ok published
  obtain ⟨parks, -⟩ := Sequencer.signals_of_publishRange published
  have length : Sequencer.runLength (r.sequencer.claimed + 1) (r.sequencer.claimed + n) = n := by
    unfold Sequencer.runLength
    omega
  have slots (count : Nat) : (filled writer (r.sequencer.claimed + 1) count
      { r with sequencer := claimed }).slots = (filled writer (r.sequencer.claimed + 1) count r).slots := by
    induction count with
    | zero => rfl
    | succ count ih => exact slots_putEvent ih writer _
  refine ⟨showing.gates.trans made.gates, showing.counters.trans made.counters, parks.trans made.parks,
    publisherTaken_filled, ?_, ?_, ?_, slots n⟩
  · cases ledger : r.sequencer.ledger with
    | solo c => exact (showing.solo _ (made.moved.solo c ledger).1).2
    | shared laps =>
        obtain ⟨shared, cursor⟩ := made.moved.shared laps ledger
        exact (showing.shared laps shared).2.trans cursor
  · intro c solo
    rw [← Sequencer.claimed_solo solo]
    exact (showing.solo _ (made.moved.solo c solo).1).1
  · intro laps shared
    have marks := (showing.shared laps (made.moved.shared laps shared).1).1
    rwa [length] at marks

theorem finishEvents_granted {block : Block} (upTo : Block.upTo hi n = .ok block) (r : Ring g ε) :
    finishEvents writer n (.granted hi) r = (do
      writeRun writer block.lo block.length
      publishBlock block
      return .granted hi : Action (Ring g ε) Grant) r := by
  show (liftM (Block.upTo hi n) >>= _ : Action (Ring g ε) Grant) r = _
  rw [upTo, bind_apply, lift_apply]

/-- The claimed events are written and published, and consumers are woken once. -/
theorem finishEvents_of_claimed (writer : ε → Int → ε) (one : 1 ≤ n)
    (low : Word.Fits r.sequencer.claimed) (first : Word.Fits (r.sequencer.claimed + 1))
    {claimed : Sequencer g} (made : Sequencer.Claimed r.sequencer (r.sequencer.claimed + n) claimed) :
    ∃ s, finishEvents writer n (.granted (r.sequencer.claimed + n)) { r with sequencer := claimed } =
        .ok (.granted (r.sequencer.claimed + n)) s ∧ Advanced writer n r s ∧
      s.sequencer.signals = r.sequencer.signals + if r.sequencer.parks then 1 else 0 := by
  let c := r.sequencer.claimed
  have block : Block.upTo (c + n) n = .ok ⟨c + 1, c + n⟩ := by
    rw [Production.upTo_eq_ok_iff, Production.blockTo, Int.add_sub_cancel]
    exact ⟨low, first, rfl⟩
  have length : Block.length ⟨c + 1, c + n⟩ = n := by
    show Sequencer.runLength (c + 1) (c + n) = n
    unfold Sequencer.runLength
    omega
  obtain ⟨shown, published⟩ : ∃ s, Sequencer.publishRange (c + 1) (c + n) claimed = .ok () s :=
    Sequencer.publishRange_of_le (by omega)
  let wrote := filled writer (c + 1) n { r with sequencer := claimed }
  have wrote_eq : writeRun writer (c + 1) n { r with sequencer := claimed } = .ok () wrote :=
    writeRun_apply ..
  have shows : publishBlock ⟨c + 1, c + n⟩ wrote = .ok () { wrote with sequencer := shown } := by
    refine onSequencer_of_ok ?_
    rw [show wrote.sequencer = claimed from sequencer_filled]
    exact published
  refine ⟨{ wrote with sequencer := shown }, ?_, advanced_of_published made published, ?_⟩
  · rw [finishEvents_granted block, length]
    exact (bind_of_ok wrote_eq).trans ((bind_of_ok shows).trans rfl)
  · obtain ⟨-, signals⟩ := Sequencer.signals_of_publishRange published
    rw [← made.parks, ← made.signals]
    exact signals

/-- Publishing one event is publishing a run of one. -/
theorem finishEvent_eq (writer : ε → Int → ε) (before : Word.Fits (hi - 1)) (fits : Word.Fits hi)
    (r : Ring g ε) : finishEvent writer (.granted hi) r = finishEvents writer 1 (.granted hi) r := by
  have block : Block.upTo hi 1 = .ok ⟨hi, hi⟩ := by
    rw [Production.upTo_eq_ok_iff, Production.blockTo, Int.natCast_one, Int.sub_add_cancel]
    exact ⟨before, fits, rfl⟩
  have length : Block.length ⟨hi, hi⟩ = 1 := by
    show Sequencer.runLength hi hi = 1
    unfold Sequencer.runLength
    omega
  have wrote : writeRun writer hi 1 = (write writer hi : Action (Ring g ε) Unit) := by
    funext r
    rw [writeRun_apply]
    show EStateM.Result.ok () (r.putEvent (hi + (0 : Nat)) (writer (r.event (hi + (0 : Nat))) _)) = _
    rw [Int.natCast_zero, Int.add_zero]
    rfl
  have shows : publishBlock ⟨hi, hi⟩ = (publish hi : Action (Ring g ε) Unit) := by
    have same : Sequencer.publishRange hi hi = (Sequencer.publish hi : Action (Sequencer g) Unit) :=
      funext fun s => Sequencer.publishRange_self s hi
    unfold publishBlock publish
    rw [same]
  rw [finishEvents_granted block, length, wrote, shows]
  rfl

/-- What a claim reckons with fits if its end does. -/
theorem fits_of_claim (g : Geometry) {c : Int} (start : -1 ≤ c) (fits : Word.Fits (c + n)) (one : 1 ≤ n) :
    Word.Fits c ∧ Word.Fits (c + 1) ∧ Word.Fits (c + n - g.size) := by
  have := g.size_le
  simp only [Word.Fits, Word.least, Word.greatest] at fits ⊢
  omega

/-- Publishes `n` events together, if the gates have released their slots. -/
theorem publishEvents_of_released (writer : ε → Int → ε) (one : 1 ≤ n) (most : n ≤ g.size)
    (start : -1 ≤ r.sequencer.claimed) (fits : Word.Fits (r.sequencer.claimed + n))
    (released : r.sequencer.Released (r.sequencer.claimed + n)) :
    ∃ s, publishEvents writer n r = .ok (.ok (.granted (r.sequencer.claimed + n))) s ∧ Advanced writer n r s ∧
      s.sequencer.signals = r.sequencer.signals + if r.sequencer.parks then 1 else 0 := by
  obtain ⟨low, first, wrap⟩ := fits_of_claim g start fits one
  obtain ⟨claimed, claims, made⟩ := Sequencer.claimBy_of_released most fits wrap released
  obtain ⟨s, finishes, advanced, signals⟩ := finishEvents_of_claimed writer one low first made
  have claim : claim n r = .ok (.ok (.granted (r.sequencer.claimed + n))) { r with sequencer := claimed } := by
    refine onSequencer_of_ok ?_
    unfold Sequencer.claim
    rw [Sequencer.claimSize_of_valid one most]
    show (Except.ok <$> Sequencer.claimBy n) r.sequencer = _
    rw [map_apply, claims]
  refine ⟨s, (bind_of_ok claim).trans ?_, advanced, signals⟩
  show (Except.ok <$> finishEvents writer n (.granted (r.sequencer.claimed + n))) _ = _
  rw [map_apply, finishes]

/-- Publishes an event, if the gates have released its slot. -/
theorem publishEvent_of_released (writer : ε → Int → ε)
    (start : -1 ≤ r.sequencer.claimed) (fits : Word.Fits (r.sequencer.claimed + 1))
    (released : r.sequencer.Released (r.sequencer.claimed + 1)) :
    ∃ s, publishEvent writer r = .ok (.granted (r.sequencer.claimed + 1)) s ∧ Advanced writer 1 r s ∧
      s.sequencer.signals = r.sequencer.signals + if r.sequencer.parks then 1 else 0 := by
  obtain ⟨low, first, wrap⟩ := fits_of_claim (n := 1) g start fits (Nat.le_refl 1)
  obtain ⟨claimed, claims, made⟩ := Sequencer.claimBy_of_released (n := 1) g.size_pos fits wrap released
  obtain ⟨s, finishes, advanced, signals⟩ := finishEvents_of_claimed writer (Nat.le_refl 1) low first made
  refine ⟨s, (bind_of_ok (onSequencer_of_ok claims)).trans ?_, advanced, signals⟩
  have before : Word.Fits (r.sequencer.claimed + 1 - 1) := by rwa [Int.add_sub_cancel]
  exact (finishEvent_eq writer before fits _).trans finishes

/-! ## One after another -/

/-- Publishes `n` events one after another. -/
def publishEach (writer : ε → Int → ε) : Nat → Action (Ring g ε) (List Grant)
  | 0 => return []
  | n + 1 => do
    let before ← publishEach writer n
    let last ← publishEvent writer
    return before ++ [last]

theorem publishEach_succ {before : List Grant} (ran : publishEach writer n r = .ok before s) :
    publishEach writer (n + 1) r = ((fun last => before ++ [last]) <$> publishEvent writer) s :=
  bind_of_ok ran

/-- What the gates have released for a run is enough for each event of it. -/
theorem publishEach_of_released (writer : ε → Int → ε) (rest : r.sequencer.cursor = r.sequencer.claimed)
    (start : -1 ≤ r.sequencer.claimed) (fits : Word.Fits (r.sequencer.claimed + n))
    (released : r.sequencer.Released (r.sequencer.claimed + n)) :
    ∃ s, publishEach writer n r =
        .ok ((sequences (r.sequencer.claimed + 1) (r.sequencer.claimed + n)).map .granted) s ∧
      Advanced writer n r s ∧ s.sequencer.signals = r.sequencer.signals + if r.sequencer.parks then n else 0 := by
  induction n with
  | zero =>
      refine ⟨r, ?_, Advanced.rest rest, by split <;> rfl⟩
      rw [sequences_of_lt (by omega)]
      rfl
  | succ n ih =>
      rw [Int.natCast_add, Int.natCast_one, ← Int.add_assoc] at fits released ⊢
      have earlier : Word.Fits (r.sequencer.claimed + n) := by
        simp only [Word.Fits, Word.least, Word.greatest] at fits ⊢
        omega
      obtain ⟨s, before, advanced, signals⟩ := ih earlier (released.mono (by omega))
      have claimed := advanced.claimed
      rw [← claimed] at fits released
      obtain ⟨t, last, one, again⟩ := publishEvent_of_released writer (by omega) fits
        (advanced.released released)
      have longer : sequences (r.sequencer.claimed + 1) (r.sequencer.claimed + n + 1) =
          sequences (r.sequencer.claimed + 1) (r.sequencer.claimed + n) ++ [r.sequencer.claimed + n + 1] := by
        rw [sequences_concat (by omega), Int.add_sub_cancel]
      refine ⟨t, ?_, advanced.next one, ?_⟩
      · rw [publishEach_succ before, map_apply, last, claimed, longer, List.map_append]
        rfl
      · rw [again, signals, advanced.parks]
        split <;> rfl

/-- Beyond the greatest sequence the last of the events, if not one before it, breaks off. -/
theorem publishEach_of_overflow (writer : ε → Int → ε) (rest : r.sequencer.cursor = r.sequencer.claimed)
    (start : -1 ≤ r.sequencer.claimed) (here : Word.Fits r.sequencer.claimed)
    (exceeds : ¬ Word.Fits (r.sequencer.claimed + n))
    (released : r.sequencer.Released (r.sequencer.claimed + n)) :
    ∃ s, publishEach writer n r = .error .overflow s := by
  induction n with
  | zero => exact absurd (by rwa [Int.natCast_zero, Int.add_zero]) exceeds
  | succ n ih =>
      by_cases earlier : Word.Fits (r.sequencer.claimed + n)
      · obtain ⟨s, before, advanced, -⟩ := publishEach_of_released writer rest start earlier
          (released.mono (by omega))
        have beyond : ¬ Word.Fits (s.sequencer.claimed + 1) := by
          rw [advanced.claimed, Int.add_assoc]
          exact exceeds
        obtain ⟨t, broken⟩ := Sequencer.claimBy_of_overflow beyond
        have breaks : publishEvent writer s = .error .overflow { s with sequencer := t } :=
          bind_of_error (onSequencer_of_error broken)
        refine ⟨{ s with sequencer := t }, ?_⟩
        rw [publishEach_succ before, map_apply, breaks]
      · obtain ⟨s, broken⟩ := ih earlier (released.mono (by omega))
        exact ⟨s, bind_of_error broken⟩

theorem publishEvents_of_overflow (writer : ε → Int → ε) (one : 1 ≤ n) (most : n ≤ g.size)
    (exceeds : ¬ Word.Fits (r.sequencer.claimed + n)) :
    ∃ s, publishEvents writer n r = .error .overflow s := by
  obtain ⟨t, broken⟩ := Sequencer.claim_of_overflow one most exceeds
  have breaks : claim n r = .error .overflow { r with sequencer := t } := onSequencer_of_error broken
  exact ⟨_, bind_of_error breaks⟩

/-! ## What the two ways leave behind -/

/-- Two rings that differ at most in the cached gate and in how often consumers were woken. -/
structure Matches (r s : Ring g ε) : Prop where
  cursor : r.sequencer.cursor = s.sequencer.cursor
  ledger : r.sequencer.ledger = s.sequencer.ledger
  slots : r.slots = s.slots
  gates : r.sequencer.gates = s.sequencer.gates
  counters : r.sequencer.counters = s.sequencer.counters
  publisherTaken : r.publisherTaken = s.publisherTaken

/-- There is one ring only that is advanced by `n` events. -/
theorem Advanced.matches (first : Advanced writer n r s) (second : Advanced writer n r t) : s.Matches t := by
  refine ⟨first.cursor.trans second.cursor.symm, ?_, first.slots.trans second.slots.symm,
    first.gates.trans second.gates.symm, first.counters.trans second.counters.symm,
    first.publisherTaken.trans second.publisherTaken.symm⟩
  cases ledger : r.sequencer.ledger with
  | solo c => rw [first.solo c ledger, second.solo c ledger]
  | shared laps => rw [first.shared laps ledger, second.shared laps ledger]

theorem Matches.isPublished_eq (same : r.Matches s) (u : Int) :
    r.sequencer.isPublished u = s.sequencer.isPublished u := by
  unfold Sequencer.isPublished
  rw [same.ledger, same.cursor]

theorem Matches.remaining_eq (same : r.Matches s) : r.sequencer.remaining = s.sequencer.remaining := by
  unfold Sequencer.remaining Sequencer.claimed Sequencer.slowestGate
  rw [same.ledger, same.cursor, same.gates, same.counters]

/-- The `n` slots of a run from `lo` on are different ones; each of them was written once, and no other. -/
structure Written (writer : ε → Int → ε) (lo : Int) (n : Nat) (r s : Ring g ε) : Prop where
  distinct : ∀ u v, lo ≤ u ∧ u < lo + n → lo ≤ v ∧ v < lo + n → g.slot u = g.slot v → u = v
  changed : ∀ u, lo ≤ u ∧ u < lo + n → s.event u = writer (r.event u) u
  kept : ∀ i : Fin g.size, (∀ u, lo ≤ u → u < lo + n → g.slot u ≠ i) → s.slots.get i = r.slots.get i

theorem Advanced.written (advanced : Advanced writer n r s) (most : n ≤ g.size) :
    Written writer (r.sequencer.claimed + 1) n r s := by
  refine ⟨fun u v inU inV => Geometry.slot_injective most inU inV, fun u inside => ?_, fun i others => ?_⟩
  · have same : s.event u = (filled writer (r.sequencer.claimed + 1) n r).event u := by
      unfold event
      rw [advanced.slots]
    exact same.trans (event_filled most inside)
  · rw [advanced.slots]
    exact get_filled others

end Ring

namespace Sequencer

variable {g : Geometry} {s : Sequencer g} {n : Nat} {room : Int}

/-- As many sequences as there is room for can be claimed. -/
theorem released_of_remaining (measured : s.remaining = .ok room) (enough : n ≤ room) :
    s.Released (s.claimed + n) := by
  obtain ⟨-, more⟩ := except_checked_eq_ok measured
  obtain ⟨-, rfl⟩ := Word.checked_eq_ok_iff.mp more
  intro id gate
  have slowest : s.slowestGate s.claimed ≤ s.counters.value id := Counters.least_le_value gate
  omega

end Sequencer

namespace Production

open EventRing.Ring (publishEvents publishEach Written)

variable {g : Geometry} {ε : Type} {p : Production g ε} {kind : Producers} {parks : Bool}
  {factory : Nat → ε} {n : Nat} {room : Int}

/-- Between two operations the cursor is where the claim position is. -/
theorem Sound.cursor_of_idle (sound : p.Sound) (idle : ∀ e ∈ p.publishers, e = .free ∨ e = .gone) :
    p.sequencer.cursor = p.claimed := by
  cases kind : p.kind with
  | many => exact cursor_of_many kind
  | one =>
      refine (sound.alone kind).rest fun i b holds => ?_
      rcases idle _ (List.mem_of_getElem? holds) with free | gone
      · cases free
      · cases gone

/-- Where there is room for `n` events, publishing them together and publishing them one by one come to the
same: the same sequences up to the same highest one, the same cursor, slots, publications, room and gates.
The slots of just these sequences were written, each of them once.  Only consumers that can be parked are
woken once in the one case, and once for each event in the other.

Beyond the greatest sequence both break off. -/
theorem events_together_and_one_by_one
    (reached : Reaches step (fun _ _ => True) (fresh g kind parks factory) p)
    (idle : ∀ e ∈ p.publishers, e = .free ∨ e = .gone) (one : 1 ≤ n) (most : n ≤ g.size)
    (measured : p.sequencer.remaining = .ok room) (enough : n ≤ room) (writer : ε → Int → ε) :
    (p.claimed + n ≤ Word.greatest → ∃ together each,
      publishEvents writer n p.ring = .ok (.ok (.granted (p.claimed + n))) together ∧
      publishEach writer n p.ring =
        .ok ((sequences (p.claimed + 1) (p.claimed + n)).map .granted) each ∧
      together.Matches each ∧
      (∀ t, together.sequencer.isPublished t = each.sequencer.isPublished t) ∧
      together.sequencer.remaining = each.sequencer.remaining ∧
      Written writer (p.claimed + 1) n p.ring together ∧ Written writer (p.claimed + 1) n p.ring each ∧
      together.sequencer.signals = p.sequencer.signals + (if p.sequencer.parks then 1 else 0) ∧
      each.sequencer.signals = p.sequencer.signals + if p.sequencer.parks then n else 0) ∧
    (Word.greatest < p.claimed + n →
      (∃ r, publishEvents writer n p.ring = .error .overflow r) ∧
        ∃ r, publishEach writer n p.ring = .error .overflow r) := by
  have sound := sound_of_reaches reached
  have start := sound.start
  have rest := sound.cursor_of_idle idle
  have released := Sequencer.released_of_remaining measured enough
  constructor
  · intro below
    have fits : Word.Fits (p.claimed + n) := ⟨Int.le_trans sound.fits.1 (by omega), below⟩
    obtain ⟨together, all, batch, once⟩ :=
      Ring.publishEvents_of_released (r := p.ring) writer one most start fits released
    obtain ⟨each, single, singles, often⟩ :=
      Ring.publishEach_of_released (r := p.ring) writer rest start fits released
    have same := batch.matches singles
    exact ⟨together, each, all, single, same, same.isPublished_eq, same.remaining_eq, batch.written most,
      singles.written most, once, often⟩
  · intro beyond
    have exceeds : ¬ Word.Fits (p.claimed + n) := fun fits => Int.not_le.mpr beyond fits.2
    exact ⟨Ring.publishEvents_of_overflow (r := p.ring) writer one most exceeds,
      Ring.publishEach_of_overflow (r := p.ring) writer rest start sound.fits exceeds released⟩

/-- On a ring of four slots with three events, of which two were consumed, there is room for three more.  They
go across the physical end of the ring, together with one waking or one by one with three. -/
theorem events_together_and_one_by_one_across_the_wrap :
    ∃ (p : Production ⟨2, by decide⟩ Int) (together each : Ring ⟨2, by decide⟩ Int),
      Reaches step (fun _ _ => True) (fresh _ .many true fun _ => 0) p ∧
        (∀ e ∈ p.publishers, e = .free ∨ e = .gone) ∧ p.sequencer.remaining = .ok 3 ∧
        publishEvents (fun old t => old + t) 3 p.ring = .ok (.ok (.granted 5)) together ∧
        publishEach (fun old t => old + t) 3 p.ring = .ok [.granted 3, .granted 4, .granted 5] each ∧
        together.Matches each ∧ together.sequencer.signals = 2 ∧ each.sequencer.signals = 4 := by
  obtain ⟨p, walked, publishers, measured, claimed, parks, signals⟩ :
      ∃ p : Production ⟨2, by decide⟩ Int, walk step (fun _ _ => True) (fresh _ .many true fun _ => 0)
        [.enlist, .make (-1), .gate [0], .claim 0 3, .publish 0, .move 0 1] = some p ∧
        p.publishers = [.free] ∧ p.sequencer.remaining = .ok 3 ∧ p.claimed = 2 ∧
        p.sequencer.parks = true ∧ p.sequencer.signals = 1 := ⟨_, rfl, rfl, rfl, rfl, rfl, rfl⟩
  have reached := reaches_of_walk walked
  have idle : ∀ e ∈ p.publishers, e = .free ∨ e = .gone := by
    rw [publishers]
    intro e listed
    exact Or.inl (List.mem_singleton.mp listed)
  obtain ⟨fits, -⟩ := events_together_and_one_by_one reached idle (n := 3) (by decide) (by decide) measured
    (by decide) fun old t => old + t
  rw [claimed, parks, signals] at fits
  obtain ⟨together, each, batch, singles, same, -, -, -, -, once, often⟩ := fits (by decide)
  exact ⟨p, together, each, reached, idle, measured, batch, singles, same, once, often⟩

end Production

end EventRing
