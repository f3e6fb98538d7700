import EventRing.Proofs.Books
/-!
# EventRing.Proofs.Gating

Gates against overwriting.  A claim up to `hi` takes over the slots up to `hi` minus the size of the
ring, so none of the gates may be below that.  The gates are not read for every claim: a cached least
gate stands in for them, and it is sound as long as it is not ahead of any gate.

Reading the gates, moving them forward and taking them off all keep it so.  What is left is adding
one, which starts at the cursor.  With many producers the cache is never ahead of the cursor.  With
one producer it can be: who asks for room while a claim is open, with nothing gating, caches the claim
position, and the cursor lags behind that until the claim is published.  A gate that is added then is
overrun by the very next claim that trusts the cache.  `claims_respect_gates` shows that nothing else
goes wrong, and that this always does.
-/

namespace EventRing.Production

open Sequencer

variable {g : Geometry} {ε : Type} {p q : Production g ε} {act : Act ε}

/-! ## The condition -/

/-- Gates move forward only, and one producer adds gates only while its cached gate is not ahead of
its cursor. -/
def Orderly (p : Production g ε) : Act ε → Prop
  | .gate ids => p.kind = .one → ids = [] ∨ p.sequencer.cachedGate ≤ p.sequencer.cursor
  | .move id value => id ∈ p.sequencer.gates → p.counter id ≤ value
  | _ => True

instance (p : Production g ε) (act : Act ε) : Decidable (p.Orderly act) := by
  unfold Orderly
  split <;> infer_instance

/-! ## The cache -/

/-- The cached gate is not ahead of any gate. -/
def CacheBehind (p : Production g ε) : Prop :=
  ∀ id ∈ p.sequencer.gates, p.Made id ∧ p.sequencer.cachedGate ≤ p.counter id

/-- The cache stays behind the gates if it does not rise and no gate falls. -/
theorem CacheBehind.mono (behind : p.CacheBehind)
    (gates : ∀ id ∈ q.sequencer.gates, id ∈ p.sequencer.gates)
    (counters : ∀ id ∈ p.sequencer.gates, p.Made id → q.Made id ∧ p.counter id ≤ q.counter id)
    (cache : q.sequencer.cachedGate ≤ p.sequencer.cachedGate) : q.CacheBehind := by
  intro id gate
  obtain ⟨made, low⟩ := behind id (gates id gate)
  obtain ⟨still, forward⟩ := counters id (gates id gate) made
  exact ⟨still, Int.le_trans cache (Int.le_trans low forward)⟩

/-- Gates and counters that stay the same keep the cache behind, if it does not rise. -/
theorem CacheBehind.same (behind : p.CacheBehind) (gates : q.sequencer.gates = p.sequencer.gates)
    (counters : q.sequencer.counters = p.sequencer.counters)
    (cache : q.sequencer.cachedGate = p.sequencer.cachedGate) : q.CacheBehind := by
  unfold CacheBehind Made counter
  rw [gates, counters, cache]
  exact behind

/-- A cache that was just renewed is behind the gates. -/
theorem CacheBehind.read {default : Int} (behind : p.CacheBehind)
    (gates : q.sequencer.gates = p.sequencer.gates)
    (counters : q.sequencer.counters = p.sequencer.counters)
    (cache : q.sequencer.cachedGate = p.sequencer.slowestGate default) : q.CacheBehind := by
  unfold CacheBehind Made counter
  rw [gates, counters, cache]
  intro id gate
  exact ⟨(behind id gate).1, Counters.least_le_value gate⟩

theorem CacheBehind.admitted {before hi : Int} (behind : p.CacheBehind)
    (admitted : Admitted p.sequencer before hi q.sequencer) : q.CacheBehind := by
  rcases admitted.cache with ⟨-, -, same⟩ | ⟨-, read⟩
  · exact behind.same admitted.gates admitted.counters same
  · exact behind.read admitted.gates admitted.counters read

/-- A gate that is added starts at the cursor, so the cache must not be ahead of that. -/
theorem CacheBehind.gate {ids : List CounterId} (behind : p.CacheBehind)
    (made : ∀ id ∈ ids, p.Made id)
    (low : ids = [] ∨ p.sequencer.cachedGate ≤ p.sequencer.cursor) :
    CacheBehind (p.withSequencer (p.sequencer.gated ids)) := by
  intro id gate
  show id < (p.sequencer.counters.setAll ids p.sequencer.cursor).values.size ∧
    p.sequencer.cachedGate ≤ (p.sequencer.counters.setAll ids p.sequencer.cursor).value id
  rw [Counters.size_setAll]
  by_cases listed : id ∈ ids
  · refine ⟨made id listed, ?_⟩
    rw [Counters.value_setAll, if_pos ⟨listed, made id listed⟩]
    exact low.resolve_left (List.ne_nil_of_mem listed)
  · rw [Counters.value_setAll_of_not_mem listed]
    exact behind id ((List.mem_append.mp gate).resolve_right listed)

/-- Nothing that is orderly brings the cache ahead of a gate. -/
theorem cacheBehind_of_change (sound : p.Sound) (behind : p.CacheBehind) (orderly : p.Orderly act)
    (h : Change p act q) : q.CacheBehind := by
  cases h with
  | idle => exact behind
  | lent _ sequencer =>
      exact behind.same (congrArg _ sequencer) (congrArg _ sequencer) (congrArg _ sequencer)
  | returned _ sequencer =>
      exact behind.same (congrArg _ sequencer) (congrArg _ sequencer) (congrArg _ sequencer)
  | claimed _ _ taken => exact behind.admitted taken.admitted
  | parked _ parked => exact behind.same parked.gates parked.counters parked.cachedGate
  | declined => exact behind.read rfl rfl rfl
  | resumed _ settled => exact behind.read settled.gates settled.counters settled.cachedGate
  | wrote => exact behind
  | published _ shown => exact behind.same shown.gates shown.counters shown.cachedGate
  | asked => exact behind.read rfl rfl rfl
  | gated made =>
      -- with many producers the cursor is the claim position, which no cache is ahead of
      refine behind.gate made ?_
      cases kind : p.kind with
      | one => exact orderly kind
      | many =>
          rw [cursor_of_many kind]
          exact Or.inr sound.cache_le
  | ungated =>
      refine behind.mono ?_ (fun _ _ made => ⟨made, Int.le_refl _⟩) (Int.le_refl _)
      intro id gate
      exact (List.mem_filter.mp gate).1
  | made =>
      refine behind.mono (fun _ gate => gate) ?_ (Int.le_refl _)
      intro id _ made
      refine ⟨?_, Int.le_of_eq (Counters.value_make _ made).symm⟩
      show id < (p.sequencer.counters.make _).2.values.size
      rw [Counters.size_make]
      exact Nat.lt_succ_of_lt made
  | @moved id value made =>
      refine behind.mono (fun _ gate => gate) ?_ (Int.le_refl _)
      intro other gate there
      show other < (p.sequencer.counters.set id value).values.size ∧
        p.counter other ≤ (p.sequencer.counters.set id value).value other
      rw [Counters.size_set, Counters.value_set]
      refine ⟨there, ?_⟩
      split
      · rename_i same
        obtain ⟨rfl, -⟩ := same
        exact orderly gate
      · exact Int.le_refl _

theorem cacheBehind_of_reaches {kind : Producers} {parks : Bool} {factory : Nat → ε}
    (reached : Reaches step Orderly (fresh g kind parks factory) p) : p.CacheBehind := by
  have initially : (fresh g kind parks factory).CacheBehind := by
    intro id gate
    cases gate
  have both := reached.invariant (motive := fun p => p.Sound ∧ p.CacheBehind)
    ⟨sound_fresh g kind parks factory, initially⟩ fun ⟨sound, behind⟩ orderly made =>
      ⟨sound_of_change sound (change_of_step made),
        cacheBehind_of_change sound behind orderly (change_of_step made)⟩
  exact both.2

/-! ## Claims and gates -/

/-- What the cached gate admits, every gate has released. -/
theorem CacheBehind.released {before hi : Int} {s : Sequencer g} (behind : p.CacheBehind)
    (admitted : Admitted p.sequencer before hi s) :
    ∀ id ∈ p.sequencer.gates, hi - g.size ≤ p.counter id := by
  intro id gate
  rcases admitted.cache with ⟨ahead, -, -⟩ | ⟨released, -⟩
  · exact Int.le_trans ahead (behind id gate).2
  · exact Int.le_trans released (Counters.least_le_value gate)

/-- What a wait ends with, every gate has released. -/
theorem Sound.released {i n : Nat} {claim : Pending} {s : Sequencer g} (sound : p.Sound)
    (waits : p.publishers[i]? = some (.waiting claim n)) (settled : Settled p.sequencer claim s) :
    ∀ id ∈ p.sequencer.gates, claim.hi - g.size ≤ p.counter id := by
  intro id gate
  rw [← (sound.waits waits).wrap_eq]
  exact Int.le_trans settled.released (Counters.least_le_value gate)

/-- A claim that comes open takes over no slot that a gate has not released. -/
theorem released_of_opened {i : Nat} {b : Block} (sound : p.Sound) (behind : p.CacheBehind)
    (h : Change p act q) (closed : ¬ p.Holds i b) (opened : q.Holds i b) :
    ∀ id ∈ q.sequencer.gates, b.hi - g.size ≤ q.counter id := by
  intro id gate
  rcases opened_of_change h closed opened with
    ⟨n, -, -, taken, -⟩ | ⟨claim, n, -, waits, settled, rfl⟩
  · rw [taken.admitted.gates] at gate
    rw [counter, taken.admitted.counters]
    exact behind.released taken.admitted id gate
  · rw [settled.gates] at gate
    rw [counter, settled.counters]
    exact sound.released waits settled id gate

/-- A gate that comes in behind the cache is overrun: the open claim is published, and the next one
takes over the slot after the gate. -/
theorem overrun_of_cache_ahead {ids : List CounterId} {id : CounterId} (sound : p.Sound)
    (single : p.kind = .one) (ahead : p.sequencer.cursor < p.sequencer.cachedGate)
    (made : ∀ id ∈ ids, p.Made id) (listed : id ∈ ids)
    (room : Word.Fits (p.sequencer.cursor + 1 + g.size)) :
    ∃ i n q b, [Act.gate ids, .publish i, .tryClaim i n].foldlM step p = some q ∧ q.Holds i b ∧
      id ∈ q.sequencer.gates ∧ q.counter id < b.hi - g.size := by
  have alone := sound.alone single
  have cache_le := sound.cache_le
  have size := g.size_cast_pos
  obtain ⟨i, b, holds⟩ : ∃ i b, p.Holds i b := by
    refine Classical.byContradiction fun none => ?_
    have := alone.rest fun i b holds => none ⟨i, b, holds⟩
    omega
  obtain ⟨first, last⟩ := alone.opened holds
  obtain ⟨low, upright, -, short⟩ := sound.split.span (takes_of_some holds)
  -- the gate starts at the cursor, one below the open claim
  have gated := step_gate made
  obtain ⟨s, shown, published⟩ :=
    step_publish (p := p.withSequencer (p.sequencer.gated ids)) holds upright
  have after : s.claimed = b.hi := shown.claimed_eq.trans last
  have cache : s.cachedGate = p.sequencer.cachedGate := shown.cachedGate
  -- the next claim ends one lap above the first sequence of that claim
  obtain ⟨n, length⟩ : ∃ n : Nat, (n : Int) = g.size - (b.hi - b.lo) :=
    ⟨(g.size - (b.hi - b.lo)).toNat, by omega⟩
  have fits {t : Int} (above : -1 ≤ t) (under : t ≤ p.sequencer.cursor + 1 + g.size) :
      Word.Fits t :=
    Word.Fits.between (by decide : Word.Fits (-1)) room above under
  obtain ⟨s', ran⟩ : ∃ s', Sequencer.tryClaim n s = .ok (some (s.claimed + n)) s' := by
    refine tryClaim_of_admitted (by omega) (by omega) (fits ?_ ?_) (fits ?_ ?_)
      (Or.inl ⟨by omega, by omega⟩)
    all_goals omega
  have admitted := (tryClaim_some ran).admitted
  obtain ⟨inside, -⟩ := List.getElem?_eq_some_iff.mp holds
  have claimed := step_tryClaim (i := i) (p := { (p.withSequencer s).engaged i .free with
      history := b :: p.history }) (List.getElem?_set_self inside) ran
    (fits (by omega) (by omega)) (fits (by omega) (by omega))
  have run := (foldlM_step gated).trans ((foldlM_step published).trans (foldlM_last claimed))
  refine ⟨i, n, _, blockTo (s.claimed + n) n, run, ?_, ?_, ?_⟩
  · exact List.getElem?_set_self (by simpa [engaged, withSequencer] using inside)
  · show id ∈ s'.gates
    rw [admitted.gates, shown.gates]
    exact List.mem_append_right _ listed
  · show s'.counters.value id < s.claimed + n - g.size
    rw [admitted.counters, shown.counters]
    have start : (p.sequencer.gated ids).counters.value id = p.sequencer.cursor := by
      show (p.sequencer.counters.setAll ids p.sequencer.cursor).value id = _
      rw [Counters.value_setAll, if_pos ⟨listed, made id listed⟩]
    show (p.sequencer.gated ids).counters.value id < _
    omega

/-- Wherever an orderly run leads, a claim that comes open takes over no slot that a gate has not
released.  And the condition on a run is exact: a gate added against it is overrun, unless sequences
run out first. -/
theorem claims_respect_gates {kind : Producers} {parks : Bool} {factory : Nat → ε}
    (reached : Reaches step Orderly (fresh g kind parks factory) p) :
    (∀ {act q i b}, p.step act = some q → ¬ p.Holds i b → q.Holds i b →
      ∀ id ∈ q.sequencer.gates, b.hi - g.size ≤ q.counter id) ∧
    ∀ {ids id}, (∀ id ∈ ids, p.Made id) → id ∈ ids → ¬ p.Orderly (.gate ids) →
      Word.Fits (p.sequencer.cursor + 1 + g.size) →
      ∃ i n q b, [Act.gate ids, .publish i, .tryClaim i n].foldlM step p = some q ∧
        q.Holds i b ∧ id ∈ q.sequencer.gates ∧ q.counter id < b.hi - g.size := by
  have sound := sound_of_reaches reached
  refine ⟨?_, ?_⟩
  · intro act q i b made closed opened
    exact released_of_opened sound (cacheBehind_of_reaches reached) (change_of_step made) closed
      opened
  · intro ids id made listed disorderly room
    have late : p.kind = .one ∧ p.sequencer.cursor < p.sequencer.cachedGate := by
      refine ⟨Classical.byContradiction fun many => ?_, Classical.byContradiction fun behind => ?_⟩
      · exact disorderly fun single => absurd single many
      · exact disorderly fun _ => Or.inr (Int.not_lt.mp behind)
    exact overrun_of_cache_ahead sound late.1 late.2 made listed room

/-- A ring of two slots behind a gate: a claim that the gate held back comes open once the gate has moved,
and takes over no more than that.  With both slots claimed, after somebody asked for room, claims respect
the gates there are, and a gate that comes in now is overrun. -/
theorem claims_respect_gates_size_two :
    (∃ p q : Production ⟨1, by decide⟩ Unit,
      Reaches step Orderly (fresh ⟨1, by decide⟩ .one false fun _ => ()) p ∧
      p.step (.tryClaim 0 1) = some q ∧ ¬ p.Holds 0 ⟨2, 2⟩ ∧ q.Holds 0 ⟨2, 2⟩ ∧
      0 ∈ q.sequencer.gates ∧ 2 - 2 ≤ q.counter 0) ∧
    ∃ p : Production ⟨1, by decide⟩ Unit,
      Reaches step Orderly (fresh ⟨1, by decide⟩ .one false fun _ => ()) p ∧
      (∀ {act q i b}, p.step act = some q → ¬ p.Holds i b → q.Holds i b →
        ∀ id ∈ q.sequencer.gates, b.hi - 2 ≤ q.counter id) ∧
      ∃ i n q b, [Act.gate [0], .publish i, .tryClaim i n].foldlM step p = some q ∧
        q.Holds i b ∧ 0 ∈ q.sequencer.gates ∧ q.counter 0 < b.hi - 2 := by
  constructor
  · have walked : ∃ p q : Production ⟨1, by decide⟩ Unit,
        walk step Orderly (fresh ⟨1, by decide⟩ .one false fun _ => ())
          [.enlist, .make (-1), .gate [0], .claim 0 2, .publish 0, .tryClaim 0 1, .move 0 0] = some p ∧
        p.step (.tryClaim 0 1) = some q ∧ p.publishers[0]? = some .free ∧ q.Holds 0 ⟨2, 2⟩ ∧
        q.sequencer.gates = [0] :=
      ⟨_, _, rfl, rfl, rfl, rfl, rfl⟩
    obtain ⟨p, q, walked, made, free, opened, gates⟩ := walked
    have reached := reaches_of_walk walked
    have closed : ¬ p.Holds 0 ⟨2, 2⟩ := fun holds => nomatch free.symm.trans holds
    have gate : 0 ∈ q.sequencer.gates := gates ▸ List.mem_singleton_self 0
    exact ⟨p, q, reached, made, closed, opened, gate,
      (claims_respect_gates reached).1 made closed opened 0 gate⟩
  · have walked : ∃ p : Production ⟨1, by decide⟩ Unit,
        walk step Orderly (fresh ⟨1, by decide⟩ .one false fun _ => ())
          [.enlist, .make (-1), .claim 0 2, .ask 1] = some p ∧
        p.Made 0 ∧ ¬ p.Orderly (.gate [0]) ∧ p.sequencer.cursor = -1 :=
      ⟨_, rfl, by decide, by decide, rfl⟩
    obtain ⟨p, walked, made, late, cursor⟩ := walked
    have reached := reaches_of_walk walked
    refine ⟨p, reached, (claims_respect_gates reached).1, ?_⟩
    refine (claims_respect_gates reached).2 ?_ (List.mem_singleton_self 0) late ?_
    · intro id listed
      rw [List.mem_singleton.mp listed]
      exact made
    · rw [cursor]
      decide

/-- Without the condition a claim takes over a slot in front of a gate. -/
theorem late_gate_overrun :
    ∃ q : Production ⟨1, by decide⟩ Unit,
      [.enlist, .make (-1), .claim 0 2, .ask 1, .gate [0], .publish 0, .tryClaim 0 1].foldlM step
        (fresh ⟨1, by decide⟩ .one false fun _ => ()) = some q ∧
      q.Holds 0 ⟨2, 2⟩ ∧ 0 ∈ q.sequencer.gates ∧ q.counter 0 < 2 - 2 :=
  ⟨_, rfl, rfl, by decide, by decide⟩

end EventRing.Production
