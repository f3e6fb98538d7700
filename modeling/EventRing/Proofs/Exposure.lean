import EventRing.Proofs.Wiring
/-!
# EventRing.Proofs.Exposure

What a barrier exposes.  Behind the cursor of many producers a barrier looks for holes; behind
consumers it does not, since consumers move past published events only.  So everything hangs on their
counters being complete, and every consumer keeps its own so (`Consumer.within_of_step`).

There is one other hand that writes them: a counter that is let hold producers back is put at the
cursor.  With one producer the cursor is complete.  With many it is the claim position, and if
anything is open then the counter skips over it, and so does every barrier behind that consumer.
`barriers_expose_published` shows that this is the only way an unpublished event is exposed while the
laps in the slots tell the claimed sequences apart; and after that the first sequence is taken for
published because the last one of its slot is.
-/

namespace EventRing

variable {g : Geometry} {ε : Type}

namespace Pipeline

open Production (Complete Few lower_complete complete_cursor complete_claimed)

variable {p q : Pipeline g ε} {act : Act ε} {c : Consumer g ε}

/-! ## The condition -/

/-- Nobody else moves the counters of consumers, and none of them is let hold many producers back while
anything is open. -/
def Tidy (p : Pipeline g ε) : Act ε → Prop
  | .produce (.gate ids) =>
    p.floor.kind = .many → (∃ id ∈ ids, p.Owned id) → p.floor.taken = []
  | .produce (.move id _) => ¬ p.Owned id
  | _ => True

instance (p : Pipeline g ε) : (act : Act ε) → Decidable (p.Tidy act)
  | .produce (.gate _) => inferInstanceAs (Decidable (_ → _ → _))
  | .produce (.move _ _) => inferInstanceAs (Decidable (¬ _))
  | .produce .enlist | .produce (.dismiss _) | .produce (.claim _ _) | .produce (.tryClaim _ _)
  | .produce (.retry _) | .produce (.write _ _ _) | .produce (.publish _) | .produce (.ask _)
  | .produce .measure | .produce (.ungate _) | .produce (.make _) | .hirePoller _ | .hireWorker _ _ _ _
  | .consume _ _ => isTrue trivial

/-! ## Consumers and what is published -/

/-- Consumers are at complete positions, and nothing that they have in hand is beyond one. -/
structure Truthful (p : Pipeline g ε) : Prop where
  complete : ∀ c ∈ p.consumers, p.floor.Complete (p.floor.counter c.counter)
  within : ∀ c ∈ p.consumers, c.Within p.floor.Complete p.floor.claimed

/-- Consumers stay truthful, if what is done is tidy. -/
theorem truthful_of_change (truthful : p.Truthful) (sound : p.floor.Sound) (wired : p.Wired)
    (few : p.floor.Few) (tidy : p.Tidy act) (h : Change p act q) : q.Truthful := by
  obtain ⟨a, change⟩ := floor_of_change h
  have later {v} (complete : p.floor.Complete v) : q.floor.Complete v :=
    complete.mono (Production.published_of_change change)
  have after : q.Everywhere q.floor.Complete q.floor.claimed := by
    refine everywhere_of_change ⟨truthful.complete, truthful.within⟩ wired lower_complete.convex
      (fun c listed => wired.sees sound (Production.tells_of_few sound few) truthful.complete listed)
      later (Production.claimed_le_of_change sound change) Production.complete_start ?_ ?_ h
    · rintro ids rfl c listed gated
      apply later
      -- a gate is put at the cursor, which with many producers is what was claimed
      cases kind : p.floor.kind with
      | one => exact complete_cursor sound kind
      | many =>
          rw [Production.cursor_of_many kind]
          exact complete_claimed sound (tidy kind ⟨c.counter, gated, c, listed, rfl⟩)
    · rintro id v rfl
      exact tidy
  exact ⟨after.counters, after.within⟩

/-! ## Runs -/

/-- What every tidy run keeps. -/
structure Kept (p : Pipeline g ε) : Prop where
  sound : p.floor.Sound
  wired : p.Wired
  truthful : p.floor.Few → p.Truthful

theorem kept_fresh (g : Geometry) (kind : Producers) (parks : Bool) (factory : Nat → ε) :
    (fresh g kind parks factory).Kept := by
  refine ⟨Production.sound_fresh g kind parks factory, wired_fresh g kind parks factory, fun _ => ?_⟩
  exact ⟨fun c none => (nomatch none), fun c none => (nomatch none)⟩

theorem kept_of_reaches (kept : p.Kept) (reached : Reaches step Tidy p q) : q.Kept ∧ Later p q := by
  refine reached.invariant (motive := fun q => q.Kept ∧ Later p q) ⟨kept, Later.refl p⟩ ?_
  rintro r act r' ⟨kept, later⟩ tidy made
  have h := change_of_step made
  have onwards := later_of_change kept.sound h
  obtain ⟨a, change⟩ := floor_of_change h
  refine ⟨⟨Production.sound_of_change kept.sound change, wired_of_change kept.wired h, fun few => ?_⟩,
    later.trans onwards⟩
  have before := onwards.few few
  exact truthful_of_change (kept.truthful before) kept.sound kept.wired before tidy h

end Pipeline

/-! ## What a wait answers -/

/-- A wait for `next` at a barrier ends with an outcome, either at once or at a later look. -/
def Barrier.Ends (b : Barrier) (s : Sequencer g) (next : Int) (outcome : Wait.Outcome) : Prop :=
  (∃ side, b.enter side next s = .inr outcome) ∨
    ∃ (phase : Wait.Phase) (sight : Wait.Observation), sight.value = b.value s ∧
      phase.step next sight = .inr outcome

/-- A wait ends with what is in front at that moment, and it is enough. -/
theorem Barrier.Ends.available {b : Barrier} {s : Sequencer g} {next a : Int}
    (ends : b.Ends s next (.available a)) : next ≤ a ∧ a = b.value s := by
  rcases ends with ⟨side, entered⟩ | ⟨phase, sight, value, looked⟩
  · exact Barrier.enter_eq_available entered
  · rw [← value]
    exact Wait.Phase.step_eq_available looked

namespace Pipeline

open Production (Complete Few lower_complete)

variable {p q r : Pipeline g ε} {b : Barrier} {next a v : Int}

/-- What a barrier answers is not below the sequence before the one that was asked for. -/
theorem le_of_cut {s : Sequencer g} (enough : next ≤ a)
    (cut : b.published s next (.available a) = .ok (.available v)) : next - 1 ≤ v := by
  obtain ⟨_, same, scanned⟩ := Barrier.published_eq_available cut
  cases same
  unfold Barrier.highestPublished at scanned
  split at scanned
  · cases ledger : s.ledger with
    | solo c =>
        cases (Sequencer.highestPublished_solo ledger).symm.trans scanned
        omega
    | shared laps =>
        have := (Sequencer.highestPublished_shared ledger scanned).2.1
        omega
  · cases scanned
    omega

/-- What a barrier answers from a complete position on is complete. -/
theorem complete_of_answer (keptP : p.Kept) (keptQ : q.Kept) (later : Later p q) (few : q.floor.Few)
    (suits : b.Suits p.floor.kind) (front : ∀ id ∈ b.front, p.Owned id)
    (before : p.floor.Complete (next - 1)) (ends : b.Ends p.floor.sequencer next (.available a))
    (cut : b.published q.floor.sequencer next (.available a) = .ok (.available v))
    (enough : next ≤ v) : q.floor.Complete v := by
  obtain ⟨-, rfl⟩ := ends.available
  have counters : ∀ id ∈ b.front, p.floor.Complete (p.floor.counter id) := by
    intro id inFront
    obtain ⟨c, listed, rfl⟩ := front id inFront
    exact (keptP.truthful (later.few few)).complete c listed
  have found : b.Finds q.floor.Complete q.floor.claimed (b.value p.floor.sequencer) :=
    (suits.finds keptP.sound counters).mono later.complete later.claimed
  obtain ⟨_, same, scanned⟩ := Barrier.published_eq_available cut
  cases same
  rw [← later.kind] at suits
  exact suits.cuts (Production.tells_of_few keptQ.sound few) (later.complete before) found scanned
    enough

/-- A worker is told at its barrier that it may go on past something unpublished. -/
def Exposes (p : Pipeline g ε) : Prop :=
  ∃ c ∈ p.consumers, ∃ w, c.role = .worker w ∧ ∃ a v t,
    w.barrier.Ends p.floor.sequencer (p.floor.counter c.counter + 1) (.available a) ∧
    w.barrier.published p.floor.sequencer (p.floor.counter c.counter + 1) (.available a) =
      .ok (.available v) ∧
    p.floor.counter c.counter + 1 ≤ t ∧ t ≤ v ∧ ¬ p.floor.Published t

/-- A counter beyond something unpublished exposes it at a new barrier behind it. -/
theorem exposes_behind {id : CounterId} {t : Int} (made : p.floor.Made id) (owned : p.Owned id)
    (low : 0 ≤ t) (below : t ≤ p.floor.counter id) (hidden : ¬ p.floor.Published t) :
    ∃ q, p.step (.hireWorker .event none .spinning [id]) = some q ∧ q.Exposes := by
  have inFront : ∀ other ∈ [id], p.Owned other := by
    intro other listed
    rwa [List.mem_singleton.mp listed]
  -- the new consumer begins before sequence 0, and its barrier lets it pass the other counter
  have start : (p.floor.sequencer.counters.make Counter.initial).2.value
      p.floor.sequencer.counters.values.size + 1 = 0 := by
    rw [Counters.value_make_self]
    rfl
  have passed : (p.floor.sequencer.counters.make Counter.initial).2.value id = p.floor.counter id :=
    Counters.value_make _ made
  refine ⟨_, step_hireWorker inFront .event none .spinning, _,
    List.mem_append_right _ (List.mem_singleton_self _), _, rfl, _, _, t,
    Or.inl ⟨.thread, Barrier.enter_of_le rfl ?_ .thread⟩, Barrier.published_of_scans ?_, ?_, ?_, hidden⟩
  · apply Int.le_trans (Int.le_of_eq start)
    apply Int.le_trans (Int.le_trans low below)
    exact Int.le_of_eq passed.symm
  · simp [Barrier.make]
  · exact Int.le_trans (Int.le_of_eq start) low
  · exact Int.le_trans below (Int.le_of_eq passed.symm)

/-- A counter that skips what is open exposes it at a barrier behind it. -/
theorem exposes_of_untidy_gate {ids : List CounterId} (sound : p.floor.Sound)
    (made : ∀ id ∈ ids, p.floor.Made id) (untidy : ¬ p.Tidy (.produce (.gate ids))) :
    ∃ id q, [.produce (.gate ids), .hireWorker .event none .spinning [id]].foldlM step p = some q ∧
      q.Exposes := by
  obtain ⟨many, rest⟩ := Classical.not_imp.mp untidy
  obtain ⟨⟨id, listed, owned⟩, opened⟩ := Classical.not_imp.mp rest
  obtain ⟨b, taken⟩ := List.exists_mem_of_ne_nil _ opened
  obtain ⟨i, took⟩ := Production.mem_taken_iff.mp taken
  obtain ⟨low, upright, below, -⟩ := sound.split.span took
  have gated := step_produce (Production.step_gate made)
  have skipped : (p.floor.sequencer.counters.setAll ids p.floor.sequencer.cursor).value id =
      p.floor.claimed := by
    rw [Counters.value_setAll, if_pos ⟨listed, made id listed⟩]
    exact Production.cursor_of_many many
  have there : id < (p.floor.sequencer.counters.setAll ids
      p.floor.sequencer.cursor).values.size := by
    rw [Counters.size_setAll]
    exact made id listed
  obtain ⟨q, hired, exposes⟩ := exposes_behind
    (p := { p with floor := p.floor.withSequencer (p.floor.sequencer.gated ids) }) there owned low
    (Int.le_trans (Int.le_trans upright below) (Int.le_of_eq skipped.symm))
    fun shown => sound.split.once took shown ⟨Int.le_refl _, upright⟩
  exact ⟨id, q, (foldlM_step gated).trans (foldlM_last hired), exposes⟩

end Pipeline

/-! ## When the laps repeat -/

namespace Production

open Sequencer

variable {p q : Production g ε} {i n : Nat} {laps : Vector Int32 g.size}

/-- Nothing holds back a claim on a ring for many producers without gates. -/
theorem step_tryClaim_ungated (ledger : p.sequencer.ledger = .shared laps)
    (ungated : p.sequencer.gates = []) (free : p.publishers[i]? = some .free) (one : 1 ≤ n)
    (most : n ≤ g.size) (start : -1 ≤ p.claimed) (fits : Word.Fits (p.claimed + n)) :
    ∃ s, p.step (.tryClaim i n) = some ((p.withSequencer s).engaged i
        (.holding ⟨p.claimed + 1, p.claimed + n⟩)) ∧
      s.ledger = .shared laps ∧ s.gates = [] ∧ s.counters = p.sequencer.counters ∧
      s.claimed = p.claimed + n := by
  have size := g.size_le
  have between {t : Int} (above : -1 - g.size ≤ t) (below : t ≤ p.claimed + n) : Word.Fits t := by
    simp only [Word.Fits, Word.least, Word.greatest] at fits ⊢
    omega
  obtain ⟨s, ran⟩ : ∃ s, Sequencer.tryClaim n p.sequencer = .ok (some (p.claimed + n)) s := by
    refine tryClaim_of_admitted one most fits (between ?_ ?_) (Or.inr ?_)
    · show -1 - g.size ≤ p.claimed + n - g.size
      omega
    · show p.claimed + n - g.size ≤ p.claimed + n
      omega
    · unfold slowestGate
      rw [ungated, Counters.least_nil]
      show p.claimed + n - g.size ≤ p.claimed
      omega
  have taken := tryClaim_some ran
  have made := step_tryClaim free ran (between (by omega) (by omega)) (between (by omega) (by omega))
  rw [blockTo_next] at made
  exact ⟨s, made, (taken.moved.shared laps ledger).1, taken.admitted.gates.trans ungated,
    taken.admitted.counters, taken.moved.claimed_eq⟩

/-- Sequence 0 is open, and the slots behind it were used `k` times around. -/
structure Lapped (k : Nat) (counters : Counters) (p : Production g ε) : Prop where
  ledger : ∃ laps, p.sequencer.ledger = .shared laps ∧
    (0 < k → laps.get (g.slot 0) = g.lap (k * g.size))
  ungated : p.sequencer.gates = []
  counters : p.sequencer.counters = counters
  claimed : p.claimed = k * g.size
  publishers : p.publishers = [.holding ⟨0, 0⟩, .free]

/-- The other publisher goes around once more. -/
theorem Lapped.next {k : Nat} {counters : Counters} (lapped : p.Lapped k counters)
    (fits : Word.Fits ((k + 1 : Nat) * g.size)) :
    ∃ q r, p.step (.tryClaim 1 g.size) = some q ∧ q.step (.publish 1) = some r ∧
      r.Lapped (k + 1) counters := by
  obtain ⟨⟨laps, ledger, -⟩, ungated, same, claimed, publishers⟩ := lapped
  have size := g.size_cast_pos
  have around : p.claimed + g.size = (k + 1 : Nat) * g.size := by
    rw [claimed, Int.natCast_add, Int.add_mul]
    simp
  have positive : 0 ≤ p.claimed := by
    rw [claimed]
    exact Int.mul_nonneg (Int.natCast_nonneg k) (Int.natCast_nonneg g.size)
  obtain ⟨s, taken, ledger', ungated', same', claimed'⟩ := step_tryClaim_ungated (i := 1) ledger
    ungated (by rw [publishers]; rfl) g.size_pos (Nat.le_refl _) (by omega) (by rwa [around])
  obtain ⟨s', shown, published⟩ := step_publish (i := 1) (p := (p.withSequencer s).engaged 1
    (.holding ⟨p.claimed + 1, p.claimed + g.size⟩))
    (by show (p.publishers.set 1 _)[1]? = _; rw [publishers]; rfl)
    (by show p.claimed + 1 ≤ p.claimed + g.size; omega)
  refine ⟨_, _, taken, published, ⟨_, (shown.shared laps ledger').1, fun _ => ?_⟩,
    shown.gates.trans ungated', shown.counters.trans (same'.trans same), ?_, ?_⟩
  · -- the last sequence of the run is the only one of it in the slot of sequence 0
    have last : g.slot ((k + 1 : Nat) * g.size) = g.slot 0 :=
      Geometry.slot_eq_iff_dvd.mpr ⟨(k + 1 : Nat), by rw [Int.sub_zero, Int.mul_comm]⟩
    have length : (runLength (p.claimed + 1) (p.claimed + g.size) : Int) = g.size := by
      unfold runLength
      omega
    rcases get_markRun laps (p.claimed + 1) 0 (runLength (p.claimed + 1) (p.claimed + g.size)) with
      ⟨-, others⟩ | ⟨u, above, below, slot, lap⟩
    · exact absurd last (others _ (by omega) (by omega))
    · obtain rfl : u = (k + 1 : Nat) * g.size := by
        refine Classical.byContradiction fun other => ?_
        exact Geometry.slot_ne_of_near (by omega) (by omega) (slot.trans last.symm)
      exact lap
  · show s'.claimed = _
    rw [shown.claimed_eq]
    exact claimed'.trans around
  · simp [engaged, withSequencer, publishers]

/-- An act of a publisher. -/
def Publishes (_ : Production g ε) : Act ε → Prop
  | .enlist | .tryClaim .. | .publish _ => True
  | _ => False

/-- One publisher takes sequence 0 and keeps it, another one goes around as often as there are
sequences. -/
theorem exists_lapped (ledger : p.sequencer.ledger = .shared laps)
    (ungated : p.sequencer.gates = []) (nobody : p.publishers = []) (start : p.claimed = -1) {k : Nat}
    (fits : Word.Fits (k * g.size)) :
    ∃ q, Reaches step Publishes p q ∧ q.Lapped k p.sequencer.counters := by
  induction k with
  | zero =>
      -- two publishers come in, and the first takes sequence 0
      have many : p.kind = .many := producers_shared ledger
      obtain ⟨s, taken, ledger', ungated', same, claimed⟩ := step_tryClaim_ungated
        (p := { p with publishers := [.free, .free] }) (i := 0) (n := 1) ledger ungated rfl
        (Nat.le_refl 1) g.size_pos (Int.le_of_eq start.symm) (by
          show Word.Fits (p.claimed + 1)
          rw [start]
          decide)
      have enlisted : p.step .enlist = some { p with publishers := [.free] } := by
        rw [step_enlist many, nobody]
        rfl
      have again : step { p with publishers := [.free] } .enlist =
        some { p with publishers := [.free, .free] } := step_enlist many
      refine ⟨_, ((Reaches.start.next enlisted trivial).next again trivial).next taken trivial,
        ⟨laps, ledger', fun none => absurd none (Nat.lt_irrefl 0)⟩, ungated', same, ?_, ?_⟩
      · show s.claimed = _
        rw [claimed]
        show p.claimed + 1 = _
        rw [start]
        simp
      · show [Engagement.holding ⟨p.claimed + 1, p.claimed + 1⟩, .free] = _
        rw [start]
        rfl
  | succ k ih =>
      -- the second one takes a whole ring and publishes it
      have size := g.size_cast_pos
      have fewer : Word.Fits (k * g.size) := by
        refine Word.Fits.between (by decide : Word.Fits 0) fits ?_ ?_
        · exact Int.mul_nonneg (Int.natCast_nonneg k) (Int.natCast_nonneg g.size)
        · exact Int.mul_le_mul_of_nonneg_right (by omega) (Int.natCast_nonneg g.size)
      obtain ⟨q, reached, lapped⟩ := ih fewer
      obtain ⟨r, s, claimed, published, next⟩ := lapped.next fits
      exact ⟨s, (reached.next claimed trivial).next published trivial, next⟩

/-- After 2^32 laps the mark of sequence 0 is back, though it is still open. -/
theorem Lapped.marked {counters : Counters} (lapped : p.Lapped (2 ^ 32) counters)
    (fits : Word.Fits p.claimed) :
    ∃ laps, p.sequencer.ledger = .shared laps ∧ isMarked laps 0 = true := by
  obtain ⟨⟨laps, ledger, around⟩, -, -, claimed, -⟩ := lapped
  have size := g.size_cast_pos
  have zero : g.lap 0 = 0 := by
    rw [Geometry.lap_eq (by decide), Int.zero_ediv]
    rfl
  have full : g.lap ((2 ^ 32 : Nat) * g.size) = 0 := by
    rw [Geometry.lap_eq (by rwa [← claimed]), Int.mul_ediv_cancel _ (Int.ne_of_gt size)]
    rfl
  refine ⟨laps, ledger, ?_⟩
  unfold isMarked
  rw [around (by decide), zero, full]
  rfl

end Production

namespace Pipeline

variable {p q : Pipeline g ε}

/-- What producers do is a run of the pipeline, as long as it is tidy. -/
theorem reaches_of_floor {some : Production g ε → Production.Act ε → Prop}
    {floor : Production g ε} (reached : Reaches Production.step some p.floor floor)
    (tidy : ∀ {floor a}, some floor a → Tidy { p with floor := floor } (.produce a)) :
    Reaches step Tidy p { p with floor := floor } := by
  induction reached with
  | start => exact Reaches.start
  | step _ allows made ih => exact ih.step (tidy allows) (step_produce made)

/-- Once the laps repeat, sequence 0 is exposed while it is open. -/
theorem exposes_of_laps (g : Geometry) (parks : Bool) (factory : Nat → ε)
    (fits : Word.Fits (2 ^ 32 * g.size)) :
    ∃ q, Reaches step Tidy (fresh g .many parks factory) q ∧
      q.floor.claimed = 2 ^ 32 * g.size ∧ q.Exposes := by
  have inFront : ∀ id ∈ ([] : List CounterId), (fresh g .many parks factory).Owned id :=
    fun id none => (nomatch none)
  have hired := step_hireWorker inFront .event none .spinning
  obtain ⟨floor, around, lapped⟩ := Production.exists_lapped
    (p := (Production.fresh g .many parks factory).withCounters ⟨#[Counter.initial]⟩)
    (k := 2 ^ 32) rfl rfl rfl rfl fits
  have begun : Reaches step Tidy (fresh g .many parks factory) _ := Reaches.start.next hired trivial
  have reached := begun.trans (reaches_of_floor around fun {_ a} publishes => by
    cases a <;> trivial)
  refine ⟨_, reached, lapped.claimed, ?_⟩
  have kept := (kept_of_reaches (kept_fresh g .many parks factory) reached).1
  have fitsClaimed : Word.Fits floor.claimed := by
    rw [lapped.claimed]
    exact fits
  obtain ⟨laps, ledger, marked⟩ := lapped.marked fitsClaimed
  have start : floor.counter 0 + 1 = 0 := by
    show floor.sequencer.counters.value 0 + 1 = 0
    rw [lapped.counters]
    rfl
  have cursor : floor.sequencer.cursor = floor.claimed :=
    Production.cursor_of_many (Sequencer.producers_shared ledger)
  have positive : 0 ≤ floor.sequencer.cursor := by
    rw [cursor, lapped.claimed]
    exact Int.mul_nonneg (Int.natCast_nonneg _) (Int.natCast_nonneg _)
  obtain ⟨v, scanned⟩ := Sequencer.exists_highestPublished floor.sequencer
    (by decide : Word.Fits (0 - 1)) (by rwa [cursor] : Word.Fits floor.sequencer.cursor)
  -- the scan does not stop at sequence 0, since that is marked
  obtain ⟨-, low, -, stopped⟩ := Sequencer.highestPublished_shared ledger scanned
  have beyond : 0 ≤ v := by
    refine Int.not_lt.mp fun before => ?_
    have first : v + 1 = 0 := by omega
    have unmarked := stopped (by omega)
    rw [first, marked] at unmarked
    cases unmarked
  refine ⟨_, List.mem_append_right _ (List.mem_singleton_self _), _, rfl, floor.sequencer.cursor, v, 0,
    Or.inl ⟨.thread, Barrier.enter_of_le rfl ?_ .thread⟩, Barrier.published_of_scanned rfl ?_,
    Int.le_of_eq start, beyond, ?_⟩
  · exact Int.le_trans (Int.le_of_eq start) positive
  · show floor.sequencer.highestPublished (floor.counter 0 + 1) _ = _
    rw [start]
    exact scanned
  · intro shown
    have opened : floor.Holds 0 ⟨0, 0⟩ := by
      unfold Production.Holds
      rw [lapped.publishers]
      rfl
    exact kept.sound.split.once (Production.takes_of_holds opened) shown (by decide)

/-! ## Barriers -/

/-- Wherever a tidy run leads, what a barrier answers to a consumer is published.  And the conditions
are exact: a counter let hold producers back against them exposes something unpublished, and so does
the first claim after the laps have come around. -/
theorem barriers_expose_published {kind : Producers} {parks : Bool} {factory : Nat → ε}
    (reached : Reaches step Tidy (fresh g kind parks factory) p) :
    (∀ {q r : Pipeline g ε} {c : Consumer g ε} {b : Barrier} {a v : Int}, c ∈ p.consumers →
      Reaches step Tidy p q → Reaches step Tidy q r → r.floor.Few → b.Suits kind →
      (∀ id ∈ b.front, q.Owned id) →
      b.Ends q.floor.sequencer (p.floor.counter c.counter + 1) (.available a) →
      b.published r.floor.sequencer (p.floor.counter c.counter + 1) (.available a) =
        .ok (.available v) →
      p.floor.counter c.counter ≤ v ∧ ∀ t, p.floor.counter c.counter < t → t ≤ v →
        r.floor.Published t ∧ ∀ i block, r.floor.Holds i block → t ∉ block) ∧
    (∀ {ids}, (∀ id ∈ ids, p.floor.Made id) → ¬ p.Tidy (.produce (.gate ids)) →
      ∃ id q, [.produce (.gate ids), .hireWorker .event none .spinning [id]].foldlM step p = some q ∧
        q.Exposes) ∧
    (Word.Fits (2 ^ 32 * g.size) → ∃ q, Reaches step Tidy (fresh g .many parks factory) q ∧
      q.floor.claimed = 2 ^ 32 * g.size ∧ q.Exposes) := by
  obtain ⟨kept, later⟩ := kept_of_reaches (kept_fresh g kind parks factory) reached
  have ofKind : p.floor.kind = kind := later.kind.trans (Production.kind_fresh g kind parks factory)
  refine ⟨?_, fun made untidy => exposes_of_untidy_gate kept.sound made untidy,
    exposes_of_laps g parks factory⟩
  intro q r c b a v listed toQ toR few suits front ends cut
  obtain ⟨keptQ, laterQ⟩ := kept_of_reaches kept toQ
  obtain ⟨keptR, laterR⟩ := kept_of_reaches keptQ toR
  have above := le_of_cut ends.available.1 cut
  refine ⟨by omega, fun t more less => ?_⟩
  have before : q.floor.Complete (p.floor.counter c.counter + 1 - 1) := by
    rw [Int.add_sub_cancel]
    exact laterQ.complete ((kept.truthful (laterQ.few (laterR.few few))).complete c listed)
  have complete : r.floor.Complete v := by
    refine complete_of_answer keptQ keptR laterR few ?_ front before ends cut (by omega)
    rwa [laterQ.kind, ofKind]
  have start := before.1
  have shown := complete.2 t (by omega) less
  exact ⟨shown, fun i block holds => keptR.sound.split.once (Production.takes_of_holds holds) shown⟩

/-- A ring of one slot for many producers, with a poller and an open claim: what is published later is
answered, a gate on the poller now exposes the open claim, and so do 2^32 laps. -/
theorem barriers_expose_published_size_one :
    ∃ p q : Pipeline ⟨0, by decide⟩ Unit,
      Reaches step Tidy (fresh ⟨0, by decide⟩ .many false fun _ => ()) p ∧ ¬ p.floor.Published 0 ∧
      Reaches step Tidy p q ∧ q.floor.Published 0 ∧
      (∃ id r, [.produce (.gate [0]), .hireWorker .event none .spinning [id]].foldlM step p =
        some r ∧ r.Exposes) ∧
      ∃ r : Pipeline ⟨0, by decide⟩ Unit,
        Reaches step Tidy (fresh ⟨0, by decide⟩ .many false fun _ => ()) r ∧
        r.floor.claimed = 2 ^ 32 * ((⟨0, by decide⟩ : Geometry).size : Int) ∧ r.Exposes := by
  have walked : ∃ p q : Pipeline ⟨0, by decide⟩ Unit,
      walk step Tidy (fresh ⟨0, by decide⟩ .many false fun _ => ())
        [.hirePoller [], .produce .enlist, .produce (.claim 0 1)] = some p ∧
      walk step Tidy p [.produce (.publish 0)] = some q ∧
      p.consumers = [{ counter := 0, role := .poller [] .resting }] ∧ p.floor.counter 0 = -1 ∧
      p.floor.kind = .many ∧ p.floor.Made 0 ∧ ¬ p.Tidy (.produce (.gate [0])) ∧ p.floor.history = [] ∧
      (Barrier.make p.floor.sequencer .spinning []).Ends q.floor.sequencer 0 (.available 0) ∧
      (Barrier.make p.floor.sequencer .spinning []).published q.floor.sequencer 0 (.available 0) =
        .ok (.available 0) ∧ q.floor.claimed = 0 :=
    ⟨_, _, rfl, rfl, rfl, rfl, rfl, by decide, by decide, rfl, Or.inl ⟨.thread, rfl⟩, rfl, rfl⟩
  obtain ⟨p, q, toP, toQ, consumers, position, many, made, untidy, history, ends, cut, claimed⟩ :=
    walked
  have reached := reaches_of_walk toP
  obtain ⟨answers, gates, laps⟩ := barriers_expose_published reached
  refine ⟨p, q, reached, ?_, reaches_of_walk toQ, ?_, gates ?_ untidy, laps (by decide)⟩
  · rintro ⟨b, past, -⟩
    rw [history] at past
    cases past
  · have listed : { counter := 0, role := .poller [] .resting } ∈ p.consumers := by
      rw [consumers]
      exact List.mem_singleton_self _
    have few : q.floor.Few := by
      intro _
      rw [claimed]
      decide
    have suits : (Barrier.make p.floor.sequencer .spinning []).Suits p.floor.kind :=
      Barrier.suits_make p.floor.sequencer .spinning []
    rw [many] at suits
    have shown := answers (a := 0) (v := 0) listed (reaches_of_walk toQ) Reaches.start few suits
      (fun id inFront => by cases inFront) (by rw [position]; exact ends)
      (by rw [position]; exact cut)
    exact (shown.2 0 (by rw [position]; decide) (Int.le_refl 0)).1
  · intro id listed
    rw [List.mem_singleton.mp listed]
    exact made

/-- A poller that is let hold producers back while a claim is open exposes that claim. -/
theorem gated_poller_exposes_claim :
    ∃ q : Pipeline ⟨1, by decide⟩ Unit,
      [.hirePoller [], .produce .enlist, .produce (.claim 0 1), .produce (.gate [0]),
        .hireWorker .event none .spinning [0]].foldlM step
          (fresh ⟨1, by decide⟩ .many false fun _ => ()) = some q ∧
      q.floor.Holds 0 ⟨0, 0⟩ ∧ ¬ q.floor.Published 0 ∧ q.floor.counter 1 = -1 ∧
      ∃ c w, q.consumers[1]? = some c ∧ c.counter = 1 ∧ c.role = .worker w ∧
        w.barrier.enter .thread 0 q.floor.sequencer = .inr (.available 0) ∧
        w.barrier.published q.floor.sequencer 0 (.available 0) = .ok (.available 0) := by
  refine ⟨_, rfl, rfl, ?_, rfl, _, _, rfl, rfl, rfl, rfl, rfl⟩
  rintro ⟨b, past, -⟩
  cases past

end Pipeline

end EventRing
