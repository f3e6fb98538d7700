import EventRing.Proofs.Production
/-!
# EventRing.Proofs.Interchange

One producer that finishes each operation before it begins the next cannot tell the two kinds of
sequencers apart.  One of them remembers a published cursor and a claim position, the other a claim
cursor and a lap for each slot; between two operations all three positions are the same, and the laps
are those of the last lap up to there (`Recent`), negative ones before the first claim.  Two sequencers
that go together in this way are `Twins`.

An action that is started from two states that go together ends `Alike`: with the same answer, in states
that go together again, or with the same fault.  That is shown for every action a producer takes, put
together for every operation (`Op.alike`), and so for every script (`alike_of_play`).
-/

namespace EventRing

open EventRing.Action

/-! ## Actions from two states -/

section Alike

variable {σ τ α β : Type} {goes good : α → σ → σ → Prop} {after : β → σ → σ → Prop} {s t : σ}

/-- Two ends of actions are alike: the same answer in states that go together, or the same fault. -/
inductive Alike (goes : α → σ → σ → Prop) :
    EStateM.Result Fault σ α → EStateM.Result Fault σ α → Prop where
  | answered {a : α} {s t : σ} (together : goes a s t) : Alike goes (.ok a s) (.ok a t)
  | faulted (fault : Fault) (s t : σ) : Alike goes (.error fault s) (.error fault t)

theorem Alike.mono {x y : EStateM.Result Fault σ α} (alike : Alike goes x y)
    (weaker : ∀ {a s t}, goes a s t → good a s t) : Alike good x y := by
  cases alike with
  | answered together => exact .answered (weaker together)
  | faulted fault s t => exact .faulted fault s t

theorem Alike.bind {act act' : Action σ α} {next next' : α → Action σ β}
    (first : Alike goes (act s) (act' t))
    (rest : ∀ {a s t}, goes a s t → Alike after (next a s) (next' a t)) :
    Alike after ((act >>= next) s) ((act' >>= next') t) := by
  rw [bind_apply, bind_apply]
  generalize act s = x at first
  generalize act' t = y at first
  cases first with
  | answered together => exact rest together
  | faulted fault s t => exact .faulted fault s t

theorem Alike.map {act act' : Action σ α} {f : α → β} (first : Alike goes (act s) (act' t))
    (rest : ∀ {a s t}, goes a s t → after (f a) s t) :
    Alike after ((f <$> act) s) ((f <$> act') t) := by
  rw [map_apply, map_apply]
  generalize act s = x at first
  generalize act' t = y at first
  cases first with
  | answered together => exact .answered (rest together)
  | faulted fault s t => exact .faulted fault s t

/-- What is computed without the state is the same from both. -/
theorem Alike.lift_bind {e : Except Fault α} {next next' : α → Action σ β}
    (rest : ∀ {a}, e = .ok a → Alike after (next a s) (next' a t)) :
    Alike after (((liftM e : Action σ α) >>= next) s) (((liftM e : Action σ α) >>= next') t) := by
  rw [bind_apply, bind_apply, lift_apply, lift_apply]
  cases e with
  | ok a => exact rest rfl
  | error fault => exact .faulted fault s t

theorem Alike.checked_bind {n : Int} {next next' : Int → Action σ β}
    (rest : Word.Fits n → Alike after (next n s) (next' n t)) :
    Alike after (((liftM (Word.checked n) : Action σ Int) >>= next) s)
      (((liftM (Word.checked n) : Action σ Int) >>= next') t) := by
  refine Alike.lift_bind fun passed => ?_
  obtain ⟨fits, rfl⟩ := Word.checked_eq_ok_iff.mp passed
  exact rest fits

theorem Alike.discard {act act' : Action σ α} {after : PUnit → σ → σ → Prop}
    (first : Alike goes (act s) (act' t)) (rest : ∀ {a s t}, goes a s t → after ⟨⟩ s t) :
    Alike after (discard act s) (discard act' t) := first.map rest

theorem Alike.onPart {part : τ → σ} {put : σ → τ → τ} {act : Action σ α} {good : α → τ → τ → Prop}
    {s t : τ} (inner : Alike goes (act (part s)) (act (part t)))
    (outer : ∀ {a u v}, goes a u v → good a (put u s) (put v t)) :
    Alike good (Action.onPart part put act s) (Action.onPart part put act t) := by
  unfold Action.onPart
  generalize act (part s) = x at inner
  generalize act (part t) = y at inner
  cases inner with
  | answered together => exact .answered (outer together)
  | faulted fault u v => exact .faulted fault _ _

end Alike

/-- The answer of an action, without the state that it leaves. -/
def Action.answer {σ α : Type} (act : Action σ α) (s : σ) : Except Fault α :=
  match act s with
  | .ok a _ => .ok a
  | .error fault _ => .error fault

theorem Action.answer_of_ok {σ α : Type} {act : Action σ α} {s t : σ} {a : α} (h : act s = .ok a t) :
    act.answer s = .ok a := by
  unfold Action.answer
  rw [h]

theorem Action.answer_of_error {σ α : Type} {act : Action σ α} {s t : σ} {fault : Fault}
    (h : act s = .error fault t) : act.answer s = .error fault := by
  unfold Action.answer
  rw [h]

theorem Alike.answer_eq {σ α : Type} {goes : α → σ → σ → Prop} {act : Action σ α} {s t : σ}
    (alike : Alike goes (act s) (act t)) : act.answer t = act.answer s := by
  unfold Action.answer
  generalize act s = x at alike
  generalize act t = y at alike
  cases alike <;> rfl

/-! ## The laps of the last lap -/

namespace Sequencer

variable {g : Geometry} {laps : Vector Int32 g.size} {shown claimed c u : Int} {n : Nat}

/-- The slots of the sequences of the last lap up to a position carry their laps. -/
def Recent (laps : Vector Int32 g.size) (shown : Int) : Prop :=
  ∀ u, shown - g.size < u → u ≤ shown → laps.get (g.slot u) = g.lap u

theorem recent_initial : Recent (g := g) (Vector.replicate g.size (-1)) (-1) := by
  intro u above below
  rw [Geometry.lap_of_neg (by omega) (by omega)]
  show (Vector.replicate g.size (-1 : Int32))[(g.slot u : Nat)] = -1
  simp

/-- Marking the next sequences moves the last lap on. -/
theorem Recent.markRun (recent : Recent laps shown) (most : n ≤ g.size) :
    Recent (markRun laps (shown + 1) n) (shown + n) := by
  intro u above below
  rcases get_markRun laps (shown + 1) u n with ⟨same, others⟩ | ⟨v, low, high, slot, lap⟩
  · rw [same]
    refine recent u (by omega) (Int.not_lt.mp fun new => ?_)
    exact others u (by omega) (by omega) rfl
  · -- of the last lap only `u` has this slot
    rcases Int.lt_trichotomy v u with less | rfl | more
    · exact absurd slot (Geometry.slot_ne_of_near less (by omega))
    · exact lap
    · exact absurd slot.symm (Geometry.slot_ne_of_near more (by omega))

/-- A slot carries the lap of a sequence exactly if that is one of the last lap, among those less than
2^31 laps away from the start. -/
theorem Recent.isMarked_iff (recent : Recent laps shown) (start : -1 ≤ shown)
    (fits : Word.Fits shown) (near : shown < 2 ^ 31 * g.size) (fitsU : Word.Fits u)
    (low : -(2 ^ 31 * g.size) ≤ u) (high : u < 2 ^ 31 * g.size) :
    isMarked laps u = true ↔ shown - g.size < u ∧ u ≤ shown := by
  have size := g.size_cast_pos
  constructor
  · intro marked
    -- the sequence of the last lap that has this slot
    obtain ⟨v, above, below, slot⟩ : ∃ v, shown - g.size < v ∧ v ≤ shown ∧ g.slot v = g.slot u := by
      have remainder := Int.emod_nonneg (shown - u) (Int.ne_of_gt size)
      have less := Int.emod_lt_of_pos (shown - u) size
      refine ⟨shown - (shown - u) % g.size, by omega, by omega, ?_⟩
      rw [Geometry.slot_eq_iff_dvd]
      have split := Int.mul_ediv_add_emod (shown - u) g.size
      exact ⟨(shown - u) / g.size, by omega⟩
    have sameLap : g.lap v = g.lap u := by
      rw [← recent v above below, slot]
      exact eq_of_beq marked
    have fitsV : Word.Fits v := by
      have := g.size_le
      simp only [Word.Fits, Word.least, Word.greatest] at fits ⊢
      omega
    obtain rfl := Geometry.eq_of_slot_of_lap fitsV fitsU (by omega) (by omega) slot sameLap
    exact ⟨above, below⟩
  · rintro ⟨above, below⟩
    unfold isMarked
    rw [recent u above below]
    exact beq_self_eq_true _

/-- There is no gap in the last lap. -/
theorem Recent.firstGap_eq_none (recent : Recent laps shown) {lo : Int} {count : Nat}
    (above : shown - g.size < lo) (below : lo + count ≤ shown + 1) : firstGap laps count lo = none := by
  induction count generalizing lo with
  | zero => rfl
  | succ count ih =>
      have marked : isMarked laps lo = true := by
        unfold isMarked
        rw [recent lo above (by omega)]
        exact beq_self_eq_true _
      unfold firstGap
      rw [if_pos marked]
      exact ih (by omega) (by omega)

/-! ## Twins -/

/-- A sequencer for one producer and one for many that went through the same: what is published is
`shown`, what is claimed is `claimed`. -/
structure Twins (shown claimed : Int) (s t : Sequencer g) : Prop where
  gates : t.gates = s.gates
  counters : t.counters = s.counters
  cachedGate : t.cachedGate = s.cachedGate
  parks : t.parks = s.parks
  signals : t.signals = s.signals
  solo : s.ledger = .solo claimed
  cursor : s.cursor = shown
  shared : ∃ laps, t.ledger = .shared laps ∧ Recent laps shown
  position : t.cursor = claimed
  start : -1 ≤ shown
  fits : Word.Fits claimed

variable {s t : Sequencer g} {delta : Int}

theorem twins_fresh (g : Geometry) (parks : Bool) :
    Twins (-1) (-1) (fresh g .one parks) (fresh g .many parks) :=
  ⟨rfl, rfl, rfl, rfl, rfl, rfl, rfl, ⟨_, rfl, recent_initial⟩, rfl, Int.le_refl _, by decide⟩

/-- What goes together after a claim of `delta` sequences that may have to wait; a claim that waits is
not finished, so nothing is said then. -/
def Granted (c delta : Int) : Grant → Sequencer g → Sequencer g → Prop
  | .granted hi, s, t => hi = c + delta ∧ Twins c hi s t
  | .waiting .., _, _ => True

namespace Twins

theorem claimed_left (twins : Twins shown claimed s t) : s.claimed = claimed :=
  claimed_solo twins.solo

theorem claimed_right (twins : Twins shown claimed s t) : t.claimed = claimed := by
  obtain ⟨laps, shared, -⟩ := twins.shared
  rw [claimed_shared shared, twins.position]

theorem slowestGate_eq (twins : Twins shown claimed s t) (default : Int) :
    t.slowestGate default = s.slowestGate default := by
  unfold slowestGate
  rw [twins.gates, twins.counters]

theorem mustLook_eq (twins : Twins shown claimed s t) (wrap position : Int) :
    t.mustLook wrap position = s.mustLook wrap position := by
  unfold mustLook
  rw [twins.cachedGate]

/-! ## Claims -/

/-- A claim on its way has moved the cursor of many producers, but not that of one. -/
theorem settle (twins : Twins c c s t) (fits : Word.Fits (c + delta)) (wrap : Int) :
    Alike (Granted c delta) (Sequencer.settle ⟨c, c + delta, wrap⟩ { s with cursor := c })
      (Sequencer.settle ⟨c, c + delta, wrap⟩ { t with cursor := c + delta }) := by
  obtain ⟨laps, shared, recent⟩ := twins.shared
  have slowest : Sequencer.slowestGate { t with cursor := c + delta } c =
      Sequencer.slowestGate { s with cursor := c } c := twins.slowestGate_eq c
  rw [settle_apply, settle_apply, slowest]
  simp only [twins.solo, shared]
  split
  · exact .answered trivial
  · refine .answered ⟨rfl, ?_⟩
    exact { twins with
      cachedGate := rfl, solo := rfl, cursor := rfl, shared := ⟨laps, rfl, recent⟩, position := rfl
      fits := fits }

theorem claimBy (twins : Twins c c s t) :
    Alike (Granted c delta) (Sequencer.claimBy delta s) (Sequencer.claimBy delta t) := by
  obtain ⟨laps, shared, recent⟩ := twins.shared
  unfold Sequencer.claimBy
  rw [get_bind_apply, get_bind_apply]
  simp only [twins.solo, shared]
  -- one producer checks the sum before it stores it, many add first
  have sums : Alike (fun hi s' t' => hi = c + delta ∧ Word.Fits hi ∧ s = s' ∧
      t' = { t with cursor := hi })
      ((liftM (Word.checked (c + delta)) : Action (Sequencer g) Int) s)
      (Action.onPart Sequencer.cursor (fun cursor s => { s with cursor := cursor })
        (Counter.add delta) t) := by
    unfold Action.onPart Counter.add
    rw [twins.position, lift_apply]
    by_cases fits : Word.Fits (c + delta)
    · rw [Word.checked_of_fits fits]
      exact .answered ⟨rfl, fits, rfl, rfl⟩
    · simp only [Word.checked, if_neg fits]
      exact .faulted ..
  refine sums.bind ?_
  rintro _ _ _ ⟨rfl, fits, rfl, rfl⟩
  refine Alike.checked_bind fun _ => ?_
  rw [twins.position, twins.mustLook_eq]
  split
  · exact twins.settle fits _
  · refine .answered ⟨rfl, ?_⟩
    exact { twins with solo := rfl, position := rfl, fits := fits }

theorem claim (twins : Twins c c s t) :
    Alike (fun answer s t => match answer with
      | .error _ => Twins c c s t
      | .ok grant => 1 ≤ n ∧ n ≤ g.size ∧ Granted c n grant s t)
      (Sequencer.claim n s) (Sequencer.claim n t) := by
  unfold Sequencer.claim
  cases size : claimSize g n with
  | error error => exact .answered twins
  | ok delta =>
      obtain ⟨one, most, rfl⟩ := claimSize_eq_ok_iff.mp size
      exact twins.claimBy.map fun granted => ⟨one, most, granted⟩

theorem hasRoom (twins : Twins c c s t) (announce : Bool) :
    Alike (fun _ => Twins c c) (Sequencer.hasRoom delta announce s)
      (Sequencer.hasRoom delta announce t) := by
  unfold Sequencer.hasRoom
  rw [get_bind_apply, get_bind_apply, twins.claimed_left, twins.claimed_right]
  refine Alike.checked_bind fun _ => Alike.checked_bind fun _ => ?_
  rw [twins.mustLook_eq]
  split
  · simp only [bind_apply, set_apply, pure_apply, twins.slowestGate_eq]
    refine .answered ?_
    -- the cursors are where the claim position is, announced or not
    refine { twins with cachedGate := rfl, cursor := ?_, position := ?_ }
    · cases announce with
      | true => rfl
      | false => exact twins.cursor
    · cases announce with
      | true => rfl
      | false => exact twins.position
  · exact .answered twins

theorem hasCapacity (twins : Twins c c s t) :
    Alike (fun _ => Twins c c) (Sequencer.hasCapacity n s) (Sequencer.hasCapacity n t) := by
  unfold Sequencer.hasCapacity
  cases claimSize g n with
  | error error => exact .answered twins
  | ok delta => exact twins.hasRoom false

theorem reposition (twins : Twins c c s t) {hi : Int} (fits : Word.Fits hi) :
    Alike (fun _ => Twins c hi) (Sequencer.reposition hi s) (Sequencer.reposition hi t) := by
  obtain ⟨laps, shared, recent⟩ := twins.shared
  unfold Sequencer.reposition
  rw [modify_apply, modify_apply]
  simp only [twins.solo, shared]
  exact .answered
    { twins with solo := rfl, shared := ⟨laps, rfl, recent⟩, position := rfl, fits := fits }

theorem tryClaim (twins : Twins c c s t) :
    Alike (fun answer s t => match answer with
      | none => Twins c c s t
      | some hi => 1 ≤ n ∧ n ≤ g.size ∧ Granted c n (.granted hi) s t)
      (Sequencer.tryClaim n s) (Sequencer.tryClaim n t) := by
  unfold Sequencer.tryClaim
  cases size : claimSize g n with
  | error error => exact .answered twins
  | ok delta =>
      obtain ⟨one, most, rfl⟩ := claimSize_eq_ok_iff.mp size
      simp only [get_bind_apply, twins.claimed_left, twins.claimed_right]
      refine Alike.checked_bind fun fits => (twins.hasRoom true).bind ?_
      intro room s t twins
      split
      · refine (twins.reposition fits).bind fun claimed => ?_
        exact .answered ⟨one, most, rfl, claimed⟩
      · exact .answered twins

/-! ## Publications -/

theorem signal (twins : Twins shown claimed s t) : Twins shown claimed s.signal t.signal := by
  unfold Sequencer.signal
  by_cases parks : s.parks = true
  · rw [if_pos parks, if_pos (twins.parks.trans parks)]
    exact { twins with signals := congrArg (· + 1) twins.signals }
  · rw [if_neg parks, if_neg fun other => parks (twins.parks.symm.trans other)]
    exact twins

/-- Everything that is claimed is published. -/
theorem publishRange (twins : Twins c (c + n) s t) (one : 1 ≤ n) (most : n ≤ g.size) :
    Alike (fun _ => Twins (c + n) (c + n)) (Sequencer.publishRange (c + 1) (c + n) s)
      (Sequencer.publishRange (c + 1) (c + n) t) := by
  obtain ⟨laps, shared, recent⟩ := twins.shared
  have length : runLength (c + 1) (c + n) = n := by
    unfold runLength
    omega
  have start := twins.start
  unfold Sequencer.publishRange
  rw [if_neg (by omega), length]
  simp only [modify_apply, twins.solo, shared]
  refine .answered (signal ?_)
  exact { twins with
    solo := rfl, cursor := rfl, shared := ⟨_, rfl, recent.markRun most⟩, start := by omega }

theorem publish (twins : Twins c (c + 1) s t) :
    Alike (fun _ => Twins (c + 1) (c + 1)) (Sequencer.publish (c + 1) s)
      (Sequencer.publish (c + 1) t) := by
  rw [← publishRange_self, ← publishRange_self]
  exact twins.publishRange (n := 1) (Nat.le_refl 1) g.size_pos

/-! ## Gates and counters -/

theorem addGates (twins : Twins c c s t) (ids : List CounterId) :
    Alike (fun _ => Twins c c) (Sequencer.addGates ids s) (Sequencer.addGates ids t) := by
  have cursor : t.cursor = s.cursor := twins.position.trans twins.cursor.symm
  unfold Sequencer.addGates
  simp only [bind_apply, get_apply, set_apply, pure_apply, twins.gates, twins.counters, cursor]
  exact .answered { twins with gates := rfl, counters := rfl, position := twins.cursor }

theorem removeGate (twins : Twins c c s t) (id : CounterId) :
    Alike (fun _ => Twins c c) (Sequencer.removeGate id s) (Sequencer.removeGate id t) := by
  unfold Sequencer.removeGate
  simp only [bind_apply, get_apply, set_apply, pure_apply, twins.gates]
  exact .answered { twins with gates := rfl }

theorem makeCounter (twins : Twins c c s t) (value : Int) :
    Alike (fun _ => Twins c c) (Sequencer.makeCounter value s) (Sequencer.makeCounter value t) := by
  unfold Sequencer.makeCounter
  simp only [bind_apply, get_apply, set_apply, pure_apply, twins.counters]
  exact .answered { twins with counters := rfl }

theorem setCounter (twins : Twins c c s t) (id : CounterId) (value : Int) :
    Alike (fun _ => Twins c c) (Sequencer.setCounter id value s) (Sequencer.setCounter id value t) := by
  unfold Sequencer.setCounter
  simp only [modify_apply, twins.counters]
  exact .answered { twins with counters := rfl }

/-! ## What can be seen -/

theorem remaining_eq (twins : Twins c c s t) : t.remaining = s.remaining := by
  unfold remaining
  rw [twins.claimed_left, twins.claimed_right, twins.slowestGate_eq]

theorem lowestGate_eq (twins : Twins c c s t) : t.lowestGate = s.lowestGate := by
  unfold lowestGate
  rw [twins.position, twins.cursor, twins.slowestGate_eq]

/-- A sequence is published and not taken over for one of them exactly if it is for the other. -/
theorem isPublished_eq (twins : Twins c c s t) (near : c < 2 ^ 31 * g.size) (fitsU : Word.Fits u)
    (low : -(2 ^ 31 * g.size) ≤ u) (high : u < 2 ^ 31 * g.size) :
    t.isPublished u = s.isPublished u := by
  obtain ⟨laps, shared, recent⟩ := twins.shared
  have start := twins.start
  have fits := twins.fits
  have released : Word.Fits (c - g.size) := by
    have := g.size_le
    simp only [Word.Fits, Word.least, Word.greatest] at fits ⊢
    omega
  have marks := recent.isMarked_iff start fits near fitsU low high
  unfold Sequencer.isPublished
  simp only [twins.solo, shared, twins.cursor, except_checked_of_fits released]
  by_cases below : u ≤ c
  · rw [if_pos below]
    refine congrArg Except.ok ?_
    rw [Bool.eq_iff_iff, marks, decide_eq_true_iff]
    exact and_iff_left below
  · rw [if_neg below]
    refine congrArg Except.ok ?_
    rw [Bool.eq_false_iff]
    exact fun marked => below (marks.mp marked).2

/-- Everything of the last lap is published for both. -/
theorem highestPublished_eq {lo : Int} (twins : Twins c c s t) (above : c - g.size < lo)
    (below : lo ≤ c + 1) : t.highestPublished lo c = s.highestPublished lo c := by
  obtain ⟨laps, shared, recent⟩ := twins.shared
  have noGap : firstGap laps (runLength lo c) lo = none := by
    apply recent.firstGap_eq_none above
    unfold runLength
    omega
  unfold Sequencer.highestPublished
  simp only [twins.solo, shared, noGap]

end Twins

end Sequencer

/-! ## Rings -/

namespace Ring

variable {g : Geometry} {ε α : Type} {shown claimed c : Int} {n : Nat} {r s : Ring g ε}

/-- A ring for one producer and one for many that went through the same. -/
structure Twins (shown claimed : Int) (r s : Ring g ε) : Prop where
  sequencer : Sequencer.Twins shown claimed r.sequencer s.sequencer
  slots : s.slots = r.slots

theorem twins_make (g : Geometry) (parks : Bool) (factory : Nat → ε) :
    Twins (-1) (-1) (make (Sequencer.fresh g .one parks) factory)
      (make (Sequencer.fresh g .many parks) factory) :=
  ⟨Sequencer.twins_fresh g parks, rfl⟩

namespace Twins

theorem onSequencer {act : Action (Sequencer g) α} {goes : α → Sequencer g → Sequencer g → Prop}
    (twins : Twins shown claimed r s) (inner : Alike goes (act r.sequencer) (act s.sequencer)) :
    Alike (fun a r s => goes a r.sequencer s.sequencer ∧ s.slots = r.slots)
      (Ring.onSequencer act r) (Ring.onSequencer act s) :=
  inner.onPart fun together => ⟨together, twins.slots⟩

/-- An action of the sequencer that finishes what it begins. -/
theorem even {act : Action (Sequencer g) α} (twins : Twins shown claimed r s)
    (inner : Alike (fun _ => Sequencer.Twins c c) (act r.sequencer) (act s.sequencer)) :
    Alike (fun _ => Twins c c) (Ring.onSequencer act r) (Ring.onSequencer act s) :=
  (twins.onSequencer inner).mono fun together => ⟨together.1, together.2⟩

/-! ## Events -/

theorem putEvent (twins : Twins shown claimed r s) (writer : ε → Int → ε) (u : Int) :
    Twins shown claimed (r.putEvent u (writer (r.event u) u))
      (s.putEvent u (writer (s.event u) u)) := by
  refine ⟨twins.sequencer, ?_⟩
  unfold Ring.putEvent Ring.event
  simp only [twins.slots]

theorem write (twins : Twins shown claimed r s) (writer : ε → Int → ε) (u : Int) :
    Alike (fun _ => Twins shown claimed) (Ring.write writer u r) (Ring.write writer u s) :=
  .answered (twins.putEvent writer u)

theorem writeRun (twins : Twins shown claimed r s) (writer : ε → Int → ε) (lo : Int) (count : Nat) :
    Alike (fun _ => Twins shown claimed) (Ring.writeRun writer lo count r)
      (Ring.writeRun writer lo count s) := by
  unfold Ring.writeRun
  rw [modify_apply, modify_apply]
  refine .answered ?_
  induction count with
  | zero => exact twins
  | succ count ih =>
      rw [List.range_succ, List.foldl_append, List.foldl_append]
      exact ih.putEvent writer (lo + count)

/-! ## Publications -/

/-- What goes together after a publication that may have to wait. -/
def Finished : Grant → Ring g ε → Ring g ε → Prop
  | .granted hi, r, s => Twins hi hi r s
  | .waiting .., _, _ => True

theorem finishEvent {grant : Grant} (granted : Sequencer.Granted c 1 grant r.sequencer s.sequencer)
    (slots : s.slots = r.slots) (writer : ε → Int → ε) :
    Alike (fun answer r s => answer = grant ∧ Finished grant r s) (Ring.finishEvent writer grant r)
      (Ring.finishEvent writer grant s) := by
  cases grant with
  | waiting => exact .answered ⟨rfl, trivial⟩
  | granted hi =>
      obtain ⟨rfl, claimed⟩ := granted
      have twins : Twins c (c + 1) r s := ⟨claimed, slots⟩
      unfold Ring.finishEvent
      refine (twins.write writer (c + 1)).bind fun twins => ?_
      refine (twins.even twins.sequencer.publish).bind fun twins => ?_
      exact .answered ⟨rfl, twins⟩

/-- The whole of a claimed run is written and published. -/
theorem finishEvents {grant : Grant} (one : 1 ≤ n) (most : n ≤ g.size)
    (granted : Sequencer.Granted c n grant r.sequencer s.sequencer) (slots : s.slots = r.slots)
    (writer : ε → Int → ε) :
    Alike (fun answer r s => answer = grant ∧ Finished grant r s)
      (Ring.finishEvents writer n grant r) (Ring.finishEvents writer n grant s) := by
  cases grant with
  | waiting => exact .answered ⟨rfl, trivial⟩
  | granted hi =>
      obtain ⟨rfl, claimed⟩ := granted
      have twins : Twins c (c + n) r s := ⟨claimed, slots⟩
      unfold Ring.finishEvents
      refine Alike.lift_bind fun upTo => ?_
      obtain ⟨-, -, rfl⟩ := Production.upTo_eq_ok_iff.mp upTo
      rw [Production.blockTo, Int.add_sub_cancel]
      refine (twins.writeRun writer _ _).bind fun twins => ?_
      refine (twins.even (twins.sequencer.publishRange one most)).bind fun twins => ?_
      exact .answered ⟨rfl, twins⟩

theorem publishEvent (twins : Twins c c r s) (writer : ε → Int → ε) :
    Alike Finished (Ring.publishEvent writer r) (Ring.publishEvent writer s) := by
  unfold Ring.publishEvent
  refine (twins.onSequencer twins.sequencer.claimBy).bind ?_
  rintro grant r s ⟨granted, slots⟩
  refine (finishEvent granted slots writer).mono ?_
  rintro _ r s ⟨rfl, finished⟩
  exact finished

theorem publishEvents (twins : Twins c c r s) (writer : ε → Int → ε) :
    Alike (fun answer r s => match answer with
      | .error _ => Twins c c r s
      | .ok grant => Finished grant r s)
      (Ring.publishEvents writer n r) (Ring.publishEvents writer n s) := by
  unfold Ring.publishEvents
  refine (twins.onSequencer twins.sequencer.claim).bind ?_
  rintro (error | grant) r s ⟨claimed, slots⟩
  · exact .answered ⟨claimed, slots⟩
  · obtain ⟨one, most, granted⟩ := claimed
    refine (finishEvents one most granted slots writer).map ?_
    rintro _ r s ⟨rfl, finished⟩
    exact finished

theorem tryPublishEvent (twins : Twins c c r s) (writer : ε → Int → ε) :
    Alike (fun _ r s => ∃ c, Twins c c r s) (Ring.tryPublishEvent writer r)
      (Ring.tryPublishEvent writer s) := by
  unfold Ring.tryPublishEvent
  refine (twins.onSequencer (twins.sequencer.tryClaim (n := 1))).bind ?_
  rintro (_ | hi) r s ⟨claimed, slots⟩
  · exact .answered ⟨c, claimed, slots⟩
  · obtain ⟨-, -, granted⟩ := claimed
    have published : Alike (fun _ => Twins hi hi) (discard (Ring.finishEvent writer (.granted hi)) r)
        (discard (Ring.finishEvent writer (.granted hi)) s) :=
      (finishEvent granted slots writer).discard fun done => done.2
    refine published.bind fun twins => ?_
    exact .answered ⟨hi, twins⟩

end Twins

/-- What can be seen of two rings between operations is the same. -/
structure Agrees (r s : Ring g ε) : Prop where
  cursor : s.sequencer.cursor = r.sequencer.cursor
  slots : s.slots = r.slots
  remaining : s.sequencer.remaining = r.sequencer.remaining
  hasCapacity : ∀ n, (Sequencer.hasCapacity n).answer s.sequencer =
    (Sequencer.hasCapacity n).answer r.sequencer
  lowestGate : s.sequencer.lowestGate = r.sequencer.lowestGate
  gates : s.sequencer.gates = r.sequencer.gates
  counters : s.sequencer.counters = r.sequencer.counters
  signals : s.sequencer.signals = r.sequencer.signals
  isPublished : ∀ t, Word.Fits t → -(2 ^ 31 * g.size) ≤ t → t < 2 ^ 31 * g.size →
    s.sequencer.isPublished t = r.sequencer.isPublished t
  highestPublished : ∀ lo, r.sequencer.cursor - g.size < lo → lo ≤ r.sequencer.cursor + 1 →
    s.sequencer.highestPublished lo r.sequencer.cursor =
      r.sequencer.highestPublished lo r.sequencer.cursor

/-- Twins cannot be told apart, as long as no lap is beyond 2^31. -/
theorem Twins.agrees (twins : Twins c c r s) (near : c < 2 ^ 31 * g.size) : r.Agrees s := by
  have inner := twins.sequencer
  refine ⟨inner.position.trans inner.cursor.symm, twins.slots, inner.remaining_eq,
    fun n => inner.hasCapacity.answer_eq, inner.lowestGate_eq, inner.gates, inner.counters,
    inner.signals, fun t fits low high => inner.isPublished_eq near fits low high, ?_⟩
  rw [inner.cursor]
  intro lo above below
  exact inner.highestPublished_eq above below

end Ring

/-! ## Scripts -/

namespace Interchange

variable {g : Geometry} {ε : Type} {c : Int} {r s : Ring g ε}

/-- What a producer does with a ring, or somebody else between two things that it does. -/
inductive Op (ε : Type) where
  /-- Publish an event, if there is room for it. -/
  | publish (writer : ε → Int → ε)
  /-- Publish `n` events together, if there is room for them. -/
  | publishAll (n : Nat) (writer : ε → Int → ε)
  /-- Publish an event or be told that there is no room. -/
  | tryPublish (writer : ε → Int → ε)
  /-- Claim `n` sequences or be told that there is no room; then write and publish them. -/
  | tryBatch (n : Nat) (writer : ε → Int → ε)
  | gate (ids : List CounterId)
  | ungate (id : CounterId)
  | make (value : Int)
  | move (id : CounterId) (value : Int)
  /-- Ask whether `n` sequences could be claimed. -/
  | ask (n : Nat)
  /-- Ask how many could. -/
  | measure

/-- What an operation answers. -/
inductive Answer where
  | published (hi : Int)
  | refused (error : RingError)
  | tried (hi : Option Int)
  | gates (count : Nat)
  | removed (found : Bool) (count : Nat)
  | counter (id : CounterId)
  | moved
  | room (enough : Bool)
  | remaining (count : Int)

/-- The answer of a publication; none if it would have to wait. -/
def answerOf : Grant → Option Answer
  | .granted hi => some (.published hi)
  | .waiting .. => none

/-- One operation from its beginning to its end; no answer if it would have to wait. -/
def Op.run : Op ε → Action (Ring g ε) (Option Answer)
  | .publish writer => answerOf <$> Ring.publishEvent writer
  | .publishAll n writer => do
    match ← Ring.publishEvents writer n with
    | .error error => return some (.refused error)
    | .ok grant => return answerOf grant
  | .tryPublish writer => (fun hi => some (.tried hi)) <$> Ring.tryPublishEvent writer
  | .tryBatch n writer => do
    match ← Ring.tryClaim n with
    | none => return some (.tried none)
    | some hi =>
      discard <| Ring.finishEvents writer n (.granted hi)
      return some (.tried (some hi))
  | .gate ids => (fun count => some (.gates count)) <$> Ring.onSequencer (Sequencer.addGates ids)
  | .ungate id =>
    (fun (found, count) => some (.removed found count)) <$>
      Ring.onSequencer (Sequencer.removeGate id)
  | .make value => (fun id => some (.counter id)) <$> Ring.onSequencer (Sequencer.makeCounter value)
  | .move id value => (fun _ => some .moved) <$> Ring.onSequencer (Sequencer.setCounter id value)
  | .ask n => (fun enough => some (.room enough)) <$> Ring.onSequencer (Sequencer.hasCapacity n)
  | .measure => do
    let count ← (← get).sequencer.remaining
    return some (.remaining count)

/-- Performs a script and collects the answers; nothing if an operation would wait or breaks off. -/
def play : List (Op ε) → Ring g ε → Option (List Answer × Ring g ε)
  | [], ring => some ([], ring)
  | op :: ops, ring =>
    match op.run ring with
    | .ok (some answer) ring => (play ops ring).map fun (answers, ring) => (answer :: answers, ring)
    | .ok none _ | .error .. => none

/-- What goes together after an operation, unless it waits. -/
def Together : Option Answer → Ring g ε → Ring g ε → Prop
  | some _, r, s => ∃ c, Ring.Twins c c r s
  | none, _, _ => True

theorem together_of_finished {grant : Grant} (finished : Ring.Twins.Finished grant r s) :
    Together (answerOf grant) r s := by
  cases grant with
  | granted hi => exact ⟨hi, finished⟩
  | waiting => trivial

/-- Every operation ends alike on both rings. -/
theorem Op.alike (op : Op ε) (twins : Ring.Twins c c r s) :
    Alike Together (op.run r) (op.run s) := by
  cases op with
  | publish writer => exact (twins.publishEvent writer).map fun done => together_of_finished done
  | publishAll n writer =>
      simp only [run]
      refine (twins.publishEvents writer).bind ?_
      rintro (error | grant) r s done
      · exact .answered ⟨c, done⟩
      · exact .answered (together_of_finished done)
  | tryPublish writer => exact (twins.tryPublishEvent writer).map fun done => done
  | tryBatch n writer =>
      simp only [run]
      refine (twins.onSequencer twins.sequencer.tryClaim).bind ?_
      rintro (_ | hi) r s ⟨claimed, slots⟩
      · exact .answered ⟨c, claimed, slots⟩
      · obtain ⟨one, most, granted⟩ := claimed
        have published : Alike (fun _ => Ring.Twins hi hi)
            (discard (Ring.finishEvents writer n (.granted hi)) r)
            (discard (Ring.finishEvents writer n (.granted hi)) s) :=
          (Ring.Twins.finishEvents one most granted slots writer).discard fun done => done.2
        refine published.bind fun twins => ?_
        exact .answered ⟨hi, twins⟩
  | gate ids => exact (twins.even (twins.sequencer.addGates ids)).map fun done => ⟨c, done⟩
  | ungate id => exact (twins.even (twins.sequencer.removeGate id)).map fun done => ⟨c, done⟩
  | make value => exact (twins.even (twins.sequencer.makeCounter value)).map fun done => ⟨c, done⟩
  | move id value =>
      exact (twins.even (twins.sequencer.setCounter id value)).map fun done => ⟨c, done⟩
  | ask n => exact (twins.even twins.sequencer.hasCapacity).map fun done => ⟨c, done⟩
  | measure =>
      simp only [run]
      rw [get_bind_apply, get_bind_apply, twins.sequencer.remaining_eq]
      exact Alike.lift_bind fun _ => .answered ⟨c, twins⟩

/-- Every script goes through on both rings or on neither, with the same answers. -/
theorem alike_of_play (twins : Ring.Twins c c r s) (ops : List (Op ε)) :
    (play ops r = none ∧ play ops s = none) ∨
      ∃ answers r' s' d, play ops r = some (answers, r') ∧ play ops s = some (answers, s') ∧
        Ring.Twins d d r' s' := by
  induction ops generalizing c r s with
  | nil => exact Or.inr ⟨[], r, s, c, rfl, rfl, twins⟩
  | cons op ops ih =>
      have alike := op.alike twins
      unfold play
      generalize op.run r = x at alike
      generalize op.run s = y at alike
      cases alike with
      | faulted => exact Or.inl ⟨rfl, rfl⟩
      | @answered answer r' s' together =>
          cases answer with
          | none => exact Or.inl ⟨rfl, rfl⟩
          | some answer =>
              obtain ⟨d, twins⟩ := together
              rcases ih twins with ⟨left, right⟩ | ⟨answers, r'', s'', d, left, right, twins⟩
              · exact Or.inl ⟨by simp only [left, Option.map_none],
                  by simp only [right, Option.map_none]⟩
              · exact Or.inr ⟨answer :: answers, r'', s'', d, by simp only [left, Option.map_some],
                  by simp only [right, Option.map_some], twins⟩

/-- Whatever one producer does with a ring, operation by operation, it is answered the same whether the
ring is made for one producer or for many, and afterwards the two rings cannot be told apart. -/
theorem producers_are_interchangeable (g : Geometry) (parks : Bool) (factory : Nat → ε)
    (ops : List (Op ε)) :
    (play ops (Ring.make (Sequencer.fresh g .one parks) factory)).map Prod.fst =
      (play ops (Ring.make (Sequencer.fresh g .many parks) factory)).map Prod.fst ∧
    ∀ {answers answers' r s},
      play ops (Ring.make (Sequencer.fresh g .one parks) factory) = some (answers, r) →
      play ops (Ring.make (Sequencer.fresh g .many parks) factory) = some (answers', s) →
      r.sequencer.claimed < 2 ^ 31 * g.size → r.Agrees s := by
  rcases alike_of_play (Ring.twins_make g parks factory) ops with
    ⟨left, right⟩ | ⟨answers, r, s, d, left, right, twins⟩
  · refine ⟨by rw [left, right], fun other => ?_⟩
    cases left.symm.trans other
  · refine ⟨by rw [left, right]; rfl, fun leftAgain rightAgain near => ?_⟩
    cases left.symm.trans leftAgain
    cases right.symm.trans rightAgain
    rw [twins.sequencer.claimed_left] at near
    exact twins.agrees near

/-- A script on a ring of two slots with a gate, which goes around once and a half: what was published,
what did not fit and what was refused is the same for both kinds. -/
theorem producers_are_interchangeable_size_two :
    ∃ (script : List (Op Int)) (answers : List Answer) (r s : Ring ⟨1, by decide⟩ Int),
      play script (Ring.make (Sequencer.fresh _ .one true) fun _ => 0) = some (answers, r) ∧
      play script (Ring.make (Sequencer.fresh _ .many true) fun _ => 0) = some (answers, s) ∧
      answers = [.counter 0, .gates 1, .published 1, .tried none, .moved, .tried (some 2),
        .refused (.invalidClaimSize 3 2), .remaining 0, .room false, .removed true 0] ∧
      r.sequencer.claimed = 2 ∧ r.Agrees s := by
  have played : ∃ (script : List (Op Int)) (answers : List Answer)
      (r s : Ring ⟨1, by decide⟩ Int),
      play script (Ring.make (Sequencer.fresh _ .one true) fun _ => 0) = some (answers, r) ∧
      play script (Ring.make (Sequencer.fresh _ .many true) fun _ => 0) = some (answers, s) ∧
      answers = [.counter 0, .gates 1, .published 1, .tried none, .moved, .tried (some 2),
        .refused (.invalidClaimSize 3 2), .remaining 0, .room false, .removed true 0] ∧
      r.sequencer.claimed = 2 :=
    ⟨[.make (-1), .gate [0], .publishAll 2 fun _ t => t, .tryPublish fun _ t => t, .move 0 0,
      .tryBatch 1 fun old t => old + t, .publishAll 3 fun _ t => t, .measure, .ask 1, .ungate 0],
      _, _, _, rfl, rfl, rfl, rfl⟩
  obtain ⟨script, answers, r, s, left, right, same, claimed⟩ := played
  refine ⟨script, answers, r, s, left, right, same, claimed, ?_⟩
  refine (producers_are_interchangeable _ true (fun _ => 0) script).2 left right ?_
  rw [claimed]
  decide

end Interchange

end EventRing
