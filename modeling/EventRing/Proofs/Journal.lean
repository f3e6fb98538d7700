import EventRing.Publisher
import EventRing.Proofs.Publishing
import EventRing.Proofs.Runs
/-!
# EventRing.Proofs.Journal

A ring used without publishers.  Sequences are claimed from it and published one by one or in runs, by
anybody who keeps to the rules: what is published was claimed and is not published yet, and on a ring for
one producer it comes in order and before the next claim.  While nothing is claimed the ring may be reset
to any sequence, ahead or behind.

A journal keeps what was published since the last reset, in the order of publication.  No act of the ring
depends on it.

With one producer the journal holds exactly the sequences up to the cursor (`InOrder`); with many, the
slots carry the marks of the sequences of the journal, made one after the other over what was there before
(`stamped_of_reaches`).
-/

namespace EventRing

open EventRing.Action Sequencer

/-! ## State -/

/-- A ring and what was published on it. -/
structure Journal (g : Geometry) (ε : Type) where
  ring : Ring g ε
  /-- The sequence before the first claim, or the one that the ring was last reset to. -/
  floor : Int := Counter.initial
  /-- The sequences that were published since then, the last one first. -/
  shown : List Int := []
  /-- The claims that wait. -/
  waiting : List Pending := []

namespace Journal

variable {g : Geometry} {ε α : Type}

/-- A ring that nobody has used yet. -/
def fresh (g : Geometry) (kind : Producers) (parks : Bool) (factory : Nat → ε) : Journal g ε where
  ring := Ring.make (Sequencer.fresh g kind parks) factory

abbrev sequencer (j : Journal g ε) : Sequencer g := j.ring.sequencer

abbrev claimed (j : Journal g ε) : Int := j.sequencer.claimed

abbrev kind (j : Journal g ε) : Producers := j.sequencer.producers

/-- The sequences that are claimed and not published. -/
def held (j : Journal g ε) : List Int :=
  (sequences (j.floor + 1) j.claimed).filter (· ∉ j.shown)

/-- Nothing is claimed that is not published, and nobody waits. -/
def Quiet (j : Journal g ε) : Prop := j.held = [] ∧ j.waiting = []

instance (j : Journal g ε) : Decidable j.Quiet := inferInstanceAs (Decidable (_ ∧ _))

/-- Somebody may claim: one producer only when it has published what it claimed before. -/
def Free (j : Journal g ε) : Prop := j.kind = .one → j.Quiet

instance (j : Journal g ε) : Decidable j.Free := inferInstanceAs (Decidable (_ → _))

/-- The sequences from `lo` to `hi` may be published: one producer goes on where it stopped. -/
def Due (j : Journal g ε) (lo hi : Int) : Prop :=
  lo ≤ hi ∧ (∀ t ∈ sequences lo hi, t ∈ j.held) ∧ (j.kind = .one → lo = j.sequencer.cursor + 1)

instance (j : Journal g ε) (lo hi : Int) : Decidable (j.Due lo hi) :=
  inferInstanceAs (Decidable (_ ∧ _ ∧ _))

/-! ## Steps -/

/-- What can be done with a ring. -/
inductive Act (ε : Type) where
  /-- Claim `n` sequences, or begin to wait for them. -/
  | claim (n : Nat)
  /-- Claim `n` sequences if that needs no waiting. -/
  | tryClaim (n : Nat)
  /-- Look at the gates again for a claim that waits. -/
  | settle (i : Nat)
  /-- Write the event of a claimed sequence. -/
  | write (t : Int) (writer : ε → Int → ε)
  /-- Publish a claimed sequence. -/
  | publish (t : Int)
  /-- Publish the claimed sequences from `lo` to `hi`. -/
  | publishRun (lo hi : Int)
  /-- Ask whether there is room. -/
  | ask (n : Nat)
  /-- Let counters hold producers back. -/
  | gate (ids : List CounterId)
  /-- Take a counter off the gates. -/
  | ungate (id : CounterId)
  /-- Make a counter. -/
  | make (value : Int)
  /-- Move a counter. -/
  | move (id : CounterId) (value : Int)
  /-- Go on after another sequence, as if everything up to it had been published. -/
  | reset (t : Int)

/-- Runs an action of the ring and goes on, unless it breaks off. -/
def onRing (j : Journal g ε) (act : Action (Ring g ε) α)
    (next : α → Journal g ε → Option (Journal g ε)) : Option (Journal g ε) :=
  match act j.ring with
  | .ok a ring => next a { j with ring := ring }
  | .error .. => none

/-- One act; nothing if it is against the rules or breaks off. -/
@[grind =]
def step (j : Journal g ε) : Act ε → Option (Journal g ε)
  | .claim n =>
    if j.Free then
      j.onRing (Ring.claim n) fun
        | .ok (.waiting claim _), j => some { j with waiting := j.waiting ++ [claim] }
        | _, j => some j
    else none
  | .tryClaim n => if j.Free then j.onRing (Ring.tryClaim n) fun _ j => some j else none
  | .settle i =>
    match j.waiting[i]? with
    | some claim => j.onRing (Ring.settle claim) fun
      | .granted _, j => some { j with waiting := j.waiting.eraseIdx i }
      | .waiting .., j => some j
    | none => none
  | .write t writer =>
    if t ∈ j.held then j.onRing (Ring.write writer t) fun _ j => some j else none
  | .publish t =>
    if j.Due t t then
      j.onRing (Ring.publish t) fun _ j => some { j with shown := t :: j.shown }
    else none
  | .publishRun lo hi =>
    if j.Due lo hi then
      j.onRing (Ring.publishBlock ⟨lo, hi⟩) fun _ j =>
        some { j with shown := (sequences lo hi).reverse ++ j.shown }
    else none
  | .ask n => j.onRing (Ring.onSequencer (Sequencer.hasCapacity n)) fun _ j => some j
  | .gate ids => j.onRing (Ring.onSequencer (Sequencer.addGates ids)) fun _ j => some j
  | .ungate id => j.onRing (Ring.onSequencer (Sequencer.removeGate id)) fun _ j => some j
  | .make value => j.onRing (Ring.onSequencer (Sequencer.makeCounter value)) fun _ j => some j
  | .move id value =>
    j.onRing (Ring.onSequencer (Sequencer.setCounter id value)) fun _ j => some j
  | .reset t =>
    if j.Quiet ∧ -1 ≤ t ∧ Word.Fits t then
      j.onRing (Ring.resetTo t) fun _ j => some { j with floor := t, shown := [] }
    else none

/-- Everything but a reset. -/
def Onward (_ : Journal g ε) : Act ε → Prop
  | .reset _ => False
  | _ => True

instance (j : Journal g ε) (act : Act ε) : Decidable (j.Onward act) := by
  unfold Onward
  split <;> infer_instance

/-- No reset leads back behind the claim position. -/
def Forwards (j : Journal g ε) : Act ε → Prop
  | .reset t => j.claimed ≤ t
  | _ => True

instance (j : Journal g ε) (act : Act ε) : Decidable (j.Forwards act) := by
  unfold Forwards
  split <;> infer_instance

/-! ## What an act can do -/

/-- What a reset to `t` leaves behind. -/
structure Restarted (s : Sequencer g) (t : Int) (s' : Sequencer g) : Prop where
  solo : ∀ c, s.ledger = .solo c → s'.ledger = .solo t ∧ s'.cursor = t
  shared : ∀ laps, s.ledger = .shared laps → s'.ledger = .shared (mark laps t) ∧ s'.cursor = t

/-- What an act can do to positions and marks. -/
inductive Change (j : Journal g ε) : Act ε → Journal g ε → Prop where
  | still {act : Act ε} {ring : Ring g ε} (ledger : ring.sequencer.ledger = j.sequencer.ledger)
      (cursor : ring.sequencer.cursor = j.sequencer.cursor) : Change j act { j with ring := ring }
  | looked {act : Act ε} {ring : Ring g ε} (free : j.Free)
      (ledger : ring.sequencer.ledger = j.sequencer.ledger)
      (cursor : ring.sequencer.cursor = j.claimed) : Change j act { j with ring := ring }
  | claimed {act : Act ε} {n : Nat} {hi : Int} {ring : Ring g ε} (free : j.Free)
      (taken : Taken j.sequencer n hi ring.sequencer) : Change j act { j with ring := ring }
  | parked {act : Act ε} {n : Nat} {claim : Pending} {ring : Ring g ε} (free : j.Free)
      (parked : Parked j.sequencer n claim ring.sequencer) :
      Change j act { j with ring := ring, waiting := j.waiting ++ [claim] }
  | settled {i : Nat} {claim : Pending} {ring : Ring g ε} (waits : j.waiting[i]? = some claim)
      (settled : Settled j.sequencer claim ring.sequencer) :
      Change j (.settle i) { j with ring := ring, waiting := j.waiting.eraseIdx i }
  | published {act : Act ε} {lo hi : Int} {ring : Ring g ε} (due : j.Due lo hi)
      (shown : Shown j.sequencer lo hi ring.sequencer) :
      Change j act { j with ring := ring, shown := (sequences lo hi).reverse ++ j.shown }
  | reset {t : Int} {ring : Ring g ε} (quiet : j.Quiet) (start : -1 ≤ t) (fits : Word.Fits t)
      (restarted : Restarted j.sequencer t ring.sequencer) :
      Change j (.reset t) { j with ring := ring, floor := t, shown := [] }

variable {j k : Journal g ε} {act : Act ε} {t : Int}

theorem mem_held : t ∈ j.held ↔ j.floor < t ∧ t ≤ j.claimed ∧ t ∉ j.shown := by
  simp only [held, List.mem_filter, mem_sequences, decide_eq_true_eq, Int.add_one_le_iff, and_assoc]

theorem onRing_eq_some {run : Action (Ring g ε) α} {next : α → Journal g ε → Option (Journal g ε)}
    (h : j.onRing run next = some k) :
    ∃ a ring, run j.ring = .ok a ring ∧ next a { j with ring := ring } = some k := by
  unfold onRing at h
  split at h
  · exact ⟨_, _, ‹_›, h⟩
  · cases h

/-- An action of the sequencer, run for what it leaves behind. -/
theorem onSequencer_eq_some {run : Action (Sequencer g) α}
    {next : α → Journal g ε → Option (Journal g ε)}
    (h : j.onRing (Ring.onSequencer run) next = some k) :
    ∃ a ring, run j.sequencer = .ok a ring.sequencer ∧ next a { j with ring := ring } = some k := by
  obtain ⟨a, ring, ran, onwards⟩ := onRing_eq_some h
  obtain ⟨s, inner, rfl⟩ := onPart_eq_ok ran
  exact ⟨a, _, inner, onwards⟩

/-- A reset goes through in any state. -/
theorem restarted_of_reset (r : Ring g ε) (t : Int) :
    ∃ ring, Ring.resetTo t r = .ok () ring ∧ Restarted r.sequencer t ring.sequencer := by
  obtain ⟨⟨cursor, ledger, cachedGate, gates, counters, parks, signals⟩, slots, taken⟩ := r
  cases ledger with
  | solo c =>
      refine ⟨_, rfl, ?_, ?_⟩
      · intro c _
        simp
      · intro laps other
        cases other
  | shared laps =>
      refine ⟨_, rfl, ?_, ?_⟩
      · intro c other
        cases other
      · intro laps same
        cases same
        simp

/-- An action that leaves positions and marks alone. -/
theorem change_of_still {run : Action (Sequencer g) α}
    (still : ∀ {a s}, run j.sequencer = .ok a s →
      s.ledger = j.sequencer.ledger ∧ s.cursor = j.sequencer.cursor)
    (h : j.onRing (Ring.onSequencer run) (fun _ j => some j) = some k) : Change j act k := by
  obtain ⟨_, ring, ran, onwards⟩ := onSequencer_eq_some h
  cases onwards
  obtain ⟨ledger, cursor⟩ := still ran
  exact Change.still ledger cursor

theorem change_of_claim {n : Nat} (h : j.step (.claim n) = some k) : Change j (.claim n) k := by
  simp only [step] at h
  split at h
  · rename_i free
    obtain ⟨answer, ring, ran, onwards⟩ := onSequencer_eq_some h
    rcases answer with error | hi | ⟨claim, slowest⟩
    · cases onwards
      have same := (claim_refused ran).2
      exact Change.still (congrArg _ same) (congrArg _ same)
    · cases onwards
      exact Change.claimed free (claim_granted ran)
    · cases onwards
      exact Change.parked free (claim_waiting ran)
  · cases h

theorem change_of_tryClaim {n : Nat} (h : j.step (.tryClaim n) = some k) :
    Change j (.tryClaim n) k := by
  simp only [step] at h
  split at h
  · rename_i free
    obtain ⟨answer, ring, ran, onwards⟩ := onSequencer_eq_some h
    cases onwards
    cases answer with
    | some hi => exact Change.claimed free (tryClaim_some ran)
    | none =>
        rcases tryClaim_none ran with same | read
        · exact Change.still (congrArg _ same) (congrArg _ same)
        · refine Change.looked free ?_ ?_
          · rw [read]
            rfl
          · rw [read]
            rfl
  · cases h

theorem change_of_settle {i : Nat} (h : j.step (.settle i) = some k) : Change j (.settle i) k := by
  simp only [step] at h
  split at h
  · rename_i claim waits
    obtain ⟨grant, ring, ran, onwards⟩ := onSequencer_eq_some h
    cases grant with
    | granted hi =>
        cases onwards
        exact Change.settled waits (settle_granted ran).2
    | waiting again slowest =>
        cases onwards
        have same := (settle_waiting ran).2
        exact Change.still (congrArg _ same) (congrArg _ same)
  · cases h

theorem change_of_publish (h : j.step (.publish t) = some k) : Change j (.publish t) k := by
  simp only [step] at h
  split at h
  · rename_i due
    obtain ⟨_, ring, ran, onwards⟩ := onSequencer_eq_some h
    cases onwards
    rw [← publishRange_self] at ran
    have change : Change j (.publish t)
        { j with ring := ring, shown := (sequences t t).reverse ++ j.shown } :=
      Change.published due (publishRange_eq_ok ran).2
    rwa [sequences_self] at change
  · cases h

theorem change_of_publishRun {lo hi : Int} (h : j.step (.publishRun lo hi) = some k) :
    Change j (.publishRun lo hi) k := by
  simp only [step] at h
  split at h
  · rename_i due
    obtain ⟨_, ring, ran, onwards⟩ := onSequencer_eq_some h
    cases onwards
    exact Change.published due (publishRange_eq_ok ran).2
  · cases h

theorem change_of_reset (h : j.step (.reset t) = some k) : Change j (.reset t) k := by
  simp only [step] at h
  split at h
  · rename_i allowed
    obtain ⟨quiet, start, fits⟩ := allowed
    obtain ⟨_, ring, ran, onwards⟩ := onRing_eq_some h
    cases onwards
    obtain ⟨other, same, restarted⟩ := restarted_of_reset j.ring t
    rw [ran] at same
    cases same
    exact Change.reset quiet start fits restarted
  · cases h

/-- Every step is one of the changes. -/
theorem change_of_step (h : j.step act = some k) : Change j act k := by
  cases act with
  | claim n => exact change_of_claim h
  | tryClaim n => exact change_of_tryClaim h
  | settle i => exact change_of_settle h
  | write t writer =>
      simp only [step] at h
      split at h
      · obtain ⟨_, ring, ran, onwards⟩ := onRing_eq_some h
        cases onwards
        cases ran
        exact Change.still rfl rfl
      · cases h
  | publish t => exact change_of_publish h
  | publishRun lo hi => exact change_of_publishRun h
  | ask n =>
      simp only [step] at h
      refine change_of_still (fun asked => ?_) h
      rcases hasCapacity_eq_ok asked with rfl | rfl <;> exact ⟨rfl, rfl⟩
  | gate ids =>
      simp only [step] at h
      refine change_of_still (fun added => ?_) h
      cases added
      exact ⟨rfl, rfl⟩
  | ungate id =>
      simp only [step] at h
      refine change_of_still (fun removed => ?_) h
      cases removed
      exact ⟨rfl, rfl⟩
  | make value =>
      simp only [step] at h
      refine change_of_still (fun made => ?_) h
      cases made
      exact ⟨rfl, rfl⟩
  | move id value =>
      simp only [step] at h
      refine change_of_still (fun moved => ?_) h
      cases moved
      exact ⟨rfl, rfl⟩
  | reset t => exact change_of_reset h

/-! ## One producer -/

/-- The journal of one producer holds the sequences up to its cursor, and while a claim waits nothing else
is claimed. -/
structure InOrder (floor cursor claimed : Int) (shown : List Int) (waiting : List Pending) : Prop where
  floor_le : floor ≤ cursor
  cursor_le : cursor ≤ claimed
  mem_shown : ∀ t, t ∈ shown ↔ floor < t ∧ t ≤ cursor
  waits : ∀ claim ∈ waiting,
    waiting = [claim] ∧ cursor = claimed ∧ claimed ≤ claim.hi ∧ Word.Fits claim.hi

/-- What holds of every state that a run comes to. -/
structure Sound (j : Journal g ε) : Prop where
  start : -1 ≤ j.floor
  floor_le : j.floor ≤ j.claimed
  fits : Word.Fits j.claimed
  past : ∀ t ∈ j.shown, j.floor < t ∧ t ≤ j.claimed
  solo : j.kind = .one → InOrder j.floor j.sequencer.cursor j.claimed j.shown j.waiting

theorem sound_fresh (g : Geometry) (kind : Producers) (parks : Bool) (factory : Nat → ε) :
    (fresh g kind parks factory).Sound := by
  have claimed : (fresh g kind parks factory).claimed = -1 := by cases kind <;> rfl
  have cursor : (fresh g kind parks factory).sequencer.cursor = -1 := rfl
  have floor : (fresh g kind parks factory).floor = -1 := rfl
  refine ⟨Int.le_of_eq floor.symm, ?_, ?_, fun t none => (nomatch none), fun _ => ?_⟩
  · exact Int.le_of_eq (floor.trans claimed.symm)
  · rw [claimed]
    decide
  · rw [floor, cursor, claimed]
    refine ⟨Int.le_refl _, Int.le_refl _, fun t => ?_, fun claim none => (nomatch none)⟩
    show t ∈ [] ↔ -1 < t ∧ t ≤ -1
    simp only [List.not_mem_nil, false_iff]
    omega

/-- Where everything that is claimed is published the cursor of one producer is the claim position. -/
theorem InOrder.cursor_eq (order : InOrder j.floor j.sequencer.cursor j.claimed j.shown j.waiting)
    (quiet : j.Quiet) : j.sequencer.cursor = j.claimed := by
  refine Int.le_antisymm order.cursor_le (Int.not_lt.mp fun behind => ?_)
  have low := order.floor_le
  have held : j.claimed ∈ j.held := by
    refine mem_held.mpr ⟨by omega, Int.le_refl _, fun shown => ?_⟩
    have := ((order.mem_shown _).mp shown).2
    omega
  rw [quiet.1] at held
  cases held

/-- One producer claims from where its cursor is, and nobody waits then. -/
theorem Sound.free (sound : j.Sound) (free : j.Free) (single : j.kind = .one) :
    j.sequencer.cursor = j.claimed ∧ j.waiting = [] :=
  ⟨(sound.solo single).cursor_eq (free single), (free single).2⟩

theorem kind_of_still {s s' : Sequencer g} (ledger : s'.ledger = s.ledger) :
    s'.producers = s.producers := by
  unfold producers
  rw [ledger]

theorem claimed_of_still {s s' : Sequencer g} (ledger : s'.ledger = s.ledger)
    (cursor : s'.cursor = s.cursor) : s'.claimed = s.claimed := by
  unfold Sequencer.claimed
  rw [ledger, cursor]

theorem Restarted.producers {s s' : Sequencer g} (restarted : Restarted s t s') :
    s'.producers = s.producers :=
  producers_eq_of_ledger (fun c ledger => ⟨t, (restarted.solo c ledger).1⟩)
    (fun laps ledger => ⟨_, (restarted.shared laps ledger).1⟩)

theorem Restarted.positions {s s' : Sequencer g} (restarted : Restarted s t s') :
    s'.claimed = t ∧ s'.cursor = t := by
  cases ledger : s.ledger with
  | solo c =>
      obtain ⟨after, cursor⟩ := restarted.solo c ledger
      exact ⟨claimed_solo after, cursor⟩
  | shared laps =>
      obtain ⟨after, cursor⟩ := restarted.shared laps ledger
      exact ⟨(claimed_shared after).trans cursor, cursor⟩

/-- The kind of a ring stays the same. -/
theorem kind_of_change (h : Change j act k) : k.kind = j.kind := by
  cases h with
  | still ledger cursor => exact kind_of_still ledger
  | looked free ledger cursor => exact kind_of_still ledger
  | claimed free taken => exact taken.moved.producers
  | parked free parked => exact parked.producers
  | settled waits settled => exact settled.producers
  | published due shown => exact shown.producers
  | reset quiet start fits restarted => exact restarted.producers

theorem kind_of_reaches {allowed : Journal g ε → Act ε → Prop} (reached : Reaches step allowed j k) :
    k.kind = j.kind := by
  induction reached with
  | start => rfl
  | step _ _ made ih => exact (kind_of_change (change_of_step made)).trans ih

theorem kind_fresh (g : Geometry) (kind : Producers) (parks : Bool) (factory : Nat → ε) :
    (fresh g kind parks factory).kind = kind := by
  cases kind <;> rfl

theorem exists_solo (single : j.kind = .one) : ∃ c, j.sequencer.ledger = .solo c :=
  Sequencer.producers_eq_one_iff.mp single

theorem Sound.still {ring : Ring g ε} (sound : j.Sound)
    (ledger : ring.sequencer.ledger = j.sequencer.ledger)
    (cursor : ring.sequencer.cursor = j.sequencer.cursor) : Sound { j with ring := ring } := by
  have position : ring.sequencer.claimed = j.claimed := claimed_of_still ledger cursor
  have kind : ring.sequencer.producers = j.kind := kind_of_still ledger
  refine ⟨sound.start, ?_, ?_, ?_, ?_⟩
  · show j.floor ≤ ring.sequencer.claimed
    rw [position]
    exact sound.floor_le
  · show Word.Fits ring.sequencer.claimed
    rw [position]
    exact sound.fits
  · show ∀ t ∈ j.shown, j.floor < t ∧ t ≤ ring.sequencer.claimed
    rw [position]
    exact sound.past
  · show ring.sequencer.producers = .one →
      InOrder j.floor ring.sequencer.cursor ring.sequencer.claimed j.shown j.waiting
    rw [kind, cursor, position]
    exact sound.solo

/-- Where somebody may claim the cursor is the claim position. -/
theorem Sound.cursor_eq (sound : j.Sound) (free : j.Free) : j.claimed = j.sequencer.cursor := by
  cases ledger : j.sequencer.ledger with
  | solo c => exact (sound.free free (producers_solo ledger)).1.symm
  | shared laps => exact claimed_shared ledger

/-- A claim begins where one producer has its cursor, and nobody waits then. -/
theorem Sound.claimed {n : Nat} {hi : Int} {ring : Ring g ε} (sound : j.Sound) (free : j.Free)
    (taken : Taken j.sequencer n hi ring.sequencer) : Sound { j with ring := ring } := by
  have position : ring.sequencer.claimed = hi := taken.moved.claimed_eq
  have next : hi = j.claimed + n := taken.hi_eq
  have one := taken.one_le
  have low := sound.floor_le
  refine ⟨sound.start, ?_, ?_, ?_, ?_⟩
  · show j.floor ≤ ring.sequencer.claimed
    omega
  · show Word.Fits ring.sequencer.claimed
    rw [position]
    exact taken.fits
  · intro t shown
    have := sound.past t shown
    show j.floor < t ∧ t ≤ ring.sequencer.claimed
    omega
  · intro single
    have single : j.kind = .one := taken.moved.producers.symm.trans single
    obtain ⟨cursor, nobody⟩ := sound.free free single
    obtain ⟨c, ledger⟩ := exists_solo single
    have same : ring.sequencer.cursor = j.sequencer.cursor := by
      rcases (taken.moved.solo c ledger).2 with same | same
      · exact same
      · rw [same, cursor]
        exact (claimed_solo ledger).symm
    show InOrder j.floor ring.sequencer.cursor ring.sequencer.claimed j.shown j.waiting
    rw [same, position, nobody]
    have order := sound.solo single
    exact ⟨order.floor_le, by omega, order.mem_shown, fun claim waits => (nomatch waits)⟩

/-- A claim that waits has taken its sequences if there are many producers, and none if there is one. -/
theorem Sound.grown_parked {n : Nat} {claim : Pending} {s : Sequencer g} (sound : j.Sound)
    (parked : Parked j.sequencer n claim s) : j.claimed ≤ s.claimed ∧ Word.Fits s.claimed := by
  have fits : Word.Fits (j.claimed + n) := parked.fits
  cases ledger : j.sequencer.ledger with
  | solo c =>
      have same : s.claimed = j.claimed := by
        rw [claimed_solo (parked.solo c ledger).1]
        exact (claimed_solo ledger).symm
      rw [same]
      exact ⟨Int.le_refl _, sound.fits⟩
  | shared laps =>
      obtain ⟨after, cursor⟩ := parked.shared laps ledger
      have moved : s.claimed = j.claimed + n := (claimed_shared after).trans cursor
      rw [moved]
      exact ⟨by omega, fits⟩

theorem Sound.parked {n : Nat} {claim : Pending} {ring : Ring g ε} (sound : j.Sound) (free : j.Free)
    (parked : Parked j.sequencer n claim ring.sequencer) :
    Sound { j with ring := ring, waiting := j.waiting ++ [claim] } := by
  have low := sound.floor_le
  have fits : Word.Fits (j.claimed + n) := parked.fits
  have grown := sound.grown_parked parked
  refine ⟨sound.start, Int.le_trans low grown.1, grown.2, ?_, ?_⟩
  · intro t shown
    have past := sound.past t shown
    exact ⟨past.1, Int.le_trans past.2 grown.1⟩
  · intro single
    have single : j.kind = .one := parked.producers.symm.trans single
    obtain ⟨cursor, nobody⟩ := sound.free free single
    obtain ⟨c, ledger⟩ := exists_solo single
    obtain ⟨after, stays⟩ := parked.solo c ledger
    have position : j.claimed = c := claimed_solo ledger
    show InOrder j.floor ring.sequencer.cursor ring.sequencer.claimed j.shown (j.waiting ++ [claim])
    rw [claimed_solo after, stays, nobody]
    have order := sound.solo single
    rw [cursor, position] at order
    refine ⟨order.floor_le, order.cursor_le, order.mem_shown, fun other waits => ?_⟩
    rw [List.mem_singleton.mp waits]
    have hi : claim.hi = j.claimed + n := by rw [parked.claim_eq]
    refine ⟨rfl, rfl, by omega, ?_⟩
    rw [hi]
    exact fits

/-- A claim that is settled takes its sequences now if there is one producer. -/
theorem Sound.grown_settled {claim : Pending} {s : Sequencer g} (sound : j.Sound)
    (listed : claim ∈ j.waiting) (settled : Settled j.sequencer claim s) :
    j.claimed ≤ s.claimed ∧ Word.Fits s.claimed := by
  cases ledger : j.sequencer.ledger with
  | solo c =>
      obtain ⟨-, -, above, fits⟩ := (sound.solo (producers_solo ledger)).waits claim listed
      rw [claimed_solo (settled.solo c ledger)]
      exact ⟨above, fits⟩
  | shared laps =>
      have same : s.claimed = j.claimed := by
        rw [claimed_shared (settled.shared laps ledger), settled.cursor]
        exact (claimed_shared ledger).symm
      rw [same]
      exact ⟨Int.le_refl _, sound.fits⟩

/-- The claim that waited is the only one of one producer. -/
theorem Sound.settled {i : Nat} {claim : Pending} {ring : Ring g ε} (sound : j.Sound)
    (waits : j.waiting[i]? = some claim) (settled : Settled j.sequencer claim ring.sequencer) :
    Sound { j with ring := ring, waiting := j.waiting.eraseIdx i } := by
  have listed : claim ∈ j.waiting := List.mem_of_getElem? waits
  have low := sound.floor_le
  have grown := sound.grown_settled listed settled
  refine ⟨sound.start, Int.le_trans low grown.1, grown.2, ?_, ?_⟩
  · intro t shown
    have past := sound.past t shown
    exact ⟨past.1, Int.le_trans past.2 grown.1⟩
  · intro single
    have single : j.kind = .one := settled.producers.symm.trans single
    have order := sound.solo single
    have nobody : j.waiting.eraseIdx i = [] := by
      obtain ⟨only, -⟩ := order.waits claim listed
      obtain ⟨inside, -⟩ := List.getElem?_eq_some_iff.mp waits
      rw [only] at inside ⊢
      obtain rfl : i = 0 := by simpa using inside
      rfl
    show InOrder j.floor ring.sequencer.cursor ring.sequencer.claimed j.shown (j.waiting.eraseIdx i)
    rw [settled.cursor, nobody]
    exact ⟨order.floor_le, Int.le_trans order.cursor_le grown.1, order.mem_shown,
      fun other waits => (nomatch waits)⟩

/-- What is published was claimed; one producer publishes from its cursor on. -/
theorem Sound.published {lo hi : Int} {ring : Ring g ε} (sound : j.Sound) (due : j.Due lo hi)
    (shown : Shown j.sequencer lo hi ring.sequencer) :
    Sound { j with ring := ring, shown := (sequences lo hi).reverse ++ j.shown } := by
  obtain ⟨upright, held, next⟩ := due
  have inside {t : Int} (low : lo ≤ t) (high : t ≤ hi) : j.floor < t ∧ t ≤ j.claimed := by
    obtain ⟨above, below, -⟩ := mem_held.mp (held t (mem_sequences.mpr ⟨low, high⟩))
    exact ⟨above, below⟩
  have position : ring.sequencer.claimed = j.claimed := shown.claimed_eq
  refine ⟨sound.start, ?_, ?_, ?_, ?_⟩
  · show j.floor ≤ ring.sequencer.claimed
    rw [position]
    exact sound.floor_le
  · show Word.Fits ring.sequencer.claimed
    rw [position]
    exact sound.fits
  · intro t published
    show j.floor < t ∧ t ≤ ring.sequencer.claimed
    rw [position]
    rcases List.mem_append.mp published with new | old
    · obtain ⟨low, high⟩ := mem_sequences.mp (List.mem_reverse.mp new)
      exact inside low high
    · exact sound.past t old
  · intro single
    have single : j.kind = .one := shown.producers.symm.trans single
    have order := sound.solo single
    obtain ⟨c, ledger⟩ := exists_solo single
    have start := next single
    have first := inside (Int.le_refl lo) upright
    have last := inside upright (Int.le_refl hi)
    have low := order.floor_le
    show InOrder j.floor ring.sequencer.cursor ring.sequencer.claimed
      ((sequences lo hi).reverse ++ j.shown) j.waiting
    rw [(shown.solo c ledger).2, position]
    refine ⟨by omega, last.2, fun t => ?_, fun claim waits => ?_⟩
    · rw [List.mem_append, List.mem_reverse, mem_sequences, order.mem_shown]
      omega
    · -- nothing is claimed ahead of the cursor while a claim waits
      have := (order.waits claim waits).2.1
      omega

theorem Sound.reset {ring : Ring g ε} (quiet : j.Quiet) (start : -1 ≤ t)
    (fits : Word.Fits t) (restarted : Restarted j.sequencer t ring.sequencer) :
    Sound { j with ring := ring, floor := t, shown := [] } := by
  obtain ⟨claimed, cursor⟩ := restarted.positions
  refine ⟨start, Int.le_of_eq claimed.symm, ?_, fun t none => (nomatch none), fun _ => ?_⟩
  · show Word.Fits ring.sequencer.claimed
    rw [claimed]
    exact fits
  · show InOrder t ring.sequencer.cursor ring.sequencer.claimed [] j.waiting
    rw [claimed, cursor, quiet.2]
    refine ⟨Int.le_refl _, Int.le_refl _, fun u => ?_, fun claim waits => (nomatch waits)⟩
    simp only [List.not_mem_nil, false_iff]
    omega

theorem sound_of_change (sound : j.Sound) (h : Change j act k) : k.Sound := by
  cases h with
  | still ledger cursor => exact sound.still ledger cursor
  | looked free ledger cursor => exact sound.still ledger (cursor.trans (sound.cursor_eq free))
  | claimed free taken => exact sound.claimed free taken
  | parked free parked => exact sound.parked free parked
  | settled waits settled => exact sound.settled waits settled
  | published due shown => exact sound.published due shown
  | reset quiet start fits restarted => exact Sound.reset quiet start fits restarted

/-- Unless the ring is sent back its claim position only grows. -/
theorem Sound.claimed_le (sound : j.Sound) (forwards : j.Forwards act) (h : Change j act k) :
    j.claimed ≤ k.claimed := by
  cases h with
  | still ledger cursor => exact Int.le_of_eq (claimed_of_still ledger cursor).symm
  | looked free ledger cursor =>
      exact Int.le_of_eq (claimed_of_still ledger (cursor.trans (sound.cursor_eq free))).symm
  | @claimed _ n hi ring _ taken =>
      show j.claimed ≤ ring.sequencer.claimed
      rw [taken.moved.claimed_eq, taken.hi_eq]
      show j.claimed ≤ j.claimed + n
      omega
  | parked _ parked => exact (sound.grown_parked parked).1
  | settled waits settled => exact (sound.grown_settled (List.mem_of_getElem? waits) settled).1
  | published _ shown => exact Int.le_of_eq shown.claimed_eq.symm
  | @reset t ring _ _ _ restarted =>
      show j.claimed ≤ ring.sequencer.claimed
      rw [restarted.positions.1]
      exact forwards

theorem sound_of_reaches {allowed : Journal g ε → Act ε → Prop} (sound : j.Sound)
    (reached : Reaches step allowed j k) : k.Sound :=
  reached.invariant sound fun sound _ made => sound_of_change sound (change_of_step made)

/-! ## Many producers -/

/-- Marks made for the sequences of a journal over some others. -/
def stamped (laps : Vector Int32 g.size) (order : List Int) : Vector Int32 g.size :=
  order.foldr (fun t laps => mark laps t) laps

/-- A run is marked from its first sequence to its last one. -/
theorem markRun_eq_stamped (laps : Vector Int32 g.size) (lo hi : Int) :
    markRun laps lo (runLength lo hi) = stamped laps (sequences lo hi).reverse := by
  unfold stamped markRun sequences
  rw [List.foldr_reverse, List.foldl_map]

theorem stamped_append (laps : Vector Int32 g.size) (later earlier : List Int) :
    stamped laps (later ++ earlier) = stamped (stamped laps earlier) later :=
  List.foldr_append

/-- An act marks what it publishes, and a reset its own sequence. -/
theorem marks_of_change {laps : Vector Int32 g.size} (h : Change j act k)
    (ledger : j.sequencer.ledger = .shared laps) :
    ∃ later, k.sequencer.ledger = .shared (stamped laps later) ∧
      (k.shown = later ++ j.shown ∨ ∃ t, act = .reset t ∧ later = [t] ∧ -1 ≤ t ∧ k.claimed = t) := by
  cases h with
  | still same _ => exact ⟨[], same.trans ledger, Or.inl rfl⟩
  | looked _ same _ => exact ⟨[], same.trans ledger, Or.inl rfl⟩
  | claimed _ taken => exact ⟨[], (taken.moved.shared laps ledger).1, Or.inl rfl⟩
  | parked _ parked => exact ⟨[], (parked.shared laps ledger).1, Or.inl rfl⟩
  | settled _ settled => exact ⟨[], settled.shared laps ledger, Or.inl rfl⟩
  | @published _ lo hi ring _ shown =>
      refine ⟨(sequences lo hi).reverse, ?_, Or.inl rfl⟩
      rw [← markRun_eq_stamped]
      exact (shown.shared laps ledger).1
  | @reset t ring _ start _ restarted =>
      refine ⟨[t], (restarted.shared laps ledger).1, Or.inr ⟨t, rfl, rfl, start, ?_⟩⟩
      exact restarted.positions.1

/-- Until the next reset, the marks are those for the journal over what was there before. -/
theorem stamped_of_reaches {laps : Vector Int32 g.size} (reached : Reaches step Onward j k)
    (ledger : j.sequencer.ledger = .shared laps) :
    ∃ later, k.shown = later ++ j.shown ∧ k.sequencer.ledger = .shared (stamped laps later) := by
  induction reached with
  | start => exact ⟨[], rfl, ledger⟩
  | step _ onward made ih =>
      obtain ⟨earlier, shown, marks⟩ := ih
      obtain ⟨later, after, more | ⟨t, rfl, -⟩⟩ := marks_of_change (change_of_step made) marks
      · refine ⟨later ++ earlier, ?_, ?_⟩
        · rw [more, shown, List.append_assoc]
        · rw [after, stamped_append]
      · exact onward.elim

/-- Until the next reset, claims begin after the same sequence. -/
theorem floor_of_change (onward : j.Onward act) (h : Change j act k) : k.floor = j.floor := by
  cases h with
  | reset => exact onward.elim
  | _ => rfl

theorem floor_of_reaches (reached : Reaches step Onward j k) : k.floor = j.floor := by
  induction reached with
  | start => rfl
  | step _ onward made ih => exact (floor_of_change onward (change_of_step made)).trans ih

end Journal

end EventRing
