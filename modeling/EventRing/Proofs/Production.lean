import EventRing.Publisher
import EventRing.Proofs.Publishing
import EventRing.Proofs.Runs
/-!
# EventRing.Proofs.Production

A ring with its publishers, taking one act after another in any order.  A publisher claims, possibly
waits, writes into its open claim for as long as it likes, and publishes it; meanwhile others do the
same, gates come and go, counters move, and anybody asks for room.  An act that breaks off with a
fault ends the run, so it is no step.

Besides the ring, a state keeps two things for the sake of statements: which blocks were published,
and what the owner of a sequence has last written for it.  No act depends on them.

`Change` says what each act can do, in terms of what a claim and a publication leave behind.
-/

namespace EventRing

open EventRing.Action Sequencer

/-! ## State -/

/-- What a publisher is doing. -/
inductive Engagement where
  | free
  /-- Waiting for the slots of a claim of `n` sequences. -/
  | waiting (claim : Pending) (n : Nat)
  /-- Holding an open claim. -/
  | holding (block : Block)
  /-- Given back. -/
  | gone
  deriving DecidableEq

instance : Membership Int Block := ⟨fun b t => b.lo ≤ t ∧ t ≤ b.hi⟩

theorem Block.mem_iff {b : Block} {t : Int} : t ∈ b ↔ b.lo ≤ t ∧ t ≤ b.hi := Iff.rfl

instance (t : Int) (b : Block) : Decidable (t ∈ b) := inferInstanceAs (Decidable (_ ∧ _))

/-- The run of sequences that a publisher has taken.  A claim that waits has taken its sequences
only if there are many producers. -/
def Engagement.taken (kind : Producers) : Engagement → Option Block
  | .holding block => some block
  | .waiting claim _ =>
    match kind with
    | .one => none
    | .many => some ⟨claim.before + 1, claim.hi⟩
  | .free | .gone => none

/-- A ring and its publishers. -/
structure Production (g : Geometry) (ε : Type) where
  ring : Ring g ε
  publishers : List Engagement := []
  /-- The published blocks, the last one first. -/
  history : List Block := []
  /-- What the owner of a sequence has last written for it. -/
  drafts : Int → Option ε := fun _ => none

/-- The sequencer after some counters were let hold producers back. -/
def Sequencer.gated {g : Geometry} (s : Sequencer g) (ids : List CounterId) : Sequencer g :=
  { s with counters := s.counters.setAll ids s.cursor, gates := s.gates ++ ids }

namespace Production

variable {g : Geometry} {ε α : Type}

/-- A ring that nobody has used yet. -/
def fresh (g : Geometry) (kind : Producers) (parks : Bool) (factory : Nat → ε) :
    Production g ε where
  ring := Ring.make (Sequencer.fresh g kind parks) factory

abbrev sequencer (p : Production g ε) : Sequencer g := p.ring.sequencer

abbrev claimed (p : Production g ε) : Int := p.sequencer.claimed

abbrev kind (p : Production g ε) : Producers := p.sequencer.producers

/-- The value of a counter. -/
abbrev counter (p : Production g ε) (id : CounterId) : Int := p.sequencer.counters.value id

/-- There is a counter of that name. -/
abbrev Made (p : Production g ε) (id : CounterId) : Prop :=
  id < p.sequencer.counters.values.size

/-- The runs of sequences that are claimed and not yet published. -/
def taken (p : Production g ε) : List Block := p.publishers.filterMap (Engagement.taken p.kind)

/-- A sequence was published, together with the block that owns it. -/
def Published (p : Production g ε) (t : Int) : Prop := ∃ b ∈ p.history, t ∈ b

/-- Another sequencer, everything else the same. -/
def withSequencer (p : Production g ε) (s : Sequencer g) : Production g ε :=
  { p with ring := { p.ring with sequencer := s } }

/-- Other counters, everything else the same. -/
abbrev withCounters (p : Production g ε) (t : Counters) : Production g ε :=
  p.withSequencer { p.sequencer with counters := t }

/-- A publisher does something else. -/
def engaged (p : Production g ε) (i : Nat) (e : Engagement) : Production g ε :=
  { p with publishers := p.publishers.set i e }

/-! ## Steps -/

/-- What can be done with a ring for producers; publishers are named by the order they came in. -/
inductive Act (ε : Type) where
  /-- Ask for a publisher. -/
  | enlist
  /-- Give a publisher back. -/
  | dismiss (i : Nat)
  /-- Claim `n` sequences, or begin to wait for them. -/
  | claim (i n : Nat)
  /-- Claim `n` sequences if that needs no waiting. -/
  | tryClaim (i n : Nat)
  /-- Look at the gates again for the claim that a publisher waits for. -/
  | retry (i : Nat)
  /-- Write the event of a sequence of an open claim. -/
  | write (i : Nat) (sequence : Int) (writer : ε → Int → ε)
  /-- Publish an open claim. -/
  | publish (i : Nat)
  /-- Ask whether there is room. -/
  | ask (n : Nat)
  /-- Ask how much room there is. -/
  | measure
  /-- Let counters hold producers back. -/
  | gate (ids : List CounterId)
  /-- Take a counter off the gates. -/
  | ungate (id : CounterId)
  /-- Make a counter. -/
  | make (value : Int)
  /-- Move a counter. -/
  | move (id : CounterId) (value : Int)

/-- Runs an action of the ring and goes on, unless it breaks off. -/
def onRing (p : Production g ε) (act : Action (Ring g ε) α)
    (next : α → Production g ε → Option (Production g ε)) : Option (Production g ε) :=
  match act p.ring with
  | .ok a ring => next a { p with ring := ring }
  | .error .. => none

/-- A publisher goes on with what became of its claim of `n` sequences. -/
def engage (p : Production g ε) (i n : Nat) : Grant → Option (Production g ε)
  | .granted hi =>
    match Block.upTo hi n with
    | .ok block => some (p.engaged i (.holding block))
    | .error _ => none
  | .waiting claim _ => some (p.engaged i (.waiting claim n))

/-- One act; nothing if it cannot be done or breaks off. -/
@[grind =]
def step (p : Production g ε) : Act ε → Option (Production g ε)
  | .enlist => p.onRing Ring.takePublisher fun
    | .ok (), p => some { p with publishers := p.publishers ++ [.free] }
    | .error _, p => some p
  | .dismiss i =>
    if p.publishers[i]? = some .free then
      p.onRing Ring.releasePublisher fun _ p => some (p.engaged i .gone)
    else none
  | .claim i n =>
    if p.publishers[i]? = some .free then
      p.onRing (Ring.claim n) fun
        | .ok grant, p => p.engage i n grant
        | .error _, p => some p
    else none
  | .tryClaim i n =>
    if p.publishers[i]? = some .free then
      p.onRing (Ring.tryClaim n) fun
        | some hi, p => p.engage i n (.granted hi)
        | none, p => some p
    else none
  | .retry i =>
    match p.publishers[i]? with
    | some (.waiting claim n) => p.onRing (Ring.settle claim) fun grant p => p.engage i n grant
    | _ => none
  | .write i sequence writer =>
    match p.publishers[i]? with
    | some (.holding block) =>
      if sequence ∈ block then
        p.onRing (Ring.write writer sequence) fun _ q => some
          { q with drafts := fun t =>
              if t = sequence then some (writer (p.ring.event sequence) sequence) else q.drafts t }
      else none
    | _ => none
  | .publish i =>
    match p.publishers[i]? with
    | some (.holding block) => p.onRing (Ring.publishBlock block) fun _ p =>
      some { p.engaged i .free with history := block :: p.history }
    | _ => none
  | .ask n => p.onRing (Ring.onSequencer (Sequencer.hasCapacity n)) fun _ p => some p
  | .measure =>
    match p.sequencer.remaining with
    | .ok _ => some p
    | .error _ => none
  | .gate ids =>
    if ∀ id ∈ ids, p.Made id then
      p.onRing (Ring.onSequencer (Sequencer.addGates ids)) fun _ p => some p
    else none
  | .ungate id => p.onRing (Ring.onSequencer (Sequencer.removeGate id)) fun _ p => some p
  | .make value => p.onRing (Ring.onSequencer (Sequencer.makeCounter value)) fun _ p => some p
  | .move id value =>
    if p.Made id then
      p.onRing (Ring.onSequencer (Sequencer.setCounter id value)) fun _ p => some p
    else none

/-! ## What an act can do -/

/-- The run of `n` sequences up to `hi`. -/
abbrev blockTo (hi : Int) (n : Nat) : Block := ⟨hi - n + 1, hi⟩

/-- What an act can do. -/
inductive Change (p : Production g ε) : Act ε → Production g ε → Prop where
  | idle (act : Act ε) : Change p act p
  | lent {ring : Ring g ε} (alone : p.kind = .one → p.ring.publisherTaken = false)
      (sequencer : ring.sequencer = p.sequencer) (slots : ring.slots = p.ring.slots)
      (lent : p.kind = .one → ring.publisherTaken = true) :
      Change p .enlist { p with ring := ring, publishers := p.publishers ++ [.free] }
  | returned {i : Nat} {ring : Ring g ε} (free : p.publishers[i]? = some .free)
      (sequencer : ring.sequencer = p.sequencer) (slots : ring.slots = p.ring.slots) :
      Change p (.dismiss i) (engaged { p with ring := ring } i .gone)
  | claimed {act : Act ε} {i n : Nat} {hi : Int} {s : Sequencer g}
      (asks : act = .claim i n ∨ act = .tryClaim i n) (free : p.publishers[i]? = some .free)
      (taken : Taken p.sequencer n hi s) :
      Change p act ((p.withSequencer s).engaged i (.holding (blockTo hi n)))
  | parked {i n : Nat} {claim : Pending} {s : Sequencer g} (free : p.publishers[i]? = some .free)
      (parked : Parked p.sequencer n claim s) :
      Change p (.claim i n) ((p.withSequencer s).engaged i (.waiting claim n))
  | declined {i n : Nat} (free : p.publishers[i]? = some .free) :
      Change p (.tryClaim i n) (p.withSequencer (p.sequencer.read true))
  | resumed {i n : Nat} {claim : Pending} {s : Sequencer g}
      (waits : p.publishers[i]? = some (.waiting claim n))
      (settled : Settled p.sequencer claim s) :
      Change p (.retry i) ((p.withSequencer s).engaged i (.holding (blockTo claim.hi n)))
  | wrote {i : Nat} {block : Block} {t : Int} {writer : ε → Int → ε}
      (holds : p.publishers[i]? = some (.holding block)) (inside : t ∈ block) :
      Change p (.write i t writer)
        { p with
          ring := p.ring.putEvent t (writer (p.ring.event t) t)
          drafts := fun u => if u = t then some (writer (p.ring.event t) t) else p.drafts u }
  | published {i : Nat} {block : Block} {s : Sequencer g}
      (holds : p.publishers[i]? = some (.holding block))
      (shown : Shown p.sequencer block.lo block.hi s) :
      Change p (.publish i)
        { (p.withSequencer s).engaged i .free with history := block :: p.history }
  | asked {n : Nat} : Change p (.ask n) (p.withSequencer (p.sequencer.read false))
  | gated {ids : List CounterId} (made : ∀ id ∈ ids, p.Made id) :
      Change p (.gate ids) (p.withSequencer (p.sequencer.gated ids))
  | ungated {id : CounterId} :
      Change p (.ungate id) (p.withSequencer { p.sequencer with
        gates := p.sequencer.gates.filter (· ≠ id) })
  | made {value : Int} :
      Change p (.make value) (p.withCounters (p.sequencer.counters.make value).2)
  | moved {id : CounterId} {value : Int} (made : p.Made id) :
      Change p (.move id value) (p.withCounters (p.sequencer.counters.set id value))

variable {p q : Production g ε} {act : Act ε}

theorem onRing_eq_some {run : Action (Ring g ε) α} {next : α → Production g ε → Option (Production g ε)}
    (h : p.onRing run next = some q) :
    ∃ a ring, run p.ring = .ok a ring ∧ next a { p with ring := ring } = some q := by
  unfold onRing at h
  cases e : run p.ring with
  | ok a ring =>
      rw [e] at h
      exact ⟨a, ring, rfl, h⟩
  | error f ring =>
      rw [e] at h
      cases h

/-- An action of the sequencer changes nothing else. -/
theorem onSequencer_eq_some {run : Action (Sequencer g) α}
    {next : α → Production g ε → Option (Production g ε)}
    (h : p.onRing (Ring.onSequencer run) next = some q) :
    ∃ a s, run p.sequencer = .ok a s ∧ next a (p.withSequencer s) = some q := by
  obtain ⟨a, ring, ran, onwards⟩ := onRing_eq_some h
  obtain ⟨s, inner, rfl⟩ := onPart_eq_ok ran
  exact ⟨a, s, inner, onwards⟩

theorem withSequencer_self (p : Production g ε) : p.withSequencer p.sequencer = p := rfl

theorem engaged_same {i : Nat} {e : Engagement} (h : p.publishers[i]? = some e) :
    p.engaged i e = p := by
  obtain ⟨inside, rfl⟩ := List.getElem?_eq_some_iff.mp h
  unfold engaged
  rw [List.set_getElem_self]

theorem upTo_eq_ok_iff {hi : Int} {n : Nat} {block : Block} :
    Block.upTo hi n = .ok block ↔
      Word.Fits (hi - n) ∧ Word.Fits (hi - n + 1) ∧ block = blockTo hi n := by
  unfold Block.upTo
  constructor
  · intro h
    obtain ⟨before, rest⟩ := except_checked_eq_ok h
    obtain ⟨first, last⟩ := except_checked_eq_ok rest
    cases last
    exact ⟨before, first, rfl⟩
  · rintro ⟨before, first, rfl⟩
    rw [except_checked_of_fits before, except_checked_of_fits first]
    rfl

theorem engage_granted {i n : Nat} {hi : Int} (h : p.engage i n (.granted hi) = some q) :
    q = p.engaged i (.holding (blockTo hi n)) := by
  unfold engage at h
  cases upTo : Block.upTo hi n with
  | error f => simp [upTo] at h
  | ok block =>
      obtain ⟨-, -, rfl⟩ := upTo_eq_ok_iff.mp upTo
      simp only [upTo] at h
      exact (Option.some.inj h).symm

theorem engage_waiting {i n : Nat} {claim : Pending} {slowest : Int}
    (h : p.engage i n (.waiting claim slowest) = some q) :
    q = p.engaged i (.waiting claim n) :=
  (Option.some.inj h).symm

/-! ## The steps, one by one -/

theorem change_of_enlist (h : p.step .enlist = some q) : Change p .enlist q := by
  simp only [step] at h
  obtain ⟨lent, ring, ran, onwards⟩ := onRing_eq_some h
  unfold Ring.takePublisher at ran
  rw [get_bind_apply] at ran
  have kind : p.ring.sequencer.producers = p.kind := rfl
  cases many : p.kind with
  | many =>
      rw [kind, many] at ran
      cases ran
      cases onwards
      have other : p.kind ≠ .one := by
        rw [many]
        simp
      exact Change.lent (fun one => absurd one other) rfl rfl (fun one => absurd one other)
  | one =>
      simp only [kind, many] at ran
      by_cases out : p.ring.publisherTaken = true
      · rw [if_pos out] at ran
        cases ran
        cases onwards
        exact Change.idle _
      · rw [if_neg out] at ran
        cases ran
        cases onwards
        exact Change.lent (fun _ => Bool.eq_false_iff.mpr out) rfl rfl (fun _ => rfl)

theorem change_of_dismiss {i : Nat} (h : p.step (.dismiss i) = some q) :
    Change p (.dismiss i) q := by
  simp only [step] at h
  by_cases free : p.publishers[i]? = some .free
  · rw [if_pos free] at h
    obtain ⟨_, ring, ran, onwards⟩ := onRing_eq_some h
    cases onwards
    have same : ring.sequencer = p.sequencer ∧ ring.slots = p.ring.slots := by
      unfold Ring.releasePublisher at ran
      rw [modify_apply] at ran
      cases ran
      split <;> exact ⟨rfl, rfl⟩
    exact Change.returned free same.1 same.2
  · rw [if_neg free] at h
    cases h

theorem change_of_claim {i n : Nat} (h : p.step (.claim i n) = some q) :
    Change p (.claim i n) q := by
  simp only [step] at h
  by_cases free : p.publishers[i]? = some .free
  · rw [if_pos free] at h
    obtain ⟨answer, s, ran, onwards⟩ := onSequencer_eq_some h
    rcases answer with error | hi | ⟨claim, slowest⟩
    · cases onwards
      rw [(claim_refused ran).2]
      exact Change.idle _
    · rw [engage_granted onwards]
      exact Change.claimed (Or.inl rfl) free (claim_granted ran)
    · rw [engage_waiting onwards]
      exact Change.parked free (claim_waiting ran)
  · rw [if_neg free] at h
    cases h

theorem change_of_tryClaim {i n : Nat} (h : p.step (.tryClaim i n) = some q) :
    Change p (.tryClaim i n) q := by
  simp only [step] at h
  by_cases free : p.publishers[i]? = some .free
  · rw [if_pos free] at h
    obtain ⟨answer, s, ran, onwards⟩ := onSequencer_eq_some h
    cases answer with
    | none =>
        cases onwards
        rcases tryClaim_none ran with rfl | rfl
        · exact Change.idle _
        · exact Change.declined free
    | some hi =>
        rw [engage_granted onwards]
        exact Change.claimed (Or.inr rfl) free (tryClaim_some ran)
  · rw [if_neg free] at h
    cases h

theorem change_of_retry {i : Nat} (h : p.step (.retry i) = some q) : Change p (.retry i) q := by
  simp only [step] at h
  split at h
  · rename_i claim n waits
    obtain ⟨grant, s, ran, onwards⟩ := onSequencer_eq_some h
    cases grant with
    | granted hi =>
        obtain ⟨rfl, settled⟩ := settle_granted ran
        rw [engage_granted onwards]
        exact Change.resumed waits settled
    | waiting again slowest =>
        obtain ⟨rfl, rfl⟩ := settle_waiting ran
        rw [engage_waiting onwards, withSequencer_self, engaged_same waits]
        exact Change.idle _
  · cases h

theorem change_of_write {i : Nat} {t : Int} {writer : ε → Int → ε}
    (h : p.step (.write i t writer) = some q) : Change p (.write i t writer) q := by
  simp only [step] at h
  split at h
  · rename_i block holds
    by_cases inside : t ∈ block
    · rw [if_pos inside] at h
      obtain ⟨_, ring, ran, onwards⟩ := onRing_eq_some h
      cases ran
      cases onwards
      exact Change.wrote holds inside
    · rw [if_neg inside] at h
      cases h
  · cases h

theorem change_of_publish {i : Nat} (h : p.step (.publish i) = some q) :
    Change p (.publish i) q := by
  simp only [step] at h
  split at h
  · rename_i block holds
    obtain ⟨_, s, ran, onwards⟩ := onSequencer_eq_some h
    cases onwards
    exact Change.published holds (publishRange_eq_ok ran).2
  · cases h

theorem change_of_gate {ids : List CounterId} (h : p.step (.gate ids) = some q) :
    Change p (.gate ids) q := by
  simp only [step] at h
  by_cases made : ∀ id ∈ ids, p.Made id
  · rw [if_pos made] at h
    obtain ⟨_, s, ran, onwards⟩ := onSequencer_eq_some h
    cases ran
    cases onwards
    exact Change.gated made
  · rw [if_neg made] at h
    cases h

theorem change_of_move {id : CounterId} {value : Int} (h : p.step (.move id value) = some q) :
    Change p (.move id value) q := by
  simp only [step] at h
  by_cases made : p.Made id
  · rw [if_pos made] at h
    obtain ⟨_, s, ran, onwards⟩ := onSequencer_eq_some h
    cases ran
    cases onwards
    exact Change.moved made
  · rw [if_neg made] at h
    cases h

/-- Every step is one of the changes. -/
theorem change_of_step (h : p.step act = some q) : Change p act q := by
  cases act with
  | enlist => exact change_of_enlist h
  | dismiss i => exact change_of_dismiss h
  | claim i n => exact change_of_claim h
  | tryClaim i n => exact change_of_tryClaim h
  | retry i => exact change_of_retry h
  | write i t writer => exact change_of_write h
  | publish i => exact change_of_publish h
  | ask n =>
      simp only [step] at h
      obtain ⟨_, s, ran, onwards⟩ := onSequencer_eq_some h
      cases onwards
      rcases hasCapacity_eq_ok ran with rfl | rfl
      · exact Change.idle _
      · exact Change.asked
  | measure =>
      simp only [step] at h
      split at h
      · cases h
        exact Change.idle _
      · cases h
  | gate ids => exact change_of_gate h
  | ungate id =>
      simp only [step] at h
      obtain ⟨_, s, ran, onwards⟩ := onSequencer_eq_some h
      cases ran
      cases onwards
      exact Change.ungated
  | make value =>
      simp only [step] at h
      obtain ⟨_, s, ran, onwards⟩ := onSequencer_eq_some h
      cases ran
      cases onwards
      exact Change.made
  | move id value => exact change_of_move h

/-! ## Acts that can be done -/

theorem onSequencer_of_ok {run : Action (Sequencer g) α} {a : α} {s : Sequencer g}
    {next : α → Production g ε → Option (Production g ε)} (ran : run p.sequencer = .ok a s) :
    p.onRing (Ring.onSequencer run) next = next a (p.withSequencer s) := by
  have inRing : Ring.onSequencer run p.ring = .ok a { p.ring with sequencer := s } := onPart_of_ok ran
  unfold onRing
  rw [inRing]
  rfl

theorem step_enlist (many : p.kind = .many) :
    p.step .enlist = some { p with publishers := p.publishers ++ [.free] } := by
  have lent : Ring.takePublisher p.ring = .ok (.ok ()) p.ring := by
    unfold Ring.takePublisher
    rw [get_bind_apply]
    have kind : p.ring.sequencer.producers = .many := many
    rw [kind]
    rfl
  simp only [step, onRing]
  rw [lent]

theorem step_gate {ids : List CounterId} (made : ∀ id ∈ ids, p.Made id) :
    p.step (.gate ids) = some (p.withSequencer (p.sequencer.gated ids)) := by
  simp only [step]
  rw [if_pos made]
  rfl

theorem step_move {id : CounterId} (made : p.Made id) (value : Int) :
    p.step (.move id value) = some (p.withCounters (p.sequencer.counters.set id value)) := by
  simp only [step]
  rw [if_pos made]
  rfl

theorem step_publish {i : Nat} {block : Block} (holds : p.publishers[i]? = some (.holding block))
    (upright : block.lo ≤ block.hi) :
    ∃ s, Shown p.sequencer block.lo block.hi s ∧ p.step (.publish i) =
      some { (p.withSequencer s).engaged i .free with history := block :: p.history } := by
  obtain ⟨s, ran⟩ := publishRange_of_le (s := p.sequencer) upright
  refine ⟨s, (publishRange_eq_ok ran).2, ?_⟩
  simp only [step, holds]
  exact onSequencer_of_ok ran

theorem step_tryClaim {i n : Nat} {hi : Int} {s : Sequencer g}
    (free : p.publishers[i]? = some .free)
    (ran : Sequencer.tryClaim n p.sequencer = .ok (some hi) s)
    (low : Word.Fits (hi - n)) (first : Word.Fits (hi - n + 1)) :
    p.step (.tryClaim i n) = some ((p.withSequencer s).engaged i (.holding (blockTo hi n))) := by
  simp only [step]
  rw [if_pos free]
  refine (onSequencer_of_ok ran).trans ?_
  unfold engage
  simp only [upTo_eq_ok_iff.mpr ⟨low, first, rfl⟩]

end Production

end EventRing
