import EventRing.Proofs.Caching
import EventRing.Proofs.Gating
/-!
# EventRing.Proofs.Capacity

What producers are told about room.  On a run on which no claim waits, gates move forward only and one
producer adds them between its claims (`Measured`), the sequencer stays metered: no gate is more than a
ring behind the claim position (`Spread`), and the cached gate is not ahead of any.  So the three answers
about room agree with each other wherever the run comes to (`Exact`): how much room there is, whether
there is room for a claim, and what becomes of the claim.

A question that changes nothing but the cached gate is then forgotten: whatever follows is answered as if
it had not been asked (`Indistinguishable`).

Sequences are 64-bit words, and a claim that would lead beyond the greatest breaks off, asked for or made.
-/

namespace EventRing.Production

open Sequencer

variable {g : Geometry} {ε α : Type} {p q : Production g ε} {act : Act ε}

/-! ## The condition -/

/-- Claims need not wait, gates move forward only, and one producer adds gates only while no claim is
open. -/
def Measured (p : Production g ε) : Act ε → Prop
  | .claim _ n => 1 ≤ n → n ≤ g.size → p.sequencer.Room n
  | .retry _ => False
  | .gate _ => p.kind = .one → p.taken = []
  | .move id value => id ∈ p.sequencer.gates → p.counter id ≤ value
  | _ => True

instance (p : Production g ε) : (act : Act ε) → Decidable (p.Measured act)
  | .claim _ n => inferInstanceAs (Decidable (1 ≤ n → n ≤ g.size → p.sequencer.Room n))
  | .retry _ => isFalse id
  | .gate _ => inferInstanceAs (Decidable (p.kind = .one → p.taken = []))
  | .move id value => inferInstanceAs (Decidable (id ∈ p.sequencer.gates → p.counter id ≤ value))
  | .enlist | .dismiss _ | .tryClaim _ _ | .write _ _ _ | .publish _ | .ask _ | .measure |
    .ungate _ | .make _ => isTrue trivial

/-- The cursor is the claim position, unless one producer has an open claim. -/
theorem Sound.cursor_eq (sound : p.Sound) (closed : p.kind = .one → p.taken = []) :
    p.sequencer.cursor = p.claimed := by
  cases kind : p.kind with
  | one =>
      refine (sound.alone kind).rest fun i b holds => ?_
      have listed := mem_taken_iff.mpr ⟨i, takes_of_holds holds⟩
      rw [closed kind] at listed
      cases listed
  | many => exact cursor_of_many kind

/-- The cursor is the claim position where a publisher is free. -/
theorem Sound.cursor_of_free {i : Nat} (sound : p.Sound) (free : p.publishers[i]? = some .free) :
    p.sequencer.cursor = p.claimed := by
  cases kind : p.kind with
  | one => exact (sound.alone kind).cursor_eq free nofun nofun
  | many => exact cursor_of_many kind

theorem orderly_of_measured (sound : p.Sound) (measured : p.Measured act) : p.Orderly act := by
  cases act with
  | gate ids =>
      intro _
      rw [sound.cursor_eq measured]
      exact Or.inr sound.cache_le
  | move id value => exact measured
  | _ => trivial

/-! ## How far the gates are behind -/

/-- No gate is more than a ring behind the claim position. -/
def Spread (p : Production g ε) : Prop := ∀ id ∈ p.sequencer.gates, p.claimed - g.size ≤ p.counter id

theorem Spread.same (spread : p.Spread) (gates : q.sequencer.gates = p.sequencer.gates)
    (counters : q.sequencer.counters = p.sequencer.counters) (claimed : q.claimed = p.claimed) :
    q.Spread := by
  unfold Spread counter
  rw [gates, counters, claimed]
  exact spread

/-- What the next sequences are claimed after is released, if they need not wait. -/
theorem spread_of_change (sound : p.Sound) (behind : p.CacheBehind) (spread : p.Spread)
    (measured : p.Measured act) (h : Change p act q) : q.Spread := by
  cases h with
  | idle => exact spread
  | lent _ sequencer =>
      exact spread.same (congrArg _ sequencer) (congrArg _ sequencer)
        (congrArg Sequencer.claimed sequencer)
  | returned _ sequencer =>
      exact spread.same (congrArg _ sequencer) (congrArg _ sequencer)
        (congrArg Sequencer.claimed sequencer)
  | @claimed _ _ n hi s _ _ taken =>
      intro id gate
      show s.claimed - g.size ≤ s.counters.value id
      rw [taken.moved.claimed_eq, taken.admitted.counters]
      refine behind.released taken.admitted id ?_
      rw [← taken.admitted.gates]
      exact gate
  | @parked i n claim s _ parked =>
      intro id gate
      show s.claimed - g.size ≤ s.counters.value id
      rw [parked.counters]
      have gate : id ∈ p.sequencer.gates := parked.gates ▸ gate
      cases ledger : p.sequencer.ledger with
      | solo c =>
          rw [claimed_solo (parked.solo c ledger).1, ← claimed_solo ledger]
          exact spread id gate
      | shared laps =>
          rw [claimed_shared (parked.shared laps ledger).1, (parked.shared laps ledger).2]
          exact Int.le_trans (measured parked.one_le parked.le_size) (Counters.least_le_value gate)
  | declined => exact spread.same rfl rfl claimed_read
  | resumed => exact measured.elim
  | wrote => exact spread
  | published _ shown => exact spread.same shown.gates shown.counters shown.claimed_eq
  | asked => exact spread.same rfl rfl claimed_read
  | @gated ids made =>
      intro id gate
      show p.claimed - g.size ≤ (p.sequencer.counters.setAll ids p.sequencer.cursor).value id
      have size := g.size_cast_pos
      by_cases listed : id ∈ ids
      · rw [Counters.value_setAll, if_pos ⟨listed, made id listed⟩, sound.cursor_eq measured]
        omega
      · rw [Counters.value_setAll_of_not_mem listed]
        exact spread id ((List.mem_append.mp gate).resolve_right listed)
  | ungated => exact fun id gate => spread id (List.mem_filter.mp gate).1
  | @made value =>
      intro id gate
      show p.claimed - g.size ≤ (p.sequencer.counters.make value).2.value id
      rw [Counters.value_make value (behind id gate).1]
      exact spread id gate
  | @moved id value made =>
      intro other gate
      show p.claimed - g.size ≤ (p.sequencer.counters.set id value).value other
      have low := spread other gate
      rw [Counters.value_set]
      split
      · rename_i same
        obtain ⟨rfl, -⟩ := same
        exact Int.le_trans low (measured gate)
      · exact low

/-- What holds wherever a measured run comes to. -/
structure Metered (p : Production g ε) : Prop where
  sound : p.Sound
  behind : p.CacheBehind
  spread : p.Spread

theorem metered_fresh (g : Geometry) (kind : Producers) (parks : Bool) (factory : Nat → ε) :
    (fresh g kind parks factory).Metered :=
  ⟨sound_fresh g kind parks factory, fun _ gate => (nomatch gate), fun _ gate => (nomatch gate)⟩

theorem metered_of_step (metered : p.Metered) (measured : p.Measured act) (made : p.step act = some q) :
    q.Metered := by
  obtain ⟨sound, behind, spread⟩ := metered
  have change := change_of_step made
  exact ⟨sound_of_change sound change,
    cacheBehind_of_change sound behind (orderly_of_measured sound measured) change,
    spread_of_change sound behind spread measured change⟩

theorem metered_of_reaches {kind : Producers} {parks : Bool} {factory : Nat → ε}
    (reached : Reaches step Measured (fresh g kind parks factory) p) : p.Metered :=
  reached.invariant (metered_fresh g kind parks factory) metered_of_step

theorem Metered.sequencer (metered : p.Metered) : p.sequencer.Metered := by
  have size := g.size_cast_pos
  refine ⟨metered.sound.start, ?_, ?_⟩
  · exact Counters.le_least_iff.mpr ⟨metered.sound.cache_le, fun id gate => (metered.behind id gate).2⟩
  · exact Counters.le_least_iff.mpr ⟨by omega, metered.spread⟩

/-! ## Answers -/

/-- What is answered to an act. -/
inductive Answer where
  | done
  | lent (result : Except RingError Unit)
  | claimed (result : Except RingError Grant)
  | tried (result : Option Int)
  | settled (grant : Grant)
  | enough (room : Bool)
  | room (count : Int)
  | gates (count : Nat)
  | ungated (found : Bool) (count : Nat)
  | made (id : CounterId)

/-- The answer to an act, or the fault that it breaks off with; nothing if it cannot be done. -/
def answer (p : Production g ε) : Act ε → Option (Except Fault Answer)
  | .enlist => some (.lent <$> Ring.takePublisher.answer p.ring)
  | .dismiss i =>
    if p.publishers[i]? = some .free then
      some ((fun _ => .done) <$> Ring.releasePublisher.answer p.ring)
    else none
  | .claim i n =>
    if p.publishers[i]? = some .free then some (.claimed <$> (Ring.claim n).answer p.ring) else none
  | .tryClaim i n =>
    if p.publishers[i]? = some .free then some (.tried <$> (Ring.tryClaim n).answer p.ring) else none
  | .retry i =>
    match p.publishers[i]? with
    | some (.waiting claim _) => some (.settled <$> (Ring.settle claim).answer p.ring)
    | _ => none
  | .write i sequence writer =>
    match p.publishers[i]? with
    | some (.holding block) =>
      if sequence ∈ block then
        some ((fun _ => .done) <$> (Ring.write writer sequence).answer p.ring)
      else none
    | _ => none
  | .publish i =>
    match p.publishers[i]? with
    | some (.holding block) => some ((fun _ => .done) <$> (Ring.publishBlock block).answer p.ring)
    | _ => none
  | .ask n => some (.enough <$> (Ring.onSequencer (Sequencer.hasCapacity n)).answer p.ring)
  | .measure => some (.room <$> p.sequencer.remaining)
  | .gate ids =>
    if ∀ id ∈ ids, p.Made id then
      some (.gates <$> (Ring.onSequencer (Sequencer.addGates ids)).answer p.ring)
    else none
  | .ungate id =>
    some ((fun gates => .ungated gates.1 gates.2) <$>
      (Ring.onSequencer (Sequencer.removeGate id)).answer p.ring)
  | .make value =>
    some (.made <$> (Ring.onSequencer (Sequencer.makeCounter value)).answer p.ring)
  | .move id value =>
    if p.Made id then
      some ((fun _ => .done) <$> (Ring.onSequencer (Sequencer.setCounter id value)).answer p.ring)
    else none

/-! ## The cache does not show -/

/-- Two states that differ in nothing but the cached gate. -/
def Kindred (p q : Production g ε) : Prop :=
  ∃ cache, q = p.withSequencer (p.sequencer.recached cache)

namespace Kindred

theorem ring (kindred : Kindred p q) : Ring.Recached p.ring q.ring := by
  obtain ⟨cache, rfl⟩ := kindred
  exact ⟨cache, rfl⟩

theorem publishers (kindred : Kindred p q) : q.publishers = p.publishers := by
  obtain ⟨cache, rfl⟩ := kindred
  rfl

theorem made (kindred : Kindred p q) (id : CounterId) : q.Made id = p.Made id := by
  obtain ⟨cache, rfl⟩ := kindred
  rfl

theorem remaining (kindred : Kindred p q) : q.sequencer.remaining = p.sequencer.remaining := by
  obtain ⟨cache, rfl⟩ := kindred
  rfl

theorem event (kindred : Kindred p q) (t : Int) : q.ring.event t = p.ring.event t := by
  obtain ⟨cache, rfl⟩ := kindred
  rfl

theorem engaged (kindred : Kindred p q) (i : Nat) (e : Engagement) :
    Kindred (p.engaged i e) (q.engaged i e) := by
  obtain ⟨cache, rfl⟩ := kindred
  exact ⟨cache, rfl⟩

theorem engage (kindred : Kindred p q) (i n : Nat) (grant : Grant) :
    Option.Rel Kindred (p.engage i n grant) (q.engage i n grant) := by
  cases grant with
  | granted hi =>
      unfold Production.engage
      simp only
      cases Block.upTo hi n with
      | ok block => exact .some (kindred.engaged i _)
      | error fault => exact .none
  | waiting claim slowest => exact .some (kindred.engaged i _)

/-- An action that ends alike on the rings leads on to states that differ in nothing else either. -/
theorem onRing {run : Action (Ring g ε) α} {next next' : α → Production g ε → Option (Production g ε)}
    (kindred : Kindred p q) (alike : Alike (fun _ => Ring.Recached) (run p.ring) (run q.ring))
    (rest : ∀ {a p q}, Kindred p q → Option.Rel Kindred (next a p) (next' a q)) :
    Option.Rel Kindred (p.onRing run next) (q.onRing run next') := by
  obtain ⟨cache, rfl⟩ := kindred
  unfold Production.onRing
  generalize run p.ring = x at alike
  generalize run (p.withSequencer _).ring = y at alike
  cases alike with
  | answered together =>
      obtain ⟨cache, rfl⟩ := together
      exact rest ⟨cache, rfl⟩
  | faulted => exact .none

/-- What is done under a condition on both sides. -/
theorem guarded {c : Prop} [Decidable c] {x y : Option (Production g ε)}
    (rest : c → Option.Rel Kindred x y) :
    Option.Rel Kindred (if c then x else none) (if c then y else none) := by
  split
  · exact rest ‹c›
  · exact .none

variable (kindred : Kindred p q) (meteredP : p.Metered) (meteredQ : q.Metered)
  (measured : p.Measured act)
include kindred meteredP meteredQ measured

/-- A measured act is answered the same in both states. -/
theorem answer_eq : q.answer act = p.answer act := by
  have same := kindred.ring
  have meteredR := meteredP.sequencer
  have meteredS := meteredQ.sequencer
  cases act with
  | enlist => simp only [answer, same.takePublisher.answer_eq]
  | dismiss i => simp only [answer, kindred.publishers, same.releasePublisher.answer_eq]
  | claim i n =>
      simp only [answer, kindred.publishers]
      by_cases free : p.publishers[i]? = some .free
      · have still := meteredP.sound.cursor_of_free free
        rw [if_pos free, if_pos free, (same.claim meteredR meteredS still measured).answer_eq]
      · rw [if_neg free, if_neg free]
  | tryClaim i n =>
      simp only [answer, kindred.publishers]
      by_cases free : p.publishers[i]? = some .free
      · have still := meteredP.sound.cursor_of_free free
        rw [if_pos free, if_pos free, (same.tryClaim meteredR meteredS still n).answer_eq]
      · rw [if_neg free, if_neg free]
  | retry i => exact measured.elim
  | write i t writer => simp only [answer, kindred.publishers, (same.write writer t).answer_eq]
  | publish i => simp only [answer, kindred.publishers, (same.publishBlock _).answer_eq]
  | ask n =>
      have alike := same.onSequencer (same.sequencer.hasCapacity meteredR meteredS n)
      simp only [answer, alike.answer_eq]
  | measure => simp only [answer, kindred.remaining]
  | gate ids =>
      simp only [answer, kindred.made, (same.onSequencer (same.sequencer.addGates ids)).answer_eq]
  | ungate id => simp only [answer, (same.onSequencer (same.sequencer.removeGate id)).answer_eq]
  | make value => simp only [answer, (same.onSequencer (same.sequencer.makeCounter value)).answer_eq]
  | move id value =>
      simp only [answer, kindred.made, (same.onSequencer (same.sequencer.setCounter id value)).answer_eq]

/-- If a measured act leads on from one state it does from the other, to such states again. -/
theorem step : Option.Rel Kindred (p.step act) (q.step act) := by
  have same := kindred.ring
  have meteredR := meteredP.sequencer
  have meteredS := meteredQ.sequencer
  cases act with
  | enlist =>
      simp only [Production.step]
      refine kindred.onRing same.takePublisher ?_
      rintro (error | _) p q kindred
      · exact .some kindred
      · obtain ⟨cache, rfl⟩ := kindred
        exact .some ⟨cache, rfl⟩
  | dismiss i =>
      simp only [Production.step, kindred.publishers]
      exact guarded fun _ =>
        kindred.onRing same.releasePublisher fun kindred => .some (kindred.engaged i _)
  | claim i n =>
      simp only [Production.step, kindred.publishers]
      refine guarded fun free => ?_
      have still := meteredP.sound.cursor_of_free free
      refine kindred.onRing (same.claim meteredR meteredS still measured) ?_
      rintro (error | grant) p q kindred
      · exact .some kindred
      · exact kindred.engage i n grant
  | tryClaim i n =>
      simp only [Production.step, kindred.publishers]
      refine guarded fun free => ?_
      have still := meteredP.sound.cursor_of_free free
      refine kindred.onRing (same.tryClaim meteredR meteredS still n) ?_
      rintro (_ | hi) p q kindred
      · exact .some kindred
      · exact kindred.engage i n (.granted hi)
  | retry i => exact measured.elim
  | write i t writer =>
      simp only [Production.step, kindred.publishers, kindred.event]
      rcases p.publishers[i]? with _ | _ | _ | block | _
      case some.holding =>
        refine guarded fun _ => kindred.onRing (same.write writer t) ?_
        rintro _ p q ⟨cache, rfl⟩
        exact .some ⟨cache, rfl⟩
      all_goals exact .none
  | publish i =>
      simp only [Production.step, kindred.publishers]
      rcases p.publishers[i]? with _ | _ | _ | block | _
      case some.holding =>
        refine kindred.onRing (same.publishBlock block) ?_
        rintro _ p q ⟨cache, rfl⟩
        exact .some ⟨cache, rfl⟩
      all_goals exact .none
  | ask n =>
      have alike := same.onSequencer (same.sequencer.hasCapacity meteredR meteredS n)
      exact kindred.onRing alike fun kindred => .some kindred
  | measure =>
      simp only [Production.step, kindred.remaining]
      split
      · exact .some kindred
      · exact .none
  | gate ids =>
      simp only [Production.step, kindred.made]
      exact guarded fun _ =>
        kindred.onRing (same.onSequencer (same.sequencer.addGates ids)) fun kindred => .some kindred
  | ungate id =>
      exact kindred.onRing (same.onSequencer (same.sequencer.removeGate id)) fun kindred => .some kindred
  | make value =>
      exact kindred.onRing (same.onSequencer (same.sequencer.makeCounter value))
        fun kindred => .some kindred
  | move id value =>
      simp only [Production.step, kindred.made]
      exact guarded fun _ =>
        kindred.onRing (same.onSequencer (same.sequencer.setCounter id value)) fun kindred => .some kindred

end Kindred

/-- The same acts are measured in both states. -/
theorem Kindred.measured_iff (kindred : Kindred p q) : q.Measured act ↔ p.Measured act := by
  obtain ⟨cache, rfl⟩ := kindred
  cases act <;> exact Iff.rfl

/-- No measured run tells two states apart: it can be made from both or from neither, and where it leads
they differ in nothing but the cached gate and answer every measured act the same. -/
def Indistinguishable (p q : Production g ε) : Prop :=
  ∀ acts, Option.Rel
    (fun p q => Kindred p q ∧ ∀ act, p.Measured act → q.answer act = p.answer act)
    (walk step Measured p acts) (walk step Measured q acts)

theorem Kindred.indistinguishable (kindred : Kindred p q) (meteredP : p.Metered)
    (meteredQ : q.Metered) : Indistinguishable p q := by
  intro acts
  induction acts generalizing p q with
  | nil => exact .some ⟨kindred, fun act => kindred.answer_eq meteredP meteredQ⟩
  | cons act rest ih =>
      unfold walk
      by_cases measured : p.Measured act
      · have measuredQ : q.Measured act := kindred.measured_iff.mpr measured
        rw [if_pos measured, if_pos measuredQ]
        have next := kindred.step meteredP meteredQ measured
        cases stepP : p.step act with
        | none =>
            rw [stepP] at next
            cases stepQ : q.step act with
            | none => exact .none
            | some q' =>
                rw [stepQ] at next
                cases next
        | some p' =>
            rw [stepP] at next
            cases stepQ : q.step act with
            | none =>
                rw [stepQ] at next
                cases next
            | some q' =>
                rw [stepQ] at next
                cases next with
                | some kindred =>
                    exact ih kindred (metered_of_step meteredP measured stepP)
                      (metered_of_step meteredQ measuredQ stepQ)
      · rw [if_neg measured, if_neg fun measuredQ => measured (kindred.measured_iff.mp measuredQ)]
        exact .none

/-! ## Room -/

/-- The act is a question for room, or a claim that is refused. -/
inductive Futile (p : Production g ε) : Act ε → Prop where
  | asked (n : Nat) : Futile p (.ask n)
  | refused {i n : Nat} (refused : (Sequencer.tryClaim n).answer p.sequencer = .ok none) :
      Futile p (.tryClaim i n)
  | invalid {i n : Nat} (invalid : ¬ (1 ≤ n ∧ n ≤ g.size)) : Futile p (.claim i n)

theorem kindred_of_futile (metered : p.Metered) (futile : p.Futile act) (made : p.step act = some q) :
    Kindred p q := by
  have same : Kindred p p := ⟨p.sequencer.cachedGate, rfl⟩
  cases futile with
  | asked n =>
      simp only [step] at made
      obtain ⟨_, s, ran, onwards⟩ := onSequencer_eq_some made
      cases onwards
      rcases hasCapacity_eq_ok ran with rfl | rfl
      · exact same
      · exact ⟨p.sequencer.slowestGate p.claimed, rfl⟩
  | @refused i n refused =>
      simp only [step] at made
      split at made
      · rename_i free
        obtain ⟨result, s, ran, onwards⟩ := onSequencer_eq_some made
        obtain rfl : result = none := by
          simpa only [Action.answer, ran, Except.ok.injEq] using refused
        cases onwards
        obtain ⟨cache, rfl⟩ := Recached.of_looked
          (fun _ => metered.sound.cursor_of_free free) (tryClaim_none ran)
        exact ⟨cache, rfl⟩
      · cases made
  | @invalid i n invalid =>
      simp only [step] at made
      split at made
      · obtain ⟨result, s, ran, onwards⟩ := onSequencer_eq_some made
        rw [claim_of_invalid invalid] at ran
        cases ran
        cases onwards
        exact same
      · cases made

theorem measured_of_futile (futile : p.Futile act) : p.Measured act := by
  cases futile with
  | asked n => trivial
  | refused => trivial
  | invalid invalid => exact fun one most => absurd ⟨one, most⟩ invalid

/-- Wherever a measured run leads, the answers about room are exact, and those that claim nothing leave
no trace: the cursor and the room stay as they are, and whatever follows is answered as if they had not
been given. -/
theorem capacity_answers_are_exact {kind : Producers} {parks : Bool} {factory : Nat → ε}
    (reached : Reaches step Measured (fresh g kind parks factory) p) :
    (∃ r, p.sequencer.Exact r) ∧
    ∀ {act q}, p.Futile act → p.step act = some q →
      q.sequencer.cursor = p.sequencer.cursor ∧
      q.sequencer.remaining = p.sequencer.remaining ∧ Indistinguishable p q := by
  have metered := metered_of_reaches reached
  refine ⟨⟨_, metered.sequencer.exact⟩, fun {act q} futile made => ?_⟩
  have kindred := kindred_of_futile metered futile made
  have after : q.Metered := metered_of_step metered (measured_of_futile futile) made
  refine ⟨?_, kindred.remaining, kindred.indistinguishable metered after⟩
  obtain ⟨cache, rfl⟩ := kindred
  rfl

/-- A ring of two slots after one lap, with one of them released: there is room for one claim, and a claim
of two that is refused reads the gates but leaves no trace. -/
theorem capacity_answers_are_exact_size_two :
    ∃ p q : Production ⟨1, by decide⟩ Unit,
      Reaches step Measured (fresh ⟨1, by decide⟩ .one false fun _ => ()) p ∧ p.sequencer.Exact 1 ∧
      p.step (.tryClaim 0 2) = some q ∧ p.sequencer.cachedGate = -1 ∧ q.sequencer.cachedGate = 0 ∧
      Indistinguishable p q := by
  have walked : ∃ p q : Production ⟨1, by decide⟩ Unit,
      walk step Measured (fresh ⟨1, by decide⟩ .one false fun _ => ())
        [.enlist, .make (-1), .gate [0], .claim 0 2, .publish 0, .move 0 0] = some p ∧
      p.sequencer.remaining = .ok 1 ∧ (Sequencer.tryClaim 2).answer p.sequencer = .ok none ∧
      p.step (.tryClaim 0 2) = some q ∧ p.sequencer.cachedGate = -1 ∧ q.sequencer.cachedGate = 0 :=
    ⟨_, _, rfl, rfl, rfl, rfl, rfl, rfl⟩
  obtain ⟨p, q, walked, remaining, refused, made, before, after⟩ := walked
  have reached := reaches_of_walk walked
  obtain ⟨⟨r, exact⟩, traceless⟩ := capacity_answers_are_exact reached
  obtain rfl : r = 1 := Except.ok.inj (exact.remaining.symm.trans remaining)
  exact ⟨p, q, reached, exact, made, before, after, (traceless (.refused refused) made).2.2⟩

/-- A ring of 2^62 slots that are claimed and published twice has all its room left, but no sequence: a
question for one more breaks off. -/
theorem room_without_sequences :
    ∃ p : Production ⟨62, by decide⟩ Unit,
      walk step Measured (fresh ⟨62, by decide⟩ .one false fun _ => ())
        [.enlist, .claim 0 4611686018427387904, .publish 0, .claim 0 4611686018427387904, .publish 0] =
          some p ∧
      p.sequencer.remaining = .ok 4611686018427387904 ∧
      (Sequencer.hasCapacity 1).answer p.sequencer = .error .overflow ∧
      (Sequencer.tryClaim 1).answer p.sequencer = .error .overflow :=
  ⟨_, rfl, rfl, rfl, rfl⟩

end EventRing.Production
