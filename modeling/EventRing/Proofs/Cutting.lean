import EventRing.Proofs.Rounds
/-!
# EventRing.Proofs.Cutting

Ranges of events that are cut at the physical end of the ring.  A view of a range goes on as far as the range
does, or the lap of its first sequence (`Geometry.cut`), and shows the events of just these sequences
(`Batch.Shows`).

A processor that hands over runs cuts what its wait found again and again, from the end of the one run on.
Its runs cover the range (`covered`), no run leaves its lap, and so there is one for each lap.  The range ends
early if a run fails and the policy makes that stop the processor (`Piece.fatal`).  In between the policy is
asked about the very run that failed, since a view from the first to the last sequence of a run is that run.
-/

namespace EventRing

open EventRing.Action
open Processor (Plan Request Phase)

/-- A range of sequences that is not empty and whose length can be told. -/
structure Stretch (lo hi : Int) : Prop where
  low : Word.least ≤ lo
  upright : lo ≤ hi
  below : hi < Word.greatest
  short : hi - lo + 1 ≤ Word.greatest

namespace Geometry

variable {g : Geometry} {s t lo hi : Int}

/-! ## Laps -/

/-- The last sequence of the lap of a sequence: the one in the last slot. -/
def lastOfLap (g : Geometry) (s : Int) : Int := s - s % g.size + g.size - 1

theorem lastOfLap_eq (g : Geometry) (s : Int) : g.lastOfLap s = g.size * (s / g.size + 1) - 1 := by
  have split := Int.mul_ediv_add_emod s g.size
  rw [lastOfLap, Int.mul_add, Int.mul_one]
  omega

theorem le_lastOfLap (g : Geometry) (s : Int) : s ≤ g.lastOfLap s := by
  have := Int.emod_lt_of_pos s g.size_cast_pos
  unfold lastOfLap
  omega

/-- A later sequence is on the same lap up to the last one of it. -/
theorem ediv_eq_iff_le_lastOfLap (above : s ≤ t) : t / g.size = s / g.size ↔ t ≤ g.lastOfLap s := by
  have positive := g.size_cast_pos
  have grows : s / g.size ≤ t / g.size := Int.ediv_le_ediv positive above
  have inside : t ≤ g.lastOfLap s ↔ t / g.size < s / g.size + 1 := by
    rw [Int.ediv_lt_iff_lt_mul positive, lastOfLap_eq, Int.mul_comm]
    omega
  omega

theorem lastOfLap_add_one_ediv (g : Geometry) (s : Int) :
    (g.lastOfLap s + 1) / g.size = s / g.size + 1 := by
  rw [lastOfLap_eq, Int.sub_add_cancel, Int.mul_ediv_cancel_left _ (Int.ne_of_gt g.size_cast_pos)]

/-- Up to the last one of its lap, the sequences behind one are in the slots behind its slot. -/
theorem slot_add {i : Nat} (inside : s + i ≤ g.lastOfLap s) : (g.slot (s + i) : Nat) = g.slot s + i := by
  have positive := g.size_cast_pos
  have low := Int.emod_nonneg s (Int.ne_of_gt positive)
  have here : (g.slot s : Int) = s % g.size := g.slotIndex_eq s
  have there : (g.slot (s + i) : Int) = (s + i) % g.size := g.slotIndex_eq _
  have whole : (s + i) % g.size = s % g.size + i := by
    rw [← Int.emod_add_emod]
    unfold lastOfLap at inside
    exact Int.emod_eq_of_lt (by omega) (by omega)
  omega

/-! ## Cuts -/

/-- Where a range is cut: at the end of the lap of its first sequence, if it goes on behind it. -/
def cut (g : Geometry) (lo hi : Int) : Int := min hi (g.lastOfLap lo)

theorem le_cut (upright : lo ≤ hi) : lo ≤ g.cut lo hi :=
  Int.le_min.mpr ⟨upright, g.le_lastOfLap lo⟩

theorem cut_le : g.cut lo hi ≤ hi := Int.min_le_left ..

theorem cut_le_lastOfLap : g.cut lo hi ≤ g.lastOfLap lo := Int.min_le_right ..

/-- A run that was cut off stays whole if it is cut again. -/
theorem cut_cut (lo hi : Int) : g.cut lo (g.cut lo hi) = g.cut lo hi := by
  unfold cut
  omega

theorem batchLength_of_stretch (stretch : Stretch lo hi) :
    g.batchLength lo hi = .ok (Sequencer.runLength lo (g.cut lo hi)) := by
  obtain ⟨low, upright, below, short⟩ := stretch
  have span : Word.Fits (hi - lo) := ⟨Int.le_trans (by decide) (Int.sub_nonneg.mpr upright), by omega⟩
  have length : Word.Fits (hi - lo + 1) := ⟨Int.le_trans span.1 (by omega), short⟩
  have slot : (g.slot lo : Int) = lo % g.size := g.slotIndex_eq lo
  have inside := g.slot_lt lo
  unfold batchLength
  rw [if_neg (Int.not_lt.mpr upright), except_checked_of_fits span, except_checked_of_fits length]
  show Except.ok _ = Except.ok _
  congr 1
  unfold Sequencer.runLength cut lastOfLap
  omega

end Geometry

namespace Stretch

variable {g : Geometry} {lo hi mid : Int}

theorem fits (stretch : Stretch lo hi) : Word.Fits lo ∧ Word.Fits hi := by
  obtain ⟨low, upright, below, -⟩ := stretch
  exact ⟨⟨low, by omega⟩, ⟨by omega, by omega⟩⟩

/-- The beginning of a stretch. -/
theorem upTo (stretch : Stretch lo hi) (above : lo ≤ mid) (inside : mid ≤ hi) : Stretch lo mid := by
  obtain ⟨low, -, below, short⟩ := stretch
  exact ⟨low, above, by omega, by omega⟩

/-- The rest of a stretch. -/
theorem behind (stretch : Stretch lo hi) (above : lo ≤ mid) (inside : mid < hi) : Stretch (mid + 1) hi := by
  obtain ⟨low, -, below, short⟩ := stretch
  exact ⟨by omega, by omega, below, by omega⟩

theorem cut (stretch : Stretch lo hi) : Stretch lo (g.cut lo hi) :=
  stretch.upTo (Geometry.le_cut stretch.upright) Geometry.cut_le

/-- The end of a stretch is told by its length, if that is one of a view. -/
theorem last_eq (stretch : Stretch lo hi) (n : Nat) (length : n = Sequencer.runLength lo hi) :
    (do Word.checked ((← Word.checked (lo + n)) - 1)) = Except.ok hi := by
  obtain ⟨fitsLow, fitsHigh⟩ := stretch.fits
  obtain ⟨low, upright, below, -⟩ := stretch
  have past : lo + (n : Int) = hi + 1 := by
    rw [length]
    unfold Sequencer.runLength
    omega
  have fits : Word.Fits (hi + 1) := ⟨Int.le_trans fitsHigh.1 (by omega), below⟩
  rw [past, except_checked_of_fits fits, Int.add_sub_cancel, Word.checked_of_fits fitsHigh]

end Stretch

/-! ## Views -/

/-- A view shows the events from `lo` to `stop`, and no others. -/
structure Batch.Shows {g : Geometry} {ε : Type} (ring : Ring g ε) (lo stop : Int) (b : Batch ε) : Prop where
  first : b.first = lo
  last : b.last = .ok stop
  length : (b.length : Int) = stop - lo + 1
  event? : ∀ i : Nat, b.event? i = if lo + i ≤ stop then some (ring.event (lo + i)) else none
  events : b.events.toList = (sequences lo stop).map ring.event
  pairs : b.pairs = (sequences lo stop).map fun t => (t, ring.event t)

namespace Ring

variable {g : Geometry} {ε : Type} {lo hi stop : Int}

/-- Up to the end of a lap, a slot behind that of a sequence holds an event behind that of the sequence. -/
theorem getElem_slots (ring : Ring g ε) {i : Nat} (inside : lo + i ≤ g.lastOfLap lo)
    (bound : (g.slot lo : Nat) + i < g.size) :
    ring.slots[(g.slot lo : Nat) + i] = ring.event (lo + i) := by
  have there := Geometry.slot_add inside
  show _ = ring.slots[(g.slot (lo + i) : Nat)]
  simp only [there]

/-- A piece of the slots that does not reach beyond the lap of its first sequence. -/
theorem extract_slots (ring : Ring g ε) (inside : stop ≤ g.lastOfLap lo) :
    (ring.slots.toArray.extract (g.slot lo) (g.slot lo + Sequencer.runLength lo stop)).toList =
      (sequences lo stop).map ring.event := by
  have slot : (g.slot lo : Int) = lo % g.size := g.slotIndex_eq lo
  have bound : (g.slot lo : Nat) + Sequencer.runLength lo stop ≤ g.size := by
    have := g.slot_lt lo
    unfold Geometry.lastOfLap at inside
    unfold Sequencer.runLength
    omega
  apply List.ext_getElem
  · simp [sequences]
    omega
  · intro i _ below
    have few : i < Sequencer.runLength lo stop := by simpa [sequences] using below
    have near : lo + (i : Int) ≤ g.lastOfLap lo := by
      unfold Sequencer.runLength at few
      omega
    simp only [Array.getElem_toList, Array.getElem_extract, Vector.getElem_toArray, sequences,
      List.getElem_map, List.getElem_range]
    exact ring.getElem_slots near (by omega)

/-- A view is known by its first sequence and its events. -/
theorem shows_of_events {ring : Ring g ε} {b : Batch ε} (stretch : Stretch lo stop) (first : b.first = lo)
    (events : b.events.toList = (sequences lo stop).map ring.event) : b.Shows ring lo stop := by
  have length : b.length = Sequencer.runLength lo stop := by
    have := congrArg List.length events
    simpa [sequences, Batch.length] using this
  refine ⟨first, ?_, ?_, ?_, events, ?_⟩
  · unfold Batch.last
    rw [first]
    exact stretch.last_eq b.length length
  · have := stretch.upright
    rw [length]
    unfold Sequencer.runLength
    omega
  · intro i
    unfold Batch.event?
    rw [← Array.getElem?_toList, events]
    by_cases inside : lo + (i : Int) ≤ stop
    · have few : i < Sequencer.runLength lo stop := by
        unfold Sequencer.runLength
        omega
      rw [if_pos inside]
      simp [sequences, few]
    · have many : Sequencer.runLength lo stop ≤ i := by
        unfold Sequencer.runLength
        omega
      rw [if_neg inside]
      simp [sequences, many]
  · unfold Batch.pairs
    rw [events, first]
    apply List.ext_getElem
    · simp [sequences]
    · intro i _ _
      simp [sequences]

theorem batch_of_stretch (ring : Ring g ε) (stretch : Stretch lo hi) :
    ∃ b, ring.batch lo hi = .ok b ∧ b.Shows ring lo (g.cut lo hi) := by
  let start : Nat := g.slot lo
  let b : Batch ε := ⟨lo, ring.slots.toArray.extract start (start + Sequencer.runLength lo (g.cut lo hi))⟩
  refine ⟨b, ?_, shows_of_events stretch.cut rfl (ring.extract_slots Geometry.cut_le_lastOfLap)⟩
  unfold batch
  rw [Geometry.batchLength_of_stretch stretch]
  rfl

/-- The view of a run that was cut off is the view that it was cut off from. -/
theorem batch_cut (ring : Ring g ε) (stretch : Stretch lo hi) :
    ring.batch lo (g.cut lo hi) = ring.batch lo hi := by
  unfold batch
  rw [Geometry.batchLength_of_stretch stretch, Geometry.batchLength_of_stretch stretch.cut,
    Geometry.cut_cut]

end Ring

/-! ## Runs -/

namespace Processor

variable {g : Geometry} {plan : Plan g} {lo hi done last : Int}

theorem lastOfRun_of_stretch (stretch : Stretch lo hi) : lastOfRun g lo hi = .ok (g.cut lo hi) := by
  unfold lastOfRun
  rw [Geometry.batchLength_of_stretch stretch]
  exact stretch.cut.last_eq _ rfl

/-- Behind a run there is another one, or everything is handed over. -/
theorem Phase.advanced_of_batch (kind : plan.kind = .batch) (fits : Word.Fits (done + 1)) :
    Phase.advanced plan done last =
      if done + 1 ≤ last then .handing (done + 1) last else .verifying (done + 1) last := by
  unfold Phase.advanced
  rw [except_checked_of_fits fits, kind]
  by_cases more : done + 1 ≤ last
  · rw [if_pos more, if_pos more]
    rfl
  · rw [if_neg more, if_neg more]
    rfl

end Processor

/-- A run of events that is handed over at once. -/
structure Piece where
  first : Int
  last : Int

namespace Piece

/-- What the handler has to say to a run. -/
def fails (around : Request → Outside) (r : Piece) : Option Failure :=
  (around (.batch r.first r.last)).failure

/-- What the policy is told of a run that failed. -/
def incident (r : Piece) : Incident := .batch r.first (Sequencer.runLength r.first r.last)

/-- The failure that a run stops the processor with, if it does. -/
def fatal (around : Request → Outside) (r : Piece) : Option Failure :=
  (r.fails around).bind fun failure => (around (.judge r.incident failure)).failure

/-- What a processor asks about a run. -/
def requests (around : Request → Outside) (r : Piece) : List Request :=
  .batch r.first r.last :: (r.fails around).toList.map (.judge r.incident)

/-- The sequences in some runs. -/
def covered (pieces : List Piece) : List Int := pieces.flatMap fun r => sequences r.first r.last

/-- How a processor comes out of the runs of a range: behind the last one, or at one that stops it. -/
def Ends (around : Request → Outside) (hi stop : Int) (pieces : List Piece) (phase : Phase) : Prop :=
  (stop = hi ∧ phase = .verifying (hi + 1) hi ∧ ∀ r ∈ pieces, r.fatal around = none) ∨
    ∃ before r failure, pieces = before ++ [r] ∧ r.last = stop ∧ phase = .stopping r.first failure ∧
      r.fatal around = some failure ∧ ∀ q ∈ before, q.fatal around = none

/-- The runs that a processor makes of a range, as far as it comes. -/
structure Cover (g : Geometry) (around : Request → Outside) (lo hi stop : Int) (pieces : List Piece)
    (phase : Phase) : Prop where
  upright : lo ≤ stop
  inside : stop ≤ hi
  covered : covered pieces = sequences lo stop
  cut : ∀ r ∈ pieces, Stretch r.first hi ∧ r.last = g.cut r.first hi
  laps : (pieces.length : Int) = stop / g.size - lo / g.size + 1
  ends : Ends around hi stop pieces phase

variable {g : Geometry} {around : Request → Outside} {lo hi stop : Int} {pieces : List Piece}
  {phase : Phase}

/-- A run stands before those that begin behind it, if it ends with its lap. -/
theorem Cover.cons (stretch : Stretch lo hi) (more : g.cut lo hi < hi)
    (passed : (Piece.mk lo (g.cut lo hi)).fatal around = none)
    (rest : Cover g around (g.cut lo hi + 1) hi stop pieces phase) :
    Cover g around lo hi stop (⟨lo, g.cut lo hi⟩ :: pieces) phase := by
  obtain ⟨upright, inside, covered, cut, laps, ends⟩ := rest
  have above := Geometry.le_cut (g := g) stretch.upright
  have whole : g.cut lo hi = g.lastOfLap lo := by
    unfold Geometry.cut at more ⊢
    omega
  refine ⟨by omega, inside, ?_, List.forall_mem_cons.mpr ⟨⟨stretch, rfl⟩, cut⟩, ?_, ?_⟩
  · have joined : sequences lo (g.cut lo hi) ++ Piece.covered pieces = sequences lo stop := by
      rw [covered, sequences_append (by omega) (by omega)]
    exact joined
  · rw [whole, Geometry.lastOfLap_add_one_ediv] at laps
    rw [List.length_cons, Int.natCast_add, laps]
    omega
  · rcases ends with ⟨all, verifies, none⟩ | ⟨before, r, failure, rfl, last, stops, fatal, none⟩
    · exact Or.inl ⟨all, verifies, List.forall_mem_cons.mpr ⟨passed, none⟩⟩
    · exact Or.inr ⟨_ :: before, r, failure, rfl, last, stops, fatal, List.forall_mem_cons.mpr ⟨passed, none⟩⟩

/-- The runs of a range end with one that stops the processor, or with one that reaches its end. -/
theorem cover_single (stretch : Stretch lo hi)
    (ends : Ends around hi (g.cut lo hi) [⟨lo, g.cut lo hi⟩] phase) :
    Cover g around lo hi (g.cut lo hi) [⟨lo, g.cut lo hi⟩] phase := by
  have above := Geometry.le_cut (g := g) stretch.upright
  have lap := (Geometry.ediv_eq_iff_le_lastOfLap above).mpr Geometry.cut_le_lastOfLap
  refine ⟨above, Geometry.cut_le, ?_, fun r member => ?_, ?_, ends⟩
  · exact List.flatMap_singleton ..
  · rw [List.mem_singleton.mp member]
    exact ⟨stretch, rfl⟩
  · rw [lap, Int.sub_self]
    rfl

end Piece

namespace Session

open Piece (Cover Ends covered)

variable {g : Geometry} {s : Session g} {around : Request → Outside} {lo hi : Int}

/-- A processor hands over a run, and asks about it if it failed. -/
theorem hands_over_piece (around : Request → Outside) (phase : s.phase = .handing lo hi)
    (stretch : Stretch lo hi) :
    ∃ t, s.Goes around ((Piece.mk lo (g.cut lo hi)).requests around) t ∧ t.plan = s.plan ∧
      t.phase = match (Piece.mk lo (g.cut lo hi)).fatal around with
        | none => .advanced s.plan (g.cut lo hi) hi
        | some failure => .stopping lo failure := by
  let r : Piece := ⟨lo, g.cut lo hi⟩
  obtain ⟨resume, hands, passes, breaks⟩ : ∃ resume,
      s.plan.turn s.phase = .ask (.batch r.first r.last) resume ∧
        resume none = .advanced s.plan r.last hi ∧
          ∀ failure, resume (some failure) = .batchFailed r.first r.last hi failure := by
    rw [phase, Plan.turn, Processor.lastOfRun_of_stretch stretch]
    exact ⟨_, rfl, rfl, fun failure => rfl⟩
  let handed := s.answered (around (.batch r.first r.last)) (.batch r.first r.last) resume
  have answer : handed.phase = resume (r.fails around) := rfl
  cases fails : r.fails around with
  | none =>
      refine ⟨handed, ?_, rfl, ?_⟩
      · unfold Piece.requests
        rw [fails]
        exact Goes.ask hands (Goes.rest _)
      · unfold Piece.fatal
        rw [answer, fails, passes]
        rfl
  | some failure =>
      obtain ⟨onwards, judges, passes, stops⟩ : ∃ onwards,
          handed.plan.turn handed.phase = .ask (.judge r.incident failure) onwards ∧
            onwards none = .advanced s.plan r.last hi ∧
              ∀ fatal, onwards (some fatal) = .stopping r.first fatal := by
        rw [answer, fails, breaks]
        exact ⟨_, rfl, rfl, fun fatal => rfl⟩
      have fatal : r.fatal around = (around (.judge r.incident failure)).failure := by
        unfold Piece.fatal
        rw [fails]
        rfl
      refine ⟨handed.answered (around (.judge r.incident failure)) _ onwards, ?_, rfl, ?_⟩
      · unfold Piece.requests
        rw [fails]
        exact Goes.ask hands (Goes.ask judges (Goes.rest _))
      · show onwards (around (.judge r.incident failure)).failure = _
        rw [fatal]
        cases (around (.judge r.incident failure)).failure with
        | none => exact passes
        | some fatal => exact stops fatal

/-- A processor hands over a range run by run, from wherever it stands in it. -/
theorem hands_over_range (around : Request → Outside) (kind : s.plan.kind = .batch)
    (phase : s.phase = .handing lo hi) (stretch : Stretch lo hi) :
    ∃ pieces stop t, s.Goes around (pieces.flatMap (Piece.requests around)) t ∧
      Cover g around lo hi stop pieces t.phase := by
  -- on how many sequences are left; a run takes at least one of them
  obtain ⟨left, whole⟩ := Int.eq_ofNat_of_zero_le (Int.sub_nonneg.mpr stretch.upright)
  induction left using Nat.strongRecOn generalizing s lo with
  | _ left ih =>
    obtain ⟨t, went, plan, there⟩ := hands_over_piece around phase stretch
    have above := Geometry.le_cut (g := g) stretch.upright
    have inside : g.cut lo hi ≤ hi := Geometry.cut_le
    have single : List.flatMap (Piece.requests around) [⟨lo, g.cut lo hi⟩] =
        (Piece.mk lo (g.cut lo hi)).requests around := List.flatMap_singleton ..
    cases fatal : (Piece.mk lo (g.cut lo hi)).fatal around with
    | some failure =>
        rw [fatal] at there
        refine ⟨[⟨lo, g.cut lo hi⟩], _, t, single.symm ▸ went, Piece.cover_single stretch (Or.inr ?_)⟩
        exact ⟨[], _, failure, rfl, rfl, there, fatal, fun q absent => (nomatch absent)⟩
    | none =>
        have fits : Word.Fits (g.cut lo hi + 1) := by
          have := stretch.low
          have := stretch.below
          exact ⟨by omega, by omega⟩
        rw [fatal] at there
        replace there := there.trans (Phase.advanced_of_batch kind fits)
        by_cases more : g.cut lo hi < hi
        · rw [if_pos (by omega)] at there
          obtain ⟨pieces, stop, u, further, rest⟩ := ih (hi - (g.cut lo hi + 1)).toNat (by omega)
            (plan ▸ kind) there (stretch.behind above more) (by omega)
          refine ⟨⟨lo, g.cut lo hi⟩ :: pieces, stop, u, ?_, rest.cons stretch more fatal⟩
          rw [List.flatMap_cons]
          exact went.trans further
        · have all : g.cut lo hi = hi := by omega
          rw [if_neg (by omega)] at there
          refine ⟨[⟨lo, g.cut lo hi⟩], _, t, single.symm ▸ went, Piece.cover_single stretch (Or.inl ?_)⟩
          refine ⟨all, ?_, fun r member => ?_⟩
          · rw [there, all]
          · rw [List.mem_singleton.mp member]
            exact fatal

/-- A range that is no longer than the ring touches two laps at most. -/
theorem laps_le_two {stop : Int} (short : hi - lo + 1 ≤ g.size) (inside : stop ≤ hi) :
    stop / g.size - lo / g.size + 1 ≤ 2 := by
  have positive := g.size_cast_pos
  have grows : stop / g.size ≤ (lo + g.size) / g.size := Int.ediv_le_ediv positive (by omega)
  rw [Int.add_ediv_of_dvd_right (Int.dvd_refl _), Int.ediv_self (Int.ne_of_gt positive)] at grows
  omega

/-- A view of a range is cut at the physical end of the ring, and shows what is in the slots of its sequences.
A processor that hands over a range run by run comes to its end, unless a run stops it before.  Its runs cover
the range as far as it comes, each of them on one lap and one for each lap, and what the policy is shown of a
run that failed is that run. -/
theorem ranges_are_cut_at_the_wraps {ε : Type} (ring : Ring g ε) (stretch : Stretch lo hi) :
    (∃ b, ring.batch lo hi = .ok b ∧ 0 < b.length ∧ b.Shows ring lo (min hi (g.lastOfLap lo))) ∧
      ∀ (s : Session g) (around : Request → Outside), s.plan.kind = .batch → s.phase = .handing lo hi →
        ∃ pieces stop t, s.Goes around (pieces.flatMap (Piece.requests around)) t ∧
          covered pieces = sequences lo stop ∧ Ends around hi stop pieces t.phase ∧
          (∀ r ∈ pieces, r.first ≤ r.last ∧ r.last / g.size = r.first / g.size ∧
            ∃ b, ring.batch r.first hi = .ok b ∧ ring.batch r.first r.last = .ok b ∧
              b.Shows ring r.first r.last ∧ r.incident = .batch b.first b.length) ∧
          (pieces.length : Int) = stop / g.size - lo / g.size + 1 ∧
          (hi - lo + 1 ≤ g.size → pieces.length ≤ 2) := by
  constructor
  · obtain ⟨b, view, shows⟩ := ring.batch_of_stretch stretch
    have above := Geometry.le_cut (g := g) stretch.upright
    have length := shows.length
    exact ⟨b, view, by omega, shows⟩
  · intro s around kind phase
    obtain ⟨pieces, stop, t, went, cover⟩ := hands_over_range around kind phase stretch
    refine ⟨pieces, stop, t, went, cover.covered, cover.ends, fun r member => ?_, cover.laps, fun short => ?_⟩
    · obtain ⟨whole, last⟩ := cover.cut r member
      have above := Geometry.le_cut (g := g) whole.upright
      obtain ⟨b, view, shows⟩ := ring.batch_of_stretch whole
      have again := ring.batch_cut whole
      rw [← last] at above shows again
      have lap := (Geometry.ediv_eq_iff_le_lastOfLap above).mpr (last ▸ Geometry.cut_le_lastOfLap)
      refine ⟨above, lap, b, view, again.trans view, shows, ?_⟩
      have length := shows.length
      unfold Piece.incident Sequencer.runLength
      rw [shows.first]
      congr 1
      omega
    · have few := laps_le_two short cover.inside
      have laps := cover.laps
      omega

/-- A handler that fails at every run, of which a policy lets all pass. -/
def everyRunFails : Request → Outside
  | .batch .. => { failure := some ⟨"odd", []⟩ }
  | _ => {}

/-- On a ring of four slots, the view of the sequences from -2 to 5 shows the last two slots.  A processor
hands over three runs, and comes to the end of the range although all of them fail. -/
theorem ranges_are_cut_at_the_wraps_size_four :
    ∃ (ring : Ring ⟨2, by decide⟩ Nat) (s t : Session ⟨2, by decide⟩) (b : Batch Nat) (pieces : List Piece),
      Stretch (-2) 5 ∧ ring.batch (-2) 5 = .ok b ∧ b.events.toList = [2, 3] ∧ b.last = .ok (-1) ∧
        s.plan.kind = .batch ∧ s.phase = .handing (-2) 5 ∧
        s.Goes everyRunFails (pieces.flatMap (Piece.requests everyRunFails)) t ∧ pieces.length = 3 ∧
        covered pieces = [-2, -1, 0, 1, 2, 3, 4, 5] ∧ t.phase = .verifying 6 5 := by
  let g : Geometry := ⟨2, by decide⟩
  let ring : Ring g Nat := Ring.make (Sequencer.fresh g .one false) id
  let s : Session g := { fresh g .batch none (-3) with phase := .handing (-2) 5 }
  have stretch : Stretch (-2) 5 := ⟨by decide, by decide, by decide, by decide⟩
  obtain ⟨⟨b, view, -, shows⟩, hands⟩ := ranges_are_cut_at_the_wraps ring stretch
  obtain ⟨pieces, stop, t, went, covers, ends, -, laps, -⟩ := hands s everyRunFails rfl rfl
  refine ⟨ring, s, t, b, pieces, stretch, view, shows.events.trans (by decide), shows.last.trans rfl,
    rfl, rfl, went, ?_⟩
  rcases ends with ⟨rfl, verifies, -⟩ | ⟨_, r, failure, -, -, -, fatal, -⟩
  · have three : (5 : Int) / g.size - -2 / g.size + 1 = 3 := by decide
    exact ⟨by omega, covers.trans (by decide), verifies⟩
  · -- the policy lets all failures pass
    cases fatal

end Session

end EventRing
