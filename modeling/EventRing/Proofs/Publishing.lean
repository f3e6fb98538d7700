import EventRing.Proofs.Claiming
import EventRing.Proofs.Laps
/-!
# EventRing.Proofs.Publishing

What a publication leaves behind, and what the search for the end of the published run finds.  With
many producers a publication is a run of marks, and a slot carries afterwards either its old mark or
that of a sequence of the run (`get_markRun`); the search stops at the first sequence that is not
marked (`highestPublished_shared`).  Which sequence a mark stands for is not decided here: a mark is
only a lap.

Runs are listed as `sequences`, from the first to the last.
-/

namespace EventRing

/-! ## Runs of sequences -/

/-- The sequences from `first` to `last`. -/
def sequences (first last : Int) : List Int :=
  (List.range (Sequencer.runLength first last)).map fun n : Nat => first + n

theorem sequences_of_lt {first last : Int} (none : last < first) : sequences first last = [] := by
  have : Sequencer.runLength first last = 0 := by
    unfold Sequencer.runLength
    omega
  simp [sequences, this]

/-- Two stretches of sequences that meet are one. -/
theorem sequences_append {first middle last : Int} (before : first ≤ middle + 1)
    (after : middle ≤ last) :
    sequences first middle ++ sequences (middle + 1) last = sequences first last := by
  have whole : Sequencer.runLength first last =
      Sequencer.runLength first middle + Sequencer.runLength (middle + 1) last := by
    unfold Sequencer.runLength
    omega
  have start : first + (Sequencer.runLength first middle : Int) = middle + 1 := by
    unfold Sequencer.runLength
    omega
  unfold sequences
  rw [whole, List.range_add, List.map_append, List.map_map]
  congr 1
  apply List.map_congr_left
  intro n _
  simp only [Function.comp_apply, Int.natCast_add]
  omega

theorem sequences_self (t : Int) : sequences t t = [t] := by
  have one : Sequencer.runLength t t = 1 := by
    unfold Sequencer.runLength
    omega
  simp [sequences, one]

theorem sequences_cons {first last : Int} (upright : first ≤ last) :
    sequences first last = first :: sequences (first + 1) last := by
  rw [← sequences_append (Int.le_add_one (Int.le_refl first)) upright, sequences_self]
  rfl

theorem sequences_concat {first last : Int} (upright : first ≤ last) :
    sequences first last = sequences first (last - 1) ++ [last] := by
  have whole : sequences first (last - 1) ++ sequences (last - 1 + 1) last = sequences first last :=
    sequences_append (by omega) (by omega)
  rw [← whole, Int.sub_add_cancel, sequences_self]

theorem mem_sequences {first last t : Int} : t ∈ sequences first last ↔ first ≤ t ∧ t ≤ last := by
  unfold sequences Sequencer.runLength
  simp only [List.mem_map, List.mem_range]
  constructor
  · rintro ⟨n, below, rfl⟩
    omega
  · rintro ⟨above, below⟩
    exact ⟨(t - first).toNat, by omega, by omega⟩

end EventRing

namespace EventRing.Sequencer

open EventRing.Action

variable {g : Geometry} {s s' : Sequencer g} {laps : Vector Int32 g.size} {lo hi t v : Int}
  {count : Nat}

/-! ## Marks -/

theorem get_mark (laps : Vector Int32 g.size) (sequence t : Int) :
    (mark laps sequence).get (g.slot t) =
      if g.slot sequence = g.slot t then g.lap sequence else laps.get (g.slot t) := by
  have set : (mark laps sequence).get (g.slot t) =
      (laps.set (g.slot sequence) (g.lap sequence) (g.slot_lt sequence))[(g.slot t : Nat)] := rfl
  rw [set, Vector.getElem_set]
  by_cases same : g.slot sequence = g.slot t
  · rw [if_pos same, if_pos (congrArg Fin.val same)]
  · rw [if_neg same, if_neg fun h => same (Fin.ext h)]
    rfl

theorem markRun_zero (laps : Vector Int32 g.size) (lo : Int) : markRun laps lo 0 = laps := rfl

theorem markRun_succ (laps : Vector Int32 g.size) (lo : Int) (count : Nat) :
    markRun laps lo (count + 1) = mark (markRun laps lo count) (lo + count) := by
  unfold markRun
  rw [List.range_succ, List.foldl_append]
  rfl

/-- A slot carries the lap of a sequence of the run, or what it carried before if none of the run
has that slot. -/
theorem get_markRun (laps : Vector Int32 g.size) (lo t : Int) (count : Nat) :
    ((markRun laps lo count).get (g.slot t) = laps.get (g.slot t) ∧
        ∀ u, lo ≤ u → u < lo + count → g.slot u ≠ g.slot t) ∨
      ∃ u, lo ≤ u ∧ u < lo + count ∧ g.slot u = g.slot t ∧
        (markRun laps lo count).get (g.slot t) = g.lap u := by
  -- by the last mark, which covers earlier ones of its slot
  induction count with
  | zero => exact Or.inl ⟨rfl, fun u above below => by omega⟩
  | succ count ih =>
      rw [markRun_succ, get_mark]
      by_cases same : g.slot (lo + count) = g.slot t
      · rw [if_pos same]
        exact Or.inr ⟨lo + count, by omega, by omega, same, rfl⟩
      · rw [if_neg same]
        rcases ih with ⟨old, others⟩ | ⟨u, above, below, slot, lap⟩
        · refine Or.inl ⟨old, fun u above below => ?_⟩
          by_cases last : u = lo + count
          · rw [last]
            exact same
          · exact others u above (by omega)
        · exact Or.inr ⟨u, above, by omega, slot, lap⟩

/-- A run of one sequence is marked like a single sequence. -/
theorem markRun_one (laps : Vector Int32 g.size) (lo : Int) : markRun laps lo 1 = mark laps lo := by
  have := markRun_succ laps lo 0
  rwa [markRun_zero, Int.natCast_zero, Int.add_zero] at this

/-! ## Publications -/

@[simp]
theorem ledger_signal : s.signal.ledger = s.ledger := by
  unfold signal
  split <;> rfl

@[simp]
theorem cursor_signal : s.signal.cursor = s.cursor := by
  unfold signal
  split <;> rfl

@[simp]
theorem gates_signal : s.signal.gates = s.gates := by
  unfold signal
  split <;> rfl

@[simp]
theorem counters_signal : s.signal.counters = s.counters := by
  unfold signal
  split <;> rfl

@[simp]
theorem cachedGate_signal : s.signal.cachedGate = s.cachedGate := by
  unfold signal
  split <;> rfl

@[simp]
theorem parks_signal : s.signal.parks = s.parks := by
  unfold signal
  split <;> rfl

/-- Consumers are woken once, if there can be any that are parked. -/
theorem signals_signal : s.signal.signals = s.signals + if s.parks then 1 else 0 := by
  unfold signal
  split <;> rfl

/-- The sequencer after the run from `lo` to `hi` was published. -/
structure Shown (s : Sequencer g) (lo hi : Int) (s' : Sequencer g) : Prop where
  gates : s'.gates = s.gates
  counters : s'.counters = s.counters
  cachedGate : s'.cachedGate = s.cachedGate
  solo : ∀ c, s.ledger = .solo c → s'.ledger = .solo c ∧ s'.cursor = hi
  shared : ∀ laps, s.ledger = .shared laps →
    s'.ledger = .shared (markRun laps lo (runLength lo hi)) ∧ s'.cursor = s.cursor

theorem Shown.producers (shown : Shown s lo hi s') : s'.producers = s.producers :=
  producers_eq_of_ledger (fun c ledger => ⟨c, (shown.solo c ledger).1⟩)
    (fun _ ledger => ⟨_, (shown.shared _ ledger).1⟩)

theorem Shown.claimed_eq (shown : Shown s lo hi s') : s'.claimed = s.claimed := by
  cases ledger : s.ledger with
  | solo c => rw [claimed_solo ledger, claimed_solo (shown.solo c ledger).1]
  | shared laps =>
      rw [claimed_shared ledger, claimed_shared (shown.shared laps ledger).1]
      exact (shown.shared laps ledger).2

theorem publishRange_eq_ok (h : publishRange lo hi s = .ok () s') :
    lo ≤ hi ∧ Shown s lo hi s' := by
  obtain ⟨cursor, ledger, cachedGate, gates, counters, parks, signals⟩ := s
  unfold publishRange at h
  by_cases upside : hi < lo
  · rw [if_pos upside] at h
    cases h
  · rw [if_neg upside] at h
    refine ⟨Int.not_lt.mp upside, ?_⟩
    cases ledger with
    | solo c =>
        cases h
        refine ⟨by simp, by simp, by simp, ?_, ?_⟩
        · intro c' same
          cases same
          simp
        · intro laps same
          cases same
    | shared laps =>
        cases h
        refine ⟨by simp, by simp, by simp, ?_, ?_⟩
        · intro c same
          cases same
        · intro laps' same
          cases same
          simp

/-- A publication wakes consumers once, however many sequences it is of. -/
theorem signals_of_publishRange (h : publishRange lo hi s = .ok () s') :
    s'.parks = s.parks ∧ s'.signals = s.signals + if s.parks then 1 else 0 := by
  unfold publishRange at h
  by_cases upside : hi < lo
  · rw [if_pos upside] at h
    cases h
  · rw [if_neg upside] at h
    cases h
    rw [parks_signal, signals_signal]
    split <;> exact ⟨rfl, rfl⟩

theorem publishRange_of_le (upright : lo ≤ hi) : ∃ s', publishRange lo hi s = .ok () s' := by
  unfold publishRange
  rw [if_neg (Int.not_lt.mpr upright)]
  exact ⟨_, rfl⟩

/-- Publishing a run of one sequence is publishing that sequence. -/
theorem publishRange_self (s : Sequencer g) (t : Int) : publishRange t t s = publish t s := by
  have one : runLength t t = 1 := by
    unfold runLength
    omega
  unfold publishRange publish
  rw [if_neg (Int.lt_irrefl t), one]
  simp only [modify_apply, markRun_one]

/-! ## The end of the published run -/

theorem firstGap_eq_none (h : firstGap laps count lo = none) :
    ∀ t, lo ≤ t → t < lo + count → isMarked laps t = true := by
  induction count generalizing lo with
  | zero =>
      intro t _ _
      omega
  | succ count ih =>
      intro t above below
      unfold firstGap at h
      by_cases marked : isMarked laps lo = true
      · rw [if_pos marked] at h
        by_cases first : t = lo
        · rw [first]
          exact marked
        · exact ih h t (by omega) (by omega)
      · rw [if_neg marked] at h
        cases h

theorem firstGap_eq_some {gap : Int} (h : firstGap laps count lo = some gap) :
    lo ≤ gap ∧ gap < lo + count ∧ isMarked laps gap = false ∧
      ∀ t, lo ≤ t → t < gap → isMarked laps t = true := by
  induction count generalizing lo with
  | zero => cases h
  | succ count ih =>
      unfold firstGap at h
      by_cases marked : isMarked laps lo = true
      · rw [if_pos marked] at h
        obtain ⟨above, below, hole, run⟩ := ih h
        refine ⟨by omega, by omega, hole, ?_⟩
        intro t low high
        by_cases first : t = lo
        · rw [first]
          exact marked
        · exact run t (by omega) high
      · rw [if_neg marked] at h
        cases h
        refine ⟨Int.le_refl _, by omega, Bool.eq_false_iff.mpr marked, ?_⟩
        intro t low high
        omega

/-- With many producers everything from `lower` to the answer is marked, and the answer goes no
further than asked and falls short of it only at a sequence that is not marked. -/
theorem highestPublished_shared (ledger : s.ledger = .shared laps)
    (h : s.highestPublished lo hi = .ok v) :
    v ≤ max hi (lo - 1) ∧ (lo ≤ hi + 1 → lo - 1 ≤ v) ∧
      (∀ t, lo ≤ t → t ≤ v → isMarked laps t = true) ∧
      (v < hi → isMarked laps (v + 1) = false) := by
  unfold highestPublished at h
  simp only [ledger] at h
  cases found : firstGap laps (runLength lo hi) lo with
  | none =>
      rw [found] at h
      cases h
      have run := firstGap_eq_none found
      simp only [runLength] at run
      refine ⟨by omega, by omega, fun t low high => run t low (by omega), by omega⟩
  | some gap =>
      rw [found] at h
      obtain ⟨-, rfl⟩ := Word.checked_eq_ok_iff.mp h
      obtain ⟨above, below, hole, run⟩ := firstGap_eq_some found
      simp only [runLength] at below
      refine ⟨by omega, by omega, fun t low high => run t low (by omega), fun _ => ?_⟩
      rw [Int.sub_add_cancel]
      exact hole

theorem highestPublished_solo {c : Int} (ledger : s.ledger = .solo c) :
    s.highestPublished lo hi = .ok hi := by
  unfold highestPublished
  simp only [ledger]
  rfl

theorem exists_highestPublished (s : Sequencer g) (low : Word.Fits (lo - 1)) (high : Word.Fits hi) :
    ∃ v, s.highestPublished lo hi = .ok v := by
  cases ledger : s.ledger with
  | solo c => exact ⟨hi, highestPublished_solo ledger⟩
  | shared laps =>
      unfold highestPublished
      simp only [ledger]
      cases found : firstGap laps (runLength lo hi) lo with
      | none => exact ⟨hi, rfl⟩
      | some gap =>
          obtain ⟨above, below, -⟩ := firstGap_eq_some found
          simp only [runLength] at below
          have fits : Word.Fits (gap - 1) := Word.Fits.between low high (by omega) (by omega)
          exact ⟨gap - 1, Word.checked_of_fits fits⟩

end EventRing.Sequencer
