import EventRing.Proofs.Production
/-!
# EventRing.Proofs.Books

What holds of every state that a run of producers comes to, whatever gates there are and however
counters move.  The invariant has four parts:

* `Split`: the claimed sequences are split into the published ones and the blocks that publishers
  have taken, and no sequence is in two of them;
* `Marks`: with many producers a slot carries the lap of a published sequence, or of one before 0;
* `Alone`: with one producer at most one publisher is out, and the cursor is where its open claim
  begins, or at the claim position if there is none;
* `Waits`: a claim on its way is as it was when it began.

The first two are kept apart from the state they are about, so each is preserved by a lemma of its
own; `sound_of_change` puts them together act by act.
-/

namespace EventRing.Production

open Sequencer

variable {g : Geometry} {ε : Type} {p q : Production g ε} {act : Act ε}

/-! ## The claimed sequences -/

/-- The sequences up to `claimed` are published or in the block of one publisher. -/
structure Split (size : Int) (takes : Nat → Option Block) (published : Int → Prop)
    (claimed : Int) : Prop where
  span : ∀ {i b}, takes i = some b → 0 ≤ b.lo ∧ b.lo ≤ b.hi ∧ b.hi ≤ claimed ∧ b.hi < b.lo + size
  apart : ∀ {i j b c t}, takes i = some b → takes j = some c → t ∈ b → t ∈ c → i = j
  past : ∀ {t}, published t → 0 ≤ t ∧ t ≤ claimed
  once : ∀ {i b t}, takes i = some b → published t → t ∉ b
  cover : ∀ {t}, 0 ≤ t → t ≤ claimed → published t ∨ ∃ i b, takes i = some b ∧ t ∈ b

namespace Split

variable {size claimed n : Int} {takes takes' : Nat → Option Block}
  {published published' : Int → Prop} {i : Nat} {b : Block}

theorem congr (split : Split size takes published claimed) (same : ∀ j, takes' j = takes j) :
    Split size takes' published claimed := by
  rw [funext same]
  exact split

/-- Publisher `i`, which had taken nothing, takes the next `n` sequences. -/
theorem grow (split : Split size takes published claimed) (start : -1 ≤ claimed) (one : 1 ≤ n)
    (most : n ≤ size) (idle : takes i = none)
    (takes_eq : ∀ j, takes' j = if j = i then some ⟨claimed + 1, claimed + n⟩ else takes j) :
    Split size takes' published (claimed + n) := by
  have took {j c} (h : takes' j = some c) :
      (j = i ∧ c.lo = claimed + 1 ∧ c.hi = claimed + n) ∨ takes j = some c := by
    rw [takes_eq] at h
    split at h
    · cases h
      exact Or.inl ⟨‹_›, rfl, rfl⟩
    · exact Or.inr h
  constructor
  case span =>
    intro j c h
    rcases took h with new | old
    · omega
    · have := split.span old
      omega
  case apart =>
    -- what is new lies above everything that was claimed
    intro j k c d t tookC tookD inC inD
    rw [Block.mem_iff] at inC inD
    rcases took tookC with newC | oldC <;> rcases took tookD with newD | oldD
    · omega
    · have := split.span oldD
      omega
    · have := split.span oldC
      omega
    · exact split.apart oldC oldD inC inD
  case past =>
    intro t shown
    have := split.past shown
    omega
  case once =>
    intro j c t h shown inside
    rcases took h with new | old
    · have := split.past shown
      rw [Block.mem_iff] at inside
      omega
    · exact split.once old shown inside
  case cover =>
    intro t low high
    by_cases new : t ≤ claimed
    · rcases split.cover low new with shown | ⟨j, c, old, inside⟩
      · exact Or.inl shown
      · refine Or.inr ⟨j, c, ?_, inside⟩
        rw [takes_eq, if_neg, old]
        rintro rfl
        rw [idle] at old
        cases old
    · refine Or.inr ⟨i, ⟨claimed + 1, claimed + n⟩, ?_, ?_⟩
      · rw [takes_eq, if_pos rfl]
      · show claimed + 1 ≤ t ∧ t ≤ claimed + n
        omega

/-- Publisher `i` publishes the block that it has taken. -/
theorem publish (split : Split size takes published claimed) (took : takes i = some b)
    (takes_eq : ∀ j, takes' j = if j = i then none else takes j)
    (published_iff : ∀ t, published' t ↔ t ∈ b ∨ published t) :
    Split size takes' published' claimed := by
  have other {j c} (h : takes' j = some c) : j ≠ i ∧ takes j = some c := by
    rw [takes_eq] at h
    split at h
    · cases h
    · exact ⟨‹_›, h⟩
  constructor
  case span =>
    intro j c h
    exact split.span (other h).2
  case apart =>
    intro j k c d t tookC tookD
    exact split.apart (other tookC).2 (other tookD).2
  case past =>
    intro t shown
    rcases (published_iff t).mp shown with inside | old
    · have := split.span took
      rw [Block.mem_iff] at inside
      omega
    · exact split.past old
  case once =>
    intro j c t h shown inside
    obtain ⟨different, old⟩ := other h
    rcases (published_iff t).mp shown with own | before
    · exact different (split.apart old took inside own)
    · exact split.once old before inside
  case cover =>
    intro t low high
    rcases split.cover low high with shown | ⟨j, c, tookC, inside⟩
    · exact Or.inl ((published_iff t).mpr (Or.inr shown))
    · by_cases own : j = i
      · subst own
        obtain rfl : b = c := Option.some.inj (took.symm.trans tookC)
        exact Or.inl ((published_iff t).mpr (Or.inl inside))
      · refine Or.inr ⟨j, c, ?_, inside⟩
        rw [takes_eq, if_neg own, tookC]

end Split

/-! ## Laps -/

/-- Every slot carries the lap of a sequence of that slot which was published; or of one before 0, and
then none of that slot was. -/
def Marks (laps : Vector Int32 g.size) (published : Int → Prop) : Prop :=
  ∀ t, ∃ u, g.slot u = g.slot t ∧ laps.get (g.slot t) = g.lap u ∧
    (published u ∨ (-g.size ≤ u ∧ u < 0 ∧ ∀ v, published v → g.slot v ≠ g.slot t))

theorem Marks.publish {laps : Vector Int32 g.size} {published published' : Int → Prop}
    (marks : Marks laps published) {lo hi : Int}
    (shown : ∀ t, published' t ↔ (lo ≤ t ∧ t ≤ hi) ∨ published t) :
    Marks (markRun laps lo (runLength lo hi)) published' := by
  intro t
  have length {u : Int} (above : lo ≤ u) : u < lo + runLength lo hi ↔ u ≤ hi := by
    unfold runLength
    omega
  rcases get_markRun laps lo t (runLength lo hi) with ⟨old, others⟩ | ⟨u, above, below, slot, lap⟩
  · obtain ⟨u, slot, lap, origin⟩ := marks t
    refine ⟨u, slot, old.trans lap, ?_⟩
    rcases origin with was | ⟨low, negative, untouched⟩
    · exact Or.inl ((shown u).mpr (Or.inr was))
    · refine Or.inr ⟨low, negative, fun v now => ?_⟩
      rcases (shown v).mp now with ⟨above, below⟩ | was
      · exact others v above ((length above).mpr below)
      · exact untouched v was
  · exact ⟨u, slot, lap, Or.inl ((shown u).mpr (Or.inl ⟨above, (length above).mp below⟩))⟩

theorem marks_initial {published : Int → Prop} (none : ∀ t, ¬ published t) :
    Marks (Vector.replicate g.size (-1)) published := by
  intro t
  have positive := g.size_cast_pos
  have low := Int.emod_nonneg t (Int.ne_of_gt positive)
  have high := Int.emod_lt_of_pos t positive
  refine ⟨t % g.size - g.size, ?_, ?_, Or.inr ⟨by omega, by omega, fun v now => absurd now (none v)⟩⟩
  · rw [Geometry.slot_eq_iff]
    simp
  · rw [Geometry.lap_of_neg (by omega) (by omega)]
    show (Vector.replicate g.size (-1 : Int32))[(g.slot t : Nat)] = -1
    simp

/-- A mark that fits a sequence was put there by its publication, if everything before the sequence
is published and the laps of 32 bits tell the claimed sequences apart. -/
theorem Marks.published_of_isMarked {laps : Vector Int32 g.size} {published : Int → Prop}
    {claimed t : Int} (marks : Marks laps published)
    (past : ∀ {u}, published u → 0 ≤ u ∧ u ≤ claimed) (fits : Word.Fits claimed)
    (few : claimed < 2 ^ 32 * g.size) (low : 0 ≤ t) (high : t ≤ claimed)
    (before : ∀ u, 0 ≤ u → u < t → published u) (marked : isMarked laps t = true) :
    published t := by
  obtain ⟨u, slot, lap, origin⟩ := marks t
  have size := g.size_cast_pos
  have sameLap : g.lap u = g.lap t := by
    rw [← lap]
    exact eq_of_beq marked
  have fitsT : Word.Fits t := Word.Fits.between (by decide : Word.Fits 0) fits low high
  rcases origin with shown | ⟨above, negative, untouched⟩
  · have range := past shown
    have fitsU : Word.Fits u := Word.Fits.between (by decide : Word.Fits 0) fits range.1 range.2
    rwa [← Geometry.eq_of_slot_of_lap fitsU fitsT (by omega) (by omega) slot sameLap]
  · -- the slot was never used, so this is its first lap
    have first : t < g.size := by
      refine Int.not_le.mp fun later => ?_
      refine untouched (t - g.size) (before _ (by omega) (by omega)) ?_
      rw [Geometry.slot_eq_iff_dvd]
      exact ⟨-1, by omega⟩
    have fitsU : Word.Fits u := by
      have := g.size_le
      simp only [Word.Fits, Word.least, Word.greatest]
      omega
    have := Geometry.eq_of_slot_of_lap fitsU fitsT (by omega) (by omega) slot sameLap
    omega

/-! ## The invariant -/

/-- The block that a publisher has taken, if any. -/
def takes (p : Production g ε) (i : Nat) : Option Block :=
  p.publishers[i]?.bind (Engagement.taken p.kind)

/-- A publisher that was not given back. -/
def Live (p : Production g ε) (i : Nat) : Prop := ∃ e, p.publishers[i]? = some e ∧ e ≠ .gone

/-- A publisher has an open claim. -/
def Holds (p : Production g ε) (i : Nat) (b : Block) : Prop := p.publishers[i]? = some (.holding b)

/-- A claim of `n` sequences on its way is as it was when it began. -/
structure Waits (p : Production g ε) (claim : Pending) (n : Nat) : Prop where
  one_le : 1 ≤ n
  le_size : n ≤ g.size
  before_ge : -1 ≤ claim.before
  hi_eq : claim.hi = claim.before + n
  wrap_eq : claim.wrap = claim.hi - g.size
  fits : Word.Fits claim.hi
  solo : p.kind = .one → claim.before = p.claimed

/-- One producer has at most one publisher, and its cursor is where the open claim begins. -/
structure Alone (p : Production g ε) : Prop where
  only : ∀ {i j}, p.Live i → p.Live j → i = j
  lent : ∀ {i}, p.Live i → p.ring.publisherTaken = true
  opened : ∀ {i b}, p.Holds i b → p.sequencer.cursor = b.lo - 1 ∧ p.claimed = b.hi
  rest : (∀ i b, ¬ p.Holds i b) → p.sequencer.cursor = p.claimed

/-- What holds of every state that producers come to. -/
structure Sound (p : Production g ε) : Prop where
  start : -1 ≤ p.claimed
  fits : Word.Fits p.claimed
  cache_le : p.sequencer.cachedGate ≤ p.claimed
  split : Split g.size p.takes p.Published p.claimed
  waits : ∀ {i : Nat} {claim : Pending} {n : Nat},
    p.publishers[i]? = some (.waiting claim n) → p.Waits claim n
  alone : p.kind = .one → p.Alone
  marks : ∀ {laps}, p.sequencer.ledger = .shared laps → Marks laps p.Published

/-! ## The kind of a ring -/

theorem kind_eq_one_iff : p.kind = .one ↔ ∃ c, p.sequencer.ledger = .solo c :=
  producers_eq_one_iff

theorem kind_eq_many_iff : p.kind = .many ↔ ∃ laps, p.sequencer.ledger = .shared laps :=
  producers_eq_many_iff

/-- With many producers the cursor is the claim position. -/
theorem cursor_of_many (many : p.kind = .many) : p.sequencer.cursor = p.claimed := by
  obtain ⟨laps, ledger⟩ := kind_eq_many_iff.mp many
  exact (claimed_shared ledger).symm

/-- The kind of a ring stays the same. -/
theorem kind_of_change (h : Change p act q) : q.kind = p.kind := by
  cases h with
  | idle => rfl
  | lent _ sequencer => exact congrArg Sequencer.producers sequencer
  | returned _ sequencer => exact congrArg Sequencer.producers sequencer
  | claimed _ _ taken => exact taken.moved.producers
  | parked _ parked => exact parked.producers
  | declined => rfl
  | resumed _ settled => exact settled.producers
  | wrote => rfl
  | published _ shown => exact shown.producers
  | asked => rfl
  | gated => rfl
  | ungated => rfl
  | made => rfl
  | moved => rfl

theorem kind_fresh (g : Geometry) (kind : Producers) (parks : Bool) (factory : Nat → ε) :
    (fresh g kind parks factory).kind = kind := by
  cases kind <;> rfl

/-! ## Publishers that go on -/

variable {i j : Nat} {e e' : Engagement} {b : Block} {claim : Pending} {n : Nat} {hi : Int}
  {s : Sequencer g}

theorem takes_of_some (here : p.publishers[i]? = some e) : p.takes i = e.taken p.kind := by
  unfold takes
  rw [here]
  rfl

theorem mem_taken_iff : b ∈ p.taken ↔ ∃ i, p.takes i = some b := by
  unfold taken takes
  rw [List.mem_filterMap]
  constructor
  · rintro ⟨e, listed, taken⟩
    obtain ⟨i, there⟩ := List.mem_iff_getElem?.mp listed
    refine ⟨i, ?_⟩
    rw [there]
    exact taken
  · rintro ⟨i, taken⟩
    obtain ⟨e, there, taken⟩ := Option.bind_eq_some_iff.mp taken
    exact ⟨e, List.mem_of_getElem? there, taken⟩

theorem takes_of_holds (holds : p.Holds i b) : p.takes i = some b := takes_of_some holds

/-- With one producer only open claims are taken. -/
theorem holds_of_takes (single : p.kind = .one) (took : p.takes i = some b) : p.Holds i b := by
  obtain ⟨e, there, taken⟩ := Option.bind_eq_some_iff.mp took
  rw [single] at taken
  cases e with
  | holding c =>
      cases taken
      exact there
  | waiting => cases taken
  | free => cases taken
  | gone => cases taken

/-- What is taken after one publisher went on. -/
theorem takes_of_set (here : p.publishers[i]? = some e) (kind : q.kind = p.kind)
    (publishers : q.publishers = p.publishers.set i e') (j : Nat) :
    q.takes j = if j = i then e'.taken p.kind else p.takes j := by
  obtain ⟨inside, -⟩ := List.getElem?_eq_some_iff.mp here
  unfold takes
  rw [publishers, kind]
  by_cases same : j = i
  · subst same
    rw [if_pos rfl, List.getElem?_set_self inside]
    rfl
  · rw [if_neg same, List.getElem?_set_ne (Ne.symm same)]

/-- A publisher that takes what it had taken changes nothing. -/
theorem takes_of_keep (here : p.publishers[i]? = some e) (kind : q.kind = p.kind)
    (publishers : q.publishers = p.publishers.set i e') (keep : e'.taken p.kind = e.taken p.kind)
    (j : Nat) : q.takes j = p.takes j := by
  rw [takes_of_set here kind publishers]
  by_cases own : j = i
  · rw [own, if_pos rfl, takes_of_some here, keep]
  · rw [if_neg own]

theorem Waits.move (waits : p.Waits claim n) (kind : q.kind = p.kind)
    (same : p.kind = .one → q.claimed = p.claimed) : q.Waits claim n := by
  refine ⟨waits.one_le, waits.le_size, waits.before_ge, waits.hi_eq, waits.wrap_eq, waits.fits, ?_⟩
  intro one
  rw [kind] at one
  rw [same one]
  exact waits.solo one

/-- The cursor of one producer is the claim position, unless its publisher has an open claim. -/
theorem Alone.cursor_eq (alone : p.Alone) (here : p.publishers[i]? = some e) (live : e ≠ .gone)
    (closed : ∀ b, e ≠ .holding b) : p.sequencer.cursor = p.claimed := by
  refine alone.rest fun j b holds => ?_
  obtain rfl := alone.only ⟨e, here, live⟩ ⟨.holding b, holds, by simp⟩
  exact closed b (Option.some.inj (here.symm.trans holds))

/-- One publisher, the only one, goes on. -/
theorem Alone.engage (alone : p.Alone) (here : p.publishers[i]? = some e) (live : e ≠ .gone)
    (publishers : q.publishers = p.publishers.set i e')
    (lent : q.ring.publisherTaken = p.ring.publisherTaken)
    (opened : ∀ b, e' = .holding b → q.sequencer.cursor = b.lo - 1 ∧ q.claimed = b.hi)
    (rest : (∀ b, e' ≠ .holding b) → q.sequencer.cursor = q.claimed) : q.Alone := by
  obtain ⟨inside, -⟩ := List.getElem?_eq_some_iff.mp here
  have was {j} (still : q.Live j) : p.Live j := by
    obtain ⟨f, there, running⟩ := still
    by_cases same : j = i
    · subst same
      exact ⟨e, here, live⟩
    · rw [publishers, List.getElem?_set_ne (Ne.symm same)] at there
      exact ⟨f, there, running⟩
  have own : q.publishers[i]? = some e' := by
    rw [publishers, List.getElem?_set_self inside]
  constructor
  case only =>
    intro j k liveJ liveK
    exact alone.only (was liveJ) (was liveK)
  case lent =>
    intro j liveJ
    rw [lent]
    exact alone.lent (was liveJ)
  case opened =>
    intro j b holds
    obtain rfl := alone.only ⟨e, here, live⟩ (was ⟨.holding b, holds, by simp⟩)
    exact opened b (Option.some.inj (own.symm.trans holds))
  case rest =>
    intro closed
    exact rest fun b same => closed i b (own.trans (congrArg some same))

/-- The invariant after one publisher went on: only what is new has to be checked. -/
theorem Sound.engage (sound : p.Sound) (here : p.publishers[i]? = some e) (live : e ≠ .gone)
    (publishers : q.publishers = p.publishers.set i e') (kind : q.kind = p.kind)
    (lent : q.ring.publisherTaken = p.ring.publisherTaken)
    (grown : p.claimed ≤ q.claimed) (fits : Word.Fits q.claimed)
    (cache_le : q.sequencer.cachedGate ≤ q.claimed)
    (split : Split g.size q.takes q.Published q.claimed)
    (own : ∀ claim n, e' = .waiting claim n → q.Waits claim n)
    (opened : p.kind = .one → ∀ b, e' = .holding b →
      q.sequencer.cursor = b.lo - 1 ∧ q.claimed = b.hi)
    (rest : p.kind = .one → (∀ b, e' ≠ .holding b) → q.sequencer.cursor = q.claimed)
    (marks : ∀ {laps}, q.sequencer.ledger = .shared laps → Marks laps q.Published) :
    q.Sound := by
  obtain ⟨inside, -⟩ := List.getElem?_eq_some_iff.mp here
  refine ⟨Int.le_trans sound.start grown, fits, cache_le, split, ?_, ?_, marks⟩
  · intro j claim n waiting
    rw [publishers] at waiting
    by_cases same : j = i
    · subst same
      rw [List.getElem?_set_self inside] at waiting
      exact own claim n (Option.some.inj waiting)
    · rw [List.getElem?_set_ne (Ne.symm same)] at waiting
      refine (sound.waits waiting).move kind fun one => absurd ?_ same
      exact (sound.alone one).only ⟨_, waiting, by simp⟩ ⟨e, here, live⟩
  · intro one
    rw [kind] at one
    exact (sound.alone one).engage here live publishers lent (opened one) (rest one)

/-! ## One act -/

/-- The invariant does not depend on gates, counters, events and drafts. -/
theorem Sound.transfer (sound : p.Sound) (publishers : q.publishers = p.publishers)
    (history : q.history = p.history) (ledger : q.sequencer.ledger = p.sequencer.ledger)
    (cursor : q.sequencer.cursor = p.sequencer.cursor)
    (lent : q.ring.publisherTaken = p.ring.publisherTaken)
    (cache_le : q.sequencer.cachedGate ≤ p.claimed) : q.Sound := by
  obtain ⟨⟨⟨_, _, _, _, _, _, _⟩, _, _⟩, _, _, _⟩ := q
  cases publishers
  cases history
  cases ledger
  cases cursor
  cases lent
  refine ⟨sound.start, sound.fits, cache_le, sound.split, ?_, ?_, sound.marks⟩
  · intro i claim n waiting
    exact (sound.waits waiting).move rfl (fun _ => rfl)
  · intro one
    have alone := sound.alone one
    exact ⟨alone.only, alone.lent, alone.opened, alone.rest⟩

theorem blockTo_next (c : Int) (n : Nat) : blockTo (c + n) n = ⟨c + 1, c + n⟩ := by
  unfold blockTo
  congr 1
  omega

theorem Sound.claimed (sound : p.Sound) (free : p.publishers[i]? = some .free)
    (taken : Taken p.sequencer n hi s) :
    ((p.withSequencer s).engaged i (.holding (blockTo hi n))).Sound := by
  obtain ⟨one, most, rfl, fits, admitted, moved⟩ := taken
  have after : ((p.withSequencer s).engaged i
      (.holding (blockTo (p.sequencer.claimed + n) n))).claimed = p.claimed + n := moved.claimed_eq
  refine sound.engage free (by simp) rfl moved.producers rfl ?grown ?fits ?cache_le ?split ?own
    ?opened ?rest ?marks
  case grown =>
    omega
  case fits =>
    rw [after]
    exact fits
  case cache_le =>
    rw [after]
    have : s.cachedGate ≤ p.claimed := admitted.cache_le
    show s.cachedGate ≤ p.claimed + n
    omega
  case split =>
    rw [after]
    refine sound.split.grow sound.start (by omega) (by omega) (takes_of_some free) fun j => ?_
    rw [takes_of_set free moved.producers rfl, blockTo_next]
    rfl
  case own =>
    intro claim m waiting
    cases waiting
  case opened =>
    -- the cursor may have followed, but only to where the claim begins
    intro solo b same
    cases same
    obtain ⟨c, ledger⟩ := kind_eq_one_iff.mp solo
    have resting := (sound.alone solo).cursor_eq free (by simp) (by simp)
    have position : p.claimed = c := claimed_solo ledger
    refine ⟨?_, after⟩
    rw [blockTo_next]
    show s.cursor = p.claimed + 1 - 1
    rcases (moved.solo c ledger).2 with same | same <;> omega
  case rest =>
    intro _ closed
    exact absurd rfl (closed _)
  case marks =>
    -- a claim leaves no marks
    intro laps ledger
    cases before : p.sequencer.ledger with
    | solo c =>
        cases ledger.symm.trans (moved.solo c before).1
    | shared laps' =>
        cases ledger.symm.trans (moved.shared laps' before).1
        exact sound.marks before

theorem Sound.parked (sound : p.Sound) (free : p.publishers[i]? = some .free)
    (parked : Parked p.sequencer n claim s) :
    ((p.withSequencer s).engaged i (.waiting claim n)).Sound := by
  have kind := parked.producers
  obtain ⟨one, most, fits, rfl, -, -, cache, solo, shared⟩ := parked
  have cache_le := sound.cache_le
  cases ledger : p.sequencer.ledger with
  | solo c =>
      obtain ⟨ledger', cursor⟩ := solo c ledger
      have position : p.claimed = c := claimed_solo ledger
      have after : s.claimed = c := claimed_solo ledger'
      have single : p.kind = .one := producers_solo ledger
      refine sound.engage free (by simp) rfl kind rfl ?grown ?fits ?cache_le ?split ?own
        ?opened ?rest ?marks
      case grown =>
        exact Int.le_of_eq (position.trans after.symm)
      case fits =>
        show Word.Fits s.claimed
        rw [after, ← position]
        exact sound.fits
      case cache_le =>
        show s.cachedGate ≤ s.claimed
        omega
      case split =>
        show Split g.size _ p.Published s.claimed
        rw [after, ← position]
        apply sound.split.congr
        -- one producer moves the claim position only when the wait is over
        apply takes_of_keep free kind rfl
        rw [single]
        rfl
      case own =>
        intro claim m waiting
        cases waiting
        exact ⟨one, most, sound.start, rfl, rfl, fits, fun _ => position.trans after.symm⟩
      case opened =>
        intro _ b holding
        cases holding
      case rest =>
        intro _ _
        exact cursor.trans after.symm
      case marks =>
        intro laps shared
        cases shared.symm.trans ledger'
  | shared laps =>
      obtain ⟨ledger', cursor⟩ := shared laps ledger
      have after : s.claimed = p.claimed + n := (claimed_shared ledger').trans cursor
      have many : p.kind = .many := producers_shared ledger
      refine sound.engage free (by simp) rfl kind rfl ?grown ?fits ?cache_le ?split ?own
        ?opened ?rest ?marks
      case grown =>
        show p.claimed ≤ s.claimed
        omega
      case fits =>
        show Word.Fits s.claimed
        rw [after]
        exact fits
      case cache_le =>
        show s.cachedGate ≤ s.claimed
        omega
      case split =>
        show Split g.size _ p.Published s.claimed
        rw [after]
        refine sound.split.grow sound.start (by omega) (by omega) (takes_of_some free) fun j => ?_
        rw [takes_of_set free kind rfl, many]
        rfl
      case own =>
        intro claim m waiting
        cases waiting
        refine ⟨one, most, sound.start, rfl, rfl, fits, fun single => ?_⟩
        cases (many.symm.trans (kind.symm.trans single))
      case opened =>
        intro _ b holding
        cases holding
      case rest =>
        intro single
        cases many.symm.trans single
      case marks =>
        intro laps' shared
        cases shared.symm.trans ledger'
        exact sound.marks ledger

theorem Sound.resumed (sound : p.Sound) (waits : p.publishers[i]? = some (.waiting claim n))
    (settled : Settled p.sequencer claim s) :
    ((p.withSequencer s).engaged i (.holding (blockTo claim.hi n))).Sound := by
  have waiting := sound.waits waits
  have block : blockTo claim.hi n = ⟨claim.before + 1, claim.hi⟩ := by
    rw [waiting.hi_eq, blockTo_next]
  have one := waiting.one_le
  have most := waiting.le_size
  have hi_eq := waiting.hi_eq
  have cache_le : s.cachedGate ≤ claim.before := by
    rw [settled.cachedGate]
    exact Counters.least_le_default
  rw [block]
  cases ledger : p.sequencer.ledger with
  | solo c =>
      have position : p.claimed = c := claimed_solo ledger
      have after : s.claimed = claim.hi := claimed_solo (settled.solo c ledger)
      have single : p.kind = .one := producers_solo ledger
      have before : claim.before = p.claimed := waiting.solo single
      refine sound.engage waits (by simp) rfl settled.producers rfl ?grown ?fits ?cache_le ?split ?own
        ?opened ?rest ?marks
      case grown =>
        show p.claimed ≤ s.claimed
        omega
      case fits =>
        show Word.Fits s.claimed
        rw [after]
        exact waiting.fits
      case cache_le =>
        show s.cachedGate ≤ s.claimed
        omega
      case split =>
        show Split g.size _ p.Published s.claimed
        rw [after, hi_eq, before]
        have idle : p.takes i = none := by
          rw [takes_of_some waits, single]
          rfl
        refine sound.split.grow sound.start (by omega) (by omega) idle fun j => ?_
        rw [takes_of_set waits settled.producers rfl]
        rfl
      case own =>
        intro claim m again
        cases again
      case opened =>
        intro _ b same
        cases same
        have resting := (sound.alone single).cursor_eq waits (by simp) (by simp)
        refine ⟨?_, after⟩
        show s.cursor = claim.before + 1 - 1
        rw [settled.cursor, resting, before]
        omega
      case rest =>
        intro _ closed
        exact absurd rfl (closed _)
      case marks =>
        intro laps shared
        cases shared.symm.trans (settled.solo c ledger)
  | shared laps =>
      have ledger' := settled.shared laps ledger
      have many : p.kind = .many := producers_shared ledger
      have after : s.claimed = p.claimed := by
        rw [claimed_shared ledger', settled.cursor, Production.claimed, claimed_shared ledger]
      have taken : p.takes i = some ⟨claim.before + 1, claim.hi⟩ := by
        rw [takes_of_some waits, many]
        rfl
      refine sound.engage waits (by simp) rfl settled.producers rfl ?grown ?fits ?cache_le ?split ?own
        ?opened ?rest ?marks
      case grown =>
        exact Int.le_of_eq after.symm
      case fits =>
        show Word.Fits s.claimed
        rw [after]
        exact sound.fits
      case cache_le =>
        have := sound.split.span taken
        show s.cachedGate ≤ s.claimed
        simp only at this
        omega
      case split =>
        show Split g.size _ p.Published s.claimed
        rw [after]
        apply sound.split.congr
        -- the sequences were taken when the wait began
        apply takes_of_keep waits settled.producers rfl
        rw [← takes_of_some waits, taken]
        rfl
      case own =>
        intro claim m again
        cases again
      case opened =>
        intro single
        cases many.symm.trans single
      case rest =>
        intro single
        cases many.symm.trans single
      case marks =>
        intro laps' shared
        cases shared.symm.trans ledger'
        exact sound.marks ledger

theorem Sound.published (sound : p.Sound) (holds : p.publishers[i]? = some (.holding b))
    (shown : Shown p.sequencer b.lo b.hi s) :
    Sound { (p.withSequencer s).engaged i .free with history := b :: p.history } := by
  have taken : p.takes i = some b := takes_of_some holds
  have published_iff (t : Int) :
      Published { (p.withSequencer s).engaged i .free with history := b :: p.history } t ↔
        t ∈ b ∨ p.Published t := by
    simp [Published]
  refine sound.engage holds (by simp) rfl shown.producers rfl ?grown ?fits ?cache_le ?split ?own
    ?opened ?rest ?marks
  case grown =>
    exact Int.le_of_eq shown.claimed_eq.symm
  case fits =>
    show Word.Fits s.claimed
    rw [shown.claimed_eq]
    exact sound.fits
  case cache_le =>
    show s.cachedGate ≤ s.claimed
    rw [shown.cachedGate, shown.claimed_eq]
    exact sound.cache_le
  case split =>
    show Split g.size _ _ s.claimed
    rw [shown.claimed_eq]
    refine sound.split.publish taken (fun j => ?_) published_iff
    rw [takes_of_set holds shown.producers rfl]
    rfl
  case own =>
    intro claim n waiting
    cases waiting
  case opened =>
    intro _ b holding
    cases holding
  case rest =>
    intro single _
    obtain ⟨c, ledger⟩ := kind_eq_one_iff.mp single
    have here := ((sound.alone single).opened holds).2
    show s.cursor = s.claimed
    rw [shown.claimed_eq, (shown.solo c ledger).2]
    exact here.symm
  case marks =>
    intro laps ledger
    cases before : p.sequencer.ledger with
    | solo c =>
        cases ledger.symm.trans (shown.solo c before).1
    | shared laps' =>
        cases ledger.symm.trans (shown.shared laps' before).1
        exact (sound.marks before).publish published_iff

/-- A publisher that comes in has taken nothing. -/
theorem takes_of_append (kind : q.kind = p.kind)
    (publishers : q.publishers = p.publishers ++ [.free]) (j : Nat) : q.takes j = p.takes j := by
  unfold takes
  rw [publishers, kind, List.getElem?_append]
  split
  · rfl
  · rename_i past
    rw [List.getElem?_eq_none (Nat.le_of_not_lt past)]
    cases j - p.publishers.length <;> rfl

/-- A publisher that has taken nothing may be given back. -/
theorem takes_of_gone (free : p.publishers[i]? = some .free) (kind : q.kind = p.kind)
    (publishers : q.publishers = p.publishers.set i .gone) (j : Nat) : q.takes j = p.takes j :=
  takes_of_keep free kind publishers rfl j

theorem Sound.lent (sound : p.Sound) {ring : Ring g ε}
    (alone : p.kind = .one → p.ring.publisherTaken = false)
    (sequencer : ring.sequencer = p.sequencer)
    (lent : p.kind = .one → ring.publisherTaken = true) :
    Sound { p with ring := ring, publishers := p.publishers ++ [.free] } := by
  obtain ⟨_, slots, publisherTaken⟩ := ring
  cases sequencer
  have before {j e} (h : (p.publishers ++ [Engagement.free])[j]? = some e) :
      p.publishers[j]? = some e ∨ (j = p.publishers.length ∧ e = .free) := by
    rw [List.getElem?_append] at h
    split at h
    · exact Or.inl h
    · rename_i past
      obtain ⟨inside, rfl⟩ := List.getElem?_eq_some_iff.mp h
      simp only [List.length_singleton] at inside
      exact Or.inr ⟨by omega, by simp⟩
  refine ⟨sound.start, sound.fits, sound.cache_le, sound.split.congr (takes_of_append rfl rfl),
    ?_, ?_, sound.marks⟩
  · intro j claim n waiting
    rcases before waiting with old | ⟨-, new⟩
    · exact (sound.waits old).move rfl (fun _ => rfl)
    · cases new
  · intro single
    -- the flag was down, so nobody is out
    have empty {j} (live : p.Live j) : False := by
      have out := (sound.alone single).lent live
      rw [alone single] at out
      cases out
    have newest {j} (live : Live { p with
        ring := ⟨p.sequencer, slots, publisherTaken⟩, publishers := p.publishers ++ [.free] } j) :
        j = p.publishers.length := by
      obtain ⟨e, there, running⟩ := live
      rcases before there with old | ⟨same, -⟩
      · exact (empty ⟨e, old, running⟩).elim
      · exact same
    constructor
    case only =>
      intro j k liveJ liveK
      exact (newest liveJ).trans (newest liveK).symm
    case lent =>
      intro _ _
      exact lent single
    case opened =>
      intro j b holds
      rcases before holds with old | ⟨-, new⟩
      · exact (empty ⟨_, old, by simp⟩).elim
      · cases new
    case rest =>
      intro _
      exact (sound.alone single).rest fun j b holds => empty ⟨_, holds, by simp⟩

/-- A publisher that is given back had nothing open. -/
theorem Sound.returned (sound : p.Sound) {ring : Ring g ε}
    (free : p.publishers[i]? = some .free) (sequencer : ring.sequencer = p.sequencer) :
    Sound (engaged { p with ring := ring } i .gone) := by
  obtain ⟨_, slots, publisherTaken⟩ := ring
  cases sequencer
  obtain ⟨inside, -⟩ := List.getElem?_eq_some_iff.mp free
  have before {j e} (h : (p.publishers.set i .gone)[j]? = some e) :
      (j = i ∧ e = .gone) ∨ (j ≠ i ∧ p.publishers[j]? = some e) := by
    by_cases own : j = i
    · subst own
      rw [List.getElem?_set_self inside] at h
      exact Or.inl ⟨rfl, (Option.some.inj h).symm⟩
    · rw [List.getElem?_set_ne (Ne.symm own)] at h
      exact Or.inr ⟨own, h⟩
  refine ⟨sound.start, sound.fits, sound.cache_le, sound.split.congr (takes_of_gone free rfl rfl),
    ?_, ?_, sound.marks⟩
  · intro j claim n waiting
    rcases before waiting with ⟨-, new⟩ | ⟨-, old⟩
    · cases new
    · exact (sound.waits old).move rfl (fun _ => rfl)
  · intro single
    -- the one that was out is gone
    have empty {j} (live : Live (engaged { p with ring := ⟨p.sequencer, slots, publisherTaken⟩ } i
        .gone) j) : False := by
      obtain ⟨e, there, running⟩ := live
      rcases before there with ⟨-, new⟩ | ⟨other, old⟩
      · exact running new
      · exact other ((sound.alone single).only ⟨e, old, running⟩ ⟨_, free, by simp⟩)
    refine ⟨fun live => (empty live).elim, fun live => (empty live).elim, ?_, ?_⟩
    · intro j b holds
      exact (empty ⟨_, holds, by simp⟩).elim
    · intro _
      exact (sound.alone single).cursor_eq free (by simp) (by simp)

/-- Reading the gates from the claim position renews the cache and nothing else; an announcement
moves the cursor only if the publisher has an open claim. -/
theorem Sound.read (sound : p.Sound) {announce : Bool}
    (cursor : announce = true → p.sequencer.cursor = p.claimed) :
    (p.withSequencer (p.sequencer.read announce)).Sound := by
  refine sound.transfer rfl rfl rfl ?_ rfl Counters.least_le_default
  cases announce with
  | false => rfl
  | true => exact (cursor rfl).symm

/-- Every act preserves the invariant. -/
theorem sound_of_change (sound : p.Sound) (h : Change p act q) : q.Sound := by
  cases h with
  | idle => exact sound
  | lent alone sequencer _ lent => exact sound.lent alone sequencer lent
  | returned free sequencer => exact sound.returned free sequencer
  | claimed _ free taken => exact sound.claimed free taken
  | parked free parked => exact sound.parked free parked
  | declined free =>
      refine sound.read fun _ => ?_
      cases kind : p.kind with
      | one => exact (sound.alone kind).cursor_eq free (by simp) (by simp)
      | many => exact cursor_of_many kind
  | resumed waits settled => exact sound.resumed waits settled
  | wrote => exact sound.transfer rfl rfl rfl rfl rfl sound.cache_le
  | published holds shown => exact sound.published holds shown
  | asked => exact sound.read (fun announced => nomatch announced)
  | gated => exact sound.transfer rfl rfl rfl rfl rfl sound.cache_le
  | ungated => exact sound.transfer rfl rfl rfl rfl rfl sound.cache_le
  | made => exact sound.transfer rfl rfl rfl rfl rfl sound.cache_le
  | moved => exact sound.transfer rfl rfl rfl rfl rfl sound.cache_le

/-! ## Claims that come open -/

theorem holds_of_engaged (h : (p.engaged j e).Holds i b) :
    (i = j ∧ e = .holding b) ∨ p.Holds i b := by
  unfold Holds engaged at h
  by_cases own : j = i
  · subst own
    obtain ⟨inside, -⟩ := List.getElem?_eq_some_iff.mp h
    rw [List.getElem?_set_self (by simpa using inside)] at h
    exact Or.inl ⟨rfl, Option.some.inj h⟩
  · rw [List.getElem?_set_ne own] at h
    exact Or.inr h

/-- A publisher that goes on without an open claim opens none. -/
theorem holds_of_closed (h : (p.engaged j e).Holds i b) (closed : ∀ c, e ≠ .holding c) :
    p.Holds i b := by
  rcases holds_of_engaged h with ⟨-, new⟩ | old
  · exact absurd new (closed b)
  · exact old

theorem holds_of_append (h : (p.publishers ++ [Engagement.free])[i]? = some (.holding b)) :
    p.Holds i b := by
  rw [List.getElem?_append] at h
  split at h
  · exact h
  · have := List.mem_of_getElem? h
    simp at this

/-- An open claim that was not there before was just granted, or waited until now. -/
theorem opened_of_change (h : Change p act q) (closed : ¬ p.Holds i b) (opened : q.Holds i b) :
    (∃ n, (act = .claim i n ∨ act = .tryClaim i n) ∧ p.publishers[i]? = some .free ∧
        Taken p.sequencer n b.hi q.sequencer ∧ b = blockTo b.hi n) ∨
      ∃ claim n, act = .retry i ∧ p.publishers[i]? = some (.waiting claim n) ∧
        Settled p.sequencer claim q.sequencer ∧ b = blockTo claim.hi n := by
  cases h with
  | idle => exact absurd opened closed
  | lent => exact absurd (holds_of_append opened) closed
  | returned => exact absurd (holds_of_closed opened (by simp)) closed
  | claimed asks free taken =>
      rcases holds_of_engaged opened with ⟨rfl, new⟩ | old
      · cases new
        exact Or.inl ⟨_, asks, free, taken, rfl⟩
      · exact absurd old closed
  | parked => exact absurd (holds_of_closed opened (by simp)) closed
  | declined => exact absurd opened closed
  | resumed waits settled =>
      rcases holds_of_engaged opened with ⟨rfl, new⟩ | old
      · cases new
        exact Or.inr ⟨_, _, rfl, waits, settled, rfl⟩
      · exact absurd old closed
  | wrote => exact absurd opened closed
  | published => exact absurd (holds_of_closed opened (by simp)) closed
  | asked => exact absurd opened closed
  | gated => exact absurd opened closed
  | ungated => exact absurd opened closed
  | made => exact absurd opened closed
  | moved => exact absurd opened closed

/-! ## What only grows -/

variable {t : Int} {id : CounterId}

/-- What was published stays published. -/
theorem published_of_change (h : Change p act q) (shown : p.Published t) : q.Published t := by
  cases h with
  | published holds _ =>
      obtain ⟨b, listed, inside⟩ := shown
      exact ⟨b, List.mem_cons_of_mem _ listed, inside⟩
  | _ => exact shown

/-- A publication is of a block that was open. -/
theorem published_of_not (h : Change p act q) (fresh : ¬ p.Published t) (shown : q.Published t) :
    ∃ i b, p.Holds i b ∧ t ∈ b := by
  cases h with
  | published holds _ =>
      obtain ⟨b, listed, inside⟩ := shown
      rcases List.mem_cons.mp listed with rfl | old
      · exact ⟨_, b, holds, inside⟩
      · exact absurd ⟨b, old, inside⟩ fresh
  | _ => exact absurd shown fresh

/-- The claim position never moves back. -/
theorem claimed_le_of_change (sound : p.Sound) (h : Change p act q) : p.claimed ≤ q.claimed := by
  cases h with
  | lent _ sequencer => exact Int.le_of_eq (congrArg Sequencer.claimed sequencer).symm
  | returned _ sequencer => exact Int.le_of_eq (congrArg Sequencer.claimed sequencer).symm
  | @claimed _ _ n hi s _ _ taken =>
      have after : s.claimed = hi := taken.moved.claimed_eq
      have position : hi = p.claimed + n := taken.hi_eq
      show p.claimed ≤ s.claimed
      omega
  | @parked i n claim s free parked =>
      show p.claimed ≤ s.claimed
      cases ledger : p.sequencer.ledger with
      | solo c =>
          refine Int.le_of_eq ?_
          rw [Production.claimed, claimed_solo ledger, claimed_solo (parked.solo c ledger).1]
      | shared laps =>
          rw [claimed_shared (parked.shared laps ledger).1, (parked.shared laps ledger).2]
          exact Int.le_add_of_nonneg_right (Int.natCast_nonneg n)
  | declined => exact Int.le_of_eq claimed_read.symm
  | asked => exact Int.le_of_eq claimed_read.symm
  | @resumed i n claim s waits settled =>
      have waiting := sound.waits waits
      have hi_eq := waiting.hi_eq
      show p.claimed ≤ s.claimed
      cases ledger : p.sequencer.ledger with
      | solo c =>
          rw [claimed_solo (settled.solo c ledger)]
          have := waiting.solo (producers_solo ledger)
          omega
      | shared laps =>
          refine Int.le_of_eq ?_
          rw [claimed_shared (settled.shared laps ledger), settled.cursor,
            Production.claimed, claimed_shared ledger]
  | published _ shown => exact Int.le_of_eq shown.claimed_eq.symm
  | _ => exact Int.le_refl p.claimed

/-- Only claims move the claim position. -/
theorem claimed_of_change (h : Change p act q) :
    q.claimed = p.claimed ∨ (∃ i n, act = .claim i n ∨ act = .tryClaim i n) ∨
      ∃ i, act = .retry i := by
  cases h with
  | lent _ sequencer => exact Or.inl (congrArg Sequencer.claimed sequencer)
  | returned _ sequencer => exact Or.inl (congrArg Sequencer.claimed sequencer)
  | claimed asks => exact Or.inr (Or.inl ⟨_, _, asks⟩)
  | parked => exact Or.inr (Or.inl ⟨_, _, Or.inl rfl⟩)
  | declined => exact Or.inl claimed_read
  | resumed => exact Or.inr (Or.inr ⟨_, rfl⟩)
  | published _ shown => exact Or.inl shown.claimed_eq
  | asked => exact Or.inl claimed_read
  | _ => exact Or.inl rfl

/-! ## Gates and counters -/

theorem gates_eq_of_change (h : Change p act q) :
    q.sequencer.gates = p.sequencer.gates ∨
      (∃ ids, act = .gate ids ∧ q.sequencer.gates = p.sequencer.gates ++ ids) ∨
      ∃ id, act = .ungate id ∧ q.sequencer.gates = p.sequencer.gates.filter (· ≠ id) := by
  cases h with
  | lent _ sequencer => exact Or.inl (congrArg Sequencer.gates sequencer)
  | returned _ sequencer => exact Or.inl (congrArg Sequencer.gates sequencer)
  | claimed _ _ taken => exact Or.inl taken.admitted.gates
  | parked _ parked => exact Or.inl parked.gates
  | resumed _ settled => exact Or.inl settled.gates
  | published _ shown => exact Or.inl shown.gates
  | gated => exact Or.inr (Or.inl ⟨_, rfl, rfl⟩)
  | ungated => exact Or.inr (Or.inr ⟨_, rfl, rfl⟩)
  | _ => exact Or.inl rfl

/-- A gate was there before, or it was just let hold producers back. -/
theorem gates_of_change (h : Change p act q) (gate : id ∈ q.sequencer.gates) :
    id ∈ p.sequencer.gates ∨ ∃ ids, act = .gate ids := by
  rcases gates_eq_of_change h with same | ⟨ids, rfl, -⟩ | ⟨other, -, same⟩
  · rw [same] at gate
    exact Or.inl gate
  · exact Or.inr ⟨ids, rfl⟩
  · rw [same] at gate
    exact Or.inl (List.mem_filter.mp gate).1

/-- A gate stays, unless it is taken off. -/
theorem gate_of_change (h : Change p act q) (gate : id ∈ p.sequencer.gates) :
    id ∈ q.sequencer.gates ∨ act = .ungate id := by
  rcases gates_eq_of_change h with same | ⟨ids, -, same⟩ | ⟨other, rfl, same⟩
  · rw [same]
    exact Or.inl gate
  · rw [same]
    exact Or.inl (List.mem_append_left ids gate)
  · by_cases own : id = other
    · exact Or.inr (congrArg _ own.symm)
    · rw [same]
      exact Or.inl (List.mem_filter.mpr ⟨gate, by simpa using own⟩)

theorem counters_eq_of_change (h : Change p act q) :
    q.sequencer.counters = p.sequencer.counters ∨
      (∃ ids, act = .gate ids ∧ q.sequencer = p.sequencer.gated ids) ∨
      (∃ value, act = .make value ∧
        q.sequencer.counters = (p.sequencer.counters.make value).2) ∨
      ∃ id value, act = .move id value ∧ p.Made id ∧
        q.sequencer.counters = p.sequencer.counters.set id value := by
  cases h with
  | lent _ sequencer => exact Or.inl (congrArg Sequencer.counters sequencer)
  | returned _ sequencer => exact Or.inl (congrArg Sequencer.counters sequencer)
  | claimed _ _ taken => exact Or.inl taken.admitted.counters
  | parked _ parked => exact Or.inl parked.counters
  | resumed _ settled => exact Or.inl settled.counters
  | published _ shown => exact Or.inl shown.counters
  | gated => exact Or.inr (Or.inl ⟨_, rfl, rfl⟩)
  | made => exact Or.inr (Or.inr (Or.inl ⟨_, rfl, rfl⟩))
  | moved made => exact Or.inr (Or.inr (Or.inr ⟨_, _, rfl, made, rfl⟩))
  | _ => exact Or.inl rfl

theorem made_of_change (h : Change p act q) (made : p.Made id) : q.Made id := by
  show id < q.sequencer.counters.values.size
  rcases counters_eq_of_change h with same | ⟨ids, -, same⟩ | ⟨value, -, same⟩ | ⟨_, _, -, -, same⟩
  · rwa [same]
  · rw [same]
    show id < (p.sequencer.counters.setAll ids _).values.size
    rwa [Counters.size_setAll]
  · rw [same, Counters.size_make]
    exact Nat.lt_succ_of_lt made
  · rwa [same, Counters.size_set]

/-- A counter stays where it is, unless it is let hold producers back, which puts it at the cursor, or
moved. -/
theorem counter_of_change (h : Change p act q) (made : p.Made id) :
    q.counter id = p.counter id ∨
      (∃ ids, act = .gate ids ∧ id ∈ ids ∧ q.counter id = p.sequencer.cursor) ∨
      ∃ value, act = .move id value ∧ q.counter id = value := by
  show q.sequencer.counters.value id = p.counter id ∨ _
  rcases counters_eq_of_change h with same | ⟨ids, rfl, same⟩ | ⟨value, rfl, same⟩ |
      ⟨other, value, rfl, there, same⟩
  · exact Or.inl (congrArg (Counters.value · id) same)
  · by_cases listed : id ∈ ids
    · refine Or.inr (Or.inl ⟨ids, rfl, listed, ?_⟩)
      rw [counter, same]
      show (p.sequencer.counters.setAll ids _).value id = _
      rw [Counters.value_setAll, if_pos ⟨listed, made⟩]
    · left
      rw [same]
      exact Counters.value_setAll_of_not_mem listed
  · left
    rw [same, Counters.value_make value made]
  · by_cases own : other = id
    · subst own
      refine Or.inr (Or.inr ⟨value, rfl, ?_⟩)
      rw [counter, same, Counters.value_set_self _ made]
    · left
      rw [same, Counters.value_set_ne _ own]

/-! ## Runs -/

theorem sound_fresh (g : Geometry) (kind : Producers) (parks : Bool) (factory : Nat → ε) :
    (fresh g kind parks factory).Sound := by
  have start : (fresh g kind parks factory).claimed = -1 := by
    cases kind <;> rfl
  refine ⟨?_, ?_, ?_, ?_, ?_, ?_, ?_⟩
  · exact Int.le_of_eq start.symm
  · rw [start]
    decide
  · exact Int.le_of_eq start.symm
  · rw [start]
    refine ⟨fun took => (nomatch took), fun took => (nomatch took), ?_, fun took => (nomatch took),
      fun low high => by omega⟩
    rintro t ⟨b, past, -⟩
    cases past
  · intro i claim n waiting
    cases waiting
  · intro single
    refine ⟨?_, ?_, ?_, ?_⟩
    · rintro i j ⟨e, there, -⟩
      cases there
    · rintro i ⟨e, there, -⟩
      cases there
    · intro i b holds
      cases holds
    · intro _
      exact start.symm
  · intro laps ledger
    cases kind with
    | one => cases ledger
    | many =>
        cases ledger
        refine marks_initial ?_
        rintro t ⟨b, past, -⟩
        cases past

/-- The invariant holds wherever producers come to. -/
theorem sound_of_reaches {allowed : Production g ε → Act ε → Prop} {kind : Producers}
    {parks : Bool} {factory : Nat → ε}
    (reached : Reaches step allowed (fresh g kind parks factory) p) : p.Sound :=
  reached.invariant (sound_fresh g kind parks factory) fun sound _ made =>
    sound_of_change sound (change_of_step made)

end EventRing.Production
