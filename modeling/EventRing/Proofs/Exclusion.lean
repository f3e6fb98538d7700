import EventRing.Proofs.Gating
/-!
# EventRing.Proofs.Exclusion

Exclusive access to slots.  Open claims own different sequences, but slots are used again every lap,
so two open claims share a slot as soon as one of them reaches a lap beyond the other.

With one producer there is one open claim at a time, and it is not longer than the ring.  With many
producers only the gates hold a claim back, and they know nothing of open claims: if no gate is behind
the open claims of others, the next producer may go once around the ring and take over their slots.
`open_claims_are_apart` shows that open claims never share a slot as long as claims are made while
some gate is behind all that is still open before them, and that otherwise the next claim can collide.

A claim that waits owns no slot yet; it is counted among what is still open because it will.
-/

namespace EventRing.Production

open Sequencer

variable {g : Geometry} {ε : Type} {p q : Production g ε} {act : Act ε} {i : Nat} {b : Block}

/-! ## The condition -/

/-- If anything up to a claim position is still unpublished, then some gate is behind all of it. -/
def Clear (p : Production g ε) (before : Int) : Prop :=
  (∃ b ∈ p.taken, b.hi ≤ before) →
    ∃ id ∈ p.sequencer.gates, ∀ b ∈ p.taken, b.hi ≤ before → p.counter id < b.lo

instance (p : Production g ε) (before : Int) : Decidable (p.Clear before) := by
  unfold Clear
  infer_instance

/-- Gates move forward only, and with many producers a claim is made only while some gate is behind
everything unpublished before it. -/
def Spaced (p : Production g ε) : Act ε → Prop
  | .claim _ _ | .tryClaim _ _ => p.kind = .many → p.Clear p.claimed
  | .retry i =>
    match p.publishers[i]? with
    | some (.waiting claim _) => p.kind = .many → p.Clear claim.before
    | _ => True
  | .move id value => id ∈ p.sequencer.gates → p.counter id ≤ value
  | _ => True

instance (p : Production g ε) : (act : Act ε) → Decidable (p.Spaced act)
  | .claim _ _ | .tryClaim _ _ => inferInstanceAs (Decidable (_ → p.Clear p.claimed))
  | .retry i =>
    match there : p.publishers[i]? with
    | some (.waiting claim _) =>
      decidable_of_iff (p.kind = .many → p.Clear claim.before) (by simp [Spaced, there])
    | none | some .free | some (.holding _) | some .gone => isTrue (by simp [Spaced, there])
  | .move id value => inferInstanceAs (Decidable (_ → p.counter id ≤ value))
  | .enlist | .dismiss _ | .write _ _ _ | .publish _ | .ask _ | .measure | .gate _ | .ungate _ |
    .make _ => isTrue trivial

/-- No two sequences of open claims have the same slot. -/
def Exclusive (p : Production g ε) : Prop :=
  ∀ i j b c s t, p.Holds i b → p.Holds j c → s ∈ b → t ∈ c → g.slot s = g.slot t → i = j ∧ s = t

/-! ## Granted sequences and taken blocks -/

/-- A sequence is published or in an open claim. -/
def Granted (p : Production g ε) (t : Int) : Prop :=
  p.Published t ∨ ∃ i b, p.Holds i b ∧ t ∈ b

/-- No granted sequence is a lap or more above a block that is still unpublished. -/
def Window (p : Production g ε) : Prop :=
  ∀ t, p.Granted t → ∀ i b, p.takes i = some b → b.hi < t → t < b.lo + g.size

theorem Granted.le_claimed {t : Int} (sound : p.Sound) (granted : p.Granted t) :
    t ≤ p.claimed := by
  rcases granted with shown | ⟨i, b, holds, inside⟩
  · exact (sound.split.past shown).2
  · have := sound.split.span (takes_of_holds holds)
    rw [Block.mem_iff] at inside
    omega

/-- Blocks of different publishers lie one after the other. -/
theorem before_or_after {j : Nat} {c : Block} (sound : p.Sound) (tookB : p.takes i = some b)
    (tookC : p.takes j = some c) (different : i ≠ j) : b.hi < c.lo ∨ c.hi < b.lo := by
  have spanB := sound.split.span tookB
  have spanC := sound.split.span tookC
  refine Classical.byContradiction fun overlap => different ?_
  refine sound.split.apart (t := max b.lo c.lo) tookB tookC ?_ ?_ <;>
    rw [Block.mem_iff] <;> omega

/-- Open claims in a window of one lap do not share slots. -/
theorem exclusive_of_window (sound : p.Sound) (window : p.kind = .many → p.Window) :
    p.Exclusive := by
  have apart {i j b c s t} (holdsB : p.Holds i b) (holdsC : p.Holds j c) (inB : s ∈ b)
      (inC : t ∈ c) (different : i ≠ j) (less : b.hi < c.lo) : g.slot s ≠ g.slot t := by
    rw [Block.mem_iff] at inB inC
    cases kind : p.kind with
    | one =>
        refine absurd ?_ different
        exact (sound.alone kind).only ⟨_, holdsB, by simp⟩ ⟨_, holdsC, by simp⟩
    | many =>
        have near := window kind t (Or.inr ⟨j, c, holdsC, inC⟩) i b (takes_of_holds holdsB) (by omega)
        exact Geometry.slot_ne_of_near (by omega) (by omega)
  intro i j b c s t holdsB holdsC inB inC same
  by_cases own : i = j
  · subst own
    refine ⟨rfl, ?_⟩
    obtain rfl : b = c := by
      have := holdsB.symm.trans holdsC
      cases this
      rfl
    have := sound.split.span (takes_of_holds holdsB)
    rw [Block.mem_iff] at inB inC
    rcases Int.lt_trichotomy s t with less | equal | more
    · exact absurd same (Geometry.slot_ne_of_near less (by omega))
    · exact equal
    · exact absurd same.symm (Geometry.slot_ne_of_near more (by omega))
  · rcases before_or_after sound (takes_of_holds holdsB) (takes_of_holds holdsC) own with less | more
    · exact absurd same (apart holdsB holdsC inB inC own less)
    · exact absurd same.symm (apart holdsC holdsB inC inB (Ne.symm own) more)

/-! ## The window -/

/-- The window stays if no block is taken and no sequence granted that was not before. -/
theorem Window.mono (window : p.Window)
    (takes : ∀ {i b}, q.takes i = some b → p.takes i = some b)
    (granted : ∀ {t}, q.Granted t → p.Granted t) : q.Window := by
  intro t grantedT i b taken above
  exact window t (granted grantedT) i b (takes taken) above

theorem Granted.mono {t : Int} (granted : q.Granted t) (history : q.history = p.history)
    (holds : ∀ {i b}, q.Holds i b → p.Holds i b) : p.Granted t := by
  rcases granted with ⟨b, shown, inside⟩ | ⟨i, b, open', inside⟩
  · rw [history] at shown
    exact Or.inl ⟨b, shown, inside⟩
  · exact Or.inr ⟨i, b, holds open', inside⟩

/-- A claim that the gates have released, made while it was clear before it, ends less than a lap
above what is taken before it. -/
theorem Clear.near {before hi : Int} (clear : p.Clear before)
    (released : ∀ id ∈ p.sequencer.gates, hi - g.size ≤ p.counter id)
    (taken : p.takes i = some b) (below : b.hi ≤ before) : hi < b.lo + g.size := by
  have listed := mem_taken_iff.mpr ⟨i, taken⟩
  obtain ⟨id, gate, behind⟩ := clear ⟨b, listed, below⟩
  have := released id gate
  have := behind b listed below
  omega

theorem Window.claimed {n : Nat} {hi : Int} {s : Sequencer g} (sound : p.Sound)
    (behind : p.CacheBehind) (window : p.Window) (clear : p.Clear p.claimed)
    (free : p.publishers[i]? = some .free) (taken : Taken p.sequencer n hi s) :
    Window ((p.withSequencer s).engaged i (.holding (blockTo hi n))) := by
  have hi_eq : hi = p.claimed + n := taken.hi_eq
  have released := behind.released taken.admitted
  intro t granted j b took above
  rw [takes_of_set free taken.moved.producers rfl] at took
  by_cases own : j = i
  · rw [if_pos own] at took
    cases took
    -- nothing that is granted lies above the new block
    have below : t ≤ hi := by
      rcases granted with shown | ⟨k, c, holds, inside⟩
      · have := (sound.split.past shown).2
        omega
      · rcases holds_of_engaged holds with ⟨-, new⟩ | old
        · cases new
          exact inside.2
        · have := Granted.le_claimed sound (Or.inr ⟨k, c, old, inside⟩)
          omega
    exact absurd above (Int.not_lt.mpr below)
  · rw [if_neg own] at took
    have below := (sound.split.span took).2.2.1
    rcases granted with shown | ⟨k, c, holds, inside⟩
    · exact window t (Or.inl shown) j b took above
    · rcases holds_of_engaged holds with ⟨-, new⟩ | old
      · cases new
        exact Int.lt_of_le_of_lt inside.2 (clear.near released took below)
      · exact window t (Or.inr ⟨k, c, old, inside⟩) j b took above

theorem Window.parked {n : Nat} {claim : Pending} {s : Sequencer g} (sound : p.Sound)
    (window : p.Window) (free : p.publishers[i]? = some .free)
    (parked : Parked p.sequencer n claim s) :
    Window ((p.withSequencer s).engaged i (.waiting claim n)) := by
  intro t granted j b took above
  -- a wait grants nothing, though with many producers it takes its block
  have before : p.Granted t := by
    exact granted.mono rfl fun holds => holds_of_closed holds (by simp)
  rw [takes_of_set free parked.producers rfl] at took
  by_cases own : j = i
  · rw [if_pos own, parked.claim_eq] at took
    have one := parked.one_le
    have below := before.le_claimed sound
    cases kind : p.kind with
    | one =>
        rw [kind] at took
        cases took
    | many =>
        rw [kind] at took
        cases took
        have : p.claimed + n < t := above
        omega
  · rw [if_neg own] at took
    exact window t before j b took above

theorem Window.resumed {n : Nat} {claim : Pending} {s : Sequencer g} (sound : p.Sound)
    (many : p.kind = .many) (window : p.Window) (clear : p.Clear claim.before)
    (waits : p.publishers[i]? = some (.waiting claim n))
    (settled : Settled p.sequencer claim s) :
    Window ((p.withSequencer s).engaged i (.holding (blockTo claim.hi n))) := by
  have waiting := sound.waits waits
  have released := sound.released waits settled
  have own : p.takes i = some ⟨claim.before + 1, claim.hi⟩ := by
    rw [takes_of_some waits, many]
    rfl
  have block : blockTo claim.hi n = ⟨claim.before + 1, claim.hi⟩ := by
    rw [waiting.hi_eq, blockTo_next]
  rw [block]
  intro t granted j b took above
  -- what a waiting claim takes is the same before and after
  have already : p.takes j = some b := by
    rw [takes_of_set waits settled.producers rfl] at took
    by_cases same : j = i
    · rw [if_pos same] at took
      rw [same, own]
      exact took
    · rwa [if_neg same] at took
  rcases granted with shown | ⟨k, c, holds, inside⟩
  · exact window t (Or.inl shown) j b already above
  · rcases holds_of_engaged holds with ⟨-, new⟩ | old
    · cases new
      obtain ⟨low, high⟩ := inside
      simp only at low high
      have different : j ≠ i := by
        rintro rfl
        obtain rfl := Option.some.inj (already.symm.trans own)
        exact absurd high (Int.not_le.mpr above)
      have below : b.hi ≤ claim.before := by
        rcases before_or_after sound already own different with less | more
        · exact Int.le_of_lt_add_one less
        · have := (sound.split.span already).2.1
          simp only at more
          omega
      exact Int.lt_of_le_of_lt high (clear.near released already below)
    · exact window t (Or.inr ⟨k, c, old, inside⟩) j b already above

theorem Window.published {s : Sequencer g} (window : p.Window) (holds : p.Holds i b)
    (shown : Shown p.sequencer b.lo b.hi s) :
    Window { (p.withSequencer s).engaged i .free with history := b :: p.history } := by
  refine window.mono ?_ ?_
  · intro j c took
    have after := takes_of_set (p := p) (q := { (p.withSequencer s).engaged i .free with
      history := b :: p.history }) holds shown.producers rfl j
    rw [after] at took
    by_cases own : j = i
    · rw [if_pos own] at took
      cases took
    · rwa [if_neg own] at took
  · rintro t (⟨c, listed, inside⟩ | ⟨j, c, open', inside⟩)
    · rcases List.mem_cons.mp listed with rfl | old
      · exact Or.inr ⟨i, c, holds, inside⟩
      · exact Or.inl ⟨c, old, inside⟩
    · exact Or.inr ⟨j, c, holds_of_closed open' (by simp), inside⟩

/-- Nothing that is spaced breaks the window. -/
theorem window_of_change (sound : p.Sound) (many : p.kind = .many) (behind : p.CacheBehind)
    (window : p.Window) (spaced : p.Spaced act) (h : Change p act q) : q.Window := by
  cases h with
  | idle => exact window
  | lent _ sequencer =>
      refine window.mono ?_ fun granted => granted.mono rfl holds_of_append
      intro j c took
      rwa [takes_of_append (congrArg producers sequencer) rfl] at took
  | @returned i ring free sequencer =>
      have same := takes_of_gone (p := p) (q := engaged { p with ring := ring } i .gone) free
        (congrArg producers sequencer) rfl
      refine window.mono ?_ fun granted => granted.mono rfl fun holds => ?_
      · intro j c took
        rwa [same] at took
      · exact holds_of_closed holds (by simp)
  | claimed asks free taken =>
      refine window.claimed sound behind ?_ free taken
      rcases asks with rfl | rfl <;> exact spaced many
  | parked free parked => exact window.parked sound free parked
  | declined => exact window
  | resumed waits settled =>
      refine window.resumed sound many ?_ waits settled
      simp only [Spaced, waits] at spaced
      exact spaced many
  | wrote => exact window
  | published holds shown => exact window.published holds shown
  | asked => exact window
  | gated => exact window
  | ungated => exact window
  | made => exact window
  | moved => exact window

/-- With many producers a spaced run is an orderly one. -/
theorem orderly_of_spaced (many : p.kind = .many) (spaced : p.Spaced act) : p.Orderly act := by
  cases act with
  | gate ids =>
      intro single
      cases many.symm.trans single
  | move id value => exact spaced
  | _ => trivial

/-- What holds of spaced runs, if there are many producers. -/
theorem window_of_reaches {kind : Producers} {parks : Bool} {factory : Nat → ε}
    (reached : Reaches step Spaced (fresh g kind parks factory) p) (many : p.kind = .many) :
    p.CacheBehind ∧ p.Window := by
  have initially : (fresh g kind parks factory).Window := by
    rintro t (⟨b, shown, -⟩ | ⟨i, b, holds, -⟩)
    · cases shown
    · cases holds
  have all := reached.invariant
    (motive := fun p => p.Sound ∧ (p.kind = .many → p.CacheBehind ∧ p.Window))
    ⟨sound_fresh g kind parks factory, fun _ => ⟨fun _ gate => (nomatch gate), initially⟩⟩
    fun ⟨sound, kept⟩ spaced made => by
      have h := change_of_step made
      refine ⟨sound_of_change sound h, fun many => ?_⟩
      rw [kind_of_change h] at many
      obtain ⟨behind, window⟩ := kept many
      exact ⟨cacheBehind_of_change sound behind (orderly_of_spaced many spaced) h,
        window_of_change sound many behind window spaced h⟩
  exact all.2 many

/-! ## Open claims and slots -/

theorem exists_lowest {blocks : List Block} (some : b ∈ blocks) :
    ∃ c ∈ blocks, ∀ d ∈ blocks, c.lo ≤ d.lo := by
  induction blocks generalizing b with
  | nil => cases some
  | cons first rest ih =>
      cases rest with
      | nil =>
          refine ⟨first, List.mem_singleton_self first, fun d listed => ?_⟩
          obtain rfl := List.mem_singleton.mp listed
          exact Int.le_refl d.lo
      | cons second others =>
          obtain ⟨c, listed, lowest⟩ := ih List.mem_cons_self
          by_cases lower : first.lo ≤ c.lo
          · refine ⟨first, List.mem_cons_self, fun d inside => ?_⟩
            rcases List.mem_cons.mp inside with rfl | later
            · exact Int.le_refl _
            · exact Int.le_trans lower (lowest d later)
          · refine ⟨c, List.mem_cons_of_mem first listed, fun d inside => ?_⟩
            rcases List.mem_cons.mp inside with rfl | later
            · omega
            · exact lowest d later

/-- Nobody waits for a claim. -/
def Unhindered (p : Production g ε) : Prop :=
  ∀ e ∈ p.publishers, ∀ claim n, e ≠ .waiting claim n

theorem Unhindered.holds (unhindered : p.Unhindered) (took : p.takes i = some b) : p.Holds i b := by
  obtain ⟨e, there, taken⟩ := Option.bind_eq_some_iff.mp took
  cases e with
  | holding c =>
      cases taken
      exact there
  | waiting claim n => exact absurd rfl (unhindered _ (List.mem_of_getElem? there) claim n)
  | free => cases taken
  | gone => cases taken

/-- If no gate is behind the open claims, another producer can take over the slot of the lowest open
sequence. -/
theorem collision_of_not_clear (sound : p.Sound) (many : p.kind = .many) (window : p.Window)
    (unhindered : p.Unhindered) (unclear : ¬ p.Clear p.claimed)
    (room : Word.Fits (p.claimed + g.size)) :
    ∃ i n q, [Act.enlist, .tryClaim i n].foldlM step p = some q ∧ ¬ q.Exclusive := by
  unfold Clear at unclear
  obtain ⟨⟨b, listed, -⟩, ahead⟩ := Classical.not_imp.mp unclear
  obtain ⟨u, lowest, least⟩ := exists_lowest listed
  obtain ⟨i, took⟩ := mem_taken_iff.mp lowest
  obtain ⟨low, upright, below, short⟩ := sound.split.span took
  -- the claim position is less than a lap above the lowest open sequence
  have near : p.claimed < u.lo + g.size := by
    by_cases end' : u.hi = p.claimed
    · omega
    · refine window p.claimed ?_ i u took (by omega)
      rcases sound.split.cover (t := p.claimed) (by omega) (Int.le_refl _) with
        shown | ⟨j, c, own, inside⟩
      · exact Or.inl shown
      · exact Or.inr ⟨j, c, unhindered.holds own, inside⟩
  -- and every gate has passed that sequence
  have passed : u.lo ≤ p.sequencer.slowestGate p.claimed := by
    refine Counters.le_least_iff.mpr ⟨by omega, fun id gate => ?_⟩
    refine Classical.byContradiction fun behind => ahead ⟨id, gate, fun c inside _ => ?_⟩
    have := least c inside
    have : p.counter id < u.lo := Int.not_le.mp behind
    omega
  obtain ⟨n, length⟩ : ∃ n : Nat, (n : Int) = u.lo + g.size - p.claimed :=
    ⟨(u.lo + g.size - p.claimed).toNat, by omega⟩
  have size := g.size_cast_pos
  have fits {t : Int} (above : -1 ≤ t) (under : t ≤ p.claimed + g.size) : Word.Fits t :=
    Word.Fits.between (by decide : Word.Fits (-1)) room above under
  obtain ⟨s, ran⟩ : ∃ s, Sequencer.tryClaim n p.sequencer = .ok (some (p.claimed + n)) s := by
    have wrap : p.claimed + n - g.size = u.lo := by omega
    refine tryClaim_of_admitted (by omega) (by omega) (fits (t := p.claimed + n) ?_ ?_)
      (fits (t := p.claimed + n - g.size) ?_ ?_) (Or.inr (Int.le_trans (Int.le_of_eq wrap) passed))
    all_goals omega
  have claimed := step_tryClaim (i := p.publishers.length)
    (p := { p with publishers := p.publishers ++ [.free] }) (by simp) ran
    (fits (by omega) (by omega)) (fits (by omega) (by omega))
  refine ⟨p.publishers.length, n, _, (foldlM_step (step_enlist many)).trans (foldlM_last claimed), ?_⟩
  intro exclusive
  have holds := unhindered.holds took
  obtain ⟨inside, -⟩ := List.getElem?_eq_some_iff.mp holds
  have clash := exclusive i p.publishers.length u (blockTo (p.claimed + n) n) u.lo (u.lo + g.size)
    ?_ ?_ ?_ ?_ (g.slot_add_size u.lo).symm
  · omega
  · unfold Holds engaged withSequencer
    rw [List.getElem?_set_ne (by omega), List.getElem?_append_left inside]
    exact holds
  · unfold Holds engaged withSequencer
    rw [List.getElem?_set_self (by simp)]
  · exact ⟨Int.le_refl _, upright⟩
  · show p.claimed + n - n + 1 ≤ u.lo + g.size ∧ u.lo + g.size ≤ p.claimed + n
    omega

/-- A gate that has not passed anything unpublished keeps every claim clear. -/
theorem clear_of_gate_behind {id : CounterId} (sound : p.Sound) (gate : id ∈ p.sequencer.gates)
    (behind : ∀ t, 0 ≤ t → t ≤ p.counter id → p.Published t) (before : Int) : p.Clear before := by
  intro _
  refine ⟨id, gate, fun b listed _ => ?_⟩
  obtain ⟨i, took⟩ := mem_taken_iff.mp listed
  obtain ⟨low, upright, -⟩ := sound.split.span took
  refine Int.not_le.mp fun passed => ?_
  exact sound.split.once took (behind b.lo low passed) ⟨Int.le_refl _, upright⟩

/-- Wherever a spaced run leads, no two open claims share a slot.  And the condition on a run is
exact: once it fails with nobody waiting, the next claim can collide, unless sequences run out. -/
theorem open_claims_are_apart {kind : Producers} {parks : Bool} {factory : Nat → ε}
    (reached : Reaches step Spaced (fresh g kind parks factory) p) :
    p.Exclusive ∧ (p.kind = .many → p.Unhindered → ¬ p.Clear p.claimed →
      Word.Fits (p.claimed + g.size) →
      ∃ i n q, [Act.enlist, .tryClaim i n].foldlM step p = some q ∧ ¬ q.Exclusive) := by
  have sound := sound_of_reaches reached
  refine ⟨exclusive_of_window sound fun many => (window_of_reaches reached many).2, ?_⟩
  intro many unhindered unclear room
  exact collision_of_not_clear sound many (window_of_reaches reached many).2 unhindered unclear room

/-- Rings of two slots, for many producers.  On the one, behind a gate, sequences 1 and 2 are open, and
they are apart.  On the other, without a gate, one sequence is open, and the next claim can collide. -/
theorem open_claims_are_apart_size_two :
    (∃ p : Production ⟨1, by decide⟩ Unit,
      Reaches step Spaced (fresh ⟨1, by decide⟩ .many false fun _ => ()) p ∧ p.Exclusive ∧
      p.Holds 0 ⟨2, 2⟩ ∧ p.Holds 1 ⟨1, 1⟩ ∧ p.sequencer.gates = [0]) ∧
    ∃ p : Production ⟨1, by decide⟩ Unit,
      Reaches step Spaced (fresh ⟨1, by decide⟩ .many false fun _ => ()) p ∧ p.Exclusive ∧
      ∃ i n q, [Act.enlist, .tryClaim i n].foldlM step p = some q ∧ ¬ q.Exclusive := by
  constructor
  · have walked : ∃ p : Production ⟨1, by decide⟩ Unit,
        walk step Spaced (fresh ⟨1, by decide⟩ .many false fun _ => ())
          [.enlist, .enlist, .make (-1), .gate [0], .claim 0 1, .claim 1 1, .publish 0, .move 0 0,
            .claim 0 1] = some p ∧
        p.Holds 0 ⟨2, 2⟩ ∧ p.Holds 1 ⟨1, 1⟩ ∧ p.sequencer.gates = [0] :=
      ⟨_, rfl, rfl, rfl, rfl⟩
    obtain ⟨p, walked, first, second, gates⟩ := walked
    have reached := reaches_of_walk walked
    exact ⟨p, reached, (open_claims_are_apart reached).1, first, second, gates⟩
  · have walked : ∃ p : Production ⟨1, by decide⟩ Unit,
        walk step Spaced (fresh ⟨1, by decide⟩ .many false fun _ => ())
          [.enlist, .claim 0 1] = some p ∧
        p.kind = .many ∧ p.publishers = [.holding ⟨0, 0⟩] ∧ ¬ p.Clear p.claimed ∧ p.claimed = 0 :=
      ⟨_, rfl, rfl, rfl, by decide, rfl⟩
    obtain ⟨p, walked, many, publishers, unclear, claimed⟩ := walked
    have reached := reaches_of_walk walked
    refine ⟨p, reached, (open_claims_are_apart reached).1, ?_⟩
    refine (open_claims_are_apart reached).2 many ?_ unclear ?_
    · intro e listed claim n
      rw [publishers] at listed
      rw [List.mem_singleton.mp listed]
      simp
    · rw [claimed]
      decide

/-- Without the condition two open claims share the only slot of a ring. -/
theorem open_claims_collide :
    ∃ q : Production ⟨0, by decide⟩ Unit,
      [.enlist, .enlist, .claim 0 1, .tryClaim 1 1].foldlM step
        (fresh ⟨0, by decide⟩ .many false fun _ => ()) = some q ∧
      q.Holds 0 ⟨0, 0⟩ ∧ q.Holds 1 ⟨1, 1⟩ ∧ ¬ q.Exclusive := by
  have run : ∃ q : Production ⟨0, by decide⟩ Unit,
      [.enlist, .enlist, .claim 0 1, .tryClaim 1 1].foldlM step
        (fresh ⟨0, by decide⟩ .many false fun _ => ()) = some q ∧
      q.Holds 0 ⟨0, 0⟩ ∧ q.Holds 1 ⟨1, 1⟩ := ⟨_, rfl, rfl, rfl⟩
  obtain ⟨q, made, first, second⟩ := run
  refine ⟨q, made, first, second, fun exclusive => ?_⟩
  have clash := exclusive 0 1 _ _ 0 1 first second (by decide) (by decide) (by decide)
  exact absurd clash.1 (by decide)

end EventRing.Production
