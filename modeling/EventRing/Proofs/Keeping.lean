import EventRing.Proofs.Exclusion
/-!
# EventRing.Proofs.Keeping

How long what was written stays readable.  The event of a sequence is in its slot from the last write
on, until somebody writes the sequence one lap on; that needs a claim, and claims do not come further
than one lap ahead of any gate (`Leash`).  So behind a gate that has not passed a sequence its event is
still there (`Intact`).  Once published, an event is not written again (`drafts_of_change`).
-/

namespace EventRing.Production

open Sequencer

variable {g : Geometry} {ε : Type} {p q : Production g ε} {act : Act ε} {i j : Nat} {b : Block}
  {e e' : Engagement} {t u : Int} {id : CounterId}

/-! ## Granted sequences -/

theorem Granted.nonneg (sound : p.Sound) (granted : p.Granted t) : 0 ≤ t := by
  rcases granted with shown | ⟨i, b, holds, inside⟩
  · exact (sound.split.past shown).1
  · have := sound.split.span (takes_of_holds holds)
    rw [Block.mem_iff] at inside
    omega

/-- Before the first claim nothing is granted. -/
theorem not_granted (sound : p.Sound) (unclaimed : p.claimed = -1) : ¬ p.Granted t := by
  intro granted
  have := granted.nonneg sound
  have := granted.le_claimed sound
  omega

/-- An open claim is not touched by what another publisher does. -/
theorem Holds.engaged (holds : p.Holds i b) (there : p.publishers[j]? = some e)
    (other : ∀ c, e ≠ .holding c) : (p.engaged j e').Holds i b := by
  show (p.publishers.set j e')[i]? = _
  have different : j ≠ i := by
    rintro rfl
    exact other b (Option.some.inj (there.symm.trans holds))
  rw [List.getElem?_set_ne different]
  exact holds

/-- An open claim stays open, or it is published. -/
theorem holds_of_change (h : Change p act q) (holds : p.Holds i b) :
    q.Holds i b ∨ ∀ t ∈ b, q.Published t := by
  cases h with
  | lent =>
      obtain ⟨inside, -⟩ := List.getElem?_eq_some_iff.mp holds
      left
      show (p.publishers ++ [Engagement.free])[i]? = _
      rw [List.getElem?_append_left inside]
      exact holds
  | returned free => exact Or.inl (Holds.engaged holds free (by simp))
  | claimed _ free =>
      left
      exact Holds.engaged (p := p.withSequencer _) holds free (by simp)
  | parked free =>
      left
      exact Holds.engaged (p := p.withSequencer _) holds free (by simp)
  | resumed waits =>
      left
      exact Holds.engaged (p := p.withSequencer _) holds waits (by simp)
  | @published k c s open' shown =>
      by_cases own : k = i
      · right
        subst own
        cases holds.symm.trans open'
        intro t inside
        exact ⟨b, List.mem_cons_self, inside⟩
      · left
        show (p.publishers.set k .free)[i]? = _
        rw [List.getElem?_set_ne own]
        exact holds
  | _ => exact Or.inl holds

/-- What is granted stays granted. -/
theorem Granted.later (granted : p.Granted t) (h : Change p act q) : q.Granted t := by
  rcases granted with shown | ⟨i, b, holds, inside⟩
  · exact Or.inl (published_of_change h shown)
  · rcases holds_of_change h holds with still | shown
    · exact Or.inr ⟨i, b, still, inside⟩
    · exact Or.inl (shown t inside)

/-- What is granted now and was not before is in a claim that comes open. -/
theorem granted_of_change (h : Change p act q) (granted : q.Granted t) :
    p.Granted t ∨ ∃ i b, ¬ p.Holds i b ∧ q.Holds i b ∧ t ∈ b := by
  by_cases before : p.Granted t
  · exact Or.inl before
  · right
    rcases granted with shown | ⟨i, b, holds, inside⟩
    · by_cases old : p.Published t
      · exact absurd (Or.inl old) before
      · obtain ⟨i, b, holds, inside⟩ := published_of_not h old shown
        exact absurd (Or.inr ⟨i, b, holds, inside⟩) before
    · refine ⟨i, b, fun open' => before (Or.inr ⟨i, b, open', inside⟩), holds, inside⟩

/-! ## The leash -/

/-- Nothing that is granted is more than a lap ahead of a gate. -/
def Leash (p : Production g ε) : Prop :=
  ∀ t, p.Granted t → ∀ id ∈ p.sequencer.gates, t - g.size ≤ p.counter id

/-- Claims that respect the gates stay on the leash, if gates come in only before the first claim. -/
theorem leash_of_change (sound : p.Sound) (behind : p.CacheBehind) (leash : p.Leash)
    (orderly : p.Orderly act) (early : ∀ ids, act = .gate ids → p.claimed = -1)
    (h : Change p act q) : q.Leash := by
  intro t granted id gate
  rcases granted_of_change h granted with old | ⟨i, b, closed, opened, inside⟩
  · have before : id ∈ p.sequencer.gates := by
      rcases gates_of_change h gate with before | ⟨ids, rfl⟩
      · exact before
      · exact absurd old (not_granted sound (early ids rfl))
    have near := leash t old id before
    rcases counter_of_change h (behind id before).1 with same | ⟨ids, rfl, -⟩ | ⟨value, rfl, same⟩
    · rwa [same]
    · exact absurd old (not_granted sound (early ids rfl))
    · rw [same]
      exact Int.le_trans near (orderly before)
  · have released := released_of_opened sound behind h closed opened id gate
    have := inside.2
    omega

/-! ## Events -/

theorem event_putEvent (ring : Ring g ε) (t u : Int) (event : ε) :
    (ring.putEvent t event).event u = if g.slot t = g.slot u then event else ring.event u := by
  have set : (ring.putEvent t event).event u =
      (ring.slots.set (g.slot t) event (g.slot_lt t))[(g.slot u : Nat)] := rfl
  rw [set, Vector.getElem_set]
  simp only [← Fin.ext_iff]
  rfl

/-- Only a publisher that holds a claim writes, and only in its claim. -/
theorem drafts_eq_of_change (h : Change p act q) :
    (q.drafts = p.drafts ∧ q.ring.slots = p.ring.slots) ∨
      ∃ i b t w, p.Holds i b ∧ t ∈ b ∧ q.ring = p.ring.putEvent t w ∧
        ∀ u, q.drafts u = if u = t then some w else p.drafts u := by
  cases h with
  | lent _ _ slots => exact Or.inl ⟨rfl, slots⟩
  | returned _ _ slots => exact Or.inl ⟨rfl, slots⟩
  | wrote holds inside => exact Or.inr ⟨_, _, _, _, holds, inside, rfl, fun u => rfl⟩
  | _ => exact Or.inl ⟨rfl, rfl⟩

/-- What is published is not written again. -/
theorem drafts_of_change (sound : p.Sound) (shown : p.Published t) (h : Change p act q) :
    q.drafts t = p.drafts t := by
  rcases drafts_eq_of_change h with ⟨same, -⟩ | ⟨i, b, u, w, holds, inside, -, drafts⟩
  · rw [same]
  · have other : t ≠ u := by
      rintro rfl
      exact sound.split.once (takes_of_holds holds) shown inside
    rw [drafts, if_neg other]

/-- Only what is granted was written. -/
def Drafted (p : Production g ε) : Prop := ∀ {t w}, p.drafts t = some w → p.Granted t

theorem drafted_of_change (drafted : p.Drafted) (h : Change p act q) : q.Drafted := by
  intro t w draft
  rcases drafts_eq_of_change h with ⟨same, -⟩ | ⟨i, b, s, w', holds, inside, -, drafts⟩
  · rw [same] at draft
    exact (drafted draft).later h
  · rw [drafts] at draft
    split at draft
    · rename_i own
      rw [own]
      exact Granted.later (Or.inr ⟨i, b, holds, inside⟩) h
    · exact (drafted draft).later h

/-- What was written for a sequence is in its slot, as long as nothing one lap on is granted. -/
def Intact (p : Production g ε) : Prop :=
  ∀ {t w}, p.drafts t = some w → (∀ u, p.Granted u → u < t + g.size) → p.ring.event t = w

/-- Two sequences of one slot are not open and granted at once, one lap apart. -/
theorem slot_ne_of_window (sound : p.Sound) (window : p.Window) (holds : p.Holds i b) (inside : t ∈ b)
    (granted : p.Granted u) (above : t < u) : g.slot t ≠ g.slot u := by
  have := sound.split.span (takes_of_holds holds)
  rw [Block.mem_iff] at inside
  by_cases within : u ≤ b.hi
  · exact Geometry.slot_ne_of_near above (by omega)
  · have := window u granted i b (takes_of_holds holds) (by omega)
    exact Geometry.slot_ne_of_near above (by omega)

theorem intact_of_change (sound : p.Sound) (window : p.Window) (drafted : p.Drafted)
    (intact : p.Intact) (h : Change p act q) : q.Intact := by
  intro t w draft alone
  have before : ∀ u, p.Granted u → u < t + g.size := fun u granted => alone u (granted.later h)
  rcases drafts_eq_of_change h with ⟨same, slots⟩ | ⟨i, b, s, w', holds, inside, ring, drafts⟩
  · rw [same] at draft
    unfold Ring.event
    rw [slots]
    exact intact draft before
  · rw [drafts] at draft
    rw [ring, event_putEvent]
    by_cases own : t = s
    · rw [if_pos own] at draft
      rw [own, if_pos rfl]
      exact Option.some.inj draft
    · rw [if_neg own] at draft
      -- a write to this slot would be a lap ahead, or in an open claim a lap behind
      have different : g.slot s ≠ g.slot t := by
        rcases Int.lt_or_gt_of_ne own with less | more
        · have near := before s (Or.inr ⟨i, b, holds, inside⟩)
          exact (Geometry.slot_ne_of_near less near).symm
        · exact slot_ne_of_window sound window holds inside (drafted draft) more
      rw [if_neg different]
      exact intact draft before

/-- With one producer there is nothing beyond an open claim. -/
theorem window_of_single (sound : p.Sound) (single : p.kind = .one) : p.Window := by
  intro t granted i b took above
  have holds := holds_of_takes single took
  have last := ((sound.alone single).opened holds).2
  have := granted.le_claimed sound
  omega

/-- The window stays with either kind of producers. -/
theorem window_later (sound : p.Sound) (behind : p.CacheBehind) (window : p.Window)
    (spaced : p.Spaced act) (h : Change p act q) : q.Window := by
  cases kind : p.kind with
  | one => exact window_of_single (sound_of_change sound h) ((kind_of_change h).trans kind)
  | many => exact window_of_change sound kind behind window spaced h

end EventRing.Production
