import EventRing.Proofs.Parking
/-!
# EventRing.Proofs.Owing

Who owes a waking.  A publication, a claim of many producers or a cancellation may give a guest what it waits
for at any moment, also between its look and its parking, and wakes nobody at that moment.  But somebody then
owes a waking (`Hall.Owes`): who moved the cursor has yet to publish or to wake, and who set a token has yet to
wake.

Nobody can ring while a guest looks under the lock, and a task hears of every call since it registered.  So
whatever a guest has read is still so, or else a waking is owed that it will hear of (`Hall.Wary`).  Guests only
read, so it is enough to say what the step of somebody else leaves as it was (`Hall.Later`).
-/

namespace EventRing

open Wait (Strategy Side Observation Outcome)

/-! ## Debts -/

namespace Hand

/-- The hand has yet to wake those that are parked. -/
def owesRing : Hand → Bool
  | .claiming .. | .holding _ | .storing .. | .waking _ .knocking | .waking _ .ringing => true
  | _ => false

/-- The hand has yet to wake the tasks, if there can be any. -/
def owesCall : Hand → Bool
  | .free => false
  | _ => true

/-- The hand has the lock. -/
def hasLock : Hand → Bool
  | .waking _ .ringing | .waking _ .leaving => true
  | _ => false

/-- The hand has a claim, or waits for one. -/
def isEngaged : Hand → Bool
  | .claiming .. | .holding _ | .storing .. => true
  | _ => false

/-- The claim that the hand has. -/
def block? : Hand → Option Block
  | .holding block | .storing block _ => some block
  | _ => none

theorem owesCall_of_owesRing {e : Hand} (owes : e.owesRing = true) : e.owesCall = true := by
  cases e with
  | free => cases owes
  | _ => rfl

theorem block?_of_not_engaged {e : Hand} (idle : e.isEngaged = false) : e.block? = none := by
  cases e with
  | holding | storing => cases idle
  | _ => rfl

end Hand

namespace Hall

variable {g : Geometry} {h h' : Hall g} {i j : Nat} {e e' : Hand} {guest : Guest}

/-- Some hand owes something. -/
def Owes (debt : Hand → Bool) (h : Hall g) : Prop := ∃ e ∈ h.hands, debt e = true

abbrev Ringing (h : Hall g) : Prop := h.Owes Hand.owesRing

abbrev Calling (h : Hall g) : Prop := h.Owes Hand.owesCall

theorem Ringing.calling (ringing : h.Ringing) : h.Calling := by
  obtain ⟨e, listed, owes⟩ := ringing
  exact ⟨e, listed, Hand.owesCall_of_owesRing owes⟩

variable {debt : Hand → Bool}

/-- What a hand goes on to owe is owed. -/
theorem owes_of_set (here : h.hands[i]? = some e) (hands : h'.hands = h.hands.set i e')
    (owes : debt e' = true) : h'.Owes debt := by
  obtain ⟨inside, -⟩ := List.getElem?_eq_some_iff.mp here
  refine ⟨e', ?_, owes⟩
  rw [hands]
  exact List.mem_set inside e'

/-- A debt stays as long as the hand that has it does not pay it. -/
theorem Owes.set (owed : h.Owes debt) (here : h.hands[i]? = some e) (hands : h'.hands = h.hands.set i e')
    (keeps : debt e = true → debt e' = true) : h'.Owes debt := by
  obtain ⟨f, listed, owes⟩ := owed
  obtain ⟨j, there⟩ := List.mem_iff_getElem?.mp listed
  by_cases same : j = i
  · subst same
    cases here.symm.trans there
    exact owes_of_set here hands (keeps owes)
  · refine ⟨f, List.mem_iff_getElem?.mpr ⟨j, ?_⟩, owes⟩
    rw [hands, List.getElem?_set_ne (Ne.symm same)]
    exact there

/-! ## Guests that should not be parked -/

def Cancelled (h : Hall g) (b : Nat) : Prop :=
  ∃ barrier, h.barriers[b]? = some barrier ∧ barrier.cancelled = true

def Reached (h : Hall g) (guest : Guest) : Prop := guest.target ≤ h.sequencer.cursor

/-- The guest should not be parked. -/
def Due (h : Hall g) (guest : Guest) : Prop := h.Reached guest ∨ h.Cancelled guest.barrier

/-- What a guest has read is still so, or else somebody owes a waking. -/
structure Sight (h : Hall g) (guest : Guest) (owed : Prop) : Prop where
  cursor : ∀ c, guest.cursor = some c → c < guest.target → h.Reached guest → owed
  token : guest.cancelled = some false → h.Cancelled guest.barrier → owed

/-- A guest that looks in the gate reads under the lock. -/
structure Looking (h : Hall g) (i : Nat) (guest : Guest) : Prop where
  locked : guest.Fresh ∨ h.lock = some (.guest i)
  sight : h.Sight guest h.Ringing

/-- A task registers, and then reads.  What it has read counts until the next call. -/
structure Listening (h : Hall g) (guest : Guest) : Prop where
  tasks : h.strategy.hasTasks = true
  fresh : guest.heard = none → guest.Fresh
  le : ∀ k, guest.heard = some k → k ≤ h.calls
  sight : guest.heard = some h.calls → h.Sight guest h.Calling

/-- A guest that heard of all wakings there were, and should not be parked, is owed one. -/
def Asleep (h : Hall g) (guest : Guest) (wakings : Nat) (owed : Prop) : Prop :=
  ∃ k, guest.heard = some k ∧ k ≤ wakings ∧ (k = wakings → h.Due guest → owed)

/-- What holds of a guest, by where it is. -/
def Wary (h : Hall g) (i : Nat) (guest : Guest) : Prop :=
  match guest.place with
  | .inl (.gated _ .looking) => h.Looking i guest
  | .inl (.gated _ .parked) => h.Asleep guest h.rings h.Ringing
  | .inl (.listening _) => h.Listening guest
  | .inl (.suspended _) => h.strategy.hasTasks = true ∧ h.Asleep guest h.calls h.Calling
  | _ => True

/-- A guest that is neither in the gate nor registered, or has only to leave the gate. -/
def Calm : Wait.Phase ⊕ Outcome → Prop
  | .inl (.gated _ .looking) | .inl (.gated _ .parked) | .inl (.listening _) | .inl (.suspended _) => False
  | _ => True

variable {timed : Bool}

theorem wary_of_calm (calm : Calm guest.place) : h.Wary i guest := by
  unfold Wary
  split
  case h_5 => trivial
  all_goals
    rename_i place
    rw [place] at calm
    exact calm.elim

theorem wary_looking (place : guest.place = .inl (.gated timed .looking)) :
    h.Wary i guest ↔ h.Looking i guest := by
  simp only [Wary, place]

theorem wary_parked (place : guest.place = .inl (.gated timed .parked)) :
    h.Wary i guest ↔ h.Asleep guest h.rings h.Ringing := by
  simp only [Wary, place]

theorem wary_listening (place : guest.place = .inl (.listening timed)) :
    h.Wary i guest ↔ h.Listening guest := by
  simp only [Wary, place]

theorem wary_suspended (place : guest.place = .inl (.suspended timed)) :
    h.Wary i guest ↔ h.strategy.hasTasks = true ∧ h.Asleep guest h.calls h.Calling := by
  simp only [Wary, place]

theorem Looking.wary (looking : h.Looking i guest) (place : guest.place = .inl (.gated timed .looking)) :
    h.Wary i guest :=
  (wary_looking place).mpr looking

theorem Listening.wary (listening : h.Listening guest) (place : guest.place = .inl (.listening timed)) :
    h.Wary i guest :=
  (wary_listening place).mpr listening

theorem Sight.of_fresh (fresh : guest.Fresh) : h.Sight guest owed where
  cursor c read := by
    cases fresh.1.symm.trans read
  token read := by
    cases fresh.2.symm.trans read

/-- Who has read that it must wait is owed a waking if it must not. -/
theorem Sight.due {c : Int} (sight : h.Sight guest owed) (read : guest.cursor = some c)
    (short : c < guest.target) (armed : guest.cancelled = some false) (due : h.Due guest) : owed := by
  rcases due with reached | cancelled
  · exact sight.cursor c read short reached
  · exact sight.token armed cancelled

theorem Sight.looked (sight : h.Sight guest owed) :
    h.Sight { guest with cursor := some h.sequencer.cursor } owed where
  cursor c read short reached := by
    cases read
    exact absurd reached (Int.not_le.mpr short)
  token := sight.token

theorem Sight.checked {barrier : Barrier} (sight : h.Sight guest owed)
    (there : h.barriers[guest.barrier]? = some barrier) :
    h.Sight { guest with cancelled := some barrier.cancelled } owed where
  cursor := sight.cursor
  token read cancelled := by
    obtain ⟨same, listed, set⟩ := cancelled
    cases there.symm.trans listed
    cases set.symm.trans (Option.some.inj read)

theorem Looking.of_fresh (fresh : guest.Fresh) : h.Looking i guest :=
  ⟨Or.inl fresh, Sight.of_fresh fresh⟩

theorem Listening.of_fresh (tasks : h.strategy.hasTasks = true) (fresh : guest.Fresh)
    (unheard : guest.heard = none) : h.Listening guest where
  tasks := tasks
  fresh _ := fresh
  le k heard := by
    cases unheard.symm.trans heard
  sight _ := Sight.of_fresh fresh

/-! ## Steps of others -/

/-- What a step leaves as it was, or else owes. -/
structure Later (h h' : Hall g) : Prop where
  strategy : h'.strategy = h.strategy
  rings : h.rings ≤ h'.rings
  calls : h.calls ≤ h'.calls
  cursor : h'.sequencer.cursor = h.sequencer.cursor ∨ h'.Ringing
  token : ∀ b, h'.Cancelled b → h.Cancelled b ∨ h'.Ringing
  ringing : h.Ringing → h'.Ringing ∨ h.rings < h'.rings ∧ ∃ j, h.lock = some (.hand j)
  calling : h.strategy.hasTasks = true → h.Calling → h'.Calling ∨ h.calls < h'.calls

theorem Later.reached (later : Later h h') (reached : h'.Reached guest) : h.Reached guest ∨ h'.Ringing := by
  rcases later.cursor with same | rings
  · unfold Reached at *
    rw [same] at reached
    exact Or.inl reached
  · exact Or.inr rings

theorem Later.due (later : Later h h') (due : h'.Due guest) : h.Due guest ∨ h'.Ringing := by
  rcases due with reached | cancelled
  · exact (later.reached reached).imp_left Or.inl
  · exact (later.token _ cancelled).imp_left Or.inr

/-- While a guest has the lock, nobody rings. -/
theorem Later.ringing_of_locked (later : Later h h') (locked : h.lock = some (.guest i))
    (ringing : h.Ringing) : h'.Ringing := by
  rcases later.ringing ringing with still | ⟨-, j, other⟩
  · exact still
  · cases locked.symm.trans other

theorem Sight.later (sight : h.Sight guest owed) (later : Later h h') (kept : owed → owed')
    (rings : h'.Ringing → owed') : h'.Sight guest owed' where
  cursor c read short reached := by
    rcases later.reached reached with before | ringing
    · exact kept (sight.cursor c read short before)
    · exact rings ringing
  token armed cancelled := by
    rcases later.token _ cancelled with before | ringing
    · exact kept (sight.token armed before)
    · exact rings ringing

theorem Asleep.later {wakings wakings' : Nat} (asleep : h.Asleep guest wakings owed) (later : Later h h')
    (le : wakings ≤ wakings') (kept : owed → owed' ∨ wakings < wakings') (rings : h'.Ringing → owed') :
    h'.Asleep guest wakings' owed' := by
  obtain ⟨k, heard, before, debt⟩ := asleep
  refine ⟨k, heard, Nat.le_trans before le, fun all due => ?_⟩
  have same : k = wakings := Nat.le_antisymm before (all ▸ le)
  rcases later.due due with due | ringing
  · rcases kept (debt same due) with still | woken
    · exact still
    · omega
  · exact rings ringing

theorem Looking.later (looking : h.Looking i guest) (later : Later h h')
    (lock : h.lock = some (.guest i) → h'.lock = some (.guest i)) : h'.Looking i guest := by
  rcases looking.locked with fresh | locked
  · exact Looking.of_fresh fresh
  · exact ⟨Or.inr (lock locked), looking.sight.later later (later.ringing_of_locked locked) id⟩

theorem Listening.later (listening : h.Listening guest) (later : Later h h') : h'.Listening guest where
  tasks := later.strategy ▸ listening.tasks
  fresh := listening.fresh
  le k heard := Nat.le_trans (listening.le k heard) later.calls
  sight all := by
    have same : h'.calls = h.calls := Nat.le_antisymm (listening.le _ all) later.calls
    refine (listening.sight (same ▸ all)).later later (fun calling => ?_) Ringing.calling
    rcases later.calling listening.tasks calling with still | called
    · exact still
    · omega

/-- What holds of a guest holds after the step of somebody else. -/
theorem Wary.later (wary : h.Wary i guest) (later : Later h h')
    (lock : guest.isLooking = true → h.lock = some (.guest i) → h'.lock = some (.guest i)) :
    h'.Wary i guest := by
  unfold Wary at wary ⊢
  split at wary
  case h_1 place =>
    exact Looking.later wary later (lock (by rw [Guest.isLooking, place]))
  case h_2 =>
    exact Asleep.later wary later later.rings
      (fun ringing => (later.ringing ringing).imp_right And.left) id
  case h_3 => exact Listening.later wary later
  case h_4 =>
    obtain ⟨tasks, asleep⟩ := wary
    exact ⟨later.strategy ▸ tasks, asleep.later later later.calls (later.calling tasks) Ringing.calling⟩
  case h_5 => trivial

/-! ## Steps of the guest itself -/

theorem wary_begin {owner : Option String} {b : Nat} {side : Side} {target : Int} :
    h.Wary i ⟨b, target, .inl ((h.strategy.waiter owner).begin side), none, none, none⟩ := by
  have listens (tasks : h.strategy.hasTasks = true) (timed : Bool) :
      h.Wary i ⟨b, target, .inl ((Wait.Waiter.suspending timed).begin side), none, none, none⟩ := by
    cases side with
    | thread => trivial
    | task => exact Listening.wary (Listening.of_fresh tasks ⟨rfl, rfl⟩ rfl) rfl
  cases strategy : h.strategy with
  | task | timeoutTask ms => exact listens (by rw [strategy]; rfl) _
  | hybrid tags =>
      simp only [Strategy.waiter]
      split <;> trivial
  | _ => trivial

theorem Wary.registered (wary : h.Wary i guest) (listening : guest.isListening = true)
    (unheard : guest.heard = none) : h.Wary i { guest with heard := some h.calls } := by
  unfold Guest.isListening at listening
  split at listening
  · rename_i timed place
    obtain ⟨tasks, fresh, -, -⟩ := (wary_listening place).mp wary
    refine Listening.wary
      ⟨tasks, fun heard => ?_, fun k heard => ?_, fun _ => Sight.of_fresh (fresh unheard)⟩ place
    · cases heard
    · cases heard
      exact Nat.le_refl _
  · cases listening

theorem Wary.looked (wary : h.Wary i guest)
    (reads : guest.readsCursor (h.lock == some (.guest i)) = true) :
    h.Wary i { guest with cursor := some h.sequencer.cursor } := by
  unfold Guest.readsCursor at reads
  split at reads
  case h_1 timed place | h_3 timed place =>
    refine wary_of_calm ?_
    simp only [place]
    trivial
  case h_2 timed place =>
    have looking := (wary_looking place).mp wary
    exact Looking.wary ⟨Or.inr (beq_iff_eq.mp reads), looking.sight.looked⟩ place
  case h_4 timed place =>
    have listening := (wary_listening place).mp wary
    refine Listening.wary
      ⟨listening.tasks, fun unheard => ?_, listening.le, fun all => (listening.sight all).looked⟩ place
    rw [show guest.heard = none from unheard] at reads
    cases reads
  case h_5 => cases reads

theorem Wary.checked {barrier : Barrier} (wary : h.Wary i guest)
    (there : h.barriers[guest.barrier]? = some barrier)
    (reads : guest.readsToken (h.lock == some (.guest i)) = true) :
    h.Wary i { guest with cancelled := some barrier.cancelled } := by
  unfold Guest.readsToken at reads
  split at reads
  case h_1 timed place =>
    have looking := (wary_looking place).mp wary
    have locked := beq_iff_eq.mp (Bool.and_eq_true_iff.mp reads).1
    exact Looking.wary ⟨Or.inr locked, looking.sight.checked there⟩ place
  case h_2 timed place =>
    have listening := (wary_listening place).mp wary
    refine Listening.wary
      ⟨listening.tasks, fun unheard => ?_, listening.le, fun all => (listening.sight all).checked there⟩ place
    rw [show guest.heard = none from unheard] at reads
    cases reads
  case h_3 => cases reads

theorem calm_look {target : Int} {o : Observation} {next : Wait.Phase} (calm : Calm (.inl next)) :
    Calm (Wait.Phase.look target o next) := by
  unfold Wait.Phase.look
  split
  · trivial
  · split
    · trivial
    · exact calm

theorem calm_budgeted {target : Int} {o : Observation} (left : Nat) :
    Calm ((Wait.Phase.budgeted left).step target o) := by
  cases left with
  | zero =>
      simp only [Wait.Phase.step, Wait.Phase.look]
      by_cases reached : target ≤ o.value
      · rw [if_pos reached]
        trivial
      · rw [if_neg reached]
        by_cases cancelled : o.cancelled = true
        · rw [if_pos cancelled]
          trivial
        · rw [if_neg cancelled]
          simp only
          split <;> trivial
  | succ left => exact calm_look trivial

/-- A guest that is parked now was looking before. -/
theorem looking_of_parked {phase : Wait.Phase} {o : Observation} {rings : Nat}
    (sees : guest.sees o phase = true)
    (parked : (guest.moved rings (phase.step guest.target o)).isParked = true) :
    ∃ timed, phase = .gated timed .looking := by
  cases phase with
  | gated timed gate =>
      cases gate with
      | looking => exact ⟨timed, rfl⟩
      | _ => grind [Wait.Phase.step, Wait.Gate.step, Guest.sees, Guest.moved, Guest.isParked]
  | budgeted left => cases left <;> grind [Wait.Phase.step, Wait.Phase.look, Guest.moved, Guest.isParked]
  | _ => grind [Wait.Phase.step, Wait.Phase.look, Guest.moved, Guest.isParked]

theorem Looking.locked_of_sees {o : Observation} (looking : h.Looking i guest)
    (sees : guest.sees o (.gated timed .looking) = true) : h.lock = some (.guest i) := by
  rcases looking.locked with fresh | locked
  · cases fresh.1.symm.trans (beq_iff_eq.mp (Bool.and_eq_true_iff.mp sees).1)
  · exact locked

/-- A guest parks only if it has read that it must. -/
theorem Looking.moved {o : Observation} (looking : h.Looking i guest)
    (sees : guest.sees o (.gated timed .looking) = true) :
    h.Wary i (guest.moved h.rings ((Wait.Phase.gated timed .looking).step guest.target o)) := by
  obtain ⟨read, token⟩ := Bool.and_eq_true_iff.mp sees
  by_cases short : o.cursor < guest.target
  · cases cancelled : o.cancelled with
    | true =>
        simp only [Wait.Phase.step, Wait.Gate.step, short, cancelled, decide_true, if_true]
        exact wary_of_calm trivial
    | false =>
        have armed : guest.cancelled = some false := by
          rcases Bool.or_eq_true_iff.mp token with reached | armed
          · exact absurd (of_decide_eq_true reached) (Int.not_le.mpr short)
          · rw [beq_iff_eq.mp armed, cancelled]
        simp only [Wait.Phase.step, Wait.Gate.step, short, cancelled, decide_true, if_true, Bool.false_eq_true,
          if_false]
        refine (wary_parked rfl).mpr ⟨h.rings, rfl, Nat.le_refl _, fun _ due => ?_⟩
        exact looking.sight.due (beq_iff_eq.mp read) short armed due
  · simp only [Wait.Phase.step, Wait.Gate.step, short, decide_false, Bool.false_eq_true, if_false]
    exact wary_of_calm trivial

/-- A task is suspended only if it has read that it must. -/
theorem Listening.moved {o : Observation} (listening : h.Listening guest)
    (sees : guest.sees o (.listening timed) = true) :
    h.Wary i (guest.moved h.rings ((Wait.Phase.listening timed).step guest.target o)) := by
  obtain ⟨token, read⟩ := Bool.and_eq_true_iff.mp sees
  cases cancelled : o.cancelled with
  | true =>
      simp only [Wait.Phase.step, cancelled, if_true]
      exact wary_of_calm trivial
  | false =>
      by_cases reached : guest.target ≤ o.cursor
      · simp only [Wait.Phase.step, cancelled, reached, Bool.false_eq_true, if_false, if_true]
        exact wary_of_calm trivial
      · simp only [Wait.Phase.step, cancelled, reached, Bool.false_eq_true, if_false]
        have armed : guest.cancelled = some false := by rw [beq_iff_eq.mp token, cancelled]
        have seen : guest.cursor = some o.cursor := by simpa [cancelled] using read
        cases heard : guest.heard with
        | none => cases (listening.fresh heard).1.symm.trans seen
        | some k =>
            refine (wary_suspended rfl).mpr ⟨listening.tasks, k, heard, listening.le k heard, ?_⟩
            intro all due
            exact (listening.sight (all ▸ heard)).due seen (Int.not_le.mp reached) armed due

/-- A guest that has read what it goes by is as wary at the place where it goes. -/
theorem Wary.moved {phase : Wait.Phase} {o : Observation} (wary : h.Wary i guest)
    (place : guest.place = .inl phase) (sees : guest.sees o phase = true) :
    h.Wary i (guest.moved h.rings (phase.step guest.target o)) := by
  cases phase with
  | spinning | backingOff | yielding | sleeping => exact wary_of_calm (calm_look trivial)
  | budgeted left => exact wary_of_calm (calm_budgeted left)
  | arriving timed =>
      by_cases short : o.cursor < guest.target
      · simp only [Wait.Phase.step, if_pos short]
        exact Looking.wary (Looking.of_fresh ⟨rfl, rfl⟩) rfl
      · simp only [Wait.Phase.step, if_neg short]
        exact wary_of_calm trivial
  | gated timed gate =>
      cases gate with
      | looking => exact ((wary_looking place).mp wary).moved sees
      | parked =>
          by_cases woken : o.woken = true
          · simp only [Wait.Phase.step, Wait.Gate.step, woken, if_true]
            exact Looking.wary (Looking.of_fresh ⟨rfl, rfl⟩) rfl
          · have late : (timed && o.expired) = true := by simpa [Guest.sees, woken] using sees
            simp only [Wait.Phase.step, Wait.Gate.step, woken, late, Bool.false_eq_true, if_false, if_true]
            exact wary_of_calm trivial
      | lastLook =>
          refine wary_of_calm ?_
          simp only [Wait.Phase.step, Wait.Gate.step, Guest.moved]
          by_cases short : o.cursor < guest.target
          · simp only [short, decide_true, if_true]
            trivial
          · simp only [short, decide_false, Bool.false_eq_true, if_false]
            trivial
  | listening timed => exact ((wary_listening place).mp wary).moved sees
  | suspended timed =>
      obtain ⟨tasks, -⟩ := (wary_suspended place).mp wary
      by_cases woken : o.woken = true
      · simp only [Wait.Phase.step, woken, if_true]
        exact Listening.wary (Listening.of_fresh tasks ⟨rfl, rfl⟩ rfl) rfl
      · have late : (timed && o.expired) = true := by simpa [Guest.sees, woken] using sees
        simp only [Wait.Phase.step, woken, late, Bool.false_eq_true, if_false, if_true]
        exact wary_of_calm trivial
  | following =>
      refine wary_of_calm ?_
      simp only [Wait.Phase.step, Guest.moved]
      split
      · trivial
      · split <;> trivial

end Hall

end EventRing
