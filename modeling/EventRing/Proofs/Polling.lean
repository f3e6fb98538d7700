import EventRing.Poller
import EventRing.Proofs.Books
import EventRing.Proofs.Faults
/-!
# EventRing.Proofs.Polling

A poll from its beginning to its end.  It looks once how far the events are published, offers them to its
handler one after the other until the handler stops or fails, and stores the last one that was accepted.
The ring is not its own meanwhile: before an event is read and while the handler looks at it, others do
what they like (`Company`), as long as they leave the poller's counter alone.

What a poll has offered is not read off its run.  The ring that an event is read from is computed from what
others did until then (`Company.after`), the offer from that ring (`Company.offer`), and a run of the loop is
proved to leave just these (`drain_eq`).  Between polls anything may happen to the ring (`Visit`), and what
was accepted over all of them is everything up to the poller's counter (`Even`).
-/

namespace EventRing

open EventRing.Action

variable {g : Geometry} {ε φ : Type}

/-! ## Others -/

/-- The value of a counter of a ring. -/
abbrev Ring.counter (ring : Ring g ε) (id : CounterId) : Int := ring.sequencer.counters.value id

/-- There is a counter of that name. -/
abbrev Ring.Made (ring : Ring g ε) (id : CounterId) : Prop := id < ring.sequencer.counters.values.size

/-- A ring with a counter somewhere else. -/
def Ring.moved (ring : Ring g ε) (id : CounterId) (value : Int) : Ring g ε :=
  { ring with sequencer.counters := ring.sequencer.counters.set id value }

theorem Ring.made_moved {ring : Ring g ε} {id other : CounterId} {value : Int} :
    (ring.moved id value).Made other ↔ ring.Made other := by
  show other < (ring.sequencer.counters.set id value).values.size ↔ _
  rw [Counters.size_set]

/-- What happened to a ring has not touched a counter. -/
structure Ring.Spares (id : CounterId) (ring after : Ring g ε) : Prop where
  made : ring.Made id → after.Made id
  counter : after.counter id = ring.counter id

theorem Ring.Spares.refl (id : CounterId) (ring : Ring g ε) : Ring.Spares id ring ring :=
  ⟨fun made => made, rfl⟩

theorem Ring.Spares.trans {id : CounterId} {ring next last : Ring g ε} (first : Ring.Spares id ring next)
    (second : Ring.Spares id next last) : Ring.Spares id ring last :=
  ⟨fun made => second.made (first.made made), second.counter.trans first.counter⟩

/-- What others do to a ring during a poll. -/
structure Company (g : Geometry) (ε : Type) where
  /-- What they do before the event of a sequence is read. -/
  before : Int → Ring g ε → Ring g ε := fun _ ring => ring
  /-- What they do while the handler looks at it; the handler may be one of them. -/
  during : Int → Ring g ε → Ring g ε := fun _ ring => ring

namespace Company

/-- They leave a counter alone. -/
structure Spares (id : CounterId) (company : Company g ε) : Prop where
  before : ∀ t ring, Ring.Spares id ring (company.before t ring)
  during : ∀ t ring, Ring.Spares id ring (company.during t ring)

/-- The ring after some events were handed over. -/
def after (company : Company g ε) (ring : Ring g ε) (handed : List Int) : Ring g ε :=
  handed.foldl (fun ring t => company.during t (company.before t ring)) ring

theorem Spares.after {id : CounterId} {company : Company g ε} (spares : company.Spares id)
    (ring : Ring g ε) (handed : List Int) : Ring.Spares id ring (company.after ring handed) := by
  induction handed generalizing ring with
  | nil => exact Ring.Spares.refl id ring
  | cons t rest ih =>
      exact ((spares.before t ring).trans (spares.during t _)).trans (ih _)

end Company

/-- An act of producers that neither moves a counter nor lets it hold them back. -/
def Production.Act.Minds (id : CounterId) : Act ε → Prop
  | .gate ids => id ∉ ids
  | .move other _ => other ≠ id
  | _ => True

/-- What producers do leaves the counters of pollers alone. -/
theorem Ring.spares_of_step {q r : Production g ε} {act : Production.Act ε} {id : CounterId}
    (h : q.step act = some r) (made : q.Made id) (minds : act.Minds id) : Ring.Spares id q.ring r.ring := by
  have change := Production.change_of_step h
  refine ⟨Production.made_of_change change, ?_⟩
  rcases Production.counter_of_change change made with same | ⟨ids, rfl, listed, -⟩ | ⟨value, rfl, -⟩
  · exact same
  · exact absurd listed minds
  · exact absurd rfl minds

/-! ## Offers -/

/-- A call of the handler. -/
structure Offer (ε φ : Type) where
  event : ε
  sequence : Int
  /-- It is the last one that the poll found. -/
  last : Bool
  reply : Reply φ

namespace Offer

/-- The event was accepted. -/
def isTaken (o : Offer ε φ) : Bool :=
  match o.reply with
  | .keepGoing | .stop => true
  | .failed _ => false

/-- The last accepted event if the poll ends here. -/
def progress (o : Offer ε φ) : Int := if o.isTaken then o.sequence else o.sequence - 1

/-- What comes of a poll that ends here. -/
def result (o : Offer ε φ) : PollResult φ :=
  match o.reply with
  | .keepGoing | .stop => .processing
  | .failed failure => .failed failure

/-- The sequences that were accepted. -/
def accepted (offers : List (Offer ε φ)) : List Int := (offers.filter isTaken).map sequence

end Offer

namespace Company

variable (company : Company g ε) (handler : ε → Int → Bool → Reply φ) (ring : Ring g ε)

/-- How the event of `t` is offered in a poll that began with `first` and found everything up to `a`. -/
def offer (first a t : Int) : Offer ε φ :=
  let event := (company.before t (company.after ring (sequences first (t - 1)))).event t
  ⟨event, t, t = a, handler event t (t = a)⟩

/-- The offers from `first` to `stop`. -/
def offers (first a stop : Int) : List (Offer ε φ) :=
  (sequences first stop).map (company.offer handler ring first a)

end Company

/-! ## A poll among others -/

theorem Polling.hear_of_fits {polling : Polling} (room : Word.Fits (polling.next + 1)) (reply : Reply φ) :
    polling.hear reply = .ok (match reply with
      | .keepGoing => ({ polling with accepted := polling.next, next := polling.next + 1 }, none)
      | .stop =>
        ({ polling with accepted := polling.next, next := polling.next + 1 }, some .processing)
      | .failed failure => (polling, some (.failed failure))) := by
  cases reply with
  | keepGoing => exact except_checked_of_fits room
  | stop => exact except_checked_of_fits room
  | failed => rfl

namespace Poller

/-- Hands an event to the handler and keeps what was offered. -/
def hand (company : Company g ε) (handler : ε → Int → Bool → Reply φ) (sequence : Int) (last : Bool) :
    Action (Ring g ε × List (Offer ε φ)) (Reply φ) := do
  let (ring, offers) ← get
  let ring := company.before sequence ring
  let event := ring.event sequence
  let reply := handler event sequence last
  set (company.during sequence ring, offers ++ [⟨event, sequence, last, reply⟩])
  return reply

/-- One poll while others act on the ring, with everything that was offered. -/
def pollAmong (company : Company g ε) (handler : ε → Int → Bool → Reply φ) (p : Poller) :
    Action (Ring g ε × List (Offer ε φ)) (PollResult φ) :=
  p.pollWithin (fun act => Action.onPart Prod.fst (fun ring t => (ring, t.2)) (Ring.onSequencer act))
    (hand company handler)

variable {company : Company g ε} {handler : ε → Int → Bool → Reply φ} {ring : Ring g ε} {p : Poller}
  {first a done : Int}

/-- What a poll has come to behind the offer of `done`. -/
def reached (company : Company g ε) (handler : ε → Int → Bool → Reply φ) (ring : Ring g ε)
    (first a done : Int) : Ring g ε × List (Offer ε φ) :=
  (company.after ring (sequences first done), company.offers handler ring first a done)

theorem hand_eq (begun : first ≤ done + 1) :
    hand company handler (done + 1) (done + 1 = a) (reached company handler ring first a done) =
      .ok (company.offer handler ring first a (done + 1)).reply
        (reached company handler ring first a (done + 1)) := by
  have state : reached company handler ring first a (done + 1) =
      (company.during (done + 1) (company.before (done + 1) (company.after ring (sequences first done))),
        company.offers handler ring first a done ++
          [company.offer handler ring first a (done + 1)]) := by
    unfold reached Company.offers Company.after
    rw [sequences_concat begun, Int.add_sub_cancel, List.foldl_append, List.map_append]
    rfl
  rw [state]
  unfold Company.offer
  rw [Int.add_sub_cancel]
  rfl

/-- The loop offers one event after the other, up to the first that is not answered with keeping on, or to
the last one. -/
theorem drain_eq (company : Company g ε) (handler : ε → Int → Bool → Reply φ) (ring : Ring g ε)
    (count : Nat) (begun : first ≤ done + 1) (whole : done + count = a) (any : first ≤ a) (low : 0 ≤ first)
    (below : a < Word.greatest)
    (kept : ∀ t, first ≤ t → t ≤ done → (company.offer handler ring first a t).reply = .keepGoing) :
    ∃ stop past, first ≤ stop ∧ stop ≤ a ∧
      (∀ t, first ≤ t → t < stop → (company.offer handler ring first a t).reply = .keepGoing) ∧
      (stop < a → (company.offer handler ring first a stop).reply ≠ .keepGoing) ∧
      Polling.drain (hand company handler) count ⟨done, done + 1, a⟩
          (reached company handler ring first a done) =
        .ok (⟨(company.offer handler ring first a stop).progress, past, a⟩,
            (company.offer handler ring first a stop).result)
          (reached company handler ring first a stop) := by
  induction count generalizing done with
  | zero =>
      obtain rfl : a = done := by omega
      refine ⟨a, a + 1, any, Int.le_refl a, fun t above inside => kept t above (by omega),
        fun beyond => absurd beyond (Int.lt_irrefl a), ?_⟩
      unfold Offer.progress Offer.isTaken Offer.result
      rw [kept a any (Int.le_refl a)]
      rfl
  | succ count ih =>
      have room : Word.Fits (done + 1 + 1) := Processor.fits_of_nonneg (by omega) (by omega)
      have before : ∀ t, first ≤ t → t < done + 1 →
          (company.offer handler ring first a t).reply = .keepGoing :=
        fun t above inside => kept t above (Int.lt_add_one_iff.mp inside)
      unfold Polling.drain
      rw [bind_of_ok (hand_eq begun), bind_apply, lift_apply, Polling.hear_of_fits room]
      dsimp only
      cases reply : (company.offer handler ring first a (done + 1)).reply with
      | keepGoing =>
          refine ih (by omega) (by omega) fun t above inside => ?_
          by_cases here : t = done + 1
          · rw [here, reply]
          · exact kept t above (by omega)
      | stop =>
          refine ⟨done + 1, done + 1 + 1, begun, by omega, before, fun _ => by rw [reply]; nofun, ?_⟩
          unfold Offer.progress Offer.isTaken Offer.result
          rw [reply]
          rfl
      | failed failure =>
          refine ⟨done + 1, done + 1, begun, by omega, before, fun _ => by rw [reply]; nofun, ?_⟩
          have taken : (company.offer handler ring first a (done + 1)).progress = done := by
            unfold Offer.progress Offer.isTaken
            rw [reply]
            exact Int.add_sub_cancel done 1
          rw [taken]
          unfold Offer.result
          rw [reply]
          rfl

/-- The last sequence that a poller may see. -/
def inFront (p : Poller) (ring : Ring g ε) : Int :=
  ring.sequencer.counters.behind p.front ring.sequencer.cursor

/-- What a poller may see is a word, and not the last one. -/
def Inside (p : Poller) (ring : Ring g ε) : Prop :=
  Word.least ≤ p.inFront ring ∧ p.inFront ring < Word.greatest

/-- The sequence that a poller looks for first. -/
def due (p : Poller) (ring : Ring g ε) : Int := ring.counter p.counter + 1

/-- How the event of `t` is offered in a poll that found everything up to `a`. -/
def offer (company : Company g ε) (handler : ε → Int → Bool → Reply φ) (p : Poller) (ring : Ring g ε)
    (a t : Int) : Offer ε φ := company.offer handler ring (p.due ring) a t

/-- The ring after a poll that ended with the offer of `stop`. -/
def ringAfter (company : Company g ε) (handler : ε → Int → Bool → Reply φ) (p : Poller)
    (ring : Ring g ε) (a stop : Int) : Ring g ε :=
  (company.after ring (sequences (p.due ring) stop)).moved p.counter
    (p.offer company handler ring a stop).progress

/-- A poll that found everything up to `a` ends with the offer of `stop`. -/
structure Stops (company : Company g ε) (handler : ε → Int → Bool → Reply φ) (p : Poller)
    (ring : Ring g ε) (a stop : Int) : Prop where
  due_le : p.due ring ≤ stop
  stop_le : stop ≤ a
  kept : ∀ t, p.due ring ≤ t → t < stop → (p.offer company handler ring a t).reply = .keepGoing
  ended : stop < a → (p.offer company handler ring a stop).reply ≠ .keepGoing
  polled : p.pollAmong company handler (ring, []) =
    .ok (p.offer company handler ring a stop).result (p.ringAfter company handler ring a stop,
      (sequences (p.due ring) stop).map (p.offer company handler ring a))
  progress : (p.ringAfter company handler ring a stop).counter p.counter =
    (p.offer company handler ring a stop).progress

theorem read_eq (ring : Ring g ε) (offers : List (Offer ε φ)) :
    (onPart Prod.fst (fun ring t => (ring, t.2)) (Ring.onSequencer get) :
      Action (Ring g ε × List (Offer ε φ)) (Sequencer g)) (ring, offers) =
      .ok ring.sequencer (ring, offers) := rfl

/-- A poll that finds nothing does nothing. -/
theorem pollAmong_of_empty {result : PollResult φ} (looked : p.look ring.sequencer = .ok (.inl result)) :
    p.pollAmong company handler (ring, []) = .ok result (ring, []) := by
  have told : (liftM (p.look ring.sequencer) : Action (Ring g ε × List (Offer ε φ))
      (PollResult φ ⊕ Polling)) (ring, []) = .ok (.inl result) (ring, []) := by
    rw [lift_apply, looked]
  dsimp only [pollAmong, pollWithin]
  rw [bind_of_ok (read_eq ring []), bind_of_ok told]
  rfl

/-- A poll that finds something stores what it has come to. -/
theorem pollAmong_of_found {polling after : Polling} {result : PollResult φ} {ring' : Ring g ε}
    {offers : List (Offer ε φ)}
    (looked : p.look ring.sequencer = .ok (.inr polling : PollResult φ ⊕ Polling))
    (drained : polling.drain (hand company handler)
      (Sequencer.runLength polling.next polling.available) (ring, []) =
        .ok (after, result) (ring', offers)) :
    p.pollAmong company handler (ring, []) =
      .ok result (ring'.moved p.counter after.accepted, offers) := by
  have told : (liftM (p.look ring.sequencer) : Action (Ring g ε × List (Offer ε φ))
      (PollResult φ ⊕ Polling)) (ring, []) = .ok (.inr polling) (ring, []) := by
    rw [lift_apply, looked]
  dsimp only [pollAmong, pollWithin]
  rw [bind_of_ok (read_eq ring []), bind_of_ok told]
  dsimp only
  rw [bind_of_ok drained]
  rfl

/-- Left alone, the loop hands over what it would without a record of it. -/
theorem drain_alone {count : Nat} {polling : Polling} {found : Polling × PollResult φ}
    {offers more : List (Offer ε φ)} {after : Ring g ε}
    (drained : polling.drain (hand {} handler) count (ring, offers) = .ok found (after, more)) :
    polling.drain (m := Action (Ring g ε))
      (fun t last => do return handler ((← get).event t) t last) count ring = .ok found after := by
  induction count generalizing polling offers with
  | zero =>
      cases drained
      rfl
  | succ count ih =>
      have called : hand {} handler polling.next (polling.next = polling.available) (ring, offers) =
          .ok (handler (ring.event polling.next) polling.next (polling.next = polling.available))
            (ring, offers ++ [⟨ring.event polling.next, polling.next, polling.next = polling.available,
              handler (ring.event polling.next) polling.next (polling.next = polling.available)⟩]) := rfl
      unfold Polling.drain at drained ⊢
      rw [bind_of_ok called] at drained
      obtain ⟨⟨next, outcome⟩, state, heard, rest⟩ := bind_eq_ok drained
      obtain ⟨told, rfl⟩ := lift_eq_ok heard
      show (liftM (polling.hear _) >>= fun _ => _ : Action (Ring g ε) _) ring = _
      rw [bind_apply, lift_apply, told]
      cases outcome with
      | some result =>
          cases rest
          rfl
      | none => exact ih rest

/-- Left alone, a poll does what it does without a record of it. -/
theorem poll_of_pollAmong {result : PollResult φ} {offers : List (Offer ε φ)} {after : Ring g ε}
    (polled : p.pollAmong {} handler (ring, []) = .ok result (after, offers)) :
    p.poll handler ring = .ok result after := by
  dsimp only [pollAmong, pollWithin] at polled
  dsimp only [poll, pollWithin]
  rw [bind_of_ok (read_eq ring [])] at polled
  obtain ⟨found, state, told, rest⟩ := bind_eq_ok polled
  obtain ⟨looked, rfl⟩ := lift_eq_ok told
  have read : (Ring.onSequencer get : Action (Ring g ε) (Sequencer g)) ring = .ok ring.sequencer ring := rfl
  rw [bind_of_ok read, bind_apply, lift_apply, looked]
  cases found with
  | inl result =>
      cases rest
      rfl
  | inr polling =>
      obtain ⟨⟨ended, result⟩, state, drained, rest⟩ := bind_eq_ok rest
      cases rest
      dsimp only
      rw [bind_of_ok (drain_alone drained)]
      rfl

/-- What a poll finds is no further than what is in front of it, or than where it stands. -/
theorem exists_found (low : -1 ≤ ring.counter p.counter) (high : ring.counter p.counter < Word.greatest)
    (inside : p.Inside ring) :
    ∃ a, ring.sequencer.highestPublished (p.due ring) (p.inFront ring) = .ok a ∧ a < Word.greatest := by
  have stands : Word.Fits (p.due ring - 1) := by
    unfold due
    exact Processor.fits_of_nonneg (by omega) (by omega)
  obtain ⟨a, scanned⟩ := Sequencer.exists_highestPublished (s := ring.sequencer) stands
    ⟨inside.1, Int.le_of_lt inside.2⟩
  refine ⟨a, scanned, ?_⟩
  have := inside.2
  cases ledger : ring.sequencer.ledger with
  | solo c =>
      rw [Sequencer.highestPublished_solo ledger] at scanned
      cases scanned
      exact inside.2
  | shared laps =>
      have bound := (Sequencer.highestPublished_shared ledger scanned).1
      unfold due at bound
      omega

/-- A poll goes through every event that it found, up to the first one that ends it. -/
theorem pollAmong_eq (made : ring.Made p.counter) (low : -1 ≤ ring.counter p.counter)
    (high : ring.counter p.counter < Word.greatest) (inside : p.Inside ring)
    (spares : company.Spares p.counter) (handler : ε → Int → Bool → Reply φ) :
    ∃ a, ring.sequencer.highestPublished (p.due ring) (p.inFront ring) = .ok a ∧
      a < Word.greatest ∧
      if a < p.due ring then
        p.pollAmong company handler (ring, []) =
          .ok (if p.due ring ≤ ring.sequencer.cursor then .gating else .idle) (ring, [])
      else ∃ stop, p.Stops company handler ring a stop := by
  obtain ⟨a, scanned, below⟩ := exists_found low high inside
  refine ⟨a, scanned, below, ?_⟩
  have looked : Poller.look p ring.sequencer =
      .ok (if a < p.due ring then
        .inl (if p.due ring ≤ ring.sequencer.cursor then .gating else .idle : PollResult φ)
      else .inr ⟨ring.counter p.counter, p.due ring, a⟩) := by
    have room : Word.Fits (ring.counter p.counter + 1) := Processor.fits_of_nonneg (by omega) (by omega)
    unfold look
    rw [except_checked_of_fits room]
    show (ring.sequencer.highestPublished (p.due ring) (p.inFront ring) >>= fun available => _) = _
    rw [scanned]
    by_cases none : a < p.due ring
    · rw [if_pos none]
      exact if_pos none
    · rw [if_neg none]
      exact if_neg none
  by_cases none : a < p.due ring
  · rw [if_pos none] at looked ⊢
    exact pollAmong_of_empty looked
  · rw [if_neg none] at looked ⊢
    have next : p.due ring = ring.counter p.counter + 1 := rfl
    have begins : reached company handler ring (p.due ring) a (ring.counter p.counter) = (ring, []) := by
      have nothing : sequences (p.due ring) (ring.counter p.counter) = [] := sequences_of_lt (by omega)
      unfold reached Company.offers
      rw [nothing]
      rfl
    have any : p.due ring ≤ a := Int.not_lt.mp none
    have whole : ring.counter p.counter + Sequencer.runLength (p.due ring) a = a := by
      unfold Sequencer.runLength
      omega
    obtain ⟨stop, past, above, inside, kept, ended, drained⟩ := drain_eq company handler ring
      (Sequencer.runLength (p.due ring) a) (Int.le_of_eq next) whole any (by omega) below
      (fun t above inside => absurd inside (Int.not_le.mpr above))
    rw [begins] at drained
    exact ⟨stop, above, inside, kept, ended, pollAmong_of_found looked drained,
      Counters.value_set_self _ ((spares.after ring _).made made) _⟩

/-- What a poll accepts are the events up to where it puts its counter. -/
theorem Stops.accepted_eq {stop : Int} (stops : p.Stops company handler ring a stop) :
    Offer.accepted ((sequences (p.due ring) stop).map (p.offer company handler ring a)) =
      sequences (p.due ring) (p.offer company handler ring a stop).progress := by
  have earlier : ((sequences (p.due ring) (stop - 1)).map (p.offer company handler ring a)).filter
      Offer.isTaken = (sequences (p.due ring) (stop - 1)).map (p.offer company handler ring a) := by
    refine List.filter_eq_self.mpr fun o listed => ?_
    obtain ⟨t, inside, rfl⟩ := List.mem_map.mp listed
    obtain ⟨above, below⟩ := mem_sequences.mp inside
    unfold Offer.isTaken
    rw [stops.kept t above (by omega)]
  have same (ts : List Int) : (ts.map (p.offer company handler ring a)).map Offer.sequence = ts := by
    rw [List.map_map]
    exact List.map_id ts
  unfold Offer.accepted Offer.progress
  rw [sequences_concat stops.due_le, List.map_append, List.filter_append, earlier, List.map_append, same]
  by_cases taken : (p.offer company handler ring a stop).isTaken = true
  · rw [if_pos taken]
    show _ ++ (List.filter Offer.isTaken [_]).map _ = sequences (p.due ring) stop
    rw [List.filter_cons_of_pos taken, sequences_concat stops.due_le]
    rfl
  · rw [if_neg taken]
    show _ ++ (List.filter Offer.isTaken [_]).map _ = sequences (p.due ring) (stop - 1)
    rw [List.filter_cons_of_neg taken]
    exact List.append_nil _

/-- A poll puts its counter no further than it found, and never back. -/
theorem Stops.progress_bounds {stop : Int} (stops : p.Stops company handler ring a stop) :
    p.due ring - 1 ≤ (p.offer company handler ring a stop).progress ∧
      (p.offer company handler ring a stop).progress ≤ a := by
  have above := stops.due_le
  have inside := stops.stop_le
  have same : (p.offer company handler ring a stop).sequence = stop := rfl
  unfold Offer.progress
  rw [same]
  by_cases taken : (p.offer company handler ring a stop).isTaken = true
  · rw [if_pos taken]
    omega
  · rw [if_neg taken]
    omega

end Poller

/-! ## One poll after another -/

/-- A ring that a poller comes back to, with what was accepted so far. -/
structure Course (g : Geometry) (ε : Type) where
  ring : Ring g ε
  accepted : List Int := []

/-- What happens to a ring next. -/
inductive Visit (g : Geometry) (ε φ : Type) where
  | poll (company : Company g ε) (handler : ε → Int → Bool → Reply φ)
  /-- Others turn the ring into another. -/
  | others (ring : Ring g ε)

namespace Poller

variable {p : Poller} {c d : Course g ε} {act : Visit g ε φ} {start : Int}

/-- One poll, or something that others do. -/
def visit (p : Poller) (c : Course g ε) : Visit g ε φ → Option (Course g ε)
  | .poll company handler =>
    match p.pollAmong company handler (c.ring, []) with
    | .ok _ (ring, offers) => some ⟨ring, c.accepted ++ Offer.accepted offers⟩
    | .error .. => none
  | .others ring => some { c with ring := ring }

/-- Others leave the counter of the poller alone, and polls meet no sequence beyond the range. -/
def Meets (p : Poller) (c : Course g ε) : Visit g ε φ → Prop
  | .poll company _ => company.Spares p.counter ∧ p.Inside c.ring
  | .others ring => Ring.Spares p.counter c.ring ring

/-- Everything up to the poller's counter was accepted, and nothing else. -/
structure Even (p : Poller) (start : Int) (c : Course g ε) : Prop where
  made : c.ring.Made p.counter
  start_le : start ≤ c.ring.counter p.counter
  high : c.ring.counter p.counter < Word.greatest
  accepted : c.accepted = sequences (start + 1) (c.ring.counter p.counter)

/-- A poll that finds something appends what it accepts. -/
theorem visit_of_stops {company : Company g ε} {handler : ε → Int → Bool → Reply φ} {a stop : Int}
    (stops : p.Stops company handler c.ring a stop) :
    p.visit c (.poll company handler) = some ⟨p.ringAfter company handler c.ring a stop,
      c.accepted ++ sequences (p.due c.ring) (p.offer company handler c.ring a stop).progress⟩ := by
  rw [visit, stops.polled, ← stops.accepted_eq]

theorem even_of_visit (low : -1 ≤ start) (even : p.Even start c) (meets : p.Meets c act)
    (visited : p.visit c act = some d) : p.Even start d := by
  have := even.start_le
  cases act with
  | others ring =>
      cases visited
      refine ⟨meets.made even.made, ?_, ?_, ?_⟩
      all_goals rw [meets.counter]
      · exact even.start_le
      · exact even.high
      · exact even.accepted
  | poll company handler =>
      obtain ⟨a, -, below, polled⟩ :=
        pollAmong_eq even.made (by omega) even.high meets.2 meets.1 handler
      by_cases none : a < p.due c.ring
      · rw [if_pos none] at polled
        rw [visit, polled] at visited
        cases visited
        exact ⟨even.made, even.start_le, even.high, (List.append_nil _).trans even.accepted⟩
      · rw [if_neg none] at polled
        obtain ⟨stop, stops⟩ := polled
        rw [visit_of_stops stops] at visited
        cases visited
        have bounds := stops.progress_bounds
        have next : p.due c.ring = c.ring.counter p.counter + 1 := rfl
        have made := (meets.1.after c.ring (sequences (p.due c.ring) stop)).made even.made
        refine ⟨Ring.made_moved.mpr made, ?_, ?_, ?_⟩
        all_goals rw [stops.progress]
        · omega
        · omega
        · show c.accepted ++ _ = _
          rw [even.accepted]
          exact sequences_append (by omega) (by omega)

/-- Over any polls and whatever happens in between, what was accepted is everything from where the poller
began to where it stands, and every poll offers what is published behind that. -/
theorem polls_hand_over_the_published_run {ring : Ring g ε} (made : ring.Made p.counter)
    (low : -1 ≤ ring.counter p.counter) (high : ring.counter p.counter < Word.greatest)
    (reached : Reaches (p.visit (φ := φ)) p.Meets ⟨ring, []⟩ c) :
    c.accepted = sequences (ring.counter p.counter + 1) (c.ring.counter p.counter) ∧
      ∀ (company : Company g ε) (handler : ε → Int → Bool → Reply φ),
        company.Spares p.counter → p.Inside c.ring →
        ∃ a, c.ring.sequencer.highestPublished (p.due c.ring) (p.inFront c.ring) = .ok a ∧
          if a < p.due c.ring then
            p.pollAmong company handler (c.ring, []) =
              .ok (if p.due c.ring ≤ c.ring.sequencer.cursor then .gating else .idle) (c.ring, [])
          else ∃ stop, p.Stops company handler c.ring a stop := by
  have even : p.Even (ring.counter p.counter) c := by
    refine reached.invariant ?_ fun even meets visited => even_of_visit low even meets visited
    exact ⟨made, Int.le_refl _, high, (sequences_of_lt (Int.lt_add_one_iff.mpr (Int.le_refl _))).symm⟩
  refine ⟨even.accepted, fun company handler spares inside => ?_⟩
  obtain ⟨a, scanned, -, polled⟩ := pollAmong_eq even.made (Int.le_trans low even.start_le) even.high inside
    spares handler
  exact ⟨a, scanned, polled⟩

/-- A handler that takes everything. -/
def takesAll : Nat → Int → Bool → Reply String := fun _ _ _ => .keepGoing

/-- A handler that fails at one event. -/
def failsAt (t : Int) : Nat → Int → Bool → Reply String :=
  fun _ sequence _ => if sequence = t then .failed "odd" else .keepGoing

/-- A poller behind the cursor. -/
def atCursor : Poller := ⟨[], 0⟩

/-- A poller whose handler failed at 1 has accepted 0 only, and finds 1 again. -/
theorem polls_hand_over_the_published_run_failed_at_one :
    ∃ (ring : Ring ⟨2, by decide⟩ Nat) (c : Course ⟨2, by decide⟩ Nat),
      ring.Made 0 ∧ ring.counter 0 = -1 ∧
        Reaches (atCursor.visit (φ := String)) atCursor.Meets ⟨ring, []⟩ c ∧ c.accepted = [0] ∧
        atCursor.due c.ring = 1 ∧ ∃ stop, atCursor.Stops {} takesAll c.ring 1 stop := by
  obtain ⟨begun, claimed, shown, after, -, claims, shows, there, fresh, ⟨first, front, whole⟩, same, next,
      still, rest⟩ :
      ∃ (begun claimed shown : Production ⟨2, by decide⟩ Nat) (after : Ring ⟨2, by decide⟩ Nat),
        [.enlist, .make (-1)].foldlM Production.step (Production.fresh _ .many false fun _ => 0) =
            some begun ∧
          begun.step (.tryClaim 0 2) = some claimed ∧ claimed.step (.publish 0) = some shown ∧
          begun.Made 0 ∧ begun.ring.counter 0 = -1 ∧
          (atCursor.due shown.ring = 0 ∧ atCursor.inFront shown.ring = 1 ∧
            shown.sequencer.highestPublished 0 1 = .ok 1) ∧
          atCursor.ringAfter {} (failsAt 1) shown.ring 1 1 = after ∧
          atCursor.due after = 1 ∧ atCursor.inFront after = 1 ∧
          after.sequencer.highestPublished 1 1 = .ok 1 :=
    ⟨_, _, _, _, rfl, rfl, rfl, by decide, rfl, ⟨rfl, rfl, rfl⟩, rfl, rfl, rfl, rfl⟩
  have apart : Company.Spares 0 ({} : Company ⟨2, by decide⟩ Nat) :=
    ⟨fun _ ring => Ring.Spares.refl 0 ring, fun _ ring => Ring.Spares.refl 0 ring⟩
  have claimMeets : atCursor.Meets ⟨begun.ring, []⟩ (.others claimed.ring : Visit _ _ String) :=
    Ring.spares_of_step claims there trivial
  have made : claimed.Made 0 := Ring.Spares.made claimMeets there
  have showMeets : atCursor.Meets ⟨claimed.ring, []⟩ (.others shown.ring : Visit _ _ String) :=
    Ring.spares_of_step shows made trivial
  have published : Reaches (atCursor.visit (φ := String)) atCursor.Meets ⟨begun.ring, []⟩ ⟨shown.ring, []⟩ :=
    Reaches.step (Reaches.step Reaches.start claimMeets rfl) showMeets rfl
  have low : -1 ≤ begun.ring.counter 0 := Int.le_of_eq fresh.symm
  have high : begun.ring.counter 0 < Word.greatest := by
    rw [fresh]
    decide
  -- the first poll ends at 1, where the handler fails
  have inside : atCursor.Inside shown.ring := by
    rw [Inside, front]
    decide
  obtain ⟨-, polls⟩ := polls_hand_over_the_published_run there low high published
  obtain ⟨a, scanned, polled⟩ := polls {} (failsAt 1) apart inside
  simp only [first, front, whole, Except.ok.injEq] at scanned
  subst scanned
  have finds : ¬ 1 < atCursor.due shown.ring := by omega
  rw [if_neg finds] at polled
  obtain ⟨stop, stops⟩ := polled
  obtain rfl : stop = 1 := by
    have above : atCursor.due shown.ring ≤ stop := stops.due_le
    have below := stops.stop_le
    by_cases zero : stop = 0
    · subst zero
      exact absurd rfl (stops.ended (by decide))
    · omega
  have failed : atCursor.Meets ⟨shown.ring, []⟩ (.poll {} (failsAt 1)) := ⟨apart, inside⟩
  have reached : Reaches (atCursor.visit (φ := String)) atCursor.Meets ⟨begun.ring, []⟩ ⟨after, [0]⟩ := by
    refine Reaches.step published failed ?_
    rw [visit_of_stops stops, first, same]
    rfl
  obtain ⟨-, again⟩ := polls_hand_over_the_published_run there low high reached
  have insideToo : atCursor.Inside after := by
    rw [Inside, still]
    decide
  obtain ⟨a, scanned, polled⟩ := again {} takesAll apart insideToo
  simp only [next, still, rest, Except.ok.injEq] at scanned
  subst scanned
  have finds : ¬ 1 < atCursor.due after := by omega
  rw [if_neg finds] at polled
  exact ⟨begun.ring, _, there, fresh, reached, rfl, next, polled⟩

end Poller

end EventRing
