import EventRing.Proofs.Resuming
import EventRing.Proofs.Storing
/-!
# EventRing.Proofs.Counterparts

A processor on a thread beside one in a task.  Both hand over single events; the one compares its
progress before it moves it, the other leaves more records.  Neither of that is anybody else's affair
(`Request.isPrivate`), so what the others notice, and answer, is a `Session.Story`: the halts, the calls to
run, and the requests that somebody takes part in, each with its answer.

Behind the same story two such processors stand alike (`Session.Alike`): they have the same control and
the same progress, and each gets by itself to the phase that the other gets to (`Phase.outward`).  From
there both ask the same thing, so a story that one of them goes through is a story of the other one.
-/

namespace EventRing

open EventRing.Action
open Processor (Plan Request Phase Kind)

namespace Processor

variable {g : Geometry} {plan other : Plan g} {phase : Phase} {request : Request}
variable {resume : request.Answer → Phase} {p position next last : Int} {l : Log}

/-! ## What a processor does by itself -/

/-- A request in which nobody outside of the processor takes part. -/
def Request.isPrivate : Request → Bool
  | .position | .note _ => true
  | _ => false

/-- Where a processor with a progress gets to by itself. -/
def Phase.outward (position : Int) : Phase → Phase
  | .positioning => .orFault do return .awaiting (← Word.checked (position + 1))
  | .timing next => .timedOut next position
  | .noting next last => .timedOut next last
  | .warning next failure => .stopping next failure
  | .verifying next last =>
    if last < position then .faulted (.backwards position last) else .releasing next last
  | phase => phase

theorem Phase.outward_of_shared (turn : plan.turn phase = .ask request resume)
    (shared : request.isPrivate = false) : phase.outward position = phase := by
  cases phase with
  | positioning | timing | noting | warning | verifying =>
      cases turn
      cases shared
  | _ => rfl

/-- A processor with nothing to ask stays where it is. -/
theorem Phase.outward_of_idle (idle : ∀ request resume, plan.turn phase ≠ .ask request resume) :
    phase.outward position = phase := by
  cases phase with
  | positioning | timing | noting | warning | verifying => exact absurd rfl (idle _ _)
  | _ => rfl

theorem Phase.outward_onwards (n : Int) :
    (Phase.orFault do return .awaiting (← Word.checked n)).outward position =
      Phase.orFault do return .awaiting (← Word.checked n) := by
  refine orFault_checked (P := fun phase => phase.outward position = phase) rfl rfl

/-- Nothing that a processor does by itself ends its run. -/
theorem Phase.complete_of_outward {error : Option RingError}
    (ended : phase.outward position = .complete error) : phase = .complete error := by
  cases phase with
  | positioning =>
      refine absurd ended ?_
      exact orFault_checked (P := fun phase => phase ≠ .complete error) nofun nofun
  | verifying next last =>
      change (if last < position then Phase.faulted _ else .releasing next last) = _ at ended
      split at ended <;> cases ended
  | timing | noting | warning => cases ended
  | _ => exact ended

/-- What a processor asks for itself does not change where it gets to. -/
theorem Phase.outward_of_private (turn : plan.turn phase = .ask request resume)
    (hidden : request.isPrivate) (answer : request.Answer)
    (sincere : request.Sincere position answer) :
    (resume answer).outward position = phase.outward position := by
  cases phase with
  | positioning =>
      cases turn
      obtain rfl : position = answer := Eq.symm sincere
      exact outward_onwards (position + 1)
  | timing next =>
      cases turn
      obtain rfl : position = answer := Eq.symm sincere
      cases plan.kind <;> rfl
  | verifying next last =>
      cases turn
      obtain rfl : position = answer := Eq.symm sincere
      show Phase.outward position (if last < position then _ else _) = ite _ _ _
      split <;> rfl
  | noting | warning =>
      cases turn
      rfl
  | opening | handing | stopping =>
      simp only [Plan.turn] at turn
      split at turn <;> cases turn
      cases hidden
  | complete | faulted => cases turn
  | _ =>
      cases turn
      cases hidden

/-! ## Two plans -/

/-- Both plans hand over single events, as many of them after one wait. -/
structure Plan.Kin (plan other : Plan g) : Prop where
  single : plan.kind ≠ .batch
  too : other.kind ≠ .batch
  limit : plan.limit = other.limit

theorem Plan.Kin.symm (kin : plan.Kin other) : other.Kin plan := ⟨kin.too, kin.single, kin.limit.symm⟩

theorem Phase.admitted_eq (kin : plan.Kin other) (next available : Int) :
    Phase.admitted plan next available = Phase.admitted other next available := by
  obtain ⟨single, too, limit⟩ := kin
  unfold Phase.admitted
  rw [limit]
  cases one : plan.kind <;> cases two : other.kind <;> first | rfl | contradiction

/-- A processor whose progress is not beyond what it has handed over goes on after an event like any
other. -/
theorem Phase.outward_advanced (kin : plan.Kin other) (done : Int) (inside : position ≤ last) :
    (Phase.advanced plan done last).outward position =
      (Phase.advanced other done last).outward position := by
  obtain ⟨single, too, -⟩ := kin
  by_cases fits : Word.Fits (done + 1)
  · unfold Phase.advanced
    rw [except_checked_of_fits fits, except_checked_of_fits fits]
    by_cases more : done + 1 ≤ last
    · rw [if_pos more, if_pos more]
      cases one : plan.kind <;> cases two : other.kind <;> first | rfl | contradiction
    · rw [if_neg more, if_neg more]
      have same : Phase.outward position (.verifying (done + 1) last) = .releasing (done + 1) last :=
        if_neg (Int.not_lt.mpr inside)
      cases plan.kind <;> cases other.kind <;> first | rfl | exact same | exact same.symm
  · unfold Phase.advanced
    rw [Word.checked_of_overflow fits]
    rfl

/-- In the same phase two such processors ask the same thing, and get to the same phase with the same
answer. -/
theorem Phase.turn_alike (kin : plan.Kin other) (stands : phase.Stands p l position)
    (turn : plan.turn phase = .ask request resume) (shared : request.isPrivate = false) :
    ∃ onwards, other.turn phase = .ask request onwards ∧ ∀ answer,
      (resume answer).outward (request.positionAfter position) =
        (onwards answer).outward (request.positionAfter position) := by
  cases phase with
  | positioning | timing | noting | warning | verifying =>
      cases turn
      cases shared
  | awaiting next =>
      cases turn
      refine ⟨_, rfl, fun answer => ?_⟩
      cases answer with
      | available available =>
          exact congrArg (Phase.outward position) (admitted_eq kin next available)
      | timeout | cancelled => rfl
  | delivering next last =>
      cases turn
      obtain ⟨-, -, behind, above, -⟩ := stands
      have inside : position ≤ last := by omega
      refine ⟨_, rfl, fun answer => ?_⟩
      cases answer with
      | none => exact outward_advanced kin next inside
      | some failure => rfl
  | eventFailed next last failure =>
      cases turn
      refine ⟨_, rfl, fun answer => ?_⟩
      cases answer with
      | none => rfl
      | some fatal => cases plan.kind <;> cases other.kind <;> rfl
  | handing next last =>
      obtain ⟨-, -, behind, above, -⟩ := stands
      have inside : position ≤ last := by omega
      simp only [Plan.turn] at turn ⊢
      split at turn <;> cases turn
      refine ⟨_, rfl, fun answer => ?_⟩
      cases answer with
      | none => exact outward_advanced kin _ inside
      | some failure => rfl
  | batchFailed first cut last failure =>
      cases turn
      obtain ⟨-, behind, above, below, -⟩ := stands
      have inside : position ≤ last := by omega
      refine ⟨_, rfl, fun answer => ?_⟩
      cases answer with
      | none => exact outward_advanced kin cut inside
      | some fatal => rfl
  | opening next last available =>
      refine ⟨resume, turn, fun answer => rfl⟩
  | stopping next failure =>
      refine ⟨resume, turn, fun answer => rfl⟩
  | complete | faulted => cases turn
  | _ =>
      cases turn
      exact ⟨_, rfl, fun answer => rfl⟩

end Processor

/-! ## Stories -/

/-- What others notice of a processor. -/
inductive Happening where
  /-- It was called to run. -/
  | called
  /-- It was halted. -/
  | halted
  | exchanged (x : Exchange)

/-- No wait found the end of the 64-bit range. -/
def Happening.isBounded : Happening → Bool
  | .exchanged x => x.isBounded
  | .called | .halted => true

namespace Session

variable {g : Geometry} {s t u : Session g} {p : Int} {kind other : Kind} {most : Option Nat}
variable {story : List Happening} {h : Happening}

/-- A step that others notice. -/
inductive Does (s : Session g) : Happening → Session g → Prop where
  | called {t : Session g} (made : s.call = some t) : Does s .called t
  | halted : Does s .halted s.halt
  | exchanged {x : Exchange} {resume : x.request.Answer → Phase} {around : Outside}
      (turn : s.plan.turn s.phase = .ask x.request resume) (shared : x.request.isPrivate = false)
      (answer : s.answer around x.request = x.answer) :
      Does s (.exchanged x) (s.answered around x.request resume)

/-- What others notice of a processor on its way from one session to another, the latest first. -/
inductive Story (s : Session g) : List Happening → Session g → Prop where
  | start : Story s [] s
  | byItself {story : List Happening} {t : Session g} {request : Request}
      {resume : request.Answer → Phase} (before : Story s story t)
      (turn : t.plan.turn t.phase = .ask request resume) (hidden : request.isPrivate)
      (around : Outside) : Story s story (t.answered around request resume)
  | happened {story : List Happening} {h : Happening} {t u : Session g} (before : Story s story t)
      (does : t.Does h u) : Story s (h :: story) u

theorem change_of_does (does : s.Does h t) : Change s t := by
  cases does with
  | called made =>
      obtain ⟨idle, rfl⟩ := called_of_call made
      exact Change.called idle
  | halted => exact Change.halted
  | exchanged turn => exact Change.turned turn _

/-- What holds at the beginning, and whatever a processor does, holds in the end of a story. -/
theorem Story.invariant {motive : Session g → Prop} (told : Story s story t) (initially : motive s)
    (preserved : ∀ {t u}, motive t → Change t u → motive u) : motive t := by
  induction told with
  | start => exact initially
  | byItself _ turn _ around ih => exact preserved ih (Change.turned turn around)
  | happened _ does ih => exact preserved ih (change_of_does does)

theorem Story.plan_eq (told : Story s story t) : t.plan = s.plan :=
  told.invariant (motive := fun t => t.plan = s.plan) rfl fun same change =>
    (plan_of_change change).trans same

theorem bounded_of_does (does : s.Does h t) (inside : h.isBounded) (bounded : s.Bounded) :
    t.Bounded := by
  cases does with
  | called made =>
      obtain ⟨-, rfl⟩ := called_of_call made
      exact bounded
  | halted => exact bounded
  | @exchanged x _ _ _ _ answer =>
      intro y member
      rcases List.mem_cons.mp member with rfl | older
      · rw [answer]
        exact inside
      · exact bounded y older

theorem isBounded_of_private {request : Request} (hidden : request.isPrivate)
    (answer : request.Answer) : Exchange.isBounded ⟨request, answer⟩ := by
  cases request <;> first | rfl | cases hidden

theorem Story.bounded (told : Story s story t) (inside : ∀ h ∈ story, h.isBounded)
    (bounded : s.Bounded) : t.Bounded := by
  induction told with
  | start => exact bounded
  | byItself _ _ hidden around ih =>
      intro x member
      rcases List.mem_cons.mp member with rfl | older
      · exact isBounded_of_private hidden _
      · exact ih inside x older
  | happened _ does ih =>
      exact bounded_of_does does (inside _ List.mem_cons_self)
        (ih fun h member => inside h (List.mem_cons_of_mem _ member))

/-- A processor stays in order along a story in which no wait finds the end of the range. -/
theorem Story.kept (start : -1 ≤ p) (told : Story (fresh g kind most p) story s)
    (inside : ∀ h ∈ story, h.isBounded) : s.Kept p := by
  have all := told.invariant (motive := fun s => s.Bounded → s.Kept p) ?_ ?_
  · exact all (told.bounded inside fun x none => (nomatch none))
  · intro _
    exact ⟨Processor.limitOf_pos most, InOrder.nil, fun _ none => (nomatch none), rfl⟩
  · intro s t kept change bounded
    exact kept_of_change start (kept (bounded_of_change change bounded)) bounded change

/-! ## Sessions that stand alike -/

/-- Two sessions that others cannot tell apart. -/
structure Alike (s t : Session g) : Prop where
  control : s.control = t.control
  position : s.position = t.position
  phase : s.phase.outward s.position = t.phase.outward t.position

theorem Alike.refl (s : Session g) : s.Alike s := ⟨rfl, rfl, rfl⟩

theorem Alike.symm (alike : s.Alike t) : t.Alike s :=
  ⟨alike.control.symm, alike.position.symm, alike.phase.symm⟩

theorem Alike.trans (first : s.Alike t) (second : t.Alike u) : s.Alike u :=
  ⟨first.control.trans second.control, first.position.trans second.position,
    first.phase.trans second.phase⟩

theorem alike_of_private {request : Request} {resume : request.Answer → Phase}
    (turn : s.plan.turn s.phase = .ask request resume) (hidden : request.isPrivate)
    (around : Outside) : (s.answered around request resume).Alike s := by
  cases request with
  | position => exact ⟨rfl, rfl, Phase.outward_of_private turn rfl _ rfl⟩
  | note => exact ⟨rfl, rfl, Phase.outward_of_private turn rfl () trivial⟩
  | _ => cases hidden

/-- A processor with the same control and the same progress answers its own requests alike. -/
theorem Alike.answer_eq (alike : s.Alike t) (around : Outside) (request : Request) :
    s.answer around request = t.answer around request := by
  cases request with
  | begin | isActive =>
      unfold answer
      rw [alike.control]
  | position => exact alike.position
  | _ => rfl

/-- What has happened last in a story came about by a step from where the story stood before. -/
theorem Story.last (told : Story s (h :: story) u) :
    ∃ t v, Story s story t ∧ t.Does h v ∧ v.Alike u := by
  generalize whole : h :: story = all at told
  induction told with
  | start => cases whole
  | byItself _ turn hidden around ih =>
      obtain ⟨t, v, before, does, alike⟩ := ih whole
      exact ⟨t, v, before, does, alike.trans (alike_of_private turn hidden around).symm⟩
  | @happened story h t u before does ih =>
      cases whole
      exact ⟨t, u, before, does, Alike.refl u⟩

/-- A processor comes by itself to the phase that it gets to. -/
theorem Story.outward (told : Story s story t) :
    ∃ u, Story s story u ∧ u.Alike t ∧ u.phase = t.phase.outward t.position := by
  have on {t : Session g} {request : Request} {resume : request.Answer → Phase}
      (told : Story s story t) (turn : t.plan.turn t.phase = .ask request resume)
      (hidden : request.isPrivate) :
      ∃ u, Story s story u ∧ u.Alike t ∧ u.plan = t.plan ∧
        u.phase = resume (t.answer {} request) :=
    ⟨_, told.byItself turn hidden {}, alike_of_private turn hidden {}, rfl, rfl⟩
  cases phase : t.phase with
  | positioning =>
      obtain ⟨u, onwards, alike, -, there⟩ := on told (by rw [phase]; rfl) rfl
      exact ⟨u, onwards, alike, there⟩
  | timing next =>
      obtain ⟨u, onwards, alike, plan, there⟩ := on told (by rw [phase]; rfl) rfl
      -- a task leaves a record before it calls the hook
      cases kind : t.plan.kind with
      | event | batch =>
          simp only [kind] at there
          exact ⟨u, onwards, alike, there⟩
      | task =>
          simp only [kind] at there
          obtain ⟨v, further, again, -, arrived⟩ := on onwards (by rw [there]; rfl) rfl
          exact ⟨v, further, again.trans alike, arrived⟩
  | noting next last =>
      obtain ⟨u, onwards, alike, -, there⟩ := on told (by rw [phase]; rfl) rfl
      exact ⟨u, onwards, alike, there⟩
  | warning next failure =>
      obtain ⟨u, onwards, alike, -, there⟩ := on told (by rw [phase]; rfl) rfl
      exact ⟨u, onwards, alike, there⟩
  | verifying next last =>
      obtain ⟨u, onwards, alike, -, there⟩ := on told (by rw [phase]; rfl) rfl
      exact ⟨u, onwards, alike, there⟩
  | _ => exact ⟨t, told, Alike.refl t, phase⟩

/-! ### One step of each -/

/-- A processor that can be called to run is at rest. -/
theorem Kept.idle_cases (kept : s.Kept p) (start : -1 ≤ p)
    (idle : ∀ request resume, s.plan.turn s.phase ≠ .ask request resume) :
    (∃ error, s.phase = .complete error) ∨ ∃ fault, s.phase = .faulted fault :=
  Phase.idle_cases (Phase.fitting_of_stands start kept.order kept.stands) idle

/-- The same step leads alike sessions to alike ones. -/
theorem Alike.does {s' t' : Session g} (alike : s.Alike t) (kin : s.plan.Kin t.plan)
    (kept : s.Kept p) (does : s.Does h s') (too : t.Does h t') : s'.Alike t' := by
  cases does with
  | called made =>
      cases too with
      | called madeToo =>
          obtain ⟨-, rfl⟩ := called_of_call made
          obtain ⟨-, rfl⟩ := called_of_call madeToo
          exact ⟨alike.control, alike.position, rfl⟩
  | halted =>
      cases too with
      | halted => exact ⟨congrArg Control.halt alike.control, alike.position, alike.phase⟩
  | @exchanged x resume around turn shared answer =>
      cases too with
      | @exchanged _ resumeToo aroundToo turnToo sharedToo answerToo =>
          have phase : s.phase = t.phase := by
            rw [← Phase.outward_of_shared turn shared, alike.phase,
              Phase.outward_of_shared turnToo sharedToo]
          obtain ⟨onwards, asked, same⟩ := Phase.turn_alike kin kept.stands turn shared
          rw [phase, turnToo] at asked
          cases asked
          refine ⟨?_, ?_, ?_⟩
          · exact congrArg (x.request.controlAfter ·) alike.control
          · exact congrArg (x.request.positionAfter ·) alike.position
          · show (resume (s.answer around x.request)).outward (x.request.positionAfter s.position) =
              (resumeToo (t.answer aroundToo x.request)).outward (x.request.positionAfter t.position)
            rw [answer, answerToo, ← alike.position]
            exact same x.answer

/-- A session that stands alike can make the same step, once it is where it gets to by itself. -/
theorem Alike.step {s' : Session g} (alike : s.Alike t) (kin : s.plan.Kin t.plan) (start : -1 ≤ p)
    (kept : s.Kept p) (there : t.phase = t.phase.outward t.position) (does : s.Does h s') :
    ∃ t', t.Does h t' := by
  cases does with
  | called made =>
      obtain ⟨idle, rfl⟩ := called_of_call made
      have phase : t.phase = s.phase := by
        rw [there, ← alike.phase, Phase.outward_of_idle idle]
      refine ⟨{ t with phase := .beginning }, Does.called ?_⟩
      unfold call
      rcases kept.idle_cases start idle with ⟨error, ended⟩ | ⟨fault, broken⟩
      · rw [phase, ended]
        rfl
      · rw [phase, broken]
        rfl
  | halted => exact ⟨_, Does.halted⟩
  | @exchanged x resume around turn shared answer =>
      have phase : t.phase = s.phase := by
        rw [there, ← alike.phase, Phase.outward_of_shared turn shared]
      obtain ⟨onwards, asked, -⟩ := Phase.turn_alike kin kept.stands turn shared
      rw [← phase] at asked
      exact ⟨_, Does.exchanged asked shared ((alike.answer_eq around x.request).symm.trans answer)⟩

/-! ### Whole stories -/

theorem Story.alike_of_nil (told : Story s [] t) : t.Alike s := by
  generalize none : ([] : List Happening) = story at told
  induction told with
  | start => exact Alike.refl s
  | byItself _ turn hidden around ih => exact (alike_of_private turn hidden around).trans (ih none)
  | happened => cases none

variable (kin : Plan.Kin ⟨kind, Processor.limitOf most⟩ (⟨other, Processor.limitOf most⟩ : Plan g))

include kin

/-- Behind the same story two processors that hand over single events stand alike. -/
theorem alike_of_story (start : -1 ≤ p) (told : Story (fresh g kind most p) story s)
    (too : Story (fresh g other most p) story t) (inside : ∀ h ∈ story, h.isBounded) :
    s.Alike t := by
  induction story generalizing s t with
  | nil =>
      have fresh : (fresh g kind most p).Alike (fresh g other most p) := ⟨rfl, rfl, rfl⟩
      exact (told.alike_of_nil.trans fresh).trans too.alike_of_nil.symm
  | cons h story ih =>
      obtain ⟨s₁, s₂, before, does, arrived⟩ := told.last
      obtain ⟨t₁, t₂, beforeToo, doesToo, arrivedToo⟩ := too.last
      have earlier : ∀ h ∈ story, h.isBounded := fun h member =>
        inside h (List.mem_cons_of_mem _ member)
      have kin : s₁.plan.Kin t₁.plan := by
        rw [before.plan_eq, beforeToo.plan_eq]
        exact kin
      have alike := (ih before beforeToo earlier).does kin (before.kept start earlier) does doesToo
      exact (arrived.symm.trans alike).trans arrivedToo

/-- What happens to the one of them can happen to the other. -/
theorem exists_story (start : -1 ≤ p) (told : Story (fresh g kind most p) story s)
    (inside : ∀ h ∈ story, h.isBounded) : ∃ t, Story (fresh g other most p) story t := by
  induction story generalizing s with
  | nil => exact ⟨_, Story.start⟩
  | cons h story ih =>
      obtain ⟨s₁, s₂, before, does, -⟩ := told.last
      have earlier : ∀ h ∈ story, h.isBounded := fun h member =>
        inside h (List.mem_cons_of_mem _ member)
      obtain ⟨t, beforeToo⟩ := ih before earlier
      obtain ⟨t₁, onwards, same, there⟩ := beforeToo.outward
      have alike := alike_of_story kin start before onwards earlier
      have arrived : t₁.phase = t₁.phase.outward t₁.position := by
        rw [same.phase, there]
      have kin : s₁.plan.Kin t₁.plan := by
        rw [before.plan_eq, onwards.plan_eq]
        exact kin
      obtain ⟨t₂, doesToo⟩ := alike.step kin start (before.kept start earlier) arrived does
      exact ⟨t₂, onwards.happened doesToo⟩

omit kin

/-- It asks somebody for something. -/
def Asks (s : Session g) (request : Request) : Prop :=
  request.isPrivate = false ∧ ∃ resume, s.plan.turn s.phase = .ask request resume

theorem Alike.complete {error : Option RingError} (alike : s.Alike t)
    (ended : s.phase = .complete error) : t.phase = .complete error := by
  have same := alike.phase
  rw [ended] at same
  exact Phase.complete_of_outward same.symm

/-- Sessions that stand alike ask for the same thing. -/
theorem Alike.asks {request asked : Request} (alike : s.Alike t) (kin : s.plan.Kin t.plan)
    (kept : s.Kept p) (asks : s.Asks request) (too : t.Asks asked) : request = asked := by
  obtain ⟨shared, resume, turn⟩ := asks
  obtain ⟨sharedToo, resumeToo, turnToo⟩ := too
  have phase : s.phase = t.phase := by
    rw [← Phase.outward_of_shared turn shared, alike.phase,
      Phase.outward_of_shared turnToo sharedToo]
  obtain ⟨onwards, same, -⟩ := Phase.turn_alike kin kept.stands turn shared
  rw [phase, turnToo] at same
  cases same
  rfl

/-- A processor on a thread without a limit and one in a task, which begin behind the same progress: what
happens to the one can happen to the other, the calls of their hooks, the judgements of the policy and the
moves of the progress included; and once the same has happened to them, they have the same progress, their
runs ended with the same result, and they ask for the same thing next. -/
theorem threads_and_tasks_are_counterparts (start : -1 ≤ p) (inside : ∀ h ∈ story, h.isBounded) :
    ((∃ s, Story (fresh g .event none p) story s) ↔ ∃ t, Story (fresh g .task none p) story t) ∧
      ∀ s t, Story (fresh g .event none p) story s → Story (fresh g .task none p) story t →
        s.position = t.position ∧ s.control = t.control ∧
          (∀ error, s.phase = .complete error ↔ t.phase = .complete error) ∧
          ∀ request asked, s.Asks request → t.Asks asked → request = asked := by
  have kin : Plan.Kin ⟨.event, Processor.limitOf none⟩ (⟨.task, Processor.limitOf none⟩ : Plan g) :=
    ⟨nofun, nofun, rfl⟩
  refine ⟨⟨fun ⟨_, told⟩ => exists_story kin start told inside,
    fun ⟨_, told⟩ => exists_story kin.symm start told inside⟩, fun s t told too => ?_⟩
  have alike := alike_of_story kin start told too inside
  have same : s.plan.Kin t.plan := by
    rw [told.plan_eq, too.plan_eq]
    exact kin
  exact ⟨alike.position, alike.control, fun _ => ⟨alike.complete, alike.symm.complete⟩,
    fun _ _ => alike.asks same (told.kept start inside)⟩

/-- The story of some acts, as long as they can be done. -/
def narrate (s : Session g) (story : List Happening) : List Act → Option (List Happening × Session g)
  | [] => some (story, s)
  | .call :: acts => s.call.bind fun t => narrate t (.called :: story) acts
  | .halt :: acts => narrate s.halt (.halted :: story) acts
  | .turn around :: acts =>
    match s.plan.turn s.phase with
    | .ask request resume =>
      let t := s.answered around request resume
      if request.isPrivate then narrate t story acts
      else narrate t (.exchanged ⟨request, s.answer around request⟩ :: story) acts
    | .ended _ | .broken _ => none

theorem Story.narrated {acts : List Act} {story' : List Happening} (told : Story u story s)
    (h : s.narrate story acts = some (story', t)) : Story u story' t := by
  induction acts generalizing s story with
  | nil =>
      cases h
      exact told
  | cons act acts ih =>
      cases act with
      | call =>
          obtain ⟨v, made, rest⟩ := Option.bind_eq_some_iff.mp h
          exact ih (told.happened (Does.called made)) rest
      | halt => exact ih (told.happened Does.halted) h
      | turn around =>
          unfold narrate at h
          split at h
          · rename_i turn
            dsimp only at h
            split at h
            · exact ih (told.byItself turn (by assumption) around) h
            · rename_i shared
              have does : s.Does (.exchanged ⟨_, s.answer around _⟩) (s.answered around _ _) :=
                Does.exchanged turn (Bool.eq_false_iff.mpr shared) rfl
              exact ih (told.happened does) h
          · cases h
          · cases h

/-- A run that skips its first event, waits in vain, and fails for good at its third event, having been halted
just before. -/
def skippedAndStopped : List Act :=
  .call :: List.replicate 6 (.turn {}) ++
    [.turn { outcome := .available 1 }, .turn {}, .turn { failure := some ⟨"odd", []⟩ }, .turn {}, .turn {},
      .turn { outcome := .timeout }, .turn {}, .turn {}, .turn { outcome := .available 2 }, .turn {},
      .turn {}, .halt, .turn { failure := some ⟨"full", []⟩ }, .turn { failure := some ⟨"full", []⟩ }] ++
    List.replicate 3 (.turn {})

/-- A processor on a thread that skips one event and stops at another has a counterpart in a task. -/
theorem threads_and_tasks_are_counterparts_skipped_and_stopped :
    ∃ (story : List Happening) (s t : Session ⟨1, by decide⟩), story.length = 22 ∧
      Story (fresh ⟨1, by decide⟩ .event none (-1)) story s ∧
      Story (fresh ⟨1, by decide⟩ .task none (-1)) story t ∧
      s.phase = .complete (some (.handler ⟨"full", []⟩)) ∧
      t.phase = .complete (some (.handler ⟨"full", []⟩)) ∧ s.position = 1 ∧ t.position = 1 := by
  let told := narrate (fresh ⟨1, by decide⟩ .event none (-1)) [] skippedAndStopped
  have whole : narrate (fresh ⟨1, by decide⟩ .event none (-1)) [] skippedAndStopped =
      some (told.get (by decide)) := (Option.some_get _).symm
  have story : Story (fresh ⟨1, by decide⟩ .event none (-1)) (told.get (by decide)).1
      (told.get (by decide)).2 := Story.start.narrated whole
  have inside : ∀ h ∈ (told.get (by decide)).1, h.isBounded := by decide
  obtain ⟨⟨task, -⟩, alike⟩ := threads_and_tasks_are_counterparts (p := -1) (by decide) inside
  obtain ⟨t, too⟩ := task ⟨_, story⟩
  obtain ⟨position, -, result, -⟩ := alike _ t story too
  exact ⟨_, _, t, rfl, story, too, rfl, (result _).mp rfl, rfl, position.symm⟩

end Session

end EventRing
