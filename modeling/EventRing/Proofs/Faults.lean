import EventRing.Proofs.Phases
/-!
# EventRing.Proofs.Faults

Why the run of a processor breaks off.  There are two reasons only: the arithmetic on sequences leaves
the 64-bit range, or a processor on a thread finds its progress beyond what it is about to store
(`Phase.Origin`, `fault_of_broken`).  The first never comes up while all positions that a processor
learns lie below the end of that range (`Phase.Tame`).
-/

namespace EventRing

open EventRing.Action

/-- The positions that a processor can go on from. -/
def Positions (v : Int) : Prop := -1 ≤ v ∧ v < Word.greatest

instance : DecidablePred Positions := fun _ => inferInstanceAs (Decidable (_ ∧ _))

theorem convex_positions : Convex Positions :=
  fun first last above below => ⟨Int.le_trans first.1 above, Int.lt_of_le_of_lt below last.2⟩

namespace Processor

variable {g : Geometry} {plan : Plan g} {ok : Int → Prop} {phase : Phase} {request : Request}
variable {resume : request.Answer → Phase} {next last done available : Int} {fault : Fault}

/-! ## Arithmetic that does not break off -/

theorem fits_of_nonneg {n : Int} (low : -1 ≤ n) (high : n ≤ Word.greatest) : Word.Fits n :=
  ⟨Int.le_trans (by decide) low, high⟩

theorem Phase.admitted_ne_faulted (limit : 1 ≤ plan.limit) (low : 0 ≤ next)
    (below : available < Word.greatest) (fault : Fault) :
    Phase.admitted plan next available ≠ .faulted fault := by
  unfold admitted
  by_cases less : available < next
  · simp [less, orFault, pure, Except.pure]
  · rw [if_neg less, except_checked_of_fits (fits_of_nonneg (by omega) (by omega))]
    by_cases many : plan.limit ≤ available - next
    · rw [if_pos many, except_checked_of_fits (fits_of_nonneg (by omega) (by omega)),
        except_checked_of_fits (fits_of_nonneg (by omega) (by omega))]
      cases plan.kind <;> simp [orFault, pure, Except.pure]
    · rw [if_neg many]
      cases plan.kind <;> simp [orFault, pure, Except.pure, bind, Except.bind]

theorem Phase.advanced_ne_faulted (low : 0 ≤ done) (below : done < Word.greatest) (fault : Fault) :
    Phase.advanced plan done last ≠ .faulted fault := by
  unfold advanced
  rw [except_checked_of_fits (fits_of_nonneg (by omega) (by omega))]
  by_cases more : done + 1 ≤ last
  · rw [if_pos more]
    cases plan.kind <;> simp [orFault, pure, Except.pure]
  · rw [if_neg more]
    cases plan.kind <;> simp [orFault, pure, Except.pure]

/-- A range of sequences has a length that fits. -/
theorem depth_of_fits {lo hi : Int} (low : 0 ≤ lo) (upright : lo ≤ hi) (high : hi < Word.greatest) :
    depth lo hi = .ok (hi - lo + 1) := by
  unfold depth
  rw [except_checked_of_fits (fits_of_nonneg (by omega) (by omega)),
    Word.checked_of_fits (fits_of_nonneg (by omega) (by omega))]

theorem lastOfRun_of_fits {first : Int} (low : 0 ≤ first) (upright : first ≤ last)
    (high : last < Word.greatest) : ∃ cut, lastOfRun g first last = .ok cut := by
  have length : g.batchLength first last =
      .ok (min (last - first + 1).toNat (g.size - g.slot first)) := by
    unfold Geometry.batchLength
    rw [if_neg (Int.not_lt.mpr upright),
      except_checked_of_fits (fits_of_nonneg (by omega) (by omega)),
      except_checked_of_fits (fits_of_nonneg (by omega) (by omega))]
    rfl
  have := Geometry.batchLength_eq_ok length
  unfold lastOfRun
  rw [length]
  show ∃ cut, (Word.checked (first + _) >>= _) = .ok cut
  rw [except_checked_of_fits (fits_of_nonneg (by omega) (by omega)),
    Word.checked_of_fits (fits_of_nonneg (by omega) (by omega))]
  exact ⟨_, rfl⟩

/-! ## Arithmetic that breaks off -/

theorem depth_eq_error {lo hi : Int} (h : depth lo hi = .error fault) : fault = .overflow := by
  rcases except_checked_eq_error h with overflow | rest
  · exact overflow
  · exact Word.checked_eq_error rest

/-- The run in hand can be told unless the arithmetic leaves its range. -/
theorem lastOfRun_eq_error {first : Int} (upright : first ≤ last)
    (h : lastOfRun g first last = .error fault) : fault = .overflow := by
  unfold lastOfRun at h
  rcases except_bind_eq_error h with none | ⟨length, -, rest⟩
  · unfold Geometry.batchLength at none
    rw [if_neg (Int.not_lt.mpr upright)] at none
    rcases except_checked_eq_error none with overflow | rest
    · exact overflow
    · rcases except_checked_eq_error rest with overflow | rest
      · exact overflow
      · cases rest
  · rcases except_checked_eq_error rest with overflow | rest
    · exact overflow
    · exact Word.checked_eq_error rest

/-! ## Where phases come from -/

/-- The phases whose turns reckon where to go on. -/
def Phase.Reckons : Phase → Prop
  | .positioning | .awaiting _ | .delivering .. | .skipping _ | .handing .. | .batchFailed .. => True
  | _ => False

/-- Where some phases come from: what a processor asked, and was answered, in the phase before. -/
def Phase.Origin (phase : Phase) (request : Request) (answer : request.Answer) : Phase → Prop
  | .opening next last available =>
    phase = .awaiting next ∧ next ≤ last ∧ last ≤ available ∧
      ∀ ok, request.Tells ok answer → ok available
  | .noting next last => phase = .timing next ∧ ∀ ok, request.Tells ok answer → ok last
  | .timedOut next last =>
    phase = .noting next last ∨ phase = .timing next ∧ ∀ ok, request.Tells ok answer → ok last
  | .beginning => False
  | .complete _ => phase = .beginning ∨ ∃ fatal, phase = .finishing fatal
  | .faulted fault =>
    -- it left the range, or found the progress beyond what it would store
    fault = .overflow ∧ phase.Reckons ∨ ∃ next last position, phase = .verifying next last ∧
      fault = .backwards position last ∧ ¬ request.Tells (· ≤ last) answer
  | _ => True

theorem Phase.origin_admitted (limit : 1 ≤ plan.limit) :
    Phase.Origin (.awaiting next) (.await next) (.available available)
      (Phase.admitted plan next available) := by
  apply Phase.admitted_cases (P := Phase.Origin _ _ _) limit
  · exact Or.inl ⟨rfl, trivial⟩
  · exact fun _ => trivial
  · exact fun _ _ _ _ => trivial
  · exact fun last _ above below =>
      ⟨rfl, above, below, fun ok told => told available rfl (Int.le_trans above below)⟩

theorem Phase.origin_advanced {answer : request.Answer} (reckons : phase.Reckons) :
    phase.Origin request answer (Phase.advanced plan done last) := by
  apply Phase.advanced_cases (P := Phase.Origin _ _ _)
  · exact Or.inl ⟨rfl, reckons⟩
  · exact fun _ _ => trivial
  · exact fun _ _ => trivial
  · exact fun _ => trivial
  · exact fun _ => trivial

theorem Phase.origin_of_turn (limit : 1 ≤ plan.limit)
    (turn : plan.turn phase = .ask request resume) (answer : request.Answer) :
    phase.Origin request answer (resume answer) := by
  cases phase with
  | beginning =>
      cases turn
      rcases answer with _ | _ | _
      · exact Or.inl rfl
      · trivial
      · trivial
  | starting | timedOut | timeoutFailed | shuttingDown | checking | interrupted =>
      cases turn
      cases answer <;> trivial
  | announcing mode fatal =>
      cases turn
      cases mode <;> cases fatal <;> trivial
  | positioning | skipping =>
      cases turn
      exact orFault_checked (Or.inl ⟨rfl, trivial⟩) trivial
  | awaiting next =>
      cases turn
      cases answer with
      | available available => exact origin_admitted limit
      | timeout | cancelled => trivial
  | timing next =>
      cases turn
      cases plan.kind with
      | task => exact ⟨rfl, fun ok told => told⟩
      | event | batch => exact Or.inr ⟨rfl, fun ok told => told⟩
  | noting =>
      cases turn
      exact Or.inl rfl
  | opening | stopping =>
      simp only [Plan.turn] at turn
      split at turn <;> cases turn
      trivial
  | delivering next last =>
      cases turn
      cases answer with
      | none => exact origin_advanced trivial
      | some failure => trivial
  | eventFailed next last failure =>
      cases turn
      cases answer with
      | none => trivial
      | some fatal => cases plan.kind <;> trivial
  | handing next last =>
      simp only [Plan.turn] at turn
      split at turn <;> cases turn
      cases answer with
      | none => exact origin_advanced trivial
      | some failure => trivial
  | batchFailed first cut last failure =>
      cases turn
      cases answer with
      | none => exact origin_advanced trivial
      | some fatal => trivial
  | verifying next last =>
      cases turn
      show Phase.Origin _ _ _ (if last < answer then .faulted (.backwards answer last)
        else .releasing next last)
      split
      · exact Or.inr ⟨next, last, answer, rfl, rfl, Int.not_le.mpr (by assumption)⟩
      · trivial
  | finishing fatal =>
      cases turn
      exact Or.inr ⟨fatal, rfl⟩
  | rearming | startFailed | warning | releasing | shutdownFailed =>
      cases turn
      trivial
  | complete | faulted => cases turn

/-- A phase that breaks off is broken, or leaves the range. -/
theorem Phase.fault_of_broken (within : phase.Within ok) (turn : plan.turn phase = .broken fault) :
    phase = .faulted fault ∨ fault = .overflow := by
  cases phase with
  | opening next last available =>
      simp only [Plan.turn] at turn
      split at turn <;> cases turn
      · exact Or.inr (depth_eq_error (by assumption))
      · exact Or.inr (depth_eq_error (by assumption))
  | handing next last =>
      simp only [Plan.turn] at turn
      split at turn <;> cases turn
      exact Or.inr (lastOfRun_eq_error within.2.1 (by assumption))
  | stopping next failure =>
      simp only [Plan.turn] at turn
      split at turn <;> cases turn
      exact Or.inr (Word.checked_eq_error (by assumption))
  | faulted fault =>
      cases turn
      exact Or.inl rfl
  | _ => cases turn

/-! ## Turns within the range -/

/-- What a phase asks about next fits the 64-bit range. -/
def Phase.Fitting : Phase → Prop
  | .opening next last available =>
    0 ≤ next ∧ next ≤ last ∧ last ≤ available ∧ available < Word.greatest
  | .handing next last => 0 ≤ next ∧ next ≤ last ∧ last < Word.greatest
  | .stopping next _ => 0 ≤ next ∧ next ≤ Word.greatest
  | _ => True

/-- Where everything fits, there is nothing to ask for only when the run is over or broken. -/
theorem Phase.idle_cases (fitting : phase.Fitting)
    (idle : ∀ request resume, plan.turn phase ≠ .ask request resume) :
    (∃ error, phase = .complete error) ∨ ∃ fault, phase = .faulted fault := by
  cases phase with
  | complete error => exact Or.inl ⟨error, rfl⟩
  | faulted fault => exact Or.inr ⟨fault, rfl⟩
  | opening next last available =>
      obtain ⟨low, above, inside, below⟩ := fitting
      have handed : depth next last = .ok (last - next + 1) :=
        depth_of_fits low above (by omega)
      have found : depth next available = .ok (available - next + 1) :=
        depth_of_fits low (by omega) below
      exact absurd (by rw [Plan.turn, handed, found]) (idle _ _)
  | stopping next failure =>
      obtain ⟨low, high⟩ := fitting
      have before : Word.checked (next - 1) = .ok (next - 1) :=
        Word.checked_of_fits (fits_of_nonneg (by omega) (by omega))
      exact absurd (by rw [Plan.turn, before]) (idle _ _)
  | handing next last =>
      obtain ⟨low, above, below⟩ := fitting
      obtain ⟨cut, run⟩ := lastOfRun_of_fits (g := g) low above below
      exact absurd (by rw [Plan.turn, run]) (idle _ _)
  | _ => exact absurd rfl (idle _ _)

/-- A processor that has learned only positions below the end of the range. -/
structure Phase.Tame (phase : Phase) : Prop where
  within : phase.Within Positions
  found : ∀ next last available, phase = .opening next last available →
    last ≤ available ∧ available < Word.greatest

theorem Phase.Tame.fitting (tame : phase.Tame) : phase.Fitting := by
  have within := tame.within
  cases phase with
  | opening next last available =>
      obtain ⟨inside, below⟩ := tame.found next last available rfl
      have low := within.1.1
      exact ⟨by omega, within.2.1, inside, below⟩
  | handing next last =>
      have low := within.1.1
      exact ⟨by omega, within.2.1, within.2.2.2⟩
  | stopping next failure =>
      obtain ⟨low, below⟩ := within
      exact ⟨by omega, by omega⟩
  | _ => trivial

theorem Phase.onwards_ne_faulted {n : Int} (position : Positions n) (fault : Fault) :
    Phase.orFault (Word.checked (n + 1) >>= fun next => pure (.awaiting next)) ≠ .faulted fault := by
  obtain ⟨low, below⟩ := position
  rw [except_checked_of_fits (fits_of_nonneg (by omega) (by omega))]
  nofun

/-- Within the range a turn does not leave it. -/
theorem Phase.Tame.sound_of_turn (tame : phase.Tame) (limit : 1 ≤ plan.limit)
    (turn : plan.turn phase = .ask request resume) (answer : request.Answer)
    (told : request.Tells Positions answer) : resume answer ≠ .faulted .overflow := by
  intro broken
  have within := tame.within
  have origin := origin_of_turn limit turn answer
  rw [broken] at origin
  obtain ⟨-, reckons⟩ | ⟨-, -, -, -, ⟨⟩, -⟩ := origin
  cases phase with
  | positioning =>
      cases turn
      exact onwards_ne_faulted told _ broken
  | awaiting next =>
      cases turn
      cases answer with
      | available available =>
          obtain ⟨low, high⟩ := within
          refine admitted_ne_faulted limit (by omega) ?_ _ broken
          by_cases enough : next ≤ available
          · exact (told available rfl enough).2
          · omega
      | timeout | cancelled => cases broken
  | delivering next last =>
      cases turn
      obtain ⟨⟨low, -⟩, upright, -, high⟩ := within
      cases answer with
      | none => exact advanced_ne_faulted (by omega) (by omega) _ broken
      | some failure => cases broken
  | skipping next =>
      cases turn
      exact onwards_ne_faulted within _ broken
  | handing next last =>
      obtain ⟨⟨low, -⟩, upright, -, high⟩ := within
      simp only [Plan.turn] at turn
      split at turn
      · rename_i run
        obtain ⟨above, below⟩ := lastOfRun_eq_ok run
        cases turn
        cases answer with
        | none => exact advanced_ne_faulted (by omega) (by omega) _ broken
        | some failure => cases broken
      · cases turn
  | batchFailed first cut last failure =>
      cases turn
      obtain ⟨⟨low, -⟩, above, below, -, high⟩ := within
      cases answer with
      | none => exact advanced_ne_faulted (by omega) (by omega) _ broken
      | some fatal => cases broken
  | _ => cases reckons

theorem Phase.Tame.of_turn (tame : phase.Tame) (limit : 1 ≤ plan.limit)
    (turn : plan.turn phase = .ask request resume) (answer : request.Answer)
    (told : request.Tells Positions answer) : (resume answer).Tame := by
  refine ⟨within_of_turn limit convex_positions tame.within turn answer told, ?_⟩
  intro next last available opened
  have origin := origin_of_turn limit turn answer
  rw [opened] at origin
  obtain ⟨-, -, inside, found⟩ := origin
  exact ⟨inside, (found Positions told).2⟩

end Processor

end EventRing
