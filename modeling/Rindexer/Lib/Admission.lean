import Mathlib.Tactic.Common

/-! A pool that one party admits workers to, never more at a time than a limit allows that may change
between two looks at it.  A worker that is done first leaves the counter of active workers and then
gives notice.  The party that admits loads the counter and waits for a notice when there is no room; a
notice that nobody waits for is kept, as one permit however many there are. -/

namespace Rindexer.Lib

/-- Where the admitting party is. -/
inductive AdmissionPhase
  | outside
  | looking
  | loaded (active : Nat)
  | admitted
  | awaiting
  | parked
deriving DecidableEq, Repr

/-- The steps to the next wait or admission. -/
def AdmissionPhase.steps : AdmissionPhase → Nat
  | .outside => 5
  | .looking => 4
  | .loaded _ => 3
  | .admitted => 2
  | .awaiting => 2
  | .parked => 1

/-- `unseen` are the workers that have left while a load may still show them; `notifying` those that
have left and not given notice yet. -/
structure Admission where
  phase : AdmissionPhase
  permit : Bool
  active : Nat
  unseen : Nat
  notifying : Nat
deriving DecidableEq, Repr

namespace Admission

def empty : Admission := ⟨.outside, false, 0, 0, 0⟩

def enter (a : Admission) : Option Admission :=
  if a.phase = .outside then some { a with phase := .looking } else none

/-- A load of the counter, which may show workers that have left lately. -/
def load (stale : Nat) (a : Admission) : Option Admission :=
  if a.phase = .looking ∧ stale ≤ a.unseen then
    some { a with phase := .loaded (a.active + stale), unseen := stale }
  else none

def compare (limit : Nat) (a : Admission) : Option Admission :=
  match a.phase with
  | .loaded seen => some { a with phase := if seen < limit then .admitted else .awaiting }
  | _ => none

/-- Takes the permit or waits.  A notice makes the counter as it was before it visible. -/
def await (a : Admission) : Option Admission :=
  if a.phase = .awaiting then
    if a.permit then
      some { a with phase := .looking, permit := false, unseen := min a.unseen a.notifying }
    else some { a with phase := .parked }
  else none

/-- The increment of the counter reads its latest value. -/
def fetchAdd (a : Admission) : Option Admission :=
  if a.phase = .admitted then
    some { a with phase := .outside, active := a.active + 1, unseen := 0 }
  else none

def leave (a : Admission) : Option Admission :=
  if 0 < a.active then
    some { a with active := a.active - 1, unseen := a.unseen + 1, notifying := a.notifying + 1 }
  else none

def notifyOne (a : Admission) : Option Admission :=
  if 0 < a.notifying then
    if a.phase = .parked then
      some { a with
        phase := .looking
        unseen := min a.unseen (a.notifying - 1)
        notifying := a.notifying - 1 }
    else some { a with permit := true, notifying := a.notifying - 1 }
  else none

/-- A notice is there or will be given. -/
def Awaited (a : Admission) : Prop := a.permit = true ∨ 0 < a.active + a.notifying

/-- What the phase rests on: there is room for the worker that is admitted, a loaded value is no less
than the counter, and whoever waits or will wait is given notice. -/
def PhaseSound (bound : Nat) (a : Admission) : Prop :=
  match a.phase with
  | .loaded seen => a.active ≤ seen ∧ (0 < seen → a.Awaited)
  | .admitted => a.active < bound
  | .awaiting => a.Awaited
  | .parked => a.permit = false ∧ 0 < a.active + a.notifying
  | _ => True

/-- The workers are within the bound, and no wake-up is lost. -/
structure Sound (bound : Nat) (a : Admission) : Prop where
  within : a.active ≤ bound
  unseen : 0 < a.unseen → a.permit = true ∨ 0 < a.notifying
  phase : a.PhaseSound bound

theorem empty_sound (bound : Nat) : empty.Sound bound :=
  ⟨Nat.zero_le _, fun h => absurd h (Nat.lt_irrefl 0), trivial⟩

section Steps

variable {bound : Nat} {a a' : Admission}

theorem Sound.enter (h : a.Sound bound) (hStep : a.enter = some a') : a'.Sound bound := by
  unfold Admission.enter at hStep
  split at hStep
  · cases hStep
    exact ⟨h.within, h.unseen, trivial⟩
  · cases hStep

theorem Sound.load {stale : Nat} (h : a.Sound bound) (hStep : a.load stale = some a') :
    a'.Sound bound := by
  unfold Admission.load at hStep
  split at hStep
  · rename_i hLooking
    cases hStep
    have hUnseen := h.unseen
    refine ⟨h.within, fun hStale => ?_, Nat.le_add_right _ _, fun hPos => ?_⟩
    · apply hUnseen
      dsimp only at hStale
      omega
    · unfold Awaited
      dsimp only
      rcases Nat.eq_zero_or_pos a.active with hNone | hSome
      · rcases hUnseen (by omega) with hPermit | hNotifying
        · exact .inl hPermit
        · exact .inr (by omega)
      · exact .inr (by omega)
  · cases hStep

theorem Sound.compare {limit : Nat} (h : a.Sound bound) (hLimit : 1 ≤ limit ∧ limit ≤ bound)
    (hStep : a.compare limit = some a') : a'.Sound bound := by
  have hPhase := h.phase
  unfold Admission.compare at hStep
  unfold PhaseSound at hPhase
  split at hStep
  · rename_i seen hSeen
    rw [hSeen] at hPhase
    obtain ⟨hActive, hAwaited⟩ := hPhase
    cases hStep
    split
    · refine ⟨h.within, h.unseen, ?_⟩
      change a.active < bound
      omega
    · exact ⟨h.within, h.unseen, hAwaited (by omega)⟩
  · cases hStep

theorem Sound.await (h : a.Sound bound) (hStep : a.await = some a') : a'.Sound bound := by
  have hPhase := h.phase
  unfold Admission.await at hStep
  unfold PhaseSound at hPhase
  split at hStep
  · rename_i hAwaiting
    rw [hAwaiting] at hPhase
    split at hStep
    · cases hStep
      refine ⟨h.within, fun hUnseen => .inr ?_, trivial⟩
      dsimp only at hUnseen ⊢
      omega
    · rename_i hNone
      cases hStep
      exact ⟨h.within, h.unseen, Bool.eq_false_iff.mpr hNone, hPhase.resolve_left hNone⟩
  · cases hStep

theorem Sound.fetchAdd (h : a.Sound bound) (hStep : a.fetchAdd = some a') : a'.Sound bound := by
  have hPhase := h.phase
  unfold Admission.fetchAdd at hStep
  unfold PhaseSound at hPhase
  split at hStep
  · rename_i hAdmitted
    rw [hAdmitted] at hPhase
    cases hStep
    exact ⟨hPhase, fun hNone => absurd hNone (Nat.lt_irrefl 0), trivial⟩
  · cases hStep

theorem Sound.leave (h : a.Sound bound) (hStep : a.leave = some a') : a'.Sound bound := by
  have hPhase := h.phase
  have hWithin := h.within
  unfold Admission.leave at hStep
  split at hStep
  · cases hStep
    refine ⟨by dsimp only; omega, fun _ => .inr (Nat.succ_pos _), ?_⟩
    unfold PhaseSound Awaited at hPhase ⊢
    dsimp only
    split <;> simp_all <;> omega
  · cases hStep

theorem Sound.notifyOne (h : a.Sound bound) (hStep : a.notifyOne = some a') : a'.Sound bound := by
  have hPhase := h.phase
  unfold Admission.notifyOne at hStep
  split at hStep
  · split at hStep
    · cases hStep
      refine ⟨h.within, fun hUnseen => .inr ?_, trivial⟩
      dsimp only at hUnseen ⊢
      omega
    · rename_i hAwake
      cases hStep
      refine ⟨h.within, fun _ => .inl rfl, ?_⟩
      unfold PhaseSound Awaited at hPhase ⊢
      dsimp only
      split <;> simp_all
  · cases hStep

end Steps

/-! ### What a step costs -/

/-- The steps that are left without another notice. -/
def work (a : Admission) : Nat := a.phase.steps + if a.permit then 3 else 0

/-- The steps of the admitting party between two admissions. -/
structure Advances (a a' : Admission) : Prop where
  active : a'.active = a.active
  notifying : a'.notifying = a.notifying
  inside : a.phase ≠ .outside
  work : a'.work < a.work

section Costs

variable {a a' : Admission}

theorem enter_spec (h : a.enter = some a') : a.phase = .outside ∧ a'.active = a.active ∧
    a'.notifying = a.notifying ∧ a'.work < a.work := by
  unfold Admission.enter at h
  split at h
  · rename_i hOutside
    cases h
    refine ⟨hOutside, rfl, rfl, ?_⟩
    rw [work, work, hOutside]
    dsimp only [AdmissionPhase.steps]
    omega
  · cases h

theorem load_advances {stale : Nat} (h : a.load stale = some a') : a.Advances a' := by
  unfold Admission.load at h
  split at h
  · rename_i hLooking
    cases h
    refine ⟨rfl, rfl, fun hOutside => ?_, ?_⟩
    · rw [hLooking.1] at hOutside
      cases hOutside
    · rw [work, work, hLooking.1]
      dsimp only [AdmissionPhase.steps]
      omega
  · cases h

theorem compare_advances {limit : Nat} (h : a.compare limit = some a') : a.Advances a' := by
  unfold Admission.compare at h
  split at h
  · rename_i seen hSeen
    cases h
    refine ⟨rfl, rfl, fun hOutside => ?_, ?_⟩
    · rw [hSeen] at hOutside
      cases hOutside
    · rw [work, work, hSeen]
      split
      · dsimp only [AdmissionPhase.steps]
        omega
      · dsimp only [AdmissionPhase.steps]
        omega
  · cases h

theorem await_advances (h : a.await = some a') : a.Advances a' := by
  unfold Admission.await at h
  split at h
  · rename_i hAwaiting
    have hInside : a.phase ≠ .outside := by
      rw [hAwaiting]
      intro hPhase
      cases hPhase
    split at h
    · rename_i hPermit
      cases h
      refine ⟨rfl, rfl, hInside, ?_⟩
      rw [work, work, hAwaiting, if_pos hPermit]
      change 4 + 0 < 2 + 3
      omega
    · rename_i hNone
      cases h
      refine ⟨rfl, rfl, hInside, ?_⟩
      rw [work, work, hAwaiting, if_neg hNone]
      change 1 + 0 < 2 + 0
      omega
  · cases h

theorem fetchAdd_spec (h : a.fetchAdd = some a') : a.phase = .admitted ∧ a'.phase = .outside ∧
    a'.active = a.active + 1 ∧ a'.notifying = a.notifying ∧ a'.work = a.work + 3 := by
  unfold Admission.fetchAdd at h
  split at h
  · rename_i hAdmitted
    cases h
    refine ⟨hAdmitted, rfl, rfl, rfl, ?_⟩
    rw [work, work, hAdmitted]
    dsimp only [AdmissionPhase.steps]
    omega
  · cases h

theorem leave_spec (h : a.leave = some a') : a'.phase = a.phase ∧ a'.active + 1 = a.active ∧
    a'.notifying = a.notifying + 1 ∧ a'.work = a.work := by
  unfold Admission.leave at h
  split at h
  · rename_i hSome
    cases h
    exact ⟨rfl, by dsimp only; omega, rfl, rfl⟩
  · cases h

theorem notifyOne_spec (h : a.notifyOne = some a') : (a'.phase ≠ .outside → a.phase ≠ .outside) ∧
    a'.active = a.active ∧ a'.notifying + 1 = a.notifying ∧ a'.work ≤ a.work + 3 := by
  unfold Admission.notifyOne at h
  split at h
  · split at h
    · rename_i hSome hParked
      cases h
      refine ⟨fun _ hOutside => ?_, rfl, by dsimp only; omega, ?_⟩
      · rw [hParked] at hOutside
        cases hOutside
      · rw [work, work, hParked]
        dsimp only [AdmissionPhase.steps]
        omega
    · cases h
      refine ⟨id, rfl, by dsimp only; omega, ?_⟩
      rw [work, work]
      dsimp only
      rw [if_pos rfl]
      omega
  · cases h

end Costs

end Admission

end Rindexer.Lib
