import Mathlib.Tactic.Common
import Mathlib.Tactic.NormNum

/-! Systems that move from state to state under labels, where a label carries everything that the
surroundings decide about a step.  A run is a list of labels.  The rules here prove a property of
every state or every step of a run from what one step does. -/

namespace Rindexer.Lib

section Runs

variable {σ ℓ : Type} (step : σ → ℓ → Option σ)

/-- The state at the end of a run, when each of its steps can be taken. -/
def run : σ → List ℓ → Option σ
  | s, [] => some s
  | s, l :: ls => (step s l).bind fun s' => run s' ls

/-- `Q` holds of every step that a run takes. -/
def EveryStep (Q : σ → ℓ → σ → Prop) : σ → List ℓ → Prop
  | _, [] => True
  | s, l :: ls => ∀ s', step s l = some s' → Q s l s' ∧ EveryStep Q s' ls

/-- `P` holds of every state that a run reaches, its first included. -/
def Always (P : σ → Prop) : σ → List ℓ → Prop
  | s, [] => P s
  | s, l :: ls => P s ∧ ∀ s', step s l = some s' → Always P s' ls

/-- Every step that a run takes meets `cond`, a condition on the state before it. -/
abbrev Meets (cond : σ → ℓ → Prop) : σ → List ℓ → Prop :=
  EveryStep step fun s l _ => cond s l

variable {step}

@[simp] theorem run_nil (s : σ) : run step s [] = some s := rfl

theorem run_cons {s s' : σ} {l : ℓ} (ls : List ℓ) (h : step s l = some s') :
    run step s (l :: ls) = run step s' ls := by
  rw [run, h, Option.bind_some]

theorem EveryStep.cons {Q : σ → ℓ → σ → Prop} {s s' : σ} {l : ℓ} {ls : List ℓ}
    (h : step s l = some s') (hFirst : Q s l s') (hRest : EveryStep step Q s' ls) :
    EveryStep step Q s (l :: ls) := by
  intro s'' h'
  cases h.symm.trans h'
  exact ⟨hFirst, hRest⟩

theorem Always.start {P : σ → Prop} {s : σ} {ls : List ℓ} (h : Always step P s ls) : P s := by
  cases ls with
  | nil => exact h
  | cons _ _ => exact h.1

/-- What holds of every state reached holds of the last. -/
theorem Always.last {P : σ → Prop} {s s' : σ} {ls : List ℓ} (h : Always step P s ls)
    (hRun : run step s ls = some s') : P s' := by
  induction ls generalizing s with
  | nil =>
    cases hRun
    exact h
  | cons l ls ih =>
    obtain ⟨mid, hStep, hRest⟩ := Option.bind_eq_some_iff.mp hRun
    exact ih (h.2 mid hStep) hRest

theorem Always.mono {P Q : σ → Prop} {s : σ} {ls : List ℓ} (hPQ : ∀ s, P s → Q s)
    (h : Always step P s ls) : Always step Q s ls := by
  induction ls generalizing s with
  | nil => exact hPQ s h
  | cons l ls ih => exact ⟨hPQ s h.1, fun s' hStep => ih (h.2 s' hStep)⟩

theorem Always.and {P Q : σ → Prop} {s : σ} {ls : List ℓ} (hP : Always step P s ls)
    (hQ : Always step Q s ls) : Always step (fun s => P s ∧ Q s) s ls := by
  induction ls generalizing s with
  | nil => exact ⟨hP, hQ⟩
  | cons l ls ih => exact ⟨⟨hP.1, hQ.1⟩, fun s' hStep => ih (hP.2 s' hStep) (hQ.2 s' hStep)⟩

theorem EveryStep.mono {Q R : σ → ℓ → σ → Prop} {s : σ} {ls : List ℓ}
    (hQR : ∀ s l s', step s l = some s' → Q s l s' → R s l s') (h : EveryStep step Q s ls) :
    EveryStep step R s ls := by
  induction ls generalizing s with
  | nil => trivial
  | cons l ls ih =>
    exact fun s' hStep => ⟨hQR s l s' hStep (h s' hStep).1, ih (h s' hStep).2⟩

/-- A condition on the labels alone joins one on the steps. -/
theorem Meets.and_labels {cond : σ → ℓ → Prop} {p : ℓ → Prop} {s : σ} {ls : List ℓ}
    (h : Meets step cond s ls) (hLabels : ∀ l ∈ ls, p l) :
    Meets step (fun s l => cond s l ∧ p l) s ls := by
  induction ls generalizing s with
  | nil => trivial
  | cons l ls ih =>
    intro s' hStep
    refine ⟨⟨(h s' hStep).1, hLabels l (List.mem_cons_self ..)⟩, ih (h s' hStep).2 ?_⟩
    exact fun l' hl' => hLabels l' (List.mem_cons_of_mem _ hl')

/-- An invariant that every step meeting `cond` keeps holds in every state of every run whose
steps meet `cond`. -/
theorem always_of_invariant {I : σ → Prop} {cond : σ → ℓ → Prop}
    (hStep : ∀ s l s', I s → cond s l → step s l = some s' → I s') {s : σ} {ls : List ℓ}
    (hInit : I s) (hCond : Meets step cond s ls) : Always step I s ls := by
  induction ls generalizing s with
  | nil => exact hInit
  | cons l ls ih =>
    exact ⟨hInit, fun s' h => ih (hStep s l s' hInit (hCond s' h).1 h) (hCond s' h).2⟩

/-- An invariant that every step keeps holds in every state of every run. -/
theorem always_of_kept {I : σ → Prop} (hStep : ∀ s l s', I s → step s l = some s' → I s') {s : σ}
    {ls : List ℓ} (hInit : I s) : Always step I s ls := by
  induction ls generalizing s with
  | nil => exact hInit
  | cons l ls ih => exact ⟨hInit, fun s' h => ih (hStep s l s' hInit h)⟩

/-- A property `Q` of steps that follows from an invariant holds of every step of a run whose steps
meet `cond`. -/
theorem everyStep_of_invariant {I : σ → Prop} {cond : σ → ℓ → Prop} {Q : σ → ℓ → σ → Prop}
    (hStep : ∀ s l s', I s → cond s l → step s l = some s' → I s' ∧ Q s l s') {s : σ}
    {ls : List ℓ} (hInit : I s) (hCond : Meets step cond s ls) : EveryStep step Q s ls := by
  induction ls generalizing s with
  | nil => trivial
  | cons l ls ih =>
    intro s' h
    obtain ⟨hNext, hQ⟩ := hStep s l s' hInit (hCond s' h).1 h
    exact ⟨hQ, ih hNext (hCond s' h).2⟩

/-- What follows from an invariant that every step keeps holds of every step of every run. -/
theorem everyStep_of_kept {I : σ → Prop} {Q : σ → ℓ → σ → Prop}
    (hStep : ∀ s l s', I s → step s l = some s' → I s' ∧ Q s l s') {s : σ} {ls : List ℓ}
    (hInit : I s) : EveryStep step Q s ls := by
  induction ls generalizing s with
  | nil => trivial
  | cons l ls ih =>
    intro s' h
    obtain ⟨hNext, hQ⟩ := hStep s l s' hInit h
    exact ⟨hQ, ih hNext⟩

/-- When a step has `Q` exactly if it meets `cond`, every step of a run does exactly if they all do. -/
theorem everyStep_iff_meets {cond : σ → ℓ → Prop} {Q : σ → ℓ → σ → Prop}
    (hStep : ∀ s l s', step s l = some s' → (Q s l s' ↔ cond s l)) {s : σ} {ls : List ℓ} :
    EveryStep step Q s ls ↔ Meets step cond s ls :=
  ⟨.mono fun s l s' h => (hStep s l s' h).mp, .mono fun s l s' h => (hStep s l s' h).mpr⟩

/-- When, from states with an invariant, a step has `Q` exactly if it meets `cond` and such a step
keeps the invariant, every step of a run has `Q` exactly if they all meet `cond`. -/
theorem everyStep_iff_meets_of_invariant {I : σ → Prop} {cond : σ → ℓ → Prop} {Q : σ → ℓ → σ → Prop}
    (hStep : ∀ s l s', I s → step s l = some s' → (Q s l s' ↔ cond s l) ∧ (cond s l → I s'))
    {s : σ} {ls : List ℓ} (hInit : I s) : EveryStep step Q s ls ↔ Meets step cond s ls := by
  induction ls generalizing s with
  | nil => exact Iff.rfl
  | cons l ls ih =>
    constructor
    · intro h s' hTaken
      obtain ⟨hIff, hKeeps⟩ := hStep s l s' hInit hTaken
      obtain ⟨hQ, hRest⟩ := h s' hTaken
      have hCond := hIff.mp hQ
      exact ⟨hCond, (ih (hKeeps hCond)).mp hRest⟩
    · intro h s' hTaken
      obtain ⟨hIff, hKeeps⟩ := hStep s l s' hInit hTaken
      obtain ⟨hCond, hRest⟩ := h s' hTaken
      exact ⟨hIff.mpr hCond, (ih (hKeeps hCond)).mpr hRest⟩

/-- When, from states with the invariant, a step keeps it exactly if the step meets `cond`, the
invariant holds along a run exactly if the run's steps meet `cond`. -/
theorem always_iff_meets {I : σ → Prop} {cond : σ → ℓ → Prop}
    (hStep : ∀ s l s', I s → step s l = some s' → (I s' ↔ cond s l)) {s : σ} {ls : List ℓ}
    (hInit : I s) : Always step I s ls ↔ Meets step cond s ls := by
  induction ls generalizing s with
  | nil => exact ⟨fun _ => trivial, fun _ => hInit⟩
  | cons l ls ih =>
    constructor
    · intro h s' hTaken
      have hNext := (h.2 s' hTaken).start
      exact ⟨(hStep s l s' hInit hTaken).mp hNext, (ih hNext).mp (h.2 s' hTaken)⟩
    · intro h
      refine ⟨hInit, fun s' hTaken => ?_⟩
      have hNext := (hStep s l s' hInit hTaken).mpr (h s' hTaken).1
      exact (ih hNext).mpr (h s' hTaken).2

/-- When every step uses up some of a measure that labels may add to, a run is no longer than the measure
and what its labels add. -/
theorem run_length_le {I : σ → Prop} (measure : σ → Nat) (cost : ℓ → Nat)
    (hStep : ∀ s l s', I s → step s l = some s' → I s' ∧ measure s' + 1 ≤ measure s + cost l)
    {s s' : σ} {ls : List ℓ} (hInit : I s) (hRun : run step s ls = some s') :
    I s' ∧ measure s' + ls.length ≤ measure s + (ls.map cost).sum := by
  induction ls generalizing s with
  | nil =>
    cases hRun
    exact ⟨hInit, Nat.le_refl _⟩
  | cons l ls ih =>
    obtain ⟨mid, hTaken, hRest⟩ := Option.bind_eq_some_iff.mp hRun
    obtain ⟨hNext, hUsed⟩ := hStep s l mid hInit hTaken
    obtain ⟨hLast, hLength⟩ := ih hNext hRest
    refine ⟨hLast, ?_⟩
    rw [List.length_cons, List.map_cons, List.sum_cons]
    omega

end Runs

end Rindexer.Lib
