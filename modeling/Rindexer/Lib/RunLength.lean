import Mathlib.Algebra.BigOperators.Group.List.Basic
import Mathlib.Tactic.Common
import Mathlib.Tactic.NormNum

/-! Run-length lists of steps: the steps that a list of runs stands for, how a step is appended by
extending the last run, and the walk along the runs that sums the steps up to a position. -/

namespace Rindexer.Lib

/-- `len` steps of the same size. -/
structure Run (α : Type) where
  len : Nat
  delta : α
deriving DecidableEq, Repr

namespace Run

variable {α : Type}

/-- The steps of the runs, one by one. -/
def steps (runs : List (Run α)) : List α :=
  runs.flatMap fun run => List.replicate run.len run.delta

@[simp] theorem steps_nil : steps ([] : List (Run α)) = [] := rfl

@[simp] theorem steps_cons (run : Run α) (runs : List (Run α)) :
    steps (run :: runs) = List.replicate run.len run.delta ++ steps runs := rfl

@[simp] theorem steps_append (runs runs' : List (Run α)) :
    steps (runs ++ runs') = steps runs ++ steps runs' :=
  List.flatMap_append

section Push

variable [DecidableEq α]

/-- One more step: the last run grows if its steps have that size, otherwise a run starts. -/
def push (runs : List (Run α)) (delta : α) : List (Run α) :=
  match runs.getLast? with
  | some last =>
    if last.delta = delta then runs.dropLast ++ [{ last with len := last.len + 1 }]
    else runs ++ [⟨1, delta⟩]
  | none => runs ++ [⟨1, delta⟩]

/-- A step extends the last run, whose steps have its size, or starts a run. -/
theorem push_cases (runs : List (Run α)) (delta : α) :
    (∃ init last, runs = init ++ [last] ∧ last.delta = delta ∧
      push runs delta = init ++ [{ last with len := last.len + 1 }]) ∨
    push runs delta = runs ++ [⟨1, delta⟩] := by
  rcases List.eq_nil_or_concat runs with rfl | ⟨init, last, rfl⟩
  · exact .inr rfl
  · by_cases hSame : last.delta = delta
    · exact .inl ⟨init, last, by simp, hSame, by simp [push, hSame]⟩
    · exact .inr (by simp [push, hSame])

theorem steps_push (runs : List (Run α)) (delta : α) :
    steps (push runs delta) = steps runs ++ [delta] := by
  rcases push_cases runs delta with ⟨init, last, rfl, rfl, hPush⟩ | hPush
  · rw [hPush]
    simp [List.replicate_succ']
  · rw [hPush]
    simp

theorem length_le_length_push (runs : List (Run α)) (delta : α) :
    runs.length ≤ (push runs delta).length := by
  rcases push_cases runs delta with ⟨init, last, rfl, -, hPush⟩ | hPush
  · rw [hPush]
    simp
  · rw [hPush]
    simp

/-- The runs before one that stands already are not touched. -/
theorem take_push {runs : List (Run α)} {i : Nat} (delta : α) (h : i < runs.length) :
    (push runs delta).take i = runs.take i := by
  rcases push_cases runs delta with ⟨init, last, rfl, -, hPush⟩ | hPush
  · have hi : i ≤ init.length := by
      simp at h
      omega
    rw [hPush, List.take_append_of_le_length hi, List.take_append_of_le_length hi]
  · rw [hPush, List.take_append_of_le_length (by omega)]

end Push

section Clock

variable [AddCommMonoid α]

/-- The value after `n` of the steps. -/
def clock (start : α) (steps : List α) (n : Nat) : α := start + (steps.take n).sum

@[simp] theorem clock_zero (start : α) (steps : List α) : clock start steps 0 = start := by
  simp [clock]

theorem clock_append_left {start : α} {l : List α} (l' : List α) {n : Nat} (h : n ≤ l.length) :
    clock start (l ++ l') n = clock start l n := by
  rw [clock, clock, List.take_append_of_le_length h]

/-- Past some steps, the clock goes on from the value after them. -/
theorem clock_append_right (start : α) (l l' : List α) (n : Nat) :
    clock start (l ++ l') (l.length + n) = clock (clock start l l.length) l' n := by
  have hTake : l.take (l.length + n) = l := List.take_of_length_le (by omega)
  simp [clock, List.take_append, hTake, add_assoc]

/-- Within one run, the value has gone up by as many steps as there are positions passed. -/
theorem clock_replicate (start delta : α) {len n : Nat} (h : n ≤ len) :
    clock start (List.replicate len delta) n = start + n • delta := by
  rw [clock, List.take_replicate, List.sum_replicate, Nat.min_eq_left h]

theorem clock_run_left (start : α) (run : Run α) (runs : List (Run α)) {n : Nat}
    (h : n ≤ run.len) : clock start (steps (run :: runs)) n = start + n • run.delta := by
  rw [steps_cons, clock_append_left _ (by simpa using h), clock_replicate _ _ h]

theorem clock_run_right (start : α) (run : Run α) (runs : List (Run α)) (n : Nat) :
    clock start (steps (run :: runs)) (run.len + n) =
      clock (start + run.len • run.delta) (steps runs) n := by
  have h := clock_append_right start (List.replicate run.len run.delta) (steps runs) n
  rw [List.length_replicate, clock_replicate _ _ (Nat.le_refl _)] at h
  exact h

end Clock

end Run

end Rindexer.Lib
