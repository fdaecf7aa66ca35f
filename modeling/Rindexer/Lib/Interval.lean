import Mathlib.Data.List.Range
import Mathlib.Tactic.Common
import Mathlib.Tactic.NormNum

/-! Lists of consecutive numbers, and when a list that is put together from ranges is one. -/

namespace Rindexer.Lib

/-- The list counts on from `first`, without a gap or a repetition. -/
def Consecutive (first : Nat) (l : List Nat) : Prop := l = List.range' first l.length

@[simp] theorem consecutive_nil (first : Nat) : Consecutive first [] := rfl

theorem consecutive_range' {first start length : Nat} :
    Consecutive first (List.range' start length) ↔ length = 0 ∨ start = first := by
  rw [Consecutive, List.length_range']
  cases length with
  | zero => simp
  | succ length =>
    rw [List.range'_succ, List.range'_succ]
    constructor
    · intro h
      exact .inr (List.cons.inj h).1
    · rintro (h | rfl)
      · cases h
      · rfl

/-- The second half counts on from where the first one stops. -/
theorem consecutive_append {first : Nat} {l1 l2 : List Nat} :
    Consecutive first (l1 ++ l2) ↔ Consecutive first l1 ∧ Consecutive (first + l1.length) l2 := by
  unfold Consecutive
  rw [List.length_append, ← List.range'_append_1]
  constructor
  · intro h
    exact List.append_inj h (by rw [List.length_range'])
  · rintro ⟨h1, h2⟩
    rw [← h1, ← h2]

end Rindexer.Lib
