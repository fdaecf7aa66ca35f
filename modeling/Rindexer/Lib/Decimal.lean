import Mathlib.Tactic.Common
import Mathlib.Tactic.NormNum

/-! Numbers in decimal: what characters they are written with, and that the text determines them. -/

namespace Rindexer.Lib

theorem toList_toString_nat (n : Nat) : (toString n).toList = Nat.toDigits 10 n := by
  rw [Nat.toString_eq_ofList_toDigits, String.toList_ofList]

theorem isDigit_of_mem_toString {n : Nat} {c : Char} (h : c ∈ (toString n).toList) :
    c.isDigit = true := by
  rw [toList_toString_nat] at h
  exact Nat.isDigit_of_mem_toDigits (by omega) (by omega) h

theorem toString_nat_inj {m n : Nat} (h : (toString m).toList = (toString n).toList) : m = n := by
  rw [toList_toString_nat, toList_toString_nat] at h
  have hNumber := congrArg (fun digits => Nat.ofDigitChars 10 digits 0) h
  simpa using hNumber

theorem toList_toString_negSucc (n : Nat) :
    (toString (Int.negSucc n)).toList = '-' :: (toString (n + 1)).toList := by
  have hText : toString (Int.negSucc n) = "-" ++ toString (n + 1) := rfl
  rw [hText, String.toList_append]
  rfl

theorem digit_or_minus_of_mem_toString {n : Int} {c : Char} (h : c ∈ (toString n).toList) :
    c.isDigit = true ∨ c = '-' := by
  cases n with
  | ofNat n => exact Or.inl (isDigit_of_mem_toString h)
  | negSucc n =>
    rw [toList_toString_negSucc] at h
    rcases List.mem_cons.mp h with rfl | h
    · exact Or.inr rfl
    · exact Or.inl (isDigit_of_mem_toString h)

theorem toString_int_inj {m n : Int} (h : (toString m).toList = (toString n).toList) : m = n := by
  -- a text of digits does not start with the sign
  have hSign : ∀ {a b : Nat}, (toString a).toList ≠ '-' :: (toString (b + 1)).toList := by
    intro a b hEq
    have hMem : '-' ∈ (toString a).toList := by
      rw [hEq]
      exact List.mem_cons_self
    exact absurd (isDigit_of_mem_toString hMem) (by decide)
  cases m with
  | ofNat m =>
    cases n with
    | ofNat n => exact congrArg Int.ofNat (toString_nat_inj h)
    | negSucc n => exact absurd (h.trans (toList_toString_negSucc n)) hSign
  | negSucc m =>
    cases n with
    | ofNat n => exact absurd (h.symm.trans (toList_toString_negSucc m)) hSign
    | negSucc n =>
      rw [toList_toString_negSucc, toList_toString_negSucc] at h
      have hSucc := toString_nat_inj (List.cons.inj h).2
      rw [Nat.succ.inj hSucc]

end Rindexer.Lib
