import Mathlib.Tactic.Common
import Mathlib.Tactic.NormNum

/-! What holds of the characters of a text is decided on the text.  Where the decision for a predicate on
all characters is in scope too, it would run through every one of them.  The classes of characters are
given by their bounds. -/

namespace Rindexer.Lib

instance (priority := 2000) decidableForallMem (p : Char → Prop) [DecidablePred p] (s : List Char) :
    Decidable (∀ c ∈ s, p c) :=
  List.decidableBAll p s

instance (priority := 2000) decidableExistsMem (p : Char → Prop) [DecidablePred p] (s : List Char) :
    Decidable (∃ c, c ∈ s ∧ p c) :=
  List.decidableBEx p s

theorem isUpper_bounds (c : Char) : c.isUpper = decide (c.val ≥ 'A'.val ∧ c.val ≤ 'Z'.val) :=
  rfl

theorem isLower_bounds (c : Char) : c.isLower = (decide (c.val ≥ 'a'.val) && decide (c.val ≤ 'z'.val)) :=
  rfl

theorem isAlpha_cases (c : Char) : c.isAlpha = (c.isUpper || c.isLower) :=
  rfl

theorem toLower_of_not_isUpper {c : Char} (h : ¬ (c.val ≥ 'A'.val ∧ c.val ≤ 'Z'.val)) : c.toLower = c :=
  dif_neg h

theorem toLower_val_of_isUpper {c : Char} (h : c.val ≥ 'A'.val ∧ c.val ≤ 'Z'.val) :
    c.toLower.val = c.val + 32 := by
  have hCase := congrArg Char.val (dif_pos h : c.toLower = _)
  exact hCase

end Rindexer.Lib
