import Mathlib.Tactic.Common
import Mathlib.Tactic.NormNum
import Rindexer.Lib.Characters

/-! Parsers that backtrack: a parser fails and takes nothing, or takes a part of the text.

Parsers of pieces of text give back what they have taken. -/

namespace Rindexer.Lib

abbrev Parser (α : Type) := List Char → Option (α × List Char)

namespace Parser

variable {α β γ : Type}

def map (f : α → β) (p : Parser α) : Parser β := fun s =>
  match p s with
  | none => none
  | some (a, r) => some (f a, r)

def alt (p q : Parser α) : Parser α := fun s =>
  match p s with
  | none => q s
  | some (a, r) => some (a, r)

def andThen (p : Parser α) (q : Parser β) : Parser (α × β) := fun s =>
  match p s with
  | none => none
  | some (a, r) =>
    match q r with
    | none => none
    | some (b, r') => some ((a, b), r')

/-- A parser after which the text has to go on in some way. -/
def followedBy (p : Parser α) (peek : List Char → Bool) : Parser α := fun s =>
  match p s with
  | none => none
  | some (a, r) => if peek r then some (a, r) else none

def verify (p : Parser α) (check : α → Bool) : Parser α := fun s =>
  match p s with
  | none => none
  | some (a, r) => if check a then some (a, r) else none

/-! ### Pieces of text -/

def oneOf (f : Char → Bool) : Parser (List Char)
  | [] => none
  | c :: s => if f c then some ([c], s) else none

def literal (l : List Char) : Parser (List Char) := fun s =>
  if l <+: s then some (l, s.drop l.length) else none

def takeWhile0 (f : Char → Bool) : Parser (List Char) := fun s =>
  some (s.takeWhile f, s.dropWhile f)

def takeWhile1 (f : Char → Bool) : Parser (List Char) := fun s =>
  if s.takeWhile f = [] then none else some (s.takeWhile f, s.dropWhile f)

def append (p q : Parser (List Char)) : Parser (List Char) := (p.andThen q).map fun x => x.1 ++ x.2

def opt (p : Parser (List Char)) : Parser (List Char) := fun s =>
  match p s with
  | none => some ([], s)
  | some (a, r) => some (a, r)

/-! ### Repetition -/

/-- Runs a parser as often as it succeeds; a run that takes nothing is an error.  The bound is for
texts that are no longer. -/
def foldMany (p : Parser β) (f : α → β → α) : Nat → α → Parser α
  | 0, _, _ => none
  | n + 1, acc, s =>
    match p s with
    | none => some (acc, s)
    | some (b, r) => if r.length < s.length then foldMany p f n (f acc b) r else none

def fold (p : Parser β) (f : α → β → α) (acc : α) : Parser α := fun s =>
  foldMany p f (s.length + 1) acc s

/-- Operands with operators between them, from left to right. -/
def leftAssoc (operator : Parser β) (operand : Parser α) (f : α → β → α → α) : Parser α := fun s =>
  match operand s with
  | none => none
  | some (left, r) => fold (operator.andThen operand) (fun acc x => f acc x.1 x.2) left r

/-! ### Where a piece of text ends -/

/-- The text does not go on with a character of a class. -/
def Stops (f : Char → Bool) (s : List Char) : Prop := ∀ c ∈ s.head?, f c = false

theorem stops_nil {f : Char → Bool} : Stops f [] := fun _ h => by cases h

theorem stops_cons {f : Char → Bool} {c : Char} {s : List Char} : Stops f (c :: s) ↔ f c = false := by
  simp [Stops]

theorem takeWhile_append_stops {f : Char → Bool} {l r : List Char} (hl : ∀ c ∈ l, f c = true)
    (hr : Stops f r) : (l ++ r).takeWhile f = l := by
  rw [List.takeWhile_append_of_pos hl]
  cases r with
  | nil => simp
  | cons c r => rw [List.takeWhile_cons_of_neg (by simp [stops_cons.mp hr]), List.append_nil]

theorem dropWhile_append_stops {f : Char → Bool} {l r : List Char} (hl : ∀ c ∈ l, f c = true)
    (hr : Stops f r) : (l ++ r).dropWhile f = r := by
  rw [List.dropWhile_append_of_pos hl]
  cases r with
  | nil => rfl
  | cons c r => rw [List.dropWhile_cons_of_neg (by simp [stops_cons.mp hr])]

theorem stops_append {f : Char → Bool} {l r : List Char} (hl : Stops f l) (hr : l = [] → Stops f r) :
    Stops f (l ++ r) := by
  cases l with
  | nil => exact hr rfl
  | cons c l => exact stops_cons.mpr (stops_cons.mp hl)

section Pieces

variable {f : Char → Bool} {l r : List Char}

theorem literal_append : literal l (l ++ r) = some (l, r) := by
  simp [literal]

theorem takeWhile0_append (hl : ∀ c ∈ l, f c = true) (hr : Stops f r) :
    takeWhile0 f (l ++ r) = some (l, r) := by
  rw [takeWhile0, takeWhile_append_stops hl hr, dropWhile_append_stops hl hr]

theorem takeWhile1_append (hl : ∀ c ∈ l, f c = true) (hNonempty : l ≠ []) (hr : Stops f r) :
    takeWhile1 f (l ++ r) = some (l, r) := by
  rw [takeWhile1, takeWhile_append_stops hl hr, dropWhile_append_stops hl hr, if_neg hNonempty]

theorem takeWhile1_stops {s : List Char} (h : Stops f s) : takeWhile1 f s = none := by
  rw [takeWhile1, if_pos]
  exact takeWhile_append_stops (l := []) (by simp) h

theorem oneOf_stops {s : List Char} (h : Stops f s) : oneOf f s = none := by
  cases s with
  | nil => rfl
  | cons c s => simp [oneOf, stops_cons.mp h]

theorem append_eq {p q : Parser (List Char)} {s a b r r' : List Char} (hp : p s = some (a, r))
    (hq : q r = some (b, r')) : append p q s = some (a ++ b, r') := by
  simp [append, map, andThen, hp, hq]

theorem append_none {p q : Parser (List Char)} {s : List Char} (hp : p s = none) :
    append p q s = none := by
  simp [append, map, andThen, hp]

end Pieces

/-! ### Runs of a repetition -/

section Fold

variable {p : Parser β} {f : α → β → α}

theorem foldMany_bound {n m : Nat} {s : List Char} {acc : α} (hn : s.length < n) (hm : s.length < m) :
    foldMany p f n acc s = foldMany p f m acc s := by
  induction n generalizing m s acc with
  | zero => omega
  | succ n ih =>
    cases m with
    | zero => omega
    | succ m =>
      rw [foldMany, foldMany]
      rcases p s with _ | ⟨b, r⟩
      · rfl
      · simp only
        split
        · exact ih (by omega) (by omega)
        · rfl

theorem fold_done {acc : α} {s : List Char} (h : p s = none) : fold p f acc s = some (acc, s) := by
  rw [fold, foldMany, h]

theorem fold_step {acc : α} {b : β} {s r : List Char} (h : p s = some (b, r))
    (hLength : r.length < s.length) : fold p f acc s = fold p f (f acc b) r := by
  rw [fold, foldMany, h]
  simp only
  rw [if_pos hLength]
  exact foldMany_bound (by omega) (by omega)

/-- What every run keeps holds between the text and the rest. -/
theorem fold_sound {R : List Char → List Char → Prop} (hRefl : ∀ s, R s s)
    (hStep : ∀ s b r r', p s = some (b, r) → R r r' → R s r') {acc v : α} {s r : List Char}
    (h : fold p f acc s = some (v, r)) : R s r := by
  have hMany : ∀ (n : Nat) (acc : α) (s : List Char), foldMany p f n acc s = some (v, r) → R s r := by
    intro n
    induction n with
    | zero =>
      intro acc s h
      cases h
    | succ n ih =>
      intro acc s h
      rw [foldMany] at h
      rcases hp : p s with _ | ⟨b, r'⟩
      · simp only [hp, Option.some.injEq, Prod.mk.injEq] at h
        rw [h.2]
        exact hRefl r
      · simp only [hp] at h
        split at h
        · exact hStep s b r' r hp (ih _ _ h)
        · cases h
  exact hMany _ acc s h

variable {operator : Parser β} {operand : Parser α} {g : α → β → α → α}

theorem leftAssoc_first {left : α} {s r : List Char} (h : operand s = some (left, r)) :
    leftAssoc operator operand g s =
      fold (operator.andThen operand) (fun acc x => g acc x.1 x.2) left r := by
  rw [leftAssoc, h]

theorem leftAssoc_none {s : List Char} (h : operand s = none) :
    leftAssoc operator operand g s = none := by
  rw [leftAssoc, h]

theorem andThen_none {s : List Char} (h : operator s = none) : operator.andThen operand s = none := by
  rw [andThen, h]

end Fold

/-! ### Levels of precedence

A parser `P l` for each level: operands of the next level with operators of the level between them, up
to a top level. -/

section Levels

variable (operatorAt : Nat → Parser β) (g : α → β → α → α) (P : Nat → Parser α) (top : Nat)

/-- What the parser of a level does after a first operand. -/
def continueAt (l : Nat) (acc : α) : Parser α := fun s =>
  if l < top then fold ((operatorAt l).andThen (P (l + 1))) (fun acc x => g acc x.1 x.2) acc s
  else some (acc, s)

variable {operatorAt g P top} {l : Nat} {e : α} {s r : List Char}

theorem continueAt_done (h : l < top → operatorAt l r = none) :
    continueAt operatorAt g P top l e r = some (e, r) := by
  rw [continueAt]
  split
  · next hl => exact fold_done (andThen_none (h hl))
  · rfl

/-- What a level reads as one operand is a first operand for the levels below. -/
theorem descend (hP : ∀ l < top, P l = leftAssoc (operatorAt l) (P (l + 1)) g) {k : Nat} (hLe : l ≤ k)
    (hTop : k ≤ top) (hDone : ∀ j, l < j → j < top → operatorAt j r = none)
    (h : P k s = continueAt operatorAt g P top k e r) :
    P l s = continueAt operatorAt g P top l e r := by
  induction k with
  | zero =>
    cases Nat.le_zero.mp hLe
    exact h
  | succ k ih =>
    rcases Nat.lt_or_ge l (k + 1) with hLt | hGe
    · refine ih (by omega) (by omega) ?_
      rw [continueAt_done fun hk => hDone (k + 1) hLt hk] at h
      rw [hP k (by omega), leftAssoc_first h, continueAt, if_pos (by omega)]
    · cases Nat.le_antisymm hLe hGe
      exact h

theorem continue_binary (hl : l < top) {left right : α} {op : β} {r' r'' : List Char}
    (hLeft : P l s = continueAt operatorAt g P top l left r) (hOp : operatorAt l r = some (op, r'))
    (hRight : P (l + 1) r' = some (right, r'')) (hLength : r''.length < r.length) :
    P l s = continueAt operatorAt g P top l (g left op right) r'' := by
  have hStep : (operatorAt l).andThen (P (l + 1)) r = some ((op, right), r'') := by
    rw [andThen, hOp]
    simp only [hRight]
  rw [hLeft, continueAt, continueAt, if_pos hl, if_pos hl, fold_step hStep hLength]

end Levels

end Parser

end Rindexer.Lib
