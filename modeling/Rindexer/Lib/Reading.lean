import Mathlib.Data.List.TakeWhile
import Rindexer.Lib.Parser

/-! What a parser takes from a text: the characters of a class. -/

namespace Rindexer.Lib

namespace Parser

variable {α β : Type}

/-- The parser takes a part of the text in front, all of whose characters are of a class. -/
def TakesOnly (f : Char → Bool) (p : Parser α) : Prop :=
  ∀ s a r, p s = some (a, r) → ∃ t, s = t ++ r ∧ ∀ c ∈ t, f c = true

namespace TakesOnly

variable {f : Char → Bool} {p : Parser α} {q : Parser β}

theorem mono {g : Char → Bool} (h : TakesOnly f p) (hfg : ∀ c, f c = true → g c = true) :
    TakesOnly g p := by
  intro s a r hp
  obtain ⟨t, hText, hAll⟩ := h s a r hp
  exact ⟨t, hText, fun c hc => hfg c (hAll c hc)⟩

theorem map {k : α → β} (h : TakesOnly f p) : TakesOnly f (p.map k) := by
  intro s b r hMap
  rw [Parser.map] at hMap
  rcases hp : p s with _ | ⟨a, r'⟩
  · simp [hp] at hMap
  · simp only [hp, Option.some.injEq, Prod.mk.injEq] at hMap
    obtain ⟨-, rfl⟩ := hMap
    exact h s a r' hp

theorem alt {p' : Parser α} (h : TakesOnly f p) (h' : TakesOnly f p') : TakesOnly f (alt p p') := by
  intro s a r hAlt
  rw [Parser.alt] at hAlt
  rcases hp : p s with _ | ⟨b, r'⟩
  · exact h' s a r (by simpa [hp] using hAlt)
  · simp only [hp, Option.some.injEq, Prod.mk.injEq] at hAlt
    obtain ⟨rfl, rfl⟩ := hAlt
    exact h s b r' hp

theorem andThen (h : TakesOnly f p) (h' : TakesOnly f q) : TakesOnly f (p.andThen q) := by
  intro s x r hBoth
  rw [Parser.andThen] at hBoth
  rcases hp : p s with _ | ⟨a, r'⟩
  · simp [hp] at hBoth
  · rcases hq : q r' with _ | ⟨b, r''⟩
    · simp [hp, hq] at hBoth
    · simp only [hp, hq, Option.some.injEq, Prod.mk.injEq] at hBoth
      obtain ⟨-, rfl⟩ := hBoth
      obtain ⟨t, rfl, hFirst⟩ := h s a r' hp
      obtain ⟨u, rfl, hSecond⟩ := h' r' b r'' hq
      refine ⟨t ++ u, by rw [List.append_assoc], fun c hc => ?_⟩
      exact (List.mem_append.mp hc).elim (hFirst c) (hSecond c)

theorem followedBy {peek : List Char → Bool} (h : TakesOnly f p) :
    TakesOnly f (p.followedBy peek) := by
  intro s a r hPeek
  rw [Parser.followedBy] at hPeek
  rcases hp : p s with _ | ⟨b, r'⟩
  · simp [hp] at hPeek
  · simp only [hp] at hPeek
    split at hPeek
    · cases hPeek
      exact h s a r hp
    · cases hPeek

theorem verify {check : α → Bool} (h : TakesOnly f p) : TakesOnly f (p.verify check) := by
  intro s a r hCheck
  rw [Parser.verify] at hCheck
  rcases hp : p s with _ | ⟨b, r'⟩
  · simp [hp] at hCheck
  · simp only [hp] at hCheck
    split at hCheck
    · cases hCheck
      exact h s a r hp
    · cases hCheck

theorem literal {l : List Char} (h : ∀ c ∈ l, f c = true) : TakesOnly f (literal l) := by
  intro s a r hLiteral
  rw [Parser.literal] at hLiteral
  split at hLiteral
  · next hPrefix =>
    obtain ⟨u, rfl⟩ := hPrefix
    simp only [List.drop_left, Option.some.injEq, Prod.mk.injEq] at hLiteral
    obtain ⟨-, rfl⟩ := hLiteral
    exact ⟨l, rfl, h⟩
  · cases hLiteral

theorem oneOf : TakesOnly f (oneOf f) := by
  intro s a r hOne
  cases s with
  | nil => cases hOne
  | cons c s =>
    rw [Parser.oneOf] at hOne
    split at hOne
    · next hc =>
      cases hOne
      exact ⟨[c], rfl, fun d hd => by rw [List.mem_singleton.mp hd, hc]⟩
    · cases hOne

theorem takeWhile0 : TakesOnly f (takeWhile0 f) := by
  intro s a r h
  cases h
  exact ⟨s.takeWhile f, List.takeWhile_append_dropWhile.symm, fun c hc => List.mem_takeWhile_imp hc⟩

theorem takeWhile1 : TakesOnly f (takeWhile1 f) := by
  intro s a r h
  rw [Parser.takeWhile1] at h
  split at h
  · cases h
  · exact takeWhile0 s a r h

theorem append {p q : Parser (List Char)} (h : TakesOnly f p) (h' : TakesOnly f q) :
    TakesOnly f (append p q) := (h.andThen h').map

theorem opt {p : Parser (List Char)} (h : TakesOnly f p) : TakesOnly f (opt p) := by
  intro s a r hOpt
  rw [Parser.opt] at hOpt
  rcases hp : p s with _ | ⟨b, r'⟩
  · simp only [hp, Option.some.injEq, Prod.mk.injEq] at hOpt
    obtain ⟨-, rfl⟩ := hOpt
    exact ⟨[], rfl, by simp⟩
  · simp only [hp, Option.some.injEq, Prod.mk.injEq] at hOpt
    obtain ⟨-, rfl⟩ := hOpt
    exact h s b r' hp

theorem fold {k : α → β → α} {acc : α} (h : TakesOnly f q) : TakesOnly f (fold q k acc) := by
  intro s a r hFold
  refine fold_sound (R := fun s r => ∃ t, s = t ++ r ∧ ∀ c ∈ t, f c = true)
    (fun s => ⟨[], rfl, by simp⟩) ?_ hFold
  rintro s b r r' hq ⟨u, rfl, hRest⟩
  obtain ⟨t, rfl, hFirst⟩ := h s b (u ++ r') hq
  refine ⟨t ++ u, by rw [List.append_assoc], fun c hc => ?_⟩
  exact (List.mem_append.mp hc).elim (hFirst c) (hRest c)

end TakesOnly

/-- Operands with operators between them are the first operand, or an operation. -/
theorem leftAssoc_cases {operator : Parser β} {operand : Parser α} {g : α → β → α → α}
    {s r : List Char} {a : α} (h : leftAssoc operator operand g s = some (a, r)) :
    operand s = some (a, r) ∨ ∃ left op right, a = g left op right := by
  have hMany : ∀ (n : Nat) (acc : α) (s : List Char),
      foldMany (operator.andThen operand) (fun acc x => g acc x.1 x.2) n acc s = some (a, r) →
        (a = acc ∧ r = s) ∨ ∃ left op right, a = g left op right := by
    intro n
    induction n with
    | zero =>
      intro acc s h
      cases h
    | succ n ih =>
      intro acc s h
      rw [foldMany] at h
      rcases hp : operator.andThen operand s with _ | ⟨x, r'⟩
      · simp only [hp, Option.some.injEq, Prod.mk.injEq] at h
        exact Or.inl ⟨h.1.symm, h.2.symm⟩
      · simp only [hp] at h
        split at h
        · rcases ih _ _ h with ⟨rfl, -⟩ | hOperation
          · exact Or.inr ⟨_, _, _, rfl⟩
          · exact Or.inr hOperation
        · cases h
  rw [leftAssoc] at h
  rcases hFirst : operand s with _ | ⟨left, r'⟩
  · simp [hFirst] at h
  · simp only [hFirst] at h
    rcases hMany _ _ _ h with ⟨rfl, rfl⟩ | hOperation
    · exact Or.inl rfl
    · exact Or.inr hOperation

end Parser

end Rindexer.Lib
