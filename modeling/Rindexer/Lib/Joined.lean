import Mathlib.Data.List.Basic
import Mathlib.Tactic.Common
import Mathlib.Tactic.NormNum
import Rindexer.Lib.Characters

/-! Texts joined with a separator.  Parts without the separator can be read back: two joins are equal
only if their parts are. -/

namespace Rindexer.Lib

variable {α β : Type}

/-- The parts in order, with the separator between them. -/
def joinWith (separator : α) : List (List α) → List α
  | [] => []
  | [part] => part
  | part :: next :: parts => part ++ separator :: joinWith separator (next :: parts)

@[simp] theorem joinWith_nil (separator : α) : joinWith separator [] = [] := rfl

@[simp] theorem joinWith_singleton (separator : α) (part : List α) :
    joinWith separator [part] = part := rfl

theorem joinWith_cons (separator : α) (part : List α) {parts : List (List α)} (h : parts ≠ []) :
    joinWith separator (part :: parts) = part ++ separator :: joinWith separator parts := by
  cases parts with
  | nil => exact absurd rfl h
  | cons next parts => rfl

theorem map_joinWith (f : α → β) (separator : α) (parts : List (List α)) :
    (joinWith separator parts).map f = joinWith (f separator) (parts.map (List.map f)) := by
  induction parts with
  | nil => rfl
  | cons part parts ih =>
    by_cases h : parts = []
    · subst h
      rfl
    · rw [joinWith_cons separator part h, List.map_append, List.map_cons, ih, List.map_cons,
        joinWith_cons _ _ (by simpa using h)]

/-- A join of joins is one join. -/
theorem joinWith_append (separator : α) {parts1 parts2 : List (List α)} (h1 : parts1 ≠ [])
    (h2 : parts2 ≠ []) : joinWith separator (parts1 ++ parts2) =
      joinWith separator parts1 ++ separator :: joinWith separator parts2 := by
  induction parts1 with
  | nil => exact absurd rfl h1
  | cons part parts ih =>
    by_cases h : parts = []
    · subst h
      exact joinWith_cons separator part h2
    · rw [List.cons_append, joinWith_cons _ _ (by simp [h]), ih h, joinWith_cons _ _ h,
        List.append_assoc, List.cons_append]

theorem mem_joinWith {separator x : α} {parts : List (List α)} (h : x ∈ joinWith separator parts) :
    x = separator ∨ ∃ part ∈ parts, x ∈ part := by
  induction parts with
  | nil => cases h
  | cons part parts ih =>
    by_cases hEnd : parts = []
    · subst hEnd
      exact .inr ⟨part, List.mem_cons_self, h⟩
    · rw [joinWith_cons _ _ hEnd] at h
      rcases List.mem_append.mp h with h | h
      · exact .inr ⟨part, List.mem_cons_self, h⟩
      · rcases List.mem_cons.mp h with rfl | h
        · exact .inl rfl
        · rcases ih h with rfl | ⟨p, hp, hx⟩
          · exact .inl rfl
          · exact .inr ⟨p, List.mem_cons_of_mem _ hp, hx⟩

/-- Pairs that are written with the separator inside, too, join to a join of their halves. -/
theorem joinWith_pairs (separator : α) (pairs : List (List α × List α)) :
    joinWith separator (pairs.map fun p => p.1 ++ separator :: p.2) =
      joinWith separator (pairs.flatMap fun p => [p.1, p.2]) := by
  induction pairs with
  | nil => rfl
  | cons p pairs ih =>
    cases pairs with
    | nil => rfl
    | cons q pairs =>
      calc joinWith separator ((p :: q :: pairs).map fun p => p.1 ++ separator :: p.2)
          = (p.1 ++ separator :: p.2) ++
              separator :: joinWith separator ((q :: pairs).flatMap fun p => [p.1, p.2]) := by
            rw [← ih]
            rfl
        _ = joinWith separator ([p.1, p.2] ++ (q :: pairs).flatMap fun p => [p.1, p.2]) :=
            (@joinWith_append _ separator [p.1, p.2] _ (by simp) (List.cons_ne_nil _ _)).symm

/-- What stands before the first separator, and what stands after it. -/
theorem append_separator_inj {separator : α} {a b r s : List α} (ha : separator ∉ a)
    (hb : separator ∉ b) (h : a ++ separator :: r = b ++ separator :: s) : a = b ∧ r = s := by
  induction a generalizing b with
  | nil =>
    cases b with
    | nil => exact ⟨rfl, (List.cons.inj h).2⟩
    | cons x b =>
      obtain ⟨rfl, -⟩ := List.cons.inj h
      exact absurd List.mem_cons_self hb
  | cons x a ih =>
    cases b with
    | nil =>
      obtain ⟨rfl, -⟩ := List.cons.inj h
      exact absurd List.mem_cons_self ha
    | cons y b =>
      obtain ⟨rfl, hTail⟩ := List.cons.inj h
      obtain ⟨rfl, hRest⟩ := ih (fun hx => ha (List.mem_cons_of_mem _ hx))
        (fun hx => hb (List.mem_cons_of_mem _ hx)) hTail
      exact ⟨rfl, hRest⟩

/-- What stands before the last separator, which one it is, and what stands after it. -/
theorem append_cons_inj_of_last {p : α → Prop} {a b r s : List α} {x y : α} (hx : p x) (hy : p y)
    (hr : ∀ z ∈ r, ¬ p z) (hs : ∀ z ∈ s, ¬ p z) (h : a ++ x :: r = b ++ y :: s) :
    a = b ∧ x = y ∧ r = s := by
  rcases List.append_eq_append_iff.mp h with ⟨m, hb, hm⟩ | ⟨m, ha, hm⟩
  · cases m with
    | nil =>
      rw [List.append_nil] at hb
      obtain ⟨rfl, rfl⟩ := List.cons.inj hm
      exact ⟨hb.symm, rfl, rfl⟩
    | cons z m =>
      obtain ⟨-, rfl⟩ := List.cons.inj hm
      exact absurd hy (hr y (List.mem_append_right m List.mem_cons_self))
  · cases m with
    | nil =>
      rw [List.append_nil] at ha
      obtain ⟨rfl, rfl⟩ := List.cons.inj hm
      exact ⟨ha, rfl, rfl⟩
    | cons z m =>
      obtain ⟨-, rfl⟩ := List.cons.inj hm
      exact absurd hx (hs x (List.mem_append_right m List.mem_cons_self))

/-- Two splits of one text at separators, the later of which may stand in either half. -/
theorem append_separator_eq_iff {separator : α} {a b c d : List α} :
    a ++ separator :: b = c ++ separator :: d ↔
      (a = c ∧ b = d) ∨ (∃ m, a = c ++ separator :: m ∧ d = m ++ separator :: b) ∨
        ∃ m, c = a ++ separator :: m ∧ b = m ++ separator :: d := by
  constructor
  · intro h
    rcases List.append_eq_append_iff.mp h with ⟨m, hc, hb⟩ | ⟨m, ha, hd⟩
    · cases m with
      | nil =>
        rw [List.append_nil] at hc
        exact .inl ⟨hc.symm, (List.cons.inj hb).2⟩
      | cons x m =>
        obtain ⟨rfl, hTail⟩ := List.cons.inj hb
        exact .inr (.inr ⟨m, hc, hTail⟩)
    · cases m with
      | nil =>
        rw [List.append_nil] at ha
        exact .inl ⟨ha, (List.cons.inj hd).2.symm⟩
      | cons x m =>
        obtain ⟨rfl, hTail⟩ := List.cons.inj hd
        exact .inr (.inl ⟨m, ha, hTail⟩)
  · rintro (⟨rfl, rfl⟩ | ⟨m, rfl, rfl⟩ | ⟨m, rfl, rfl⟩)
    · rfl
    · rw [List.append_assoc, List.cons_append]
    · rw [List.append_assoc, List.cons_append]

/-- Nonempty joins of parts without the separator are equal only if the parts are. -/
theorem joinWith_inj {separator : α} {parts1 parts2 : List (List α)} (h1 : parts1 ≠ [])
    (h2 : parts2 ≠ []) (hFree1 : ∀ part ∈ parts1, separator ∉ part)
    (hFree2 : ∀ part ∈ parts2, separator ∉ part)
    (h : joinWith separator parts1 = joinWith separator parts2) : parts1 = parts2 := by
  induction parts1 generalizing parts2 with
  | nil => exact absurd rfl h1
  | cons p parts1 ih =>
    obtain ⟨q, parts2, rfl⟩ := List.exists_cons_of_ne_nil h2
    have hp := hFree1 p List.mem_cons_self
    have hq := hFree2 q List.mem_cons_self
    by_cases hEnd1 : parts1 = []
    · subst hEnd1
      by_cases hEnd2 : parts2 = []
      · subst hEnd2
        rw [joinWith_singleton, joinWith_singleton] at h
        rw [h]
      · rw [joinWith_cons _ _ hEnd2, joinWith_singleton] at h
        exact absurd (h ▸ List.mem_append_right q List.mem_cons_self) hp
    · by_cases hEnd2 : parts2 = []
      · subst hEnd2
        rw [joinWith_cons _ _ hEnd1, joinWith_singleton] at h
        exact absurd (h.symm ▸ List.mem_append_right p List.mem_cons_self) hq
      · rw [joinWith_cons _ _ hEnd1, joinWith_cons _ _ hEnd2] at h
        obtain ⟨rfl, hRest⟩ := append_separator_inj hp hq h
        rw [ih hEnd1 hEnd2 (fun part hm => hFree1 part (List.mem_cons_of_mem _ hm))
          (fun part hm => hFree2 part (List.mem_cons_of_mem _ hm)) hRest]

end Rindexer.Lib
