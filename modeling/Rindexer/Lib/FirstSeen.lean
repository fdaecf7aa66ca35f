import Mathlib.Data.List.Forall2
import Mathlib.Data.List.Nodup
import Mathlib.Data.List.Perm.Basic
import Mathlib.Tactic.Common
import Mathlib.Tactic.NormNum

/-! Lists that are gathered from others, each element where it is seen first: what is gathered, and
when the order of each of the others makes no difference. -/

namespace Rindexer.Lib

variable {α : Type} [DecidableEq α]

/-- The elements of a list that were not seen, after those that were. -/
def addUnseen (seen : List α) : List α → List α
  | [] => seen
  | a :: l => if a ∈ seen then addUnseen seen l else addUnseen (seen ++ [a]) l

theorem prefix_addUnseen (seen l : List α) : seen <+: addUnseen seen l := by
  induction l generalizing seen with
  | nil => exact List.prefix_rfl
  | cons a l ih =>
    rw [addUnseen]
    split
    · exact ih seen
    · exact (List.prefix_append seen [a]).trans (ih _)

theorem mem_addUnseen {seen l : List α} {a : α} : a ∈ addUnseen seen l ↔ a ∈ seen ∨ a ∈ l := by
  induction l generalizing seen with
  | nil => simp [addUnseen]
  | cons b l ih =>
    rw [addUnseen, List.mem_cons]
    split
    case isTrue hSeen =>
      rw [ih]
      constructor
      · rintro (h | h)
        · exact Or.inl h
        · exact Or.inr (Or.inr h)
      · rintro (h | rfl | h)
        · exact Or.inl h
        · exact Or.inl hSeen
        · exact Or.inr h
    case isFalse =>
      rw [ih, List.mem_append, List.mem_singleton, or_assoc]

theorem nodup_addUnseen {seen l : List α} (h : seen.Nodup) : (addUnseen seen l).Nodup := by
  induction l generalizing seen with
  | nil => exact h
  | cons a l ih =>
    rw [addUnseen]
    split
    · exact ih h
    case isFalse hSeen =>
      refine ih (List.nodup_append.mpr ⟨h, List.nodup_singleton a, ?_⟩)
      rintro x hx y hy rfl
      exact hSeen (List.mem_singleton.mp hy ▸ hx)

theorem addUnseen_append (seen l l' : List α) :
    addUnseen seen (l ++ l') = addUnseen (addUnseen seen l) l' := by
  induction l generalizing seen with
  | nil => rfl
  | cons a l ih =>
    rw [List.cons_append, addUnseen, addUnseen]
    split
    · exact ih seen
    · exact ih _

theorem addUnseen_of_subset {seen l : List α} (h : l ⊆ seen) : addUnseen seen l = seen := by
  induction l with
  | nil => rfl
  | cons a l ih =>
    rw [addUnseen, if_pos (h List.mem_cons_self)]
    exact ih fun x hx => h (List.mem_cons_of_mem a hx)

/-- A list with one unseen element adds that one. -/
theorem addUnseen_of_forall_eq {seen l : List α} {a : α} (ha : a ∈ l) (hSeen : a ∉ seen)
    (h : ∀ b ∈ l, b ∉ seen → b = a) : addUnseen seen l = seen ++ [a] := by
  induction l with
  | nil => exact absurd ha List.not_mem_nil
  | cons b l ih =>
    rw [addUnseen]
    split
    case isTrue hb =>
      refine ih ?_ fun c hc => h c (List.mem_cons_of_mem b hc)
      rcases List.mem_cons.mp ha with rfl | ha
      · exact absurd hb hSeen
      · exact ha
    case isFalse hb =>
      obtain rfl := h b List.mem_cons_self hb
      refine addUnseen_of_subset fun c hc => ?_
      by_cases hOld : c ∈ seen
      · exact List.mem_append_left _ hOld
      · rw [h c (List.mem_cons_of_mem b hc) hOld]
        exact List.mem_append_right _ (List.mem_singleton_self b)

/-- An unseen element that comes first is added first. -/
theorem prefix_addUnseen_cons {seen l : List α} {a : α} (h : a ∉ seen) :
    seen ++ [a] <+: addUnseen seen (a :: l) := by
  rw [addUnseen, if_neg h]
  exact prefix_addUnseen _ l

/-- The elements of several lists. -/
def firstSeen (seen : List α) (lists : List (List α)) : List α := addUnseen seen lists.flatten

@[simp] theorem firstSeen_nil (seen : List α) : firstSeen seen [] = seen := rfl

theorem firstSeen_cons (seen l : List α) (lists : List (List α)) :
    firstSeen seen (l :: lists) = firstSeen (addUnseen seen l) lists := by
  rw [firstSeen, List.flatten_cons, addUnseen_append]
  rfl

theorem firstSeen_append (seen : List α) (lists lists' : List (List α)) :
    firstSeen seen (lists ++ lists') = firstSeen (firstSeen seen lists) lists' := by
  rw [firstSeen, List.flatten_append, addUnseen_append]
  rfl

theorem mem_firstSeen {seen : List α} {lists : List (List α)} {a : α} :
    a ∈ firstSeen seen lists ↔ a ∈ seen ∨ ∃ l ∈ lists, a ∈ l := by
  rw [firstSeen, mem_addUnseen, List.mem_flatten]

theorem nodup_firstSeen (lists : List (List α)) : (firstSeen [] lists).Nodup :=
  nodup_addUnseen List.nodup_nil

theorem firstSeen_eq_nil_iff {lists : List (List α)} :
    firstSeen [] lists = [] ↔ ∀ l ∈ lists, l = [] := by
  simp only [List.eq_nil_iff_forall_not_mem, mem_firstSeen, List.not_mem_nil, false_or, not_exists,
    not_and]
  exact ⟨fun h l hl a ha => h a l hl ha, fun h a l hl ha => h l hl a ha⟩

/-- No list brings two elements that were not seen before. -/
def BringsOne (seen : List α) : List (List α) → Prop
  | [] => True
  | l :: lists =>
    (∀ a ∈ l, ∀ b ∈ l, a ∉ seen → b ∉ seen → a = b) ∧ BringsOne (addUnseen seen l) lists

theorem addUnseen_eq_of_perm {seen l l' : List α}
    (h : ∀ a ∈ l, ∀ b ∈ l, a ∉ seen → b ∉ seen → a = b) (hPerm : l.Perm l') :
    addUnseen seen l' = addUnseen seen l := by
  by_cases hSubset : l ⊆ seen
  · rw [addUnseen_of_subset hSubset, addUnseen_of_subset fun x hx => hSubset (hPerm.mem_iff.mpr hx)]
  · rw [List.subset_def] at hSubset
    push Not at hSubset
    obtain ⟨a, ha, hSeen⟩ := hSubset
    have hOnly : ∀ b ∈ l, b ∉ seen → b = a := fun b hb hNew => h b hb a ha hNew hSeen
    rw [addUnseen_of_forall_eq ha hSeen hOnly]
    exact addUnseen_of_forall_eq (hPerm.mem_iff.mp ha) hSeen
      fun b hb => hOnly b (hPerm.mem_iff.mpr hb)

/-- Lists that bring one element at most may each be in any order. -/
theorem firstSeen_eq_of_perm {seen : List α} {lists lists' : List (List α)}
    (h : BringsOne seen lists) (hPerm : List.Forall₂ List.Perm lists lists') :
    firstSeen seen lists' = firstSeen seen lists := by
  induction hPerm generalizing seen with
  | nil => rfl
  | cons hHead _ ih =>
    rw [firstSeen_cons, firstSeen_cons, addUnseen_eq_of_perm h.1 hHead]
    exact ih h.2

/-- Where one list brings two elements. -/
theorem exists_of_not_bringsOne {seen : List α} {lists : List (List α)}
    (h : ¬ BringsOne seen lists) : ∃ before l after, lists = before ++ l :: after ∧
      ∃ a ∈ l, ∃ b ∈ l, a ≠ b ∧ a ∉ firstSeen seen before ∧ b ∉ firstSeen seen before := by
  induction lists generalizing seen with
  | nil => exact absurd trivial h
  | cons l lists ih =>
    by_cases hHead : ∀ a ∈ l, ∀ b ∈ l, a ∉ seen → b ∉ seen → a = b
    · obtain ⟨before, l', after, rfl, hNew⟩ := ih fun hRest => h ⟨hHead, hRest⟩
      refine ⟨l :: before, l', after, rfl, ?_⟩
      rw [firstSeen_cons]
      exact hNew
    · push Not at hHead
      obtain ⟨a, ha, b, hb, hNewA, hNewB, hNe⟩ := hHead
      exact ⟨[], l, lists, rfl, a, ha, b, hb, hNe, hNewA, hNewB⟩

/-- A list that is gathered from others begins with the first of them that is new. -/
theorem prefix_firstSeen_of_head {seen : List α} {before after : List (List α)} {l : List α} {a : α}
    (h : a ∉ firstSeen seen before) :
    firstSeen seen before ++ [a] <+: firstSeen seen (before ++ (a :: l) :: after) := by
  rw [firstSeen_append, firstSeen_cons]
  exact (prefix_addUnseen_cons h).trans (prefix_addUnseen _ _)

end Rindexer.Lib
