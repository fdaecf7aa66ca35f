import Mathlib.Data.List.Chain
import Mathlib.Tactic.Common
import Mathlib.Tactic.NormNum

/-! A list that is cut from the front into groups, each as long as the sizes of its items total at most
a bound.  An item above the bound is a group of its own. -/

namespace Rindexer.Lib

section Grouping

variable {α : Type} (size : α → Nat) (bound : Nat)

def totalSize (items : List α) : Nat := (items.map size).sum

@[simp] theorem totalSize_singleton (item : α) : totalSize size [item] = size item := by
  simp [totalSize]

@[simp] theorem totalSize_append (items items' : List α) :
    totalSize size (items ++ items') = totalSize size items + totalSize size items' := by
  simp [totalSize]

/-- No group is empty, and none has room for the first item of the next. -/
structure CutGreedily (groups : List (List α)) : Prop where
  nonempty : ∀ g ∈ groups, g ≠ []
  fits : ∀ g ∈ groups, totalSize size g ≤ bound ∨ ∃ item, g = [item]
  full : groups.IsChain fun g g' => ∀ item ∈ g'.head?, bound < totalSize size g + size item

namespace CutGreedily

variable {size bound} {groups : List (List α)} {g : List α} {item : α}

theorem nil : CutGreedily size bound [] where
  nonempty _ h := absurd h List.not_mem_nil
  fits _ h := absurd h List.not_mem_nil
  full := List.IsChain.nil

theorem singleton (item : α) : CutGreedily size bound [[item]] where
  nonempty g h := by simp [List.mem_singleton.mp h]
  fits g h := .inr ⟨item, List.mem_singleton.mp h⟩
  full := List.IsChain.singleton _

theorem tail (h : CutGreedily size bound (g :: groups)) : CutGreedily size bound groups where
  nonempty g' hMem := h.nonempty g' (List.mem_cons_of_mem _ hMem)
  fits g' hMem := h.fits g' (List.mem_cons_of_mem _ hMem)
  full := h.full.tail

/-- A new group for an item that does not fit the last one. -/
theorem push (h : CutGreedily size bound (groups ++ [g])) (hFull : bound < totalSize size g + size item) :
    CutGreedily size bound (groups ++ [g] ++ [[item]]) where
  nonempty g' hMem := by
    rcases List.mem_append.mp hMem with hOld | hNew
    · exact h.nonempty g' hOld
    · simp [List.mem_singleton.mp hNew]
  fits g' hMem := by
    rcases List.mem_append.mp hMem with hOld | hNew
    · exact h.fits g' hOld
    · exact .inr ⟨item, List.mem_singleton.mp hNew⟩
  full := by
    refine List.isChain_append.mpr ⟨h.full, List.IsChain.singleton _, ?_⟩
    intro last hLast first hFirst
    simp only [List.getLast?_append, List.getLast?_singleton, Option.mem_def, Option.some_or,
      Option.some.injEq] at hLast
    cases hFirst
    subst hLast
    rintro _ ⟨⟩
    exact hFull

/-- An item that fits the last group. -/
theorem grow (h : CutGreedily size bound (groups ++ [g])) (hFits : totalSize size g + size item ≤ bound) :
    CutGreedily size bound (groups ++ [g ++ [item]]) where
  nonempty g' hMem := by
    rcases List.mem_append.mp hMem with hOld | hNew
    · exact h.nonempty g' (List.mem_append_left _ hOld)
    · simp [List.mem_singleton.mp hNew]
  fits g' hMem := by
    rcases List.mem_append.mp hMem with hOld | hNew
    · exact h.fits g' (List.mem_append_left _ hOld)
    · left
      rw [List.mem_singleton.mp hNew, totalSize_append, totalSize_singleton]
      exact hFits
  full := by
    obtain ⟨hGroups, -, hLink⟩ := List.isChain_append.mp h.full
    refine List.isChain_append.mpr ⟨hGroups, List.IsChain.singleton _, ?_⟩
    intro last hLast first hFirst first' hHead
    cases hFirst
    have hNonempty : g ≠ [] := h.nonempty g (by simp)
    obtain ⟨x, xs, rfl⟩ := List.exists_cons_of_ne_nil hNonempty
    exact hLink last hLast _ rfl first' hHead

/-- A group that goes on after another one holds the item for which that one has no room. -/
theorem not_longer {g' more : List α} {groups' : List (List α)} {x : α}
    (h : CutGreedily size bound (g :: groups)) (h' : CutGreedily size bound (g' :: groups'))
    (hText : g' = g ++ x :: more) (hHead : groups.flatten.head? = some x) : False := by
  have hLast : bound < totalSize size g + size x := by
    cases groups with
    | nil => cases hHead
    | cons next groups =>
      have hNext : next ≠ [] := h.nonempty next (by simp)
      obtain ⟨y, ys, rfl⟩ := List.exists_cons_of_ne_nil hNext
      cases hHead
      exact (List.isChain_cons_cons.mp h.full).1 x rfl
  have hNonempty : g ≠ [] := h.nonempty g (by simp)
  rcases h'.fits g' (by simp) with hFits | ⟨item, hOne⟩
  · have hTotal : totalSize size g' = totalSize size g + (size x + totalSize size more) := by
      rw [hText, totalSize_append]
      simp [totalSize]
    omega
  · obtain ⟨y, ys, rfl⟩ := List.exists_cons_of_ne_nil hNonempty
    rw [hText] at hOne
    simp at hOne

/-- There is one way to cut a list. -/
theorem unique {groups' : List (List α)} (h : CutGreedily size bound groups)
    (h' : CutGreedily size bound groups') (hSame : groups.flatten = groups'.flatten) :
    groups = groups' := by
  induction groups generalizing groups' with
  | nil =>
    cases groups' with
    | nil => rfl
    | cons g' groups' =>
      have hEmpty : g' = [] := (List.append_eq_nil_iff.mp hSame.symm).1
      exact absurd hEmpty (h'.nonempty g' (by simp))
  | cons g groups ih =>
    cases groups' with
    | nil =>
      have hEmpty : g = [] := (List.append_eq_nil_iff.mp hSame).1
      exact absurd hEmpty (h.nonempty g (by simp))
    | cons g' groups' =>
      rw [List.flatten_cons, List.flatten_cons] at hSame
      rcases List.append_eq_append_iff.mp hSame with ⟨more, hText, hRest⟩ | ⟨more, hText, hRest⟩
      · cases more with
        | nil =>
          rw [List.append_nil] at hText
          subst hText
          rw [ih h.tail h'.tail hRest]
        | cons x more => exact (not_longer h h' hText (by rw [hRest]; rfl)).elim
      · cases more with
        | nil =>
          rw [List.append_nil] at hText
          subst hText
          rw [ih h.tail h'.tail hRest.symm]
        | cons x more => exact (not_longer h' h hText (by rw [hRest]; rfl)).elim

end CutGreedily

end Grouping

end Rindexer.Lib
