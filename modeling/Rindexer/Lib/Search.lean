import Mathlib.Data.List.Nodup
import Mathlib.Data.List.Perm.Basic
import Mathlib.Logic.Relation
import Mathlib.Tactic.Common
import Mathlib.Tactic.NormNum

/-! Depth-first search with one list of visited points: what a search from some roots finds, with
rules for no root, for a root that is visited, for a fresh root, and for one search after another;
and the number of points still to visit, which bounds the depth. -/

namespace Rindexer.Lib

variable {α : Type}

/-- `b` is a successor of `a`. -/
def Follows (next : α → List α) (a b : α) : Prop := b ∈ next a

/-- A search from `roots` that found `found` and went from `visited` to `visited'`. -/
structure Explored (next : α → List α) (roots visited found visited' : List α) : Prop where
  perm : visited'.Perm (found ++ visited)
  nodup : visited'.Nodup
  reached : ∀ x ∈ found, ∃ r ∈ roots, Relation.ReflTransGen (Follows next) r x
  roots_mem : ∀ r ∈ roots, r ∈ visited'
  closed : ∀ x ∈ found, ∀ y ∈ next x, y ∈ visited'

namespace Explored

variable {next : α → List α} {roots visited found visited' : List α}

theorem subset (h : Explored next roots visited found visited') : visited ⊆ visited' :=
  fun _ hx => h.perm.mem_iff.mpr (List.mem_append_right _ hx)

theorem found_subset (h : Explored next roots visited found visited') : found ⊆ visited' :=
  fun _ hx => h.perm.mem_iff.mpr (List.mem_append_left _ hx)

theorem found_nodup (h : Explored next roots visited found visited') : found.Nodup :=
  (List.nodup_append.mp (h.perm.nodup_iff.mp h.nodup)).1

/-- What a search finds was not visited before. -/
theorem found_fresh (h : Explored next roots visited found visited') {x : α} (hx : x ∈ found) :
    x ∉ visited :=
  fun hv => (List.nodup_append.mp (h.perm.nodup_iff.mp h.nodup)).2.2 x hx x hv rfl

theorem of_perm {found2 : List α} (h : Explored next roots visited found visited')
    (hp : found2.Perm found) : Explored next roots visited found2 visited' where
  perm := h.perm.trans (hp.symm.append_right _)
  nodup := h.nodup
  reached := fun x hx => h.reached x (hp.mem_iff.mp hx)
  roots_mem := h.roots_mem
  closed := fun x hx => h.closed x (hp.mem_iff.mp hx)

theorem nil (h : visited.Nodup) : Explored next [] visited [] visited where
  perm := List.Perm.refl _
  nodup := h
  reached := fun _ hx => absurd hx List.not_mem_nil
  roots_mem := fun _ hr => absurd hr List.not_mem_nil
  closed := fun _ hx => absurd hx List.not_mem_nil

/-- A root that is visited already leads nowhere. -/
theorem old {r : α} (h : visited.Nodup) (hr : r ∈ visited) :
    Explored next [r] visited [] visited where
  perm := List.Perm.refl _
  nodup := h
  reached := fun _ hx => absurd hx List.not_mem_nil
  roots_mem := fun _ hr' => List.mem_singleton.mp hr' ▸ hr
  closed := fun _ hx => absurd hx List.not_mem_nil

/-- A fresh root is found, and after it what is found from its successors. -/
theorem fresh {r : α} (h : Explored next (next r) (r :: visited) found visited') :
    Explored next [r] visited (r :: found) visited' where
  perm := h.perm.trans List.perm_middle
  nodup := h.nodup
  reached := by
    intro x hx
    refine ⟨r, List.mem_singleton_self r, ?_⟩
    rcases List.mem_cons.mp hx with rfl | hx
    · exact Relation.ReflTransGen.refl
    · obtain ⟨s, hs, hPath⟩ := h.reached x hx
      exact Relation.ReflTransGen.head hs hPath
  roots_mem := by
    intro s hs
    rw [List.mem_singleton.mp hs]
    exact h.subset List.mem_cons_self
  closed := by
    intro x hx y hy
    rcases List.mem_cons.mp hx with rfl | hx
    · exact h.roots_mem y hy
    · exact h.closed x hx y hy

/-- One search after another. -/
theorem append {roots2 found2 visited2 : List α} (h : Explored next roots visited found visited')
    (h2 : Explored next roots2 visited' found2 visited2) :
    Explored next (roots ++ roots2) visited (found ++ found2) visited2 where
  perm := by
    calc visited2.Perm (found2 ++ visited') := h2.perm
      _ |>.Perm (found2 ++ (found ++ visited)) := h.perm.append_left _
      _ |>.Perm ((found2 ++ found) ++ visited) := by rw [List.append_assoc]
      _ |>.Perm ((found ++ found2) ++ visited) := List.perm_append_comm.append_right _
  nodup := h2.nodup
  reached := by
    intro x hx
    rcases List.mem_append.mp hx with hx | hx
    · obtain ⟨r, hr, hPath⟩ := h.reached x hx
      exact ⟨r, List.mem_append_left _ hr, hPath⟩
    · obtain ⟨r, hr, hPath⟩ := h2.reached x hx
      exact ⟨r, List.mem_append_right _ hr, hPath⟩
  roots_mem := by
    intro r hr
    rcases List.mem_append.mp hr with hr | hr
    · exact h2.subset (h.roots_mem r hr)
    · exact h2.roots_mem r hr
  closed := by
    intro x hx y hy
    rcases List.mem_append.mp hx with hx | hx
    · exact h2.subset (h.closed x hx y hy)
    · exact h2.closed x hx y hy

end Explored

/-! ### The points still to visit -/

variable [DecidableEq α]

/-- How many entries of `points` are not visited. -/
def unvisited (points visited : List α) : Nat := points.countP (· ∉ visited)

theorem unvisited_mono (points : List α) {visited visited' : List α} (h : visited ⊆ visited') :
    unvisited points visited' ≤ unvisited points visited := by
  refine List.countP_mono_left fun x _ hx => ?_
  simp only [decide_eq_true_eq] at hx ⊢
  exact fun hv => hx (h hv)

/-- Visiting a fresh point leaves fewer. -/
theorem unvisited_cons_lt {points visited : List α} {x : α} (hx : x ∈ points)
    (hFresh : x ∉ visited) : unvisited points (x :: visited) < unvisited points visited := by
  obtain ⟨before, after, rfl⟩ := List.append_of_mem hx
  have hBefore := unvisited_mono before (List.subset_cons_self x visited)
  have hAfter := unvisited_mono after (List.subset_cons_self x visited)
  simp only [unvisited, List.countP_append, List.countP_cons] at hBefore hAfter ⊢
  have hNew : decide (x ∉ x :: visited) = false := by simp
  have hOld : decide (x ∉ visited) = true := by simpa using hFresh
  rw [hNew, hOld]
  simp only [Bool.false_eq_true, if_false, if_true]
  omega

end Rindexer.Lib
