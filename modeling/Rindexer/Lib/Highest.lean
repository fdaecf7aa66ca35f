import Mathlib.Data.Finset.Max
import Mathlib.Tactic.Common
import Mathlib.Tactic.NormNum

/-! The highest elements of a finite set, a given number of them.  Nothing is lost by keeping only
these on the way: adding elements and cutting again gives the highest elements of all. -/

namespace Rindexer.Lib

variable {α : Type} [LinearOrder α]

/-- The elements of a set that have fewer than `k` greater ones in it. -/
def highest (k : Nat) (s : Finset α) : Finset α := s.filter fun x => (s.filter (x < ·)).card < k

theorem mem_highest {k : Nat} {s : Finset α} {x : α} :
    x ∈ highest k s ↔ x ∈ s ∧ (s.filter (x < ·)).card < k := Finset.mem_filter

theorem highest_subset (k : Nat) (s : Finset α) : highest k s ⊆ s := Finset.filter_subset _ _

theorem highest_upper {k : Nat} {s : Finset α} {x y : α} (hx : x ∈ highest k s) (hy : y ∈ s)
    (hLe : x ≤ y) : y ∈ highest k s := by
  refine mem_highest.mpr ⟨hy, lt_of_le_of_lt (Finset.card_le_card ?_) (mem_highest.mp hx).2⟩
  exact Finset.monotone_filter_right _ fun z _ hz => lt_of_le_of_lt hLe hz

/-- What is not among the highest is below all of them. -/
theorem lt_of_notMem_highest {k : Nat} {s : Finset α} {x y : α} (hx : x ∈ highest k s) (hy : y ∈ s)
    (hNot : y ∉ highest k s) : y < x := by
  by_contra hLe
  exact hNot (highest_upper hx hy (not_lt.mp hLe))

theorem card_highest_le (k : Nat) (s : Finset α) : (highest k s).card ≤ k := by
  rcases (highest k s).eq_empty_or_nonempty with hEmpty | hSome
  · rw [hEmpty]
    exact Nat.zero_le k
  · -- All but the least of them are above it.
    have hLeast := (highest k s).min'_mem hSome
    have hAbove : (highest k s).erase ((highest k s).min' hSome) ⊆
        s.filter ((highest k s).min' hSome < ·) := by
      intro y hy
      obtain ⟨hne, hMem⟩ := Finset.mem_erase.mp hy
      refine Finset.mem_filter.mpr ⟨highest_subset k s hMem, ?_⟩
      exact lt_of_le_of_ne ((highest k s).min'_le y hMem) hne.symm
    have hFew := (mem_highest.mp hLeast).2
    have hCard := Finset.card_le_card hAbove
    rw [Finset.card_erase_of_mem hLeast] at hCard
    omega

theorem highest_of_card_le {k : Nat} {s : Finset α} (h : s.card ≤ k) : highest k s = s := by
  refine Finset.Subset.antisymm (highest_subset k s) fun x hx => mem_highest.mpr ⟨hx, ?_⟩
  refine lt_of_lt_of_le (Finset.card_lt_card ?_) h
  exact Finset.filter_ssubset.mpr ⟨x, hx, lt_irrefl x⟩

theorem highest_eq_self_iff {k : Nat} {s : Finset α} : highest k s = s ↔ s.card ≤ k :=
  ⟨fun h => h ▸ card_highest_le k s, highest_of_card_le⟩

/-- Where an element is not among the highest, there are as many of these as there may be. -/
theorem le_card_highest {k : Nat} {s : Finset α} {y : α} (hy : y ∈ s) (hNot : y ∉ highest k s) :
    k ≤ (highest k s).card := by
  have hSome : (s \ highest k s).Nonempty := ⟨y, Finset.mem_sdiff.mpr ⟨hy, hNot⟩⟩
  obtain ⟨hMem, hOut⟩ := Finset.mem_sdiff.mp ((s \ highest k s).max'_mem hSome)
  have hMany : k ≤ (s.filter ((s \ highest k s).max' hSome < ·)).card :=
    Nat.not_lt.mp fun hFew => hOut (mem_highest.mpr ⟨hMem, hFew⟩)
  refine hMany.trans (Finset.card_le_card fun z hz => ?_)
  obtain ⟨hzMem, hzAbove⟩ := Finset.mem_filter.mp hz
  by_contra hzOut
  exact absurd ((s \ highest k s).le_max' z (Finset.mem_sdiff.mpr ⟨hzMem, hzOut⟩))
    (not_le.mpr hzAbove)

/-- Cutting to the highest before adding elements changes nothing. -/
theorem highest_union (k : Nat) (s t : Finset α) :
    highest k (highest k s ∪ t) = highest k (s ∪ t) := by
  have hSub : highest k s ∪ t ⊆ s ∪ t := Finset.union_subset_union_left (highest_subset k s)
  ext y
  rw [mem_highest, mem_highest]
  constructor
  · rintro ⟨hy, hFew⟩
    refine ⟨hSub hy, ?_⟩
    have hSame : (s ∪ t).filter (y < ·) ⊆ (highest k s ∪ t).filter (y < ·) := by
      intro z hz
      obtain ⟨hzMem, hzAbove⟩ := Finset.mem_filter.mp hz
      refine Finset.mem_filter.mpr ⟨?_, hzAbove⟩
      rcases Finset.mem_union.mp hzMem with hzOld | hzNew
      · by_contra hzOut
        have hzNot : z ∉ highest k s := fun h => hzOut (Finset.mem_union_left t h)
        -- All of the highest are above `z`, so there are `k` elements above `y`.
        have hAll : highest k s ⊆ (highest k s ∪ t).filter (y < ·) := fun x hx =>
          Finset.mem_filter.mpr ⟨Finset.mem_union_left t hx,
            hzAbove.trans (lt_of_notMem_highest hx hzOld hzNot)⟩
        have hMany := (le_card_highest hzOld hzNot).trans (Finset.card_le_card hAll)
        omega
      · exact Finset.mem_union_right _ hzNew
    exact lt_of_le_of_lt (Finset.card_le_card hSame) hFew
  · rintro ⟨hy, hFew⟩
    refine ⟨?_, lt_of_le_of_lt (Finset.card_le_card (Finset.filter_subset_filter _ hSub)) hFew⟩
    rcases Finset.mem_union.mp hy with hOld | hNew
    · refine Finset.mem_union_left t (mem_highest.mpr ⟨hOld, ?_⟩)
      refine lt_of_le_of_lt (Finset.card_le_card ?_) hFew
      exact Finset.filter_subset_filter _ Finset.subset_union_left
    · exact Finset.mem_union_right _ hNew

/-- The greatest element is among the highest. -/
theorem mem_highest_of_max {k : Nat} {s : Finset α} {x : α} (hk : 0 < k) (hx : x ∈ s)
    (hMax : ∀ y ∈ s, y ≤ x) : x ∈ highest k s := by
  refine mem_highest.mpr ⟨hx, ?_⟩
  rw [Finset.filter_false_of_mem fun y hy => not_lt.mpr (hMax y hy)]
  exact hk

end Rindexer.Lib
