import Mathlib.Data.List.Dedup
import Mathlib.Data.List.Sort
import Mathlib.Data.Prod.Lex
import Mathlib.Tactic.NormNum

/-! Stable sorting by a key, and keeping the first element of each identity: how they bring a list
that was fetched in any order, and in parts that overlap, to the one sorted list. -/

namespace Rindexer.Lib

section SortByKey

variable {α κ : Type} [LinearOrder κ] {key : α → κ}

/-- `sort_by_key`, which is stable. -/
def sortByKey (key : α → κ) (l : List α) : List α := l.insertionSort fun a b => key a ≤ key b

theorem sortByKey_perm (key : α → κ) (l : List α) : (sortByKey key l).Perm l :=
  List.perm_insertionSort _ l

/-- The elements of a strictly sorted list have different keys. -/
theorem key_inj_of_pairwise {s : List α} (hSorted : s.Pairwise fun a b => key a < key b) :
    ∀ a ∈ s, ∀ b ∈ s, key a = key b → a = b := by
  induction s with
  | nil => exact fun a ha => nomatch ha
  | cons c s ih =>
    obtain ⟨hHead, hTail⟩ := List.pairwise_cons.mp hSorted
    intro a ha b hb hKey
    rcases List.mem_cons.mp ha with rfl | ha'
    · rcases List.mem_cons.mp hb with rfl | hb'
      · rfl
      · exact absurd hKey (hHead b hb').ne
    · rcases List.mem_cons.mp hb with rfl | hb'
      · exact absurd hKey.symm (hHead a ha').ne
      · exact ih hTail a ha' b hb' hKey

theorem nodup_of_pairwise_key {s : List α} (hSorted : s.Pairwise fun a b => key a < key b) :
    s.Nodup := by
  apply hSorted.imp
  rintro a b hLt rfl
  exact lt_irrefl _ hLt

/-- What a sort makes of a strictly sorted list in another order. -/
theorem sortByKey_eq {l s : List α} (hPerm : l.Perm s)
    (hSorted : s.Pairwise fun a b => key a < key b) : sortByKey key l = s := by
  have hSame := (sortByKey_perm key l).trans hPerm
  have hAntisymm : ∀ a b, a ∈ sortByKey key l → b ∈ s → key a ≤ key b → key b ≤ key a → a = b := by
    intro a b ha hb hab hba
    exact key_inj_of_pairwise hSorted a (hSame.mem_iff.mp ha) b hb (le_antisymm hab hba)
  have : Std.Total fun a b : α => key a ≤ key b := ⟨fun a b => le_total _ _⟩
  have : IsTrans α fun a b : α => key a ≤ key b := ⟨fun a b c => le_trans⟩
  exact List.Perm.eq_of_pairwise hAntisymm (List.pairwise_insertionSort _ l)
    (hSorted.imp le_of_lt) hSame

theorem sortByKey_sorted (key : α → κ) (l : List α) :
    (sortByKey key l).Pairwise fun a b => key a ≤ key b := by
  have : Std.Total fun a b : α => key a ≤ key b := ⟨fun a b => le_total _ _⟩
  have : IsTrans α fun a b : α => key a ≤ key b := ⟨fun a b c => le_trans⟩
  exact List.pairwise_insertionSort _ l

/-- Where only equal elements have one key, the order before a sort plays no part. -/
theorem sortByKey_eq_of_perm {l l' : List α} (hPerm : l.Perm l')
    (hTies : ∀ a ∈ l, ∀ b ∈ l, key a = key b → a = b) : sortByKey key l = sortByKey key l' := by
  have hSame := (sortByKey_perm key l).trans (hPerm.trans (sortByKey_perm key l').symm)
  apply List.Perm.eq_of_pairwise _ (sortByKey_sorted key l) (sortByKey_sorted key l') hSame
  intro a b ha hb hab hba
  apply hTies
  · exact (sortByKey_perm key l).mem_iff.mp ha
  · exact hPerm.mem_iff.mpr ((sortByKey_perm key l').mem_iff.mp hb)
  · exact le_antisymm hab hba

end SortByKey

section RetainFirst

variable {α ι : Type} [DecidableEq ι] {identity : α → Option ι}

/-- Keeps the first element of each identity that is not among `seen`, and every element that has
none. -/
def retainFirst (identity : α → Option ι) : List ι → List α → List α
  | _, [] => []
  | seen, a :: l =>
    match identity a with
    | some i => if i ∈ seen then retainFirst identity seen l else a :: retainFirst identity (i :: seen) l
    | none => a :: retainFirst identity seen l

/-- Where every element has an identity of its own, what is retained is the elements not seen, each
once. -/
theorem retainFirst_spec {s : List α} (hTotal : ∀ a ∈ s, ∃ i, identity a = some i)
    (hInj : ∀ a ∈ s, ∀ b ∈ s, identity a = identity b → a = b) :
    ∀ (seen : List ι) (l : List α), l ⊆ s → (retainFirst identity seen l).Nodup ∧
      ∀ a, a ∈ retainFirst identity seen l ↔ a ∈ l ∧ ∀ i ∈ identity a, i ∉ seen := by
  intro seen l
  induction l generalizing seen with
  | nil => exact fun _ => ⟨List.nodup_nil, fun a => by simp [retainFirst]⟩
  | cons b l ih =>
    intro hSub
    have hb := hSub List.mem_cons_self
    have hRest : l ⊆ s := fun a ha => hSub (List.mem_cons_of_mem b ha)
    obtain ⟨i, hi⟩ := hTotal b hb
    rw [retainFirst, hi]
    simp only
    split
    case isTrue hSeen =>
      refine ⟨(ih seen hRest).1, fun a => ?_⟩
      rw [(ih seen hRest).2, List.mem_cons]
      refine ⟨fun h => ⟨Or.inr h.1, h.2⟩, ?_⟩
      rintro ⟨rfl | ha, hNew⟩
      · exact absurd hSeen (hNew i hi)
      · exact ⟨ha, hNew⟩
    case isFalse hNew =>
      obtain ⟨hNodup, hMem⟩ := ih (i :: seen) hRest
      refine ⟨List.nodup_cons.mpr ⟨fun hIn => ?_, hNodup⟩, fun a => ?_⟩
      · exact ((hMem b).mp hIn).2 i hi List.mem_cons_self
      · rw [List.mem_cons, hMem, List.mem_cons]
        constructor
        · rintro (rfl | ⟨ha, hOther⟩)
          · refine ⟨Or.inl rfl, fun j hj => ?_⟩
            cases hi.symm.trans hj
            exact hNew
          · exact ⟨Or.inr ha, fun j hj hIn => hOther j hj (List.mem_cons_of_mem i hIn)⟩
        · rintro ⟨rfl | ha, hOther⟩
          · exact Or.inl rfl
          · by_cases hSame : a = b
            · exact Or.inl hSame
            · refine Or.inr ⟨ha, fun j hj hIn => ?_⟩
              rcases List.mem_cons.mp hIn with rfl | hIn
              · exact hSame (hInj a (hRest ha) b hb (Eq.trans hj hi.symm))
              · exact hOther j hj hIn

/-- A list with the elements of `s`, some of them repeated, retains those of `s`. -/
theorem retainFirst_perm {l s : List α} (hTotal : ∀ a ∈ s, ∃ i, identity a = some i)
    (hInj : ∀ a ∈ s, ∀ b ∈ s, identity a = identity b → a = b) (hNodup : s.Nodup)
    (hMem : ∀ a, a ∈ l ↔ a ∈ s) : (retainFirst identity [] l).Perm s := by
  obtain ⟨hNodup', hMem'⟩ := retainFirst_spec hTotal hInj [] l fun a => (hMem a).mp
  rw [List.perm_ext_iff_of_nodup hNodup' hNodup]
  intro a
  rw [hMem', hMem]
  simp

/-- How often an element is retained where only equal elements have one identity: once, or as often as
it is there if it has none. -/
theorem count_retainFirst [DecidableEq α] {l : List α}
    (hInj : ∀ a ∈ l, ∀ b ∈ l, ∀ i, identity a = some i → identity b = some i → a = b) (x : α)
    (seen : List ι) : (retainFirst identity seen l).count x =
      match identity x with
      | none => l.count x
      | some i => if i ∈ seen then 0 else min 1 (l.count x) := by
  induction l generalizing seen with
  | nil =>
    cases identity x with
    | none => rfl
    | some i => simp [retainFirst]
  | cons a l ih =>
    have hRest := fun b hb c hc => hInj b (List.mem_cons_of_mem a hb) c (List.mem_cons_of_mem a hc)
    have hSame : a = x → identity a = identity x := fun h => congrArg identity h
    cases hx : identity x with
    | none =>
      cases ha : identity a with
      | none =>
        simp only [retainFirst, ha, List.count_cons, ih hRest, hx]
      | some j =>
        have hNe : ¬ a = x := fun h => by
          rw [hSame h, hx] at ha
          cases ha
        simp only [retainFirst, ha]
        split
        · rw [ih hRest, hx, List.count_cons_of_ne hNe]
        · rw [List.count_cons_of_ne hNe, List.count_cons_of_ne hNe, ih hRest, hx]
    | some i =>
      cases ha : identity a with
      | none =>
        have hNe : ¬ a = x := fun h => by
          rw [hSame h, hx] at ha
          cases ha
        simp only [retainFirst, ha]
        rw [List.count_cons_of_ne hNe, List.count_cons_of_ne hNe, ih hRest, hx]
      | some j =>
        by_cases hij : j = i
        · subst hij
          -- Another element of this identity is not in the list.
          have hAbsent : a ≠ x → l.count x = 0 := fun hNe => List.count_eq_zero.mpr fun hMem =>
            hNe (hInj a List.mem_cons_self x (List.mem_cons_of_mem a hMem) j ha hx)
          simp only [retainFirst, ha]
          split
          · rw [ih hRest, hx]
            simp only [if_pos ‹j ∈ seen›]
          · simp only [List.count_cons, ih hRest, hx, List.mem_cons_self, if_true]
            by_cases hax : a = x
            · simp [hax]
            · rw [hAbsent hax]
              simp [hax]
        · have hNe : ¬ a = x := fun h => by
            rw [hSame h, hx] at ha
            exact hij (Option.some.inj ha).symm
          simp only [retainFirst, ha]
          split
          · rw [ih hRest, hx, List.count_cons_of_ne hNe]
          · have hMem : i ∈ j :: seen ↔ i ∈ seen :=
              ⟨fun h => (List.mem_cons.mp h).resolve_left fun h => hij h.symm,
                List.mem_cons_of_mem j⟩
            rw [List.count_cons_of_ne hNe, List.count_cons_of_ne hNe, ih hRest, hx]
            simp only [hMem]

/-- The order plays no part in what is retained. -/
theorem retainFirst_perm_of_perm {l l' : List α} (hPerm : l.Perm l')
    (hInj : ∀ a ∈ l, ∀ b ∈ l, ∀ i, identity a = some i → identity b = some i → a = b) :
    (retainFirst identity [] l).Perm (retainFirst identity [] l') := by
  classical
  rw [List.perm_iff_count]
  intro x
  have hInj' := fun a ha b hb => hInj a (hPerm.mem_iff.mpr ha) b (hPerm.mem_iff.mpr hb)
  rw [count_retainFirst hInj, count_retainFirst hInj', hPerm.count_eq]

end RetainFirst

section Parts

variable {α β : Type} [DecidableEq β]

theorem filter_or_perm {p q : α → Bool} {l : List α} (h : ∀ a ∈ l, p a = true → q a = false) :
    (l.filter fun a => p a || q a).Perm (l.filter p ++ l.filter q) := by
  induction l with
  | nil => exact .refl _
  | cons a l ih =>
    have hRest := ih fun b hb => h b (List.mem_cons_of_mem a hb)
    simp only [List.filter_cons]
    cases hp : p a with
    | true =>
      rw [h a List.mem_cons_self hp]
      simpa using hRest
    | false =>
      cases hq : q a with
      | true => simpa using (hRest.cons a).trans List.perm_middle.symm
      | false => simpa using hRest

/-- What the parts of a list of values select is what the list does. -/
theorem flatMap_filter_perm {parts : List (List β)} (hNodup : parts.flatten.Nodup) (value : α → β)
    (p : α → Bool) (l : List α) :
    (parts.flatMap fun part => l.filter fun a => p a && part.contains (value a)).Perm
      (l.filter fun a => p a && parts.flatten.contains (value a)) := by
  induction parts with
  | nil => simp
  | cons part parts ih =>
    rw [List.flatten_cons] at hNodup
    obtain ⟨-, hParts, hDisjoint⟩ := List.nodup_append.mp hNodup
    rw [List.flatMap_cons]
    refine ((ih hParts).append_left _).trans ?_
    refine (filter_or_perm ?_).symm.trans (List.Perm.of_eq ?_)
    · intro a _ hPart
      rw [Bool.and_eq_true, List.contains_iff_mem] at hPart
      rw [Bool.and_eq_false_iff]
      right
      rw [Bool.eq_false_iff]
      intro hOther
      rw [List.contains_iff_mem] at hOther
      exact hDisjoint _ hPart.2 _ hOther rfl
    · congr 1
      funext a
      rw [Bool.eq_iff_iff]
      simp only [List.flatten_cons, Bool.or_eq_true, Bool.and_eq_true, List.contains_iff_mem,
        List.mem_append]
      tauto

end Parts

end Rindexer.Lib
