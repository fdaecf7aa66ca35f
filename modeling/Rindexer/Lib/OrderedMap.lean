import Mathlib.Data.List.Pairwise
import Mathlib.Order.Basic
import Mathlib.Tactic.Common
import Mathlib.Tactic.NormNum

/-! Finite maps with ordered keys, as ascending lists of entries: lookup, insertion, restriction to
the keys that a test admits, and removal of the least keys.  Two maps with the same lookups are
equal, so an operation is known by what it does to lookups. -/

namespace Rindexer.Lib

/-- A finite map: its entries in strictly ascending order of their keys. -/
structure OrderedMap (κ α : Type) [LinearOrder κ] where
  entries : List (κ × α)
  ascending : entries.Pairwise fun a b => a.1 < b.1

namespace OrderedMap

variable {κ α : Type} [LinearOrder κ]

/-- The map with no entries. -/
def empty : OrderedMap κ α := ⟨[], List.Pairwise.nil⟩

instance : EmptyCollection (OrderedMap κ α) := ⟨empty⟩

/-- The value at a key. -/
def get? (m : OrderedMap κ α) (k : κ) : Option α := m.entries.lookup k

/-- The keys, ascending. -/
def keys (m : OrderedMap κ α) : List κ := m.entries.map Prod.fst

def size (m : OrderedMap κ α) : Nat := m.entries.length

/-- The least key. -/
def first? (m : OrderedMap κ α) : Option κ := m.entries.head?.map Prod.fst

/-- The greatest key. -/
def last? (m : OrderedMap κ α) : Option κ := m.entries.getLast?.map Prod.fst

@[simp] theorem get?_empty (k : κ) : (∅ : OrderedMap κ α).get? k = none := rfl

@[simp] theorem size_empty : (∅ : OrderedMap κ α).size = 0 := rfl

theorem lookup_cons_eq_ite (k0 : κ) (v0 : α) (l : List (κ × α)) (k : κ) :
    ((k0, v0) :: l).lookup k = if k = k0 then some v0 else l.lookup k := by
  by_cases hk : k = k0
  · simp [hk]
  · rw [if_neg hk, List.lookup_cons, beq_eq_false_iff_ne.mpr hk]

/-- In an ascending list of entries, a key has the value of its only entry. -/
theorem lookup_eq_some_iff_mem {l : List (κ × α)} (h : l.Pairwise fun a b => a.1 < b.1) {k : κ}
    {v : α} : l.lookup k = some v ↔ (k, v) ∈ l := by
  induction l with
  | nil => simp
  | cons e l ih =>
    obtain ⟨k', v'⟩ := e
    obtain ⟨hHead, hTail⟩ := List.pairwise_cons.mp h
    rw [lookup_cons_eq_ite]
    by_cases hk : k = k'
    · subst hk
      simp only [if_true, Option.some.injEq, List.mem_cons, Prod.mk.injEq, true_and]
      constructor
      · rintro rfl
        exact .inl rfl
      · rintro (rfl | hMem)
        · rfl
        · exact absurd (hHead _ hMem) (lt_irrefl _)
    · simp only [List.mem_cons, Prod.mk.injEq, hk, false_and, false_or]
      exact ih hTail

theorem get?_eq_some_iff {m : OrderedMap κ α} {k : κ} {v : α} :
    m.get? k = some v ↔ (k, v) ∈ m.entries :=
  lookup_eq_some_iff_mem m.ascending

theorem mem_keys {m : OrderedMap κ α} {k : κ} : k ∈ m.keys ↔ ∃ v, m.get? k = some v := by
  simp [keys, get?_eq_some_iff]

theorem get?_eq_none_iff {m : OrderedMap κ α} {k : κ} : m.get? k = none ↔ k ∉ m.keys := by
  rw [mem_keys, Option.eq_none_iff_forall_ne_some, not_exists]

theorem keys_ascending (m : OrderedMap κ α) : m.keys.Pairwise (· < ·) :=
  List.pairwise_map.mpr m.ascending

theorem eq_of_entries {m n : OrderedMap κ α} (h : m.entries = n.entries) : m = n := by
  cases m
  cases n
  cases h
  rfl

/-- Maps with the same lookups are equal. -/
@[ext] theorem ext {m n : OrderedMap κ α} (h : ∀ k, m.get? k = n.get? k) : m = n := by
  have hMem : ∀ e, e ∈ m.entries ↔ e ∈ n.entries := fun ⟨k, v⟩ => by
    rw [← get?_eq_some_iff, ← get?_eq_some_iff, h k]
  have hNodup : ∀ o : OrderedMap κ α, o.entries.Nodup := fun o =>
    o.ascending.imp fun hlt heq => absurd (congrArg Prod.fst heq) (ne_of_lt hlt)
  have hPerm : m.entries.Perm n.entries := (List.perm_ext_iff_of_nodup (hNodup m) (hNodup n)).mpr hMem
  have hEq : m.entries = n.entries := hPerm.eq_of_pairwise
    (fun _ _ _ _ hab hba => absurd hab (lt_asymm hba)) m.ascending n.ascending
  exact eq_of_entries hEq

/-! ### Insertion -/

/-- `l` with `v` at `k`, in place of any value there. -/
def insertEntry (k : κ) (v : α) : List (κ × α) → List (κ × α)
  | [] => [(k, v)]
  | e :: l =>
    if k < e.1 then (k, v) :: e :: l
    else if k = e.1 then (k, v) :: l
    else e :: insertEntry k v l

theorem mem_insertEntry {k : κ} {v : α} {e : κ × α} {l : List (κ × α)}
    (h : e ∈ insertEntry k v l) : e = (k, v) ∨ e ∈ l := by
  induction l with
  | nil => simpa [insertEntry] using h
  | cons e' l ih =>
    simp only [insertEntry] at h
    split at h
    · simpa using h
    · split at h
      · rcases List.mem_cons.mp h with h | h
        · exact .inl h
        · exact .inr (List.mem_cons_of_mem _ h)
      · rcases List.mem_cons.mp h with rfl | h
        · exact .inr List.mem_cons_self
        · exact (ih h).imp_right (List.mem_cons_of_mem _)

theorem insertEntry_ascending {k : κ} {v : α} {l : List (κ × α)}
    (h : l.Pairwise fun a b => a.1 < b.1) :
    (insertEntry k v l).Pairwise fun a b => a.1 < b.1 := by
  induction l with
  | nil => simp [insertEntry]
  | cons e l ih =>
    obtain ⟨hHead, hTail⟩ := List.pairwise_cons.mp h
    simp only [insertEntry]
    split
    · rename_i hlt
      refine List.pairwise_cons.mpr ⟨fun e' hMem => ?_, h⟩
      rcases List.mem_cons.mp hMem with rfl | hMem
      · exact hlt
      · exact hlt.trans (hHead _ hMem)
    · split
      · rename_i _ heq
        exact List.pairwise_cons.mpr ⟨fun e' hMem => heq ▸ hHead _ hMem, hTail⟩
      · rename_i hlt hne
        refine List.pairwise_cons.mpr ⟨fun e' hMem => ?_, ih hTail⟩
        rcases mem_insertEntry hMem with rfl | hMem
        · exact lt_of_le_of_ne (not_lt.mp hlt) (Ne.symm hne)
        · exact hHead _ hMem

theorem lookup_insertEntry (k : κ) (v : α) (l : List (κ × α)) (k' : κ) :
    (insertEntry k v l).lookup k' = if k' = k then some v else l.lookup k' := by
  induction l with
  | nil => rw [insertEntry, lookup_cons_eq_ite]
  | cons e l ih =>
    obtain ⟨k0, v0⟩ := e
    simp only [insertEntry]
    split
    · rw [lookup_cons_eq_ite]
    · split
      · rename_i _ heq
        rw [lookup_cons_eq_ite, lookup_cons_eq_ite, heq]
        split <;> rfl
      · rename_i _ hne
        rw [lookup_cons_eq_ite, lookup_cons_eq_ite, ih]
        by_cases hk : k' = k
        · rw [if_pos hk, if_pos hk, if_neg fun h => hne (hk.symm.trans h)]
        · rw [if_neg hk, if_neg hk]

/-- `m` with `v` at `k`. -/
def insert (m : OrderedMap κ α) (k : κ) (v : α) : OrderedMap κ α :=
  ⟨insertEntry k v m.entries, insertEntry_ascending m.ascending⟩

theorem get?_insert (m : OrderedMap κ α) (k : κ) (v : α) (k' : κ) :
    (m.insert k v).get? k' = if k' = k then some v else m.get? k' :=
  lookup_insertEntry k v m.entries k'

@[simp] theorem get?_insert_self (m : OrderedMap κ α) (k : κ) (v : α) :
    (m.insert k v).get? k = some v := by
  rw [get?_insert, if_pos rfl]

theorem get?_insert_ne {m : OrderedMap κ α} {k k' : κ} {v : α} (h : k' ≠ k) :
    (m.insert k v).get? k' = m.get? k' := by
  rw [get?_insert, if_neg h]

/-- A key above all others goes last. -/
theorem insert_above {m : OrderedMap κ α} {k : κ} {v : α} (h : ∀ k' ∈ m.keys, k' < k) :
    (m.insert k v).entries = m.entries ++ [(k, v)] := by
  have key : ∀ l : List (κ × α), (∀ e ∈ l, e.1 < k) → insertEntry k v l = l ++ [(k, v)] := by
    intro l
    induction l with
    | nil => intro _; rfl
    | cons e l ih =>
      intro hl
      have he := hl e List.mem_cons_self
      simp only [insertEntry, List.cons_append]
      rw [if_neg (lt_asymm he), if_neg (ne_of_gt he),
        ih fun e' hMem => hl e' (List.mem_cons_of_mem _ hMem)]
  exact key m.entries fun e hMem => h e.1 (List.mem_map_of_mem hMem)

/-- `m` with the entries of `l` inserted one after another. -/
def insertAll (m : OrderedMap κ α) (l : List (κ × α)) : OrderedMap κ α :=
  l.foldl (fun m e => m.insert e.1 e.2) m

@[simp] theorem insertAll_nil (m : OrderedMap κ α) : m.insertAll [] = m := rfl

@[simp] theorem insertAll_cons (m : OrderedMap κ α) (e : κ × α) (l : List (κ × α)) :
    m.insertAll (e :: l) = (m.insert e.1 e.2).insertAll l := rfl

theorem get?_insertAll_of_notMem {m : OrderedMap κ α} {l : List (κ × α)} {k : κ}
    (h : k ∉ l.map Prod.fst) : (m.insertAll l).get? k = m.get? k := by
  induction l generalizing m with
  | nil => rfl
  | cons e l ih =>
    simp only [List.map_cons, List.mem_cons, not_or] at h
    rw [insertAll_cons, ih h.2, get?_insert_ne h.1]

/-- After inserting entries, a key holds the last value inserted there, or else what it held. -/
theorem get?_insertAll (m : OrderedMap κ α) (l : List (κ × α)) (k : κ) :
    (m.insertAll l).get? k =
      ((l.filter fun e => e.1 = k).getLast?.map Prod.snd).or (m.get? k) := by
  induction l generalizing m with
  | nil => rfl
  | cons e l ih =>
    rw [insertAll_cons, ih, get?_insert, List.filter_cons]
    by_cases he : e.1 = k
    · rw [if_pos he.symm, if_pos (decide_eq_true he), List.getLast?_cons]
      cases (l.filter fun e => e.1 = k).getLast? <;> rfl
    · rw [if_neg (Ne.symm he), if_neg (by simpa using he)]

/-- After inserting entries with distinct keys, each of them is found at its key. -/
theorem get?_insertAll_of_mem {m : OrderedMap κ α} {l : List (κ × α)} {k : κ} {v : α}
    (hNodup : (l.map Prod.fst).Nodup) (h : (k, v) ∈ l) : (m.insertAll l).get? k = some v := by
  induction l generalizing m with
  | nil => exact absurd h List.not_mem_nil
  | cons e l ih =>
    obtain ⟨hNew, hTail⟩ := List.nodup_cons.mp hNodup
    rw [insertAll_cons]
    rcases List.mem_cons.mp h with rfl | hMem
    · rw [get?_insertAll_of_notMem hNew, get?_insert_self]
    · exact ih hTail hMem

/-- Whatever a key holds after inserting entries was inserted there or was there before. -/
theorem get?_insertAll_cases {m : OrderedMap κ α} {l : List (κ × α)} {k : κ} {v : α}
    (h : (m.insertAll l).get? k = some v) :
    (k, v) ∈ l ∨ k ∉ l.map Prod.fst ∧ m.get? k = some v := by
  induction l generalizing m with
  | nil => exact .inr ⟨List.not_mem_nil, h⟩
  | cons e l ih =>
    rw [insertAll_cons] at h
    rcases ih h with hMem | ⟨hNot, hGet⟩
    · exact .inl (List.mem_cons_of_mem _ hMem)
    · rw [get?_insert] at hGet
      split at hGet
      · rename_i heq
        cases hGet
        exact .inl (by rw [heq]; exact List.mem_cons_self)
      · rename_i hne
        exact .inr ⟨by simpa [hne] using hNot, hGet⟩

theorem mem_keys_insert {m : OrderedMap κ α} {k : κ} {v : α} {k' : κ} :
    k' ∈ (m.insert k v).keys ↔ k' = k ∨ k' ∈ m.keys := by
  rw [mem_keys, mem_keys, get?_insert]
  by_cases hEq : k' = k
  · simp [hEq]
  · simp [hEq]

theorem mem_keys_insertAll {m : OrderedMap κ α} {l : List (κ × α)} {k : κ} :
    k ∈ (m.insertAll l).keys ↔ k ∈ m.keys ∨ k ∈ l.map Prod.fst := by
  induction l generalizing m with
  | nil => simp
  | cons e l ih =>
    rw [insertAll_cons, ih, mem_keys_insert, List.map_cons, List.mem_cons]
    tauto

/-! ### Restriction -/

/-- The entries whose keys `p` admits. -/
def restrict (m : OrderedMap κ α) (p : κ → Bool) : OrderedMap κ α :=
  ⟨m.entries.filter fun e => p e.1, m.ascending.filter _⟩

theorem get?_restrict (m : OrderedMap κ α) (p : κ → Bool) (k : κ) :
    (m.restrict p).get? k = if p k = true then m.get? k else none := by
  refine Option.ext fun v => ?_
  rw [get?_eq_some_iff, restrict, List.mem_filter, ← get?_eq_some_iff]
  by_cases hp : p k = true <;> simp [hp]

/-! ### Removal of the least keys -/

/-- `m` without its least key. -/
def popFirst (m : OrderedMap κ α) : OrderedMap κ α :=
  ⟨m.entries.tail, m.ascending.tail⟩

/-- `m` without its `n` least keys. -/
def dropFirst (m : OrderedMap κ α) (n : Nat) : OrderedMap κ α :=
  ⟨m.entries.drop n, m.ascending.drop⟩

@[simp] theorem size_dropFirst (m : OrderedMap κ α) (n : Nat) :
    (m.dropFirst n).size = m.size - n := by
  simp [size, dropFirst]

@[simp] theorem dropFirst_zero (m : OrderedMap κ α) : m.dropFirst 0 = m := rfl

theorem popFirst_dropFirst (m : OrderedMap κ α) (n : Nat) :
    m.popFirst.dropFirst n = m.dropFirst (n + 1) := by
  cases m with
  | mk entries ascending => cases entries <;> simp [popFirst, dropFirst]

/-- A lookup after removing least keys is the lookup before, or the key is gone. -/
theorem get?_of_get?_dropFirst {m : OrderedMap κ α} {n : Nat} {k : κ} {v : α}
    (h : (m.dropFirst n).get? k = some v) : m.get? k = some v :=
  get?_eq_some_iff.mpr (List.mem_of_mem_drop (get?_eq_some_iff.mp h))

/-- Removing least keys removes no key above one that it keeps. -/
theorem get?_dropFirst_of_le {m : OrderedMap κ α} {n : Nat} {k k' : κ} {v : α}
    (h : (m.dropFirst n).get? k = some v) (hle : k ≤ k') :
    (m.dropFirst n).get? k' = m.get? k' := by
  refine Option.ext fun w => ⟨get?_of_get?_dropFirst, fun hw => ?_⟩
  rw [get?_eq_some_iff] at h hw ⊢
  have hSplit := List.take_append_drop n m.entries
  have hAsc := m.ascending
  rw [← hSplit, List.pairwise_append] at hAsc
  rw [← hSplit, List.mem_append] at hw
  rcases hw with hw | hw
  · exact absurd (hAsc.2.2 _ hw _ h) (not_lt.mpr hle)
  · exact hw

/-- A lookup stays when at least as many keys go as lie below its key. -/
theorem get?_dropFirst_of_count {m : OrderedMap κ α} {n : Nat} {k : κ}
    (h : (m.keys.filter (k ≤ ·)).length + n ≤ m.size) : (m.dropFirst n).get? k = m.get? k := by
  refine Option.ext fun v => ⟨get?_of_get?_dropFirst, fun hGet => ?_⟩
  rw [get?_eq_some_iff] at hGet ⊢
  have hSplit := List.take_append_drop n m.entries
  have hAsc := m.ascending
  rw [← hSplit, List.pairwise_append] at hAsc
  rw [← hSplit, List.mem_append] at hGet
  rcases hGet with hTaken | hKept
  · have hAbove : (m.entries.drop n).map Prod.fst = ((m.entries.drop n).map Prod.fst).filter
        (k ≤ ·) := by
      refine (List.filter_eq_self.mpr fun k' hMem => ?_).symm
      obtain ⟨e, he, rfl⟩ := List.mem_map.mp hMem
      exact decide_eq_true (hAsc.2.2 _ hTaken _ he).le
    have hPos : 0 < (((m.entries.take n).map Prod.fst).filter (k ≤ ·)).length := by
      refine List.length_pos_of_mem (a := k) (List.mem_filter.mpr ⟨?_, decide_eq_true le_rfl⟩)
      exact List.mem_map_of_mem (f := Prod.fst) hTaken
    have hCount : (m.keys.filter (k ≤ ·)).length =
        (((m.entries.take n).map Prod.fst).filter (k ≤ ·)).length + (m.entries.drop n).length := by
      rw [keys, ← hSplit, List.map_append, List.filter_append, List.length_append, ← hAbove,
        List.length_map, hSplit]
    have hSize : m.size = m.entries.length := rfl
    have hDrop : (m.entries.drop n).length = m.entries.length - n := List.length_drop
    omega
  · exact hKept

/-- A lookup goes when more keys go than lie below its key. -/
theorem get?_dropFirst_eq_none {m : OrderedMap κ α} {n : Nat} {k : κ}
    (h : m.size ≤ n + (m.keys.filter (k < ·)).length) : (m.dropFirst n).get? k = none := by
  cases hGet : (m.dropFirst n).get? k with
  | none => rfl
  | some v =>
    have hSame := get?_dropFirst_of_le hGet (le_refl k)
    rw [get?_eq_some_iff] at hGet
    have hSplit := List.take_append_drop n m.entries
    have hAsc := m.ascending
    rw [← hSplit, List.pairwise_append] at hAsc
    have hNone : ((m.entries.take n).map Prod.fst).filter (k < ·) = [] := by
      refine List.filter_eq_nil_iff.mpr fun k' hMem => ?_
      obtain ⟨e, he, rfl⟩ := List.mem_map.mp hMem
      simpa using (hAsc.2.2 _ he _ hGet).le
    have hFewer : (((m.entries.drop n).map Prod.fst).filter (k < ·)).length <
        ((m.entries.drop n).map Prod.fst).length := by
      refine List.length_filter_lt_length_iff_exists.mpr ⟨k, ?_, by simp⟩
      exact List.mem_map_of_mem (f := Prod.fst) hGet
    have hCount : (m.keys.filter (k < ·)).length =
        (((m.entries.drop n).map Prod.fst).filter (k < ·)).length := by
      rw [keys, ← hSplit, List.map_append, List.filter_append, hNone, List.nil_append, hSplit]
    have hSize : m.size = m.entries.length := rfl
    rw [List.length_map, List.length_drop] at hFewer
    omega

theorem keys_nodup (m : OrderedMap κ α) : m.keys.Nodup :=
  m.keys_ascending.imp ne_of_lt

/-- Entries with distinct keys are a map with these keys. -/
theorem keys_insertAll_empty {l : List (κ × α)} (hNodup : (l.map Prod.fst).Nodup) :
    ((∅ : OrderedMap κ α).insertAll l).keys.Perm (l.map Prod.fst) := by
  refine (List.perm_ext_iff_of_nodup (keys_nodup _) hNodup).mpr fun k => ?_
  rw [mem_keys]
  constructor
  · rintro ⟨v, hv⟩
    obtain hMem | ⟨-, hNone⟩ := get?_insertAll_cases hv
    · exact List.mem_map_of_mem hMem
    · rw [get?_empty] at hNone
      cases hNone
  · intro hMem
    obtain ⟨⟨k, v⟩, hEntry, rfl⟩ := List.mem_map.mp hMem
    exact ⟨v, get?_insertAll_of_mem hNodup hEntry⟩

/-- The keys from an inserted one on: it, and those above it. -/
theorem keys_insert_from (m : OrderedMap κ α) (k : κ) (v : α) :
    ((m.insert k v).keys.filter (k ≤ ·)).Perm (k :: m.keys.filter (k < ·)) := by
  refine (List.perm_ext_iff_of_nodup ((keys_nodup _).filter _) ?_).mpr fun k' => ?_
  · refine List.nodup_cons.mpr ⟨fun hMem => ?_, (keys_nodup m).filter _⟩
    exact absurd (List.mem_filter.mp hMem).2 (by simp)
  · simp only [List.mem_filter, List.mem_cons, mem_keys, get?_insert, decide_eq_true_eq]
    by_cases hEq : k' = k
    · simp [hEq]
    · simp only [hEq, if_false, false_or]
      exact and_congr_right fun _ => (Ne.symm hEq).le_iff_lt

theorem keys_insert_above (m : OrderedMap κ α) (k : κ) (v : α) :
    ((m.insert k v).keys.filter (k < ·)).Perm (m.keys.filter (k < ·)) := by
  refine (List.perm_ext_iff_of_nodup ((keys_nodup _).filter _) ((keys_nodup m).filter _)).mpr
    fun k' => ?_
  simp only [List.mem_filter, mem_keys, get?_insert, decide_eq_true_eq]
  refine and_congr_left fun hlt => ?_
  rw [if_neg (ne_of_gt hlt)]

theorem last?_eq_none_iff {m : OrderedMap κ α} : m.last? = none ↔ m.size = 0 := by
  simp [last?, size]

/-- Every key is at least the head of the keys. -/
theorem head_le {m : OrderedMap κ α} {k l : κ} {rest : List κ} (h : m.keys = k :: rest)
    (hl : l ∈ m.keys) : k ≤ l := by
  have hAsc := m.keys_ascending
  rw [h, List.pairwise_cons] at hAsc
  rw [h] at hl
  rcases List.mem_cons.mp hl with rfl | hl
  · exact le_refl _
  · exact (hAsc.1 l hl).le

/-- Every key is at most the last. -/
theorem le_last? {m : OrderedMap κ α} {k l : κ} (h : m.last? = some l) (hk : k ∈ m.keys) :
    k ≤ l := by
  rw [last?, Option.map_eq_some_iff] at h
  obtain ⟨e, he, rfl⟩ := h
  obtain ⟨pre, hpre⟩ := List.getLast?_eq_some_iff.mp he
  have hAsc := m.ascending
  rw [hpre, List.pairwise_append] at hAsc
  rw [keys, hpre, List.map_append, List.mem_append] at hk
  rcases hk with hk | hk
  · obtain ⟨e', hMem, rfl⟩ := List.mem_map.mp hk
    exact (hAsc.2.2 e' hMem e List.mem_cons_self).le
  · simp only [List.map_cons, List.map_nil, List.mem_singleton] at hk
    exact hk.le

/-- The greatest key stays when not all keys go. -/
theorem get?_dropFirst_last {m : OrderedMap κ α} {n : Nat} {l : κ} (h : m.last? = some l)
    (hn : n < m.size) : ∃ v, (m.dropFirst n).get? l = some v := by
  rw [last?, Option.map_eq_some_iff] at h
  obtain ⟨e, he, rfl⟩ := h
  obtain ⟨pre, hpre⟩ := List.getLast?_eq_some_iff.mp he
  refine ⟨e.2, get?_eq_some_iff.mpr ?_⟩
  have hLen : n ≤ pre.length := by
    unfold size at hn
    rw [hpre, List.length_append, List.length_singleton] at hn
    omega
  show e ∈ m.entries.drop n
  rw [hpre, List.drop_append_of_le_length hLen]
  exact List.mem_append_right _ List.mem_cons_self

end OrderedMap

end Rindexer.Lib
