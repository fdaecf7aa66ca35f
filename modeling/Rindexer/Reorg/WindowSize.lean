import Rindexer.Lib.Highest
import Rindexer.Lib.Transition
import Rindexer.Reorg.Persistence

/-! The size of the window over runs of its operations.  Inserting and loading keep the highest of the
heights that are present; overwriting adds heights and does not prune. -/

namespace Rindexer.Reorg

open Rindexer.Lib

/-- An operation that changes the window.  A load makes a new one. -/
inductive WindowOp
  | insert (blockNumber : Nat) (blockHash parentHash : B256)
  | updateRange (blocks : List Header)
  | removeFrom (start : Nat)
  | load (maxWindowSize : Nat) (rows : List (Nat × B256 × B256))

namespace BlockChainWindow

def step (w : BlockChainWindow) : WindowOp → Option BlockChainWindow
  | .insert blockNumber blockHash parentHash => some (w.insert blockNumber blockHash parentHash)
  | .updateRange blocks => some (w.updateRange blocks)
  | .removeFrom start => some (w.removeFrom start)
  | .load maxWindowSize rows =>
    match tryNew maxWindowSize with
    | .ok new => some (ReorgBlockHashPersistence.loadLoop new rows)
    | .error _ => none

def heights (w : BlockChainWindow) : Finset Nat := w.blockNumbers.toFinset

/-- The heights that are present when an operation is done: those it leaves and those it brings. -/
def present (w : BlockChainWindow) : WindowOp → Finset Nat
  | .insert blockNumber _ _ => w.heights ∪ {blockNumber}
  | .updateRange blocks => w.heights ∪ (blocks.map Header.number).toFinset
  | .removeFrom start => w.heights.filter (· < start)
  | .load _ rows => (rows.map Prod.fst).toFinset

/-- After an operation the window holds the highest of the heights that are present, no more than its
size, which bounds what the search for a fork point looks at; and a block inserted at the head stays. -/
structure KeepsHighest (w : BlockChainWindow) (op : WindowOp) (w' : BlockChainWindow) : Prop where
  heights : w'.heights = highest w'.maxWindowSize (w.present op)
  bounded : w'.len ≤ w'.maxWindowSize
  searched : ∀ (provider : ChainProvider) (blocks : List Header),
    provider.getBlockByNumberBatch w'.blockNumbers = some blocks →
      blocks.length ≤ w'.maxWindowSize
  head : ∀ n hash parentHash, op = .insert n hash parentHash → (∀ k ∈ w.blockNumbers, k ≤ n) →
    w'.get n = some (hash, parentHash)

/-- The heights that an overwrite leaves are no more than the window may hold. -/
def Fitting (w : BlockChainWindow) : WindowOp → Prop
  | .updateRange blocks =>
    (w.heights ∪ (blocks.map Header.number).toFinset).card ≤ w.maxWindowSize
  | _ => True

/-! ### The heights that operations leave -/

theorem card_heights (w : BlockChainWindow) : w.heights.card = w.len :=
  (List.toFinset_card_of_nodup w.entries.keys_nodup).trans (List.length_map _)

theorem mem_heights {w : BlockChainWindow} {n : Nat} :
    n ∈ w.heights ↔ ∃ e, w.get n = some e := by
  rw [heights, List.mem_toFinset]
  exact OrderedMap.mem_keys

theorem tryNew_empty {maxWindowSize : Nat} {w : BlockChainWindow}
    (h : tryNew maxWindowSize = .ok w) : w.heights = ∅ ∧ w.len = 0 := by
  unfold tryNew at h
  split at h
  · cases h
    exact ⟨rfl, rfl⟩
  · cases h

/-- Without the least keys that are too many, a map has its highest keys. -/
theorem keys_dropFirst_highest {β : Type} (m : OrderedMap Nat β) (k : Nat) :
    (m.dropFirst (m.size - k)).keys.toFinset = highest k m.keys.toFinset := by
  ext x
  have hSize : m.keys.length = m.size := List.length_map _
  have hCard : (m.keys.toFinset.filter (x < ·)).card = (m.keys.filter (x < ·)).length := by
    rw [← List.toFinset_card_of_nodup (m.keys_nodup.filter _)]
    congr 1
    ext y
    simp
  rw [mem_highest, hCard, List.mem_toFinset, List.mem_toFinset, OrderedMap.mem_keys,
    OrderedMap.mem_keys]
  constructor
  · rintro ⟨v, hGet⟩
    refine ⟨⟨v, OrderedMap.get?_of_get?_dropFirst hGet⟩, Nat.lt_of_not_le fun hMany => ?_⟩
    rw [OrderedMap.get?_dropFirst_eq_none (by omega)] at hGet
    cases hGet
  · rintro ⟨⟨v, hGet⟩, hFew⟩
    refine ⟨v, ?_⟩
    have hFrom : (m.keys.filter (x ≤ ·)).length ≤ (m.keys.filter (x < ·)).length + 1 := by
      rw [← hCard, ← List.toFinset_card_of_nodup (m.keys_nodup.filter _)]
      refine (Finset.card_le_card fun y hy => ?_).trans (Finset.card_insert_le x _)
      simp only [List.mem_toFinset, List.mem_filter, decide_eq_true_eq] at hy
      rcases Nat.eq_or_lt_of_le hy.2 with rfl | hLt
      · exact Finset.mem_insert_self _ _
      · refine Finset.mem_insert_of_mem (Finset.mem_filter.mpr ⟨List.mem_toFinset.mpr hy.1, hLt⟩)
    have hAll := List.length_filter_le (x ≤ ·) m.keys
    rw [OrderedMap.get?_dropFirst_of_count (by omega), hGet]

theorem heights_insert (w : BlockChainWindow) (number : Nat) (hash parentHash : B256) :
    (w.insert number hash parentHash).heights = highest w.maxWindowSize (w.heights ∪ {number}) := by
  have hKeys : (w.entries.insert number (hash, parentHash)).keys.toFinset = w.heights ∪ {number} := by
    ext n
    rw [List.mem_toFinset, OrderedMap.mem_keys, OrderedMap.get?_insert, Finset.mem_union,
      mem_heights, Finset.mem_singleton]
    by_cases hEq : n = number
    · simp [hEq]
    · simp [hEq, get]
  rw [← hKeys, ← keys_dropFirst_highest]
  unfold heights blockNumbers insert
  rw [prune_entries]

theorem heights_updateRange (w : BlockChainWindow) (blocks : List Header) :
    (w.updateRange blocks).heights = w.heights ∪ (blocks.map Header.number).toFinset := by
  ext n
  have hKeys := @OrderedMap.mem_keys_insertAll _ _ _ w.entries
    (blocks.map fun b => (b.number, b.hash, b.parentHash)) n
  rw [List.map_map] at hKeys
  rw [Finset.mem_union, heights, heights, List.mem_toFinset, List.mem_toFinset, List.mem_toFinset]
  exact hKeys

theorem heights_removeFrom (w : BlockChainWindow) (start : Nat) :
    (w.removeFrom start).heights = w.heights.filter (· < start) := by
  ext n
  rw [mem_heights, get_removeFrom, Finset.mem_filter, mem_heights]
  by_cases hBelow : n < start
  · simp [hBelow]
  · simp [hBelow]

/-- A load keeps the highest of the heights of the window and the rows. -/
theorem heights_loadLoop (w : BlockChainWindow) (rows : List (Nat × B256 × B256))
    (hLen : w.len ≤ w.maxWindowSize) :
    (ReorgBlockHashPersistence.loadLoop w rows).heights =
      highest w.maxWindowSize (w.heights ∪ (rows.map Prod.fst).toFinset) := by
  induction rows generalizing w with
  | nil =>
    rw [List.map_nil, List.toFinset_nil, Finset.union_empty,
      highest_of_card_le ((card_heights w).trans_le hLen)]
    rfl
  | cons row rows ih =>
    have hTail := ih (w.insert row.1 row.2.1 row.2.2) (prune_len_le _)
    have hSize : (w.insert row.1 row.2.1 row.2.2).maxWindowSize = w.maxWindowSize := rfl
    rw [heights_insert, hSize, highest_union, Finset.union_assoc] at hTail
    rw [ReorgBlockHashPersistence.loadLoop, hTail, List.map_cons, List.toFinset_cons]
    rfl

/-! ### Steps and runs -/

/-- A window whose heights are the highest of a set keeps to its size. -/
theorem bounded_of_heights {w : BlockChainWindow} {s : Finset Nat}
    (h : w.heights = highest w.maxWindowSize s) : w.len ≤ w.maxWindowSize := by
  rw [← card_heights, h]
  exact card_highest_le _ s

/-- The search for a fork point looks at no more blocks than there are heights. -/
theorem searched_of_bounded {w : BlockChainWindow} (h : w.len ≤ w.maxWindowSize)
    (provider : ChainProvider) (blocks : List Header)
    (hBlocks : provider.getBlockByNumberBatch w.blockNumbers = some blocks) :
    blocks.length ≤ w.maxWindowSize := by
  have hFew := (provider.requested hBlocks).length_le
  rw [List.length_map] at hFew
  exact hFew.trans ((List.length_map _).trans_le h)

/-- A block inserted at the head stays, as it is the highest of the heights. -/
theorem get_insert_head {w : BlockChainWindow} {number : Nat} (hash parentHash : B256)
    (hHead : ∀ k ∈ w.blockNumbers, k ≤ number) :
    (w.insert number hash parentHash).get number = some (hash, parentHash) := by
  have hMem : number ∈ (w.insert number hash parentHash).heights := by
    rw [heights_insert]
    refine mem_highest_of_max w.sizePositive (by simp) fun k hk => ?_
    rcases Finset.mem_union.mp hk with hOld | hNew
    · exact hHead k (List.mem_toFinset.mp hOld)
    · exact (Finset.mem_singleton.mp hNew).le
  obtain ⟨e, hGet⟩ := mem_heights.mp hMem
  rcases get_insert_cases hGet with ⟨-, rfl⟩ | ⟨hne, -⟩
  · exact hGet
  · exact absurd rfl hne

theorem keepsHighest_of_heights {w w' : BlockChainWindow} {op : WindowOp}
    (hStep : w.step op = some w') (h : w'.heights = highest w'.maxWindowSize (w.present op)) :
    KeepsHighest w op w' where
  heights := h
  bounded := bounded_of_heights h
  searched := searched_of_bounded (bounded_of_heights h)
  head := by
    rintro n hash parentHash rfl hHead
    cases hStep
    exact get_insert_head hash parentHash hHead

/-- From a window that keeps to its size, a step keeps the highest heights exactly if it is no
overwrite that brings too many. -/
theorem keepsHighest_iff {w w' : BlockChainWindow} {op : WindowOp}
    (hLen : w.len ≤ w.maxWindowSize) (hStep : w.step op = some w') :
    KeepsHighest w op w' ↔ w.Fitting op := by
  suffices h : w'.heights = highest w'.maxWindowSize (w.present op) ↔ w.Fitting op from
    ⟨fun hKeeps => h.mp hKeeps.heights, fun hFits => keepsHighest_of_heights hStep (h.mpr hFits)⟩
  cases op with
  | insert number hash parentHash =>
    cases hStep
    exact iff_of_true (heights_insert w number hash parentHash) trivial
  | updateRange blocks =>
    cases hStep
    rw [heights_updateRange]
    exact eq_comm.trans highest_eq_self_iff
  | removeFrom start =>
    cases hStep
    refine iff_of_true ?_ trivial
    rw [heights_removeFrom]
    refine (highest_of_card_le ?_).symm
    exact (Finset.card_filter_le _ _).trans ((card_heights w).trans_le hLen)
  | load maxWindowSize rows =>
    dsimp only [step] at hStep
    split at hStep
    · rename_i new hNew
      cases hStep
      obtain ⟨hNone, hLen⟩ := tryNew_empty hNew
      refine iff_of_true ?_ trivial
      rw [heights_loadLoop _ _ (hLen ▸ Nat.zero_le _), hNone, Finset.empty_union,
        ReorgBlockHashPersistence.loadLoop_maxWindowSize]
      rfl
    · cases hStep

/-- In a run from a new window, every step keeps the highest of the heights that are present exactly if
every overwrite leaves no more heights than the window may hold. -/
theorem window_keeps_highest_iff {maxWindowSize : Nat} {w : BlockChainWindow} (ops : List WindowOp)
    (hNew : tryNew maxWindowSize = .ok w) :
    EveryStep step KeepsHighest w ops ↔ Meets step Fitting w ops := by
  refine everyStep_iff_meets_of_invariant (fun w op w' (hLen : w.len ≤ w.maxWindowSize) hStep => ?_)
    ?_
  · have hIff := keepsHighest_iff hLen hStep
    exact ⟨hIff, fun hFits => (hIff.mpr hFits).bounded⟩
  · exact (tryNew_empty hNew).2 ▸ Nat.zero_le _

/-- A repair of blocks that are present fits. -/
theorem window_keeps_highest_repair :
    EveryStep step KeepsHighest ⟨∅, 2, by decide⟩
      [.insert 4 4 3, .insert 5 5 4, .insert 6 6 5, .updateRange [⟨5, 15, 4⟩, ⟨6, 16, 15⟩]] := by
  refine (@window_keeps_highest_iff 2 ⟨∅, 2, by decide⟩ _ rfl).mpr ?_
  refine EveryStep.cons rfl trivial (EveryStep.cons rfl trivial (EveryStep.cons rfl trivial ?_))
  refine EveryStep.cons rfl ?_ trivial
  unfold Fitting
  decide

/-- A repair from below the window leaves more heights than it may hold. -/
theorem repair_exceeds_window :
    ¬ EveryStep step KeepsHighest ⟨∅, 1, by decide⟩
      [.insert 5 5 4, .updateRange [⟨4, 14, 3⟩, ⟨5, 15, 14⟩]] := by
  intro h
  obtain ⟨-, hRest⟩ := h _ rfl
  obtain ⟨hRepair, -⟩ := hRest _ rfl
  exact absurd hRepair.bounded (by decide)

end BlockChainWindow

end Rindexer.Reorg
