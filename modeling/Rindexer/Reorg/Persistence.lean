import Rindexer.Reorg.Statements

/-! `ReorgBlockHashPersistence` on Postgres: the block hashes of a network are upserted one by one,
pruned from below, and loaded into a new window. -/

namespace Rindexer.Reorg

open Rindexer.Lib Rindexer.Database

namespace ReorgBlockHashPersistence

/-- The rows in ascending order, inserted into the window. -/
def loadLoop : BlockChainWindow → List (Nat × B256 × B256) → BlockChainWindow
  | window, [] => window
  | window, row :: rows => loadLoop (window.insert row.1 row.2.1 row.2.2) rows

def load (db : Db) (network : String) (maxWindowSize : Nat) : Except String BlockChainWindow :=
  if !validateSqlValue network then .error s!"network '{network}' contains invalid characters"
  else
    match BlockChainWindow.tryNew maxWindowSize with
    | .error e => .error e
    | .ok window => .ok (loadLoop window (db.blockHashes network).entries)

/-- `INSERT … ON CONFLICT (network, block_number) DO UPDATE`. -/
def insertBlock (db : Db) (network : String) (blockNumber : Nat) (blockHash parentHash : B256) :
    Except String Db :=
  if !validateSqlValue network then .error s!"network '{network}' contains invalid characters"
  else if i64Max < blockNumber then .error s!"block_number {blockNumber} exceeds i64 range"
  else
    .ok { db with
      blockHashes := Function.update db.blockHashes network
        ((db.blockHashes network).insert blockNumber (blockHash, parentHash)) }

/-- `DELETE … WHERE block_number < $2`.  The bound is cast: from 2^63 on it is negative. -/
def prune (db : Db) (network : String) (olderThan : Nat) : Db :=
  if i64Max < olderThan then db
  else
    { db with
      blockHashes := Function.update db.blockHashes network
        ((db.blockHashes network).restrict (olderThan ≤ ·)) }

/-! ### What a load leaves in the window -/

/-- Inserting ascending rows above the window keeps the last ones that fit. -/
theorem loadLoop_entries {window : BlockChainWindow} {rows : List (Nat × B256 × B256)}
    (hAsc : (window.entries.entries ++ rows).Pairwise fun a b => a.1 < b.1)
    (hLen : window.len ≤ window.maxWindowSize) :
    (loadLoop window rows).entries.entries = (window.entries.entries ++ rows).drop
      ((window.entries.entries ++ rows).length - window.maxWindowSize) := by
  induction rows generalizing window with
  | nil =>
    have hNone : window.entries.entries.length - window.maxWindowSize = 0 := by
      unfold BlockChainWindow.len OrderedMap.size at hLen
      omega
    simp only [loadLoop, List.append_nil, hNone, List.drop_zero]
  | cons row rows ih =>
    obtain ⟨number, hash, parentHash⟩ := row
    have hAbove : ∀ k ∈ window.entries.keys, k < number := by
      intro k hMem
      obtain ⟨e, hEntry, rfl⟩ := List.mem_map.mp hMem
      exact (List.pairwise_append.mp hAsc).2.2 e hEntry _ List.mem_cons_self
    have hInsert : (window.insert number hash parentHash).entries.entries =
        (window.entries.entries ++ [(number, hash, parentHash)]).drop
          (window.entries.entries.length + 1 - window.maxWindowSize) := by
      unfold BlockChainWindow.insert
      rw [BlockChainWindow.prune_entries]
      simp only [OrderedMap.dropFirst, OrderedMap.size, OrderedMap.insert_above hAbove,
        List.length_append, List.length_singleton]
    have hSplit : window.entries.entries ++ (number, hash, parentHash) :: rows =
        window.entries.entries ++ [(number, hash, parentHash)] ++ rows := by simp
    have hDropped : window.entries.entries.length + 1 - window.maxWindowSize ≤
        (window.entries.entries ++ [(number, hash, parentHash)]).length := by
      rw [List.length_append, List.length_singleton]
      omega
    have hAppend : (window.insert number hash parentHash).entries.entries ++ rows =
        (window.entries.entries ++ (number, hash, parentHash) :: rows).drop
          (window.entries.entries.length + 1 - window.maxWindowSize) := by
      rw [hInsert, hSplit, List.drop_append_of_le_length hDropped]
    have hMax : (window.insert number hash parentHash).maxWindowSize = window.maxWindowSize := rfl
    rw [loadLoop, ih]
    · rw [hAppend, List.drop_drop, List.length_drop, hMax]
      congr 1
      simp only [List.length_append, List.length_cons]
      omega
    · rw [hAppend]
      exact hAsc.drop
    · exact BlockChainWindow.prune_len_le _

theorem loadLoop_maxWindowSize (window : BlockChainWindow) (rows : List (Nat × B256 × B256)) :
    (loadLoop window rows).maxWindowSize = window.maxWindowSize := by
  induction rows generalizing window with
  | nil => rfl
  | cons row rows ih => exact ih _

/-- A load keeps the last rows of the network that fit the window. -/
theorem load_ok {db : Db} {network : String} {maxWindowSize : Nat} {window : BlockChainWindow}
    (h : load db network maxWindowSize = .ok window) :
    window.maxWindowSize = maxWindowSize ∧ window.entries = (db.blockHashes network).dropFirst
      ((db.blockHashes network).size - maxWindowSize) := by
  unfold load at h
  split at h
  · cases h
  · unfold BlockChainWindow.tryNew at h
    split at h
    · cases h
    · rename_i new hNew
      split at hNew
      · cases hNew
        cases h
        refine ⟨loadLoop_maxWindowSize _ _, OrderedMap.eq_of_entries ?_⟩
        rw [loadLoop_entries]
        · rfl
        · exact (db.blockHashes network).ascending
        · exact Nat.zero_le _
      · cases hNew

/-- A load succeeds for every network name that is safe in SQL and every window size but zero. -/
theorem load_succeeds (db : Db) {network : String} {maxWindowSize : Nat}
    (hNetwork : validateSqlValue network = true) (hSize : 0 < maxWindowSize) :
    ∃ window, load db network maxWindowSize = .ok window := by
  unfold load BlockChainWindow.tryNew
  rw [hNetwork, dif_pos hSize]
  exact ⟨_, rfl⟩

end ReorgBlockHashPersistence

end Rindexer.Reorg
