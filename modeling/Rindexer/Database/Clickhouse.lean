import Mathlib.Data.List.Dedup
import Mathlib.Algebra.BigOperators.Group.List.Basic
import Rindexer.Database.Cursors

/-! `reorg_rollback` on ClickHouse: a sequence of statements, each atomic, without a transaction.
The rewind of a cursor table reads its keys, deletes its rows and inserts one row for each key. -/

namespace Rindexer.Database

/-- The ClickHouse tables.  A cursor table holds every inserted row, and `FINAL` reads the greatest
block of a key; of the rows of `reorg_block_hashes` it reads the last one of a block number. -/
structure Clickhouse where
  events : String → EventTable
  cursorRows : String → List CursorRow
  blockHashes : String → Nat → Option (B256 × B256)

/-- `SELECT last_synced_block … FINAL WHERE network = … AND detail_key = …`. -/
def finalCursor (rows : List CursorRow) (network detailKey : String) : Option Nat :=
  ((rows.filter (CursorRow.isFor network detailKey)).map CursorRow.lastSyncedBlock).max?

/-- `SELECT detail_key … FINAL WHERE network = …`. -/
def finalKeys (rows : List CursorRow) (network : String) : List String :=
  ((rows.filter (·.network = network)).map CursorRow.detailKey).dedup

namespace Clickhouse

def cursor (ch : Clickhouse) (table network detailKey : String) : Option Nat :=
  finalCursor (ch.cursorRows table) network detailKey

def detailKeys (ch : Clickhouse) (table network : String) : List String :=
  finalKeys (ch.cursorRows table) network

def setCursorRows (ch : Clickhouse) (table : String) (rows : List CursorRow) : Clickhouse :=
  { ch with cursorRows := Function.update ch.cursorRows table rows }

def setBlockHashes (ch : Clickhouse) (network : String) (hashes : Nat → Option (B256 × B256)) :
    Clickhouse :=
  { ch with blockHashes := Function.update ch.blockHashes network hashes }

@[simp] theorem events_setCursorRows (ch : Clickhouse) (table : String) (rows : List CursorRow) :
    (ch.setCursorRows table rows).events = ch.events := rfl

@[simp] theorem blockHashes_setCursorRows (ch : Clickhouse) (table : String)
    (rows : List CursorRow) : (ch.setCursorRows table rows).blockHashes = ch.blockHashes := rfl

@[simp] theorem cursorRows_setCursorRows (ch : Clickhouse) (table : String)
    (rows : List CursorRow) : (ch.setCursorRows table rows).cursorRows =
      Function.update ch.cursorRows table rows := rfl

end Clickhouse

structure RollbackArgs where
  eventTables : List String
  network : String
  forkPoint : Nat
  detectionPoint : Nat
  checkpointTables : List String
  correctedBlocks : List Header

namespace RollbackArgs

def rewindBlock (args : RollbackArgs) : Nat := args.forkPoint - 1

def inRange (args : RollbackArgs) (number : Nat) : Bool :=
  args.forkPoint ≤ number && number ≤ args.detectionPoint

end RollbackArgs

/-- The statements of a rollback that write. -/
inductive RollbackStatement
  | deleteCursors (table : String)
  | insertCursor (table detailKey : String)
  | deleteEvents (table : String)
  | deleteBlockHashes
  | insertBlockHash (block : Header)
deriving DecidableEq

namespace RollbackStatement

def exec (args : RollbackArgs) (ch : Clickhouse) : RollbackStatement → Clickhouse
  | deleteCursors table =>
    ch.setCursorRows table ((ch.cursorRows table).filter fun r => !(r.network == args.network))
  | insertCursor table detailKey =>
    ch.setCursorRows table
      (ch.cursorRows table ++ [⟨args.network, detailKey, args.rewindBlock⟩])
  | deleteEvents table =>
    let events := deleteStaleEvents (ch.events table) args.network args.forkPoint
      args.detectionPoint
    { ch with events := Function.update ch.events table events }
  | deleteBlockHashes =>
    ch.setBlockHashes args.network fun number =>
      if args.inRange number then none else ch.blockHashes args.network number
  | insertBlockHash block =>
    ch.setBlockHashes args.network
      (Function.update (ch.blockHashes args.network) block.number
        (some (block.hash, block.parentHash)))

def touchesCursors : RollbackStatement → Bool
  | deleteCursors _ | insertCursor _ _ => true
  | _ => false

end RollbackStatement

open RollbackStatement

def execAll (args : RollbackArgs) (ch : Clickhouse) (statements : List RollbackStatement) :
    Clickhouse :=
  statements.foldl (exec args) ch

/-- The rewind of one cursor table, with the keys that it reads. -/
def rewindTable (args : RollbackArgs) (ch : Clickhouse) (table : String) :
    List RollbackStatement :=
  deleteCursors table :: (ch.detailKeys table args.network).map (insertCursor table)

/-- The rewinds, each reading its keys after the ones before it. -/
def rewindTables (args : RollbackArgs) : Clickhouse → List String → List RollbackStatement
  | _, [] => []
  | ch, table :: tables =>
    rewindTable args ch table ++
      rewindTables args (execAll args ch (rewindTable args ch table)) tables

/-- The statements after the rewinds. -/
def deletesAndHashes (args : RollbackArgs) : List RollbackStatement :=
  args.eventTables.map deleteEvents ++ deleteBlockHashes :: args.correctedBlocks.map insertBlockHash

def rollbackStatements (args : RollbackArgs) (ch : Clickhouse) : List RollbackStatement :=
  rewindTables args ch args.checkpointTables ++ deletesAndHashes args

def reorgRollback (args : RollbackArgs) (ch : Clickhouse) : Clickhouse :=
  execAll args ch (rollbackStatements args ch)

/-- What a rollback leaves that dies after `n` of its writes. -/
def dieAfter (args : RollbackArgs) (ch : Clickhouse) (n : Nat) : Clickhouse :=
  execAll args ch ((rollbackStatements args ch).take n)

/-- Two states that no query tells apart. -/
structure SameTables (a b : Clickhouse) : Prop where
  events : ∀ table, a.events table = b.events table
  cursors : ∀ table network detailKey,
    a.cursor table network detailKey = b.cursor table network detailKey
  blockHashes : ∀ network number, a.blockHashes network number = b.blockHashes network number

/-! ### Cursor rows -/

theorem mem_finalKeys {rows : List CursorRow} {network detailKey : String} :
    detailKey ∈ finalKeys rows network ↔ ∃ r ∈ rows, r.network = network ∧ r.detailKey = detailKey := by
  simp [finalKeys, and_assoc]

theorem finalKeys_nodup (rows : List CursorRow) (network : String) :
    (finalKeys rows network).Nodup := List.nodup_dedup _

/-- A key is read if and only if it has a cursor. -/
theorem finalCursor_isSome {rows : List CursorRow} {network detailKey : String} :
    (finalCursor rows network detailKey).isSome ↔ detailKey ∈ finalKeys rows network := by
  rw [mem_finalKeys, finalCursor, List.isSome_max?_iff]
  simp [CursorRow.isFor]

theorem isFor_of_network_ne {r : CursorRow} {network detailKey : String} (h : r.network ≠ network) :
    r.isFor network detailKey = false := by
  simp [CursorRow.isFor, h]

/-- The rows of a cursor table after its network's rows were deleted and `keys` were inserted. -/
def rewoundRows (args : RollbackArgs) (rows : List CursorRow) (keys : List String) :
    List CursorRow :=
  (rows.filter fun r => !(r.network == args.network)) ++
    keys.map fun key => ⟨args.network, key, args.rewindBlock⟩

theorem rewoundRows_filter (args : RollbackArgs) (rows : List CursorRow) (keys : List String) :
    (rewoundRows args rows keys).filter (·.network = args.network) =
      keys.map fun key => ⟨args.network, key, args.rewindBlock⟩ := by
  have hOld : (rows.filter fun r => !(r.network == args.network)).filter
      (·.network = args.network) = [] := by
    rw [List.filter_filter, List.filter_eq_nil_iff]
    simp
  have hNew : (keys.map fun key => (⟨args.network, key, args.rewindBlock⟩ : CursorRow)).filter
      (·.network = args.network) = keys.map fun key => ⟨args.network, key, args.rewindBlock⟩ := by
    rw [List.filter_eq_self]
    simp
  rw [rewoundRows, List.filter_append, hOld, hNew, List.nil_append]

theorem finalKeys_rewoundRows (args : RollbackArgs) (rows : List CursorRow) {keys : List String}
    (h : keys.Nodup) : finalKeys (rewoundRows args rows keys) args.network = keys := by
  rw [finalKeys, rewoundRows_filter, List.map_map]
  have hMap : keys.map (CursorRow.detailKey ∘
      fun key => (⟨args.network, key, args.rewindBlock⟩ : CursorRow)) = keys := List.map_id keys
  rw [hMap, h.dedup]

theorem finalCursor_rewoundRows (args : RollbackArgs) (rows : List CursorRow) (keys : List String)
    (detailKey : String) :
    finalCursor (rewoundRows args rows keys) args.network detailKey =
      if detailKey ∈ keys then some args.rewindBlock else none := by
  have hRows : ∀ r ∈ (rewoundRows args rows keys).filter (CursorRow.isFor args.network detailKey),
      r.lastSyncedBlock = args.rewindBlock := by
    intro r hr
    obtain ⟨hMem, hIs⟩ := List.mem_filter.mp hr
    have hNetwork : r ∈ (rewoundRows args rows keys).filter (·.network = args.network) :=
      List.mem_filter.mpr ⟨hMem, by simp [CursorRow.isFor] at hIs; simpa using hIs.1⟩
    rw [rewoundRows_filter] at hNetwork
    obtain ⟨key, -, rfl⟩ := List.mem_map.mp hNetwork
    rfl
  rw [finalCursor]
  split
  · rename_i hKey
    rw [List.max?_eq_some_iff]
    refine ⟨List.mem_map.mpr ⟨⟨args.network, detailKey, args.rewindBlock⟩, ?_, rfl⟩, ?_⟩
    · exact List.mem_filter.mpr ⟨List.mem_append_right _ (List.mem_map_of_mem hKey),
        by simp [CursorRow.isFor]⟩
    · intro b hb
      obtain ⟨r, hr, rfl⟩ := List.mem_map.mp hb
      exact Nat.le_of_eq (hRows r hr)
  · rename_i hKey
    rw [List.max?_eq_none_iff, List.map_eq_nil_iff, List.filter_eq_nil_iff]
    intro r hr hIs
    simp only [CursorRow.isFor, Bool.and_eq_true, beq_iff_eq] at hIs
    have hNetwork : r ∈ (rewoundRows args rows keys).filter (·.network = args.network) :=
      List.mem_filter.mpr ⟨hr, by simpa using hIs.1⟩
    rw [rewoundRows_filter] at hNetwork
    obtain ⟨key, hMem, rfl⟩ := List.mem_map.mp hNetwork
    exact hKey (hIs.2 ▸ hMem)

theorem finalCursor_rewoundRows_ne (args : RollbackArgs) (rows : List CursorRow)
    (keys : List String) {network : String} (h : network ≠ args.network) (detailKey : String) :
    finalCursor (rewoundRows args rows keys) network detailKey =
      finalCursor rows network detailKey := by
  have hFilter : (rewoundRows args rows keys).filter (CursorRow.isFor network detailKey) =
      rows.filter (CursorRow.isFor network detailKey) := by
    rw [rewoundRows, List.filter_append, List.filter_filter]
    have hNew : (keys.map fun key => (⟨args.network, key, args.rewindBlock⟩ : CursorRow)).filter
        (CursorRow.isFor network detailKey) = [] := by
      rw [List.filter_eq_nil_iff]
      simp [CursorRow.isFor, Ne.symm h]
    rw [hNew, List.append_nil]
    refine List.filter_congr fun r _ => ?_
    by_cases hr : r.network = network
    · simp [hr, h]
    · simp [isFor_of_network_ne hr]
  rw [finalCursor, hFilter, finalCursor]

section Rollback

variable (args : RollbackArgs)

/-! ### The rewinds -/

theorem execAll_append (ch : Clickhouse) (statements1 statements2 : List RollbackStatement) :
    execAll args ch (statements1 ++ statements2) =
      execAll args (execAll args ch statements1) statements2 :=
  List.foldl_append

theorem execAll_inserts (ch : Clickhouse) (table : String) (rows : List CursorRow)
    (keys : List String) :
    execAll args (ch.setCursorRows table rows) (keys.map (insertCursor table)) =
      ch.setCursorRows table
        (rows ++ keys.map fun key => ⟨args.network, key, args.rewindBlock⟩) := by
  induction keys generalizing rows with
  | nil => rw [List.map_nil, List.map_nil, List.append_nil]; rfl
  | cons key keys ih =>
    have hStep : exec args (ch.setCursorRows table rows) (insertCursor table key) =
        ch.setCursorRows table (rows ++ [⟨args.network, key, args.rewindBlock⟩]) := by
      simp [exec, Clickhouse.setCursorRows]
    rw [List.map_cons, execAll, List.foldl_cons, hStep]
    have hRest := ih (rows ++ [⟨args.network, key, args.rewindBlock⟩])
    rw [execAll] at hRest
    rw [hRest, List.map_cons, List.append_assoc, List.singleton_append]

/-- A rewind that dies after the delete and `j` inserts. -/
theorem execAll_rewindTable_take (ch : Clickhouse) (table : String) (j : Nat) :
    execAll args ch ((rewindTable args ch table).take (j + 1)) =
      ch.setCursorRows table (rewoundRows args (ch.cursorRows table)
        ((ch.detailKeys table args.network).take j)) := by
  rw [rewindTable, List.take_succ_cons, ← List.map_take, execAll, List.foldl_cons]
  exact execAll_inserts args ch table _ _

theorem execAll_rewindTable (ch : Clickhouse) (table : String) :
    execAll args ch (rewindTable args ch table) =
      ch.setCursorRows table (rewoundRows args (ch.cursorRows table)
        (ch.detailKeys table args.network)) := by
  have hTake := execAll_rewindTable_take args ch table (ch.detailKeys table args.network).length
  rw [List.take_length, List.take_of_length_le (by simp [rewindTable])] at hTake
  exact hTake

/-- A whole rewind keeps the keys. -/
theorem detailKeys_rewindTable (ch : Clickhouse) (table t : String) :
    (execAll args ch (rewindTable args ch table)).detailKeys t args.network =
      ch.detailKeys t args.network := by
  rw [execAll_rewindTable]
  by_cases ht : t = table
  · subst ht
    simp only [Clickhouse.detailKeys, Clickhouse.cursorRows_setCursorRows, Function.update_self]
    exact finalKeys_rewoundRows args _ (finalKeys_nodup _ _)
  · simp [Clickhouse.detailKeys, Function.update_of_ne ht]

/-- The writes of the rewinds of some tables. -/
def rewindWrites (ch : Clickhouse) (tables : List String) : Nat :=
  (tables.map fun table => 1 + (ch.detailKeys table args.network).length).sum

/-- After `n` writes a cursor table has lost its rows and not all of them are inserted again. -/
def DiesInRewind (ch : Clickhouse) (tables : List String) (n : Nat) : Prop :=
  ∃ before table after, tables = before ++ table :: after ∧ rewindWrites args ch before < n ∧
    n ≤ rewindWrites args ch before + (ch.detailKeys table args.network).length

theorem diesInRewind_cons {ch : Clickhouse} {table : String} {tables : List String} {n : Nat} :
    DiesInRewind args ch (table :: tables) n ↔
      (0 < n ∧ n ≤ (ch.detailKeys table args.network).length) ∨
      DiesInRewind args ch tables (n - (1 + (ch.detailKeys table args.network).length)) := by
  constructor
  · rintro ⟨before, t, after, hSplit, hLow, hHigh⟩
    cases before with
    | nil =>
      cases hSplit
      simp only [rewindWrites, List.map_nil, List.sum_nil, Nat.zero_add] at hLow hHigh
      exact .inl ⟨hLow, hHigh⟩
    | cons b before =>
      cases hSplit
      simp only [rewindWrites, List.map_cons, List.sum_cons] at hLow hHigh
      refine .inr ⟨before, t, after, rfl, ?_, ?_⟩
      · rw [rewindWrites]
        omega
      · rw [rewindWrites]
        omega
  · rintro (⟨hLow, hHigh⟩ | ⟨before, t, after, rfl, hLow, hHigh⟩)
    · exact ⟨[], table, tables, rfl, by simpa [rewindWrites] using hLow,
        by simpa [rewindWrites] using hHigh⟩
    · refine ⟨table :: before, t, after, rfl, ?_, ?_⟩
      · rw [rewindWrites] at hLow ⊢
        rw [List.map_cons, List.sum_cons]
        omega
      · rw [rewindWrites] at hLow hHigh ⊢
        rw [List.map_cons, List.sum_cons]
        omega

theorem diesInRewind_congr {ch ch' : Clickhouse} {tables : List String} {n : Nat}
    (h : ∀ t, ch'.detailKeys t args.network = ch.detailKeys t args.network) :
    DiesInRewind args ch' tables n ↔ DiesInRewind args ch tables n := by
  simp only [DiesInRewind, rewindWrites, h]

/-- The rewinds, dying after `n` writes, keep every key if no rewind was under way, and have lost
one otherwise. -/
theorem detailKeys_rewindTables_take (ch : Clickhouse) (tables : List String) (n : Nat) :
    (¬DiesInRewind args ch tables n → ∀ t,
      (execAll args ch ((rewindTables args ch tables).take n)).detailKeys t args.network =
        ch.detailKeys t args.network) ∧
    (DiesInRewind args ch tables n → ∃ t ∈ tables, ∃ key ∈ ch.detailKeys t args.network,
      key ∉ (execAll args ch ((rewindTables args ch tables).take n)).detailKeys t args.network) := by
  induction tables generalizing ch n with
  | nil =>
    refine ⟨fun _ t => by simp [rewindTables, execAll], ?_⟩
    rintro ⟨before, table, after, hSplit, -, -⟩
    exact absurd hSplit.symm (by simp)
  | cons table tables ih =>
    have hKeys := detailKeys_rewindTable args ch table
    have hLength : (rewindTable args ch table).length =
        1 + (ch.detailKeys table args.network).length := by
      simp [rewindTable, Nat.add_comm]
    rw [diesInRewind_cons, rewindTables, List.take_append, execAll_append, hLength]
    by_cases hHigh : 1 + (ch.detailKeys table args.network).length ≤ n
    · -- the rewind of `table` is complete
      rw [List.take_of_length_le (by rw [hLength]; exact hHigh)]
      obtain ⟨hKeep, hLose⟩ := ih (execAll args ch (rewindTable args ch table))
        (n - (1 + (ch.detailKeys table args.network).length))
      rw [diesInRewind_congr args hKeys] at hKeep hLose
      refine ⟨fun hNot t => (hKeep (fun h => hNot (.inr h)) t).trans (hKeys t), ?_⟩
      rintro (⟨-, hLow⟩ | hDies)
      · omega
      · obtain ⟨t, ht, key, hKey, hGone⟩ := hLose hDies
        exact ⟨t, List.mem_cons_of_mem _ ht, key, hKeys t ▸ hKey, hGone⟩
    · have hZero : n - (1 + (ch.detailKeys table args.network).length) = 0 := by omega
      rw [hZero, List.take_zero]
      cases n with
      | zero =>
        refine ⟨fun _ t => rfl, ?_⟩
        rintro (⟨h, -⟩ | ⟨before, t, after, -, h, -⟩)
        · exact absurd h (Nat.lt_irrefl 0)
        · exact absurd h (Nat.not_lt_zero _)
      | succ j =>
        have hj : j < (ch.detailKeys table args.network).length := by omega
        refine ⟨fun hNot => absurd (.inl ⟨Nat.succ_pos j, hj⟩) hNot, fun _ => ?_⟩
        refine ⟨table, List.mem_cons_self, (ch.detailKeys table args.network)[j],
          List.getElem_mem hj, ?_⟩
        have hNodup := finalKeys_nodup (ch.cursorRows table) args.network
        have hTaken : ((ch.detailKeys table args.network).take j).Nodup :=
          hNodup.sublist (List.take_sublist _ _)
        have hState := execAll_rewindTable_take args ch table j
        rw [execAll, List.foldl_nil, hState, Clickhouse.detailKeys,
          Clickhouse.cursorRows_setCursorRows, Function.update_self,
          finalKeys_rewoundRows args _ hTaken]
        intro hMem
        obtain ⟨i, hi, hSame⟩ := List.getElem_of_mem hMem
        rw [List.getElem_take] at hSame
        rw [List.length_take] at hi
        have hEq := (List.Nodup.getElem_inj_iff hNodup).mp hSame
        omega

/-! ### What a rollback leaves -/

/-- The rewinds set the cursors that they read, and no others. -/
theorem cursor_rewindTables (ch : Clickhouse) (tables : List String)
    (table network detailKey : String) :
    (execAll args ch (rewindTables args ch tables)).cursor table network detailKey =
      if table ∈ tables ∧ network = args.network then
        if detailKey ∈ ch.detailKeys table args.network then some args.rewindBlock else none
      else ch.cursor table network detailKey := by
  induction tables generalizing ch with
  | nil => simp [rewindTables, execAll]
  | cons t tables ih =>
    rw [rewindTables, execAll_append, ih, detailKeys_rewindTable, execAll_rewindTable]
    by_cases hNetwork : network = args.network
    · subst hNetwork
      by_cases hTail : table ∈ tables
      · simp [hTail]
      · by_cases hHead : table = t
        · subst hHead
          by_cases hKey : detailKey ∈ ch.detailKeys table args.network
          · simp [hTail, Clickhouse.cursor, finalCursor_rewoundRows, hKey]
          · simp [hTail, Clickhouse.cursor, finalCursor_rewoundRows, hKey]
        · simp [hTail, hHead, Clickhouse.cursor]
    · have hOther : (ch.setCursorRows t (rewoundRows args (ch.cursorRows t)
          (ch.detailKeys t args.network))).cursor table network detailKey =
            ch.cursor table network detailKey := by
        by_cases hHead : table = t
        · subst hHead
          simp [Clickhouse.cursor, finalCursor_rewoundRows_ne args _ _ hNetwork]
        · simp [Clickhouse.cursor, Function.update_of_ne hHead]
      simp [hNetwork, hOther]

theorem execAll_events (ch : Clickhouse) (tables : List String) (table : String) :
    (execAll args ch (tables.map deleteEvents)).events table =
      if table ∈ tables then
        deleteStaleEvents (ch.events table) args.network args.forkPoint args.detectionPoint
      else ch.events table := by
  induction tables generalizing ch with
  | nil => rfl
  | cons t tables ih =>
    have hStep := ih (exec args ch (deleteEvents t))
    rw [List.map_cons, execAll, List.foldl_cons]
    rw [execAll] at hStep
    rw [hStep]
    by_cases hHead : table = t
    · subst hHead
      simp [exec, deleteStaleEvents_idem]
    · simp [exec, hHead]

/-- The hashes of a block number after the inserts: those of the last corrected block of it. -/
def correctedHash (blocks : List Header) (number : Nat) : Option (B256 × B256) :=
  (blocks.reverse.find? (·.number = number)).map fun b => (b.hash, b.parentHash)

theorem execAll_blockHashes (ch : Clickhouse) (blocks : List Header) (network : String)
    (number : Nat) :
    (execAll args ch (blocks.map insertBlockHash)).blockHashes network number =
      if network = args.network then
        (correctedHash blocks number).or (ch.blockHashes network number)
      else ch.blockHashes network number := by
  induction blocks generalizing ch with
  | nil => simp [execAll, correctedHash]
  | cons b blocks ih =>
    have hStep := ih (exec args ch (insertBlockHash b))
    rw [List.map_cons, execAll, List.foldl_cons]
    rw [execAll] at hStep
    rw [hStep]
    by_cases hNetwork : network = args.network
    · subst hNetwork
      have hCons : correctedHash (b :: blocks) number = (correctedHash blocks number).or
          (if b.number = number then some (b.hash, b.parentHash) else none) := by
        simp only [correctedHash, List.reverse_cons, List.find?_append, Option.map_or]
        congr 1
        by_cases hb : b.number = number <;> simp [hb]
      rw [hCons, if_pos rfl, if_pos rfl, Option.or_assoc]
      congr 1
      by_cases hb : number = b.number
      · subst hb
        simp [exec, Clickhouse.setBlockHashes]
      · simp [exec, Clickhouse.setBlockHashes, Function.update_of_ne hb, Ne.symm hb]
    · simp [hNetwork, exec, Clickhouse.setBlockHashes]

/-- A statement that a rollback may execute. -/
def Belongs : RollbackStatement → Prop
  | deleteCursors table => table ∈ args.checkpointTables
  | insertCursor table _ => table ∈ args.checkpointTables
  | deleteEvents table => table ∈ args.eventTables
  | deleteBlockHashes => True
  | insertBlockHash block => block ∈ args.correctedBlocks

theorem belongs_rewindTables (ch : Clickhouse) {tables : List String}
    (h : tables ⊆ args.checkpointTables) :
    ∀ statement ∈ rewindTables args ch tables, Belongs args statement := by
  induction tables generalizing ch with
  | nil => exact fun _ hs => absurd hs List.not_mem_nil
  | cons t tables ih =>
    intro statement hs
    rcases List.mem_append.mp hs with hs | hs
    · rcases List.mem_cons.mp hs with rfl | hs
      · exact h List.mem_cons_self
      · obtain ⟨key, -, rfl⟩ := List.mem_map.mp hs
        exact h List.mem_cons_self
    · exact ih _ (fun _ ht => h (List.mem_cons_of_mem _ ht)) statement hs

theorem belongs_rollbackStatements (ch : Clickhouse) :
    ∀ statement ∈ rollbackStatements args ch, Belongs args statement := by
  intro statement hs
  rcases List.mem_append.mp hs with hs | hs
  · exact belongs_rewindTables args ch (fun _ h => h) statement hs
  · rcases List.mem_append.mp hs with hs | hs
    · obtain ⟨table, ht, rfl⟩ := List.mem_map.mp hs
      exact ht
    · rcases List.mem_cons.mp hs with rfl | hs
      · trivial
      · obtain ⟨block, hb, rfl⟩ := List.mem_map.mp hs
        exact hb

/-- What the statements of a rollback leave as it was: events that its deletes spare, cursors that
it does not rewind, and hashes that it neither deletes nor corrects. -/
structure Spared (a b : Clickhouse) : Prop where
  deleted : ∀ table ∈ args.eventTables,
    deleteStaleEvents (b.events table) args.network args.forkPoint args.detectionPoint =
      deleteStaleEvents (a.events table) args.network args.forkPoint args.detectionPoint
  events : ∀ table, table ∉ args.eventTables → b.events table = a.events table
  cursors : ∀ table network detailKey,
    ¬(table ∈ args.checkpointTables ∧ network = args.network) →
      b.cursor table network detailKey = a.cursor table network detailKey
  blockHashes : ∀ network number,
    ¬(network = args.network ∧
      (args.inRange number = true ∨ ∃ block ∈ args.correctedBlocks, block.number = number)) →
        b.blockHashes network number = a.blockHashes network number

theorem Spared.refl (a : Clickhouse) : Spared args a a :=
  ⟨fun _ _ => rfl, fun _ _ => rfl, fun _ _ _ _ => rfl, fun _ _ _ => rfl⟩

theorem Spared.trans {a b c : Clickhouse} (h : Spared args a b) (h' : Spared args b c) :
    Spared args a c where
  deleted := fun t ht => (h'.deleted t ht).trans (h.deleted t ht)
  events := fun t ht => (h'.events t ht).trans (h.events t ht)
  cursors := fun t n k hk => (h'.cursors t n k hk).trans (h.cursors t n k hk)
  blockHashes := fun n m hm => (h'.blockHashes n m hm).trans (h.blockHashes n m hm)

theorem finalCursor_append_ne {rows : List CursorRow} {row : CursorRow}
    {network detailKey : String} (h : row.network ≠ network) :
    finalCursor (rows ++ [row]) network detailKey = finalCursor rows network detailKey := by
  rw [finalCursor, List.filter_append, List.filter_cons_of_neg (by simp [isFor_of_network_ne h]),
    List.filter_nil, List.append_nil, finalCursor]

theorem spared_setCursorRows (ch : Clickhouse) {table : String} {rows : List CursorRow}
    (hTable : table ∈ args.checkpointTables)
    (hRows : ∀ network detailKey, network ≠ args.network →
      finalCursor rows network detailKey = ch.cursor table network detailKey) :
    Spared args ch (ch.setCursorRows table rows) where
  deleted := fun _ _ => rfl
  events := fun _ _ => rfl
  cursors := by
    intro t network detailKey hNot
    by_cases ht : t = table
    · subst ht
      simp only [Clickhouse.cursor, Clickhouse.cursorRows_setCursorRows, Function.update_self]
      exact hRows network detailKey fun hNetwork => hNot ⟨hTable, hNetwork⟩
    · simp [Clickhouse.cursor, Function.update_of_ne ht]
  blockHashes := fun _ _ _ => rfl

theorem spared_setBlockHashes (ch : Clickhouse) {hashes : Nat → Option (B256 × B256)}
    (h : ∀ number, ¬(args.inRange number = true ∨
      ∃ block ∈ args.correctedBlocks, block.number = number) →
        hashes number = ch.blockHashes args.network number) :
    Spared args ch (ch.setBlockHashes args.network hashes) where
  deleted := fun _ _ => rfl
  events := fun _ _ => rfl
  cursors := fun _ _ _ _ => rfl
  blockHashes := by
    intro network number hNot
    by_cases hNetwork : network = args.network
    · subst hNetwork
      simp only [Clickhouse.setBlockHashes, Function.update_self]
      exact h number fun hChanged => hNot ⟨rfl, hChanged⟩
    · simp [Clickhouse.setBlockHashes, Function.update_of_ne hNetwork]

/-- What one statement of a rollback spares. -/
theorem spared_exec (ch : Clickhouse) {statement : RollbackStatement}
    (h : Belongs args statement) : Spared args ch (exec args ch statement) := by
  cases statement with
  | deleteCursors table =>
    refine spared_setCursorRows args ch h fun network detailKey hNetwork => ?_
    have hRewound := finalCursor_rewoundRows_ne args (ch.cursorRows table) [] hNetwork detailKey
    rwa [rewoundRows, List.map_nil, List.append_nil] at hRewound
  | insertCursor table key =>
    exact spared_setCursorRows args ch h fun network detailKey hNetwork =>
      finalCursor_append_ne (Ne.symm hNetwork)
  | deleteEvents table =>
    refine ⟨fun t ht => ?_, fun t ht => ?_, fun _ _ _ _ => rfl, fun _ _ _ => rfl⟩
    · by_cases hSame : t = table
      · subst hSame
        simp [exec, deleteStaleEvents_idem]
      · simp [exec, Function.update_of_ne hSame]
    · have hOther : t ≠ table := fun hSame => ht (hSame ▸ h)
      simp [exec, Function.update_of_ne hOther]
  | deleteBlockHashes =>
    refine spared_setBlockHashes args ch fun number hNot => ?_
    rw [if_neg fun hRange => hNot (.inl hRange)]
  | insertBlockHash block =>
    refine spared_setBlockHashes args ch fun number hNot => ?_
    exact Function.update_of_ne (fun hSame => hNot (.inr ⟨block, h, hSame.symm⟩)) _ _

/-- What any statements of a rollback spare, one after another. -/
theorem spared_execAll (ch : Clickhouse) {statements : List RollbackStatement}
    (h : ∀ statement ∈ statements, Belongs args statement) :
    Spared args ch (execAll args ch statements) := by
  induction statements generalizing ch with
  | nil => exact Spared.refl args ch
  | cons statement statements ih =>
    exact (spared_exec args ch (h _ List.mem_cons_self)).trans args
      (ih _ fun s hs => h s (List.mem_cons_of_mem _ hs))

theorem correctedHash_eq_none_iff {blocks : List Header} {number : Nat} :
    correctedHash blocks number = none ↔ ¬∃ block ∈ blocks, block.number = number := by
  simp [correctedHash]

theorem rewindTables_spares (ch : Clickhouse) (tables : List String) :
    (execAll args ch (rewindTables args ch tables)).events = ch.events ∧
      (execAll args ch (rewindTables args ch tables)).blockHashes = ch.blockHashes := by
  induction tables generalizing ch with
  | nil => exact ⟨rfl, rfl⟩
  | cons t tables ih =>
    obtain ⟨hEvents, hHashes⟩ := ih (execAll args ch (rewindTable args ch t))
    rw [rewindTables, execAll_append, hEvents, hHashes, execAll_rewindTable]
    exact ⟨rfl, rfl⟩

theorem cursorRows_execAll (ch : Clickhouse) {statements : List RollbackStatement}
    (h : ∀ statement ∈ statements, statement.touchesCursors = false) :
    (execAll args ch statements).cursorRows = ch.cursorRows := by
  induction statements generalizing ch with
  | nil => rfl
  | cons statement statements ih =>
    have hRest := ih (exec args ch statement) fun s hs => h s (List.mem_cons_of_mem _ hs)
    have hFirst := h statement List.mem_cons_self
    refine hRest.trans ?_
    cases statement with
    | deleteCursors _ => cases hFirst
    | insertCursor _ _ => cases hFirst
    | _ => rfl

theorem touchesCursors_deletesAndHashes :
    ∀ statement ∈ deletesAndHashes args, statement.touchesCursors = false := by
  simp only [deletesAndHashes, List.mem_append, List.mem_cons, List.mem_map]
  rintro statement (⟨table, -, rfl⟩ | rfl | ⟨block, -, rfl⟩)
  · rfl
  · rfl
  · rfl

theorem blockHashes_deleteEvents (ch : Clickhouse) (tables : List String) :
    (execAll args ch (tables.map deleteEvents)).blockHashes = ch.blockHashes := by
  induction tables generalizing ch with
  | nil => rfl
  | cons t tables ih => exact ih (exec args ch (deleteEvents t))

theorem events_insertBlockHash (ch : Clickhouse) (blocks : List Header) :
    (execAll args ch (blocks.map insertBlockHash)).events = ch.events := by
  induction blocks generalizing ch with
  | nil => rfl
  | cons b blocks ih => exact ih (exec args ch (insertBlockHash b))

/-- The tables after the statements that follow the rewinds. -/
theorem execAll_deletesAndHashes (ch : Clickhouse) :
    (execAll args ch (deletesAndHashes args)).cursorRows = ch.cursorRows ∧
    (∀ table, (execAll args ch (deletesAndHashes args)).events table =
      if table ∈ args.eventTables then
        deleteStaleEvents (ch.events table) args.network args.forkPoint args.detectionPoint
      else ch.events table) ∧
    ∀ network number, (execAll args ch (deletesAndHashes args)).blockHashes network number =
      if network = args.network then
        (correctedHash args.correctedBlocks number).or
          (if args.inRange number then none else ch.blockHashes network number)
      else ch.blockHashes network number := by
  refine ⟨cursorRows_execAll args ch (touchesCursors_deletesAndHashes args), ?_⟩
  rw [deletesAndHashes, execAll_append]
  have hCons : ∀ c : Clickhouse, execAll args c
      (deleteBlockHashes :: args.correctedBlocks.map insertBlockHash) =
        execAll args (exec args c deleteBlockHashes) (args.correctedBlocks.map insertBlockHash) :=
    fun _ => rfl
  rw [hCons]
  refine ⟨fun table => ?_, fun network number => ?_⟩
  · rw [events_insertBlockHash]
    exact execAll_events args ch args.eventTables table
  · rw [execAll_blockHashes]
    have hHashes := blockHashes_deleteEvents args ch args.eventTables
    by_cases hNetwork : network = args.network
    · subst hNetwork
      simp [exec, Clickhouse.setBlockHashes, hHashes]
    · simp [hNetwork, exec, Clickhouse.setBlockHashes, hHashes]

/-- A rollback of two states with the same keys, one of which spares what the other one has, leaves
the same tables; if the keys differ it does not. -/
theorem reorgRollback_sameTables_iff {a b : Clickhouse} (h : Spared args a b) :
    SameTables (reorgRollback args b) (reorgRollback args a) ↔
      ∀ table ∈ args.checkpointTables, ∀ key,
        key ∈ b.detailKeys table args.network ↔ key ∈ a.detailKeys table args.network := by
  have hCursor : ∀ c table network key, (reorgRollback args c).cursor table network key =
      (execAll args c (rewindTables args c args.checkpointTables)).cursor table network key := by
    intro c table network key
    rw [reorgRollback, rollbackStatements, execAll_append, Clickhouse.cursor,
      (execAll_deletesAndHashes args _).1, Clickhouse.cursor]
  constructor
  · intro hSame table hTable key
    have hEq := hSame.cursors table args.network key
    have hRewound : table ∈ args.checkpointTables ∧ args.network = args.network := ⟨hTable, rfl⟩
    rw [hCursor, hCursor, cursor_rewindTables, cursor_rewindTables, if_pos hRewound,
      if_pos hRewound] at hEq
    by_cases hb : key ∈ b.detailKeys table args.network
    · by_cases ha : key ∈ a.detailKeys table args.network
      · exact ⟨fun _ => ha, fun _ => hb⟩
      · simp [ha, hb] at hEq
    · by_cases ha : key ∈ a.detailKeys table args.network
      · simp [ha, hb] at hEq
      · exact ⟨fun h => absurd h hb, fun h => absurd h ha⟩
  · intro hKeys
    refine ⟨fun table => ?_, fun table network key => ?_, fun network number => ?_⟩
    · rw [reorgRollback, rollbackStatements, execAll_append,
        (execAll_deletesAndHashes args _).2.1, (rewindTables_spares args b _).1,
        reorgRollback, rollbackStatements, execAll_append,
        (execAll_deletesAndHashes args _).2.1, (rewindTables_spares args a _).1]
      by_cases hTable : table ∈ args.eventTables
      · rw [if_pos hTable, if_pos hTable, h.deleted table hTable]
      · rw [if_neg hTable, if_neg hTable, h.events table hTable]
    · rw [hCursor, hCursor, cursor_rewindTables, cursor_rewindTables]
      by_cases hRewound : table ∈ args.checkpointTables ∧ network = args.network
      · simp only [if_pos hRewound, hKeys table hRewound.1 key]
      · rw [if_neg hRewound, if_neg hRewound, h.cursors table network key hRewound]
    · rw [reorgRollback, rollbackStatements, execAll_append,
        (execAll_deletesAndHashes args _).2.2, (rewindTables_spares args b _).2,
        reorgRollback, rollbackStatements, execAll_append,
        (execAll_deletesAndHashes args _).2.2, (rewindTables_spares args a _).2]
      by_cases hNetwork : network = args.network
      · rw [if_pos hNetwork, if_pos hNetwork]
        cases hCorrected : correctedHash args.correctedBlocks number with
        | some hashes => rfl
        | none =>
          rw [Option.none_or, Option.none_or]
          by_cases hRange : args.inRange number = true
          · rw [if_pos hRange, if_pos hRange]
          · rw [if_neg hRange, if_neg hRange, h.blockHashes network number]
            rintro ⟨-, hIn | hBlock⟩
            · exact hRange hIn
            · exact correctedHash_eq_none_iff.mp hCorrected hBlock
      · rw [if_neg hNetwork, if_neg hNetwork,
          h.blockHashes network number fun hBoth => hNetwork hBoth.1]

/-- The keys that a rollback leaves that dies after `n` writes. -/
theorem detailKeys_dieAfter (ch : Clickhouse) (n : Nat) (table : String) :
    (dieAfter args ch n).detailKeys table args.network =
      (execAll args ch ((rewindTables args ch args.checkpointTables).take n)).detailKeys table
        args.network := by
  rw [dieAfter, rollbackStatements, List.take_append, execAll_append, Clickhouse.detailKeys,
    cursorRows_execAll args _ fun s hs =>
      touchesCursors_deletesAndHashes args s (List.mem_of_mem_take hs), Clickhouse.detailKeys]

/-- A retry ends as one uninterrupted run if and only if the process does not die between the delete
of a cursor table and the insert of its last row. -/
theorem retry_iff_not_diesInRewind (ch : Clickhouse) (n : Nat) :
    SameTables (reorgRollback args (dieAfter args ch n)) (reorgRollback args ch) ↔
      ¬DiesInRewind args ch args.checkpointTables n := by
  have hSpared : Spared args ch (dieAfter args ch n) := spared_execAll args ch fun s hs =>
    belongs_rollbackStatements args ch s (List.mem_of_mem_take hs)
  obtain ⟨hKeep, hLose⟩ := detailKeys_rewindTables_take args ch args.checkpointTables n
  rw [reorgRollback_sameTables_iff args hSpared]
  constructor
  · intro hKeys hDies
    obtain ⟨table, hTable, key, hKey, hGone⟩ := hLose hDies
    rw [← detailKeys_dieAfter] at hGone
    exact hGone ((hKeys table hTable key).mpr hKey)
  · intro hNot table _ key
    rw [detailKeys_dieAfter, hKeep hNot table]

end Rollback

/-- A rollback of one cursor table from block 100 on. -/
def forkArgs : RollbackArgs where
  eventTables := []
  network := "ethereum"
  forkPoint := 100
  detectionPoint := 110
  checkpointTables := ["token_transfer"]
  correctedBlocks := []

/-- One cursor, at block 120. -/
def oneCursor : Clickhouse where
  events _ := ⟨[], []⟩
  cursorRows table :=
    if table = "token_transfer" then [⟨"ethereum", legacyDetailKey, 120⟩] else []
  blockHashes _ _ := none

/-- A process that dies right after the delete loses the cursor for good: the retry finds no key. -/
theorem crash_loses_cursor :
    oneCursor.cursor "token_transfer" "ethereum" legacyDetailKey = some 120 ∧
    (reorgRollback forkArgs (dieAfter forkArgs oneCursor 1)).cursor "token_transfer" "ethereum"
      legacyDetailKey = none ∧
    ¬SameTables (reorgRollback forkArgs (dieAfter forkArgs oneCursor 1))
      (reorgRollback forkArgs oneCursor) := by
  have hLost : (reorgRollback forkArgs (dieAfter forkArgs oneCursor 1)).cursor "token_transfer"
      "ethereum" legacyDetailKey = none := by decide
  have hKept : (reorgRollback forkArgs oneCursor).cursor "token_transfer" "ethereum"
      legacyDetailKey = some 99 := by decide
  refine ⟨by decide, hLost, fun hSame => ?_⟩
  have hEq := hSame.cursors "token_transfer" "ethereum" legacyDetailKey
  rw [hLost, hKept] at hEq
  cases hEq

end Rindexer.Database
