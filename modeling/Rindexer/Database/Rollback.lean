import Mathlib.Data.List.Destutter
import Mathlib.Data.List.Sort
import Rindexer.Database.Schema

/-! `reorg_rollback_transaction`: the deletes, the corrected block hashes, and the cursor rewind that
commit together, and what a commit says about each table. -/

namespace Rindexer.Database

open Rindexer.Lib

/-- `DELETE … WHERE network = $1 AND block_number >= $2 AND block_number <= $3`, on one table. -/
def deleteStaleEvents (table : EventTable) (network : String) (forkPoint detectionPoint : Nat) :
    EventTable :=
  { table with
    rows := table.rows.filter fun r =>
      !(r.network == network && forkPoint ≤ r.blockNumber && r.blockNumber ≤ detectionPoint) }

/-- The transaction hashes that the delete on one table returns. -/
def staleTxHashes (table : EventTable) (network : String) (forkPoint detectionPoint : Nat) :
    List String :=
  (table.rows.filter fun r =>
    r.network == network && forkPoint ≤ r.blockNumber && r.blockNumber ≤ detectionPoint).map
      EventRow.txHash

/-- The deletes, one table after another. -/
def deleteAllStale (network : String) (forkPoint detectionPoint : Nat) :
    List String → (String → EventTable) → List String →
      (String → EventTable) × List String
  | [], events, hashes => (events, hashes)
  | name :: names, events, hashes =>
    deleteAllStale network forkPoint detectionPoint names
      (Function.update events name
        (deleteStaleEvents (events name) network forkPoint detectionPoint))
      (hashes ++ staleTxHashes (events name) network forkPoint detectionPoint)

/-- The inserts of the corrected blocks.  They are plain inserts: a block number that the table
already holds for the network violates its primary key. -/
def insertCorrected : OrderedMap Nat (B256 × B256) → List Header →
    Except String (OrderedMap Nat (B256 × B256))
  | hashes, [] => .ok hashes
  | hashes, b :: blocks =>
    if i64Max < b.number then .error s!"block_number {b.number} exceeds i64 range"
    else if (hashes.get? b.number).isSome then
      .error "duplicate key value violates unique constraint \"reorg_block_hashes_pkey\""
    else insertCorrected (hashes.insert b.number (b.hash, b.parentHash)) blocks

/-- `UPDATE rindexer_internal.{table} SET last_synced_block = $1 WHERE network = $2`. -/
def rewindCursors (network : String) (rewindBlock : Nat) (rows : List CursorRow) :
    List CursorRow :=
  rows.map fun r => if r.network = network then { r with lastSyncedBlock := rewindBlock } else r

def rewindAll (network : String) (rewindBlock : Nat) (tables : List String)
    (cursors : String → List CursorRow) : String → List CursorRow :=
  fun table =>
    if table ∈ tables then rewindCursors network rewindBlock (cursors table) else cursors table

/-- The rollback transaction: the state it commits, the number of rows deleted, and the affected
transaction hashes. -/
def reorgRollbackTransaction (db : Db) (eventTableNames : List String) (network : String)
    (forkPoint detectionPoint : Nat) (correctedBlocks : List Header)
    (checkpointTables : List String) : Except String (Db × Nat × List String) :=
  if i64Max < forkPoint then .error "fork_point exceeds i64 range"
  else if i64Max < detectionPoint then .error "detection_point exceeds i64 range"
  else
    let deleted := deleteAllStale network forkPoint detectionPoint eventTableNames db.events []
    let kept := (db.blockHashes network).restrict fun n =>
      !(forkPoint ≤ n && n ≤ detectionPoint)
    match insertCorrected kept correctedBlocks with
    | .error e => .error e
    | .ok corrected =>
      .ok ({ db with
        events := deleted.1
        blockHashes := Function.update db.blockHashes network corrected
        cursors := rewindAll network (forkPoint - 1) checkpointTables db.cursors },
        deleted.2.length, (deleted.2.insertionSort (· ≤ ·)).destutter (· ≠ ·))

/-! ### The tables after a commit -/

theorem mem_deleteStaleEvents {table : EventTable} {network : String}
    {forkPoint detectionPoint : Nat} {r : EventRow} :
    r ∈ (deleteStaleEvents table network forkPoint detectionPoint).rows ↔
      r ∈ table.rows ∧
        ¬(r.network = network ∧ forkPoint ≤ r.blockNumber ∧ r.blockNumber ≤ detectionPoint) := by
  simp only [deleteStaleEvents, List.mem_filter, Bool.not_eq_true', Bool.and_eq_false_iff,
    beq_eq_false_iff_ne, decide_eq_false_iff_not]
  tauto

theorem deleteStaleEvents_idem (table : EventTable) (network : String)
    (forkPoint detectionPoint : Nat) :
    deleteStaleEvents (deleteStaleEvents table network forkPoint detectionPoint) network forkPoint
      detectionPoint = deleteStaleEvents table network forkPoint detectionPoint := by
  simp [deleteStaleEvents, List.filter_filter]

/-- The deletes change the listed tables, each once, and no other. -/
theorem deleteAllStale_events (network : String) (forkPoint detectionPoint : Nat)
    (names : List String) (events : String → EventTable) (hashes : List String) (name : String) :
    (deleteAllStale network forkPoint detectionPoint names events hashes).1 name =
      if name ∈ names then deleteStaleEvents (events name) network forkPoint detectionPoint
      else events name := by
  induction names generalizing events hashes with
  | nil => simp [deleteAllStale]
  | cons n names ih =>
    rw [deleteAllStale, ih]
    by_cases hn : name = n
    · subst hn
      simp [deleteStaleEvents_idem]
    · simp [hn]

/-- Inserts of corrected blocks succeed together exactly when no two have one number and none has a
number that the table holds; then they leave what one map insertion after another leaves. -/
theorem insertCorrected_ok_iff {hashes hashes' : OrderedMap Nat (B256 × B256)}
    {blocks : List Header} :
    insertCorrected hashes blocks = .ok hashes' ↔
      (∀ b ∈ blocks, b.number ≤ i64Max) ∧ (blocks.map Header.number).Nodup ∧
        (∀ b ∈ blocks, hashes.get? b.number = none) ∧
        hashes' = hashes.insertAll (blocks.map fun b => (b.number, b.hash, b.parentHash)) := by
  induction blocks generalizing hashes with
  | nil => simp [insertCorrected, eq_comm]
  | cons b blocks ih =>
    rw [insertCorrected]
    by_cases hRange : i64Max < b.number
    · simp [hRange]
    · by_cases hHeld : (hashes.get? b.number).isSome
      · have hSome : hashes.get? b.number ≠ none := Option.isSome_iff_ne_none.mp hHeld
        simp [hRange, hHeld, hSome]
      · have hNone : hashes.get? b.number = none := by simpa using hHeld
        rw [if_neg hRange, if_neg hHeld, ih]
        simp only [List.map_cons, OrderedMap.insertAll_cons, List.nodup_cons, List.mem_map,
          List.forall_mem_cons, not_exists, not_and, hNone, true_and, OrderedMap.get?_insert]
        constructor
        · rintro ⟨hLe, hNodup, hNew, rfl⟩
          refine ⟨⟨by omega, hLe⟩, ⟨fun b' hMem hEq => ?_, hNodup⟩, fun b' hMem => ?_, rfl⟩
          · have := hNew b' hMem
            simp [hEq] at this
          · have := hNew b' hMem
            split at this
            · simp at this
            · exact this
        · rintro ⟨⟨_, hLe⟩, ⟨hDistinct, hNodup⟩, hNew, rfl⟩
          refine ⟨hLe, hNodup, fun b' hMem => ?_, rfl⟩
          rw [if_neg (hDistinct b' hMem)]
          exact hNew b' hMem

/-- What a committed rollback says: its bounds fit an `i64`, and the corrected blocks went in without
a conflict. -/
structure Committed (db db' : Db) (eventTableNames : List String) (network : String)
    (forkPoint detectionPoint : Nat) (correctedBlocks : List Header)
    (checkpointTables : List String) : Prop where
  forkRange : forkPoint ≤ i64Max
  detectionRange : detectionPoint ≤ i64Max
  events : ∀ name, db'.events name =
    if name ∈ eventTableNames then
      deleteStaleEvents (db.events name) network forkPoint detectionPoint
    else db.events name
  inserted : insertCorrected
    ((db.blockHashes network).restrict fun n => !(forkPoint ≤ n && n ≤ detectionPoint))
    correctedBlocks = .ok (db'.blockHashes network)
  otherHashes : ∀ other, other ≠ network → db'.blockHashes other = db.blockHashes other
  cursors : db'.cursors = rewindAll network (forkPoint - 1) checkpointTables db.cursors
  derived : db'.derived = db.derived
  opLog : db'.opLog = db.opLog

theorem reorgRollbackTransaction_ok {db db' : Db} {eventTableNames : List String}
    {network : String} {forkPoint detectionPoint : Nat} {correctedBlocks : List Header}
    {checkpointTables : List String} {result : Nat × List String}
    (h : reorgRollbackTransaction db eventTableNames network forkPoint detectionPoint
      correctedBlocks checkpointTables = .ok (db', result)) :
    Committed db db' eventTableNames network forkPoint detectionPoint correctedBlocks
      checkpointTables := by
  unfold reorgRollbackTransaction at h
  split at h
  · cases h
  · rename_i hFork
    split at h
    · cases h
    · rename_i hDetection
      simp only at h
      split at h
      · cases h
      · rename_i corrected hInserted
        cases h
        refine ⟨by omega, by omega, fun name => deleteAllStale_events .., ?_, fun other hne => ?_,
          rfl, rfl, rfl⟩
        · show _ = Except.ok (Function.update db.blockHashes network corrected network)
          rw [hInserted, Function.update_self]
        · exact Function.update_of_ne hne _ _

/-- The corrected blocks replace what the range held: without them, the rows are those kept. -/
theorem restrict_inserted {hashes hashes' : OrderedMap Nat (B256 × B256)} {p : Nat → Bool}
    {blocks : List Header} (hOutside : ∀ b ∈ blocks, p b.number = false)
    (h : insertCorrected (hashes.restrict p) blocks = .ok hashes') :
    hashes'.restrict p = hashes.restrict p := by
  obtain ⟨-, -, -, rfl⟩ := insertCorrected_ok_iff.mp h
  refine OrderedMap.ext fun n => ?_
  rw [OrderedMap.get?_restrict, OrderedMap.get?_restrict]
  cases hKept : p n with
  | false => rfl
  | true =>
    have hNot : n ∉ (blocks.map fun b => (b.number, b.hash, b.parentHash)).map Prod.fst := by
      intro hMem
      simp only [List.map_map, List.mem_map, Function.comp_apply] at hMem
      obtain ⟨b, hBlock, rfl⟩ := hMem
      rw [hOutside b hBlock] at hKept
      cases hKept
    rw [OrderedMap.get?_insertAll_of_notMem hNot, OrderedMap.get?_restrict, hKept]
    rfl

/-- A rollback that is committed again changes nothing. -/
theorem Committed.again {db db' db'' : Db} {eventTableNames : List String} {network : String}
    {forkPoint detectionPoint : Nat} {correctedBlocks : List Header}
    {checkpointTables : List String}
    (hRange : ∀ b ∈ correctedBlocks, forkPoint ≤ b.number ∧ b.number ≤ detectionPoint)
    (h : Committed db db' eventTableNames network forkPoint detectionPoint correctedBlocks
      checkpointTables)
    (hAgain : Committed db' db'' eventTableNames network forkPoint detectionPoint correctedBlocks
      checkpointTables) : db'' = db' := by
  have hKept : (db'.blockHashes network).restrict (fun n => !(forkPoint ≤ n && n ≤ detectionPoint)) =
      (db.blockHashes network).restrict fun n => !(forkPoint ≤ n && n ≤ detectionPoint) := by
    refine restrict_inserted (fun b hMem => ?_) h.inserted
    simpa using hRange b hMem
  refine Db.ext (funext fun name => ?_) hAgain.derived hAgain.opLog (funext fun table => ?_)
    (funext fun other => ?_)
  · rw [hAgain.events, h.events]
    split
    · exact deleteStaleEvents_idem _ _ _ _
    · rfl
  · rw [hAgain.cursors, h.cursors]
    simp only [rewindAll]
    split
    · simp only [rewindCursors, List.map_map]
      refine List.map_congr_left fun r _ => ?_
      simp only [Function.comp_apply]
      split <;> simp [*]
    · rfl
  · by_cases hSame : other = network
    · subst hSame
      have hInserted := hAgain.inserted
      rw [hKept, h.inserted] at hInserted
      exact (Except.ok.inj hInserted).symm
    · exact hAgain.otherHashes other hSame

/-- The transaction commits exactly when its bounds fit an `i64` and the corrected blocks go in. -/
theorem reorgRollbackTransaction_commits_iff {db : Db} {eventTableNames : List String}
    {network : String} {forkPoint detectionPoint : Nat} {correctedBlocks : List Header}
    {checkpointTables : List String} :
    (∃ db' result, reorgRollbackTransaction db eventTableNames network forkPoint detectionPoint
      correctedBlocks checkpointTables = .ok (db', result)) ↔
      forkPoint ≤ i64Max ∧ detectionPoint ≤ i64Max ∧ ∃ hashes, insertCorrected
        ((db.blockHashes network).restrict fun n => !(forkPoint ≤ n && n ≤ detectionPoint))
        correctedBlocks = .ok hashes := by
  constructor
  · rintro ⟨db', result, h⟩
    have hCommit := reorgRollbackTransaction_ok h
    exact ⟨hCommit.forkRange, hCommit.detectionRange, _, hCommit.inserted⟩
  · rintro ⟨hFork, hDetection, hashes, hInserted⟩
    unfold reorgRollbackTransaction
    rw [if_neg (by omega), if_neg (by omega)]
    simp only [hInserted]
    exact ⟨_, _, rfl⟩

end Rindexer.Database
