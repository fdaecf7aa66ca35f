import Rindexer.Reorg.Effect

/-! What a reorg on one network does to another.  The filter to the network is dropped for the tables
that are `cross_chain`, and kept everywhere else. -/

namespace Rindexer.Reorg

open Rindexer.Lib Rindexer.Database Rindexer.Manifest

/-! ### Another network -/

/-- A derived table that the task handles with the filter to its network. -/
def ReorgTask.filters (task : ReorgTask) (table : String) : Bool :=
  task.derivedTables.all fun dt => dt.fullTableName != table || !dt.crossChain

/-- A derived table that the task only deletes from. -/
def ReorgTask.insertOnly (task : ReorgTask) (table : String) : Bool :=
  task.derivedTables.all fun dt =>
    dt.fullTableName != table || (dt.rollbackOps.isEmpty && dt.journalColumns.isEmpty)

/-- What a task leaves to another network: its events, cursors and block hashes; its rows and journal
entries, but for the tables without the filter; and there the journal entries and the inserted rows
below the fork point. -/
structure Isolated (task : ReorgTask) (other : String) (db db' : Db) : Prop where
  events : ∀ table, (db'.events table).rows.filter (fun r => r.network == other) =
    (db.events table).rows.filter fun r => r.network == other
  cursors : ∀ table, (db'.cursors table).filter (fun r => r.network == other) =
    (db.cursors table).filter fun r => r.network == other
  blockHashes : db'.blockHashes other = db.blockHashes other
  rows : ∀ table, task.filters table →
    (db'.derived table).rows.filter (fun r => r.network == some other) =
      (db.derived table).rows.filter fun r => r.network == some other
  inserted : ∀ table, task.insertOnly table →
    (db'.derived table).rows.filter (fun r => r.blockNumber < task.forkPoint) =
      (db.derived table).rows.filter fun r => r.blockNumber < task.forkPoint
  journal : db'.opLog.filter (fun r => r.network == other &&
      (r.blockNumber < task.forkPoint || task.filters r.derivedTable)) =
    db.opLog.filter fun r => r.network == other &&
      (r.blockNumber < task.forkPoint || task.filters r.derivedTable)

theorem Isolated.refl (task : ReorgTask) (other : String) (db : Db) : Isolated task other db db :=
  ⟨fun _ => rfl, fun _ => rfl, rfl, fun _ _ => rfl, fun _ _ => rfl, rfl⟩

theorem Isolated.trans {task : ReorgTask} {other : String} {db1 db2 db3 : Db}
    (h1 : Isolated task other db1 db2) (h2 : Isolated task other db2 db3) :
    Isolated task other db1 db3 :=
  ⟨fun table => (h2.events table).trans (h1.events table),
    fun table => (h2.cursors table).trans (h1.cursors table),
    h2.blockHashes.trans h1.blockHashes,
    fun table hTable => (h2.rows table hTable).trans (h1.rows table hTable),
    fun table hTable => (h2.inserted table hTable).trans (h1.inserted table hTable),
    h2.journal.trans h1.journal⟩

/-- A filter does not see what an earlier one takes away from the rest. -/
theorem filter_filter_of_imp {α : Type} {p q : α → Bool} (h : ∀ a, p a = true → q a = true)
    (l : List α) : (l.filter q).filter p = l.filter p := by
  rw [List.filter_filter]
  refine List.filter_congr fun a _ => ?_
  cases hp : p a with
  | false => rfl
  | true => rw [h a hp, Bool.and_self]

/-- A filter does not see what a map changes in the rest. -/
theorem filter_map_of_fixed {α : Type} {p : α → Bool} {f : α → α} (hSame : ∀ a, p (f a) = p a)
    (hFixed : ∀ a, p a = true → f a = a) (l : List α) : (l.map f).filter p = l.filter p := by
  rw [List.filter_map]
  have hComp : p ∘ f = p := funext hSame
  rw [hComp]
  refine (List.map_congr_left fun a ha => hFixed a (List.mem_filter.mp ha).2).trans ?_
  exact List.map_id _

section Exec

variable {pg : Postgres} {task : ReorgTask} {canonical : List Header} {other : String}

theorem filters_of_mem {dt : DerivedTableInfo} (hMem : dt ∈ task.derivedTables)
    (h : task.filters dt.fullTableName = true) : dt.crossChain = false := by
  have hAll := List.all_eq_true.mp h dt hMem
  simpa using hAll

theorem not_insertOnly_of_mem {dt : DerivedTableInfo} (hMem : dt ∈ task.derivedTables)
    (h : task.insertOnly dt.fullTableName = true) :
    dt.rollbackOps = [] ∧ dt.journalColumns = [] := by
  have hAll := List.all_eq_true.mp h dt hMem
  simpa using hAll

/-- A statement that rewrites one derived table row by row leaves the rest of the database. -/
theorem isolated_setDerived {db : Db} {dt : DerivedTableInfo} {table : DerivedTable}
    (hMem : dt ∈ task.derivedTables)
    (hRows : dt.crossChain = false →
      table.rows.filter (fun r => r.network == some other) =
        (db.derived dt.fullTableName).rows.filter fun r => r.network == some other)
    (hInserted : dt.rollbackOps = [] → dt.journalColumns = [] →
      table.rows.filter (fun r => r.blockNumber < task.forkPoint) =
        (db.derived dt.fullTableName).rows.filter fun r => r.blockNumber < task.forkPoint) :
    Isolated task other db (db.setDerived dt.fullTableName table) := by
  refine ⟨fun _ => rfl, fun _ => rfl, rfl, fun name hName => ?_, fun name hName => ?_, rfl⟩
  · by_cases hSame : name = dt.fullTableName
    · subst hSame
      simp only [Db.setDerived, Function.update_self]
      exact hRows (filters_of_mem hMem hName)
    · simp only [Db.setDerived, Function.update_of_ne hSame]
  · by_cases hSame : name = dt.fullTableName
    · subst hSame
      obtain ⟨hOps, hColumns⟩ := not_insertOnly_of_mem hMem hName
      simp only [Db.setDerived, Function.update_self]
      exact hInserted hOps hColumns
    · simp only [Db.setDerived, Function.update_of_ne hSame]

/-- An update that keeps the network of a row and only touches rows of the task's network is not seen
among the rows of another. -/
theorem rows_of_update {dt : DerivedTableInfo} (hOther : other ≠ task.network)
    (hFiltered : dt.crossChain = false) {f : DerivedRow → DerivedRow}
    (hNetwork : ∀ r, (f r).network = r.network)
    (hUntouched : ∀ r, rowNetworkFilter dt.crossChain task.network r = false → f r = r)
    (rows : List DerivedRow) :
    (rows.map f).filter (fun r => r.network == some other) =
      rows.filter fun r => r.network == some other := by
  refine filter_map_of_fixed (fun r => by rw [hNetwork]) (fun r hr => hUntouched r ?_) rows
  have hSame : r.network = some other := by simpa using hr
  simpa [rowNetworkFilter, hFiltered, hSame] using hOther

theorem recalculate_isolated {dt : DerivedTableInfo} {jc : DerivedColumnJournal}
    {opLog : List OpLogRow} {table table' : DerivedTable} (hOther : other ≠ task.network)
    (hFiltered : dt.crossChain = false)
    (h : task.recalculate pg dt jc opLog table = .ok table') :
    table'.rows.filter (fun r => r.network == some other) =
      table.rows.filter fun r => r.network == some other := by
  simp only [ReorgTask.recalculate] at h
  split at h
  · cases h
    rfl
  split at h
  · cases h
  split at h
  · cases h
  split at h
  · cases h
  split at h
  · cases h
  · cases h
  cases h
  refine rows_of_update hOther hFiltered (fun r => ?_) (fun r hr => ?_) _
  · split
    · split
      · rfl
      · split <;> rfl
    · rfl
  · rw [if_neg (by simp [hr])]

theorem isolated_committed {db db' : Db} (hOther : other ≠ task.network)
    {names checkpointTables : List String}
    (h : Committed db db' names task.network task.forkPoint task.detectionPoint canonical
      checkpointTables) : Isolated task other db db' := by
  refine ⟨fun table => ?_, fun table => ?_, h.otherHashes other hOther, fun table _ => by rw [h.derived],
    fun table _ => by rw [h.derived], by rw [h.opLog]⟩
  · rw [h.events]
    split
    · refine filter_filter_of_imp (fun r hr => ?_) _
      have hSame : r.network = other := by simpa using hr
      simp [hSame, hOther]
    · rfl
  · simp only [h.cursors, rewindAll]
    split
    · refine filter_map_of_fixed (fun r => ?_) (fun r hr => ?_) _
      · split <;> rfl
      · have hSame : r.network = other := by simpa using hr
        rw [if_neg (by rw [hSame]; exact hOther)]
    · rfl

theorem exec_isolated {session : Nat} {s : Statement} {m m' : Machine}
    (hOther : other ≠ task.network) (hs : task.Issues s)
    (h : s.exec pg task canonical session m = .ok m') : Isolated task other m.db m'.db := by
  cases s with
  | createSnapshot name dt op =>
    simp only [Statement.exec] at h
    split at h
    · cases h
    · split at h
      · cases h
      · cases h
        exact .refl _ _ _
  | rollback =>
    simp only [Statement.exec] at h
    split at h
    · cases h
    · rename_i hCommit
      cases h
      exact isolated_committed hOther (reorgRollbackTransaction_ok hCommit)
  | applyReversal name dt op =>
    simp only [Statement.exec] at h
    split at h
    · cases h
    · split at h
      · cases h
      · rename_i hTable
        cases h
        simp only [reverseTable] at hTable
        split at hTable
        · cases hTable
        split at hTable
        · cases hTable
        split at hTable
        · cases hTable
        cases hTable
        refine isolated_setDerived (mem_snapshotOps.mp hs.mem).1 (fun hFiltered => ?_) fun hOps => ?_
        · refine rows_of_update hOther hFiltered (fun r => ?_) (fun r hr => ?_) _
          · split
            · split <;> rfl
            · rfl
          · rw [if_neg (by simp [hr])]
        · exact absurd (mem_snapshotOps.mp hs.mem).2.1 (by simp [hOps])
  | dropSnapshot name =>
    cases h
    exact .refl _ _ _
  | deleteJournal dt =>
    cases h
    refine ⟨fun _ => rfl, fun _ => rfl, rfl, fun _ _ => rfl, fun _ _ => rfl, ?_⟩
    refine filter_filter_of_imp (fun r hr => ?_) _
    obtain ⟨hNetwork, hKept⟩ : r.network = other ∧
        (r.blockNumber < task.forkPoint ∨ task.filters r.derivedTable = true) := by
      simpa using hr
    by_cases hTable : r.derivedTable = dt.fullTableName
    · rcases hKept with hBelow | hFilters
      · simp [Nat.not_le.mpr hBelow]
      · rw [hTable] at hFilters
        have hFiltered := filters_of_mem hs.1 hFilters
        simp [networkFilter, hFiltered, hNetwork, hOther]
    · simp [hTable]
  | recalculate dt jc =>
    simp only [Statement.exec] at h
    split at h
    · cases h
    · rename_i hTable
      cases h
      refine isolated_setDerived hs.1 (fun hFiltered => ?_) fun _ hColumns => ?_
      · exact recalculate_isolated hOther hFiltered hTable
      · exact absurd hs.2 (by simp [hColumns])
  | deleteDerived dt =>
    cases h
    refine isolated_setDerived hs.1 (fun hFiltered => ?_) fun _ _ => ?_
    · refine filter_filter_of_imp (fun r hr => ?_) _
      have hSame : r.network = some other := by simpa using hr
      simp [rowNetworkFilter, hFiltered, hSame, hOther]
    · refine filter_filter_of_imp (fun r hr => ?_) _
      have hBelow : r.blockNumber < task.forkPoint := by simpa using hr
      simp [Nat.not_le.mpr hBelow]

/-- Whatever a task does, and however it ends, it leaves to another network. -/
theorem execute_isolated {sessions : Nat → Option Nat} {provider : Option ChainProvider}
    {m : Machine} {w : BlockChainWindow} (hOther : other ≠ task.network) :
    Isolated task other m.db (task.execute pg sessions provider m w).1.db := by
  have hRun : Isolated task other m.db
      (runStatements pg task (task.selectCanonical provider) sessions task.statements m).1.db :=
    runStatements_keeps (.refl task other) (fun _ _ _ => .trans) fun s hMem _ _ _ hExec =>
      exec_isolated hOther (statements_issued task s hMem) hExec
  unfold ReorgTask.execute
  split
  · exact .refl _ _ _
  · simp only
    split <;> exact hRun

end Exec

/-! ### The events that a task sees -/

/-- An event in the range of the task, on its network or in a source table of a `cross_chain` table. -/
def ReorgTask.Sees (task : ReorgTask) (table : String) (r : EventRow) : Prop :=
  task.forkPoint ≤ r.blockNumber ∧ r.blockNumber ≤ task.detectionPoint ∧
    (r.network = task.network ∨ ∃ dt ∈ task.derivedTables, dt.crossChain = true ∧
      ∃ op ∈ dt.rollbackOps, op.eventTable = table)

/-- The database with some of its events only. -/
def keepEvents (keep : String → EventRow → Bool) (db : Db) : Db :=
  { db with events := fun table =>
      { db.events table with rows := (db.events table).rows.filter (keep table) } }

/-- Two states that the statements of a task do not tell apart: they differ at most in events that no
snapshot selects, and in cursors. -/
structure Alike (task : ReorgTask) (m m' : Machine) : Prop where
  temps : m'.temps = m.temps
  derived : m'.db.derived = m.db.derived
  opLog : m'.db.opLog = m.db.opLog
  blockHashes : m'.db.blockHashes = m.db.blockHashes
  columns : ∀ table, (m'.db.events table).columns = (m.db.events table).columns
  rows : ∀ dt ∈ task.derivedTables, ∀ op ∈ dt.rollbackOps, ∀ test,
    task.snapshotRows dt.crossChain test (m'.db.events op.eventTable) =
      task.snapshotRows dt.crossChain test (m.db.events op.eventTable)

section Alike

variable {pg : Postgres} {task : ReorgTask} {canonical : List Header} {m m' : Machine}

theorem snapshotRows_deleteStale (crossChain : Bool) (test : EventRow → Bool) (table : EventTable)
    (network : String) (forkPoint detectionPoint : Nat) :
    task.snapshotRows crossChain test (deleteStaleEvents table network forkPoint detectionPoint) =
      (task.snapshotRows crossChain test table).filter fun r =>
        !(r.network == network && forkPoint ≤ r.blockNumber && r.blockNumber ≤ detectionPoint) := by
  simp only [ReorgTask.snapshotRows, deleteStaleEvents, List.filter_filter]
  exact List.filter_congr fun r _ => Bool.and_comm _ _

theorem selectSnapshot_alike {dt : DerivedTableInfo} {op : DerivedTableRollbackOp}
    (h : Alike task m m') (hDt : dt ∈ task.derivedTables) (hOp : op ∈ dt.rollbackOps) :
    task.selectSnapshot pg dt.crossChain op (m'.db.events op.eventTable) =
      task.selectSnapshot pg dt.crossChain op (m.db.events op.eventTable) := by
  have hTypes : columnType (m'.db.events op.eventTable) = columnType (m.db.events op.eventTable) := by
    funext name
    rw [columnType, columnType, h.columns]
  simp only [ReorgTask.selectSnapshot, hTypes, h.columns, h.rows dt hDt op hOp]

/-- The same error, or states that are alike. -/
def AlikeOutcome (task : ReorgTask) : Except String Machine → Except String Machine → Prop
  | .error e, .error e' => e' = e
  | .ok m, .ok m' => Alike task m m'
  | _, _ => False

theorem alike_setDerived (h : Alike task m m') (name : String) (table : DerivedTable) :
    Alike task { m with db := m.db.setDerived name table }
      { m' with db := m'.db.setDerived name table } :=
  ⟨h.temps, by simp only [Db.setDerived, h.derived], h.opLog, h.blockHashes, h.columns, h.rows⟩

theorem rollback_alike (h : Alike task m m') (session : Nat) :
    AlikeOutcome task (Statement.exec pg task canonical session m .rollback)
      (Statement.exec pg task canonical session m' .rollback) := by
  simp only [Statement.exec, reorgRollbackTransaction, h.blockHashes]
  by_cases hFork : i64Max < task.forkPoint
  · simp [hFork, AlikeOutcome]
  by_cases hDetection : i64Max < task.detectionPoint
  · simp [hFork, hDetection, AlikeOutcome]
  rw [if_neg hFork, if_neg hDetection, if_neg hFork, if_neg hDetection]
  cases insertCorrected ((m.db.blockHashes task.network).restrict fun n =>
    !(decide (task.forkPoint ≤ n) && decide (n ≤ task.detectionPoint))) canonical with
  | error e => rfl
  | ok corrected =>
    refine ⟨h.temps, h.derived, h.opLog, rfl, fun table => ?_, fun dt hDt op hOp test => ?_⟩
    · simp only [deleteAllStale_events]
      split <;> exact h.columns table
    · simp only [deleteAllStale_events]
      split
      · rw [snapshotRows_deleteStale, snapshotRows_deleteStale, h.rows dt hDt op hOp test]
      · exact h.rows dt hDt op hOp test

theorem exec_alike {session : Nat} {s : Statement} (hs : task.Issues s) (h : Alike task m m') :
    AlikeOutcome task (s.exec pg task canonical session m)
      (s.exec pg task canonical session m') := by
  cases s with
  | createSnapshot name dt op =>
    obtain ⟨hDt, hOp, -⟩ := mem_snapshotOps.mp hs.mem
    simp only [Statement.exec, h.temps, selectSnapshot_alike h hDt hOp]
    split
    · rfl
    · split
      · rfl
      · exact ⟨rfl, h.derived, h.opLog, h.blockHashes, h.columns, h.rows⟩
  | rollback => exact rollback_alike h session
  | applyReversal name dt op =>
    simp only [Statement.exec, h.temps, h.derived]
    split
    · rfl
    · split
      · rfl
      · exact ⟨rfl, (alike_setDerived h _ _).derived, h.opLog, h.blockHashes, h.columns, h.rows⟩
  | dropSnapshot name =>
    simp only [Statement.exec, h.temps]
    exact ⟨rfl, h.derived, h.opLog, h.blockHashes, h.columns, h.rows⟩
  | deleteJournal dt =>
    simp only [Statement.exec, h.opLog]
    exact ⟨h.temps, h.derived, rfl, h.blockHashes, h.columns, h.rows⟩
  | recalculate dt jc =>
    simp only [Statement.exec, h.opLog, h.derived]
    split
    · rfl
    · exact alike_setDerived h _ _
  | deleteDerived dt =>
    simp only [Statement.exec, h.derived]
    exact alike_setDerived h _ _

theorem send_alike {session : Option Nat} {s : Statement} (hs : task.Issues s)
    (h : Alike task m m') :
    AlikeOutcome task (s.send pg task canonical session m) (s.send pg task canonical session m') := by
  cases session with
  | some i => exact exec_alike hs h
  | none =>
    cases s with
    | dropSnapshot name => exact h
    | _ => rfl

theorem runStatements_alike {sessions : Nat → Option Nat} {ss : List Statement}
    (hs : ∀ s ∈ ss, task.Issues s) (h : Alike task m m') :
    Alike task (runStatements pg task canonical sessions ss m).1
        (runStatements pg task canonical sessions ss m').1 ∧
      (runStatements pg task canonical sessions ss m').2 =
        (runStatements pg task canonical sessions ss m).2 := by
  induction ss generalizing sessions m m' with
  | nil => exact ⟨h, rfl⟩
  | cons s ss ih =>
    have hFirst : AlikeOutcome task (s.send pg task canonical (sessions 0) m)
        (s.send pg task canonical (sessions 0) m') :=
      send_alike (hs s List.mem_cons_self) h
    simp only [runStatements]
    revert hFirst
    cases s.send pg task canonical (sessions 0) m with
    | error e =>
      cases s.send pg task canonical (sessions 0) m' with
      | error e' =>
        rintro rfl
        exact ⟨h, rfl⟩
      | ok next' => exact False.elim
    | ok next =>
      cases s.send pg task canonical (sessions 0) m' with
      | error e' => exact False.elim
      | ok next' => exact ih fun s' hMem => hs s' (List.mem_cons_of_mem _ hMem)

/-- A task does not notice the loss of events that it does not see. -/
theorem alike_keepEvents {keep : String → EventRow → Bool}
    (hKeep : ∀ table, ∀ r ∈ (m.db.events table).rows, task.Sees table r → keep table r = true) :
    Alike task m { m with db := keepEvents keep m.db } := by
  refine ⟨rfl, rfl, rfl, rfl, fun _ => rfl, fun dt hDt op hOp test => ?_⟩
  simp only [ReorgTask.snapshotRows, keepEvents, List.filter_filter]
  refine List.filter_congr fun r hr => ?_
  by_cases hSees : task.Sees op.eventTable r
  · rw [hKeep op.eventTable r hr hSees, Bool.and_true]
  · have hUnseen : (decide (task.forkPoint ≤ r.blockNumber) &&
        decide (r.blockNumber ≤ task.detectionPoint) &&
          networkFilter dt.crossChain task.network r.network) = false := by
      rw [Bool.eq_false_iff]
      intro hSelected
      simp only [networkFilter, Bool.and_eq_true, decide_eq_true_eq, Bool.or_eq_true,
        beq_iff_eq] at hSelected
      obtain ⟨⟨hFork, hDetection⟩, hCrossChain | hNetwork⟩ := hSelected
      · exact hSees ⟨hFork, hDetection, .inr ⟨dt, hDt, hCrossChain, op, hOp, rfl⟩⟩
      · exact hSees ⟨hFork, hDetection, .inl hNetwork⟩
    rw [hUnseen, Bool.false_and, Bool.false_and]

end Alike

/-! ### Rollbacks on one of several networks -/

def transferAt (network : String) (blockNumber : Nat) (amount : Int) : EventRow where
  network := network
  blockNumber := blockNumber
  txHash := ""
  fields name := if name = "value" then .num amount else .text "ada"

/-- Totals, highest amounts and a history over all networks. -/
def crossChainTables : List DerivedTableInfo :=
  [{ fullTableName := "totals", crossChain := true
     rollbackOps := [⟨"app.transfer", [("holder", "from")], [⟨"total", "value", .add⟩], none⟩]
     journalColumns := [] },
   { fullTableName := "highest", crossChain := true
     rollbackOps := [], journalColumns := [⟨"amount", .max, ["holder"]⟩] },
   { fullTableName := "history", crossChain := true, rollbackOps := [], journalColumns := [] }]

def ethereumTask : ReorgTask where
  network := "ethereum"
  forkPoint := 11
  detectionPoint := 12
  eventTables := [⟨"app", "transfer", "app_transfer"⟩]
  derivedTables := crossChainTables
  canonicalBlocks := []

/-- Transfers of 5 on ethereum and of 7 and 3 on polygon, with what they make of the tables. -/
def twoNetworks : Machine where
  db :=
    { events := fun _ => ⟨[("from", .text), ("value", .numeric)],
        [transferAt "ethereum" 11 5, transferAt "polygon" 11 7, transferAt "polygon" 13 3]⟩
      derived := fun _ => ⟨[("holder", .text), ("total", .numeric), ("amount", .numeric)],
        [⟨none, 11, 1, fun name => if name = "holder" then .text "ada" else .num 15⟩]⟩
      opLog := [⟨"highest", "polygon", "holder=ada", "amount", 7, 11, 0, 0⟩]
      cursors := fun _ => []
      blockHashes := fun _ => ∅ }
  temps := []
  eventsDeleted := 0
  affectedTxHashes := []

def afterEthereum : Db :=
  (ethereumTask.execute .plain (fun _ => some 0) none twoNetworks ⟨∅, 100, hundred_pos⟩).1.db

end Rindexer.Reorg
