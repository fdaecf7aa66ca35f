import Rindexer.Reorg.Statements

/-! The execution of a reorg task on Postgres: the statements that `ReorgTask::execute` sends, in
order, and the repair of the window after the last.  Every statement outside the rollback
transaction commits on its own, on whatever connection the pool hands out, and a temp table is seen
only on the connection that created it. -/

namespace Rindexer.Reorg

open Rindexer.Lib Rindexer.Database Rindexer.Manifest

/-- The database, the temp tables by connection and name, and what the rollback transaction
reported. -/
structure Machine where
  db : Db
  temps : List ((Nat × String) × Snapshot)
  eventsDeleted : Nat
  affectedTxHashes : List String

inductive Statement
  | createSnapshot (name : String) (dt : DerivedTableInfo) (op : DerivedTableRollbackOp)
  | rollback
  | applyReversal (name : String) (dt : DerivedTableInfo) (op : DerivedTableRollbackOp)
  | dropSnapshot (name : String)
  | deleteJournal (dt : DerivedTableInfo)
  | recalculate (dt : DerivedTableInfo) (jc : DerivedColumnJournal)
  | deleteDerived (dt : DerivedTableInfo)

namespace ReorgTask

/-- The blocks that the provider answers for the range of the task.  An error answers none. -/
def fetchRange (task : ReorgTask) (provider : Option ChainProvider) : List Header :=
  match provider with
  | none => []
  | some provider =>
    let blockNumbers := List.range' task.forkPoint (task.detectionPoint + 1 - task.forkPoint)
    (provider.getBlockByNumberBatch blockNumbers).getD []

/-- The pre-fetched canonical blocks in range, or those that the provider answers now. -/
def selectCanonical (task : ReorgTask) (provider : Option ChainProvider) : List Header :=
  if task.canonicalBlocks ≠ [] then
    task.canonicalBlocks.filter fun b =>
      task.forkPoint ≤ b.number && b.number ≤ task.detectionPoint
  else task.fetchRange provider

/-- The operations that get a snapshot, with their derived tables. -/
def snapshotOps (task : ReorgTask) : List (DerivedTableInfo × DerivedTableRollbackOp) :=
  task.derivedTables.flatMap fun dt =>
    (dt.rollbackOps.filter fun op => op.reversible ≠ []).map fun op => (dt, op)

def snapshotName (task : ReorgTask) (index : Nat) : String :=
  let safeNetwork := String.ofList (task.network.toList.map fun c => if c = '-' then '_' else c)
  s!"_rindexer_reorg_snap_{safeNetwork}_{task.forkPoint}_{index}_pg"

def snapshotStatements (task : ReorgTask) : List Statement :=
  task.snapshotOps.zipIdx.map fun e => .createSnapshot (task.snapshotName e.2) e.1.1 e.1.2

def reversalStatements (task : ReorgTask) : List Statement :=
  task.snapshotOps.zipIdx.flatMap fun e =>
    [.applyReversal (task.snapshotName e.2) e.1.1 e.1.2, .dropSnapshot (task.snapshotName e.2)]

def journalStatements (task : ReorgTask) : List Statement :=
  (task.derivedTables.filter fun dt => dt.journalColumns ≠ []).flatMap fun dt =>
    .deleteJournal dt :: dt.journalColumns.map (.recalculate dt)

/-- The deletes on the tables that are insert-only. -/
def deleteStatements (task : ReorgTask) : List Statement :=
  (task.derivedTables.filter fun dt => dt.rollbackOps = [] && dt.journalColumns = []).map
    .deleteDerived

def statementsAfterRollback (task : ReorgTask) : List Statement :=
  task.reversalStatements ++ task.journalStatements ++ task.deleteStatements

def statements (task : ReorgTask) : List Statement :=
  task.snapshotStatements ++ .rollback :: task.statementsAfterRollback

end ReorgTask

/-- Removes a temp table.  Its absence is no error. -/
def dropTemp (session : Nat) (name : String) (temps : List ((Nat × String) × Snapshot)) :
    List ((Nat × String) × Snapshot) :=
  temps.filter fun t => t.1 != (session, name)

/-- One statement on a connection. -/
def Statement.exec (pg : Postgres) (task : ReorgTask) (canonical : List Header) (session : Nat)
    (m : Machine) : Statement → Except String Machine
  | .createSnapshot name dt op =>
    if (m.temps.lookup (session, name)).isSome then .error s!"relation \"{name}\" already exists"
    else
      match task.selectSnapshot pg dt.crossChain op (m.db.events op.eventTable) with
      | .error e => .error e
      | .ok snapshot => .ok { m with temps := ((session, name), snapshot) :: m.temps }
  | .rollback =>
    match reorgRollbackTransaction m.db (task.eventTables.map EventTableInfo.fullName) task.network
        task.forkPoint task.detectionPoint canonical
        (task.eventTables.map EventTableInfo.checkpointTable) with
    | .error e => .error e
    | .ok (db, deleted, txHashes) =>
      .ok { m with db := db, eventsDeleted := deleted, affectedTxHashes := txHashes }
  | .applyReversal name dt op =>
    match m.temps.lookup (session, name) with
    | none => .error s!"relation \"{name}\" does not exist"
    | some snapshot =>
      match reverseTable task dt op snapshot (m.db.derived dt.fullTableName) with
      | .error e => .error e
      | .ok table =>
        .ok { m with db := m.db.setDerived dt.fullTableName table }
  | .dropSnapshot name => .ok { m with temps := dropTemp session name m.temps }
  | .deleteJournal dt => .ok { m with db.opLog := task.deleteJournal dt m.db.opLog }
  | .recalculate dt jc =>
    match task.recalculate pg dt jc m.db.opLog (m.db.derived dt.fullTableName) with
    | .error e => .error e
    | .ok table =>
      .ok { m with db := m.db.setDerived dt.fullTableName table }
  | .deleteDerived dt =>
    let table := task.deleteDerived dt (m.db.derived dt.fullTableName)
    .ok { m with db := m.db.setDerived dt.fullTableName table }

/-- A statement on the connection that the pool hands out for it, if it does and the server answers.
The drop of a temp table may fail unseen. -/
def Statement.send (pg : Postgres) (task : ReorgTask) (canonical : List Header)
    (session : Option Nat) (m : Machine) (s : Statement) : Except String Machine :=
  match session, s with
  | some session, s => s.exec pg task canonical session m
  | none, .dropSnapshot _ => .ok m
  | none, _ => .error "connection failed"

/-- Statements one after another, up to the first error.  `sessions` gives each its connection. -/
def runStatements (pg : Postgres) (task : ReorgTask) (canonical : List Header) :
    (Nat → Option Nat) → List Statement → Machine → Machine × Option String
  | _, [], m => (m, none)
  | sessions, s :: rest, m =>
    match s.send pg task canonical (sessions 0) m with
    | .error e => (m, some e)
    | .ok m' => runStatements pg task canonical (fun i => sessions (i + 1)) rest m'

/-- The window after a task: overwritten with the canonical blocks, or cut at the fork point where
there are none. -/
def repairWindow (task : ReorgTask) (canonical : List Header) (w : BlockChainWindow) :
    BlockChainWindow :=
  if canonical ≠ [] then w.updateRange canonical else w.removeFrom task.forkPoint

/-- `ReorgTask::execute`: the state and the window it leaves, and the error it stops with, if any. -/
def ReorgTask.execute (pg : Postgres) (sessions : Nat → Option Nat) (task : ReorgTask)
    (provider : Option ChainProvider) (m : Machine) (w : BlockChainWindow) :
    Machine × BlockChainWindow × Option String :=
  if !validateSqlValue task.network then
    (m, w, some s!"reorg task network '{task.network}' contains invalid characters")
  else
    let canonical := task.selectCanonical provider
    let done := runStatements pg task canonical sessions task.statements m
    match done.2 with
    | some e => (done.1, w, some e)
    | none => (done.1, repairWindow task canonical w, none)

/-- Whether an execution gets as far as committing the rollback transaction. -/
def ReorgTask.commits (pg : Postgres) (sessions : Nat → Option Nat) (task : ReorgTask)
    (provider : Option ChainProvider) (m : Machine) : Bool :=
  validateSqlValue task.network &&
    (runStatements pg task (task.selectCanonical provider) sessions
      (task.snapshotStatements ++ [.rollback]) m).2.isNone

/-! ### The canonical blocks of a task -/

theorem fetchRange_range {task : ReorgTask} {provider : Option ChainProvider} {b : Header}
    (h : b ∈ task.fetchRange provider) :
    task.forkPoint ≤ b.number ∧ b.number ≤ task.detectionPoint := by
  unfold ReorgTask.fetchRange at h
  cases provider with
  | none => exact absurd h List.not_mem_nil
  | some provider =>
    simp only at h
    cases hAnswer : provider.getBlockByNumberBatch
      (List.range' task.forkPoint (task.detectionPoint + 1 - task.forkPoint)) with
    | none => simp [hAnswer] at h
    | some blocks =>
      rw [hAnswer, Option.getD_some] at h
      have hMem : b.number ∈ blocks.map Header.number := List.mem_map_of_mem h
      have hAsked := (provider.requested hAnswer).subset hMem
      rw [List.mem_range'_1] at hAsked
      omega

theorem selectCanonical_range {task : ReorgTask} {provider : Option ChainProvider} {b : Header}
    (h : b ∈ task.selectCanonical provider) :
    task.forkPoint ≤ b.number ∧ b.number ≤ task.detectionPoint := by
  unfold ReorgTask.selectCanonical at h
  split at h
  · simpa using (List.mem_filter.mp h).2
  · exact fetchRange_range h

/-! ### What a run of statements leaves alone -/

/-- The databases agree on everything but derived tables and the journal. -/
structure SameEvents (db db' : Db) : Prop where
  events : db'.events = db.events
  cursors : db'.cursors = db.cursors
  blockHashes : db'.blockHashes = db.blockHashes

theorem SameEvents.refl (db : Db) : SameEvents db db := ⟨rfl, rfl, rfl⟩

theorem SameEvents.trans {db1 db2 db3 : Db} (h1 : SameEvents db1 db2) (h2 : SameEvents db2 db3) :
    SameEvents db1 db3 :=
  ⟨h2.events.trans h1.events, h2.cursors.trans h1.cursors,
    h2.blockHashes.trans h1.blockHashes⟩

section Run

variable {pg : Postgres} {task : ReorgTask} {canonical : List Header}

theorem runStatements_append (sessions : Nat → Option Nat) (ss ss' : List Statement) (m : Machine) :
    runStatements pg task canonical sessions (ss ++ ss') m =
      match (runStatements pg task canonical sessions ss m).2 with
      | none => runStatements pg task canonical (fun i => sessions (i + ss.length)) ss'
          (runStatements pg task canonical sessions ss m).1
      | some e => ((runStatements pg task canonical sessions ss m).1, some e) := by
  induction ss generalizing sessions m with
  | nil => rfl
  | cons s ss ih =>
    simp only [List.cons_append, runStatements]
    cases hExec : s.send pg task canonical (sessions 0) m with
    | error e => rfl
    | ok m' =>
      simp only
      rw [ih]
      simp only [List.length_cons, Nat.add_assoc]

/-- Only the rollback transaction touches events, cursors and block hashes. -/
theorem exec_sameEvents {session : Nat} {s : Statement} {m m' : Machine} (hs : s ≠ .rollback)
    (h : s.exec pg task canonical session m = .ok m') : SameEvents m.db m'.db := by
  cases s with
  | rollback => exact absurd rfl hs
  | createSnapshot name dt op =>
    simp only [Statement.exec] at h
    split at h
    · cases h
    · split at h
      · cases h
      · cases h
        exact .refl _
  | applyReversal name dt op =>
    simp only [Statement.exec] at h
    split at h
    · cases h
    · split at h
      · cases h
      · cases h
        exact ⟨rfl, rfl, rfl⟩
  | dropSnapshot name =>
    cases h
    exact .refl _
  | deleteJournal dt =>
    cases h
    exact ⟨rfl, rfl, rfl⟩
  | recalculate dt jc =>
    simp only [Statement.exec] at h
    split at h
    · cases h
    · cases h
      exact ⟨rfl, rfl, rfl⟩
  | deleteDerived dt =>
    cases h
    exact ⟨rfl, rfl, rfl⟩

theorem send_ok {session : Option Nat} {s : Statement} {m m' : Machine}
    (h : s.send pg task canonical session m = .ok m') :
    (∃ name, s = .dropSnapshot name) ∧ m' = m ∨ ∃ i, s.exec pg task canonical i m = .ok m' := by
  cases session with
  | some i => exact .inr ⟨i, h⟩
  | none =>
    cases s with
    | dropSnapshot name =>
      cases h
      exact .inl ⟨⟨name, rfl⟩, rfl⟩
    | _ => cases h

theorem send_rollback_ok {session : Option Nat} {m m' : Machine}
    (h : Statement.send pg task canonical session m .rollback = .ok m') :
    Committed m.db m'.db (task.eventTables.map EventTableInfo.fullName) task.network
      task.forkPoint task.detectionPoint canonical
      (task.eventTables.map EventTableInfo.checkpointTable) := by
  cases session with
  | none => cases h
  | some i =>
    simp only [Statement.send, Statement.exec] at h
    split at h
    · cases h
    · rename_i db deleted txHashes hCommit
      cases h
      exact reorgRollbackTransaction_ok hCommit

/-- What each statement keeps, a run of statements keeps, however it ends. -/
theorem runStatements_keeps {R : Db → Db → Prop} (hRefl : ∀ db, R db db)
    (hTrans : ∀ db1 db2 db3, R db1 db2 → R db2 db3 → R db1 db3)
    {sessions : Nat → Option Nat} {ss : List Statement} {m : Machine}
    (hExec : ∀ s ∈ ss, ∀ i m m', s.exec pg task canonical i m = .ok m' → R m.db m'.db) :
    R m.db (runStatements pg task canonical sessions ss m).1.db := by
  induction ss generalizing sessions m with
  | nil => exact hRefl _
  | cons s ss ih =>
    rw [runStatements]
    split
    · exact hRefl _
    · rename_i m' hSend
      have hFirst : R m.db m'.db := by
        obtain ⟨-, rfl⟩ | ⟨i, hDone⟩ := send_ok hSend
        · exact hRefl _
        · exact hExec s List.mem_cons_self i m m' hDone
      exact hTrans _ _ _ hFirst (ih fun s' hMem => hExec s' (List.mem_cons_of_mem _ hMem))

theorem runStatements_sameEvents {sessions : Nat → Option Nat} {ss : List Statement} {m : Machine}
    (hs : ∀ s ∈ ss, s ≠ .rollback) :
    SameEvents m.db (runStatements pg task canonical sessions ss m).1.db :=
  runStatements_keeps .refl (fun _ _ _ => .trans) fun s hMem _ _ _ hExec =>
    exec_sameEvents (hs s hMem) hExec

theorem snapshotStatements_ne_rollback : ∀ s ∈ task.snapshotStatements, s ≠ .rollback := by
  intro s hMem
  obtain ⟨e, _, rfl⟩ := List.mem_map.mp hMem
  simp

theorem statementsAfterRollback_ne_rollback :
    ∀ s ∈ task.statementsAfterRollback, s ≠ .rollback := by
  intro s hMem
  simp only [ReorgTask.statementsAfterRollback, ReorgTask.reversalStatements,
    ReorgTask.journalStatements, ReorgTask.deleteStatements, List.mem_append, List.mem_flatMap,
    List.mem_map, List.mem_cons, List.not_mem_nil, or_false] at hMem
  rcases hMem with (⟨e, _, rfl | rfl⟩ | ⟨dt, _, rfl | ⟨jc, _, rfl⟩⟩) | ⟨dt, _, rfl⟩ <;> simp

end Run

section Commits

variable {pg : Postgres} {sessions : Nat → Option Nat} {task : ReorgTask} {provider : Option ChainProvider}
  {m : Machine} {w : BlockChainWindow}

theorem execute_of_not_commits (h : task.commits pg sessions provider m = false) :
    SameEvents m.db (task.execute pg sessions provider m w).1.db ∧
      (task.execute pg sessions provider m w).2.2 ≠ none := by
  unfold ReorgTask.commits at h
  unfold ReorgTask.execute
  cases hValid : validateSqlValue task.network with
  | false => exact ⟨.refl _, by simp⟩
  | true =>
    rw [hValid, Bool.true_and, Option.isNone_eq_false_iff] at h
    obtain ⟨e, hError⟩ := Option.isSome_iff_exists.mp h
    have hRun : runStatements pg task (task.selectCanonical provider) sessions task.statements m =
        ((runStatements pg task (task.selectCanonical provider) sessions
          (task.snapshotStatements ++ [.rollback]) m).1, some e) := by
      rw [ReorgTask.statements, show task.snapshotStatements ++ .rollback ::
        task.statementsAfterRollback = (task.snapshotStatements ++ [.rollback]) ++
          task.statementsAfterRollback by simp, runStatements_append, hError]
    simp only [hRun]
    refine ⟨?_, by simp⟩
    -- Either a snapshot failed, or the rollback did.
    rw [runStatements_append] at hError ⊢
    split at hError
    · rename_i hSnapshots
      simp only [runStatements] at hError ⊢
      split at hError
      · rename_i hRollback
        simpa [hSnapshots, hRollback] using
          runStatements_sameEvents snapshotStatements_ne_rollback
      · cases hError
    · rename_i hSnapshots
      simpa [hSnapshots] using runStatements_sameEvents snapshotStatements_ne_rollback

theorem execute_of_commits (h : task.commits pg sessions provider m = true) :
    ∃ db1 db2, SameEvents m.db db1 ∧ SameEvents db2 (task.execute pg sessions provider m w).1.db ∧
      Committed db1 db2 (task.eventTables.map EventTableInfo.fullName) task.network task.forkPoint
        task.detectionPoint (task.selectCanonical provider)
        (task.eventTables.map EventTableInfo.checkpointTable) := by
  obtain ⟨hValid, hNone⟩ : validateSqlValue task.network = true ∧ _ = none := by
    simpa [ReorgTask.commits] using h
  rw [runStatements_append] at hNone
  split at hNone
  · rename_i hSnapshots
    simp only [runStatements] at hNone
    split at hNone
    · cases hNone
    rename_i m2 hRollback
    have hAfter : SameEvents m2.db (task.execute pg sessions provider m w).1.db := by
      simp only [ReorgTask.execute, hValid, Bool.not_true, Bool.false_eq_true, if_false]
      rw [ReorgTask.statements, runStatements_append, hSnapshots]
      simp only [runStatements, hRollback]
      split <;> exact runStatements_sameEvents statementsAfterRollback_ne_rollback
    exact ⟨_, m2.db, runStatements_sameEvents snapshotStatements_ne_rollback, hAfter,
      send_rollback_ok hRollback⟩
  · cases hNone

theorem commits_of_execute_ok
    (h : (task.execute pg sessions provider m w).2.2 = none) :
    task.commits pg sessions provider m = true := by
  by_contra hNot
  exact (execute_of_not_commits (by simpa using hNot)).2 h

end Commits

/-- An execution that succeeds commits the rollback transaction, between a database that agrees with
the one before the execution and one that agrees with the one after it, and repairs the window. -/
theorem execute_ok {pg : Postgres} {sessions : Nat → Option Nat} {task : ReorgTask}
    {provider : Option ChainProvider} {m m' : Machine} {w w' : BlockChainWindow}
    (h : task.execute pg sessions provider m w = (m', w', none)) :
    validateSqlValue task.network = true ∧
      w' = repairWindow task (task.selectCanonical provider) w ∧
      ∃ db1 db2, SameEvents m.db db1 ∧ SameEvents db2 m'.db ∧
        Committed db1 db2 (task.eventTables.map EventTableInfo.fullName) task.network
          task.forkPoint task.detectionPoint (task.selectCanonical provider)
          (task.eventTables.map EventTableInfo.checkpointTable) := by
  have hCommits : task.commits pg sessions provider m = true :=
    commits_of_execute_ok (w := w) (by rw [h])
  obtain ⟨db1, db2, hBefore, hAfter, hCommit⟩ := execute_of_commits (w := w) hCommits
  rw [h] at hAfter
  unfold ReorgTask.execute at h
  split at h
  · simp at h
  · rename_i hValid
    simp only at h
    split at h
    · simp at h
    · simp only [Prod.mk.injEq, and_true] at h
      exact ⟨by simpa using hValid, h.2.symm, db1, db2, hBefore, hAfter, hCommit⟩

end Rindexer.Reorg
