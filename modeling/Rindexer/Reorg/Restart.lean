import Rindexer.Reorg.Effect
import Rindexer.Reorg.Runs

/-! Executions that stop half way, and the handling that follows: a process that starts again loads the
window and validates it; after an error, the next poll meets the old window.  What is lost is what the
committed rollback took away and the statements after it had still to read. -/

namespace Rindexer.Reorg

open Rindexer.Lib Rindexer.Database Rindexer.Manifest

/-! ### Stops -/

/-- The state in which an execution stops after so many statements. -/
def ReorgTask.stopAfter (pg : Postgres) (sessions : Nat → Option Nat) (task : ReorgTask)
    (provider : Option ChainProvider) (m : Machine) (k : Nat) : Machine :=
  (runStatements pg task (task.selectCanonical provider) sessions (task.statements.take k) m).1

namespace ReorgCoordinator

/-- A coordinator whose execution of a task has stopped. -/
def stopped (env : Surroundings) (c : ReorgCoordinator) (task : ReorgTask) (k : Nat) :
    ReorgCoordinator :=
  { c with store := task.stopAfter env.postgres env.sessions env.provider c.store k }

/-- The start of a process: the window is loaded and validated, and a reorg that it sees is
handled. -/
def startUp (env : Surroundings) (c : ReorgCoordinator) : Option ReorgCoordinator :=
  c.restart.map fun c' =>
    match c'.validateOnStartup env with
    | .ok (some task) => (c'.handleReorg env task).1
    | _ => c'

end ReorgCoordinator

section Stops

variable {pg : Postgres} {sessions : Nat → Option Nat} {task : ReorgTask}
  {provider : Option ChainProvider} {canonical : List Header} {m : Machine}

theorem length_snapshotStatements (task : ReorgTask) :
    task.snapshotStatements.length = task.snapshotOps.length := by
  simp [ReorgTask.snapshotStatements]

theorem creates_of_mem_take {k : Nat} (hk : k ≤ task.snapshotOps.length) :
    ∀ s ∈ task.statements.take k, s.creates = true := by
  intro s hs
  rw [ReorgTask.statements, List.take_append_of_le_length (by rwa [length_snapshotStatements])] at hs
  obtain ⟨e, _, rfl⟩ := List.mem_map.mp (List.mem_of_mem_take hs)
  rfl

/-- Snapshots only add temp tables. -/
theorem runStatements_creates {ss : List Statement} (hs : ∀ s ∈ ss, s.creates = true) :
    ∃ temps, (runStatements pg task canonical sessions ss m).1 = { m with temps := temps } := by
  induction ss generalizing sessions m with
  | nil => exact ⟨m.temps, rfl⟩
  | cons s ss ih =>
    rw [runStatements]
    split
    · exact ⟨m.temps, rfl⟩
    · rename_i m' hSend
      have hFirst : ∃ temps, m' = { m with temps := temps } := by
        obtain ⟨-, rfl⟩ | ⟨i, hExec⟩ := send_ok hSend
        · exact ⟨m'.temps, rfl⟩
        · cases s with
          | createSnapshot name dt op =>
            simp only [Statement.exec] at hExec
            split at hExec
            · cases hExec
            · split at hExec
              · cases hExec
              · cases hExec
                exact ⟨_, rfl⟩
          | _ => cases hs _ List.mem_cons_self
      obtain ⟨temps, rfl⟩ := hFirst
      exact ih fun s' hMem => hs s' (List.mem_cons_of_mem _ hMem)

theorem stopAfter_before {k : Nat} (hk : k ≤ task.snapshotOps.length) :
    ∃ temps, task.stopAfter pg sessions provider m k = { m with temps := temps } :=
  runStatements_creates (creates_of_mem_take hk)

/-- What an execution does to the store does not depend on the window. -/
theorem execute_window (w w' : BlockChainWindow) :
    (task.execute pg sessions provider m w).1 = (task.execute pg sessions provider m w').1 ∧
      (task.execute pg sessions provider m w).2.2 = (task.execute pg sessions provider m w').2.2 := by
  unfold ReorgTask.execute
  split
  · exact ⟨rfl, rfl⟩
  · simp only
    split <;> exact ⟨rfl, rfl⟩

theorem run_of_execute_ok {m' : Machine} {w w' : BlockChainWindow}
    (h : task.execute pg sessions provider m w = (m', w', none)) :
    runStatements pg task (task.selectCanonical provider) sessions task.statements m =
      (m', none) := by
  unfold ReorgTask.execute at h
  split at h
  · simp at h
  · simp only at h
    split at h
    · simp at h
    · rename_i hNone
      simp only [Prod.mk.injEq, and_true] at h
      exact Prod.ext h.1 hNone

/-- Where all statements succeed, so do the first. -/
theorem run_take_of_run {ss : List Statement} {m' : Machine}
    (h : runStatements pg task canonical sessions ss m = (m', none)) (k : Nat) :
    (runStatements pg task canonical sessions (ss.take k) m).2 = none := by
  rw [← List.take_append_drop k ss, runStatements_append] at h
  split at h
  · assumption
  · simp at h

theorem snapshotsOf_nil {taken : Db} : SnapshotsOf pg task taken [] :=
  fun _ hMem => absurd hMem List.not_mem_nil

theorem stopAfter_run (hTaken : SnapshotsOf pg task m.db m.temps) (k : Nat) :
    SnapshotsOf pg task m.db (task.stopAfter pg sessions provider m k).temps ∧
      ((runStatements pg task (task.selectCanonical provider) sessions (task.statements.take k)
          m).2 = none →
        effects pg task (task.selectCanonical provider) m.db (task.statements.take k) m.db =
          .ok (task.stopAfter pg sessions provider m k).db) :=
  runStatements_effects
    (fun s hMem => statements_issued task s (List.mem_of_mem_take hMem))
    ((statements_order task).sublist (List.take_sublist k _)) (fun _ _ _ => rfl) hTaken

/-- An execution that succeeds has, after each statement, the effect of those before it. -/
theorem stopAfter_effects {m' : Machine} {w w' : BlockChainWindow}
    (hTaken : SnapshotsOf pg task m.db m.temps)
    (h : task.execute pg sessions provider m w = (m', w', none)) (k : Nat) :
    effects pg task (task.selectCanonical provider) m.db (task.statements.take k) m.db =
      .ok (task.stopAfter pg sessions provider m k).db :=
  (stopAfter_run hTaken k).2 (run_take_of_run (run_of_execute_ok h) k)

theorem execute_effects {m' : Machine} {w w' : BlockChainWindow}
    (hTaken : SnapshotsOf pg task m.db m.temps)
    (h : task.execute pg sessions provider m w = (m', w', none)) :
    effects pg task (task.selectCanonical provider) m.db task.statements m.db = .ok m'.db := by
  have hAll := stopAfter_effects hTaken h task.statements.length
  rw [ReorgTask.stopAfter, List.take_length, run_of_execute_ok h] at hAll
  exact hAll

end Stops

/-! ### Nothing left to do -/

/-- A snapshot whose rows change no row of the derived table that they join. -/
def SnapshotIdle (task : ReorgTask) (db : Db) (e : DerivedTableInfo × DerivedTableRollbackOp)
    (snapshot : Snapshot) : Prop :=
  ∀ row ∈ (db.derived e.1.fullTableName).rows,
    rowNetworkFilter e.1.crossChain task.network row = true →
    ∀ found, snapshot.rows.find? (fun r => joins e.2.whereColumns row r.1) = some found →
      reverseRow e.2.reversible found.2 row = row

/-- The derived state is what it would be without the events of the range: no aggregate of theirs is in
a derived row, no journal entry and no inserted row stands at the fork point or above, and the
journal has the values of its columns. -/
structure ReorgTask.LeavesDerived (pg : Postgres) (task : ReorgTask) (db : Db) : Prop where
  reversed : ∀ e ∈ task.snapshotOps, ∀ snapshot,
    task.takeSnapshot pg db e = .ok snapshot → SnapshotIdle task db e snapshot
  journal : ∀ dt ∈ task.derivedTables, dt.journalColumns ≠ [] → ∀ r ∈ db.opLog,
    r.derivedTable = dt.fullTableName → networkFilter dt.crossChain task.network r.network = true →
      r.blockNumber < task.forkPoint
  recalculated : ∀ dt ∈ task.derivedTables, ∀ jc ∈ dt.journalColumns, ∀ table,
    task.recalculate pg dt jc db.opLog (db.derived dt.fullTableName) = .ok table →
      table = db.derived dt.fullTableName
  deleted : ∀ dt ∈ task.derivedTables, dt.rollbackOps = [] → dt.journalColumns = [] →
    ∀ row ∈ (db.derived dt.fullTableName).rows,
      rowNetworkFilter dt.crossChain task.network row = true → row.blockNumber < task.forkPoint

section Idle

variable {pg : Postgres} {task : ReorgTask} {canonical : List Header} {taken db : Db}

theorem setDerived_eq_self {name : String} {table : DerivedTable} :
    db.setDerived name table = db ↔ table = db.derived name := by
  constructor
  · intro h
    have hAt := congrArg (fun db' => db'.derived name) h
    simpa [Db.setDerived] using hAt
  · rintro rfl
    simp [Db.setDerived]

theorem reverseTable_eq_self_iff {e : DerivedTableInfo × DerivedTableRollbackOp}
    {snapshot : Snapshot} {table : DerivedTable}
    (h : reverseTable task e.1 e.2 snapshot (db.derived e.1.fullTableName) = .ok table) :
    table = db.derived e.1.fullTableName ↔ SnapshotIdle task db e snapshot := by
  simp only [reverseTable] at h
  split at h
  · cases h
  split at h
  · cases h
  split at h
  · cases h
  cases h
  have hRows : ∀ rows : List DerivedRow,
      { db.derived e.1.fullTableName with rows := rows } = db.derived e.1.fullTableName ↔
        rows = (db.derived e.1.fullTableName).rows := by
    intro rows
    cases db.derived e.1.fullTableName
    simp
  rw [hRows]
  nth_rewrite 2 [← List.map_id (db.derived e.1.fullTableName).rows]
  rw [List.map_inj_left]
  refine forall_congr' fun row => forall_congr' fun _ => ?_
  cases rowNetworkFilter e.1.crossChain task.network row with
  | false => simp
  | true =>
    cases snapshot.rows.find? fun r => joins e.2.whereColumns row r.1 <;> simp

theorem deleteJournal_eq_self_iff {dt : DerivedTableInfo} {opLog : List OpLogRow} :
    task.deleteJournal dt opLog = opLog ↔ ∀ r ∈ opLog, r.derivedTable = dt.fullTableName →
      networkFilter dt.crossChain task.network r.network = true → r.blockNumber < task.forkPoint := by
  rw [ReorgTask.deleteJournal, List.filter_eq_self]
  refine forall_congr' fun r => forall_congr' fun _ => ?_
  cases networkFilter dt.crossChain task.network r.network <;>
    by_cases hTable : r.derivedTable = dt.fullTableName <;> simp [hTable]

theorem deleteDerived_eq_self_iff {dt : DerivedTableInfo} {table : DerivedTable} :
    task.deleteDerived dt table = table ↔ ∀ row ∈ table.rows,
      rowNetworkFilter dt.crossChain task.network row = true → row.blockNumber < task.forkPoint := by
  have hRows : task.deleteDerived dt table = table ↔
      (task.deleteDerived dt table).rows = table.rows := by
    cases table
    simp [ReorgTask.deleteDerived]
  rw [hRows, ReorgTask.deleteDerived, List.filter_eq_self]
  refine forall_congr' fun row => forall_congr' fun _ => ?_
  cases rowNetworkFilter dt.crossChain task.network row <;> simp

theorem applyReversal_mem {e : DerivedTableInfo × DerivedTableRollbackOp}
    (h : e ∈ task.snapshotOps) :
    ∃ name, .applyReversal name e.1 e.2 ∈ task.statementsAfterRollback := by
  obtain ⟨i, hi, hGet⟩ := List.getElem_of_mem h
  have hIndexed : (e, i) ∈ task.snapshotOps.zipIdx :=
    List.mem_zipIdx_iff_getElem?.mpr (by rw [List.getElem?_eq_getElem hi, hGet])
  refine ⟨task.snapshotName i, List.mem_append_left _ (List.mem_append_left _ ?_)⟩
  exact List.mem_flatMap.mpr ⟨_, hIndexed, List.mem_cons_self⟩

theorem journalStatements_mem {dt : DerivedTableInfo} (hDt : dt ∈ task.derivedTables)
    (hColumns : dt.journalColumns ≠ []) {s : Statement}
    (hs : s = .deleteJournal dt ∨ ∃ jc ∈ dt.journalColumns, s = .recalculate dt jc) :
    s ∈ task.statementsAfterRollback := by
  refine List.mem_append_left _ (List.mem_append_right _ (List.mem_flatMap.mpr ⟨dt, ?_, ?_⟩))
  · exact List.mem_filter.mpr ⟨hDt, by simpa using hColumns⟩
  · rcases hs with rfl | ⟨jc, hMem, rfl⟩
    · exact List.mem_cons_self
    · exact List.mem_cons_of_mem _ (List.mem_map_of_mem hMem)

theorem deleteDerived_mem {dt : DerivedTableInfo} (hDt : dt ∈ task.derivedTables)
    (hOps : dt.rollbackOps = []) (hColumns : dt.journalColumns = []) :
    .deleteDerived dt ∈ task.statementsAfterRollback := by
  refine List.mem_append_right _ (List.mem_map_of_mem (List.mem_filter.mpr ⟨hDt, ?_⟩))
  simp [hOps, hColumns]

/-- Where the statements after the rollback change nothing one by one, the derived state is what it
would be without the events of the range. -/
theorem leavesDerived_of_idle (hDerived : db.derived = taken.derived) (hOpLog : db.opLog = taken.opLog)
    (h : ∀ s ∈ task.statementsAfterRollback, s.effect pg task canonical taken db = .ok db) :
    task.LeavesDerived pg taken := by
  refine ⟨fun e he snapshot hTake => ?_, fun dt hDt hColumns => ?_, fun dt hDt jc hjc table hTable => ?_,
    fun dt hDt hOps hColumns => ?_⟩
  · obtain ⟨name, hMem⟩ := applyReversal_mem he
    have hIdle := h _ hMem
    simp only [Statement.effect, hTake] at hIdle
    split at hIdle
    · cases hIdle
    · rename_i table hTable
      have hSame := setDerived_eq_self.mp (Except.ok.inj hIdle)
      rw [hDerived] at hSame hTable
      exact (reverseTable_eq_self_iff hTable).mp hSame
  · have hIdle := h _ (journalStatements_mem hDt hColumns (.inl rfl))
    have hSame := congrArg Db.opLog (Except.ok.inj hIdle)
    rw [hOpLog] at hSame
    exact deleteJournal_eq_self_iff.mp hSame
  · have hColumns : dt.journalColumns ≠ [] := List.ne_nil_of_mem hjc
    have hIdle := h _ (journalStatements_mem hDt hColumns (.inr ⟨jc, hjc, rfl⟩))
    simp only [Statement.effect, hDerived, hOpLog, hTable] at hIdle
    rw [← hDerived]
    exact setDerived_eq_self.mp (Except.ok.inj hIdle)
  · have hIdle := h _ (deleteDerived_mem hDt hOps hColumns)
    have hSame := setDerived_eq_self.mp (Except.ok.inj hIdle)
    rw [hDerived] at hSame
    exact deleteDerived_eq_self_iff.mp hSame

theorem effect_idle {s : Statement} {db' : Db} (hDerived : db.derived = taken.derived)
    (hOpLog : db.opLog = taken.opLog) (h : task.LeavesDerived pg taken) (hIssued : task.Issues s)
    (hs : s ≠ .rollback) (hEffect : s.effect pg task canonical taken db = .ok db') : db' = db := by
  cases s with
  | createSnapshot name dt op =>
    cases hEffect
    rfl
  | rollback => exact absurd rfl hs
  | applyReversal name dt op =>
    simp only [Statement.effect] at hEffect
    split at hEffect
    · cases hEffect
    · rename_i snapshot hTake
      split at hEffect
      · cases hEffect
      · rename_i table hTable
        cases hEffect
        rw [hDerived] at hTable
        have hIdle := h.reversed _ hIssued.mem snapshot hTake
        exact setDerived_eq_self.mpr
          (((reverseTable_eq_self_iff hTable).mpr hIdle).trans (by rw [hDerived]))
  | dropSnapshot name =>
    cases hEffect
    rfl
  | deleteJournal dt =>
    cases hEffect
    have hSame := deleteJournal_eq_self_iff.mpr (h.journal dt hIssued.1 hIssued.2)
    rw [hOpLog, hSame, ← hOpLog]
  | recalculate dt jc =>
    simp only [Statement.effect] at hEffect
    split at hEffect
    · cases hEffect
    · rename_i table hTable
      cases hEffect
      rw [hDerived, hOpLog] at hTable
      have hSame := h.recalculated dt hIssued.1 jc hIssued.2 table hTable
      exact setDerived_eq_self.mpr (hSame.trans (by rw [hDerived]))
  | deleteDerived dt =>
    cases hEffect
    have hSame := deleteDerived_eq_self_iff.mpr (h.deleted dt hIssued.1 hIssued.2.1 hIssued.2.2)
    exact setDerived_eq_self.mpr (by rw [hDerived, hSame])

/-- Effects that end as they began after each statement are those of statements that change nothing. -/
theorem effects_take_same {ss : List Statement}
    (h : ∀ k ≤ ss.length, effects pg task canonical taken (ss.take k) db = .ok db) :
    ∀ s ∈ ss, s.effect pg task canonical taken db = .ok db := by
  induction ss with
  | nil => simp
  | cons s ss ih =>
    have hFirst : s.effect pg task canonical taken db = .ok db := by
      have hOne := h 1 (by simp)
      simp only [List.take_succ_cons, List.take_zero, effects] at hOne
      split at hOne
      · cases hOne
      · cases hOne
        assumption
    refine List.forall_mem_cons.mpr ⟨hFirst, ih fun k hk => ?_⟩
    have hNext := h (k + 1) (Nat.succ_le_succ hk)
    rw [List.take_succ_cons, effects, hFirst] at hNext
    exact hNext

theorem effects_idle {ss : List Statement} {db' : Db}
    (hIdle : ∀ s ∈ ss, ∀ db', s.effect pg task canonical taken db = .ok db' → db' = db)
    (h : effects pg task canonical taken ss db = .ok db') : db' = db := by
  induction ss with
  | nil => exact (Except.ok.inj h).symm
  | cons s ss ih =>
    rw [effects] at h
    split at h
    · cases h
    · rename_i next hNext
      cases hIdle s List.mem_cons_self next hNext
      exact ih (fun s' hMem => hIdle s' (List.mem_cons_of_mem _ hMem)) h

end Idle

/-! ### After the commit -/

section Commit

variable {pg : Postgres} {sessions : Nat → Option Nat} {task : ReorgTask}
  {provider : Option ChainProvider} {m m' : Machine} {w w' : BlockChainWindow}

/-- The statements up to the rollback, and some of those after it. -/
theorem take_statements (task : ReorgTask) (j : Nat) :
    task.statements.take (task.snapshotOps.length + 1 + j) =
      task.snapshotStatements ++ .rollback :: task.statementsAfterRollback.take j := by
  rw [ReorgTask.statements, List.take_append, length_snapshotStatements,
    List.take_of_length_le (by rw [length_snapshotStatements]; omega),
    show task.snapshotOps.length + 1 + j - task.snapshotOps.length = j + 1 by omega,
    List.take_succ_cons]

theorem effects_creates {canonical : List Header} {taken db : Db} {ss : List Statement}
    (hs : ∀ s ∈ ss, s.creates = true) : effects pg task canonical taken ss db = .ok db := by
  induction ss with
  | nil => rfl
  | cons s ss ih =>
    have hFirst : s.effect pg task canonical taken db = .ok db := by
      cases s with
      | createSnapshot name dt op => rfl
      | _ => cases hs _ List.mem_cons_self
    rw [effects, hFirst]
    exact ih fun s' hMem => hs s' (List.mem_cons_of_mem _ hMem)

/-- The stops after the commit: from the database that the rollback commits, they have the effects of
the statements after it. -/
theorem stopAfter_after (hTaken : SnapshotsOf pg task m.db m.temps)
    (h : task.execute pg sessions provider m w = (m', w', none)) :
    ∃ committed, Committed m.db committed (task.eventTables.map EventTableInfo.fullName)
        task.network task.forkPoint task.detectionPoint (task.selectCanonical provider)
        (task.eventTables.map EventTableInfo.checkpointTable) ∧
      ∀ j, effects pg task (task.selectCanonical provider) m.db
          (task.statementsAfterRollback.take j) committed =
        .ok (task.stopAfter pg sessions provider m (task.snapshotOps.length + 1 + j)).db := by
  have hEffects := stopAfter_effects hTaken h
  have hCreates : ∀ s ∈ task.snapshotStatements, s.creates = true := by
    intro s hs
    obtain ⟨e, _, rfl⟩ := List.mem_map.mp hs
    rfl
  have hSplit := fun j => hEffects (task.snapshotOps.length + 1 + j)
  simp only [take_statements, effects_append, effects_creates hCreates, effects] at hSplit
  cases hRollback : Statement.effect pg task (task.selectCanonical provider) m.db m.db
      .rollback with
  | error e =>
    have hZero := hSplit 0
    rw [hRollback] at hZero
    cases hZero
  | ok committed =>
    simp only [hRollback] at hSplit
    refine ⟨committed, ?_, hSplit⟩
    simp only [Statement.effect] at hRollback
    split at hRollback
    · cases hRollback
    · rename_i hCommit
      cases hRollback
      exact reorgRollbackTransaction_ok hCommit

theorem stopAfter_all (h : task.execute pg sessions provider m w = (m', w', none)) :
    task.stopAfter pg sessions provider m
      (task.snapshotOps.length + 1 + task.statementsAfterRollback.length) = m' := by
  rw [ReorgTask.stopAfter, take_statements, List.take_length]
  exact congrArg Prod.fst (run_of_execute_ok h)

/-- A stop anywhere after the commit leaves the database of the whole execution exactly if the
execution has nothing to do there. -/
theorem stopAfter_same_iff (hTaken : SnapshotsOf pg task m.db m.temps)
    (h : task.execute pg sessions provider m w = (m', w', none)) :
    (∀ k, task.snapshotOps.length < k →
        (task.stopAfter pg sessions provider m k).db = m'.db) ↔ task.LeavesDerived pg m.db := by
  obtain ⟨committed, hCommit, hStops⟩ := stopAfter_after hTaken h
  constructor
  · intro hSame
    have hEnd : ∀ j, (task.stopAfter pg sessions provider m
        (task.snapshotOps.length + 1 + j)).db = m'.db := fun j => hSame _ (by omega)
    have hStart : committed = m'.db := by
      have hZero := hStops 0
      rw [hEnd, List.take_zero, effects] at hZero
      exact Except.ok.inj hZero
    have hPrefix : ∀ k ≤ task.statementsAfterRollback.length,
        effects pg task (task.selectCanonical provider) m.db
          (task.statementsAfterRollback.take k) committed = .ok committed := by
      intro k _
      rw [hStops, hEnd, hStart]
    exact leavesDerived_of_idle hCommit.derived hCommit.opLog (effects_take_same hPrefix)
  · intro hLeaves
    have hIdle : ∀ j, (task.stopAfter pg sessions provider m
        (task.snapshotOps.length + 1 + j)).db = committed := by
      intro j
      refine effects_idle (fun s hMem db' hEffect => ?_) (hStops j)
      have hMem := List.mem_of_mem_take hMem
      exact effect_idle hCommit.derived hCommit.opLog hLeaves
        (statementsAfterRollback_issued task s hMem) (statementsAfterRollback_ne_rollback s hMem)
        hEffect
    intro k hk
    obtain ⟨j, rfl⟩ := Nat.exists_eq_add_of_lt hk
    have hLast := hIdle task.statementsAfterRollback.length
    rw [stopAfter_all h] at hLast
    rw [show task.snapshotOps.length + j + 1 = task.snapshotOps.length + 1 + j by omega, hIdle, hLast]

/-- The statements after the commit leave events, cursors and block hashes. -/
theorem stopAfter_sameEvents {k : Nat} (hk : task.snapshotOps.length < k)
    (h : task.execute pg sessions provider m w = (m', w', none)) :
    SameEvents (task.stopAfter pg sessions provider m k).db m'.db := by
  obtain ⟨j, rfl⟩ := Nat.exists_eq_add_of_lt hk
  have hRun := run_of_execute_ok h
  rw [← List.take_append_drop (task.snapshotOps.length + j + 1) task.statements,
    runStatements_append, run_take_of_run (run_of_execute_ok h)] at hRun
  have hAfter := congrArg Prod.fst hRun
  simp only at hAfter
  have hRest : task.statements.drop (task.snapshotOps.length + j + 1) =
      task.statementsAfterRollback.drop j := by
    rw [ReorgTask.statements, List.drop_append, length_snapshotStatements,
      List.drop_of_length_le (by rw [length_snapshotStatements]; omega),
      show task.snapshotOps.length + j + 1 - task.snapshotOps.length = j + 1 by omega,
      List.drop_succ_cons, List.nil_append]
  rw [← hAfter, hRest]
  exact runStatements_sameEvents fun s hMem =>
    statementsAfterRollback_ne_rollback s (List.mem_of_mem_drop hMem)

end Commit

/-! ### Starts after a crash -/

namespace ReorgCoordinator

/-- What a restart loads depends on the persisted block hashes only. -/
theorem restart_store (c : ReorgCoordinator) {m m' : Machine}
    (h : m'.db.blockHashes = m.db.blockHashes) :
    ({ c with store := m' } : ReorgCoordinator).restart =
      ({ c with store := m } : ReorgCoordinator).restart.map fun c' =>
        { c' with store := { m' with temps := [] } } := by
  simp only [restart, ReorgBlockHashPersistence.load, h]
  split <;> rfl

/-- A start that sees no reorg leaves the database. -/
theorem startUp_settled {env : Surroundings} {c c' : ReorgCoordinator} {m m' : Machine}
    (hHashes : m'.db.blockHashes = m.db.blockHashes)
    (hRestart : ({ c with store := m } : ReorgCoordinator).restart = some c')
    (hNone : c'.validateOnStartup env = .ok none) :
    ∃ c'', ({ c with store := m' } : ReorgCoordinator).startUp env = some c'' ∧
      c''.store.db = m'.db := by
  rw [startUp, restart_store c hHashes, hRestart]
  have hSame : ({ c' with store := { m' with temps := [] } } : ReorgCoordinator).validateOnStartup
      env = .ok none := hNone
  simp only [Option.map_some, hSame]
  exact ⟨_, rfl, rfl⟩

/-- A start that makes a task executes it. -/
theorem startUp_task {env : Surroundings} {c c' : ReorgCoordinator} {task : ReorgTask}
    {m m' done : Machine} {w w' : BlockChainWindow} (hHashes : m'.db.blockHashes = m.db.blockHashes)
    (hRestart : ({ c with store := m } : ReorgCoordinator).restart = some c')
    (hTask : c'.validateOnStartup env = .ok (some task))
    (hDone : task.execute env.postgres env.sessions env.provider { m' with temps := [] } w =
      (done, w', none)) :
    ∃ c'', ({ c with store := m' } : ReorgCoordinator).startUp env = some c'' ∧
      c''.store = done := by
  rw [startUp, restart_store c hHashes, hRestart]
  have hSame : ({ c' with store := { m' with temps := [] } } : ReorgCoordinator).validateOnStartup
      env = .ok (some task) := hTask
  simp only [Option.map_some, hSame]
  refine ⟨_, rfl, ?_⟩
  simp only [handleReorg]
  rw [(execute_window c'.window w).1, hDone]

end ReorgCoordinator

/-! ### Polls after an error -/

/-- Every event that a snapshot of the task selects is an event that its rollback deletes. -/
def ReorgTask.DeletesSources (task : ReorgTask) (db : Db) : Prop :=
  ∀ e ∈ task.snapshotOps, ∀ r ∈ (db.events e.2.eventTable).rows,
    task.forkPoint ≤ r.blockNumber → r.blockNumber ≤ task.detectionPoint →
      networkFilter e.1.crossChain task.network r.network = true →
        e.2.eventTable ∈ task.eventTables.map EventTableInfo.fullName ∧ r.network = task.network

/-- A state whose temp tables change nothing. -/
def TempsIdle (task : ReorgTask) (m : Machine) : Prop :=
  ∀ t ∈ m.temps, ∀ e, task.Names t.1.2 e → SnapshotIdle task m.db e t.2

section Polls

variable {pg : Postgres} {sessions : Nat → Option Nat} {task : ReorgTask}
  {provider : Option ChainProvider} {canonical : List Header} {db : Db}

/-- Once the rollback has deleted its sources, a snapshot has no rows. -/
theorem snapshot_empty {db' : Db} {names checkpointTables : List String}
    (hNames : names = task.eventTables.map EventTableInfo.fullName)
    (hCommit : Committed db db' names task.network task.forkPoint task.detectionPoint canonical
      checkpointTables) (hSources : task.DeletesSources db)
    {e : DerivedTableInfo × DerivedTableRollbackOp} (he : e ∈ task.snapshotOps)
    {snapshot : Snapshot} (hTake : task.takeSnapshot pg db' e = .ok snapshot) :
    snapshot.rows = [] := by
  have hNone : ∀ test, task.snapshotRows e.1.crossChain test (db'.events e.2.eventTable) = [] := by
    intro test
    refine List.filter_eq_nil_iff.mpr fun r hr hSelected => ?_
    simp only [Bool.and_eq_true, decide_eq_true_eq] at hSelected
    obtain ⟨⟨⟨hFork, hDetection⟩, hNetwork⟩, -⟩ := hSelected
    rw [hCommit.events, hNames] at hr
    split at hr
    · obtain ⟨hr, hKept⟩ := mem_deleteStaleEvents.mp hr
      exact hKept ⟨(hSources e he r hr hFork hDetection hNetwork).2, hFork, hDetection⟩
    · rename_i hNotListed
      exact hNotListed (hSources e he r hr hFork hDetection hNetwork).1
  simp only [ReorgTask.takeSnapshot, ReorgTask.selectSnapshot, hNone] at hTake
  split at hTake
  · cases hTake
  split at hTake
  · cases hTake
  split at hTake
  · cases hTake
  split at hTake
  · cases hTake
  split at hTake
  · cases hTake
    rfl
  · split at hTake
    · cases hTake
    · cases hTake
      rfl

/-- A statement on the database that the whole execution leaves changes nothing. -/
theorem exec_idle {taken : Db} {session : Nat} {s : Statement} {m m' : Machine}
    (hDerived : m.db.derived = taken.derived) (hOpLog : m.db.opLog = taken.opLog)
    (hLeaves : task.LeavesDerived pg taken)
    (hRollback : ∀ db' result, reorgRollbackTransaction m.db
      (task.eventTables.map EventTableInfo.fullName) task.network task.forkPoint
      task.detectionPoint canonical (task.eventTables.map EventTableInfo.checkpointTable) =
        .ok (db', result) → db' = m.db)
    (hEmpty : ∀ e ∈ task.snapshotOps, ∀ snapshot,
      task.takeSnapshot pg m.db e = .ok snapshot → snapshot.rows = [])
    (hTemps : TempsIdle task m) (hIssued : task.Issues s)
    (h : s.exec pg task canonical session m = .ok m') : m'.db = m.db ∧ TempsIdle task m' := by
  have hPlain : ∀ db', s.effect pg task canonical taken m.db = .ok db' → s ≠ .rollback →
      db' = m.db := fun db' hEffect hs => effect_idle hDerived hOpLog hLeaves hIssued hs hEffect
  cases s with
  | createSnapshot name dt op =>
    simp only [Statement.exec] at h
    split at h
    · cases h
    · split at h
      · cases h
      · rename_i snapshot hSelect
        cases h
        refine ⟨rfl, fun t hMem e hName => ?_⟩
        rcases List.mem_cons.mp hMem with rfl | hMem
        · cases hName.unique hIssued
          intro row _ _ found hFound
          rw [hEmpty _ hIssued.mem snapshot hSelect] at hFound
          cases hFound
        · exact hTemps t hMem e hName
  | rollback =>
    simp only [Statement.exec] at h
    split at h
    · cases h
    · rename_i hCommit
      cases h
      cases hRollback _ _ hCommit
      exact ⟨rfl, hTemps⟩
  | applyReversal name dt op =>
    simp only [Statement.exec] at h
    split at h
    · cases h
    · rename_i snapshot hLookup
      split at h
      · cases h
      · rename_i table hTable
        cases h
        have hMem : ((session, name), snapshot) ∈ m.temps := by
          obtain ⟨before, after, hSplit, -⟩ := List.lookup_eq_some_iff.mp hLookup
          rw [hSplit]
          simp
        have hSame := (reverseTable_eq_self_iff hTable).mpr (hTemps _ hMem _ hIssued)
        rw [hSame, setDerived_eq_self.mpr rfl]
        exact ⟨rfl, hTemps⟩
  | dropSnapshot name =>
    cases h
    exact ⟨rfl, fun t hMem => hTemps t (List.mem_filter.mp hMem).1⟩
  | deleteJournal dt =>
    cases h
    have hSame := hPlain _ rfl (by simp)
    exact ⟨hSame, by rw [TempsIdle, hSame]; exact hTemps⟩
  | recalculate dt jc =>
    simp only [Statement.exec] at h
    split at h
    · cases h
    · rename_i table hTable
      cases h
      have hSame := hPlain (m.db.setDerived dt.fullTableName table)
        (by simp only [Statement.effect, hTable]) (by simp)
      exact ⟨hSame, by rw [TempsIdle, hSame]; exact hTemps⟩
  | deleteDerived dt =>
    cases h
    have hSame := hPlain _ rfl (by simp)
    exact ⟨hSame, by rw [TempsIdle, hSame]; exact hTemps⟩

/-- A run of statements of the task, on any connections and however it ends, changes nothing. -/
theorem runStatements_idle {taken : Db} {ss : List Statement} {m : Machine}
    (hDerived : m.db.derived = taken.derived) (hOpLog : m.db.opLog = taken.opLog)
    (hLeaves : task.LeavesDerived pg taken)
    (hRollback : ∀ db' result, reorgRollbackTransaction m.db
      (task.eventTables.map EventTableInfo.fullName) task.network task.forkPoint
      task.detectionPoint canonical (task.eventTables.map EventTableInfo.checkpointTable) =
        .ok (db', result) → db' = m.db)
    (hEmpty : ∀ e ∈ task.snapshotOps, ∀ snapshot,
      task.takeSnapshot pg m.db e = .ok snapshot → snapshot.rows = [])
    (hTemps : TempsIdle task m) (hIssued : ∀ s ∈ ss, task.Issues s) :
    (runStatements pg task canonical sessions ss m).1.db = m.db := by
  induction ss generalizing sessions m with
  | nil => rfl
  | cons s ss ih =>
    rw [runStatements]
    split
    · rfl
    rename_i m' hSend
    obtain ⟨hSame, hNext⟩ : m'.db = m.db ∧ TempsIdle task m' := by
      obtain ⟨-, rfl⟩ | ⟨i, hExec⟩ := send_ok hSend
      · exact ⟨rfl, hTemps⟩
      · exact exec_idle hDerived hOpLog hLeaves hRollback hEmpty hTemps
          (hIssued s List.mem_cons_self) hExec
    rw [← hSame] at hDerived hOpLog hRollback hEmpty
    rw [ih hDerived hOpLog hRollback hEmpty hNext fun s' hMem =>
      hIssued s' (List.mem_cons_of_mem _ hMem), hSame]

/-- On what a stop after the commit has left, the task executed again changes nothing, where it has
nothing to do but the rollback. -/
theorem execute_again {sessions' : Nat → Option Nat} {m m' : Machine} {w w' w'' : BlockChainWindow}
    {k : Nat} (hk : task.snapshotOps.length < k) (hTaken : SnapshotsOf pg task m.db m.temps)
    (hDone : task.execute pg sessions provider m w = (m', w', none))
    (hLeaves : task.LeavesDerived pg m.db) (hSources : task.DeletesSources m.db) :
    (task.execute pg sessions' provider (task.stopAfter pg sessions provider m k) w'').1.db =
      m'.db := by
  have hSame := (stopAfter_same_iff hTaken hDone).mpr hLeaves k hk
  obtain ⟨committed, hCommit, hStops⟩ := stopAfter_after hTaken hDone
  have hCommitted : committed = m'.db := by
    have hZero := hStops 0
    rw [(stopAfter_same_iff hTaken hDone).mpr hLeaves _ (by omega), List.take_zero, effects] at hZero
    exact Except.ok.inj hZero
  rw [hCommitted] at hCommit
  have hTemps : TempsIdle task (task.stopAfter pg sessions provider m k) := by
    intro t hMem e hName
    have hTake := (stopAfter_run hTaken k).1 t hMem e hName
    intro row hRow
    rw [hSame, hCommit.derived] at hRow
    exact hLeaves.reversed e hName.mem t.2 hTake row hRow
  unfold ReorgTask.execute
  split
  · exact hSame
  · simp only
    have hRun : (runStatements pg task (task.selectCanonical provider) sessions' task.statements
        (task.stopAfter pg sessions provider m k)).1.db = m'.db := by
      rw [← hSame]
      refine runStatements_idle (by rw [hSame]; exact hCommit.derived)
        (by rw [hSame]; exact hCommit.opLog) hLeaves (fun db' result hAgain => ?_)
        (fun e he snapshot hTake => ?_) hTemps (statements_issued task)
      · rw [hSame] at hAgain ⊢
        exact hCommit.again (fun _ hMem => selectCanonical_range hMem)
          (reorgRollbackTransaction_ok hAgain)
      · rw [hSame] at hTake
        exact snapshot_empty rfl hCommit hSources he hTake
    split <;> exact hRun

/-- Before the commit, the task executed again does all of its work, on whatever connections. -/
theorem execute_first {sessions' : Nat → Option Nat} {m m' : Machine} {w w' w'' : BlockChainWindow}
    {k : Nat} (hk : k ≤ task.snapshotOps.length) (hTaken : SnapshotsOf pg task m.db m.temps)
    (hDone : task.execute pg sessions provider m w = (m', w', none))
    (hAgain : (task.execute pg sessions' provider (task.stopAfter pg sessions provider m k)
      w'').2.2 = none) :
    (task.execute pg sessions' provider (task.stopAfter pg sessions provider m k) w'').1.db =
      m'.db := by
  have hDb : (task.stopAfter pg sessions provider m k).db = m.db := by
    obtain ⟨temps, hStop⟩ : ∃ temps,
        task.stopAfter pg sessions provider m k = { m with temps := temps } := stopAfter_before hk
    rw [hStop]
  have hKept : SnapshotsOf pg task m.db (task.stopAfter pg sessions provider m k).temps :=
    (stopAfter_run hTaken k).1
  rw [← hDb] at hKept
  have hSecond := execute_effects hKept (Prod.ext rfl (Prod.ext rfl hAgain))
  rw [hDb, execute_effects hTaken hDone] at hSecond
  exact (Except.ok.inj hSecond).symm

end Polls

/-! ### Restarts -/

theorem detectAndHandleReorg_of_mismatch (env : Surroundings) (c : ReorgCoordinator) {number : Nat}
    (hash : B256) {parentHash expected got : B256} {task : ReorgTask}
    (hMismatch : c.window.validateParent number parentHash = .mismatch expected got)
    (hTask : c.handleMismatch env number = .ok (some task)) :
    (c.detectAndHandleReorg env number hash parentHash).1.store =
        (task.execute env.postgres env.sessions env.provider c.store c.window).1 ∧
      ((∃ handled, (c.detectAndHandleReorg env number hash parentHash).2 = .ok handled) →
        (task.execute env.postgres env.sessions env.provider c.store c.window).2.2 = none) := by
  simp only [ReorgCoordinator.detectAndHandleReorg, ReorgCoordinator.onNewBlock, hMismatch, hTask,
    ReorgCoordinator.handleReorg]
  cases (task.execute env.postgres env.sessions env.provider c.store c.window).2.2 with
  | none => exact ⟨rfl, fun _ => rfl⟩
  | some e => exact ⟨rfl, by simp⟩

/-- After a stop, the handling that follows ends in the database of the whole execution.  Before the
commit, it does so where the same task is made again and gets through.  After the commit, a start that
sees no reorg any more does so, whatever the stop, exactly if the statements after the commit have
nothing to do; then a poll that makes the task again does so too, where it sees no other events. -/
theorem execute_restarts {env : Surroundings} {c : ReorgCoordinator} {task : ReorgTask}
    {done : Machine} {w' : BlockChainWindow} (hTemps : c.store.temps = [])
    (hDone : task.execute env.postgres env.sessions env.provider c.store c.window =
      (done, w', none)) :
    ((∃ c', c.restart = some c' ∧ c'.validateOnStartup env = .ok (some task)) →
      ∀ k ≤ task.snapshotOps.length,
        ∃ c', (c.stopped env task k).startUp env = some c' ∧ c'.store.db = done.db) ∧
    ((∃ c', ({ c with store := done } : ReorgCoordinator).restart = some c' ∧
        c'.validateOnStartup env = .ok none) →
      ((∀ k, task.snapshotOps.length < k →
          ∃ c', (c.stopped env task k).startUp env = some c' ∧ c'.store.db = done.db) ↔
        task.LeavesDerived env.postgres c.store.db)) ∧
    ∀ sessions number hash parentHash expected got,
      c.window.validateParent number parentHash = .mismatch expected got →
      c.handleMismatch env number = .ok (some task) → ∀ k,
        let retry := (c.stopped env task k).detectAndHandleReorg
          { env with sessions := sessions } number hash parentHash
        (k ≤ task.snapshotOps.length → (∃ handled, retry.2 = .ok handled) →
          retry.1.store.db = done.db) ∧
        (task.snapshotOps.length < k → task.LeavesDerived env.postgres c.store.db →
          task.DeletesSources c.store.db → retry.1.store.db = done.db) := by
  have hTaken : SnapshotsOf env.postgres task c.store.db c.store.temps := by
    rw [hTemps]
    exact snapshotsOf_nil
  refine ⟨?_, ?_, fun sessions number hash parentHash expected got hMismatch hTask k => ?_⟩
  · rintro ⟨c', hRestart, hTask⟩ k hk
    obtain ⟨temps, hStop⟩ : ∃ temps, task.stopAfter env.postgres env.sessions env.provider c.store k =
        { c.store with temps := temps } := stopAfter_before hk
    have hStopped : c.stopped env task k = { c with store := { c.store with temps := temps } } := by
      rw [ReorgCoordinator.stopped, hStop]
    have hEmptied : ({ c.store with temps := [] } : Machine) = c.store := by rw [← hTemps]
    rw [hStopped]
    obtain ⟨c'', hUp, hStore⟩ : ∃ c'', ({ c with store := { c.store with temps := temps } } :
        ReorgCoordinator).startUp env = some c'' ∧ c''.store = done :=
      ReorgCoordinator.startUp_task rfl hRestart hTask (by rw [hEmptied]; exact hDone)
    exact ⟨c'', hUp, by rw [hStore]⟩
  · rintro ⟨c', hRestart, hNone⟩
    have hStart : ∀ k, task.snapshotOps.length < k →
        ∃ c'', (c.stopped env task k).startUp env = some c'' ∧
          c''.store.db = (c.stopped env task k).store.db := fun k hk =>
      ReorgCoordinator.startUp_settled (stopAfter_sameEvents hk hDone).blockHashes.symm hRestart
        hNone
    rw [← stopAfter_same_iff hTaken hDone]
    refine forall_congr' fun k => forall_congr' fun hk => ?_
    obtain ⟨c'', hUp, hDb⟩ := hStart k hk
    rw [hUp]
    simp only [Option.some.injEq, exists_eq_left', hDb]
    rfl
  · obtain ⟨hStore, hOutcome⟩ := detectAndHandleReorg_of_mismatch
      { env with sessions := sessions } (c.stopped env task k) hash hMismatch hTask
    simp only [hStore]
    exact ⟨fun hk hHandled => execute_first hk hTaken hDone (hOutcome hHandled),
      fun hk hLeaves hSources => execute_again hk hTaken hDone hLeaves hSources⟩

/-! ### A reversal lost -/

/-- A chain on which block 11 has been replaced, and one connection. -/
def replacedEleven : Surroundings where
  provider := some (.ofChain (fun n => if n = 11 then (21, 10) else (.ofNat _ n, .ofNat _ (n - 1))) 12)
  persistFails _ := false
  postgres := .plain
  sessions _ := some 0

def balances : DerivedTableInfo where
  fullTableName := "balances"
  crossChain := false
  rollbackOps := [⟨"app.transfer", [("holder", "from")], [⟨"total", "value", .add⟩], none⟩]
  journalColumns := []

/-- Blocks 10 and 11, and a transfer of 5 in block 11 to a balance of 7. -/
def transferIndexed : ReorgCoordinator where
  network := "ethereum"
  window := ⟨(∅ : OrderedMap Nat (B256 × B256)).insertAll [(10, 10, 9), (11, 11, 10)], 100, hundred_pos⟩
  eventTables := [⟨"app", "transfer", "app_transfer"⟩]
  derivedTables := [balances]
  blocksSinceFlush := 0
  store :=
    { db :=
        { events := fun _ => ⟨[("from", .text), ("value", .numeric)],
            [⟨"ethereum", 11, "", fun name => if name = "value" then .num 5 else .text "ada"⟩]⟩
          derived := fun _ => ⟨[("holder", .text), ("total", .numeric)],
            [⟨some "ethereum", 11, 1,
              fun name => if name = "holder" then .text "ada" else .num 12⟩]⟩
          opLog := []
          cursors := fun _ => []
          blockHashes := fun _ =>
            (∅ : OrderedMap Nat (B256 × B256)).insertAll [(10, 10, 9), (11, 11, 10)] }
      temps := []
      eventsDeleted := 0
      affectedTxHashes := [] }
  spawnedPrunes := []

def replacedTask : ReorgTask := transferIndexed.rangeTask 11 11

def totals (db : Db) : List SqlValue := (db.derived "balances").rows.map fun r => r.fields "total"

/-- The validation at startup finds block 11 replaced, and the whole execution leaves the balance of 7.
A crash right after the commit leaves 12, and the next start sees no reorg. -/
theorem crash_loses_reversal :
    transferIndexed.validateOnStartup replacedEleven = .ok (some replacedTask) ∧
      totals (transferIndexed.handleReorg replacedEleven replacedTask).1.store.db = [.num 7] ∧
      ((transferIndexed.stopped replacedEleven replacedTask 2).startUp replacedEleven).map
        (fun c => totals c.store.db) = some [.num 12] := by
  refine ⟨?_, ?_, ?_⟩ <;> rfl

theorem replacedTask_done :
    (replacedTask.execute replacedEleven.postgres replacedEleven.sessions replacedEleven.provider
      transferIndexed.store transferIndexed.window).2.2 = none := by
  rfl

/-- A crash before the commit is made good.  One after it would be, exactly if the transfer had left no
balance. -/
theorem replacedTask_restarts :
    (∀ k ≤ 1, ∃ c', (transferIndexed.stopped replacedEleven replacedTask k).startUp replacedEleven =
        some c' ∧
      c'.store.db = (transferIndexed.handleReorg replacedEleven replacedTask).1.store.db) ∧
    ((∀ k, 1 < k → ∃ c', (transferIndexed.stopped replacedEleven replacedTask k).startUp
          replacedEleven = some c' ∧
        c'.store.db = (transferIndexed.handleReorg replacedEleven replacedTask).1.store.db) ↔
      replacedTask.LeavesDerived .plain transferIndexed.store.db) := by
  have hRestarts := execute_restarts (c := transferIndexed) rfl
    (Prod.ext rfl (Prod.ext rfl replacedTask_done))
  exact ⟨hRestarts.1 ⟨_, rfl, rfl⟩, hRestarts.2.1 ⟨_, rfl, rfl⟩⟩

end Rindexer.Reorg
