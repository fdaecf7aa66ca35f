import Rindexer.Reorg.Task

/-! What the statements of a reorg task do to the database, without the connections.  Every snapshot
that a reversal reads was taken from the events before the rollback, so that an execution that succeeds
has one effect, whatever connections the pool hands out. -/

namespace Rindexer.Reorg

open Rindexer.Lib Rindexer.Database Rindexer.Manifest

/-! ### Effects -/

/-- The snapshot of an operation, taken from the events of a database. -/
def ReorgTask.takeSnapshot (pg : Postgres) (task : ReorgTask) (taken : Db)
    (e : DerivedTableInfo × DerivedTableRollbackOp) : Except String Snapshot :=
  task.selectSnapshot pg e.1.crossChain e.2 (taken.events e.2.eventTable)

/-- A statement on a database, when the snapshots are taken from another. -/
def Statement.effect (pg : Postgres) (task : ReorgTask) (canonical : List Header) (taken db : Db) :
    Statement → Except String Db
  | .createSnapshot _ _ _ => .ok db
  | .rollback =>
    match reorgRollbackTransaction db (task.eventTables.map EventTableInfo.fullName) task.network
        task.forkPoint task.detectionPoint canonical
        (task.eventTables.map EventTableInfo.checkpointTable) with
    | .error e => .error e
    | .ok (db', _, _) => .ok db'
  | .applyReversal _ dt op =>
    match task.takeSnapshot pg taken (dt, op) with
    | .error e => .error e
    | .ok snapshot =>
      match reverseTable task dt op snapshot (db.derived dt.fullTableName) with
      | .error e => .error e
      | .ok table => .ok (db.setDerived dt.fullTableName table)
  | .dropSnapshot _ => .ok db
  | .deleteJournal dt => .ok { db with opLog := task.deleteJournal dt db.opLog }
  | .recalculate dt jc =>
    match task.recalculate pg dt jc db.opLog (db.derived dt.fullTableName) with
    | .error e => .error e
    | .ok table => .ok (db.setDerived dt.fullTableName table)
  | .deleteDerived dt =>
    .ok (db.setDerived dt.fullTableName (task.deleteDerived dt (db.derived dt.fullTableName)))

/-- Statements one after another. -/
def effects (pg : Postgres) (task : ReorgTask) (canonical : List Header) (taken : Db) :
    List Statement → Db → Except String Db
  | [], db => .ok db
  | s :: ss, db =>
    match s.effect pg task canonical taken db with
    | .error e => .error e
    | .ok db' => effects pg task canonical taken ss db'

theorem effects_append {pg : Postgres} {task : ReorgTask} {canonical : List Header} {taken : Db}
    (ss ss' : List Statement) (db : Db) :
    effects pg task canonical taken (ss ++ ss') db =
      match effects pg task canonical taken ss db with
      | .error e => .error e
      | .ok db' => effects pg task canonical taken ss' db' := by
  induction ss generalizing db with
  | nil => rfl
  | cons s ss ih =>
    simp only [List.cons_append, effects]
    cases s.effect pg task canonical taken db with
    | error e => rfl
    | ok db' => exact ih db'

/-! ### Names of temp tables -/

theorem toString_injective {m n : Nat} (h : toString m = toString n) : m = n := by
  have hDigits : (toString m).toList = (toString n).toList := by rw [h]
  rw [Nat.toString_eq_repr, Nat.toString_eq_repr, Nat.toList_repr, Nat.toList_repr] at hDigits
  rw [← Nat.ofDigitChars_ten_toDigits (n := m), hDigits, Nat.ofDigitChars_ten_toDigits]

theorem snapshotName_injective {task : ReorgTask} {i j : Nat}
    (h : task.snapshotName i = task.snapshotName j) : i = j := by
  unfold ReorgTask.snapshotName at h
  have hSuffix := (String.append_left_inj _).mp h
  exact toString_injective ((String.append_right_inj _).mp hSuffix)

/-- The name is that of the temp table for an operation. -/
def ReorgTask.Names (task : ReorgTask) (name : String)
    (e : DerivedTableInfo × DerivedTableRollbackOp) : Prop :=
  ∃ i, (e, i) ∈ task.snapshotOps.zipIdx ∧ name = task.snapshotName i

theorem ReorgTask.Names.unique {task : ReorgTask} {name : String}
    {e e' : DerivedTableInfo × DerivedTableRollbackOp} (h : task.Names name e)
    (h' : task.Names name e') : e = e' := by
  obtain ⟨i, hMem, rfl⟩ := h
  obtain ⟨j, hMem', hName⟩ := h'
  cases snapshotName_injective hName
  rw [List.mem_zipIdx_iff_getElem?] at hMem hMem'
  exact Option.some.inj (hMem.symm.trans hMem')

theorem mem_snapshotOps {task : ReorgTask} {e : DerivedTableInfo × DerivedTableRollbackOp} :
    e ∈ task.snapshotOps ↔
      e.1 ∈ task.derivedTables ∧ e.2 ∈ e.1.rollbackOps ∧ e.2.reversible ≠ [] := by
  constructor
  · intro h
    obtain ⟨dt, hDt, hOp⟩ := List.mem_flatMap.mp h
    obtain ⟨op, hMem, rfl⟩ := List.mem_map.mp hOp
    obtain ⟨hMem, hReversible⟩ := List.mem_filter.mp hMem
    exact ⟨hDt, hMem, by simpa using hReversible⟩
  · rintro ⟨hDt, hMem, hReversible⟩
    refine List.mem_flatMap.mpr ⟨e.1, hDt, List.mem_map.mpr ⟨e.2, ?_, rfl⟩⟩
    exact List.mem_filter.mpr ⟨hMem, by simpa using hReversible⟩

theorem ReorgTask.Names.mem {task : ReorgTask} {name : String}
    {e : DerivedTableInfo × DerivedTableRollbackOp} (h : task.Names name e) :
    e ∈ task.snapshotOps := by
  obtain ⟨i, hMem, -⟩ := h
  exact List.fst_mem_of_mem_zipIdx hMem

/-! ### The statements of a task -/

/-- The statements that a task may issue. -/
def ReorgTask.Issues (task : ReorgTask) : Statement → Prop
  | .createSnapshot name dt op => task.Names name (dt, op)
  | .rollback => True
  | .applyReversal name dt op => task.Names name (dt, op)
  | .dropSnapshot _ => True
  | .deleteJournal dt => dt ∈ task.derivedTables ∧ dt.journalColumns ≠ []
  | .recalculate dt jc => dt ∈ task.derivedTables ∧ jc ∈ dt.journalColumns
  | .deleteDerived dt =>
    dt ∈ task.derivedTables ∧ dt.rollbackOps = [] ∧ dt.journalColumns = []

def Statement.creates : Statement → Bool
  | .createSnapshot _ _ _ => true
  | _ => false

theorem statementsAfterRollback_issued (task : ReorgTask) :
    ∀ s ∈ task.statementsAfterRollback, task.Issues s := by
  intro s hs
  simp only [ReorgTask.statementsAfterRollback, List.mem_append] at hs
  rcases hs with (hReversal | hJournal) | hDelete
  · obtain ⟨e, he, hs⟩ := List.mem_flatMap.mp hReversal
    simp only [List.mem_cons, List.not_mem_nil, or_false] at hs
    rcases hs with rfl | rfl
    · exact ⟨e.2, he, rfl⟩
    · trivial
  · obtain ⟨dt, hDt, hs⟩ := List.mem_flatMap.mp hJournal
    obtain ⟨hMem, hColumns⟩ := List.mem_filter.mp hDt
    rcases List.mem_cons.mp hs with rfl | hs
    · exact ⟨hMem, by simpa using hColumns⟩
    · obtain ⟨jc, hjc, rfl⟩ := List.mem_map.mp hs
      exact ⟨hMem, hjc⟩
  · obtain ⟨dt, hDt, rfl⟩ := List.mem_map.mp hDelete
    obtain ⟨hMem, hEmpty⟩ := List.mem_filter.mp hDt
    exact ⟨hMem, by simpa using hEmpty⟩

theorem statements_issued (task : ReorgTask) : ∀ s ∈ task.statements, task.Issues s := by
  intro s hs
  simp only [ReorgTask.statements, List.mem_append, List.mem_cons] at hs
  rcases hs with hSnapshot | rfl | hAfter
  · obtain ⟨e, he, rfl⟩ := List.mem_map.mp hSnapshot
    exact ⟨e.2, he, rfl⟩
  · trivial
  · exact statementsAfterRollback_issued task s hAfter

theorem statementsAfterRollback_creates (task : ReorgTask) :
    ∀ s ∈ task.statementsAfterRollback, s.creates = false := by
  intro s hs
  simp only [ReorgTask.statementsAfterRollback, ReorgTask.reversalStatements,
    ReorgTask.journalStatements, ReorgTask.deleteStatements, List.mem_append, List.mem_flatMap,
    List.mem_map, List.mem_cons, List.not_mem_nil, or_false] at hs
  rcases hs with (⟨e, _, rfl | rfl⟩ | ⟨dt, _, rfl | ⟨jc, _, rfl⟩⟩) | ⟨dt, _, rfl⟩ <;> rfl

/-- No snapshot is created after the rollback. -/
theorem statements_order (task : ReorgTask) :
    task.statements.Pairwise fun a b => a = .rollback → b.creates = false := by
  rw [ReorgTask.statements, List.pairwise_append, List.pairwise_cons]
  refine ⟨List.pairwise_of_forall_mem_list fun a ha _ _ hRollback => ?_, ⟨fun b hb _ => ?_, ?_⟩,
    fun a ha _ _ hRollback => ?_⟩
  · exact absurd hRollback (snapshotStatements_ne_rollback a ha)
  · exact statementsAfterRollback_creates task b hb
  · exact List.pairwise_of_forall_mem_list fun _ _ b hb _ =>
      statementsAfterRollback_creates task b hb
  · exact absurd hRollback (snapshotStatements_ne_rollback a ha)

/-! ### The effect of an execution -/

section Effect

variable {pg : Postgres} {task : ReorgTask} {canonical : List Header} {taken : Db}

/-- Every temp table with the name of an operation holds its snapshot. -/
def SnapshotsOf (pg : Postgres) (task : ReorgTask) (taken : Db)
    (temps : List ((Nat × String) × Snapshot)) : Prop :=
  ∀ t ∈ temps, ∀ e, task.Names t.1.2 e → task.takeSnapshot pg taken e = .ok t.2

theorem SnapshotsOf.lookup {temps : List ((Nat × String) × Snapshot)} {session : Nat}
    {name : String} {snapshot : Snapshot} {e : DerivedTableInfo × DerivedTableRollbackOp}
    (h : SnapshotsOf pg task taken temps) (hLookup : temps.lookup (session, name) = some snapshot)
    (hName : task.Names name e) : task.takeSnapshot pg taken e = .ok snapshot := by
  have hMem : ((session, name), snapshot) ∈ temps := by
    obtain ⟨before, after, hSplit, -⟩ := List.lookup_eq_some_iff.mp hLookup
    rw [hSplit]
    simp
  exact h _ hMem e hName

/-- One statement that succeeds has its effect, and the temp tables still hold snapshots of the same
events. -/
theorem exec_effect {session : Nat} {s : Statement} {m m' : Machine} (hIssued : task.Issues s)
    (hSource : s.creates = true → m.db.events = taken.events)
    (hTaken : SnapshotsOf pg task taken m.temps)
    (h : s.exec pg task canonical session m = .ok m') :
    s.effect pg task canonical taken m.db = .ok m'.db ∧ SnapshotsOf pg task taken m'.temps := by
  cases s with
  | createSnapshot name dt op =>
    simp only [Statement.exec] at h
    split at h
    · cases h
    · split at h
      · cases h
      · rename_i snapshot hSelect
        cases h
        refine ⟨rfl, fun t hMem e hName => ?_⟩
        rcases List.mem_cons.mp hMem with rfl | hMem
        · cases hName.unique hIssued
          rw [ReorgTask.takeSnapshot, ← hSource rfl]
          exact hSelect
        · exact hTaken t hMem e hName
  | rollback =>
    simp only [Statement.exec] at h
    split at h
    · cases h
    · rename_i hCommit
      cases h
      exact ⟨by simp only [Statement.effect, hCommit], hTaken⟩
  | applyReversal name dt op =>
    simp only [Statement.exec] at h
    split at h
    · cases h
    · rename_i snapshot hLookup
      split at h
      · cases h
      · rename_i table hTable
        cases h
        have hSnapshot := hTaken.lookup hLookup hIssued
        exact ⟨by simp only [Statement.effect, hSnapshot, hTable], hTaken⟩
  | dropSnapshot name =>
    cases h
    exact ⟨rfl, fun t hMem => hTaken t (List.mem_filter.mp hMem).1⟩
  | deleteJournal dt =>
    cases h
    exact ⟨rfl, hTaken⟩
  | recalculate dt jc =>
    simp only [Statement.exec] at h
    split at h
    · cases h
    · rename_i hTable
      cases h
      exact ⟨by simp only [Statement.effect, hTable], hTaken⟩
  | deleteDerived dt =>
    cases h
    exact ⟨rfl, hTaken⟩

/-- Along a run the temp tables hold snapshots of the same events; and statements that all succeed have
their effects. -/
theorem runStatements_effects {sessions : Nat → Option Nat} {ss : List Statement} {m : Machine}
    (hIssued : ∀ s ∈ ss, task.Issues s)
    (hOrder : ss.Pairwise fun a b => a = .rollback → b.creates = false)
    (hSource : ∀ s ∈ ss, s.creates = true → m.db.events = taken.events)
    (hTaken : SnapshotsOf pg task taken m.temps) :
    SnapshotsOf pg task taken (runStatements pg task canonical sessions ss m).1.temps ∧
      ((runStatements pg task canonical sessions ss m).2 = none →
        effects pg task canonical taken ss m.db =
          .ok (runStatements pg task canonical sessions ss m).1.db) := by
  induction ss generalizing sessions m with
  | nil => exact ⟨hTaken, fun _ => rfl⟩
  | cons s ss ih =>
    rw [runStatements]
    split
    · exact ⟨hTaken, by simp⟩
    rename_i m' hSend
    obtain ⟨hFirst, hKept⟩ : s.effect pg task canonical taken m.db = .ok m'.db ∧
        SnapshotsOf pg task taken m'.temps := by
      obtain ⟨⟨name, rfl⟩, rfl⟩ | ⟨i, hExec⟩ := send_ok hSend
      · exact ⟨rfl, hTaken⟩
      · exact exec_effect (hIssued s List.mem_cons_self) (hSource s List.mem_cons_self) hTaken hExec
    rw [effects, hFirst]
    refine ih (fun s' hMem => hIssued s' (List.mem_cons_of_mem _ hMem)) hOrder.of_cons
      (fun s' hMem hCreates => ?_) hKept
    have hEarlier : m.db.events = taken.events :=
      hSource s' (List.mem_cons_of_mem _ hMem) hCreates
    have hNotRollback : s ≠ .rollback := by
      intro hRollback
      have hLater := (List.pairwise_cons.mp hOrder).1 s' hMem hRollback
      simp [hLater] at hCreates
    obtain ⟨-, rfl⟩ | ⟨i, hExec⟩ := send_ok hSend
    · exact hEarlier
    · exact (exec_sameEvents hNotRollback hExec).events.trans hEarlier

end Effect

end Rindexer.Reorg
