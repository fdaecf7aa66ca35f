import Mathlib.Data.List.Pairwise
import Rindexer.Database.Fixpoint

/-! The sync of a manifest.  Each table is looked up, compared and changed by itself, so the sync comes
to rest if it does for each table that it finds. -/

namespace Rindexer.Database

open Rindexer.Manifest

variable {Value : Type}

/-! ### Runs over a manifest -/

/-- Neither table is looked up or created under a name of the other. -/
def Apart (p q : PlacedTable) : Prop :=
  p.lookup ≠ q.lookup ∧ p.lookup ≠ q.created ∧ p.created ≠ q.lookup ∧ p.created ≠ q.created

def Separate (tables : List PlacedTable) : Prop := tables.Pairwise Apart

def applyAll (evaluate : Evaluate Value) (refuses : SchemaChange → Bool) (db : DbTables Value)
    (changes : List SchemaChange) : Option (DbTables Value) :=
  changes.foldlM (applySchemaChange evaluate refuses) db

/-- The tables that a reading of the manifest creates in an empty database. -/
def generated (evaluate : Evaluate Value) (run : SyncRun) (tables : List PlacedTable) :
    DbTables Value :=
  generateTables evaluate run (fun _ => none) tables

section Generated

variable {evaluate : Evaluate Value} {run : SyncRun}

/-- A table of its own name is created once. -/
theorem generateTables_of_separate {tables : List PlacedTable} {db : DbTables Value}
    (hSeparate : Separate tables) (hFree : ∀ p ∈ tables, db p.created = none) {name : TableName} :
    (∀ p ∈ tables, p.created = name → generateTables evaluate run db tables name =
        some (newTable evaluate (run.read p.created p.table.definition))) ∧
      ((∀ p ∈ tables, p.created ≠ name) → generateTables evaluate run db tables name = db name) := by
  induction tables generalizing db with
  | nil => exact ⟨nofun, fun _ => rfl⟩
  | cons p tables ih =>
    obtain ⟨hHead, hRest⟩ := List.pairwise_cons.mp hSeparate
    let db' := Function.update db p.created
      (some (newTable evaluate (run.read p.created p.table.definition)))
    have hStep : generateTables evaluate run db (p :: tables) =
        generateTables evaluate run db' tables := by
      rw [generateTables, List.foldl_cons, hFree p List.mem_cons_self]
      rfl
    have hFree' : ∀ q ∈ tables, db' q.created = none := by
      intro q hq
      show Function.update db _ _ _ = none
      rw [Function.update_of_ne (hHead q hq).2.2.2.symm]
      exact hFree q (List.mem_cons_of_mem p hq)
    obtain ⟨hCreated, hOther⟩ := ih hRest hFree'
    rw [hStep]
    refine ⟨fun q hq hName => ?_, fun hNone => ?_⟩
    · rcases List.mem_cons.mp hq with rfl | hq
      · rw [hOther fun r hr hEq => (hHead r hr).2.2.2 (hName.trans hEq.symm), ← hName]
        exact Function.update_self _ _ _
      · exact hCreated q hq hName
    · rw [hOther fun q hq => hNone q (List.mem_cons_of_mem p hq)]
      exact Function.update_of_ne (hNone p List.mem_cons_self).symm _ _

theorem generated_created {tables : List PlacedTable} (hSeparate : Separate tables) {p : PlacedTable}
    (hp : p ∈ tables) : generated evaluate run tables p.created =
      some (newTable evaluate (run.read p.created p.table.definition)) :=
  (generateTables_of_separate hSeparate fun _ _ => rfl).1 p hp rfl

theorem exists_of_generated {tables : List PlacedTable} (hSeparate : Separate tables)
    {name : TableName} {stored : DbTable Value}
    (h : generated evaluate run tables name = some stored) : ∃ p ∈ tables, p.created = name ∧
      stored = newTable evaluate (run.read p.created p.table.definition) := by
  by_cases hNone : ∀ p ∈ tables, p.created ≠ name
  · rw [generated, (generateTables_of_separate hSeparate fun _ _ => rfl).2 hNone] at h
    exact nomatch h
  · push Not at hNone
    obtain ⟨p, hp, rfl⟩ := hNone
    rw [generated_created hSeparate hp] at h
    exact ⟨p, hp, rfl, (Option.some.inj h).symm⟩

end Generated

section Apply

variable {evaluate : Evaluate Value} {run : SyncRun}

/-- What goes through with rows in the way goes through without them. -/
theorem applyAll_of_refuses {refuses : SchemaChange → Bool} {changes : List SchemaChange}
    {db db' : DbTables Value} (h : applyAll evaluate refuses db changes = some db') :
    applyAll evaluate (fun _ => false) db changes = some db' := by
  induction changes generalizing db with
  | nil => exact h
  | cons change changes ih =>
    obtain ⟨db₁, hStep, hRest⟩ := Option.bind_eq_some_iff.mp h
    have hStep' : applySchemaChange evaluate (fun _ => false) db change = some db₁ := by
      rw [applySchemaChange] at hStep ⊢
      split at hStep
      · exact nomatch hStep
      · exact hStep
    exact Option.bind_eq_some_iff.mpr ⟨db₁, hStep', ih hRest⟩

/-- The changes of one table change that table alone. -/
theorem applyAll_of_table {changes : List SchemaChange} {name : TableName}
    (hTable : ∀ change ∈ changes, change.table = name) {db : DbTables Value} {stored : DbTable Value}
    (hStored : db name = some stored) : applyAll evaluate (fun _ => false) db changes =
      (alterAll evaluate stored changes).map fun stored' =>
        Function.update db name (some stored') := by
  induction changes generalizing db stored with
  | nil =>
    rw [alterAll_nil, Option.map_some, ← hStored, Function.update_eq_self]
    rfl
  | cons change changes ih =>
    obtain ⟨hHead, hRest⟩ := List.forall_mem_cons.mp hTable
    have hStep : applySchemaChange evaluate (fun _ => false) db change =
        (change.alter evaluate stored).map fun stored' =>
          Function.update db name (some stored') := by
      rw [applySchemaChange, if_neg Bool.false_ne_true, hHead, hStored, Option.bind_some]
    have hCons : applyAll evaluate (fun _ => false) db (change :: changes) =
        (applySchemaChange evaluate (fun _ => false) db change).bind fun db₁ =>
          applyAll evaluate (fun _ => false) db₁ changes := rfl
    rw [hCons, hStep, alterAll_cons]
    cases change.alter evaluate stored with
    | none => rfl
    | some stored₁ =>
      rw [Option.map_some, Option.bind_some, Option.bind_some,
        ih hRest (Function.update_self name (some stored₁) db)]
      simp only [Function.update_idem]

theorem table_of_mem_detectTable {name : TableName} {table : SyncTable} {stored : DbTable Value}
    {change : SchemaChange} (h : change ∈ detectTable name table run stored) : change.table = name := by
  rw [detectTable, List.mem_append, List.mem_append, List.mem_append] at h
  rcases h with ((h | h) | h) | h
  · obtain ⟨n, -, hChange⟩ := List.mem_filterMap.mp h
    obtain ⟨columnType, defaultValue, rfl⟩ := columnToAdd_eq_some hChange
    rfl
  · obtain ⟨n, -, hChange⟩ := List.mem_filterMap.mp h
    rw [columnToRemove] at hChange
    split at hChange
    · cases hChange
    · obtain rfl := Option.some.inj hChange
      rfl
  · rw [keyChange] at h
    split at h
    · obtain rfl := List.mem_singleton.mp h
      rfl
    · exact absurd h List.not_mem_nil
  · obtain ⟨c, -, hChange⟩ := List.mem_filterMap.mp h
    rw [typeChange] at hChange
    split at hChange
    · dsimp only at hChange
      split at hChange
      · cases hChange
      · obtain rfl := Option.some.inj hChange
        rfl
    · cases hChange

/-- The tables after the sync: each that is found is synced. -/
def syncedTables (evaluate : Evaluate Value) (run : SyncRun) (tables : List PlacedTable)
    (db : DbTables Value) : DbTables Value := fun name =>
  match tables.find? fun p => p.lookup = name with
  | some p => (db name).map (synced evaluate name p.table run)
  | none => db name

theorem syncedTables_of_mem {tables : List PlacedTable} (hSeparate : Separate tables)
    {p : PlacedTable} (hp : p ∈ tables) (db : DbTables Value) :
    syncedTables evaluate run tables db p.lookup =
      (db p.lookup).map (synced evaluate p.lookup p.table run) := by
  have hFind : tables.find? (fun q => q.lookup = p.lookup) = some p := by
    induction tables with
    | nil => exact absurd hp List.not_mem_nil
    | cons q tables ih =>
      obtain ⟨hHead, hRest⟩ := List.pairwise_cons.mp hSeparate
      rcases List.mem_cons.mp hp with rfl | hp
      · rw [List.find?_cons_of_pos (by simp)]
      · rw [List.find?_cons_of_neg (by simpa using (hHead p hp).1), ih hRest hp]
  rw [syncedTables, hFind]

theorem syncedTables_of_forall_ne {tables : List PlacedTable} {name : TableName}
    (h : ∀ p ∈ tables, p.lookup ≠ name) (db : DbTables Value) :
    syncedTables evaluate run tables db name = db name := by
  have hFind : tables.find? (fun p => p.lookup = name) = none :=
    List.find?_eq_none.mpr fun p hp => by simpa using h p hp
  rw [syncedTables, hFind]

/-- The changes of a manifest go through just if those of each table do. -/
theorem applyAll_detectSchemaChanges {tables : List PlacedTable} (hSeparate : Separate tables)
    (hTables : ∀ p ∈ tables, Creatable evaluate p.table.definition) {found db db' : DbTables Value}
    (hKeyed : ∀ name stored, found name = some stored → Keyed stored)
    (hAgree : ∀ p ∈ tables, db p.lookup = found p.lookup) :
    applyAll evaluate (fun _ => false) db (detectSchemaChanges run tables found) = some db' ↔
      (∀ p ∈ tables, ∀ stored, found p.lookup = some stored → GoesThrough evaluate p.table stored) ∧
        db' = syncedTables evaluate run tables db := by
  induction tables generalizing db with
  | nil =>
    have hSame : syncedTables evaluate run [] db = db := rfl
    rw [hSame]
    refine ⟨fun h => ⟨nofun, (Option.some.inj h).symm⟩, ?_⟩
    rintro ⟨-, rfl⟩
    rfl
  | cons p tables ih =>
    obtain ⟨hHead, hRest⟩ := List.pairwise_cons.mp hSeparate
    have hNotRest : ∀ q ∈ tables, q.lookup ≠ p.lookup := fun q hq => (hHead q hq).1.symm
    have hTables' := (List.forall_mem_cons.mp hTables).2
    have hAgree' := (List.forall_mem_cons.mp hAgree).2
    have hOther : ∀ {db₁ : DbTables Value}, (∀ name, name ≠ p.lookup → db₁ name = db name) →
        db₁ p.lookup = (found p.lookup).map (synced evaluate p.lookup p.table run) →
        syncedTables evaluate run tables db₁ = syncedTables evaluate run (p :: tables) db := by
      intro db₁ hSame hSynced
      funext name
      by_cases hName : name = p.lookup
      · subst hName
        rw [syncedTables_of_forall_ne hNotRest, hSynced,
          syncedTables_of_mem hSeparate List.mem_cons_self, hAgree p List.mem_cons_self]
      · rw [syncedTables, syncedTables, List.find?_cons_of_neg (by simpa [eq_comm] using hName),
          hSame name hName]
    rw [List.forall_mem_cons]
    cases hFound : found p.lookup with
    | none =>
      have hChanges : detectSchemaChanges run (p :: tables) found =
          detectSchemaChanges run tables found := by
        rw [detectSchemaChanges, List.flatMap_cons, hFound]
        rfl
      have hDb : db p.lookup = (found p.lookup).map (synced evaluate p.lookup p.table run) := by
        rw [hAgree p List.mem_cons_self, hFound]
        rfl
      rw [hChanges, ih hRest hTables' hAgree', hOther (fun _ _ => rfl) hDb]
      simp
    | some stored =>
      have hChanges : detectSchemaChanges run (p :: tables) found =
          detectTable p.lookup p.table run stored ++ detectSchemaChanges run tables found := by
        rw [detectSchemaChanges, List.flatMap_cons, hFound]
        rfl
      have hStored : db p.lookup = some stored := (hAgree p List.mem_cons_self).trans hFound
      have hFirst : applyAll evaluate (fun _ => false) db
          (detectTable p.lookup p.table run stored) =
            (alterAll evaluate stored (detectTable p.lookup p.table run stored)).map fun stored' =>
              Function.update db p.lookup (some stored') :=
        applyAll_of_table (fun _ h => table_of_mem_detectTable h) hStored
      have hDetect : ∀ {after}, alterAll evaluate stored (detectTable p.lookup p.table run stored) =
          some after ↔ GoesThrough evaluate p.table stored ∧
            after = synced evaluate p.lookup p.table run stored :=
        alterAll_detectTable (hTables p List.mem_cons_self) (hKeyed p.lookup stored hFound)
      have hSplit : applyAll evaluate (fun _ => false) db (detectTable p.lookup p.table run stored ++
          detectSchemaChanges run tables found) =
          (applyAll evaluate (fun _ => false) db (detectTable p.lookup p.table run stored)).bind
            fun db₁ => applyAll evaluate (fun _ => false) db₁ (detectSchemaChanges run tables found) := by
        rw [applyAll, List.foldlM_append]
        rfl
      let db₁ : DbTables Value :=
        Function.update db p.lookup (some (synced evaluate p.lookup p.table run stored))
      have hAgree₁ : ∀ q ∈ tables, db₁ q.lookup = found q.lookup := fun q hq =>
        (Function.update_of_ne (hNotRest q hq) _ _).trans (hAgree' q hq)
      have hSynced : syncedTables evaluate run tables db₁ =
          syncedTables evaluate run (p :: tables) db := by
        refine hOther (fun name hName => Function.update_of_ne hName _ _) ?_
        rw [hFound]
        exact Function.update_self _ _ _
      rw [hChanges, hSplit, hFirst, Option.bind_eq_some_iff]
      simp only [Option.some.injEq, forall_eq']
      constructor
      · rintro ⟨db₂, hMap, hLater⟩
        obtain ⟨after, hAfter, rfl⟩ := Option.map_eq_some_iff.mp hMap
        obtain ⟨hThrough, rfl⟩ := hDetect.mp hAfter
        obtain ⟨hRestThrough, rfl⟩ := (ih hRest hTables' hAgree₁).mp hLater
        exact ⟨⟨hThrough, hRestThrough⟩, hSynced⟩
      · rintro ⟨⟨hThrough, hRestThrough⟩, rfl⟩
        refine ⟨db₁, ?_, (ih hRest hTables' hAgree₁).mpr ⟨hRestThrough, hSynced.symm⟩⟩
        rw [hDetect.mpr ⟨hThrough, rfl⟩]
        rfl

end Apply

/-! ### The manifest -/

/-- A manifest whose tables can be created: their names can be built, no two share a name, and Postgres
takes their statements. -/
structure Accepted (classes : UnicodeClasses) (evaluate : Evaluate Value) (m : SyncManifest)
    (tables : List PlacedTable) : Prop where
  places : m.places classes = some tables
  separate : Separate tables
  creatable : ∀ p ∈ tables, Creatable evaluate p.table.definition

/-- A table of a contract without filters is looked up under the name that it is created by. -/
theorem lookup_eq_created {classes : UnicodeClasses} {m : SyncManifest} {contract : ContractName}
    {table : SyncTable} {p : PlacedTable} (hFilter : contract.isFilter = false)
    (h : m.place classes contract table = some p) : p.lookup = p.created := by
  have hName : contract.beforeModifyNameIfFilterReadonly = contract.name := by
    rw [ContractName.beforeModifyNameIfFilterReadonly, hFilter, if_neg Bool.false_ne_true]
  rw [SyncManifest.place, hName] at h
  cases hSchema : generateIndexerContractSchemaName classes m.name contract.name with
  | none =>
    rw [hSchema] at h
    cases h
  | some schema =>
    cases hTable : camelToSnake classes table.definition.name.toList with
    | none =>
      rw [hSchema, hTable] at h
      cases h
    | some name =>
      rw [hSchema, hTable] at h
      obtain rfl := Option.some.inj h
      rfl

/-- The sync finds nothing to change in tables just created, and for tables of an earlier manifest,
once its changes have gone through, it finds nothing more, and each table is the one that would be
created.  Each detection and each creation may read the manifest in an order of its own. -/
structure ReachesFixpoint (evaluate : Evaluate Value) (old new : List PlacedTable) : Prop where
  fresh : ∀ create detect : SyncRun,
    detectSchemaChanges detect new (generated evaluate create new) = []
  settled : ∀ (create first : SyncRun) (refuses : SchemaChange → Bool) (db : DbTables Value),
    applyAll evaluate refuses (generated evaluate create old)
      (detectSchemaChanges first new (generated evaluate create old)) = some db →
        ∀ second : SyncRun, detectSchemaChanges second new db = []
  equal : ∀ (create first : SyncRun) (refuses : SchemaChange → Bool) (db : DbTables Value),
    applyAll evaluate refuses (generated evaluate create old)
      (detectSchemaChanges first new (generated evaluate create old)) = some db →
        ∀ later : SyncRun, ∀ p ∈ new, ∀ stored, db p.created = some stored →
          Alike stored (newTable evaluate (later.read p.created p.table.definition))

/-- Two definitions of a table that create the same. -/
structure AsCreated (evaluate : Evaluate Value) (old new : Table) : Prop where
  columns : ∀ column, column ∈ (newTable evaluate old).columns ↔
    column ∈ (newTable evaluate new).columns
  primaryKey : (createTable old).primaryKey = (createTable new).primaryKey
  oldKey : old.KeyOrdered
  newKey : new.KeyOrdered

/-- What lets the sync bring a table of an earlier manifest to the new one.  A table that is not looked
up under its name, one of a contract of filters, has to be as the new manifest has it already. -/
structure Synchronizes (evaluate : Evaluate Value) (p q : PlacedTable) : Prop where
  found : q.created = p.lookup → Settles p.table (newTable evaluate q.table.definition)
  completed : q.created = p.created → p.lookup = p.created →
    Completes evaluate p.table (newTable evaluate q.table.definition)
  unseen : q.created = p.created → p.lookup ≠ p.created →
    AsCreated evaluate q.table.definition p.table.definition

structure Harmless (evaluate : Evaluate Value) (old new : List PlacedTable) : Prop where
  fresh : ∀ p ∈ new, p.lookup = p.created → p.table.definition.KeyOrdered ∧
    ∀ c ∈ p.table.definition.columns, p.table.typed c.name = true →
      ∀ inner, c.columnType ≠ .array inner
  synced : (∀ p ∈ new, ∀ q ∈ old, q.created = p.lookup →
      GoesThrough evaluate p.table (newTable evaluate q.table.definition)) →
    ∀ p ∈ new, ∀ q ∈ old, Synchronizes evaluate p q

def SyncRun.plain : SyncRun where
  read := fun _ t => t
  reordered := fun _ t => .refl t
  order := fun _ l => l
  perm := fun _ l => .refl l

/-- A run that reads one table in a given way. -/
def SyncRun.reading {t t' : Table} (h : t.Reordered t') : SyncRun where
  read := fun _ x => if x = t then t' else x
  reordered := by
    intro _ x
    split
    case isTrue hEq => exact hEq ▸ h
    case isFalse => exact .refl x
  order := fun _ l => l
  perm := fun _ l => .refl l

/-- All runs have the same key for a table just if no operation brings two columns to it. -/
theorem keyOrdered_iff_forall_runs {name name' : TableName} {t : Table} :
    (∀ run run' : SyncRun, (createTable (run.read name t)).primaryKey =
      (createTable (run'.read name' t)).primaryKey) ↔ t.KeyOrdered := by
  rw [← primaryKey_eq_iff]
  constructor
  · intro h t' hRead
    have hEq := h (SyncRun.reading hRead) SyncRun.plain
    have hReading : (SyncRun.reading hRead).read name t = t' := if_pos rfl
    rwa [hReading] at hEq
  · intro h run run'
    rw [h _ (run.reordered name t), h _ (run'.reordered name' t)]

theorem GoesThrough.of_columns {evaluate : Evaluate Value} {table : SyncTable}
    {stored stored' : DbTable Value} (h : GoesThrough evaluate table stored)
    (hColumns : stored'.columns = stored.columns) : GoesThrough evaluate table stored' := by
  have hNames : stored'.columnNames = stored.columnNames := by
    rw [DbTable.columnNames, DbTable.columnNames, hColumns]
  refine ⟨?_, ?_, ?_⟩
  · rw [hColumns]
    exact h.types
  · rw [hNames]
    exact h.defaults
  · rw [hNames]
    exact h.key

section Manifest

variable {classes : UnicodeClasses} {evaluate : Evaluate Value} {earlier m : SyncManifest}
  {old new : List PlacedTable}

theorem separate_of_ne {tables : List PlacedTable} (h : Separate tables) {p q : PlacedTable}
    (hp : p ∈ tables) (hq : q ∈ tables) (hNe : p ≠ q) : Apart p q := by
  have hSymm : Std.Symm Apart :=
    ⟨fun _ _ h => ⟨h.1.symm, h.2.2.1.symm, h.2.1.symm, h.2.2.2.symm⟩⟩
  exact List.Pairwise.forall h hp hq hNe

/-- A table that is not looked up under its name is not found when it was just created. -/
theorem generated_lookup_of_ne (hNew : Separate new) {run : SyncRun} {p : PlacedTable} (hp : p ∈ new)
    (hNe : p.lookup ≠ p.created) : generated evaluate run new p.lookup = none := by
  cases hFound : generated evaluate run new p.lookup with
  | none => rfl
  | some stored =>
    obtain ⟨q, hq, hName, -⟩ := exists_of_generated hNew hFound
    by_cases hSame : p = q
    · exact absurd (hSame ▸ hName.symm) hNe
    · exact absurd hName.symm (separate_of_ne hNew hp hq hSame).2.1

theorem fresh_iff (hNew : Accepted classes evaluate m new) :
    (∀ create detect : SyncRun,
      detectSchemaChanges detect new (generated evaluate create new) = []) ↔
      ∀ p ∈ new, p.lookup = p.created → p.table.definition.KeyOrdered ∧
        ∀ c ∈ p.table.definition.columns, p.table.typed c.name = true →
          ∀ inner, c.columnType ≠ .array inner := by
  have hTable : ∀ {create detect : SyncRun} {p : PlacedTable}, p ∈ new → p.lookup = p.created →
      ∃ stored, generated evaluate create new p.lookup = some stored ∧
        (detectTable p.lookup p.table detect stored = [] ↔
          (createTable (create.read p.created p.table.definition)).primaryKey =
              (createTable (detect.read p.lookup p.table.definition)).primaryKey ∧
            ∀ c ∈ p.table.definition.columns, p.table.typed c.name = true →
              ∀ inner, c.columnType ≠ .array inner) := by
    intro create detect p hp hSame
    have hFound : generated evaluate create new p.created =
        some (newTable evaluate (create.read p.created p.table.definition)) :=
      generated_created hNew.separate hp
    rw [← hSame] at hFound ⊢
    refine ⟨_, hFound, ?_⟩
    exact detectTable_created_iff (hNew.creatable p hp) (create.reordered _ _)
  simp only [detectSchemaChanges, List.flatMap_eq_nil_iff]
  constructor
  · intro h p hp hSame
    have hBoth (create detect : SyncRun) :
        (createTable (create.read p.created p.table.definition)).primaryKey =
            (createTable (detect.read p.lookup p.table.definition)).primaryKey ∧
          ∀ c ∈ p.table.definition.columns, p.table.typed c.name = true →
            ∀ inner, c.columnType ≠ .array inner := by
      obtain ⟨stored, hStored, hIff⟩ := @hTable create detect p hp hSame
      have hNothing := h create detect p hp
      rw [hStored] at hNothing
      exact hIff.mp hNothing
    exact ⟨keyOrdered_iff_forall_runs.mp fun create detect => (hBoth create detect).1,
      (hBoth SyncRun.plain SyncRun.plain).2⟩
  · intro h create detect p hp
    by_cases hSame : p.lookup = p.created
    · obtain ⟨hKey, hArrays⟩ := h p hp hSame
      obtain ⟨stored, hStored, hIff⟩ := @hTable create detect p hp hSame
      rw [hStored]
      exact hIff.mpr ⟨keyOrdered_iff_forall_runs.mpr hKey create detect, hArrays⟩
    · rw [generated_lookup_of_ne hNew.separate hp hSame]

/-- The tables of an earlier manifest, whichever run created them. -/
theorem generated_keyed (hOld : Accepted classes evaluate earlier old) {run : SyncRun}
    {name : TableName} {stored : DbTable Value} (h : generated evaluate run old name = some stored) :
    Keyed stored := by
  obtain ⟨q, hq, -, rfl⟩ := exists_of_generated hOld.separate h
  exact ((hOld.creatable q hq).reordered (run.reordered _ _)).keyed

/-- What the changes of the new manifest make of the tables of the earlier one. -/
theorem applyAll_generated_iff (hOld : Accepted classes evaluate earlier old)
    (hNew : Accepted classes evaluate m new) {create first : SyncRun} {db : DbTables Value} :
    applyAll evaluate (fun _ => false) (generated evaluate create old)
        (detectSchemaChanges first new (generated evaluate create old)) = some db ↔
      (∀ p ∈ new, ∀ q ∈ old, q.created = p.lookup →
        GoesThrough evaluate p.table (newTable evaluate q.table.definition)) ∧
      db = syncedTables evaluate first new (generated evaluate create old) := by
  rw [applyAll_detectSchemaChanges hNew.separate hNew.creatable (fun _ _ h => generated_keyed hOld h)
    fun _ _ => rfl]
  refine and_congr_left fun _ => forall₂_congr fun p hp => ⟨fun h q hq hName => ?_, fun h stored hFound => ?_⟩
  · have hThrough := h _ (hName ▸ generated_created hOld.separate hq)
    exact hThrough.of_columns (created_columns_of_reordered evaluate (create.reordered _ _)).symm
  · obtain ⟨q, hq, hName, rfl⟩ := exists_of_generated hOld.separate hFound
    exact (h q hq hName).of_columns (created_columns_of_reordered evaluate (create.reordered _ _))

/-- The sync comes to rest at what would be created just if the manifests are harmless to it. -/
theorem reachesFixpoint_iff (hOld : Accepted classes evaluate earlier old)
    (hNew : Accepted classes evaluate m new) :
    ReachesFixpoint evaluate old new ↔ Harmless evaluate old new := by
  have hColumns : ∀ (create : SyncRun) (q : PlacedTable),
      (newTable evaluate (create.read q.created q.table.definition)).columns =
        (newTable evaluate q.table.definition).columns :=
    fun create q => created_columns_of_reordered evaluate (create.reordered _ _)
  have hColumnNames : ∀ (create : SyncRun) (q : PlacedTable),
      (newTable evaluate (create.read q.created q.table.definition)).columnNames =
        (newTable evaluate q.table.definition).columnNames := fun create q => by
    rw [DbTable.columnNames, DbTable.columnNames, hColumns]
  have hOther : ∀ {p : PlacedTable}, p ∈ new → p.lookup ≠ p.created → ∀ {run : SyncRun}
      {db : DbTables Value}, syncedTables evaluate run new db p.created = db p.created := by
    intro p hp hNe run db
    refine syncedTables_of_forall_ne (fun q hq hName => ?_) db
    by_cases hSame : p = q
    · exact hNe (hSame ▸ hName)
    · exact (separate_of_ne hNew.separate hp hq hSame).2.2.1 hName.symm
  constructor
  · intro h
    refine ⟨(fresh_iff hNew).mp h.fresh, fun hThrough p hp q hq => ?_⟩
    have hThroughRead : ∀ create : SyncRun, q.created = p.lookup → GoesThrough evaluate p.table
        (newTable evaluate (create.read q.created q.table.definition)) :=
      fun create hName => (hThrough p hp q hq hName).of_columns (hColumns create q)
    have hApply : ∀ create first : SyncRun,
        applyAll evaluate (fun _ => false) (generated evaluate create old)
          (detectSchemaChanges first new (generated evaluate create old)) =
            some (syncedTables evaluate first new (generated evaluate create old)) :=
      fun create first => (applyAll_generated_iff hOld hNew).mpr ⟨hThrough, rfl⟩
    have hSynced : ∀ create first : SyncRun, q.created = p.lookup →
        syncedTables evaluate first new (generated evaluate create old) p.lookup =
          some (synced evaluate p.lookup p.table first
            (newTable evaluate (create.read q.created q.table.definition))) := by
      intro create first hName
      rw [syncedTables_of_mem hNew.separate hp, ← hName, generated_created hOld.separate hq]
      rfl
    have hKeyed : ∀ create : SyncRun,
        Keyed (newTable evaluate (create.read q.created q.table.definition)) :=
      fun create => ((hOld.creatable q hq).reordered (create.reordered _ _)).keyed
    have hSettled : q.created = p.lookup → Settles p.table (newTable evaluate q.table.definition) := by
      intro hName
      have hDetect : ∀ first second : SyncRun,
          (createTable (first.read p.lookup p.table.definition)).primaryKey =
              (createTable (second.read p.lookup p.table.definition)).primaryKey ∧
            ∀ c ∈ p.table.definition.columns, p.table.typed c.name = true →
              c.name ∉ (newTable evaluate (SyncRun.plain.read q.created q.table.definition)).columnNames →
                Readable c := by
        intro first second
        have hNil := h.settled _ _ _ _ (hApply SyncRun.plain first) second
        rw [detectSchemaChanges, List.flatMap_eq_nil_iff] at hNil
        have hTable := hNil p hp
        rw [hSynced SyncRun.plain first hName] at hTable
        exact (detectTable_synced_iff (hNew.creatable p hp) (hKeyed SyncRun.plain)
          (hThroughRead SyncRun.plain hName)).mp hTable
      refine ⟨keyOrdered_iff_forall_runs.mp fun first second => (hDetect first second).1, ?_⟩
      rw [← hColumnNames SyncRun.plain q]
      exact (hDetect SyncRun.plain SyncRun.plain).2
    refine ⟨hSettled, fun hName hSame => ?_, fun hName hNe => ?_⟩
    · have hName' : q.created = p.lookup := hName.trans hSame.symm
      have hAlike := h.equal _ _ _ _ (hApply SyncRun.plain SyncRun.plain) SyncRun.plain p hp _
        (hSame ▸ hSynced SyncRun.plain SyncRun.plain hName')
      exact (synced_columns_iff (hNew.creatable p hp) (hThrough p hp q hq hName')
        (hSettled hName').key (hSettled hName').added).mp hAlike.columns
    · have hAlike : ∀ create later : SyncRun,
          Alike (newTable evaluate (create.read q.created q.table.definition))
            (newTable evaluate (later.read p.created p.table.definition)) := by
        intro create later
        refine h.equal _ _ _ _ (hApply create SyncRun.plain) later p hp _ ?_
        rw [hOther hp hNe, ← hName]
        exact generated_created hOld.separate hq
      refine ⟨(hAlike SyncRun.plain SyncRun.plain).columns,
        (hAlike SyncRun.plain SyncRun.plain).primaryKey, ?_, ?_⟩
      · exact keyOrdered_iff_forall_runs.mp fun create create' =>
          (hAlike create SyncRun.plain).primaryKey.trans (hAlike create' SyncRun.plain).primaryKey.symm
      · exact keyOrdered_iff_forall_runs.mp fun later later' =>
          (hAlike SyncRun.plain later).primaryKey.symm.trans (hAlike SyncRun.plain later').primaryKey
  · intro h
    refine ⟨(fresh_iff hNew).mpr h.fresh, ?_, ?_⟩
    · intro create first refuses db hApply second
      obtain ⟨hThrough, rfl⟩ := (applyAll_generated_iff hOld hNew).mp (applyAll_of_refuses hApply)
      rw [detectSchemaChanges, List.flatMap_eq_nil_iff]
      intro p hp
      rw [syncedTables_of_mem hNew.separate hp]
      cases hFound : generated evaluate create old p.lookup with
      | none => rfl
      | some stored =>
        obtain ⟨q, hq, hName, rfl⟩ := exists_of_generated hOld.separate hFound
        have hSettles := (h.synced hThrough p hp q hq).found hName
        refine (detectTable_synced_iff (hNew.creatable p hp) (generated_keyed hOld hFound)
          ((hThrough p hp q hq hName).of_columns (hColumns create q))).mpr
            ⟨keyOrdered_iff_forall_runs.mpr hSettles.key first second, ?_⟩
        rw [hColumnNames]
        exact hSettles.added
    · intro create first refuses db hApply later p hp stored hStored
      obtain ⟨hThrough, rfl⟩ := (applyAll_generated_iff hOld hNew).mp (applyAll_of_refuses hApply)
      by_cases hSame : p.lookup = p.created
      · rw [← hSame, syncedTables_of_mem hNew.separate hp, Option.map_eq_some_iff] at hStored
        obtain ⟨before, hFound, rfl⟩ := hStored
        obtain ⟨q, hq, hName, rfl⟩ := exists_of_generated hOld.separate hFound
        have hCompletes := (h.synced hThrough p hp q hq).completed (hName.trans hSame) hSame
        have hRead : Completes evaluate p.table
            (newTable evaluate (create.read q.created q.table.definition)) := by
          refine ⟨hCompletes.key, ?_, ?_, ?_⟩
          · rw [hColumnNames]
            exact hCompletes.added
          · rw [hColumns]
            exact hCompletes.kept
          · rw [hColumnNames]
            exact hCompletes.counter
        refine ⟨?_, keyOrdered_iff_forall_runs.mpr hCompletes.key first later⟩
        rw [hColumns later p]
        exact (synced_columns_iff (hNew.creatable p hp)
          ((hThrough p hp q hq hName).of_columns (hColumns create q)) hRead.key
            hRead.settles.added).mpr hRead
      · rw [hOther hp hSame] at hStored
        obtain ⟨q, hq, hName, rfl⟩ := exists_of_generated hOld.separate hStored
        obtain ⟨hSameColumns, hKey, hOldKey, hNewKey⟩ := (h.synced hThrough p hp q hq).unseen hName hSame
        refine ⟨?_, ?_⟩
        · rw [hColumns, hColumns]
          exact hSameColumns
        · have hCreate := primaryKey_eq_iff.mpr hOldKey _ (create.reordered q.created q.table.definition)
          have hLater := primaryKey_eq_iff.mpr hNewKey _ (later.reordered p.created p.table.definition)
          exact hCreate.trans (hKey.trans hLater.symm)

end Manifest

/-! ### A table with an array -/

/-- The balances of an owner, kept by `Transfer` events. -/
def balances : SyncTable where
  definition :=
    { name := "balances", global := false, crossChain := false
      columns := [⟨"owner", .address, false, none⟩, ⟨"amounts", .array .uint256, false, none⟩]
      events := [⟨"Transfer", [],
        [⟨.upsert, [("owner", "$to")], none, none, [⟨"amounts", .set, some "$values"⟩]⟩]⟩]
      cronOperations := []
      timestamp := false }
  typed := fun _ => true

def balancesManifest : SyncManifest := ⟨"Shop".toList, [⟨⟨"Token".toList, false⟩, [balances]⟩]⟩

def balancesName : TableName := ⟨"shop_token".toList, "balances".toList⟩

def balancesPlaces : List PlacedTable := [⟨balancesName, balancesName, balances⟩]

theorem balances_accepted :
    Accepted asciiClasses (fun _ _ => (none : Option (Option Unit))) balancesManifest balancesPlaces where
  places := by
    have hSchema : generateIndexerContractSchemaName asciiClasses "Shop".toList "Token".toList =
        some "shop_token".toList := by decide
    have hTable : camelToSnake asciiClasses balances.definition.name.toList =
        some "balances".toList := by
      decide
    have hPlace : balancesManifest.place asciiClasses ⟨"Token".toList, false⟩ balances =
        some ⟨balancesName, balancesName, balances⟩ := by
      simp only [SyncManifest.place, ContractName.beforeModifyNameIfFilterReadonly, balancesManifest,
        hSchema, Bool.false_eq_true, if_false]
      rw [hTable]
      rfl
    have hEntries : (balancesManifest.contracts.flatMap fun c => c.tables.map (c.contract, ·)) =
        [(⟨"Token".toList, false⟩, balances)] := rfl
    rw [SyncManifest.places, hEntries, List.mapM_cons, hPlace, List.mapM_nil]
    rfl
  separate := List.pairwise_singleton _ _
  creatable := by
    intro p hp
    obtain rfl := List.mem_singleton.mp hp
    refine ⟨by decide, by decide, by decide, by decide, ?_⟩
    intro c hc text hText
    have hNone : ∀ c ∈ (createTable balances.definition).columns, c.default = none := by decide
    rw [hNone c hc] at hText
    cases hText

theorem reachesFixpoint_iff_balances :
    ReachesFixpoint (fun _ _ => (none : Option (Option Unit))) balancesPlaces balancesPlaces ↔
      Harmless (fun _ _ => (none : Option (Option Unit))) balancesPlaces balancesPlaces :=
  reachesFixpoint_iff balances_accepted balances_accepted

/-- A table that was just created is reported for its array. -/
theorem fresh_array_reported :
    detectSchemaChanges SyncRun.plain balancesPlaces
        (generated (fun _ _ => (none : Option (Option Unit))) SyncRun.plain balancesPlaces) =
      [.columnTypeChanged balancesName "amounts" "ARRAY" "numeric[]"] ∧
    Accepted asciiClasses (fun _ _ => (none : Option (Option Unit))) balancesManifest balancesPlaces ∧
    ¬ ReachesFixpoint (fun _ _ => (none : Option (Option Unit))) balancesPlaces balancesPlaces := by
  have hReported : detectSchemaChanges SyncRun.plain balancesPlaces
      (generated (fun _ _ => (none : Option (Option Unit))) SyncRun.plain balancesPlaces) =
        [.columnTypeChanged balancesName "amounts" "ARRAY" "numeric[]"] := by
    with_unfolding_all decide
  refine ⟨hReported, balances_accepted, fun h => ?_⟩
  have hNone := h.fresh SyncRun.plain SyncRun.plain
  rw [hReported] at hNone
  exact nomatch hNone

end Rindexer.Database
