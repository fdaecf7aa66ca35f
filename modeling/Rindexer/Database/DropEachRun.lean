import Rindexer.Database.NameAgreement
import Rindexer.Database.SetupFacts

/-! A setup that drops each run.  It gives the indexer what an empty database would and leaves the rows
of other indexers alone, exactly if the tables that the drop leaves out hold nothing of the indexer, the
migration has nothing to add, and the tables that it drops hold nothing of the others. -/

namespace Rindexer.Database

open Rindexer.Manifest

/-- The rows of a table that an indexer goes by. -/
structure Reading where
  table : TableName
  rows : StoredRow → Bool

/-- A table as far as an indexer goes by it. -/
def Reading.view (r : Reading) (db : Catalog) : Option StoredTable :=
  (db.tables r.table).map fun stored => { stored with rows := stored.rows.filter r.rows }

def storedRows (stored : Option StoredTable) : List StoredRow := stored.elim [] StoredTable.rows

/-- The rows that an indexer goes by. -/
def Reading.rowsOf (r : Reading) (stored : Option StoredTable) : List StoredRow :=
  (storedRows stored).filter r.rows

section Readings

variable (classes : UnicodeClasses) (keccak : Keccak) (m : Indexer)

def wholeTable (table : Option TableName) : Option Reading :=
  table.map fun table => ⟨table, fun _ => true⟩

def ownNetworks : List (List Char) :=
  m.contracts.flatMap (fun contract => contract.details.map ContractDetails.network) ++
    if m.nativeTransfers.enabled then m.nativeTransfers.networks.getD [] else []

/-- Where the rows of the custom tables are: those of contracts, then those of native transfers. -/
def customTables : List (Option TableName) :=
  (m.contracts.flatMap fun contract => (contract.tables.getD []).map
    (tableFullName classes m contract.beforeModifyNameIfFilterReadonly)) ++
  if m.nativeTransfers.enabled then
    m.nativeTransfers.tables.map (tableFullName classes m nativeTransferContractName)
  else []

/-- The name under which the journal has a table. -/
def fullText (table : TableName) : String := String.ofList (table.schema ++ '.' :: table.table)

def networkRows (row : StoredRow) : Bool :=
  (ownNetworks m).any fun network => row.lookup "network" == some (String.ofList network)

def journalRows (row : StoredRow) : Bool :=
  (customTables classes m).any fun table =>
    table.any fun table => row.lookup "derived_table" == some (fullText table)

/-- The tables of a contract's own: of its stored events, its custom tables that live with it, its
cursors, factories and cron entries. -/
def contractReadings (contract : Contract) : List (Option Reading) :=
  let schema := contractSchema classes m contract
  (rawEventsOf contract).map (fun event => wholeTable (eventTable classes schema event.name)) ++
    ((contract.tables.getD []).filter fun table => table.database.isNone).map (fun table =>
      wholeTable (tableFullName classes m contract.beforeModifyNameIfFilterReadonly table)) ++
    ((eventsOf contract).getD []).map (fun event =>
      wholeTable (internalEventTable classes keccak schema event.name)) ++
    (factoriesOf contract).map (fun factory => wholeTable (factoryTable classes keccak m factory)) ++
    (historicalCrons contract).map fun (table, _, cronIndex) =>
      wholeTable (cronTable classes keccak schema table.name cronIndex)

/-- The custom tables of a contract that live in a schema of their choice. -/
def overriddenReadings (contract : Contract) : List (Option Reading) :=
  ((contract.tables.getD []).filter fun table => table.database.isSome).map fun table =>
    wholeTable (tableFullName classes m contract.beforeModifyNameIfFilterReadonly table)

def nativeReadings : List (Option Reading) :=
  if m.nativeTransfers.enabled then
    nativeEvents.map (fun event => wholeTable (eventTable classes (nativeSchema classes m) event.name)) ++
      nativeEvents.map (fun event =>
        wholeTable (internalEventTable classes keccak (nativeSchema classes m) event.name)) ++
      m.nativeTransfers.tables.map (fun table =>
        wholeTable (tableFullName classes m nativeTransferContractName table))
  else []

/-- What the drop forgets: block hashes, the journal, native transfers and the custom tables that live
in a schema of their choice. -/
def forgotten : List (Option Reading) :=
  [some ⟨reorgBlockHashes, networkRows m⟩, some ⟨derivedOpLog, journalRows classes m⟩] ++
    nativeReadings classes keccak m ++ m.contracts.flatMap (overriddenReadings classes m)

/-- Every table that the indexer reads or rolls back. -/
def readings : List (Option Reading) :=
  m.contracts.flatMap (contractReadings classes keccak m) ++
    [wholeTable (lastKnownIndexes classes m), wholeTable (lastKnownRelationships classes m),
      wholeTable (lastRunMigrations classes m)] ++ forgotten classes keccak m

/-- What is of an indexer in a database: what it reads and the latest blocks of its networks. -/
def ownRows : List (Option Reading) :=
  readings classes keccak m ++ [some ⟨latestBlock, networkRows m⟩]

/-! ### What an earlier run leaves -/

variable (disableEventTables : Bool)

/-- A table as the setup creates it where there is none. -/
def createdTable (table : TableName) : Option StoredTable :=
  (generateTablesForIndexerSql classes keccak m disableEventTables).onTable table none

/-- A database that the indexer has not been set up on: what its setup creates and does not drop is
missing, or there by the same statements. -/
structure Untouched (db : Catalog) : Prop where
  kept : ∀ table stored, dropped classes keccak m table = false →
    createdTable classes keccak m disableEventTables table = some stored →
      db.tables table = none ∨ ∃ rows, db.tables table = some ⟨stored.ddl, rows⟩
  migrations : ∀ table, lastRunMigrations classes m = some table →
    dropped classes keccak m table = false → db.tables table = none

/-- A run, of this indexer and of others: rows come and go.  No run changes the definition of a table
that the drop leaves out, nor the record of migrations. -/
structure Runs (db db' : Catalog) : Prop where
  kept : ∀ table stored, dropped classes keccak m table = false →
    createdTable classes keccak m disableEventTables table = some stored →
      (db'.tables table).map StoredTable.ddl = (db.tables table).map StoredTable.ddl
  migrations : ∀ table, lastRunMigrations classes m = some table →
    dropped classes keccak m table = false → db'.tables table = db.tables table

/-- The databases that earlier runs of the manifest can leave. -/
inductive Left : Catalog → Prop
  | first {db db' : Catalog} (hUntouched : Untouched classes keccak m disableEventTables db)
      (hSetup : setupPostgres classes keccak m disableEventTables db = some db') : Left db'
  | run {db db' : Catalog} (hLeft : Left db)
      (hRuns : Runs classes keccak m disableEventTables db db') : Left db'
  | again {db db' : Catalog} (hLeft : Left db)
      (hSetup : setupPostgres classes keccak m disableEventTables db = some db') : Left db'

/-! ### The promise and when it is kept -/

/-- The setup gives the indexer what it gives on an empty database, and the others keep their rows. -/
def EqualsFresh (others : List Indexer) (db : Catalog) : Prop :=
  ∃ db' fresh, setupPostgres classes keccak m disableEventTables db = some db' ∧
    setupPostgres classes keccak m disableEventTables Catalog.empty = some fresh ∧
    (∀ r, some r ∈ readings classes keccak m → r.view db' = r.view fresh) ∧
    ∀ o ∈ others, ∀ r, some r ∈ ownRows classes keccak o → ∀ row,
      row ∈ r.rowsOf (db'.tables r.table) ↔ row ∈ r.rowsOf (db.tables r.table)

/-- The tables that the drop forgets hold nothing of the indexer, unless a schema or a table of another
kind has their name. -/
def NothingForgotten (db : Catalog) : Prop :=
  ∀ r, some r ∈ forgotten classes keccak m → dropped classes keccak m r.table = false →
    some r.table ≠ lastRunMigrations classes m →
      if (createdTable classes keccak m disableEventTables r.table).isSome then
        r.rowsOf (db.tables r.table) = []
      else db.tables r.table = none

/-- The tables of stored events have the column of the migration from the start: none is created as
something else.  Without tables of events, or with a record that is dropped, there is no such need. -/
def Migrated : Prop :=
  disableEventTables = false → (∀ table, lastRunMigrations classes m = some table →
    dropped classes keccak m table = false) →
      ∀ contract ∈ m.contracts, ∀ event ∈ rawEventsOf contract, ∀ table,
        eventTable classes (contractSchema classes m contract) event.name = some table →
          ∀ stored, createdTable classes keccak m disableEventTables table = some stored →
            blockTimestampColumn.name ∈ stored.ddl.columnNames

/-- The rows that the setup puts into a table that it creates. -/
def seeds (table : TableName) : List StoredRow :=
  storedRows (createdTable classes keccak m disableEventTables table) ++
    if disableEventTables = false ∧ lastRunMigrations classes m = some table then [migrationRow]
    else []

/-- A table that the drop names holds no row of another indexer but those that the setup puts back. -/
def NothingShared (others : List Indexer) (db : Catalog) : Prop :=
  ∀ o ∈ others, ∀ r, some r ∈ ownRows classes keccak o → dropped classes keccak m r.table = true →
    ∀ row, row ∈ (seeds classes keccak m disableEventTables r.table).filter r.rows ↔
      row ∈ r.rowsOf (db.tables r.table)

end Readings

/-! ### What the setup makes of a table -/

section Setup

variable {classes : UnicodeClasses} {keccak : Keccak} {m : Indexer} {disableEventTables : Bool}

/-- Every name of the setup can be built. -/
structure Named (classes : UnicodeClasses) (keccak : Keccak) (m : Indexer)
    (disableEventTables : Bool) : Prop where
  drop : none ∉ dropTablesForIndexerSql classes keccak m
  create : none ∉ generateTablesForIndexerSql classes keccak m disableEventTables
  migrations : disableEventTables = false → none ∉ migrationStatements classes m

/-- A table after the drop and the creation. -/
def builtTable (classes : UnicodeClasses) (keccak : Keccak) (m : Indexer)
    (disableEventTables : Bool) (db : Catalog) (table : TableName) : Option StoredTable :=
  (generateTablesForIndexerSql classes keccak m disableEventTables).onTable table
    (if dropped classes keccak m table then none else db.tables table)

/-- A table after the migration of a database that has no record of it. -/
def migratedTable (classes : UnicodeClasses) (m : Indexer) (migrations table : TableName)
    (stored : Option StoredTable) : Option StoredTable :=
  (Statement.insertIfAbsent migrations "version" migrationRow).onTable table
    ((migrationStatements classes m).onTable table stored)

theorem builtTable_of_dropped {db : Catalog} {table : TableName}
    (h : dropped classes keccak m table = true) :
    builtTable classes keccak m disableEventTables db table =
      createdTable classes keccak m disableEventTables table := by
  rw [builtTable, if_pos h, createdTable]

theorem builtTable_empty (table : TableName) :
    builtTable classes keccak m disableEventTables Catalog.empty table =
      createdTable classes keccak m disableEventTables table := by
  rw [builtTable, createdTable]
  congr 1
  exact ite_self none

theorem version_created {table : TableName} {row : StoredRow} (hRow : row ∈ storedRows
    (createdTable classes keccak m disableEventTables table)) : row.lookup "version" = none := by
  rcases Batch.mem_rows_onTable hRow with hBefore | ⟨key, hMem⟩
  · exact absurd hBefore List.not_mem_nil
  · cases creating_of_mem_generate hMem with
    | insertIfAbsent t key row hNone hDropped => exact hNone

theorem not_applied_created {table : TableName} {stored : StoredTable}
    (h : createdTable classes keccak m disableEventTables table = some stored) :
    applied stored = false := by
  refine List.any_eq_false.mpr fun row hRow => ?_
  have hMem : row ∈ storedRows (createdTable classes keccak m disableEventTables table) := by
    rw [h]
    exact hRow
  simp [version_created hMem]

theorem migrations_mem (hNamed : Named classes keccak m disableEventTables) :
    ∃ table, lastRunMigrations classes m = some table ∧
      some (.createTable table migrationsDdl) ∈
        generateTablesForIndexerSql classes keccak m disableEventTables := by
  have hMem : (lastRunMigrations classes m).map (fun table => Statement.createTable table migrationsDdl) ∈
      generateTablesForIndexerSql classes keccak m disableEventTables :=
    List.mem_append_right _ (by simp)
  cases hTable : lastRunMigrations classes m with
  | none =>
    rw [hTable] at hMem
    exact absurd hMem hNamed.create
  | some table =>
    rw [hTable] at hMem
    exact ⟨table, rfl, hMem⟩

theorem mem_migrationStatements {s : Statement} (h : some s ∈ migrationStatements classes m) :
    ∃ contract ∈ m.contracts, ∃ event ∈ rawEventsOf contract, ∃ table,
      eventTable classes (contractSchema classes m contract) event.name = some table ∧
        s = .addColumn table blockTimestampColumn := by
  obtain ⟨contract, hContract, h⟩ := List.mem_flatMap.mp h
  split at h
  · simp at h
  · obtain ⟨event, hEvent, h⟩ := List.mem_map.mp h
    obtain ⟨table, hTable, rfl⟩ := Option.map_eq_some_iff.mp h
    exact ⟨contract, hContract, event, hEvent, table, hTable, rfl⟩

theorem mem_migrationStatements_of_raw {contract : Contract} (hContract : contract ∈ m.contracts)
    {event : EventInfo} (hEvent : event ∈ rawEventsOf contract) {table : TableName}
    (hTable : eventTable classes (contractSchema classes m contract) event.name = some table) :
    some (.addColumn table blockTimestampColumn) ∈ migrationStatements classes m := by
  refine List.mem_flatMap.mpr ⟨contract, hContract, ?_⟩
  split
  next hEvents => simp [rawEventsOf, hEvents] at hEvent
  next => exact List.mem_map.mpr ⟨event, hEvent, by rw [hTable]; rfl⟩

theorem migrationStatements_alike :
    (migrationStatements classes m).Alike blockTimestampColumn [] := by
  intro s hs
  obtain ⟨contract, -, event, -, table, -, rfl⟩ := mem_migrationStatements hs
  rfl

theorem migrationStatements_insertsNone (table : TableName) :
    (migrationStatements classes m).InsertsNone table := by
  intro s hs
  obtain ⟨contract, -, event, -, table, -, rfl⟩ := mem_migrationStatements hs
  rfl

/-- The migration adds columns to tables that the drop has dropped. -/
theorem migrationStatements_onTable {table : TableName} (hKept : dropped classes keccak m table = false)
    (stored : Option StoredTable) :
    (migrationStatements classes m).onTable table stored = stored := by
  have hOther : ∀ s, some s ∈ migrationStatements classes m → ∀ stored,
      s.onTable table stored = stored := by
    intro s hs stored
    obtain ⟨contract, hContract, event, -, t, hTable, rfl⟩ := mem_migrationStatements hs
    refine if_neg ?_
    rintro rfl
    have hDropped := dropped_eventTable classes keccak m hContract hTable
    rw [hKept] at hDropped
    exact Bool.false_ne_true hDropped
  generalize migrationStatements classes m = batch at hOther
  induction batch generalizing stored with
  | nil => rfl
  | cons s batch ih =>
    have hRest := fun stored => ih stored fun s hs => hOther s (List.mem_cons_of_mem _ hs)
    cases s with
    | none => exact hRest stored
    | some statement =>
      rw [Batch.onTable, hOther statement List.mem_cons_self, hRest]

theorem eventTable_created (hNamed : Named classes keccak m disableEventTables)
    (hEnabled : disableEventTables = false) {contract : Contract} (hContract : contract ∈ m.contracts)
    {event : EventInfo} (hEvent : event ∈ rawEventsOf contract) {table : TableName}
    (hTable : eventTable classes (contractSchema classes m contract) event.name = some table)
    (stored : Option StoredTable) :
    ((generateTablesForIndexerSql classes keccak m disableEventTables).onTable table
      stored).isSome = true := by
  obtain ⟨events, hEvents⟩ : ∃ events, eventsOf contract = some events := by
    cases h : eventsOf contract with
    | none => simp [rawEventsOf, h] at hEvent
    | some events => exact ⟨events, rfl⟩
  have hMem : eventTableStatement classes (contractSchema classes m contract) event ∈
      generateTablesForIndexerSql classes keccak m disableEventTables := by
    refine List.mem_append_left _ (List.mem_append_left _ (List.mem_append_right _
      (List.mem_flatMap.mpr ⟨contract, hContract, ?_⟩)))
    rw [createContract, hEvents]
    refine List.mem_append_left _ (List.mem_append_left _ (List.mem_append_left _ ?_))
    rw [storedTableStatements, if_neg (by rw [hEnabled]; exact Bool.false_ne_true)]
    exact List.mem_append_left _ (List.mem_cons_of_mem _ (List.mem_map_of_mem hEvent))
  cases hDdl : eventTableDdl classes event.inputs with
  | none =>
    rw [eventTableStatement, hTable, Option.bind_some, hDdl, Option.map_none] at hMem
    exact absurd hMem hNamed.create
  | some ddl =>
    rw [eventTableStatement, hTable, Option.bind_some, hDdl, Option.map_some] at hMem
    exact Batch.isSome_of_createTable (generate_alike disableEventTables) hMem stored

/-- The setup takes place if every name can be built, and what it does to a table. -/
theorem setup_spec (hNamed : Named classes keccak m disableEventTables) (db : Catalog) :
    ∃ db' migrations stored, setupPostgres classes keccak m disableEventTables db = some db' ∧
      lastRunMigrations classes m = some migrations ∧
      builtTable classes keccak m disableEventTables db migrations = some stored ∧
      ∀ table, db'.tables table =
        if disableEventTables = true ∨ applied stored = true then
          builtTable classes keccak m disableEventTables db table
        else migratedTable classes m migrations table
          (builtTable classes keccak m disableEventTables db table) := by
  have hDrops := fun s hs => isDrop_of_mem_drop classes keccak m (s := s) hs
  obtain ⟨db1, hDrop⟩ := Batch.run_of_isDrop hNamed.drop hDrops db
  obtain ⟨db2, hCreate, -, -⟩ := generate_supported disableEventTables hNamed.create db1
    (List.forall_mem_nil _) (List.forall_mem_nil _)
  have hBuilt : ∀ table, db2.tables table =
      builtTable classes keccak m disableEventTables db table := by
    intro table
    rw [run_tables hCreate, run_tables hDrop, Batch.onTable_of_isDrop hDrops, builtTable, dropped]
  obtain ⟨migrations, hMigrations, hMem⟩ := migrations_mem hNamed
  obtain ⟨stored, hStored⟩ : ∃ stored, db2.tables migrations = some stored := by
    rw [run_tables hCreate]
    exact Option.isSome_iff_exists.mp
      (Batch.isSome_of_createTable (generate_alike disableEventTables) hMem _)
  have hSetup : setupPostgres classes keccak m disableEventTables db =
      executeMigrationsForIndexerSql classes m disableEventTables db2 := by
    rw [setupPostgres, hDrop, Option.bind_some, hCreate, Option.bind_some]
  cases hDisable : disableEventTables with
  | true =>
    subst hDisable
    refine ⟨db2, migrations, stored, ?_, hMigrations, by rw [← hBuilt, hStored], fun table => ?_⟩
    · rw [hSetup, executeMigrationsForIndexerSql, if_pos rfl]
    · rw [if_pos (Or.inl rfl), hBuilt]
  | false =>
    subst hDisable
    have hMigrate : executeMigrationsForIndexerSql classes m false db2 =
        if applied stored then some db2
        else (run (migrationStatements classes m) db2).bind
          (run [some (.insertIfAbsent migrations "version" migrationRow)]) := by
      rw [executeMigrationsForIndexerSql, if_neg Bool.false_ne_true, hMigrations, Option.bind_some,
        hStored, Option.bind_some]
    by_cases hApplied : applied stored = true
    · refine ⟨db2, migrations, stored, ?_, hMigrations, by rw [← hBuilt, hStored], fun table => ?_⟩
      · rw [hSetup, hMigrate, if_pos hApplied]
      · rw [if_pos (Or.inr hApplied), hBuilt]
    · obtain ⟨db3, hRun⟩ := @Batch.run_addColumns _ db2 (hNamed.migrations rfl) fun s hs => by
        obtain ⟨contract, hContract, event, hEvent, table, hTable, rfl⟩ := mem_migrationStatements hs
        refine ⟨table, _, rfl, ?_⟩
        rw [run_tables hCreate]
        exact eventTable_created hNamed rfl hContract hEvent hTable _
      obtain ⟨stored3, hStored3⟩ : ∃ stored3, db3.tables migrations = some stored3 := by
        obtain ⟨stored3, h3, -⟩ :=
          Batch.onTable_alike migrations stored (@migrationStatements_alike classes m)
        exact ⟨stored3, by rw [run_tables hRun, hStored, h3]⟩
      refine ⟨db3.set migrations (some (stored3.insertIfAbsent "version" migrationRow)), migrations,
        stored, ?_, hMigrations, by rw [← hBuilt, hStored], fun table => ?_⟩
      · rw [hSetup, hMigrate, if_neg hApplied, hRun, Option.bind_some, run_cons, Option.bind_some,
          Statement.exec, hStored3, Option.map_some, Option.bind_some, run_nil]
      · rw [if_neg (by simp [hApplied]), migratedTable, ← hBuilt, ← run_tables hRun,
          Catalog.set_tables, Statement.onTable]
        split
        case isTrue hEq => rw [← hEq, hStored3, Option.map_some]
        case isFalse => rfl

theorem named_of_setup {db db' : Catalog}
    (hSetup : setupPostgres classes keccak m disableEventTables db = some db')
    (hMigrations : ∀ table stored, lastRunMigrations classes m = some table →
      builtTable classes keccak m disableEventTables db table = some stored → applied stored = false) :
    Named classes keccak m disableEventTables := by
  obtain ⟨db1, hDrop, hSetup⟩ := Option.bind_eq_some_iff.mp hSetup
  obtain ⟨db2, hCreate, hMigrate⟩ := Option.bind_eq_some_iff.mp hSetup
  refine ⟨none_notMem_of_run hDrop, none_notMem_of_run hCreate, fun hEnabled => ?_⟩
  rw [executeMigrationsForIndexerSql, if_neg (by rw [hEnabled]; exact Bool.false_ne_true)] at hMigrate
  obtain ⟨table, hTable, hMigrate⟩ := Option.bind_eq_some_iff.mp hMigrate
  obtain ⟨stored, hStored, hMigrate⟩ := Option.bind_eq_some_iff.mp hMigrate
  have hNot : applied stored = false := by
    refine hMigrations table stored hTable ?_
    rw [← hStored, run_tables hCreate, run_tables hDrop, Batch.onTable_of_isDrop
      (fun s hs => isDrop_of_mem_drop classes keccak m hs), builtTable, dropped]
  rw [if_neg (by rw [hNot]; exact Bool.false_ne_true)] at hMigrate
  obtain ⟨db3, hRun, -⟩ := Option.bind_eq_some_iff.mp hMigrate
  exact none_notMem_of_run hRun

/-! ### Tables that the drop leaves out -/

/-- What an earlier run leaves of the tables that the setup creates and does not drop. -/
structure Kept (classes : UnicodeClasses) (keccak : Keccak) (m : Indexer)
    (disableEventTables : Bool) (db : Catalog) : Prop where
  named : Named classes keccak m disableEventTables
  kept : ∀ table stored, dropped classes keccak m table = false →
    createdTable classes keccak m disableEventTables table = some stored →
      ∃ rows, db.tables table = some ⟨stored.ddl, rows⟩
  migrations : ∀ table stored, lastRunMigrations classes m = some table →
    dropped classes keccak m table = false → db.tables table = some stored →
      stored.rows = if disableEventTables then [] else [migrationRow]

theorem empty_run (hNamed : Named classes keccak m disableEventTables) :
    ∃ db', run (generateTablesForIndexerSql classes keccak m disableEventTables) Catalog.empty =
      some db' ∧ ∀ table, db'.tables table =
        createdTable classes keccak m disableEventTables table := by
  obtain ⟨db', hRun, -⟩ := generate_supported disableEventTables hNamed.create Catalog.empty
    (List.forall_mem_nil _) (List.forall_mem_nil _)
  exact ⟨db', hRun, run_tables hRun⟩

theorem createdTable_rows {table : TableName} {stored : StoredTable}
    (hKept : dropped classes keccak m table = false)
    (h : createdTable classes keccak m disableEventTables table = some stored) : stored.rows = [] :=
  Batch.rows_of_created (generate_alike disableEventTables)
    (generate_insertsNone disableEventTables hKept) h

/-- The creation leaves a table alone that is there by the same statements, and one that is not its
own. -/
theorem builtTable_of_kept (hNamed : Named classes keccak m disableEventTables) {db : Catalog}
    {table : TableName} (hKept : dropped classes keccak m table = false)
    (hSame : ∀ stored, createdTable classes keccak m disableEventTables table = some stored →
      ∃ rows, db.tables table = some ⟨stored.ddl, rows⟩) :
    builtTable classes keccak m disableEventTables db table = db.tables table := by
  obtain ⟨fresh, hRun, hFresh⟩ := empty_run hNamed
  rw [builtTable, if_neg (by rw [hKept]; exact Bool.false_ne_true)]
  cases hCreated : createdTable classes keccak m disableEventTables table with
  | none =>
    exact Batch.onTable_of_missing hRun (generate_alike disableEventTables)
      (by rw [hFresh, hCreated]) _
  | some stored =>
    obtain ⟨rows, hRows⟩ := hSame stored hCreated
    rw [hRows]
    exact Batch.onTable_of_settled (Batch.settled_of_run hRun (generate_alike disableEventTables)
      (generate_insertsNone disableEventTables hKept) (by rw [hFresh, hCreated]))

theorem migratedTable_of_kept {migrations table : TableName}
    (hKept : dropped classes keccak m table = false) (hOther : migrations ≠ table)
    (stored : Option StoredTable) :
    migratedTable classes m migrations table stored = stored := by
  rw [migratedTable, migrationStatements_onTable hKept, Statement.onTable, if_neg hOther]

theorem builtTable_of_missing {db : Catalog} {table : TableName} (h : db.tables table = none) :
    builtTable classes keccak m disableEventTables db table =
      createdTable classes keccak m disableEventTables table := by
  rw [builtTable, h, ite_self, createdTable]

/-- A first setup finds no record of the migration. -/
theorem Untouched.not_applied {db : Catalog}
    (hUntouched : Untouched classes keccak m disableEventTables db) {table : TableName}
    {stored : StoredTable} (hTable : lastRunMigrations classes m = some table)
    (hStored : builtTable classes keccak m disableEventTables db table = some stored) :
    createdTable classes keccak m disableEventTables table = some stored := by
  cases hDropped : dropped classes keccak m table with
  | true => rw [← builtTable_of_dropped hDropped, hStored]
  | false => rw [← builtTable_of_missing (hUntouched.migrations table hTable hDropped), hStored]

theorem Untouched.built {db : Catalog}
    (hUntouched : Untouched classes keccak m disableEventTables db)
    (hNamed : Named classes keccak m disableEventTables) {table : TableName} {stored : StoredTable}
    (hKept : dropped classes keccak m table = false)
    (hCreated : createdTable classes keccak m disableEventTables table = some stored) :
    ∃ rows, builtTable classes keccak m disableEventTables db table = some ⟨stored.ddl, rows⟩ := by
  rcases hUntouched.kept table stored hKept hCreated with hMissing | ⟨rows, hRows⟩
  · exact ⟨stored.rows, by rw [builtTable_of_missing hMissing, hCreated]⟩
  · refine ⟨rows, ?_⟩
    rw [builtTable_of_kept hNamed hKept, hRows]
    intro stored' hStored'
    obtain rfl := Option.some.inj (hCreated.symm.trans hStored')
    exact ⟨rows, hRows⟩

theorem kept_of_first {db db' : Catalog}
    (hSetup : setupPostgres classes keccak m disableEventTables db = some db')
    (hUntouched : Untouched classes keccak m disableEventTables db) :
    Kept classes keccak m disableEventTables db' := by
  have hNamed : Named classes keccak m disableEventTables :=
    named_of_setup hSetup fun table stored hTable hStored =>
      not_applied_created (hUntouched.not_applied hTable hStored)
  obtain ⟨db'', migrations, recorded, hRun, hMigrations, hRecorded, hTables⟩ := setup_spec hNamed db
  obtain rfl := Option.some.inj (hSetup.symm.trans hRun)
  have hCreated := hUntouched.not_applied hMigrations hRecorded
  have hNot := not_applied_created hCreated
  refine ⟨hNamed, fun table stored hKept hStored => ?_, fun table stored hTable hKept hStored => ?_⟩
  · obtain ⟨rows, hRows⟩ := hUntouched.built hNamed hKept hStored
    rw [hTables, hRows]
    split
    · exact ⟨rows, rfl⟩
    · rw [migratedTable, migrationStatements_onTable hKept, Statement.onTable]
      split
      · exact ⟨_, congrArg some (StoredTable.insertIfAbsent_eq ..)⟩
      · exact ⟨rows, rfl⟩
  · obtain rfl := Option.some.inj (hMigrations.symm.trans hTable)
    have hRows := createdTable_rows hKept hCreated
    rw [hTables, hRecorded, hNot] at hStored
    cases disableEventTables with
    | true =>
      obtain rfl := Option.some.inj hStored
      exact hRows
    | false =>
      rw [if_neg (by simp), migratedTable, migrationStatements_onTable hKept, Statement.onTable,
        if_pos rfl, Option.map_some] at hStored
      obtain rfl := Option.some.inj hStored
      simp [StoredTable.insertIfAbsent, hRows]

theorem applied_migrationRow {stored : StoredTable} (h : stored.rows = [migrationRow]) :
    applied stored = true := by
  rw [applied, h]
  decide

/-- A setup leaves every table alone that it does not drop. -/
theorem Kept.unchanged {db db' : Catalog} (hKept : Kept classes keccak m disableEventTables db)
    (hSetup : setupPostgres classes keccak m disableEventTables db = some db') {table : TableName}
    (hTable : dropped classes keccak m table = false) : db'.tables table = db.tables table := by
  obtain ⟨db'', migrations, recorded, hRun, hMigrations, hRecorded, hTables⟩ :=
    setup_spec hKept.named db
  obtain rfl := Option.some.inj (hSetup.symm.trans hRun)
  have hBuilt := fun t (ht : dropped classes keccak m t = false) =>
    builtTable_of_kept hKept.named ht fun stored hStored => hKept.kept t stored ht hStored
  rw [hTables]
  split
  · exact hBuilt table hTable
  next hNot =>
    rw [not_or] at hNot
    have hOther : migrations ≠ table := by
      rintro rfl
      rw [hBuilt migrations hTable] at hRecorded
      have hRows := hKept.migrations migrations recorded hMigrations hTable hRecorded
      rw [if_neg hNot.1] at hRows
      exact hNot.2 (applied_migrationRow hRows)
    rw [migratedTable_of_kept hTable hOther, hBuilt table hTable]

theorem Left.kept {db : Catalog} (h : Left classes keccak m disableEventTables db) :
    Kept classes keccak m disableEventTables db := by
  induction h with
  | first hUntouched hSetup => exact kept_of_first hSetup hUntouched
  | @run db db' hLeft hRuns ih =>
    refine ⟨ih.named, fun table stored hTable hStored => ?_, fun table stored hTable hKept hStored => ?_⟩
    · obtain ⟨rows, hRows⟩ := ih.kept table stored hTable hStored
      have hDdl := hRuns.kept table stored hTable hStored
      rw [hRows, Option.map_some] at hDdl
      obtain ⟨stored', hStored', hEq⟩ := Option.map_eq_some_iff.mp hDdl
      exact ⟨stored'.rows, by rw [hStored', ← show stored'.ddl = stored.ddl from hEq]⟩
    · rw [hRuns.migrations table hTable hKept] at hStored
      exact ih.migrations table stored hTable hKept hStored
  | again hLeft hSetup ih =>
    refine ⟨ih.named, fun table stored hTable hStored => ?_, fun table stored hTable hKept hStored => ?_⟩
    · rw [ih.unchanged hSetup hTable]
      exact ih.kept table stored hTable hStored
    · rw [ih.unchanged hSetup hKept] at hStored
      exact ih.migrations table stored hTable hKept hStored

/-- A setup leaves of a table that it drops what an empty database would get, but for the migration if
there is a record of it. -/
theorem Kept.rebuilt {db db' : Catalog} (hKept : Kept classes keccak m disableEventTables db)
    (hSetup : setupPostgres classes keccak m disableEventTables db = some db') {table : TableName}
    (hTable : dropped classes keccak m table = true) :
    ∃ migrations, lastRunMigrations classes m = some migrations ∧ db'.tables table =
      if disableEventTables = true ∨ dropped classes keccak m migrations = false then
        createdTable classes keccak m disableEventTables table
      else migratedTable classes m migrations table
        (createdTable classes keccak m disableEventTables table) := by
  obtain ⟨db'', migrations, recorded, hRun, hMigrations, hRecorded, hTables⟩ :=
    setup_spec hKept.named db
  obtain rfl := Option.some.inj (hSetup.symm.trans hRun)
  refine ⟨migrations, hMigrations, ?_⟩
  rw [hTables, builtTable_of_dropped hTable]
  cases hDisable : disableEventTables with
  | true => rw [if_pos (Or.inl rfl), if_pos (Or.inl rfl)]
  | false =>
    have hIff : applied recorded = true ↔ dropped classes keccak m migrations = false := by
      cases hDropped : dropped classes keccak m migrations with
      | true =>
        rw [builtTable_of_dropped hDropped] at hRecorded
        rw [not_applied_created hRecorded]
        exact ⟨fun h => absurd h Bool.false_ne_true, fun h => absurd h.symm Bool.false_ne_true⟩
      | false =>
        rw [builtTable_of_kept hKept.named hDropped fun stored hStored =>
          hKept.kept migrations stored hDropped hStored] at hRecorded
        have hRows := hKept.migrations migrations recorded hMigrations hDropped hRecorded
        rw [hDisable, if_neg Bool.false_ne_true] at hRows
        exact ⟨fun _ => rfl, fun _ => applied_migrationRow hRows⟩
    simp only [hIff]

/-- What the setup gives on an empty database. -/
theorem fresh_tables (hNamed : Named classes keccak m disableEventTables) :
    ∃ fresh migrations, setupPostgres classes keccak m disableEventTables Catalog.empty = some fresh ∧
      lastRunMigrations classes m = some migrations ∧ ∀ table, fresh.tables table =
        if disableEventTables = true then createdTable classes keccak m disableEventTables table
        else migratedTable classes m migrations table
          (createdTable classes keccak m disableEventTables table) := by
  obtain ⟨fresh, migrations, recorded, hRun, hMigrations, hRecorded, hTables⟩ :=
    setup_spec hNamed Catalog.empty
  rw [builtTable_empty] at hRecorded
  refine ⟨fresh, migrations, hRun, hMigrations, fun table => ?_⟩
  rw [hTables, builtTable_empty, not_applied_created hRecorded]
  simp only [Bool.false_eq_true, or_false]

end Setup

/-! ### The promise -/

section Promise

variable {classes : UnicodeClasses} {keccak : Keccak} {m : Indexer} {disableEventTables : Bool}

theorem mem_wholeTable {r : Reading} {table : Option TableName} (h : some r = wholeTable table) :
    table = some r.table ∧ r.rows = fun _ => true := by
  obtain ⟨t, rfl, rfl⟩ := Option.map_eq_some_iff.mp h.symm
  exact ⟨rfl, rfl⟩

/-- Everything of a contract's own is dropped. -/
theorem dropped_of_contractReadings {contract : Contract} (hContract : contract ∈ m.contracts)
    {r : Reading} (h : some r ∈ contractReadings classes keccak m contract) :
    dropped classes keccak m r.table = true := by
  simp only [contractReadings, List.mem_append, List.mem_map, List.mem_filter] at h
  rcases h with (((⟨event, -, h⟩ | ⟨table, ⟨-, hDatabase⟩, h⟩) | ⟨event, hEvent, h⟩) |
    ⟨factory, hFactory, h⟩) | ⟨entry, hEntry, h⟩
  · exact dropped_eventTable classes keccak m hContract (mem_wholeTable h.symm).1
  · have hTable := (mem_wholeTable h.symm).1
    rw [tableFullName, Option.isNone_iff_eq_none.mp hDatabase] at hTable
    exact dropped_eventTable classes keccak m hContract hTable
  · cases hEvents : extractEventNamesAndSignaturesFromAbi contract.readAbiItems with
    | error e => simp [eventsOf, hEvents, Except.toOption] at hEvent
    | ok events =>
      have hMem : event ∈ events := by simpa [eventsOf, hEvents, Except.toOption] using hEvent
      obtain ⟨item, hItem, -, hNew⟩ := exists_item_of_mem_extract hEvents hMem
      have hTable := (mem_wholeTable h.symm).1
      rw [(EventInfo.eq_of_new hNew).1] at hTable
      exact dropped_internalEventTable classes keccak m hContract hItem hTable
  · exact dropped_factoryTable classes keccak m hContract hFactory (mem_wholeTable h.symm).1
  · exact dropped_cronTable classes keccak m hContract hEntry (mem_wholeTable h.symm).1

/-- What is read and not dropped is what the drop forgets, or the record of migrations. -/
theorem forgotten_of_kept {r : Reading} (h : some r ∈ readings classes keccak m)
    (hKept : dropped classes keccak m r.table = false) :
    some r ∈ forgotten classes keccak m ∨ lastRunMigrations classes m = some r.table := by
  have hNot : dropped classes keccak m r.table ≠ true := by
    rw [hKept]
    exact Bool.false_ne_true
  simp only [readings, List.mem_append, List.mem_cons, List.not_mem_nil, or_false] at h
  rcases h with (h | h | h | h) | h
  · obtain ⟨contract, hContract, h⟩ := List.mem_flatMap.mp h
    exact absurd (dropped_of_contractReadings hContract h) hNot
  · exact absurd (dropped_lastKnownIndexes classes keccak m (mem_wholeTable h).1) hNot
  · exact absurd (dropped_lastKnownRelationships classes keccak m (mem_wholeTable h).1) hNot
  · exact Or.inr (mem_wholeTable h).1
  · exact Or.inl h

theorem view_some {r : Reading} {db : Catalog} {stored : StoredTable}
    (h : db.tables r.table = some stored) :
    r.view db = some ⟨stored.ddl, r.rowsOf (some stored)⟩ := by
  rw [Reading.view, h]
  rfl

theorem view_none {r : Reading} {db : Catalog} (h : db.tables r.table = none) : r.view db = none := by
  rw [Reading.view, h]
  rfl

theorem view_congr {r : Reading} {db1 db2 : Catalog} (h : db1.tables r.table = db2.tables r.table) :
    r.view db1 = r.view db2 := by
  rw [Reading.view, Reading.view, h]

section Outcome

variable {db db' fresh : Catalog} {migrations : TableName}
  (hLeft : Kept classes keccak m disableEventTables db)
  (hMigrations : lastRunMigrations classes m = some migrations)
  (hKeptTables : ∀ table, dropped classes keccak m table = false →
    db'.tables table = db.tables table)
  (hDropped : ∀ table, dropped classes keccak m table = true → db'.tables table =
    if disableEventTables = true ∨ dropped classes keccak m migrations = false then
      createdTable classes keccak m disableEventTables table
    else migratedTable classes m migrations table
      (createdTable classes keccak m disableEventTables table))
  (hFresh : ∀ table, fresh.tables table =
    if disableEventTables = true then createdTable classes keccak m disableEventTables table
    else migratedTable classes m migrations table
      (createdTable classes keccak m disableEventTables table))

include hLeft hMigrations hKeptTables hFresh in
/-- A table that is not dropped is as on an empty database if nothing is left in it. -/
theorem view_kept_iff {r : Reading} (hKept : dropped classes keccak m r.table = false) :
    r.view db' = r.view fresh ↔ (some r.table ≠ lastRunMigrations classes m →
      if (createdTable classes keccak m disableEventTables r.table).isSome then
        r.rowsOf (db.tables r.table) = []
      else db.tables r.table = none) := by
  rw [view_congr (hKeptTables r.table hKept), hMigrations]
  by_cases hRecord : r.table = migrations
  · refine iff_of_true (view_congr ?_) fun h => absurd (congrArg some hRecord) h
    obtain ⟨table, hTable, hMem⟩ := migrations_mem hLeft.named
    obtain rfl := Option.some.inj (hMigrations.symm.trans hTable)
    obtain ⟨stored, hCreated⟩ := Option.isSome_iff_exists.mp
      (Batch.isSome_of_createTable (generate_alike disableEventTables) hMem none)
    rw [hRecord] at hKept ⊢
    obtain ⟨rows, hRows⟩ := hLeft.kept migrations stored hKept hCreated
    have hRowsEq : rows = if disableEventTables then [] else [migrationRow] :=
      hLeft.migrations migrations _ hMigrations hKept hRows
    have hEmpty := createdTable_rows hKept hCreated
    rw [hFresh, hRows, hRowsEq, show createdTable classes keccak m disableEventTables migrations = _
      from hCreated]
    cases disableEventTables with
    | true =>
      rw [if_pos rfl, if_pos rfl, ← hEmpty]
    | false =>
      rw [if_neg Bool.false_ne_true, if_neg Bool.false_ne_true, migratedTable,
        migrationStatements_onTable hKept, Statement.onTable, if_pos rfl, Option.map_some,
        StoredTable.insertIfAbsent_eq]
      simp [StoredTable.insertIfAbsent, hEmpty]
  · have hOther : migrations ≠ r.table := fun h => hRecord h.symm
    have hFreshTable : fresh.tables r.table =
        createdTable classes keccak m disableEventTables r.table := by
      rw [hFresh]
      split
      · rfl
      · exact migratedTable_of_kept hKept hOther _
    have hNe : some r.table ≠ some migrations := fun h => hRecord (Option.some.inj h)
    rw [imp_iff_right hNe]
    cases hCreated : createdTable classes keccak m disableEventTables r.table with
    | none =>
      rw [view_none (hFreshTable.trans hCreated)]
      cases hStored : db.tables r.table with
      | none => simp [view_none hStored]
      | some stored => simp [view_some hStored]
    | some stored =>
      obtain ⟨rows, hRows⟩ := hLeft.kept r.table stored hKept hCreated
      have hEmpty := createdTable_rows hKept hCreated
      rw [view_some (hFreshTable.trans hCreated), view_some hRows, hRows, Option.isSome_some,
        if_pos rfl]
      simp [Reading.rowsOf, storedRows, hEmpty]

omit classes keccak disableEventTables in
theorem migrationStatements_onTable_none {classes : UnicodeClasses} (table : TableName) :
    (migrationStatements classes m).onTable table none = none := by
  have hAll : ∀ s, some s ∈ migrationStatements classes m → s.onTable table none = none := by
    intro s hs
    obtain ⟨contract, -, event, -, t, -, rfl⟩ := mem_migrationStatements hs
    exact ite_self none
  generalize migrationStatements classes m = batch at hAll
  induction batch with
  | nil => rfl
  | cons s batch ih =>
    have hRest := ih fun s hs => hAll s (List.mem_cons_of_mem _ hs)
    cases s with
    | none => exact hRest
    | some statement => rw [Batch.onTable, hAll statement List.mem_cons_self, hRest]

include hMigrations hDropped hFresh in
/-- The tables that are dropped are as on an empty database if the migration adds nothing to them. -/
theorem view_dropped_iff : (∀ r, some r ∈ readings classes keccak m →
    dropped classes keccak m r.table = true → r.view db' = r.view fresh) ↔
      Migrated classes keccak m disableEventTables := by
  constructor
  · intro hViews hEnabled hRecord contract hContract event hEvent table hTable stored hCreated
    have hKeptRecord := hRecord migrations hMigrations
    have hDroppedTable := dropped_eventTable classes keccak m hContract hTable
    have hMem : some (Reading.mk table fun _ => true) ∈ readings classes keccak m := by
      refine List.mem_append_left _ (List.mem_append_left _
        (List.mem_flatMap.mpr ⟨contract, hContract, ?_⟩))
      refine List.mem_append_left _ (List.mem_append_left _ (List.mem_append_left _
        (List.mem_append_left _ (List.mem_map.mpr ⟨event, hEvent, ?_⟩))))
      rw [hTable]
      rfl
    have hOther : migrations ≠ table := by
      rintro rfl
      rw [hKeptRecord] at hDroppedTable
      exact Bool.false_ne_true hDroppedTable
    have hView := hViews _ hMem hDroppedTable
    obtain ⟨stored', hStored', hColumn⟩ := Batch.mem_columnNames_of_addColumn
      (migrationStatements_alike (m := m)) (mem_migrationStatements_of_raw hContract hEvent hTable)
      stored
    have hAfter : db'.tables table = some stored := by
      rw [hDropped table hDroppedTable, if_pos (Or.inr hKeptRecord), hCreated]
    have hFreshTable : fresh.tables table = some stored' := by
      rw [hFresh, if_neg (by rw [hEnabled]; exact Bool.false_ne_true), hCreated, migratedTable, hStored',
        Statement.onTable, if_neg hOther]
    rw [view_some hAfter, view_some hFreshTable] at hView
    have hDdl : stored.ddl = stored'.ddl :=
      Option.some.inj (congrArg (Option.map StoredTable.ddl) hView)
    rw [hDdl]
    exact hColumn
  · intro hMigrated r hr hDroppedTable
    refine view_congr ?_
    rw [hDropped _ hDroppedTable, hFresh]
    cases disableEventTables with
    | true => rw [if_pos (Or.inl rfl), if_pos rfl]
    | false =>
      rw [if_neg Bool.false_ne_true]
      split
      next hRecord =>
        have hKeptRecord : dropped classes keccak m migrations = false := by simpa using hRecord
        have hOther : migrations ≠ r.table := by
          intro hEq
          rw [← hEq, hKeptRecord] at hDroppedTable
          exact Bool.false_ne_true hDroppedTable
        rw [migratedTable, Statement.onTable, if_neg hOther]
        cases hCreated : createdTable classes keccak m false r.table with
        | none => rw [migrationStatements_onTable_none]
        | some stored =>
          refine (Batch.onTable_of_settled fun s hs => ?_).symm
          obtain ⟨contract, hContract, event, hEvent, table, hTable, rfl⟩ := mem_migrationStatements hs
          rintro rfl
          refine hMigrated rfl (fun t ht => ?_) contract hContract event hEvent _ hTable stored hCreated
          obtain rfl := Option.some.inj (hMigrations.symm.trans ht)
          exact hKeptRecord
      next => rfl

theorem storedRows_migrationStatements (table : TableName) (stored : Option StoredTable) :
    storedRows ((migrationStatements classes m).onTable table stored) = storedRows stored := by
  cases stored with
  | none => rw [migrationStatements_onTable_none]
  | some stored =>
    obtain ⟨stored', h', -, -, hRows⟩ :=
      Batch.onTable_alike table stored (@migrationStatements_alike classes m)
    rw [h']
    exact hRows (migrationStatements_insertsNone table)

include hMigrations hDropped in
/-- A table that is dropped holds its seeds. -/
theorem storedRows_dropped (hNamed : Named classes keccak m disableEventTables) {table : TableName}
    (hDroppedTable : dropped classes keccak m table = true) :
    storedRows (db'.tables table) = seeds classes keccak m disableEventTables table := by
  rw [hDropped table hDroppedTable, seeds, hMigrations]
  cases disableEventTables with
  | true => simp
  | false =>
    by_cases hTable : migrations = table
    · subst hTable
      obtain ⟨table, hTable, hMem⟩ := migrations_mem hNamed
      obtain rfl := Option.some.inj (hMigrations.symm.trans hTable)
      obtain ⟨stored, hCreated⟩ := Option.isSome_iff_exists.mp
        (Batch.isSome_of_createTable (generate_alike false) hMem none)
      have hCreated : createdTable classes keccak m false migrations = some stored := hCreated
      obtain ⟨stored', h', -, -, hRows⟩ :=
        Batch.onTable_alike migrations stored (@migrationStatements_alike classes m)
      have hAbsent : stored'.rows.any (fun r => r.lookup "version" == migrationRow.lookup "version") =
          false := by
        rw [hRows (migrationStatements_insertsNone migrations)]
        refine List.any_eq_false.mpr fun row hRow => ?_
        have hNone : row.lookup "version" = none :=
          version_created (show row ∈ storedRows _ by rw [hCreated]; exact hRow)
        rw [hNone]
        decide
      rw [hDroppedTable, if_neg (by simp), if_pos ⟨rfl, rfl⟩, migratedTable, Statement.onTable,
        if_pos rfl, hCreated, h', Option.map_some, StoredTable.insertIfAbsent,
        if_neg (by rw [hAbsent]; exact Bool.false_ne_true)]
      exact congrArg (· ++ [migrationRow]) (hRows (migrationStatements_insertsNone migrations))
    · rw [if_neg (c := _ ∧ _) (fun h => hTable (Option.some.inj h.2)), List.append_nil]
      split
      · rfl
      · rw [migratedTable, Statement.onTable, if_neg hTable, storedRows_migrationStatements]

end Outcome

end Promise

/-- After an earlier run, a setup that drops equals one on an empty database and spares the others
exactly if nothing is forgotten that holds something, the migration has nothing to add, and nothing of
the others lies in what is dropped. -/
theorem equalsFresh_iff (classes : UnicodeClasses) (keccak : Keccak) (m : Indexer)
    (disableEventTables : Bool) (others : List Indexer) {db : Catalog}
    (hLeft : Left classes keccak m disableEventTables db) :
    EqualsFresh classes keccak m disableEventTables others db ↔
      NothingForgotten classes keccak m disableEventTables db ∧
        Migrated classes keccak m disableEventTables ∧
        NothingShared classes keccak m disableEventTables others db := by
  have hKept := hLeft.kept
  obtain ⟨db', -, -, hSetup, -⟩ := setup_spec hKept.named db
  obtain ⟨fresh, migrations, hSetupFresh, hMigrations, hFresh⟩ := fresh_tables hKept.named
  have hKeptTables : ∀ table, dropped classes keccak m table = false →
      db'.tables table = db.tables table := fun _ hTable => hKept.unchanged hSetup hTable
  have hDropped : ∀ table, dropped classes keccak m table = true → db'.tables table =
      if disableEventTables = true ∨ dropped classes keccak m migrations = false then
        createdTable classes keccak m disableEventTables table
      else migratedTable classes m migrations table
        (createdTable classes keccak m disableEventTables table) := by
    intro table hTable
    obtain ⟨t, ht, hRebuilt⟩ := hKept.rebuilt hSetup hTable
    obtain rfl := Option.some.inj (hMigrations.symm.trans ht)
    exact hRebuilt
  have hViewKept := fun r => view_kept_iff hKept hMigrations hKeptTables hFresh (r := r)
  have hViewDropped := view_dropped_iff hMigrations hDropped hFresh
  have hSeeds : ∀ table, dropped classes keccak m table = true →
      storedRows (db'.tables table) = seeds classes keccak m disableEventTables table :=
    fun _ hTable => storedRows_dropped hMigrations hDropped hKept.named hTable
  constructor
  · rintro ⟨db'', fresh', hRun, hRunFresh, hViews, hRows⟩
    obtain rfl := Option.some.inj (hSetup.symm.trans hRun)
    obtain rfl := Option.some.inj (hSetupFresh.symm.trans hRunFresh)
    refine ⟨fun r hr hTable => (hViewKept r hTable).mp (hViews r (List.mem_append_right _ hr)),
      hViewDropped.mp fun r hr _ => hViews r hr, fun o ho r hr hTable row => ?_⟩
    rw [← hSeeds r.table hTable]
    exact hRows o ho r hr row
  · rintro ⟨hForgotten, hMigrated, hShared⟩
    refine ⟨db', fresh, hSetup, hSetupFresh, fun r hr => ?_, fun o ho r hr row => ?_⟩
    · cases hTable : dropped classes keccak m r.table with
      | true => exact hViewDropped.mpr hMigrated r hr hTable
      | false =>
        refine (hViewKept r hTable).mpr fun hNe => ?_
        rcases forgotten_of_kept hr hTable with hr | hRecord
        · exact hForgotten r hr hTable hNe
        · exact absurd hRecord.symm hNe
    · cases hTable : dropped classes keccak m r.table with
      | true =>
        rw [Reading.rowsOf, hSeeds r.table hTable]
        exact hShared o ho r hr hTable row
      | false => rw [hKeptTables r.table hTable]

/-! ### A journal that is kept -/

/-- The last value that each holder received. -/
def lastReceived : Table where
  name := "last_received"
  global := false
  crossChain := false
  columns := [⟨"holder", .address, false, none⟩, ⟨"amount", .uint256, false, some "0"⟩]
  events := [⟨"Transfer", [],
    [⟨.upsert, [("holder", "$to")], none, none, [⟨"amount", .set, some "$value"⟩]⟩]⟩]
  cronOperations := []
  timestamp := false

def transferItem : ABIItem :=
  ⟨[.mk "from".toList "address".toList (some true) none,
    .mk "to".toList "address".toList (some true) none,
    .mk "value".toList "uint256".toList (some false) none], "Transfer".toList, "event".toList⟩

def tokenIndexer : Indexer where
  name := "Payments".toList
  contracts := [
    { name := "Token".toList, details := [⟨"ethereum".toList, none, none⟩], abi := [transferItem],
      includeEvents := none, tables := some [⟨lastReceived, none, none⟩] }]
  nativeTransfers := ⟨false, none, []⟩

/-- The database after the first setup. -/
def tokenCatalog : Catalog :=
  (setupPostgres asciiClasses zeroKeccak tokenIndexer false Catalog.empty).getD Catalog.empty

/-- The database after a run that has seen a transfer. -/
def tokenCatalogRun : Catalog :=
  tokenCatalog.set derivedOpLog (some ⟨derivedOpLogDdl,
    [[("derived_table", "payments_token.last_received"), ("network", "ethereum"),
      ("where_key", "holder=0x01"), ("column_name", "amount"), ("value", "5"), ("block_number", "100"),
      ("tx_index", "0"), ("log_index", "0")]]⟩)

theorem tokenCatalog_setup : setupPostgres asciiClasses zeroKeccak tokenIndexer false Catalog.empty =
    some tokenCatalog := by
  have hSome : (setupPostgres asciiClasses zeroKeccak tokenIndexer false Catalog.empty).isSome = true := by
    decide
  obtain ⟨db, hDb⟩ := Option.isSome_iff_exists.mp hSome
  rw [tokenCatalog, hDb, Option.getD_some]

theorem tokenCatalog_left : Left asciiClasses zeroKeccak tokenIndexer false tokenCatalog :=
  .first ⟨fun _ _ _ _ => Or.inl rfl, fun _ _ _ => rfl⟩ tokenCatalog_setup

theorem tokenCatalogRun_left : Left asciiClasses zeroKeccak tokenIndexer false tokenCatalogRun := by
  refine .run tokenCatalog_left ⟨fun table stored _ _ => ?_, fun table hTable _ => ?_⟩
  · have hLog : tokenCatalog.tables derivedOpLog = some ⟨derivedOpLogDdl, []⟩ := by decide
    rw [tokenCatalogRun, Catalog.set_tables]
    split
    case isTrue hEq =>
      rw [← hEq, hLog]
      rfl
    case isFalse => rfl
  · have hOther : lastRunMigrations asciiClasses tokenIndexer ≠ some derivedOpLog := by decide
    rw [tokenCatalogRun, Catalog.set_tables, if_neg]
    rintro rfl
    exact hOther hTable

theorem tokenIndexer_forgotten : forgotten asciiClasses zeroKeccak tokenIndexer =
    [some ⟨reorgBlockHashes, networkRows tokenIndexer⟩,
      some ⟨derivedOpLog, journalRows asciiClasses tokenIndexer⟩] := rfl

theorem equalsFresh_iff_quiet :
    EqualsFresh asciiClasses zeroKeccak tokenIndexer false [] tokenCatalog := by
  refine (equalsFresh_iff asciiClasses zeroKeccak tokenIndexer false [] tokenCatalog_left).mpr
    ⟨fun r hr _ _ => ?_, fun _ _ contract hContract event hEvent table hTable stored hStored => ?_,
      List.forall_mem_nil _⟩
  · have hEmpty : ∀ table ∈ [reorgBlockHashes, derivedOpLog],
        (createdTable asciiClasses zeroKeccak tokenIndexer false table).isSome = true ∧
          storedRows (tokenCatalog.tables table) = [] := by
      decide
    have hTable : r.table ∈ [reorgBlockHashes, derivedOpLog] := by
      rw [tokenIndexer_forgotten] at hr
      rcases List.mem_cons.mp hr with hr | hr
      · rw [Option.some.inj hr]
        exact List.mem_cons_self
      · rw [Option.some.inj (List.mem_singleton.mp hr)]
        exact List.mem_cons_of_mem _ List.mem_cons_self
    rw [if_pos (hEmpty r.table hTable).1, Reading.rowsOf, (hEmpty r.table hTable).2, List.filter_nil]
  · have hColumns : ∀ contract ∈ tokenIndexer.contracts, ∀ event ∈ rawEventsOf contract,
        ((eventTable asciiClasses (contractSchema asciiClasses tokenIndexer contract)
          event.name).bind (createdTable asciiClasses zeroKeccak tokenIndexer false)).all
            fun stored => blockTimestampColumn.name ∈ stored.ddl.columnNames := by
      decide
    have hAll := hColumns contract hContract event hEvent
    rw [hTable, Option.bind_some, hStored] at hAll
    simpa using hAll

/-- The journal of the earlier run outlives the drop. -/
theorem journal_kept : Left asciiClasses zeroKeccak tokenIndexer false tokenCatalogRun ∧
    ¬EqualsFresh asciiClasses zeroKeccak tokenIndexer false [] tokenCatalogRun := by
  refine ⟨tokenCatalogRun_left, ?_⟩
  rintro ⟨db', fresh, hSetup, hFresh, hViews, -⟩
  have hJournal := hViews ⟨derivedOpLog, journalRows asciiClasses tokenIndexer⟩
    (List.mem_append_right _ (List.mem_append_left _ (List.mem_append_left _
      (List.mem_cons_of_mem _ List.mem_cons_self))))
  have hKept : dropped asciiClasses zeroKeccak tokenIndexer derivedOpLog = false := by decide
  have hAfter := tokenCatalogRun_left.kept.unchanged hSetup hKept
  obtain rfl := Option.some.inj (tokenCatalog_setup.symm.trans hFresh)
  have hRows : ((tokenCatalogRun.tables derivedOpLog).map fun stored =>
      stored.rows.filter (journalRows asciiClasses tokenIndexer)) ≠
        (tokenCatalog.tables derivedOpLog).map fun stored =>
          stored.rows.filter (journalRows asciiClasses tokenIndexer) := by
    decide
  refine hRows ?_
  have hMap := congrArg (Option.map StoredTable.rows) hJournal
  rw [Reading.view, Reading.view, hAfter, Option.map_map, Option.map_map] at hMap
  exact hMap

end Rindexer.Database
