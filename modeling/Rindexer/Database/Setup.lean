import Rindexer.Database.EventTables

/-! The setup of Postgres for an indexer: the statements that drop its tables, those that create them,
and the migrations.  Both batches go through the manifest by themselves.  A name that cannot be built is
`none`, which the batch does not survive. -/

namespace Rindexer.Database

open Rindexer.Manifest

structure NativeTransfers where
  enabled : Bool
  networks : Option (List (List Char))
  tables : List ContractTable

/-- What `to_indexer` makes of a manifest. -/
structure Indexer where
  name : List Char
  contracts : List Contract
  nativeTransfers : NativeTransfers

/-- `rindexer_internal`. -/
def internal : List Char := "rindexer_internal".toList

def internalTable (name : String) : TableName := ⟨internal, name.toList⟩

def reorgBlockHashes : TableName := internalTable "reorg_block_hashes"

def derivedOpLog : TableName := internalTable "derived_op_log"

def latestBlock : TableName := internalTable "latest_block"

def nativeTransferContractName : List Char := "EvmTraces".toList

/-- The imagined ABI of native transfers. -/
def nativeTransferAbi : List ABIItem :=
  [⟨[.mk "from".toList "address".toList (some true) none,
    .mk "to".toList "address".toList (some true) none,
    .mk "value".toList "uint256".toList (some false) none], "NativeTransfer".toList, "event".toList⟩]

def reorgBlockHashesDdl : CreateTable where
  columns := [⟨"network", "TEXT", true, none⟩, ⟨"block_number", "BIGINT", true, none⟩,
    ⟨"block_hash", "CHAR(66)", true, none⟩, ⟨"parent_hash", "CHAR(66)", true, none⟩]
  primaryKey := ["network", "block_number"]

def derivedOpLogDdl : CreateTable where
  columns := [⟨"id", "BIGSERIAL", false, none⟩, ⟨"derived_table", "VARCHAR(200)", true, none⟩,
    ⟨"network", "VARCHAR(50)", true, none⟩, ⟨"where_key", "VARCHAR(500)", true, none⟩,
    ⟨"column_name", "VARCHAR(100)", true, none⟩, ⟨"value", "NUMERIC", true, none⟩,
    ⟨"block_number", "BIGINT", true, none⟩, ⟨"tx_index", "INTEGER", true, none⟩,
    ⟨"log_index", "INTEGER", true, none⟩]
  primaryKey := ["id"]

def detailKeyColumn : ColumnDdl := ⟨"detail_key", "TEXT", true, some (sqlLiteral "__event__")⟩

def cursorKey : List String := ["network", "detail_key"]

def cursorDdl : CreateTable where
  columns := [⟨"network", "TEXT", true, none⟩, detailKeyColumn,
    ⟨"last_synced_block", "NUMERIC", false, none⟩]
  primaryKey := cursorKey

def latestBlockDdl : CreateTable where
  columns := [⟨"network", "TEXT", false, none⟩, ⟨"block", "NUMERIC", false, none⟩]
  primaryKey := ["network"]

def factoryDdl : CreateTable where
  columns := [⟨"factory_address", "CHAR(42)", false, none⟩,
    ⟨"factory_deployed_address", "CHAR(42)", false, none⟩, ⟨"network", "TEXT", false, none⟩]
  primaryKey := ["factory_address", "factory_deployed_address", "network"]

def cronDdl : CreateTable where
  columns := [⟨"network", "TEXT", false, none⟩, ⟨"last_synced_block", "NUMERIC", false, none⟩]
  primaryKey := ["network"]

/-- A table of one text for a key: the statements that drop what was created last. -/
def droppingSqlDdl : CreateTable where
  columns := [⟨"key", "INT", false, none⟩, ⟨"value", "TEXT", true, none⟩]
  primaryKey := ["key"]

def migrationsDdl : CreateTable where
  columns := [⟨"version", "INT", false, none⟩, ⟨"migration_applied", "BOOL", true, none⟩]
  primaryKey := ["version"]

/-- A row for a network that nothing is known of yet. -/
def networkRow (column : String) (network : List Char) : StoredRow :=
  [("network", String.ofList network), (column, "0")]

section Names

variable (classes : UnicodeClasses) (keccak : Keccak) (m : Indexer)

def contractSchema (contract : Contract) : Option (List Char) :=
  generateIndexerContractSchemaName classes m.name contract.beforeModifyNameIfFilterReadonly

def nativeSchema : Option (List Char) :=
  generateIndexerContractSchemaName classes m.name nativeTransferContractName

/-- A table of `rindexer_internal` that the indexer has one of. -/
def indexerTable (suffix : String) : Option TableName :=
  (camelToSnake classes m.name).map fun name => ⟨internal, name ++ suffix.toList⟩

def lastKnownIndexes : Option TableName := indexerTable classes m "_last_known_indexes_dropping_sql"

def lastKnownRelationships : Option TableName :=
  indexerTable classes m "_last_known_relationship_dropping_sql"

def lastRunMigrations : Option TableName := indexerTable classes m "_last_run_migrations_sql"

def eventTable (schema : Option (List Char)) (eventName : List Char) : Option TableName :=
  schema.bind fun schema => (camelToSnake classes eventName).map fun event => ⟨schema, event⟩

def internalEventTable (schema : Option (List Char)) (eventName : List Char) : Option TableName :=
  schema.bind fun schema =>
    (generateInternalEventTableName classes keccak schema eventName).map fun table =>
      ⟨internal, table⟩

def factoryTable (factory : FactoryDetailsYaml) : Option TableName :=
  (generateInternalFactoryEventTableName classes keccak
    ⟨m.name, factory.name, factory.eventName, factory.inputNames⟩).map fun table => ⟨internal, table⟩

/-- `generate_internal_cron_table_name`. -/
def cronTable (schema : Option (List Char)) (tableName : List Char) (cronIndex : Nat) :
    Option TableName :=
  schema.bind fun schema =>
    ((camelToSnake classes tableName).bind fun table =>
      compactTableNameIfNeeded keccak
        (schema ++ '_' :: table ++ "_cron_".toList ++ Nat.toDigits 10 cronIndex)).map fun table =>
          ⟨internal, table⟩

/-- `generate_table_full_name`: where the rows of a custom table are written and read. -/
def tableFullName (contractName : List Char) (table : ContractTable) : Option TableName :=
  eventTable classes
    (match table.database with
    | some database => some database
    | none => generateIndexerContractSchemaName classes m.name contractName) table.name

/-- The cron entries of a contract that sync history, each with its table and its index. -/
def historicalCrons (contract : Contract) : List (ContractTable × CronEntry × Nat) :=
  (contract.tables.getD []).flatMap fun table =>
    ((table.cron.getD []).zipIdx.filter fun entry => entry.1.startBlock.isSome).map fun entry =>
      (table, entry.1, entry.2)

def factoriesOf (contract : Contract) : List FactoryDetailsYaml :=
  contract.details.filterMap ContractDetails.factory

/-- The events of a contract, unless a parameter of one has no signature. -/
def eventsOf (contract : Contract) : Option (List EventInfo) :=
  (extractEventNamesAndSignaturesFromAbi contract.readAbiItems).toOption

def rawEventsOf (contract : Contract) : List EventInfo :=
  ((eventsOf contract).getD []).filter fun event => contract.storesRawEvents event.name

/-! ### Dropping -/

def dropContract (contract : Contract) : Batch :=
  let schema := contractSchema classes m contract
  [schema.map .dropSchema] ++
    contract.readAbiItems.map (fun item =>
      (internalEventTable classes keccak schema item.name).map .dropTable) ++
    (factoriesOf contract).map (fun factory =>
      (factoryTable classes keccak m factory).map .dropTable) ++
    (historicalCrons contract).map fun (table, _, cronIndex) =>
      (cronTable classes keccak schema table.name cronIndex).map .dropTable

def dropTablesForIndexerSql : Batch :=
  [(lastKnownIndexes classes m).map .dropTable, (lastKnownRelationships classes m).map .dropTable,
    some (.dropTable latestBlock)] ++ m.contracts.flatMap (dropContract classes keccak m)

/-! ### Creating -/

/-- `generate_event_table_sql_with_comments`, for one event. -/
def eventTableStatement (schema : Option (List Char)) (event : EventInfo) : Option Statement :=
  (eventTable classes schema event.name).bind fun table =>
    (eventTableDdl classes event.inputs).map fun ddl => .createTable table ddl

/-- `generate_tables_sql`, for one table. -/
def customTableStatement (schema : Option (List Char)) (table : ContractTable) :
    Option Statement :=
  (eventTable classes schema table.name).map fun name =>
    .createTable name (createTable table.definition)

/-- `generate_internal_event_table_sql`, for one event. -/
def internalEventStatements (schema : Option (List Char)) (networks : List (List Char))
    (event : EventInfo) : Batch :=
  let table := internalEventTable classes keccak schema event.name
  [table.map fun table => .createTable table cursorDdl,
    table.map fun table => .addColumn table detailKeyColumn,
    table.map fun table => .rekey table cursorKey,
    some (.createTable latestBlock latestBlockDdl)] ++
    networks.map fun network =>
      some (.insertIfAbsent latestBlock "network" (networkRow "block" network))

def factoryStatement (factory : FactoryDetailsYaml) : Option Statement :=
  (factoryTable classes keccak m factory).map fun table => .createTable table factoryDdl

/-- `generate_internal_cron_table_sql`, for one entry. -/
def cronStatements (schema : Option (List Char)) (networks : List (List Char))
    (entry : ContractTable × CronEntry × Nat) : Batch :=
  let table := cronTable classes keccak schema entry.1.name entry.2.2
  let cronNetworks := match entry.2.1.network with
    | some network => [network]
    | none => networks
  (table.map fun table => .createTable table cronDdl) ::
    cronNetworks.map fun network =>
      table.map fun table =>
        .insertIfAbsent table "network" (networkRow "last_synced_block" network)

/-- The statements for the tables of events and for custom tables, unless they are disabled. -/
def storedTableStatements (disableEventTables : Bool) (schema : Option (List Char))
    (rawEvents : List EventInfo) (tables : List ContractTable) : Batch :=
  if disableEventTables then []
  else schema.map .createSchema :: rawEvents.map (eventTableStatement classes schema) ++
    tables.map (customTableStatement classes schema)

def createContract (disableEventTables : Bool) (contract : Contract) : Batch :=
  let schema := contractSchema classes m contract
  let networks := contract.details.map ContractDetails.network
  match eventsOf contract with
  | none => [none]
  | some events =>
    storedTableStatements classes disableEventTables schema (rawEventsOf contract)
        (contract.tables.getD []) ++
      events.flatMap (internalEventStatements classes keccak schema networks) ++
      (factoriesOf contract).map (factoryStatement classes keccak m) ++
      (historicalCrons contract).flatMap (cronStatements classes keccak schema networks)

def nativeEvents : List EventInfo :=
  ((extractEventNamesAndSignaturesFromAbi nativeTransferAbi).toOption).getD []

def createNativeTransfers (disableEventTables : Bool) : Batch :=
  if m.nativeTransfers.enabled then
    match m.nativeTransfers.networks with
    | none => [none]
    | some networks =>
      storedTableStatements classes disableEventTables (nativeSchema classes m) nativeEvents [] ++
        nativeEvents.flatMap (internalEventStatements classes keccak (nativeSchema classes m) networks)
  else []

def generateTablesForIndexerSql (disableEventTables : Bool) : Batch :=
  [some (.createSchema internal), some (.createTable reorgBlockHashes reorgBlockHashesDdl),
    some (.createTable derivedOpLog derivedOpLogDdl)] ++
    m.contracts.flatMap (createContract classes keccak m disableEventTables) ++
    createNativeTransfers classes keccak m disableEventTables ++
    [(lastKnownRelationships classes m).map fun table => .createTable table droppingSqlDdl,
      (lastKnownIndexes classes m).map fun table => .createTable table droppingSqlDdl,
      (lastRunMigrations classes m).map fun table => .createTable table migrationsDdl]

/-! ### Migrations -/

/-- `Migration::V1`: a block timestamp for the tables of events. -/
def blockTimestampColumn : ColumnDdl := ⟨"block_timestamp", "TIMESTAMPTZ", false, none⟩

def migrationRow : StoredRow := [("version", "1"), ("migration_applied", "true")]

def migrationStatements : Batch :=
  m.contracts.flatMap fun contract =>
    match eventsOf contract with
    | none => [none]
    | some _ => (rawEventsOf contract).map fun event =>
      (eventTable classes (contractSchema classes m contract) event.name).map fun table =>
        .addColumn table blockTimestampColumn

/-- Whether the migration is recorded. -/
def applied (stored : StoredTable) : Bool :=
  stored.rows.any fun row => row.lookup "version" == some "1" &&
    row.lookup "migration_applied" == some "true"

def executeMigrationsForIndexerSql (disableEventTables : Bool) (db : Catalog) : Option Catalog :=
  if disableEventTables then some db
  else
    (lastRunMigrations classes m).bind fun table =>
      (db.tables table).bind fun stored =>
        if applied stored then some db
        else (run (migrationStatements classes m) db).bind
          (run [some (.insertIfAbsent table "version" migrationRow)])

/-- `setup_postgres` with `drop_each_run`. -/
def setupPostgres (disableEventTables : Bool) (db : Catalog) : Option Catalog :=
  (run (dropTablesForIndexerSql classes keccak m) db).bind fun db =>
    (run (generateTablesForIndexerSql classes keccak m disableEventTables) db).bind
      (executeMigrationsForIndexerSql classes m disableEventTables)

end Names

end Rindexer.Database
