import Mathlib.Logic.Function.Basic
import Rindexer.Database.Ddl
import Rindexer.Database.KeyOrder
import Rindexer.Database.TableNames

/-! The sync of Postgres with a manifest: what it expects of a custom table, the changes that it finds
between that and the table that is there, and what they do to the table. -/

namespace Rindexer.Database

open Rindexer.Manifest

/-! ### The names of types -/

/-- The type of a column as the information schema has it, from the type in its definition. -/
def informationSchemaType (type : String) : String :=
  if type.toList.getLast? = some ']' then "ARRAY"
  else
    (([("SMALLINT", "smallint"), ("INTEGER", "integer"), ("BIGINT", "bigint"), ("BIGSERIAL", "bigint"),
      ("NUMERIC", "numeric"), ("CHAR(42)", "character"), ("CHAR(66)", "character"),
      ("VARCHAR(50)", "character varying"), ("BYTEA", "bytea"), ("TEXT", "text"),
      ("BOOLEAN", "boolean"), ("TIMESTAMPTZ", "timestamp with time zone")] :
        List (String × String)).lookup type).getD type

/-- The type that the sync expects the information schema to have. -/
def toInformationSchema (pgType : String) : String :=
  if pgType ∈ ["char(42)", "char(66)"] then "character" else pgType

def normalizePgType (pgType : String) : String :=
  let t := pgType.toLower
  if t ∈ ["character varying", "varchar"] then "varchar"
  else if t ∈ ["character", "char", "bpchar"] then "char"
  else if t ∈ ["timestamp with time zone", "timestamptz"] then "timestamptz"
  else if t ∈ ["integer", "int", "int4"] then "integer"
  else if t ∈ ["bigint", "int8"] then "bigint"
  else if t ∈ ["numeric", "decimal"] then "numeric"
  else if t ∈ ["boolean", "bool"] then "boolean"
  else t

/-- The type of a column to add, from the one that the information schema is expected to have. -/
def addedType (columnName columnType : String) : String :=
  let pgType :=
    if columnType = "character varying" then "VARCHAR(50)"
    else if columnType = "character" then
      if columnName = "rindexer_tx_hash" ∨ columnName = "rindexer_block_hash" then "CHAR(66)"
      else if columnName = "rindexer_contract_address" then "CHAR(42)"
      else "TEXT"
    else if columnType = "timestamp with time zone" then "TIMESTAMPTZ"
    else columnType
  pgType.toUpper

/-! ### Tables -/

/-- What a default stands for: the next value of a counter, or a constant. -/
inductive ColumnDefault (Value : Type)
  | counter
  | constant (value : Option Value)
deriving DecidableEq, Repr

structure DbColumn (Value : Type) where
  name : String
  type : String
  default : ColumnDefault Value
deriving DecidableEq, Repr

/-- A table of Postgres.  Without a primary key the list of its columns is empty. -/
structure DbTable (Value : Type) where
  columns : List (DbColumn Value)
  primaryKey : List String
deriving DecidableEq, Repr

def DbTable.columnNames {Value : Type} (table : DbTable Value) : List String :=
  table.columns.map DbColumn.name

/-- A custom table of the manifest.  The sync runs before the types that the manifest leaves to the
events are resolved, so it knows those of the typed columns only. -/
structure SyncTable where
  definition : Table
  typed : String → Bool

def SyncTable.columnType? (table : SyncTable) (c : TableColumn) : Option ColumnType :=
  if table.typed c.name then some c.columnType else none

inductive SchemaChange
  | addColumn (table : TableName) (columnName columnType : String) (defaultValue : Option String)
  | removeColumn (table : TableName) (columnName : String)
  | changePrimaryKey (table : TableName) (currentPkColumns newPkColumns : List String)
  | columnTypeChanged (table : TableName) (columnName currentType newType : String)
deriving DecidableEq, Repr

def SchemaChange.table : SchemaChange → TableName
  | addColumn table _ _ _ | removeColumn table _ | changePrimaryKey table _ _
  | columnTypeChanged table _ _ _ => table

/-! ### Detection -/

/-- A process run: the order in which it goes through the `where` clauses of a table, and through a
set of names. -/
structure SyncRun where
  read : TableName → Table → Table
  reordered : ∀ name (t : Table), t.Reordered (read name t)
  order : TableName → List String → List String
  perm : ∀ name l, (order name l).Perm l

/-- `insert` of a hash map. -/
def insertColumn (columns : List (String × String)) (entry : String × String) :
    List (String × String) :=
  columns.filter (fun c => c.1 != entry.1) ++ [entry]

/-- The columns as they are inserted. -/
def insertedColumns (table : SyncTable) : List (String × String) :=
  let t := table.definition
  (if t.crossChain then [] else [("network", "character varying")]) ++
    (if t.isInsertOnly then [("rindexer_id", "bigint")] else []) ++
    t.columns.map (fun c => (c.name,
      match table.columnType? c with
      | some columnType => toInformationSchema columnType.toPostgresType.toLower
      | none => "unknown")) ++
    [("rindexer_block_number", "bigint")] ++
    (if t.timestamp then [("rindexer_block_timestamp", "timestamp with time zone")] else []) ++
    [("rindexer_tx_hash", "character"), ("rindexer_block_hash", "character"),
      ("rindexer_contract_address", "character"), ("rindexer_sequence_id", "numeric")]

def getExpectedColumns (table : SyncTable) : List (String × String) :=
  (insertedColumns table).foldl insertColumn []

def getExpectedPkColumns (t : Table) : List String :=
  (if t.crossChain then [] else ["network"]) ++
    if t.isInsertOnly then ["rindexer_id"] else t.primaryKeyColumns

section Detect

variable {Value : Type} (name : TableName) (table : SyncTable)

/-- The change for a column that is expected and not there. -/
def columnToAdd (columnName : String) : Option SchemaChange :=
  ((getExpectedColumns table).lookup columnName).bind fun columnType =>
    if columnType = "unknown" then none
    else some (.addColumn name columnName (addedType columnName columnType)
      ((table.definition.columns.find? fun c => c.name == columnName).bind TableColumn.default))

def columnToRemove (columnName : String) : Option SchemaChange :=
  if columnName = "rindexer_id" then none else some (.removeColumn name columnName)

def keyChange (run : SyncRun) (stored : DbTable Value) : List SchemaChange :=
  let expectedPk := getExpectedPkColumns (run.read name table.definition)
  if stored.primaryKey ≠ [] ∧ stored.primaryKey ≠ expectedPk then
    [.changePrimaryKey name stored.primaryKey expectedPk]
  else []

def typeChange (stored : DbTable Value) (c : TableColumn) : Option SchemaChange :=
  match table.columnType? c, stored.columns.find? (fun d => d.name == c.name),
    (getExpectedColumns table).lookup c.name with
  | some _, some existing, some expectedType =>
    let existingType := informationSchemaType existing.type
    if expectedType = "unknown" ∨ normalizePgType existingType = normalizePgType expectedType then none
    else some (.columnTypeChanged name c.name existingType expectedType)
  | _, _, _ => none

/-- The changes of a table that is there. -/
def detectTable (run : SyncRun) (stored : DbTable Value) : List SchemaChange :=
  let expectedNames := (getExpectedColumns table).map Prod.fst
  (run.order name (expectedNames.filter (· ∉ stored.columnNames))).filterMap (columnToAdd name table) ++
    (run.order name (stored.columnNames.filter (· ∉ expectedNames))).filterMap (columnToRemove name) ++
    keyChange name table run stored ++
    table.definition.columns.filterMap (typeChange name table stored)

end Detect

/-! ### The manifest -/

structure SyncContract where
  contract : ContractName
  tables : List SyncTable

structure SyncManifest where
  name : List Char
  contracts : List SyncContract

/-- A custom table with the name that the sync looks it up by and the one that it is created by. -/
structure PlacedTable where
  lookup : TableName
  created : TableName
  table : SyncTable

section Names

variable (classes : UnicodeClasses)

def SyncManifest.place (m : SyncManifest) (contract : ContractName) (table : SyncTable) :
    Option PlacedTable := do
  let lookup ← generateIndexerContractSchemaName classes m.name contract.name
  let created ← generateIndexerContractSchemaName classes m.name
    contract.beforeModifyNameIfFilterReadonly
  let name ← camelToSnake classes table.definition.name.toList
  return ⟨⟨lookup, name⟩, ⟨created, name⟩, table⟩

/-- The tables of a manifest, if each of their names can be built. -/
def SyncManifest.places (m : SyncManifest) : Option (List PlacedTable) :=
  (m.contracts.flatMap fun c => c.tables.map (c.contract, ·)).mapM fun entry =>
    m.place classes entry.1 entry.2

end Names

/-- The tables of a database. -/
abbrev DbTables (Value : Type) : Type := TableName → Option (DbTable Value)

section Database

variable {Value : Type}

def detectSchemaChanges (run : SyncRun) (tables : List PlacedTable) (db : DbTables Value) :
    List SchemaChange :=
  tables.flatMap fun p =>
    match db p.lookup with
    | none => []
    | some stored => detectTable p.lookup p.table run stored

/-- What the expression of a default stands for in a column of a type, if Postgres takes it. -/
abbrev Evaluate (Value : Type) : Type := String → String → Option (Option Value)

variable (evaluate : Evaluate Value)

/-! ### Application -/

/-- The table that a `CREATE TABLE` makes. -/
def ColumnDdl.stored (c : ColumnDdl) : DbColumn Value :=
  if c.type = "BIGSERIAL" then ⟨c.name, "BIGINT", .counter⟩
  else ⟨c.name, c.type, .constant (c.default.bind fun text => (evaluate c.type text).join)⟩

def CreateTable.stored (ddl : CreateTable) : DbTable Value :=
  ⟨ddl.columns.map (ColumnDdl.stored evaluate), ddl.primaryKey⟩

/-- The tables that `generate_tables_sql` creates where none is. -/
def generateTables (run : SyncRun) (db : DbTables Value) (tables : List PlacedTable) :
    DbTables Value :=
  tables.foldl (fun db p =>
    match db p.created with
    | some _ => db
    | none =>
      let ddl := createTable (run.read p.created p.table.definition)
      Function.update db p.created (some (ddl.stored evaluate))) db

/-- What a change does to its table, as far as the rows of the table allow it. -/
def SchemaChange.alter (stored : DbTable Value) : SchemaChange → Option (DbTable Value)
  | addColumn _ columnName columnType defaultValue =>
    if columnName ∈ stored.columnNames then none
    else if columnName = "rindexer_id" then
      some { stored with columns := stored.columns ++ [⟨columnName, "BIGINT", .counter⟩] }
    else
      match defaultValue with
      | none =>
        some { stored with columns := stored.columns ++ [⟨columnName, columnType, .constant none⟩] }
      | some text => (evaluate columnType text).map fun value =>
        { stored with columns := stored.columns ++ [⟨columnName, columnType, .constant value⟩] }
  | removeColumn _ columnName =>
    if columnName ∈ stored.columnNames then
      -- a key goes with any of its columns
      some ⟨stored.columns.filter (·.name ≠ columnName),
        if columnName ∈ stored.primaryKey then [] else stored.primaryKey⟩
    else none
  | changePrimaryKey _ _ newPkColumns =>
    if newPkColumns ≠ [] ∧ newPkColumns.Nodup ∧ newPkColumns ⊆ stored.columnNames then
      some { stored with primaryKey := newPkColumns }
    else none
  | columnTypeChanged _ _ _ _ => none

/-- `refuses` says of which changes the rows stand in the way. -/
def applySchemaChange (refuses : SchemaChange → Bool) (db : DbTables Value) (change : SchemaChange) :
    Option (DbTables Value) :=
  if refuses change then none
  else
    (db change.table).bind fun stored =>
      (change.alter evaluate stored).map fun stored' =>
        Function.update db change.table (some stored')

end Database

end Rindexer.Database
