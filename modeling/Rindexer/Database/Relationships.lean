import Rindexer.Database.Ddl
import Rindexer.SqlTypes.ParameterPaths

/-! The relationships and the indexes that a manifest asks for: the columns they name, the constraints
and indexes that are made of them, and the statements that would take these away again. -/

namespace Rindexer.Database

open Rindexer.Lib
open Rindexer.Manifest (Contract ABIItem)
open Rindexer.SqlTypes (GetAbiItemWithDbMapError GetAbiItemWithDbMap getAbiItemWithDbMap)

/-! ### The manifest -/

structure ForeignKey where
  contractName : List Char
  eventName : List Char
  eventInputName : List Char

structure ForeignKeys where
  contractName : List Char
  eventName : List Char
  eventInputName : List Char
  foreignKeys : List ForeignKey

structure EventIndexes where
  name : List Char
  injectedParameters : Option (List (List Char))
  /-- The input names of each index. -/
  indexes : List (List (List Char))

structure ContractEventsIndexes where
  name : List Char
  injectedParameters : Option (List (List Char))
  events : List EventIndexes

structure PostgresIndexes where
  globalInjectedParameters : Option (List (List Char))
  contracts : Option (List ContractEventsIndexes)

/-! ### Relationships -/

structure LinkTo where
  contractName : List Char
  event : List Char
  dbTableName : TableName
  dbTableColumn : List Char
deriving DecidableEq, Repr

structure Relationship where
  contractName : List Char
  event : List Char
  dbTableName : TableName
  dbTableColumn : List Char
  linkedTo : LinkTo
deriving DecidableEq, Repr

/-- A statement that takes constraints or an index away. -/
inductive DroppingSql
  /-- A foreign key of a table, and then a unique constraint of the table that it refers to. -/
  | constraints (table : TableName) (foreignKey : List Char) (linkedTable : TableName)
      (unique : List Char)
  | index (schema name : List Char)
deriving DecidableEq, Repr

namespace Relationship

variable (r : Relationship)

def foreignKeyConstructName : List Char :=
  ['f', 'k', '_'] ++ r.linkedTo.dbTableName.table ++ '_' :: r.linkedTo.dbTableColumn

def uniqueConstructName : List Char :=
  ['u', 'n', 'i', 'q', 'u', 'e', '_'] ++ r.linkedTo.dbTableName.table ++ '_' :: r.linkedTo.dbTableColumn

def indexName : List Char := ['i', 'd', 'x', '_'] ++ r.dbTableName.table ++ '_' :: r.dbTableColumn

def dropSql : List DroppingSql :=
  [.constraints r.dbTableName r.foreignKeyConstructName r.linkedTo.dbTableName r.uniqueConstructName,
    .index r.dbTableName.schema r.indexName]

/-- The column that the relationship refers to. -/
def target : TableName × List Char := (r.linkedTo.dbTableName, r.linkedTo.dbTableColumn)

end Relationship

inductive CreateRelationshipError
  | contractMissing (text : List Char)
  | typeMismatch (text : List Char)
  | getAbiParameterError (error : GetAbiItemWithDbMapError)
deriving DecidableEq, Repr

section Create

variable (classes : UnicodeClasses) (manifestName : List Char) (contracts : List Contract)

/-- A name in the database; `none` stands for a panic. -/
def relationshipTable (contractName eventName : List Char) : Option TableName :=
  (camelToSnake classes manifestName).bind fun manifest =>
    (camelToSnake classes contractName).bind fun contract =>
      (camelToSnake classes eventName).map fun event => ⟨manifest ++ '_' :: contract, event⟩

/-- A parameter of an event, by the names that lead to it. -/
def abiParameter {ε : Type} (error : GetAbiItemWithDbMapError → ε) (contract : Contract)
    (eventName eventInputName : List Char) : ExceptT ε Option GetAbiItemWithDbMap :=
  (getAbiItemWithDbMap classes eventName (eventInputName.splitOn '.') contract.readAbiItems).map
    (Except.mapError error)

def createRelationship (foreignKey : ForeignKeys) (contract : Contract) (linkedKey : ForeignKey) :
    ExceptT CreateRelationshipError Option Relationship := do
  let parameter ← abiParameter classes .getAbiParameterError contract foreignKey.eventName
    foreignKey.eventInputName
  match contracts.find? (·.name = linkedKey.contractName) with
  | none =>
    throw (.contractMissing ("Contract ".toList ++ linkedKey.contractName ++
      (" not found in `contracts` and linked in relationships. " ++
        "Make sure it is defined.").toList))
  | some linkedContract =>
    let linkedParameter ← abiParameter classes .getAbiParameterError linkedContract
      linkedKey.eventName linkedKey.eventInputName
    if parameter.abiItem.type ≠ linkedParameter.abiItem.type then
      throw (.typeMismatch ("Type mismatch between ".toList ++ foreignKey.contractName ++
        '.' :: foreignKey.eventInputName ++ " (".toList ++ parameter.abiItem.type ++
        ") and ".toList ++ linkedKey.contractName ++ '.' :: linkedKey.eventInputName ++
        " (".toList ++ linkedParameter.abiItem.type ++ ")".toList))
    else
      let column ← (camelToSnake classes parameter.dbColumnName : Option _)
      let table ← (relationshipTable classes manifestName contract.name foreignKey.eventName : Option _)
      let linkedColumn ← (camelToSnake classes linkedParameter.dbColumnName : Option _)
      let linkedTable ←
        (relationshipTable classes manifestName linkedContract.name linkedKey.eventName : Option _)
      return {
        contractName := foreignKey.contractName
        event := foreignKey.eventName
        dbTableName := table
        dbTableColumn := column
        linkedTo := ⟨linkedKey.contractName, linkedKey.eventName, linkedTable, linkedColumn⟩ }

/-- The relationships of a manifest, without their being saved. -/
def createRelationships (foreignKeys : List ForeignKeys) :
    ExceptT CreateRelationshipError Option (List Relationship) := do
  let relationships ← foreignKeys.mapM fun foreignKey =>
    match contracts.find? (·.name = foreignKey.contractName) with
    | none =>
      throw (.contractMissing ("Contract ".toList ++ foreignKey.contractName ++
        " not found in `contracts` make sure it is defined".toList))
    | some contract =>
      foreignKey.foreignKeys.mapM (createRelationship classes manifestName contracts foreignKey contract)
  return relationships.flatten

/-! ### Indexes -/

structure PostgresIndexResult where
  dbTableName : TableName
  dbTableColumns : List (List Char)
deriving DecidableEq, Repr

def PostgresIndexResult.indexName (index : PostgresIndexResult) : List Char :=
  ['i', 'd', 'x', '_'] ++ index.dbTableName.table ++ '_' :: joinWith '_' index.dbTableColumns

def PostgresIndexResult.dropIndexSql (index : PostgresIndexResult) : DroppingSql :=
  .index index.dbTableName.schema index.indexName

inductive PrepareIndexesError
  | contractMissing (name : List Char)
  | getAbiParameterError (error : GetAbiItemWithDbMapError)
deriving DecidableEq, Repr

/-- One index for each injected column. -/
def injectedIndexes (table : TableName) (columns : List (List Char)) : List PostgresIndexResult :=
  columns.map fun column => ⟨table, [column]⟩

/-- Indexes on injected columns of the tables of all entries of an ABI. -/
def abiItemsIndexes (contract : Contract) (columns : List (List Char)) :
    Option (List PostgresIndexResult) :=
  (contract.readAbiItems.mapM fun item =>
    (relationshipTable classes manifestName contract.beforeModifyNameIfFilterReadonly item.name).map
      fun table => injectedIndexes table columns).map List.flatten

def eventIndexResults (contract : Contract) (event : EventIndexes) :
    ExceptT PrepareIndexesError Option (List PostgresIndexResult) := do
  let table ← (relationshipTable classes manifestName contract.beforeModifyNameIfFilterReadonly event.name :
    Option _)
  let indexes ← event.indexes.mapM fun names => do
    let parameters ← names.mapM
      (abiParameter classes PrepareIndexesError.getAbiParameterError contract event.name)
    return ⟨table, parameters.map (·.dbColumnName)⟩
  return injectedIndexes table (event.injectedParameters.getD []) ++ indexes

def contractIndexResults (contractIndexes : ContractEventsIndexes) :
    ExceptT PrepareIndexesError Option (List PostgresIndexResult) := do
  match contracts.find? (·.name = contractIndexes.name) with
  | none => throw (.contractMissing contractIndexes.name)
  | some contract =>
    let injected ←
      match contractIndexes.injectedParameters with
      | none => pure []
      | some columns => (abiItemsIndexes classes manifestName contract columns : Option _)
    let events ← contractIndexes.events.mapM (eventIndexResults classes manifestName contract)
    return injected ++ events.flatten

/-- The indexes of a manifest, without their being saved. -/
def prepareIndexes (indexes : PostgresIndexes) :
    ExceptT PrepareIndexesError Option (List PostgresIndexResult) := do
  let globals ←
    match indexes.globalInjectedParameters with
    | none => pure []
    | some columns =>
      (contracts.mapM fun contract => abiItemsIndexes classes manifestName contract columns :
        Option _)
  let events ← (indexes.contracts.getD []).mapM (contractIndexResults classes manifestName contracts)
  return globals.flatten ++ events.flatten

end Create

end Rindexer.Database
