import Rindexer.Reorg.Statements
import Mathlib.Data.List.Sort
import Mathlib.Logic.Function.Basic

/-! The tables that the start registers for the rollbacks of each network: an event table for each
detail of an event, and the derived tables with the operations that reverse them. -/

namespace Rindexer.Indexer.Protection

open Rindexer.Manifest Rindexer.Reorg

structure TableRuntime where
  table : Table
  fullTableName : String
deriving DecidableEq, Repr

/-- What an event writes: its own table, named after the three names, and custom tables. -/
structure EventSource where
  indexerName : String
  contractName : String
  eventName : String
  tables : List TableRuntime
deriving DecidableEq, Repr

/-- A detail of a contract or of the native transfers: a network, live without an end block. -/
structure NetworkContract where
  network : String
  endBlock : Option Nat
deriving DecidableEq, Repr

def NetworkContract.isLiveIndexing (detail : NetworkContract) : Bool := detail.endBlock.isNone

/-- An entry of the callback registry, for a contract event or for the native transfers. -/
structure RegistryEvent where
  source : EventSource
  details : List NetworkContract
deriving DecidableEq, Repr

structure Network where
  name : String
  /-- Whether reorg handling is configured and enabled. -/
  reorgHandling : Bool
deriving DecidableEq, Repr

structure NativeTransfers where
  enabled : Bool
  /-- The networks of the manifest where the manifest sets none. -/
  networks : Option (List NetworkContract)
  tables : List TableRuntime
deriving DecidableEq, Repr

structure Manifest where
  name : String
  networks : List Network
  nativeTransfers : NativeTransfers
  /-- The details of all contracts. -/
  contractDetails : List NetworkContract
  /-- The events that the contracts register. -/
  registry : List RegistryEvent
deriving DecidableEq, Repr

namespace Manifest

/-- `process_trace_events`, over the details of `TraceInformation::create`. -/
def traceRegistry (m : Manifest) : List RegistryEvent :=
  if m.nativeTransfers.enabled then
    [⟨⟨m.name, "EvmTraces", "NativeTransfer", m.nativeTransfers.tables⟩,
      m.nativeTransfers.networks.getD []⟩]
  else []

def hasAnyLiveIndexing (m : Manifest) : Bool :=
  m.contractDetails.any NetworkContract.isLiveIndexing ||
    (m.nativeTransfers.enabled &&
      match m.nativeTransfers.networks with
      | some networks => networks.any NetworkContract.isLiveIndexing
      | none => true)

end Manifest

/-- The details of all events, each with its event. -/
def detailsOf (registry : List RegistryEvent) : List (EventSource × NetworkContract) :=
  registry.flatMap fun event => event.details.map fun detail => (event.source, detail)

/-- `camel_to_snake` and the name of a cursor table for a schema and an event. -/
structure Naming where
  camelToSnake : String → String
  generateInternalEventTableName : String → String → String

section Tables

variable (naming : Naming)

def generateIndexerContractSchemaName (indexerName contractName : String) : String :=
  s!"{naming.camelToSnake indexerName}_{naming.camelToSnake contractName}"

def EventSource.tableInfo (e : EventSource) : EventTableInfo :=
  let schema := generateIndexerContractSchemaName naming e.indexerName e.contractName
  ⟨schema, naming.camelToSnake e.eventName,
    naming.generateInternalEventTableName schema e.eventName⟩

/-- The full name of the event's own table. -/
def EventSource.fullName (e : EventSource) : String := (e.tableInfo naming).fullName

/-- Appends to the entry of a key. -/
def pushAt {α : Type} (entries : String → List α) (key : String) (x : α) : String → List α :=
  Function.update entries key (entries key ++ [x])

/-- The first loop over the registry, then the native transfers with the networks of the
manifest. -/
def networkEventTables (m : Manifest) : String → List EventTableInfo :=
  let contracts := (detailsOf m.registry).foldl
    (fun tables d => pushAt tables d.2.network (d.1.tableInfo naming)) fun _ => []
  if m.nativeTransfers.enabled then
    match m.nativeTransfers.networks with
    | some networks => networks.foldl (fun tables nt => pushAt tables nt.network
        ((EventSource.mk m.name "EvmTraces" "NativeTransfer" []).tableInfo naming)) contracts
    | none => contracts
  else contracts

/-! ### Derived tables -/

/-- The name of the event field that a value refers to. -/
def stripDollar (value : String) : Option String :=
  match value.toList with
  | '$' :: field => some (String.ofList field)
  | _ => none

def eventFieldName (setCol : SetColumn) : Option String := stripDollar setCol.effectiveValue

def whereColumnsOf (operation : TableOperation) : List (String × String) :=
  (operation.whereClause.filterMap fun entry =>
    (stripDollar entry.2).map fun field => (entry.1, naming.camelToSnake field)).insertionSort
      fun a b => a.1 ≤ b.1

/-- The columns that a snapshot reverses. -/
def rollbackColumns (operation : TableOperation) : List DerivedColumnRollback :=
  operation.set.filterMap fun setCol =>
    if setCol.action.reverse.isSome then
      (eventFieldName setCol).map fun field =>
        ⟨setCol.column, naming.camelToSnake field, setCol.action⟩
    else none

/-- A column is journaled for the first entry that sets it. -/
def addJournal (journal : List DerivedColumnJournal) (jc : DerivedColumnJournal) :
    List DerivedColumnJournal :=
  if journal.any fun other => other.derivedColumn == jc.derivedColumn then journal
  else journal ++ [jc]

def journalColumns (operation : TableOperation) : List DerivedColumnJournal :=
  (operation.set.filter fun setCol => setCol.action.reverse.isNone).map fun setCol =>
    ⟨setCol.column, setCol.action, (whereColumnsOf naming operation).map Prod.fst⟩

/-- The operations of an event on a table that write to existing rows. -/
def reversedOperations (eventName : String) (table : Table) : List TableOperation :=
  ((table.events.filter fun mapping => mapping.event == eventName).flatMap
    TableEventMapping.operations).filter fun op =>
      op.operationType == .upsert || op.operationType == .update

/-- What an event contributes to the rollback of a table. -/
def rollbackOps (e : EventSource) (tr : TableRuntime) : List DerivedTableRollbackOp :=
  (reversedOperations e.eventName tr.table).filterMap fun operation =>
    if (rollbackColumns naming operation).isEmpty then none
    else some ⟨e.fullName naming, whereColumnsOf naming operation,
      rollbackColumns naming operation, operation.condition⟩

def journalOf (e : EventSource) (tr : TableRuntime) : List DerivedColumnJournal :=
  ((reversedOperations e.eventName tr.table).flatMap (journalColumns naming)).foldl addJournal []

/-- Extends the entry of the table, or adds one. -/
def mergeDerived (tr : TableRuntime) (ops : List DerivedTableRollbackOp)
    (journal : List DerivedColumnJournal) : List DerivedTableInfo → List DerivedTableInfo
  | [] => [⟨tr.fullTableName, tr.table.crossChain, ops, journal⟩]
  | existing :: rest =>
    if existing.fullTableName = tr.fullTableName then
      { existing with
        rollbackOps := existing.rollbackOps ++ ops
        journalColumns := journal.foldl addJournal existing.journalColumns } :: rest
    else existing :: mergeDerived tr ops journal rest

def buildDerivedTablesForEvent (accumulator : String → List DerivedTableInfo) (e : EventSource)
    (network : String) : String → List DerivedTableInfo :=
  e.tables.foldl (fun acc tr => Function.update acc network
    (mergeDerived tr (rollbackOps naming e tr) (journalOf naming e tr) (acc network))) accumulator

def networkDerivedTables (m : Manifest) : String → List DerivedTableInfo :=
  let build := fun acc (d : EventSource × NetworkContract) =>
    buildDerivedTablesForEvent naming acc d.1 d.2.network
  let contracts := (detailsOf m.registry).foldl build fun _ => []
  if m.nativeTransfers.enabled then (detailsOf m.traceRegistry).foldl build contracts
  else contracts

end Tables

/-! ### What is registered on a network -/

/-- The event of each detail on a network, for contracts and native transfers. -/
def configured (m : Manifest) (network : String) : List EventSource :=
  ((detailsOf m.registry ++ detailsOf m.traceRegistry).filter fun d => d.2.network = network).map
    Prod.fst

/-- The operations that a coordinator has for a derived table. -/
def registeredOps (derived : List DerivedTableInfo) (fullTableName : String) :
    List DerivedTableRollbackOp :=
  ((derived.find? fun d => d.fullTableName = fullTableName).map
    DerivedTableInfo.rollbackOps).getD []

section Registered

variable (naming : Naming)

/-- What an event contributes to the table of a name. -/
def contributions (e : EventSource) (fullTableName : String) : List DerivedTableRollbackOp :=
  (e.tables.filter fun tr => tr.fullTableName = fullTableName).flatMap (rollbackOps naming e)

theorem foldl_pushAt {α β : Type} (items : List β) (key : β → String) (value : β → α)
    (entries : String → List α) (k : String) :
    items.foldl (fun acc x => pushAt acc (key x) (value x)) entries k =
      entries k ++ (items.filter fun x => key x = k).map value := by
  induction items generalizing entries with
  | nil => simp
  | cons x items ih =>
    rw [List.foldl_cons, ih]
    by_cases hKey : key x = k
    · subst hKey
      simp [pushAt]
    · simp [pushAt, hKey, Function.update_of_ne (Ne.symm hKey)]

/-- One event table for each detail on the network. -/
theorem networkEventTables_eq (m : Manifest) (network : String) :
    networkEventTables naming m network =
      (configured m network).map fun e => e.tableInfo naming := by
  unfold networkEventTables configured Manifest.traceRegistry detailsOf
  by_cases hEnabled : m.nativeTransfers.enabled
  · cases hNetworks : m.nativeTransfers.networks with
    | none =>
      simp only [hEnabled, if_true, foldl_pushAt]
      simp [Function.comp_def]
    | some networks =>
      simp only [hEnabled, if_true, foldl_pushAt]
      simp [Function.comp_def, List.filter_map, EventSource.tableInfo]
  · simp only [hEnabled, Bool.false_eq_true, if_false, foldl_pushAt]
    simp [Function.comp_def]

theorem registeredOps_mergeDerived (tr : TableRuntime) (ops : List DerivedTableRollbackOp)
    (journal : List DerivedColumnJournal) (derived : List DerivedTableInfo) (name : String) :
    registeredOps (mergeDerived tr ops journal derived) name =
      registeredOps derived name ++ if tr.fullTableName = name then ops else [] := by
  induction derived with
  | nil =>
    by_cases hName : tr.fullTableName = name
    · simp [mergeDerived, registeredOps, hName]
    · simp [mergeDerived, registeredOps, hName]
  | cons existing rest ih =>
    unfold mergeDerived
    by_cases hSame : existing.fullTableName = tr.fullTableName
    · rw [if_pos hSame]
      by_cases hName : existing.fullTableName = name
      · simp [registeredOps, ← hSame, hName]
      · simp [registeredOps, ← hSame, hName]
    · rw [if_neg hSame]
      by_cases hName : existing.fullTableName = name
      · have hTable : tr.fullTableName ≠ name := fun h => hSame (hName.trans h.symm)
        simp [registeredOps, hName, hTable]
      · simpa [registeredOps, hName] using ih

theorem buildDerivedTablesForEvent_ops (accumulator : String → List DerivedTableInfo)
    (e : EventSource) (network k name : String) :
    registeredOps (buildDerivedTablesForEvent naming accumulator e network k) name =
      registeredOps (accumulator k) name ++
        if network = k then contributions naming e name else [] := by
  unfold buildDerivedTablesForEvent contributions
  induction e.tables generalizing accumulator with
  | nil => simp
  | cons tr tables ih =>
    rw [List.foldl_cons, ih]
    by_cases hNetwork : network = k
    · subst hNetwork
      by_cases hName : tr.fullTableName = name
      · simp [registeredOps_mergeDerived, hName]
      · simp [registeredOps_mergeDerived, hName]
    · simp [hNetwork, Function.update_of_ne (Ne.symm hNetwork)]

theorem foldl_buildDerived_ops (details : List (EventSource × NetworkContract))
    (accumulator : String → List DerivedTableInfo) (k name : String) :
    registeredOps (details.foldl (fun acc d =>
        buildDerivedTablesForEvent naming acc d.1 d.2.network) accumulator k) name =
      registeredOps (accumulator k) name ++
        ((details.filter fun d => d.2.network = k).map Prod.fst).flatMap
          fun e => contributions naming e name := by
  induction details generalizing accumulator with
  | nil => simp
  | cons d details ih =>
    rw [List.foldl_cons, ih, buildDerivedTablesForEvent_ops]
    by_cases hNetwork : d.2.network = k
    · simp [hNetwork]
    · simp [hNetwork]

/-- The contributions of each detail on the network. -/
theorem networkDerivedTables_ops (m : Manifest) (network name : String) :
    registeredOps (networkDerivedTables naming m network) name =
      (configured m network).flatMap fun e => contributions naming e name := by
  unfold networkDerivedTables configured
  by_cases hEnabled : m.nativeTransfers.enabled
  · simp only [hEnabled, if_true, foldl_buildDerived_ops]
    simp [registeredOps]
  · have hNone : detailsOf m.traceRegistry = [] := by
      simp [Manifest.traceRegistry, hEnabled, detailsOf]
    simp only [hEnabled, Bool.false_eq_true, if_false, foldl_buildDerived_ops]
    simp [registeredOps, hNone]

theorem eventTable_of_contributed {e : EventSource} {name : String} {op : DerivedTableRollbackOp}
    (h : op ∈ contributions naming e name) : op.eventTable = e.fullName naming := by
  simp only [contributions, rollbackOps, List.mem_flatMap, List.mem_filterMap] at h
  obtain ⟨tr, -, operation, -, hOp⟩ := h
  split at hOp
  · cases hOp
  · cases hOp
    rfl

end Registered

end Rindexer.Indexer.Protection
