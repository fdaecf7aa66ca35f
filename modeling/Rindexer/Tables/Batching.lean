import Rindexer.Lib.Grid
import Rindexer.Tables.Commuting
import Rindexer.Tables.Processing

/-! Custom tables do not see how their events are cut into batches, unless an operation of the manifest
is overtaken by an earlier one that runs for a later event. -/

namespace Rindexer.Tables

open Rindexer.Database Rindexer.Lib Rindexer.Manifest Rindexer.Reorg

/-! ### Operations as batch operations -/

/-- What the texts of a manifest mean: the literals of column defaults, and the conditions that are
pushed to SQL, which see the row of the table and the row of the batch and may fail. -/
structure Texts where
  literalToWrapper : String → ColumnType → SqlValue
  arithmeticInsertDefault : String → ColumnType → Option Int
  condition : Table → String → TableRow → TableRow → Option Bool

def BatchOperationAction.ofSetAction : SetAction → BatchOperationAction
  | .set => .set
  | .add => .add
  | .subtract => .subtract
  | .max => .max
  | .min => .min
  | .increment => .add
  | .decrement => .subtract

namespace Operation

def isInsert (op : Operation) : Bool := op.operation.operationType == .insert

def columnAction (op : Operation) (column : String) : BatchOperationAction :=
  if op.table.isPrimaryKeyColumn column && !op.isInsert then .whereColumn
  else
    match op.operation.setAction? column with
    | some action => .ofSetAction action
    | none => .nothing

def columnDefinition (t : Texts) (op : Operation) (c : TableColumn) : DynamicColumnDefinition where
  name := c.name
  columnType := c.columnType
  action := op.columnAction c.name
  insertDefault :=
    match op.columnAction c.name with
    | .add | .subtract => c.default.bind fun d => t.arithmeticInsertDefault d c.columnType
    | _ => none
  nullable := c.nullable && (op.table.isInsertOnly || !op.table.isPrimaryKeyColumn c.name)

/-- The metadata columns that are injected, without the sequence id. -/
def injectedColumns (table : Table) : List DynamicColumnDefinition :=
  [⟨"rindexer_block_number", .uint64, .set, none, false⟩] ++
    (if table.timestamp then [⟨"rindexer_block_timestamp", .timestamp, .set, none, false⟩] else []) ++
    [⟨"rindexer_tx_hash", .string, .set, none, false⟩,
      ⟨"rindexer_block_hash", .string, .set, none, false⟩,
      ⟨"rindexer_contract_address", .address, .set, none, false⟩]

def networkColumns (table : Table) : List DynamicColumnDefinition :=
  if table.crossChain then [] else [⟨"network", .string, .whereColumn, none, false⟩]

def columns (t : Texts) (op : Operation) : List DynamicColumnDefinition :=
  networkColumns op.table ++ op.table.columns.map (op.columnDefinition t) ++ injectedColumns op.table

/-- The primary key of the table of an operation, when it is no counter. -/
def keys (op : Operation) : List String :=
  (if op.table.crossChain then [] else ["network"]) ++
    (op.table.columns.map TableColumn.name).filter op.table.isPrimaryKeyColumn

theorem ofSetAction_ne_whereColumn (a : SetAction) : BatchOperationAction.ofSetAction a ≠ .whereColumn := by
  cases a <;> simp [BatchOperationAction.ofSetAction]

theorem columnAction_eq_whereColumn {op : Operation} (h : op.isInsert = false) {column : String} :
    op.columnAction column = .whereColumn ↔ op.table.isPrimaryKeyColumn column = true := by
  rw [columnAction, h]
  by_cases hKey : op.table.isPrimaryKeyColumn column = true
  · simp [hKey]
  · rw [if_neg (by simpa using hKey)]
    cases op.operation.setAction? column with
    | none => simp [hKey]
    | some a => simp [hKey, ofSetAction_ne_whereColumn]

theorem mem_keys {t : Texts} {op : Operation} (h : op.isInsert = false) {name : String} :
    name ∈ op.keys ↔ ∃ c ∈ op.columns t, c.name = name ∧ c.action = .whereColumn := by
  have hInjected : ¬∃ c ∈ injectedColumns op.table, c.name = name ∧ c.action = .whereColumn := by
    rintro ⟨c, hc, -, hWhere⟩
    have hSet : c.action = .set := by
      simp [injectedColumns] at hc
      rcases hc with rfl | ⟨-, rfl⟩ | rfl | rfl | rfl <;> rfl
    rw [hSet] at hWhere
    cases hWhere
  have hNetwork : (∃ c ∈ networkColumns op.table, c.name = name ∧ c.action = .whereColumn) ↔
      name ∈ if op.table.crossChain then [] else ["network"] := by
    rw [networkColumns]
    cases op.table.crossChain <;> simp [eq_comm]
  have hTable : (∃ c ∈ op.table.columns.map (op.columnDefinition t),
      c.name = name ∧ c.action = .whereColumn) ↔
        name ∈ (op.table.columns.map TableColumn.name).filter op.table.isPrimaryKeyColumn := by
    simp only [List.mem_map, List.mem_filter]
    constructor
    · rintro ⟨_, ⟨c, hc, rfl⟩, rfl, hWhere⟩
      exact ⟨⟨c, hc, rfl⟩, (columnAction_eq_whereColumn h).mp hWhere⟩
    · rintro ⟨⟨c, hc, rfl⟩, hKey⟩
      exact ⟨_, ⟨c, hc, rfl⟩, rfl, (columnAction_eq_whereColumn h).mpr hKey⟩
  rw [keys, columns, List.mem_append, ← hNetwork, ← hTable]
  constructor
  · rintro (⟨c, hc, hRest⟩ | ⟨c, hc, hRest⟩)
    · exact ⟨c, List.mem_append_left _ (List.mem_append_left _ hc), hRest⟩
    · exact ⟨c, List.mem_append_left _ (List.mem_append_right _ hc), hRest⟩
  · rintro ⟨c, hc, hRest⟩
    rcases List.mem_append.mp hc with hc | hc
    · rcases List.mem_append.mp hc with hc | hc
      · exact .inl ⟨c, hc, hRest⟩
      · exact .inr ⟨c, hc, hRest⟩
    · exact absurd ⟨c, hc, hRest⟩ hInjected

/-- The batch operation of an operation, if its table has no two columns of one name. -/
def batch {ε : Type} (x : Extraction ε) (t : Texts) (op : Operation) : Option BatchOperation :=
  if h : ((op.columns t).map DynamicColumnDefinition.name).Nodup then
    some
      { type := op.operation.operationType
        insertOnly := op.table.isInsertOnly
        keys := op.keys
        columns := op.columns t
        customWhere := (op.sqlCondition x).map (t.condition op.table)
        nodup := h
        keys_where := fun hType _ => mem_keys (by simpa [isInsert] using hType) }
  else none

def injectedValue (op : Operation) (row : TableRowData) (name : String) : SqlValue :=
  if name = "rindexer_block_number" then .num row.blockNumber
  else if name = "rindexer_block_timestamp" ∧ op.table.timestamp then
    match row.blockTimestamp with
    | some ts => .num ts
    | none => .null
  else if name = "rindexer_tx_hash" then .text row.txMetadata.txHash
  else if name = "rindexer_block_hash" then .text row.txMetadata.blockHash
  else if name = "rindexer_contract_address" then .text row.txMetadata.contractAddress
  else .null

/-- The values of a row for the columns of the operation. -/
def tableRow (t : Texts) (op : Operation) (row : TableRowData) : TableRow where
  sequenceId := row.sequenceId
  fields name :=
    if name = "network" ∧ op.table.crossChain = false then .text row.network
    else
      match op.table.columns.find? fun c => c.name == name with
      | some c =>
        match row.columns.lookup name with
        | some value => value
        | none =>
          match c.default with
          | some d => t.literalToWrapper d c.columnType
          | none => .null
      | none => op.injectedValue row name

end Operation

/-- An operation on the rows of the tables, by the names of the tables. -/
def executeOperation {ε : Type} (sv : Server) (x : Extraction ε) (t : Texts) (op : Operation)
    (rows : List TableRowData) (store : String → Contents) : (String → Contents) × Option String :=
  match op.batch x t with
  | none => (store, some "column specified more than once")
  | some b =>
    match b.execute sv (rows.map (op.tableRow t)) (store op.table.name) with
    | (contents, true) => (Function.update store op.table.name contents, none)
    | (contents, false) => (Function.update store op.table.name contents, some "db error")

/-! ### Calls -/

section Calls

variable {ε σ : Type} (x : Extraction ε) (execute : Operation → List TableRowData → σ → σ × Option String)
  (events : List (EventData ε))

/-- The operations on the rows of a batch, one after the other unless one fails. -/
def runOperations : List Operation → σ → Option σ
  | [], s => some s
  | op :: ops, s =>
    if op.batchRows x events = [] then runOperations ops s
    else
      match execute op (op.batchRows x events) s with
      | (s, none) => runOperations ops s
      | (_, some _) => none

theorem runOperations_append (first second : List Operation) (s : σ) :
    runOperations x execute events (first ++ second) s =
      (runOperations x execute events first s).bind (runOperations x execute events second) := by
  induction first generalizing s with
  | nil => rfl
  | cons op first ih =>
    rw [List.cons_append, runOperations, runOperations]
    split
    · exact ih s
    · rcases execute op (op.batchRows x events) s with ⟨next, _ | _⟩
      · exact ih next
      · rfl

variable {x execute events} {shutdown : Option ShutdownPoint}

theorem processOperations_store {ops : List Operation} {s s' : Progress σ}
    (h : processOperations x execute events shutdown ops s = (s', none)) :
    runOperations x execute events ops s.store = some s'.store := by
  induction ops generalizing s with
  | nil =>
    cases h
    rfl
  | cons op ops ih =>
    rw [processOperations] at h
    cases hCollected : collectRows x shutdown op s.finished 0 events with
    | error stop =>
      simp only [processOperation, hCollected] at h
      cases h
    | ok rows =>
      have hRows := collectRows_ok shutdown hCollected
      rw [runOperations]
      cases rows with
      | nil =>
        simp only [processOperation, hCollected] at h
        rw [if_pos hRows.symm]
        have hRest := ih h
        exact hRest
      | cons row rows =>
        rw [← hRows, if_neg (List.cons_ne_nil row rows)]
        rcases hExecuted : execute op (row :: rows) s.store with ⟨store, _ | m⟩
        · simp only [processOperation, hCollected, hExecuted] at h
          exact ih h
        · simp only [processOperation, hCollected, hExecuted] at h
          cases h

theorem processTables_store {eventName : String} {tables : List Table} {index : Nat}
    {s s' : Progress σ}
    (h : processTables x execute events shutdown eventName index tables s = (s', none)) :
    runOperations x execute events (operationsFor eventName tables) s.store = some s'.store := by
  induction tables generalizing index s with
  | nil =>
    cases h
    rfl
  | cons table tables ih =>
    rw [processTables] at h
    split at h
    · cases h
    · cases hMapping : table.mapping? eventName with
      | none =>
        simp only [hMapping] at h
        simpa [operationsFor, hMapping] using ih h
      | some mapping =>
        simp only [hMapping] at h
        rcases hResult : processOperations x execute events shutdown
            (mapping.operations.map fun op => ⟨table, mapping, op⟩) s with ⟨next, _ | stop⟩
        · simp only [hResult] at h
          have hOps : operationsFor eventName (table :: tables) =
              (mapping.operations.map fun op => (⟨table, mapping, op⟩ : Operation)) ++
                operationsFor eventName tables := by
            simp [operationsFor, hMapping]
          rw [hOps, runOperations_append, processOperations_store hResult]
          exact ih h
        · simp only [hResult] at h
          cases h

/-- A call that does not stop has run every operation. -/
theorem processTableOperations_store {eventName : String} {tables : List Table} {store : σ}
    {s : Progress σ}
    (h : processTableOperations x execute events shutdown tables eventName store = (s, none)) :
    runOperations x execute events (operationsFor eventName tables) store = some s.store := by
  simp only [processTableOperations] at h
  split at h
  · cases h
  · split at h
    · cases h
    · exact processTables_store h

end Calls

/-- One call after the other, until one stops. -/
def processBatches {ε : Type} (sv : Server) (x : Extraction ε) (t : Texts) (tables : List Table)
    (eventName : String) : List (List (EventData ε)) → (String → Contents) →
      (String → Contents) × Option Stop
  | [], store => (store, none)
  | events :: batches, store =>
    match processTableOperations x (executeOperation sv x t) events none tables eventName store with
    | (s, some stop) => (s.store, some stop)
    | (s, none) => processBatches sv x t tables eventName batches s.store

end Rindexer.Tables
