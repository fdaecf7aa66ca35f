import Rindexer.Database.Schema
import Rindexer.Manifest

/-! The rows that an operation of a custom table takes from an event. -/

namespace Rindexer.Tables

open Rindexer.Database Rindexer.Manifest

structure TxMetadata where
  blockNumber : Nat
  blockTimestamp : Option Nat
  txHash : String
  blockHash : String
  contractAddress : String
  logIndex : Nat
  txIndex : Nat
deriving DecidableEq, Repr

/-- The position of an event in the chain, as one number. -/
def computeSequenceId (blockNumber txIndex logIndex : Nat) : Nat :=
  blockNumber * 100000000 + txIndex * 100000 + logIndex

/-- An event of a batch, with its decoded parameters. -/
structure EventData (ε : Type) where
  logParams : ε
  network : String
  txMetadata : TxMetadata

/-- What event parameters give for the expressions of a manifest.  `hasTableReferences` holds of a
condition that parses and mentions a column of the table. -/
structure Extraction (ε : Type) where
  expandIterateBindings : List IterateBinding → ε → Option (List ε)
  hasTableReferences : String → Bool
  evaluateFilter : String → ε → TxMetadata → Bool
  extractValue : String → ε → TxMetadata → ColumnType → String → Option SqlValue
  cachedBlockTimestamp : String → Nat → Option Nat

/-- A row to process.  `columns` has the values of where and set columns, the last inserted first; the
injected columns are the metadata. -/
structure TableRowData where
  columns : List (String × SqlValue)
  network : String
  txMetadata : TxMetadata
  blockTimestamp : Option Nat
deriving DecidableEq, Repr

def TableRowData.sequenceId (row : TableRowData) : Nat :=
  computeSequenceId row.txMetadata.blockNumber row.txMetadata.txIndex row.txMetadata.logIndex

def TableRowData.blockNumber (row : TableRowData) : Nat := row.txMetadata.blockNumber

variable {ε : Type}

/-- An operation of a table under the mapping of an event. -/
structure Operation where
  table : Table
  mapping : TableEventMapping
  operation : TableOperation
deriving DecidableEq, Repr

namespace Operation

/-- The condition of an operation, if it is for Rust to evaluate. -/
def rustCondition (x : Extraction ε) (op : Operation) : Option String :=
  op.operation.condition.filter fun c => !x.hasTableReferences c

/-- The condition of an operation, if it is pushed to SQL. -/
def sqlCondition (x : Extraction ε) (op : Operation) : Option String :=
  op.operation.condition.filter x.hasTableReferences

/-- The value for a column of the table. -/
def columnValue (x : Extraction ε) (op : Operation) (params : ε) (e : EventData ε)
    (column valueRef : String) : Option (String × SqlValue) :=
  (op.table.columns.find? fun c => c.name == column).bind fun c =>
    (x.extractValue valueRef params e.txMetadata c.columnType e.network).map (column, ·)

/-- The columns of a row: those of the where clause, then those that the operation sets. -/
def rowColumns (x : Extraction ε) (op : Operation) (params : ε) (e : EventData ε) :
    List (String × SqlValue) :=
  let whereColumns := op.operation.whereClause.filterMap fun w =>
    op.columnValue x params e w.1 w.2
  let setColumns := op.operation.set.filterMap fun s =>
    op.columnValue x params e s.column s.effectiveValue
  setColumns.reverse ++ whereColumns.reverse

/-- The row of one element of an iteration, if the condition holds of it and it has a column. -/
def elementRow (x : Extraction ε) (op : Operation) (e : EventData ε) (params : ε) :
    Except String (Option TableRowData) :=
  if (op.rustCondition x).any fun c => !x.evaluateFilter c params e.txMetadata then .ok none
  else
    let columns := op.rowColumns x params e
    if columns = [] then .ok none
    else if op.table.timestamp then
      match e.txMetadata.blockTimestamp.or
          (x.cachedBlockTimestamp e.network e.txMetadata.blockNumber) with
      | none => .error "block_timestamp unavailable"
      | some ts => .ok (some ⟨columns, e.network, e.txMetadata, some ts⟩)
    else .ok (some ⟨columns, e.network, e.txMetadata, none⟩)

/-- The rows of the elements of an iteration. -/
def elementRows (x : Extraction ε) (op : Operation) (e : EventData ε) :
    List ε → Except String (List TableRowData)
  | [] => .ok []
  | params :: elements =>
    match op.elementRow x e params with
    | .error m => .error m
    | .ok row =>
      match op.elementRows x e elements with
      | .error m => .error m
      | .ok rows => .ok (row.toList ++ rows)

/-- The rows of an event.  An iteration that fails gives none. -/
def eventRows (x : Extraction ε) (op : Operation) (e : EventData ε) :
    Except String (List TableRowData) :=
  op.elementRows x e ((x.expandIterateBindings op.mapping.iterate e.logParams).getD [])

/-- The rows of a batch. -/
def batchRows (x : Extraction ε) (op : Operation) (events : List (EventData ε)) :
    List TableRowData :=
  events.flatMap fun e => (op.eventRows x e).toOption.getD []

theorem mem_batchRows {x : Extraction ε} {op : Operation} {events : List (EventData ε)}
    {row : TableRowData} :
    row ∈ op.batchRows x events ↔
      ∃ e ∈ events, ∃ rows, op.eventRows x e = .ok rows ∧ row ∈ rows := by
  rw [batchRows, List.mem_flatMap]
  refine exists_congr fun e => and_congr_right fun _ => ?_
  cases h : op.eventRows x e with
  | error m => simp [Except.toOption]
  | ok rows => simp [Except.toOption]

theorem elementRow_origin {x : Extraction ε} {op : Operation} {e : EventData ε} {params : ε}
    {row : TableRowData} (h : op.elementRow x e params = .ok (some row)) :
    row.network = e.network ∧ row.txMetadata = e.txMetadata := by
  unfold elementRow at h
  split at h
  · cases h
  · dsimp only at h
    split at h
    · cases h
    · split at h
      · split at h
        · cases h
        · cases h
          exact ⟨rfl, rfl⟩
      · cases h
        exact ⟨rfl, rfl⟩

theorem elementRows_origin {x : Extraction ε} {op : Operation} {e : EventData ε}
    {elements : List ε} {rows : List TableRowData} (h : op.elementRows x e elements = .ok rows) :
    ∀ row ∈ rows, row.network = e.network ∧ row.txMetadata = e.txMetadata := by
  induction elements generalizing rows with
  | nil =>
    cases h
    simp
  | cons params elements ih =>
    rw [elementRows] at h
    cases hRow : op.elementRow x e params with
    | error m =>
      rw [hRow] at h
      cases h
    | ok row =>
      cases hRest : op.elementRows x e elements with
      | error m =>
        rw [hRow, hRest] at h
        cases h
      | ok rest =>
        rw [hRow, hRest] at h
        cases h
        intro r hMem
        rcases List.mem_append.mp hMem with hFirst | hLater
        · cases row with
          | none => cases hFirst
          | some row =>
            cases List.mem_singleton.mp hFirst
            exact elementRow_origin hRow
        · exact ih hRest r hLater

/-- The rows of an event carry its network and its metadata. -/
theorem eventRows_origin {x : Extraction ε} {op : Operation} {e : EventData ε}
    {rows : List TableRowData} (h : op.eventRows x e = .ok rows) :
    ∀ row ∈ rows, row.network = e.network ∧ row.txMetadata = e.txMetadata :=
  elementRows_origin h

end Operation

/-- The extraction for events whose parameters are the values of the expressions. -/
def Extraction.byName : Extraction (List (String × SqlValue)) where
  expandIterateBindings _ params := some [params]
  hasTableReferences _ := false
  evaluateFilter _ _ _ := true
  extractValue valueRef params _ _ _ := params.lookup valueRef
  cachedBlockTimestamp _ _ := none

end Rindexer.Tables
