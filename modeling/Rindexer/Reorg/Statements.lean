import Rindexer.Database.Rollback
import Rindexer.Manifest
import Rindexer.Reorg.Window

/-! Reorg tasks, and what the statements on derived tables do on Postgres: the snapshots of event
aggregates, the reversal from them, and the recalculation from the operation journal. -/

namespace Rindexer.Reorg

open Rindexer.Lib Rindexer.Database Rindexer.Manifest

/-! ### Tasks -/

structure EventTableInfo where
  schema : String
  tableName : String
  /-- Name of the cursor table in `rindexer_internal`. -/
  checkpointTable : String

def EventTableInfo.fullName (t : EventTableInfo) : String := t.schema ++ "." ++ t.tableName

/-- How to reverse one column's accumulation. -/
structure DerivedColumnRollback where
  derivedColumn : String
  eventColumn : String
  /-- The forward action that was applied. -/
  action : SetAction

/-- Links a source event table to the derived table for reversal. -/
structure DerivedTableRollbackOp where
  eventTable : String
  /-- Pairs of a derived table column and an event table column. -/
  whereColumns : List (String × String)
  columns : List DerivedColumnRollback
  condition : Option String

/-- A column that the operation journal recalculates. -/
structure DerivedColumnJournal where
  derivedColumn : String
  action : SetAction
  whereColumns : List String

structure DerivedTableInfo where
  fullTableName : String
  crossChain : Bool
  rollbackOps : List DerivedTableRollbackOp
  journalColumns : List DerivedColumnJournal

structure ReorgTask where
  network : String
  forkPoint : Nat
  detectionPoint : Nat
  eventTables : List EventTableInfo
  derivedTables : List DerivedTableInfo
  /-- Canonical blocks that the fork search has fetched already. -/
  canonicalBlocks : List Header

/-- A string that is safe as an SQL string literal. -/
def validateSqlValue (value : String) : Bool :=
  value != "" && value.toList.all fun c => c.isAlphanum || c == '_' || c == '-'

/-! ### The server -/

/-- What Postgres decides and the code leaves open: what a raw condition means on a table with
certain columns, if it is valid there; which words an unquoted identifier may not be; and the order
in which a query scans the journal, which decides ties. -/
structure Postgres where
  condition : String → List (String × SqlType) → Option (EventRow → Bool)
  reserved : String → Bool
  scan : List OpLogRow → List OpLogRow
  scan_perm : ∀ rows, (scan rows).Perm rows

/-- A server without valid conditions or reserved words, which scans the journal as it is stored. -/
def Postgres.plain : Postgres where
  condition _ _ := none
  reserved _ := false
  scan := id
  scan_perm _ := .refl _

/-- A temp table with the event aggregates to reverse: the types of its keys, and a row per key with
one aggregate per reversible column. -/
structure Snapshot where
  keyTypes : List SqlType
  rows : List (List SqlValue × List SqlValue)

/-- The type of an event table's column. -/
def columnType (table : EventTable) (name : String) : Option SqlType :=
  if name = "network" then some .text
  else if name = "block_number" then some .numeric
  else if name = "tx_hash" then some .text
  else table.columns.lookup name

/-! ### Snapshots -/

def DerivedTableRollbackOp.reversible (op : DerivedTableRollbackOp) : List DerivedColumnRollback :=
  op.columns.filter fun c => c.action.reverse.isSome

/-- `SUM` of a column: nulls do not count, and no value at all makes a null. -/
def sqlSum (values : List SqlValue) : SqlValue :=
  let numbers := values.filterMap fun v => match v with
    | .num n => some n
    | _ => none
  if numbers = [] then .null else .num numbers.sum

def aggregate (column : DerivedColumnRollback) (rows : List EventRow) : SqlValue :=
  if column.action.isCounterAction then .num rows.length
  else sqlSum (rows.map fun r => r.column column.eventColumn)

/-- The filter of a statement to a network, which a `cross_chain` table drops. -/
def networkFilter (crossChain : Bool) (network rowNetwork : String) : Bool :=
  crossChain || rowNetwork == network

namespace ReorgTask

/-- The event rows that the `WHERE` clause of a snapshot selects. -/
def snapshotRows (task : ReorgTask) (crossChain : Bool) (test : EventRow → Bool)
    (table : EventTable) : List EventRow :=
  table.rows.filter fun r =>
    task.forkPoint ≤ r.blockNumber && r.blockNumber ≤ task.detectionPoint &&
      networkFilter crossChain task.network r.network && test r

/-- `GROUP BY` the event columns of the where clause. -/
def groupRows (op : DerivedTableRollbackOp) (rows : List EventRow) :
    List (List SqlValue × List SqlValue) :=
  let keyOf := fun r : EventRow => op.whereColumns.map fun c => r.column c.2
  (rows.map keyOf).dedup.map fun key =>
    (key, op.reversible.map fun c => aggregate c (rows.filter fun r => keyOf r = key))

/-- The `SELECT` of a snapshot.  It is no valid SQL without a column to group by, with a column that
the event table lacks, or with a `SUM` over a column that is not numeric; and a temp table has no
two columns of one name. -/
def selectSnapshot (pg : Postgres) (task : ReorgTask) (crossChain : Bool)
    (op : DerivedTableRollbackOp) (table : EventTable) : Except String Snapshot :=
  if op.whereColumns = [] then .error "syntax error at or near \",\""
  else if ¬(op.whereColumns.map Prod.snd).Nodup then .error "column specified more than once"
  else if op.reversible.any fun c =>
      !c.action.isCounterAction && columnType table c.eventColumn != some .numeric then
    .error "function sum does not exist"
  else
    match op.whereColumns.mapM fun c => columnType table c.2 with
    | none => .error "column does not exist"
    | some keyTypes =>
      match op.condition with
      | none =>
        .ok ⟨keyTypes, groupRows op (task.snapshotRows crossChain (fun _ => true) table)⟩
      | some condition =>
        match pg.condition condition table.columns with
        | none => .error "invalid condition"
        | some test => .ok ⟨keyTypes, groupRows op (task.snapshotRows crossChain test table)⟩

end ReorgTask

/-! ### Reversal -/

/-- `value - agg` or `value + agg`, as the reversed action has it. -/
def reverseValue (action : SetAction) (value agg : SqlValue) : SqlValue :=
  match value, agg with
  | .num v, .num a =>
    match action with
    | .add | .increment => .num (v - a)
    | _ => .num (v + a)
  | _, _ => .null

/-- The `SET` list of a reversal on one row. -/
def reverseRow (columns : List DerivedColumnRollback) (aggs : List SqlValue) (row : DerivedRow) :
    DerivedRow :=
  { row with
    fields := (columns.zip aggs).foldl (fun fields e =>
      Function.update fields e.1.derivedColumn
        (reverseValue e.1.action (row.fields e.1.derivedColumn) e.2)) row.fields }

/-- Whether a row of the derived table joins a row of the snapshot.  A null joins nothing. -/
def joins (whereColumns : List (String × String)) (row : DerivedRow) (key : List SqlValue) : Bool :=
  (whereColumns.zip key).all fun e => e.2 != .null && row.fields e.1.1 == e.2

def rowNetworkFilter (crossChain : Bool) (network : String) (row : DerivedRow) : Bool :=
  crossChain || row.network == some network

/-- `UPDATE … FROM` the snapshot: a row of the derived table is changed by the snapshot row that it
joins, if any. -/
def reverseTable (task : ReorgTask) (dt : DerivedTableInfo) (op : DerivedTableRollbackOp)
    (snapshot : Snapshot) (table : DerivedTable) : Except String DerivedTable :=
  if (op.whereColumns.zip snapshot.keyTypes).any fun e => table.columns.lookup e.1.1 != some e.2 then
    .error "operator does not exist"
  else if op.reversible.any fun c => table.columns.lookup c.derivedColumn != some .numeric then
    .error "operator does not exist"
  else if ¬(op.reversible.map DerivedColumnRollback.derivedColumn).Nodup then
    .error "multiple assignments to same column"
  else
    .ok { table with
      rows := table.rows.map fun row =>
        if rowNetworkFilter dt.crossChain task.network row then
          match snapshot.rows.find? fun e => joins op.whereColumns row e.1 with
          | some e => reverseRow op.reversible e.2 row
          | none => row
        else row }

/-! ### The journal -/

/-- The text of a value, as a cast to `TEXT` prints it. -/
def SqlValue.toText : SqlValue → Option String
  | .null => none
  | .bool b => some (toString b)
  | .num n => some (toString n)
  | .text s => some s

/-- Whether `a` is later than `b`: by block, then transaction index, then log index. -/
def OpLogRow.later (a b : OpLogRow) : Bool :=
  b.blockNumber < a.blockNumber || a.blockNumber == b.blockNumber &&
    (b.txIndex < a.txIndex || a.txIndex == b.txIndex && b.logIndex < a.logIndex)

/-- The first row of the latest rows. -/
def latest : List OpLogRow → Option OpLogRow
  | [] => none
  | r :: rows =>
    match latest rows with
    | none => some r
    | some best => if OpLogRow.later best r then some best else some r

/-- The value that the journal gives a column from the rows under one key. -/
def journalValue (pg : Postgres) (action : SetAction) (rows : List OpLogRow) : Option Int :=
  match action with
  | .set => (latest (pg.scan rows)).map OpLogRow.value
  | .max => (rows.map OpLogRow.value).max?
  | .min => (rows.map OpLogRow.value).min?
  | _ => none

/-- The column that an unquoted name of a statement means: Postgres folds it to lower case. -/
def foldCase (name : String) : String := String.ofList (name.toList.map Char.toLower)

/-- The key that `journal_where_key_join` rebuilds from a row of the derived table: its columns as
`col1=val1,col2=val2`, or its network where there are none. -/
def journalWhereKey (whereColumns : List String) (row : DerivedRow) : Option String :=
  match whereColumns with
  | [] => row.network
  | _ => (whereColumns.mapM fun c =>
      (SqlValue.toText (row.fields (foldCase c))).map fun v => c ++ "=" ++ v).map
        (",".intercalate ·)

/-- A numeric value as it is assigned to a column of the type. -/
def assignNumeric (type : SqlType) (value : Int) : Option SqlValue :=
  match type with
  | .numeric => some (.num value)
  | .text => some (.text (toString value))
  | .bool => none

namespace ReorgTask

/-- The journal rows that a statement about one column reads. -/
def journalRows (task : ReorgTask) (dt : DerivedTableInfo) (column : String)
    (opLog : List OpLogRow) : List OpLogRow :=
  opLog.filter fun r => r.derivedTable == dt.fullTableName && r.columnName == column &&
    networkFilter dt.crossChain task.network r.network

/-- The delete of the journal entries from the fork point on. -/
def deleteJournal (task : ReorgTask) (dt : DerivedTableInfo) (opLog : List OpLogRow) :
    List OpLogRow :=
  opLog.filter fun r => !(r.derivedTable == dt.fullTableName && task.forkPoint ≤ r.blockNumber &&
    networkFilter dt.crossChain task.network r.network)

/-- The recalculation of one column.  Its names are not quoted, so a column has to be in lower case,
and the column set may be no reserved word. -/
def recalculate (pg : Postgres) (task : ReorgTask) (dt : DerivedTableInfo)
    (jc : DerivedColumnJournal) (opLog : List OpLogRow) (table : DerivedTable) :
    Except String DerivedTable :=
  if jc.action.reverse.isSome then .ok table
  else if pg.reserved jc.derivedColumn then .error "syntax error"
  else if jc.whereColumns.any fun c => (table.columns.lookup (foldCase c)).isNone then
    .error "column does not exist"
  else if jc.whereColumns = [] ∧ dt.crossChain then .error "column dt.network does not exist"
  else
    let target := foldCase jc.derivedColumn
    match table.columns.lookup target with
    | none => .error "column does not exist"
    | some .bool => .error "column is of type boolean but expression is of type numeric"
    | some type =>
      let journal := task.journalRows dt jc.derivedColumn opLog
      .ok { table with
        rows := table.rows.map fun row =>
          if rowNetworkFilter dt.crossChain task.network row then
            match journalWhereKey jc.whereColumns row with
            | none => row
            | some key =>
              match journalValue pg jc.action (journal.filter fun r => r.whereKey == key) with
              | none => row
              | some value =>
                { row with fields :=
                    Function.update row.fields target ((assignNumeric type value).getD .null) }
          else row }

/-- The delete on an insert-only table. -/
def deleteDerived (task : ReorgTask) (dt : DerivedTableInfo) (table : DerivedTable) :
    DerivedTable :=
  { table with
    rows := table.rows.filter fun row =>
      !(task.forkPoint ≤ row.blockNumber && rowNetworkFilter dt.crossChain task.network row) }

end ReorgTask

end Rindexer.Reorg
