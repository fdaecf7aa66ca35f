import Mathlib.Data.List.Dedup
import Mathlib.Tactic.Common
import Mathlib.Tactic.NormNum
import Rindexer.Lib.FirstSeen

/-! The part of the manifest that configures custom tables: their columns, the operations that events
trigger, what an operation does to the columns it sets, and when it is reversible. -/

namespace Rindexer.Manifest

open Rindexer.Lib

/-- What to do when setting a column value. -/
inductive SetAction
  | set
  | add
  | subtract
  | max
  | min
  | increment
  | decrement
deriving DecidableEq, Repr

namespace SetAction

def isCounterAction : SetAction → Bool
  | increment | decrement => true
  | _ => false

/-- The action that undoes this one in a rollback, if there is one. -/
def reverse : SetAction → Option SetAction
  | add => some subtract
  | subtract => some add
  | increment => some decrement
  | decrement => some increment
  | set | max | min => none

end SetAction

/-- A column that an operation sets, with an event field reference, an expression or a literal. -/
structure SetColumn where
  column : String
  action : SetAction
  value : Option String
deriving DecidableEq, Repr

def SetColumn.effectiveValue (s : SetColumn) : String :=
  match s.value with
  | some value => value
  | none => if s.action.isCounterAction then "1" else ""

inductive OperationType
  | upsert
  | insert
  | update
  | delete
deriving DecidableEq, Repr

structure TableOperation where
  operationType : OperationType
  /-- Columns to match, with the values to match them against.  The columns are distinct. -/
  whereClause : List (String × String)
  ifCondition : Option String
  filter : Option String
  set : List SetColumn
deriving DecidableEq, Repr

namespace TableOperation

def condition (op : TableOperation) : Option String := op.ifCondition.or op.filter

def whereColumns (op : TableOperation) : List String := op.whereClause.map Prod.fst

/-- The action of the first entry that sets a column. -/
def setAction? (op : TableOperation) (column : String) : Option SetAction :=
  (op.set.find? fun s => s.column == column).map SetColumn.action

end TableOperation

inductive ColumnType
  | uint8 | uint16 | uint32 | uint64 | uint128 | uint256
  | int8 | int16 | int32 | int64 | int128 | int256
  | address | bytes | bytes32 | string | bool | timestamp
  | array (inner : ColumnType)
deriving DecidableEq, Repr

structure TableColumn where
  name : String
  columnType : ColumnType
  nullable : Bool
  default : Option String
deriving DecidableEq, Repr

/-- An array field to run the operations over, and the name of its element. -/
structure IterateBinding where
  arrayField : String
  elementAlias : String
deriving DecidableEq, Repr

structure TableEventMapping where
  event : String
  iterate : List IterateBinding
  operations : List TableOperation
deriving DecidableEq, Repr

structure Table where
  name : String
  global : Bool
  crossChain : Bool
  columns : List TableColumn
  events : List TableEventMapping
  /-- The operations of the cron triggers. -/
  cronOperations : List TableOperation
  timestamp : Bool
deriving DecidableEq, Repr

namespace Table

def allOperations (t : Table) : List TableOperation :=
  t.events.flatMap TableEventMapping.operations ++ t.cronOperations

def isInsertOnly (t : Table) : Bool :=
  t.allOperations != [] && t.allOperations.all fun op => op.operationType == .insert

def primaryKeyColumns (t : Table) : List String :=
  firstSeen [] (t.allOperations.map TableOperation.whereColumns)

def isPrimaryKeyColumn (t : Table) (column : String) : Bool :=
  t.allOperations.any fun op => op.whereColumns.contains column

/-- The mapping that is used for an event: the first of its name. -/
def mapping? (t : Table) (event : String) : Option TableEventMapping :=
  t.events.find? fun m => m.event == event

theorem mem_primaryKeyColumns {t : Table} {column : String} :
    column ∈ t.primaryKeyColumns ↔ t.isPrimaryKeyColumn column = true := by
  simp [primaryKeyColumns, isPrimaryKeyColumn, mem_firstSeen]

theorem nodup_primaryKeyColumns (t : Table) : t.primaryKeyColumns.Nodup := nodup_firstSeen _

theorem primaryKeyColumns_eq_nil_iff {t : Table} :
    t.primaryKeyColumns = [] ↔ ∀ op ∈ t.allOperations, op.whereClause = [] := by
  simp only [primaryKeyColumns, firstSeen_eq_nil_iff, List.forall_mem_map, TableOperation.whereColumns,
    List.map_eq_nil_iff]

end Table

end Rindexer.Manifest
