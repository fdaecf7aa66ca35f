import Mathlib.Logic.Function.Basic
import Rindexer.Chain
import Rindexer.Lib.OrderedMap

/-! The Postgres tables that indexing and reorg handling share: event tables, derived tables, the
operation journal, the cursors of `rindexer_internal`, and the persisted block hashes.  The columns
that the code addresses by a fixed name are fields; the others are a function of the name. -/

namespace Rindexer.Database

open Rindexer.Lib

inductive SqlType
  | numeric
  | bool
  | text
deriving DecidableEq, Repr

/-- A column value.  EVM numbers are whole, so a `NUMERIC` is an integer. -/
inductive SqlValue
  | null
  | bool (b : Bool)
  | num (n : Int)
  | text (s : String)
deriving DecidableEq, Repr

structure EventRow where
  network : String
  blockNumber : Nat
  txHash : String
  fields : String → SqlValue

def EventRow.column (row : EventRow) (name : String) : SqlValue :=
  if name = "network" then .text row.network
  else if name = "block_number" then .num row.blockNumber
  else if name = "tx_hash" then .text row.txHash
  else row.fields name

structure EventTable where
  columns : List (String × SqlType)
  rows : List EventRow

/-- A row of a derived table.  A `cross_chain` table has no network column. -/
structure DerivedRow where
  network : Option String
  blockNumber : Nat
  sequenceId : Nat
  fields : String → SqlValue

structure DerivedTable where
  columns : List (String × SqlType)
  rows : List DerivedRow

/-- A row of `rindexer_internal.derived_op_log`. -/
structure OpLogRow where
  derivedTable : String
  network : String
  whereKey : String
  columnName : String
  value : Int
  blockNumber : Nat
  txIndex : Nat
  logIndex : Nat
deriving DecidableEq, Repr

/-- A row of an event's cursor table in `rindexer_internal`. -/
structure CursorRow where
  network : String
  detailKey : String
  lastSyncedBlock : Nat
deriving DecidableEq, Repr

/-- The database: event tables and derived tables by full name, cursor tables by internal name, and
the rows of `reorg_block_hashes` by network and block number, their primary key. -/
@[ext] structure Db where
  events : String → EventTable
  derived : String → DerivedTable
  opLog : List OpLogRow
  cursors : String → List CursorRow
  blockHashes : String → OrderedMap Nat (B256 × B256)

def Db.empty : Db where
  events _ := ⟨[], []⟩
  derived _ := ⟨[], []⟩
  opLog := []
  cursors _ := []
  blockHashes _ := ∅

def Db.setDerived (db : Db) (name : String) (table : DerivedTable) : Db :=
  { db with derived := Function.update db.derived name table }

end Rindexer.Database
