import Rindexer.Indexer.Registration
import Rindexer.Lib.Decimal
import Rindexer.Lib.Joined
import Rindexer.Manifest.Validation

/-! The keys of the operation journal: the text that a row is journaled under, as a string literal of an
insert, and the text that a rollback builds from the stored row to find it again. -/

namespace Rindexer.Reorg.Journal

open Rindexer.Lib Rindexer.Database Rindexer.Manifest

/-! ### Values -/

inductive IntegerKind
  | u8 | u16 | u32 | u64 | u64BigInt | u128 | u256
  | i8 | i16 | i32 | i64 | i128 | i256
deriving DecidableEq, Repr

/-- A value on its way to a column.  One of the kinds without a format of their own is given by its
debug text. -/
inductive EthereumSqlTypeWrapper
  | string (s : String)
  | address (bytes : List UInt8)
  | bool (b : Bool)
  | integer (kind : IntegerKind) (n : Int)
  | bytes (bytes : List UInt8)
  | other (debug : String)
deriving DecidableEq, Repr

/-- `str::replace` of the quotes. -/
def replaceQuotes (replacement : List Char) (s : List Char) : List Char :=
  s.flatMap fun c => if c = '\'' then replacement else [c]

def hexEncode (bytes : List UInt8) : List Char :=
  bytes.flatMap fun b => [Nat.digitChar (b.toNat / 16), Nat.digitChar (b.toNat % 16)]

def quoted (s : List Char) : List Char := '\'' :: (s ++ ['\''])

def formatWrapperForSql : EthereumSqlTypeWrapper → List Char
  | .string s => quoted (replaceQuotes ['\'', '\''] s.toList)
  | .address bytes => quoted ('0' :: 'x' :: hexEncode bytes)
  | .bool b => (toString b).toList
  | .integer _ n => (toString n).toList
  | .bytes bytes => quoted ('\\' :: 'x' :: hexEncode bytes)
  | .other debug => quoted debug.toList

/-! ### The writer -/

structure TableRowData where
  columns : List (String × EthereumSqlTypeWrapper)
  network : String
deriving DecidableEq, Repr

namespace TableRowData

def get (row : TableRowData) (column : String) : Option EthereumSqlTypeWrapper :=
  row.columns.lookup column

/-- An index of the transaction or the log, 0 where the row has none. -/
def index (row : TableRowData) (column : String) : Int :=
  match row.get column with
  | some (.integer .u64 n) | some (.integer .u64BigInt n) | some (.integer .u32 n) => n
  | _ => 0

def extractRowMetadata (row : TableRowData) : Option (Int × Int × Int) :=
  match row.get "rindexer_block_number" with
  | some (.integer .u64BigInt n) => some (n, row.index "tx_index", row.index "log_index")
  | _ => none

end TableRowData

/-- The values of an insert into the journal.  `whereKey` is what stands between the quotes. -/
structure JournalValues where
  derivedTable : String
  network : String
  whereKey : List Char
  column : String
  value : List Char
  blockNumber : Int
  txIndex : Int
  logIndex : Int
deriving DecidableEq, Repr

def nonReversible (operation : TableOperation) : List SetColumn :=
  operation.set.filter fun sc => sc.action.reverse.isNone

/-- A column of the key, with the text of its value. -/
def whereClause (column : String) (text : List Char) : List Char := column.toList ++ '=' :: text

def whereClauses (operation : TableOperation) (row : TableRowData) : List (List Char) :=
  (Table.sortedWhere operation).filterMap fun column =>
    (row.get column).map fun v => whereClause column (formatWrapperForSql v)

def collectJournalValues (derivedTable : String) (operation : TableOperation)
    (rows : List TableRowData) (escapeQuote : List Char) : List JournalValues :=
  if nonReversible operation = [] ∨ rows = [] then []
  else
    rows.flatMap fun row =>
      match row.extractRowMetadata with
      | none => []
      | some (blockNumber, txIndex, logIndex) =>
        if whereClauses operation row = [] then []
        else
          (nonReversible operation).filterMap fun sc =>
            (row.get sc.column).map fun v =>
              ⟨derivedTable, row.network,
                replaceQuotes escapeQuote (joinWith ',' (whereClauses operation row)), sc.column,
                formatWrapperForSql v, blockNumber, txIndex, logIndex⟩

/-! ### Servers -/

/-- A value whose text does not start with a quote. -/
def Unquoted (value : SqlValue) : Prop :=
  ∀ text, SqlValue.toText value = some text → text.toList.head? ≠ some '\''

theorem unquoted_text {c : Char} (h : c ≠ '\'') (rest : List Char) :
    Unquoted (.text (String.ofList (c :: rest))) := by
  intro text hText
  obtain rfl := Option.some.inj hText
  rw [String.toList_ofList, List.head?_cons]
  exact fun hEq => h (Option.some.inj hEq)

/-- What a database makes of the texts and values that the code sends: the column that an unquoted name
means, the number that a column holds for an integer, what it holds for each value, and what a string
literal denotes.  A quote is escaped; of what a backslash begins nothing is said. -/
structure Server where
  fold : String → String
  column : IntegerKind → Int → Int
  store : EthereumSqlTypeWrapper → SqlValue
  escapeQuote : List Char
  read : List Char → Option (List Char)
  store_string : ∀ s, store (.string s) = .text s
  store_bool : ∀ b, store (.bool b) = .bool b
  store_integer : ∀ kind n, store (.integer kind n) = .num (column kind n)
  store_address : ∀ bytes, Unquoted (store (.address bytes))
  store_bytes : ∀ bytes, Unquoted (store (.bytes bytes))
  store_other : ∀ debug, Unquoted (store (.other debug))
  read_nil : read [] = some []
  read_cons : ∀ c rest, c ≠ '\'' → c ≠ '\\' → read (c :: rest) = (read rest).map (c :: ·)
  read_quote : ∀ rest, read (escapeQuote ++ rest) = (read rest).map ('\'' :: ·)

/-- What a Postgres column holds for an integer: the unsigned ones are cast to the signed type of their
width, so that large ones wrap. -/
def postgresColumn : IntegerKind → Int → Int
  | .u16, n => n.bmod (2 ^ 16)
  | .u32, n => n.bmod (2 ^ 32)
  | .u64BigInt, n => n.bmod (2 ^ 64)
  | _, n => n

/-- A string literal of Postgres. -/
def readPostgres : List Char → Option (List Char)
  | [] => some []
  | '\'' :: '\'' :: rest => (readPostgres rest).map ('\'' :: ·)
  | c :: rest => if c = '\'' then none else (readPostgres rest).map (c :: ·)

theorem readPostgres_cons {c : Char} (h : c ≠ '\'') (rest : List Char) :
    readPostgres (c :: rest) = (readPostgres rest).map (c :: ·) := by
  rw [readPostgres]
  · exact if_neg h
  · intro rest' hQuote
    exact absurd hQuote h

/-- Postgres, given what its columns hold for the values without a format of their own. -/
def Server.postgres (other : String → SqlValue) (hOther : ∀ debug, Unquoted (other debug)) : Server where
  fold := foldCase
  column := postgresColumn
  store
    | .string s => .text s
    | .address bytes => .text (String.ofList ('0' :: 'x' :: hexEncode bytes))
    | .bool b => .bool b
    | .integer kind n => .num (postgresColumn kind n)
    | .bytes bytes => .text (String.ofList ('\\' :: 'x' :: hexEncode bytes))
    | .other debug => other debug
  escapeQuote := ['\'', '\'']
  read := readPostgres
  store_string _ := rfl
  store_bool _ := rfl
  store_integer _ _ := rfl
  store_address bytes := unquoted_text (by decide) ('x' :: hexEncode bytes)
  store_bytes bytes := unquoted_text (by decide) ('x' :: hexEncode bytes)
  store_other := hOther
  read_nil := rfl
  read_cons _ rest h _ := readPostgres_cons h rest
  read_quote _ := rfl

/-- ClickHouse, given what it reads where a literal has a backslash, and what its columns hold for the
values without a format of their own.  Addresses are stored in their mixed-case form. -/
def Server.clickhouse (checksum : List UInt8 → List Char) (other : String → SqlValue)
    (hOther : ∀ debug, Unquoted (other debug)) (read : List Char → Option (List Char))
    (hNil : read [] = some [])
    (hCons : ∀ c rest, c ≠ '\'' → c ≠ '\\' → read (c :: rest) = (read rest).map (c :: ·))
    (hQuote : ∀ rest, read ('\\' :: '\'' :: rest) = (read rest).map ('\'' :: ·)) : Server where
  fold name := name
  column _ n := n
  store
    | .string s => .text s
    | .address bytes => .text (String.ofList ('0' :: 'x' :: checksum bytes))
    | .bool b => .bool b
    | .integer _ n => .num n
    | .bytes bytes => .text (String.ofList ('0' :: 'x' :: hexEncode bytes))
    | .other debug => other debug
  escapeQuote := ['\\', '\'']
  read := read
  store_string _ := rfl
  store_bool _ := rfl
  store_integer _ _ := rfl
  store_address bytes := unquoted_text (by decide) ('x' :: checksum bytes)
  store_bytes bytes := unquoted_text (by decide) ('x' :: hexEncode bytes)
  store_other := hOther
  read_nil := hNil
  read_cons := hCons
  read_quote := hQuote

/-! ### The reader -/

/-- The key that a rollback builds from a stored row: `journal_where_key_join` with the casts of Postgres
and `journal_where_key_concat_ch` with those of ClickHouse.  A statement that names a column the
table does not have is refused. -/
def rebuiltKey (server : Server) (columns : List String) (jc : DerivedColumnJournal)
    (row : DerivedRow) : Option (List Char) :=
  match jc.whereColumns with
  | [] => row.network.map String.toList
  | whereColumns =>
    if ∀ c ∈ whereColumns, server.fold c ∈ columns then
      (whereColumns.mapM fun c =>
        (SqlValue.toText (row.fields (server.fold c))).map fun text => whereClause c text.toList).map
          (joinWith ',')
    else none

/-- The keys that the journal holds for a row and a column, as the server reads the literals. -/
def storedKeys (server : Server) (derivedTable : String) (operation : TableOperation) (column : String)
    (row : TableRowData) : List (Option (List Char)) :=
  ((collectJournalValues derivedTable operation [row] server.escapeQuote).filter fun values =>
    values.column = column).map fun values => server.read values.whereKey

/-! ### What is written and registered -/

/-- A name that is safe in SQL without quotes. -/
def validateSqlIdentifier (name : String) : Bool :=
  match name.toList with
  | [] => false
  | first :: rest =>
    (first.isAlpha || first == '_') && (first :: rest).all fun c => c.isAlphanum || c == '_'

/-- A row that an operation writes, and what the table holds for it. -/
structure WrittenRow where
  operation : TableOperation
  row : TableRowData
  stored : DerivedRow

/-- A column of a table that is registered for the journal, by the first operation that sets it. -/
structure Registered (naming : Indexer.Protection.Naming) (t : Table) (first : TableOperation)
    (jc : DerivedColumnJournal) : Prop where
  accepted : t.validateWhereColumns = .ok ()
  operation : first ∈ t.allOperations ∧ first.operationType ≠ .insert
  journaled : jc ∈ Indexer.Protection.journalColumns naming first
  identifiers : ∀ c ∈ jc.whereColumns, validateSqlIdentifier c = true

/-- The row is one of an operation of the table that sets the column: it has a block, a value for the
column and one for each column of the `where` clause, which the table has, and its network has passed
the check of its name. -/
structure Written (server : Server) (t : Table) (columns : List String) (jc : DerivedColumnJournal)
    (p : WrittenRow) : Prop where
  operation : p.operation ∈ t.allOperations
  metadata : p.row.extractRowMetadata.isSome = true
  sets : ∃ sc ∈ nonReversible p.operation, sc.column = jc.derivedColumn
  value : (p.row.get jc.derivedColumn).isSome = true
  keys : ∀ c ∈ p.operation.whereColumns,
    c ∈ columns ∧ ∃ v, p.row.get c = some v ∧ p.stored.fields c = server.store v
  network : ∀ network ∈ p.stored.network, validateSqlValue network = true

/-- The keys of a journaled column agree with the table: each row is journaled under the key that is
built from it, and rows with different values in the key under different ones. -/
structure KeysAgree (server : Server) (columns : List String) (derivedTable : String)
    (jc : DerivedColumnJournal) (rows : List WrittenRow) : Prop where
  rebuilt : ∀ p ∈ rows, storedKeys server derivedTable p.operation jc.derivedColumn p.row ≠ [] ∧
    ∀ k ∈ storedKeys server derivedTable p.operation jc.derivedColumn p.row,
      ∃ key, k = some key ∧ rebuiltKey server columns jc p.stored = some key
  distinct : ∀ p ∈ rows, ∀ p' ∈ rows,
    (∃ c ∈ p.operation.whereColumns, p.stored.fields c ≠ p'.stored.fields c) →
      ∀ k ∈ storedKeys server derivedTable p.operation jc.derivedColumn p.row,
        ∀ k' ∈ storedKeys server derivedTable p'.operation jc.derivedColumn p'.row, k ≠ k'

end Rindexer.Reorg.Journal
