import Rindexer.Manifest

/-! The statement that creates a custom table: its columns with their types, nullability and defaults,
and its primary key. -/

namespace Rindexer.Manifest

/-- `to_postgres_type`. -/
def ColumnType.toPostgresType : ColumnType → String
  | .uint8 | .int8 | .uint16 | .int16 => "SMALLINT"
  | .uint32 | .int32 => "INTEGER"
  | .uint64 | .int64 => "BIGINT"
  | .uint128 | .int128 | .uint256 | .int256 => "NUMERIC"
  | .address => "CHAR(42)"
  | .bytes | .bytes32 => "BYTEA"
  | .string => "TEXT"
  | .bool => "BOOLEAN"
  | .timestamp => "TIMESTAMPTZ"
  | .array inner => if inner = .address then "TEXT[]" else inner.toPostgresType ++ "[]"

end Rindexer.Manifest

namespace Rindexer.Database

open Rindexer.Manifest

/-- A column of a `CREATE TABLE`: its name, its type, whether it is `NOT NULL`, and the expression of
its default. -/
structure ColumnDdl where
  name : String
  type : String
  notNull : Bool
  default : Option String
deriving DecidableEq, Repr

structure CreateTable where
  columns : List ColumnDdl
  primaryKey : List String
deriving DecidableEq, Repr

namespace CreateTable

def columnNames (ddl : CreateTable) : List String := ddl.columns.map ColumnDdl.name

/-- Whether a column takes no null: it is `NOT NULL` or of the primary key. -/
def requires (ddl : CreateTable) (name : String) : Prop :=
  (∃ c ∈ ddl.columns, c.name = name ∧ c.notNull = true) ∨ name ∈ ddl.primaryKey

/-- The statement makes sense: no two columns of one name, a primary key of its columns, and defaults
that the server has a meaning for. -/
structure WellFormed (acceptsDefault : String → String → Bool) (ddl : CreateTable) : Prop where
  columns : ddl.columnNames.Nodup
  key_ne_nil : ddl.primaryKey ≠ []
  key_nodup : ddl.primaryKey.Nodup
  key_columns : ∀ name ∈ ddl.primaryKey, name ∈ ddl.columnNames
  defaults : ∀ c ∈ ddl.columns, ∀ text ∈ c.default, acceptsDefault c.type text = true

end CreateTable

/-- A text as a literal of SQL. -/
def sqlLiteral (text : String) : String :=
  let quote := Char.ofNat 39
  String.ofList (quote :: (text.toList.flatMap fun c => if c = quote then [quote, quote] else [c]) ++
    [quote])

/-- The expression of a default. -/
def defaultValue (columnType : ColumnType) (default : String) : String :=
  if columnType.toPostgresType ∈ ["NUMERIC", "BIGINT", "BOOLEAN"] then default
  else sqlLiteral default

def columnDdl (c : TableColumn) : ColumnDdl where
  name := c.name
  type := c.columnType.toPostgresType
  notNull := !c.nullable
  default := c.default.map (defaultValue c.columnType)

def networkDdl (t : Table) : List ColumnDdl :=
  if t.crossChain then [] else [⟨"network", "VARCHAR(50)", true, none⟩]

/-- The columns of the metadata, and the counter of an insert-only table. -/
def injectedDdl (t : Table) : List ColumnDdl :=
  [⟨"rindexer_block_number", "BIGINT", true, none⟩] ++
    (if t.timestamp then [⟨"rindexer_block_timestamp", "TIMESTAMPTZ", true, none⟩] else []) ++
    [⟨"rindexer_tx_hash", "CHAR(66)", true, none⟩,
      ⟨"rindexer_block_hash", "CHAR(66)", true, none⟩,
      ⟨"rindexer_contract_address", "CHAR(42)", true, none⟩,
      ⟨"rindexer_sequence_id", "NUMERIC", true, none⟩] ++
    (if t.isInsertOnly then [⟨"rindexer_id", "BIGSERIAL", false, none⟩] else [])

/-- The statement that `generate_tables_sql` has for a table. -/
def createTable (t : Table) : CreateTable where
  columns := networkDdl t ++ t.columns.map columnDdl ++ injectedDdl t
  primaryKey :=
    (if t.crossChain then [] else ["network"]) ++
      if t.isInsertOnly then ["rindexer_id"] else t.primaryKeyColumns

/-- The names of the injected columns. -/
def injectedNames (t : Table) : List String := (injectedDdl t).map ColumnDdl.name

theorem columnNames_createTable (t : Table) : (createTable t).columnNames =
    (networkDdl t).map ColumnDdl.name ++ t.columns.map TableColumn.name ++ injectedNames t := by
  simp only [CreateTable.columnNames, createTable, injectedNames, List.map_append, List.map_map,
    Function.comp_def, columnDdl]

/-- A column of the table takes no null if it is not nullable, or else if rows are told apart by it. -/
theorem requires_iff {t : Table} (hNames : (createTable t).columnNames.Nodup) {c : TableColumn}
    (hc : c ∈ t.columns) : (createTable t).requires c.name ↔
      c.nullable = false ∨ (t.isInsertOnly = false ∧ c.name ∈ t.primaryKeyColumns) := by
  rw [columnNames_createTable, List.nodup_append, List.nodup_append] at hNames
  obtain ⟨⟨-, hColumns, hNetwork⟩, -, hInjected⟩ := hNames
  have hName : c.name ∈ t.columns.map TableColumn.name := List.mem_map_of_mem hc
  have hNotNetwork : c.name ∉ (networkDdl t).map ColumnDdl.name := fun h => hNetwork _ h _ hName rfl
  have hNotInjected : c.name ∉ injectedNames t := fun h =>
    hInjected _ (List.mem_append_right _ hName) _ h rfl
  have hKeyNetwork : c.name ∉ if t.crossChain then [] else ["network"] := by
    intro h
    refine hNotNetwork ?_
    rw [networkDdl]
    split
    case isTrue hCross => simp [hCross] at h
    case isFalse hCross => simpa [hCross] using h
  constructor
  · rintro (⟨d, hd, hEq, hNotNull⟩ | hKey)
    · rcases List.mem_append.mp hd with hd | hd
      · rcases List.mem_append.mp hd with hd | hd
        · exact absurd (hEq ▸ List.mem_map_of_mem hd) hNotNetwork
        · obtain ⟨c', hc', rfl⟩ := List.mem_map.mp hd
          have hSame : c' = c := List.inj_on_of_nodup_map hColumns hc' hc hEq
          subst hSame
          left
          simpa [columnDdl] using hNotNull
      · exact absurd (hEq ▸ List.mem_map_of_mem hd) hNotInjected
    · rcases List.mem_append.mp hKey with hKey | hKey
      · exact absurd hKey hKeyNetwork
      · split at hKey
        case isTrue hOnly =>
          refine absurd ?_ hNotInjected
          rw [injectedNames, injectedDdl, if_pos hOnly, List.mem_singleton.mp hKey]
          simp
        case isFalse hOnly => exact Or.inr ⟨by simpa using hOnly, hKey⟩
  · rintro (hNullable | ⟨hOnly, hKey⟩)
    · refine Or.inl ⟨columnDdl c, ?_, rfl, by simp [columnDdl, hNullable]⟩
      exact List.mem_append_left _ (List.mem_append_right _ (List.mem_map_of_mem hc))
    · right
      rw [createTable, hOnly]
      exact List.mem_append_right _ hKey

end Rindexer.Database
