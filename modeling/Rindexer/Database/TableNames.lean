import Rindexer.Database.Names

/-! The internal tables of a project: the cursor table of each event and the table of each factory, as
they are named where they are created, read, advanced and rewound. -/

namespace Rindexer.Database

open Rindexer.Lib

/-- `keccak256` of a text, written in hexadecimal. -/
structure Keccak where
  hex : List Char → List Char
  hex_length : ∀ text, (hex text).length = 64
  hex_digits : ∀ text, ∀ c ∈ hex text, c ∈ "0123456789abcdef".toList

theorem Keccak.hashPrefix_length (keccak : Keccak) (text : List Char) :
    ((keccak.hex text).take 10).length = 10 := by
  rw [List.length_take, keccak.hex_length]
  rfl

theorem Keccak.hashPrefix_utf8Len (keccak : Keccak) (text : List Char) :
    utf8Len ((keccak.hex text).take 10) = 10 := by
  rw [utf8Len_eq_length, keccak.hashPrefix_length]
  have hDigits : ∀ c ∈ "0123456789abcdef".toList, c.utf8Size = 1 := by decide
  exact fun c hc => hDigits c (keccak.hex_digits text c (List.mem_of_mem_take hc))

/-- The first `n` bytes, unless they end inside a character. -/
def takeBytes : Nat → List Char → Option (List Char)
  | 0, _ => some []
  | _ + 1, [] => none
  | n + 1, c :: s =>
    if c.utf8Size ≤ n + 1 then (takeBytes (n + 1 - c.utf8Size) s).map (c :: ·) else none

theorem takeBytes_eq_some_iff {n : Nat} {s taken : List Char} :
    takeBytes n s = some taken ↔ taken <+: s ∧ utf8Len taken = n := by
  induction s generalizing n taken with
  | nil =>
    cases n with
    | zero =>
      simp only [takeBytes, Option.some.injEq, List.prefix_nil]
      constructor
      · rintro rfl
        exact ⟨rfl, rfl⟩
      · rintro ⟨rfl, -⟩
        rfl
    | succ n =>
      simp only [takeBytes, List.prefix_nil, reduceCtorEq, false_iff, not_and]
      rintro rfl
      simp
  | cons c s ih =>
    cases n with
    | zero =>
      simp only [takeBytes, Option.some.injEq]
      constructor
      · rintro rfl
        exact ⟨List.nil_prefix, rfl⟩
      · rintro ⟨-, hLen⟩
        have hLength := length_le_utf8Len taken
        exact (List.eq_nil_of_length_eq_zero (by omega)).symm
    | succ n =>
      have hPos := c.utf8Size_pos
      simp only [takeBytes]
      cases taken with
      | nil =>
        split <;> simp
      | cons d taken =>
        split
        next hFits =>
          rw [Option.map_eq_some_iff, List.cons_prefix_cons, utf8Len_cons]
          constructor
          · rintro ⟨rest, hRest, hEq⟩
            obtain ⟨rfl, rfl⟩ := List.cons.inj hEq
            obtain ⟨hPrefix, hLen⟩ := ih.mp hRest
            exact ⟨⟨rfl, hPrefix⟩, by omega⟩
          · rintro ⟨⟨rfl, hPrefix⟩, hLen⟩
            exact ⟨taken, ih.mpr ⟨hPrefix, by omega⟩, rfl⟩
        next hLong =>
          simp only [reduceCtorEq, List.cons_prefix_cons, utf8Len_cons, false_iff, not_and]
          rintro ⟨rfl, -⟩
          omega

section Names

variable (classes : UnicodeClasses) (keccak : Keccak)

/-- Names of more than 63 bytes keep 52 of them and end in a part of their hash. -/
def compactTableNameIfNeeded (tableName : List Char) : Option (List Char) :=
  if 63 < utf8Len tableName then
    (takeBytes (63 - 11) tableName).map (· ++ '_' :: (keccak.hex tableName).take 10)
  else some tableName

def generateIndexerContractSchemaName (indexerName contractName : List Char) :
    Option (List Char) :=
  (camelToSnake classes indexerName).bind fun indexer =>
    (camelToSnake classes contractName).map fun contract => indexer ++ '_' :: contract

def generateInternalEventTableNameNoShorten (schemaName eventName : List Char) :
    Option (List Char) :=
  (camelToSnake classes eventName).map fun event => schemaName ++ '_' :: event

def generateInternalEventTableName (schemaName eventName : List Char) : Option (List Char) :=
  (generateInternalEventTableNameNoShorten classes schemaName eventName).bind
    (compactTableNameIfNeeded keccak)

structure GenerateInternalFactoryEventTableNameParams where
  indexerName : List Char
  contractName : List Char
  eventName : List Char
  inputNames : List (List Char)
deriving DecidableEq, Repr

/-- The name of a factory's table, its inputs joined with `separator`. -/
def factoryTableName (separator : Char) (params : GenerateInternalFactoryEventTableNameParams) :
    Option (List Char) :=
  (generateIndexerContractSchemaName classes params.indexerName params.contractName).bind
    fun schema =>
      (camelToSnake classes params.eventName).bind fun event =>
        (params.inputNames.mapM (camelToSnake classes)).map fun inputs =>
          schema ++ '_' :: event ++ '_' :: joinWith separator inputs

def generateInternalFactoryEventTableName (params : GenerateInternalFactoryEventTableNameParams) :
    Option (List Char) :=
  (factoryTableName classes '-' params).bind (compactTableNameIfNeeded keccak)

def generateInternalFactoryEventTableNameNoShorten
    (params : GenerateInternalFactoryEventTableNameParams) : Option (List Char) :=
  factoryTableName classes '_' params

end Names

/-! ### The places that name a table -/

inductive Backend
  | postgres
  | clickhouse
deriving DecidableEq, Repr

/-- A contract of the manifest. -/
structure ContractName where
  name : List Char
  isFilter : Bool
deriving DecidableEq, Repr

/-- The name under which the tables of a contract are created. -/
def ContractName.beforeModifyNameIfFilterReadonly (contract : ContractName) : List Char :=
  if contract.isFilter then contract.name ++ "Filter".toList else contract.name

/-- The contract as it is registered for indexing. -/
def ContractName.identifyAndModifyFilter (contract : ContractName) : ContractName :=
  if contract.isFilter then { contract with name := contract.name ++ "Filter".toList } else contract

theorem ContractName.registered_name (contract : ContractName) :
    contract.identifyAndModifyFilter.name = contract.beforeModifyNameIfFilterReadonly := by
  rw [identifyAndModifyFilter, beforeModifyNameIfFilterReadonly]
  split <;> rfl

/-- An event of a project. -/
structure ProjectEvent where
  contract : ContractName
  eventName : List Char
deriving DecidableEq, Repr

section Places

variable (classes : UnicodeClasses) (keccak : Keccak) (backend : Backend) (indexerName : List Char)

/-- `generate_internal_event_table_sql` and `generate_internal_event_table_clickhouse`. -/
def createdCursorTable (event : ProjectEvent) : Option (List Char) :=
  (generateIndexerContractSchemaName classes indexerName
    event.contract.beforeModifyNameIfFilterReadonly).bind fun schema =>
      match backend with
      | .postgres => generateInternalEventTableName classes keccak schema event.eventName
      | .clickhouse => (camelToSnake classes event.eventName).map fun name => schema ++ '_' :: name

/-- `get_last_synced_block_number`. -/
def readCursorTable (event : ProjectEvent) : Option (List Char) :=
  (generateIndexerContractSchemaName classes indexerName
    event.contract.identifyAndModifyFilter.name).bind fun schema =>
      match backend with
      | .postgres => generateInternalEventTableName classes keccak schema event.eventName
      | .clickhouse => generateInternalEventTableNameNoShorten classes schema event.eventName

/-- `update_progress_and_last_synced_task`, and on Postgres the bulk insert with its cursor and the
checkpoints of the tables. -/
def advancedCursorTable (event : ProjectEvent) : Option (List Char) :=
  (generateIndexerContractSchemaName classes indexerName
    event.contract.identifyAndModifyFilter.name).bind fun schema =>
      match backend with
      | .postgres => generateInternalEventTableName classes keccak schema event.eventName
      | .clickhouse => generateInternalEventTableNameNoShorten classes schema event.eventName

/-- The checkpoint table that `start` registers for rollbacks, the same for both backends. -/
def rewoundCursorTable (event : ProjectEvent) : Option (List Char) :=
  (generateIndexerContractSchemaName classes indexerName
    event.contract.identifyAndModifyFilter.name).bind fun schema =>
      generateInternalEventTableName classes keccak schema event.eventName

/-- The table of a factory, where it is created. -/
def createdFactoryTable (params : GenerateInternalFactoryEventTableNameParams) :
    Option (List Char) :=
  match backend with
  | .postgres => generateInternalFactoryEventTableName classes keccak params
  | .clickhouse => generateInternalFactoryEventTableNameNoShorten classes params

/-- The table of a factory in `update_known_factory_deployed_addresses` and
`get_known_factory_deployed_addresses`. -/
def knownFactoryTable (params : GenerateInternalFactoryEventTableNameParams) : Option (List Char) :=
  match backend with
  | .postgres => generateInternalFactoryEventTableName classes keccak params
  | .clickhouse => generateInternalFactoryEventTableNameNoShorten classes params

end Places

end Rindexer.Database
