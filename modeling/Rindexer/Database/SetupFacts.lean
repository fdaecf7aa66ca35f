import Rindexer.Database.Setup

/-! Facts about the setup: what kinds of statements its batches have, that they are never refused, and
that every table of a contract is dropped. -/

namespace Rindexer.Database

open Rindexer.Manifest

section Facts

variable (classes : UnicodeClasses) (keccak : Keccak) (m : Indexer)

/-- Whether the setup drops a table. -/
def dropped (table : TableName) : Bool := (dropTablesForIndexerSql classes keccak m).drops table

theorem isDrop_of_mem_drop {s : Statement} (h : some s ∈ dropTablesForIndexerSql classes keccak m) :
    s.isDrop = true := by
  have hMap : ∀ {x : Option TableName}, some s = x.map .dropTable → s.isDrop = true := by
    intro x hx
    obtain ⟨t, -, rfl⟩ := Option.map_eq_some_iff.mp hx.symm
    rfl
  rcases List.mem_append.mp h with h | h
  · simp only [List.mem_cons, List.not_mem_nil, or_false] at h
    rcases h with h | h | h
    · exact hMap h
    · exact hMap h
    · obtain rfl := Option.some.inj h
      rfl
  · obtain ⟨contract, -, h⟩ := List.mem_flatMap.mp h
    simp only [dropContract, List.mem_append, List.mem_singleton, List.mem_map] at h
    rcases h with ((h | ⟨item, -, h⟩) | ⟨factory, -, h⟩) | ⟨⟨table, cron, index⟩, -, h⟩
    · obtain ⟨schema, -, rfl⟩ := Option.map_eq_some_iff.mp h.symm
      rfl
    · exact hMap h.symm
    · exact hMap h.symm
    · exact hMap h.symm

theorem drops_of_mem {batch : Batch} {s : Statement} {table : TableName} (h : some s ∈ batch)
    (hDrops : s.drops table = true) : batch.drops table = true :=
  List.any_eq_true.mpr ⟨some s, h, hDrops⟩

theorem dropped_of_mem {contract : Contract} (hContract : contract ∈ m.contracts) {s : Statement}
    (h : some s ∈ dropContract classes keccak m contract) {table : TableName}
    (hDrops : s.drops table = true) : dropped classes keccak m table = true :=
  drops_of_mem (List.mem_append_right _ (List.mem_flatMap.mpr ⟨contract, hContract, h⟩)) hDrops

theorem drops_dropTable (table : TableName) : (Statement.dropTable table).drops table = true :=
  beq_self_eq_true table

theorem dropped_latestBlock : dropped classes keccak m latestBlock = true :=
  drops_of_mem (s := .dropTable latestBlock) (List.mem_append_left _ (by simp)) (drops_dropTable _)

theorem dropped_lastKnownIndexes {table : TableName} (h : lastKnownIndexes classes m = some table) :
    dropped classes keccak m table = true :=
  drops_of_mem (s := .dropTable table) (List.mem_append_left _ (by simp [h])) (drops_dropTable _)

theorem dropped_lastKnownRelationships {table : TableName}
    (h : lastKnownRelationships classes m = some table) : dropped classes keccak m table = true :=
  drops_of_mem (s := .dropTable table) (List.mem_append_left _ (by simp [h])) (drops_dropTable _)

section Contract

variable {contract : Contract} (hContract : contract ∈ m.contracts)

include hContract

theorem dropped_schema {schema table : List Char}
    (h : contractSchema classes m contract = some schema) :
    dropped classes keccak m ⟨schema, table⟩ = true := by
  refine dropped_of_mem classes keccak m hContract (s := .dropSchema schema) ?_
    (beq_self_eq_true schema)
  simp [dropContract, h]

theorem dropped_eventTable {eventName : List Char} {table : TableName}
    (h : eventTable classes (contractSchema classes m contract) eventName = some table) :
    dropped classes keccak m table = true := by
  obtain ⟨schema, hSchema, h⟩ := Option.bind_eq_some_iff.mp h
  obtain ⟨event, -, rfl⟩ := Option.map_eq_some_iff.mp h
  exact dropped_schema classes keccak m hContract hSchema

theorem dropped_internalEventTable {item : ABIItem} (hItem : item ∈ contract.readAbiItems)
    {table : TableName} (h : internalEventTable classes keccak (contractSchema classes m contract)
      item.name = some table) : dropped classes keccak m table = true := by
  refine dropped_of_mem classes keccak m hContract (s := .dropTable table) ?_ (drops_dropTable _)
  have hMem : some (Statement.dropTable table) ∈ contract.readAbiItems.map (fun item =>
      (internalEventTable classes keccak (contractSchema classes m contract) item.name).map
        .dropTable) := List.mem_map.mpr ⟨item, hItem, by rw [h]; rfl⟩
  simp only [dropContract, List.mem_append]
  exact Or.inl (Or.inl (Or.inr hMem))

theorem dropped_factoryTable {factory : FactoryDetailsYaml} (hFactory : factory ∈ factoriesOf contract)
    {table : TableName} (h : factoryTable classes keccak m factory = some table) :
    dropped classes keccak m table = true := by
  refine dropped_of_mem classes keccak m hContract (s := .dropTable table) ?_ (drops_dropTable _)
  have hMem : some (Statement.dropTable table) ∈ (factoriesOf contract).map (fun factory =>
      (factoryTable classes keccak m factory).map .dropTable) :=
    List.mem_map.mpr ⟨factory, hFactory, by rw [h]; rfl⟩
  simp only [dropContract, List.mem_append]
  exact Or.inl (Or.inr hMem)

theorem dropped_cronTable {entry : ContractTable × CronEntry × Nat}
    (hEntry : entry ∈ historicalCrons contract) {table : TableName}
    (h : cronTable classes keccak (contractSchema classes m contract) entry.1.name entry.2.2 =
      some table) : dropped classes keccak m table = true := by
  refine dropped_of_mem classes keccak m hContract (s := .dropTable table) ?_ (drops_dropTable _)
  have hMem : some (Statement.dropTable table) ∈ (historicalCrons contract).map
      (fun entry : ContractTable × CronEntry × Nat =>
        (cronTable classes keccak (contractSchema classes m contract) entry.1.name entry.2.2).map
          Statement.dropTable) := List.mem_map.mpr ⟨entry, hEntry, by rw [h]; rfl⟩
  simp only [dropContract, List.mem_append]
  exact Or.inr hMem

end Contract

/-! ### The statements that create -/

/-- What a statement that creates is, and what it inserts where. -/
inductive Creating : Statement → Prop
  | createSchema (schema : List Char) : Creating (.createSchema schema)
  | createTable (table : TableName) (ddl : CreateTable) : Creating (.createTable table ddl)
  | addColumn (table : TableName) : Creating (.addColumn table detailKeyColumn)
  | rekey (table : TableName) : Creating (.rekey table cursorKey)
  | insertIfAbsent (table : TableName) (key : String) (row : StoredRow)
      (hRow : row.lookup "version" = none) (hDropped : dropped classes keccak m table = true) :
      Creating (.insertIfAbsent table key row)

variable {classes keccak m}

theorem creating_storedTable {disableEventTables : Bool} {schema : Option (List Char)}
    {rawEvents : List EventInfo} {tables : List ContractTable} {s : Statement}
    (h : some s ∈ storedTableStatements classes disableEventTables schema rawEvents tables) :
    Creating classes keccak m s := by
  rw [storedTableStatements] at h
  split at h
  · exact absurd h List.not_mem_nil
  · simp only [List.mem_append, List.mem_cons, List.mem_map] at h
    rcases h with (h | ⟨event, -, h⟩) | ⟨table, -, h⟩
    · obtain ⟨schema, -, rfl⟩ := Option.map_eq_some_iff.mp h.symm
      exact .createSchema schema
    · obtain ⟨table, -, h⟩ := Option.bind_eq_some_iff.mp h
      obtain ⟨ddl, -, rfl⟩ := Option.map_eq_some_iff.mp h
      exact .createTable table ddl
    · obtain ⟨name, -, rfl⟩ := Option.map_eq_some_iff.mp h
      exact .createTable name _

theorem creating_internalEvent {schema : Option (List Char)} {networks : List (List Char)}
    {event : EventInfo} {s : Statement}
    (h : some s ∈ internalEventStatements classes keccak schema networks event) :
    Creating classes keccak m s := by
  simp only [internalEventStatements, List.mem_append, List.mem_cons, List.not_mem_nil, or_false,
    List.mem_map] at h
  rcases h with (h | h | h | h) | ⟨network, -, h⟩
  · obtain ⟨table, -, rfl⟩ := Option.map_eq_some_iff.mp h.symm
    exact .createTable table cursorDdl
  · obtain ⟨table, -, rfl⟩ := Option.map_eq_some_iff.mp h.symm
    exact .addColumn table
  · obtain ⟨table, -, rfl⟩ := Option.map_eq_some_iff.mp h.symm
    exact .rekey table
  · obtain rfl := Option.some.inj h
    exact .createTable _ _
  · obtain rfl := Option.some.inj h
    exact .insertIfAbsent _ _ _ rfl (dropped_latestBlock classes keccak m)

theorem creating_contract {disableEventTables : Bool} {contract : Contract}
    (hContract : contract ∈ m.contracts) {s : Statement}
    (h : some s ∈ createContract classes keccak m disableEventTables contract) :
    Creating classes keccak m s := by
  rw [createContract] at h
  split at h
  · simp at h
  next events hEvents =>
    simp only [List.mem_append, List.mem_flatMap, List.mem_map] at h
    rcases h with ((h | ⟨event, -, h⟩) | ⟨factory, -, h⟩) | ⟨entry, hEntry, h⟩
    · exact creating_storedTable h
    · exact creating_internalEvent h
    · obtain ⟨table, -, rfl⟩ := Option.map_eq_some_iff.mp h
      exact .createTable table factoryDdl
    · simp only [cronStatements, List.mem_cons, List.mem_map] at h
      rcases h with h | ⟨network, -, h⟩
      · obtain ⟨table, -, rfl⟩ := Option.map_eq_some_iff.mp h.symm
        exact .createTable table cronDdl
      · obtain ⟨table, hTable, rfl⟩ := Option.map_eq_some_iff.mp h
        exact .insertIfAbsent _ _ _ rfl (dropped_cronTable classes keccak m hContract hEntry hTable)

theorem creating_of_mem_generate {disableEventTables : Bool} {s : Statement}
    (h : some s ∈ generateTablesForIndexerSql classes keccak m disableEventTables) :
    Creating classes keccak m s := by
  simp only [generateTablesForIndexerSql, List.mem_append, List.mem_cons, List.not_mem_nil, or_false,
    Option.some.injEq] at h
  rcases h with (((rfl | rfl | rfl) | h) | h) | h | h | h
  · exact .createSchema internal
  · exact .createTable _ _
  · exact .createTable _ _
  · obtain ⟨contract, hContract, h⟩ := List.mem_flatMap.mp h
    exact creating_contract hContract h
  · rw [createNativeTransfers] at h
    split at h
    · split at h
      · simp at h
      · rcases List.mem_append.mp h with h | h
        · exact creating_storedTable h
        · obtain ⟨event, -, h⟩ := List.mem_flatMap.mp h
          exact creating_internalEvent h
    · exact absurd h List.not_mem_nil
  · obtain ⟨table, -, rfl⟩ := Option.map_eq_some_iff.mp h.symm
    exact .createTable table _
  · obtain ⟨table, -, rfl⟩ := Option.map_eq_some_iff.mp h.symm
    exact .createTable table _
  · obtain ⟨table, -, rfl⟩ := Option.map_eq_some_iff.mp h.symm
    exact .createTable table _

theorem Creating.alike {s : Statement} (h : Creating classes keccak m s) :
    s.Alike detailKeyColumn cursorKey := by
  cases h <;> trivial

theorem Creating.not_inserts {s : Statement} (h : Creating classes keccak m s) {table : TableName}
    (hKept : dropped classes keccak m table = false) : s.inserts table = false := by
  cases h with
  | insertIfAbsent t key row _ hDropped =>
    refine beq_eq_false_iff_ne.mpr ?_
    rintro rfl
    exact absurd hDropped (by rw [hKept]; exact Bool.false_ne_true)
  | createSchema schema => rfl
  | createTable table ddl => rfl
  | addColumn table => rfl
  | rekey table => rfl

variable (disableEventTables : Bool)

theorem generate_alike : (generateTablesForIndexerSql classes keccak m disableEventTables).Alike
    detailKeyColumn cursorKey :=
  fun _ h => (creating_of_mem_generate h).alike

theorem generate_insertsNone {table : TableName} (hKept : dropped classes keccak m table = false) :
    (generateTablesForIndexerSql classes keccak m disableEventTables).InsertsNone table :=
  fun _ h => (creating_of_mem_generate h).not_inserts hKept

/-! ### No statement is refused -/

open Batch

theorem supported_creates {schemas : List (List Char)} {tables : List TableName} {α : Type}
    {f : α → Option Statement} {xs : List α} (h : ∀ x ∈ xs, ∀ s, f x = some s →
      ∃ table ddl, s = .createTable table ddl ∧ table.schema ∈ schemas) :
    Supported schemas tables (xs.map f) := by
  induction xs generalizing tables with
  | nil => exact supported_nil
  | cons x xs ih =>
    obtain ⟨hHead, hRest⟩ := List.forall_mem_cons.mp h
    rw [List.map_cons]
    cases hx : f x with
    | none => exact supported_none
    | some s =>
      obtain ⟨table, ddl, rfl, hSchema⟩ := hHead s hx
      exact .createTable hSchema (ih hRest)

theorem supported_inserts {schemas : List (List Char)} {tables : List TableName} {α : Type}
    {f : α → StoredRow} {xs : List α} {table : TableName} {key : String} (hTable : table ∈ tables) :
    Supported schemas tables (xs.map fun x => some (.insertIfAbsent table key (f x))) := by
  induction xs with
  | nil => exact supported_nil
  | cons x xs ih =>
    rw [List.map_cons]
    exact .change (fun _ => rfl) hTable ih

theorem supported_storedTable {schemas : List (List Char)} {tables : List TableName}
    {schema : Option (List Char)} {rawEvents : List EventInfo} {customs : List ContractTable} :
    Supported schemas tables
      (storedTableStatements classes disableEventTables schema rawEvents customs) := by
  rw [storedTableStatements]
  split
  · exact supported_nil
  · cases schema with
    | none => exact supported_none
    | some schema =>
      refine Supported.createSchema (Supported.append ?_ ?_)
      · refine supported_creates fun event _ s hs => ?_
        obtain ⟨table, hTable, hs⟩ := Option.bind_eq_some_iff.mp hs
        obtain ⟨ddl, -, rfl⟩ := Option.map_eq_some_iff.mp hs
        obtain ⟨name, -, rfl⟩ := Option.map_eq_some_iff.mp hTable
        exact ⟨_, ddl, rfl, List.mem_cons_self⟩
      · refine supported_creates fun table _ s hs => ?_
        obtain ⟨name, hName, rfl⟩ := Option.map_eq_some_iff.mp hs
        obtain ⟨name, -, rfl⟩ := Option.map_eq_some_iff.mp hName
        exact ⟨_, _, rfl, List.mem_cons_self⟩

theorem internalEventTable_schema {schema : Option (List Char)} {eventName : List Char}
    {table : TableName} (h : internalEventTable classes keccak schema eventName = some table) :
    table.schema = internal := by
  obtain ⟨schema, -, h⟩ := Option.bind_eq_some_iff.mp h
  obtain ⟨name, -, rfl⟩ := Option.map_eq_some_iff.mp h
  rfl

theorem cronTable_schema {schema : Option (List Char)} {tableName : List Char} {cronIndex : Nat}
    {table : TableName} (h : cronTable classes keccak schema tableName cronIndex = some table) :
    table.schema = internal := by
  obtain ⟨schema, -, h⟩ := Option.bind_eq_some_iff.mp h
  obtain ⟨name, -, rfl⟩ := Option.map_eq_some_iff.mp h
  rfl

theorem supported_internalEvent {tables : List TableName} {schema : Option (List Char)}
    {networks : List (List Char)} {event : EventInfo} :
    Supported [internal] tables
      (internalEventStatements classes keccak schema networks event) := by
  rw [internalEventStatements]
  cases hTable : internalEventTable classes keccak schema event.name with
  | none => exact supported_none
  | some table =>
    have hSchema : table.schema ∈ [internal] :=
      List.mem_singleton.mpr (internalEventTable_schema hTable)
    refine .createTable hSchema (.change (fun _ => rfl) List.mem_cons_self
      (.change (fun _ => rfl) List.mem_cons_self (.createTable (List.mem_singleton.mpr rfl) ?_)))
    exact supported_inserts List.mem_cons_self

theorem supported_cron {tables : List TableName} {schema : Option (List Char)}
    {networks : List (List Char)} {entry : ContractTable × CronEntry × Nat} :
    Supported [internal] tables (cronStatements classes keccak schema networks entry) := by
  rw [cronStatements]
  cases hTable : cronTable classes keccak schema entry.1.name entry.2.2 with
  | none => exact supported_none
  | some table =>
    have hSchema : table.schema ∈ [internal] := List.mem_singleton.mpr (cronTable_schema hTable)
    refine .createTable hSchema ?_
    exact supported_inserts List.mem_cons_self

theorem supported_contract {tables : List TableName} {contract : Contract} :
    Supported [internal] tables (createContract classes keccak m disableEventTables contract) := by
  rw [createContract]
  split
  · exact supported_none
  · refine .append (.append (.append (supported_storedTable disableEventTables) ?_) ?_) ?_
    · exact supported_flatMap fun event _ => supported_internalEvent
    · refine supported_creates fun factory _ s hs => ?_
      obtain ⟨table, hTable, rfl⟩ := Option.map_eq_some_iff.mp hs
      obtain ⟨name, -, rfl⟩ := Option.map_eq_some_iff.mp hTable
      exact ⟨_, _, rfl, List.mem_cons_self⟩
    · exact supported_flatMap fun entry _ => supported_cron

theorem supported_native {tables : List TableName} :
    Supported [internal] tables (createNativeTransfers classes keccak m disableEventTables) := by
  rw [createNativeTransfers]
  split
  · split
    · exact supported_none
    · exact .append (supported_storedTable disableEventTables)
        (supported_flatMap fun event _ => supported_internalEvent)
  · exact supported_nil

theorem indexerTable_schema {suffix : String} {table : TableName}
    (h : indexerTable classes m suffix = some table) : table.schema = internal := by
  obtain ⟨name, -, rfl⟩ := Option.map_eq_some_iff.mp h
  rfl

theorem generate_supported :
    Supported [] [] (generateTablesForIndexerSql classes keccak m disableEventTables) := by
  have hInternal : internal ∈ [internal] := List.mem_singleton.mpr rfl
  refine .createSchema (.createTable hInternal (.createTable hInternal ?_))
  refine .append (.append (supported_flatMap fun contract _ =>
    supported_contract disableEventTables) (supported_native disableEventTables)) ?_
  have hCreate : ∀ {tables : List TableName} {x : Option TableName} {ddl : CreateTable}
      {batch : Batch}, (∀ table, x = some table → table.schema = internal) →
      (∀ tables, Supported [internal] tables batch) →
      Supported [internal] tables (x.map (fun table => .createTable table ddl) :: batch) := by
    intro tables x ddl batch hx hBatch
    cases x with
    | none => exact supported_none
    | some table => exact .createTable (List.mem_singleton.mpr (hx table rfl)) (hBatch _)
  exact hCreate (fun _ h => indexerTable_schema h) fun _ =>
    hCreate (fun _ h => indexerTable_schema h) fun _ =>
      hCreate (fun _ h => indexerTable_schema h) fun _ => supported_nil

end Facts

end Rindexer.Database
