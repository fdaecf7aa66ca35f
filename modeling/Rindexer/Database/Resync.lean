import Rindexer.Database.ColumnTypes

/-! The sync of one table: what it expects, what its changes make of the table that is there, when
they go through, and what is found afterwards. -/

namespace Rindexer.Database

open Rindexer.Manifest

variable {Value : Type}

/-! ### What is expected -/

theorem foldl_insertColumn {columns entries : List (String × String)}
    (h : ((columns ++ entries).map Prod.fst).Nodup) :
    entries.foldl insertColumn columns = columns ++ entries := by
  induction entries generalizing columns with
  | nil => rw [List.foldl_nil, List.append_nil]
  | cons entry entries ih =>
    have hFresh : columns.filter (fun c => c.1 != entry.1) = columns := by
      rw [List.filter_eq_self]
      intro c hc
      rw [List.map_append, List.nodup_append] at h
      exact bne_iff_ne.mpr (h.2.2 _ (List.mem_map_of_mem hc) _ (by simp))
    rw [List.foldl_cons, insertColumn, hFresh, ih (by rwa [List.append_assoc]), List.append_assoc]
    rfl

theorem lookup_of_mem {l : List (String × String)} (h : (l.map Prod.fst).Nodup) {name type : String}
    (hMem : (name, type) ∈ l) : l.lookup name = some type := by
  obtain ⟨before, after, rfl⟩ := List.append_of_mem hMem
  rw [List.lookup_eq_some_iff]
  refine ⟨before, after, rfl, fun entry hEntry => bne_iff_ne.mpr fun hEq => ?_⟩
  rw [List.map_append, List.nodup_append] at h
  exact h.2.2 _ (List.mem_map_of_mem hEntry) _ (by simp) hEq.symm

theorem find?_of_mem {columns : List TableColumn} (h : (columns.map TableColumn.name).Nodup)
    {c : TableColumn} (hc : c ∈ columns) : columns.find? (fun c' => c'.name == c.name) = some c := by
  cases hFind : columns.find? fun c' => c'.name == c.name with
  | none => exact absurd (List.find?_eq_none.mp hFind c hc) (by simp)
  | some c' =>
    have hName : c'.name = c.name := by simpa using List.find?_some hFind
    rw [List.inj_on_of_nodup_map h (List.mem_of_find?_eq_some hFind) hc hName]

/-- The columns of the statement that the manifest does not list. -/
def generatedDdl (t : Table) : List ColumnDdl := networkDdl t ++ injectedDdl t

theorem mem_createTable_columns {t : Table} {d : ColumnDdl} :
    d ∈ (createTable t).columns ↔ d ∈ generatedDdl t ∨ ∃ c ∈ t.columns, columnDdl c = d := by
  simp only [createTable, generatedDdl, List.mem_append, List.mem_map]
  exact or_right_comm

theorem mem_createTable_columnNames {t : Table} {name : String} :
    name ∈ (createTable t).columnNames ↔
      (∃ d ∈ generatedDdl t, d.name = name) ∨ ∃ c ∈ t.columns, c.name = name := by
  rw [CreateTable.columnNames, List.mem_map]
  constructor
  · rintro ⟨d, hd, rfl⟩
    rcases mem_createTable_columns.mp hd with hd | ⟨c, hc, rfl⟩
    · exact Or.inl ⟨d, hd, rfl⟩
    · exact Or.inr ⟨c, hc, rfl⟩
  · rintro (⟨d, hd, rfl⟩ | ⟨c, hc, rfl⟩)
    · exact ⟨d, mem_createTable_columns.mpr (Or.inl hd), rfl⟩
    · exact ⟨columnDdl c, mem_createTable_columns.mpr (Or.inr ⟨c, hc, rfl⟩), rfl⟩

/-- What a generated column is, and how the sync would add it. -/
theorem generatedDdl_spec (t : Table) : ∀ d ∈ generatedDdl t, d.default = none ∧
    informationSchemaType d.type ≠ "unknown" ∧ (d.type = "BIGSERIAL" ↔ d.name = "rindexer_id") ∧
      (d.name ≠ "rindexer_id" → addedType d.name (informationSchemaType d.type) = d.type) := by
  rw [generatedDdl, networkDdl, injectedDdl]
  generalize t.crossChain = crossChain, t.timestamp = timestamp, t.isInsertOnly = isInsertOnly
  revert crossChain timestamp isInsertOnly
  with_unfolding_all decide

section Expected

variable {table : SyncTable}

/-- The text of the type that the sync expects of a column of the manifest. -/
def SyncTable.expectedText (table : SyncTable) (c : TableColumn) : String :=
  match table.columnType? c with
  | some columnType => expectedType columnType
  | none => "unknown"

theorem SyncTable.expectedText_of_typed {c : TableColumn} (h : table.typed c.name = true) :
    table.expectedText c = expectedType c.columnType := by
  rw [expectedText, columnType?, if_pos h]

theorem SyncTable.expectedText_eq_unknown_iff {c : TableColumn} :
    table.expectedText c = "unknown" ↔ table.typed c.name = false := by
  rw [expectedText, columnType?]
  cases table.typed c.name with
  | false => simp
  | true => simpa using expectedType_ne_unknown c.columnType

/-- What is expected are the generated columns and those of the manifest, with their types. -/
theorem insertedColumns_perm : (insertedColumns table).Perm
    ((generatedDdl table.definition).map (fun d => (d.name, informationSchemaType d.type)) ++
      table.definition.columns.map fun c => (c.name, table.expectedText c)) := by
  have hReorder : ∀ network counter columns number timestamp injected : List (String × String),
      (network ++ counter ++ columns ++ number ++ timestamp ++ injected).Perm
        (network ++ (number ++ timestamp ++ injected) ++ counter ++ columns) := by
    intro network counter columns number timestamp injected
    rw [List.perm_iff_count]
    intro entry
    simp only [List.count_append]
    omega
  have hGenerated : (generatedDdl table.definition).map
      (fun d => (d.name, informationSchemaType d.type)) =
      (if table.definition.crossChain then [] else [("network", "character varying")]) ++
        ([("rindexer_block_number", "bigint")] ++
          (if table.definition.timestamp then
            [("rindexer_block_timestamp", "timestamp with time zone")] else []) ++
          [("rindexer_tx_hash", "character"), ("rindexer_block_hash", "character"),
            ("rindexer_contract_address", "character"), ("rindexer_sequence_id", "numeric")]) ++
        (if table.definition.isInsertOnly then [("rindexer_id", "bigint")] else []) := by
    rw [generatedDdl, networkDdl, injectedDdl]
    cases table.definition.crossChain <;> cases table.definition.timestamp <;>
      cases table.definition.isInsertOnly <;> decide
  rw [hGenerated]
  exact hReorder _ _ _ _ _ _

variable (hNames : (createTable table.definition).columnNames.Nodup)
include hNames

theorem nodup_insertedColumns : ((insertedColumns table).map Prod.fst).Nodup := by
  have hPerm : ((insertedColumns table).map Prod.fst).Perm
      (createTable table.definition).columnNames := by
    refine (insertedColumns_perm.map Prod.fst).trans ?_
    rw [columnNames_createTable, List.map_append, List.map_map, List.map_map, generatedDdl,
      List.map_append, injectedNames]
    have hAssoc : ((networkDdl table.definition).map ColumnDdl.name ++
        (injectedDdl table.definition).map ColumnDdl.name) ++
          table.definition.columns.map TableColumn.name =
        (networkDdl table.definition).map ColumnDdl.name ++
          ((injectedDdl table.definition).map ColumnDdl.name ++
            table.definition.columns.map TableColumn.name) := List.append_assoc _ _ _
    refine (List.Perm.of_eq hAssoc).trans ?_
    rw [List.append_assoc]
    exact List.Perm.append_left _ List.perm_append_comm
  exact hPerm.nodup_iff.mpr hNames

theorem getExpectedColumns_eq : getExpectedColumns table = insertedColumns table := by
  rw [getExpectedColumns, foldl_insertColumn (by simpa using nodup_insertedColumns hNames),
    List.nil_append]

theorem nodup_expectedNames : ((getExpectedColumns table).map Prod.fst).Nodup := by
  rw [getExpectedColumns_eq hNames]
  exact nodup_insertedColumns hNames

theorem mem_expectedNames {name : String} : name ∈ (getExpectedColumns table).map Prod.fst ↔
    name ∈ (createTable table.definition).columnNames := by
  rw [getExpectedColumns_eq hNames, mem_createTable_columnNames,
    (insertedColumns_perm.map Prod.fst).mem_iff, List.map_append, List.mem_append]
  simp only [List.map_map, List.mem_map, Function.comp_apply]

theorem lookup_generated {d : ColumnDdl} (hd : d ∈ generatedDdl table.definition) :
    (getExpectedColumns table).lookup d.name = some (informationSchemaType d.type) := by
  rw [getExpectedColumns_eq hNames]
  refine lookup_of_mem (nodup_insertedColumns hNames) (insertedColumns_perm.mem_iff.mpr ?_)
  exact List.mem_append_left _ (List.mem_map_of_mem hd)

theorem lookup_column {c : TableColumn} (hc : c ∈ table.definition.columns) :
    (getExpectedColumns table).lookup c.name = some (table.expectedText c) := by
  rw [getExpectedColumns_eq hNames]
  refine lookup_of_mem (nodup_insertedColumns hNames) (insertedColumns_perm.mem_iff.mpr ?_)
  exact List.mem_append_right _ (List.mem_map_of_mem hc)

theorem name_ne_of_generated {d : ColumnDdl} (hd : d ∈ generatedDdl table.definition)
    {c : TableColumn} (hc : c ∈ table.definition.columns) : c.name ≠ d.name := by
  rw [columnNames_createTable, List.nodup_append, List.nodup_append] at hNames
  obtain ⟨⟨-, -, hNetwork⟩, -, hInjected⟩ := hNames
  have hName : c.name ∈ table.definition.columns.map TableColumn.name := List.mem_map_of_mem hc
  rcases List.mem_append.mp hd with hd | hd
  · exact fun hEq => hNetwork _ (List.mem_map_of_mem hd) _ hName hEq.symm
  · exact hInjected _ (List.mem_append_right _ hName) _ (List.mem_map_of_mem hd)

theorem nodup_columns : (table.definition.columns.map TableColumn.name).Nodup := by
  rw [columnNames_createTable, List.nodup_append, List.nodup_append] at hNames
  exact hNames.1.2.1

/-- The change that adds a generated column. -/
theorem columnToAdd_generated {name : TableName} {d : ColumnDdl}
    (hd : d ∈ generatedDdl table.definition) : columnToAdd name table d.name =
      some (.addColumn name d.name (addedType d.name (informationSchemaType d.type)) none) := by
  have hFind : table.definition.columns.find? (fun c => c.name == d.name) = none :=
    List.find?_eq_none.mpr fun c hc => by simpa using name_ne_of_generated hNames hd hc
  rw [columnToAdd, lookup_generated hNames hd, Option.bind_some,
    if_neg (generatedDdl_spec _ d hd).2.1, hFind, Option.bind_none]

/-- The change that adds a column of the manifest, if its type is known. -/
theorem columnToAdd_column {name : TableName} {c : TableColumn}
    (hc : c ∈ table.definition.columns) : columnToAdd name table c.name =
      if table.typed c.name then
        some (.addColumn name c.name (addedType c.name (expectedType c.columnType)) c.default)
      else none := by
  rw [columnToAdd, lookup_column hNames hc, Option.bind_some, find?_of_mem (nodup_columns hNames) hc,
    Option.bind_some]
  cases hTyped : table.typed c.name with
  | false => rw [if_pos (SyncTable.expectedText_eq_unknown_iff.mpr hTyped), if_neg Bool.false_ne_true]
  | true =>
    rw [SyncTable.expectedText_of_typed hTyped, if_neg (expectedType_ne_unknown _), if_pos rfl]

end Expected

/-! ### What the changes do -/

def alterAll (evaluate : Evaluate Value) (stored : DbTable Value) (changes : List SchemaChange) :
    Option (DbTable Value) :=
  changes.foldlM (SchemaChange.alter evaluate) stored

@[simp] theorem alterAll_nil (evaluate : Evaluate Value) (stored : DbTable Value) :
    alterAll evaluate stored [] = some stored := rfl

theorem alterAll_cons (evaluate : Evaluate Value) (stored : DbTable Value) (change : SchemaChange)
    (changes : List SchemaChange) : alterAll evaluate stored (change :: changes) =
      (change.alter evaluate stored).bind fun stored' => alterAll evaluate stored' changes := rfl

theorem alterAll_append (evaluate : Evaluate Value) (stored : DbTable Value)
    (changes changes' : List SchemaChange) : alterAll evaluate stored (changes ++ changes') =
      (alterAll evaluate stored changes).bind fun stored' => alterAll evaluate stored' changes' := by
  rw [alterAll, List.foldlM_append]
  rfl

/-- The column that a change adds, if Postgres takes its default. -/
def SchemaChange.column? (evaluate : Evaluate Value) : SchemaChange → Option (DbColumn Value)
  | addColumn _ columnName columnType defaultValue =>
    if columnName = "rindexer_id" then some ⟨columnName, "BIGINT", .counter⟩
    else
      match defaultValue with
      | none => some ⟨columnName, columnType, .constant none⟩
      | some text => (evaluate columnType text).map fun value =>
        ⟨columnName, columnType, .constant value⟩
  | _ => none

def DbTable.add (stored : DbTable Value) (columns : List (DbColumn Value)) : DbTable Value :=
  { stored with columns := stored.columns ++ columns }

def DbTable.drop (stored : DbTable Value) (names : List String) : DbTable Value :=
  ⟨stored.columns.filter (·.name ∉ names),
    if ∃ name ∈ names, name ∈ stored.primaryKey then [] else stored.primaryKey⟩

section Alter

variable {evaluate : Evaluate Value} {stored : DbTable Value}

theorem alter_addColumn {name : TableName} {columnName columnType : String}
    {defaultValue : Option String} (h : columnName ∉ stored.columnNames) :
    (SchemaChange.addColumn name columnName columnType defaultValue).alter evaluate stored =
      ((SchemaChange.addColumn name columnName columnType defaultValue).column? evaluate).map
        fun column => stored.add [column] := by
  simp only [SchemaChange.alter, SchemaChange.column?, if_neg h]
  split
  · rfl
  · cases defaultValue with
    | none => rfl
    | some text =>
      rw [Option.map_map]
      rfl

theorem column?_name {change : SchemaChange} {name : TableName} {columnName columnType : String}
    {defaultValue : Option String} (hChange : change = .addColumn name columnName columnType defaultValue)
    {column : DbColumn Value} (h : change.column? evaluate = some column) :
    column.name = columnName := by
  subst hChange
  simp only [SchemaChange.column?] at h
  split at h
  · cases h
    rfl
  · cases defaultValue with
    | none =>
      cases h
      rfl
    | some text =>
      obtain ⟨value, -, rfl⟩ := Option.map_eq_some_iff.mp h
      rfl

/-- What is added for a name. -/
def addedColumn (evaluate : Evaluate Value) (name : TableName) (table : SyncTable)
    (columnName : String) : Option (DbColumn Value) :=
  (columnToAdd name table columnName).bind (SchemaChange.column? evaluate)

theorem columnToAdd_eq_some {name : TableName} {table : SyncTable} {columnName : String}
    {change : SchemaChange} (h : columnToAdd name table columnName = some change) :
    ∃ columnType defaultValue, change = .addColumn name columnName columnType defaultValue := by
  rw [columnToAdd, Option.bind_eq_some_iff] at h
  obtain ⟨columnType, -, hChange⟩ := h
  split at hChange
  · exact nomatch hChange
  · exact ⟨_, _, (Option.some.inj hChange).symm⟩

theorem addedColumn_name {name : TableName} {table : SyncTable} {columnName : String}
    {column : DbColumn Value} (h : addedColumn evaluate name table columnName = some column) :
    column.name = columnName := by
  obtain ⟨change, hChange, hColumn⟩ := Option.bind_eq_some_iff.mp h
  obtain ⟨columnType, defaultValue, rfl⟩ := columnToAdd_eq_some hChange
  exact column?_name rfl hColumn

/-- Whether Postgres takes the change for a name, if there is one. -/
def Addable (evaluate : Evaluate Value) (name : TableName) (table : SyncTable) (columnName : String) :
    Prop :=
  (columnToAdd name table columnName).isSome → (addedColumn evaluate name table columnName).isSome

/-- The columns to add, one after the other. -/
theorem alterAll_adds {name : TableName} {table : SyncTable} {names : List String}
    (hNodup : names.Nodup) (hFresh : ∀ n ∈ names, n ∉ stored.columnNames) {after : DbTable Value} :
    alterAll evaluate stored (names.filterMap (columnToAdd name table)) = some after ↔
      (∀ n ∈ names, Addable evaluate name table n) ∧
        after = stored.add (names.filterMap (addedColumn evaluate name table)) := by
  induction names generalizing stored with
  | nil => simp [DbTable.add, eq_comm]
  | cons n names ih =>
    obtain ⟨hNotMem, hNodup⟩ := List.nodup_cons.mp hNodup
    rw [List.forall_mem_cons] at hFresh ⊢
    cases hChange : columnToAdd name table n with
    | none =>
      have hAdded : addedColumn evaluate name table n = none := by rw [addedColumn, hChange]; rfl
      rw [List.filterMap_cons_none hChange, List.filterMap_cons_none hAdded, ih hNodup hFresh.2]
      have hAddable : Addable evaluate name table n := by simp [Addable, hChange]
      simp only [hAddable, true_and]
    | some change =>
      obtain ⟨columnType, defaultValue, rfl⟩ := columnToAdd_eq_some hChange
      rw [List.filterMap_cons_some hChange, alterAll_cons, alter_addColumn hFresh.1]
      cases hColumn : (SchemaChange.addColumn name n columnType defaultValue).column? evaluate with
      | none =>
        have hAdded : addedColumn evaluate name table n = none := by
          rw [addedColumn, hChange]
          exact hColumn
        simp [Addable, hChange, hAdded]
      | some column =>
        have hAdded : addedColumn evaluate name table n = some column := by
          rw [addedColumn, hChange]
          exact hColumn
        have hAddable : Addable evaluate name table n := by simp [Addable, hAdded]
        have hRest : ∀ n' ∈ names, n' ∉ (stored.add [column]).columnNames := by
          intro n' hn' hMem
          rw [DbTable.columnNames, DbTable.add, List.map_append, List.mem_append] at hMem
          rcases hMem with hMem | hMem
          · exact hFresh.2 n' hn' hMem
          · have hEq : n' = n := by simpa [addedColumn_name hAdded] using hMem
            exact hNotMem (hEq ▸ hn')
        rw [Option.map_some, Option.bind_some, ih hNodup hRest, List.filterMap_cons_some hAdded]
        simp only [hAddable, true_and, DbTable.add, List.append_assoc, List.singleton_append]

theorem drop_nil : stored.drop [] = stored := by
  simp [DbTable.drop]

theorem drop_drop (n : String) (names : List String) :
    (stored.drop [n]).drop names = stored.drop (n :: names) := by
  simp only [DbTable.drop, List.filter_filter, List.mem_cons, not_or, exists_eq_or_imp,
    DbTable.mk.injEq]
  refine ⟨?_, ?_⟩
  · congr 1
    funext column
    simp only [List.not_mem_nil, not_false_eq_true, and_true, Bool.decide_and]
    exact Bool.and_comm _ _
  · by_cases hKey : n ∈ stored.primaryKey
    · simp [hKey]
    · simp [hKey]

/-- The columns to remove, one after the other. -/
theorem alterAll_removes {name : TableName} {names : List String} (hNodup : names.Nodup)
    (hMem : names ⊆ stored.columnNames) :
    alterAll evaluate stored (names.filterMap (columnToRemove name)) =
      some (stored.drop (names.filter (· ≠ "rindexer_id"))) := by
  induction names generalizing stored with
  | nil => rw [List.filter_nil, drop_nil]; rfl
  | cons n names ih =>
    obtain ⟨hNotMem, hNodup⟩ := List.nodup_cons.mp hNodup
    obtain ⟨hHead, hRest⟩ := List.cons_subset.mp hMem
    by_cases hId : n = "rindexer_id"
    · have hNone : columnToRemove name n = none := if_pos hId
      rw [List.filterMap_cons_none hNone, ih hNodup hRest, List.filter_cons_of_neg (by simpa using hId)]
    · have hSome : columnToRemove name n = some (.removeColumn name n) := if_neg hId
      have hAlter : (SchemaChange.removeColumn name n).alter evaluate stored =
          some (stored.drop [n]) := by
        simp [SchemaChange.alter, hHead, DbTable.drop]
      have hKept : names ⊆ (stored.drop [n]).columnNames := by
        intro n' hn'
        obtain ⟨column, hColumn, rfl⟩ := List.mem_map.mp (hRest hn')
        refine List.mem_map_of_mem (List.mem_filter.mpr ⟨hColumn, ?_⟩)
        simp only [List.mem_singleton, decide_eq_true_eq]
        rintro hEq
        exact hNotMem (hEq ▸ hn')
      rw [List.filterMap_cons_some hSome, alterAll_cons, hAlter, Option.bind_some, ih hNodup hKept,
        drop_drop, List.filter_cons_of_pos (by simpa using hId)]

end Alter

/-! ### The whole sync -/

/-- Postgres takes the statement that creates the table. -/
def Creatable (evaluate : Evaluate Value) (t : Table) : Prop :=
  (createTable t).WellFormed fun type text => (evaluate type text).isSome

theorem Creatable.reordered {evaluate : Evaluate Value} {t t' : Table} (h : Creatable evaluate t)
    (hRead : t.Reordered t') : Creatable evaluate t' := wellFormed_of_reordered hRead h

/-- A table with columns of different names and a primary key of some of them. -/
structure Keyed (stored : DbTable Value) : Prop where
  nodup : stored.columnNames.Nodup
  key_ne_nil : stored.primaryKey ≠ []
  key_columns : stored.primaryKey ⊆ stored.columnNames

/-- No change is refused for what the table is: no type of a column that is there has changed, the
added defaults are taken, and the columns of the key are there or are added. -/
structure GoesThrough (evaluate : Evaluate Value) (table : SyncTable) (stored : DbTable Value) :
    Prop where
  types : ∀ c ∈ table.definition.columns, table.typed c.name = true →
    ∀ d ∈ stored.columns, d.name = c.name → SameType d.type c.columnType
  defaults : ∀ c ∈ table.definition.columns, table.typed c.name = true →
    c.name ∉ stored.columnNames → c.name ≠ "rindexer_id" →
      ∀ text ∈ c.default, (evaluate (addedType c.name (expectedType c.columnType)) text).isSome
  key : ∀ c ∈ table.definition.columns, c.name ∈ (createTable table.definition).primaryKey →
    c.name ∉ stored.columnNames → table.typed c.name = true

section Sync

variable (evaluate : Evaluate Value) (name : TableName) (table : SyncTable) (run : SyncRun)
  (stored : DbTable Value)

def missingNames : List String :=
  run.order name (((getExpectedColumns table).map Prod.fst).filter (· ∉ stored.columnNames))

def goneNames : List String :=
  run.order name (stored.columnNames.filter (· ∉ (getExpectedColumns table).map Prod.fst))

/-- The table that the changes leave. -/
def synced : DbTable Value where
  columns := ((stored.add ((missingNames name table run stored).filterMap
    (addedColumn evaluate name table))).drop
      ((goneNames name table run stored).filter (· ≠ "rindexer_id"))).columns
  primaryKey := getExpectedPkColumns (run.read name table.definition)

variable {evaluate name table run stored}

theorem mem_missingNames {n : String} : n ∈ missingNames name table run stored ↔
    n ∈ (getExpectedColumns table).map Prod.fst ∧ n ∉ stored.columnNames := by
  rw [missingNames, (run.perm _ _).mem_iff, List.mem_filter, decide_eq_true_iff]

theorem mem_goneNames {n : String} : n ∈ goneNames name table run stored ↔
    n ∈ stored.columnNames ∧ n ∉ (getExpectedColumns table).map Prod.fst := by
  rw [goneNames, (run.perm _ _).mem_iff, List.mem_filter, decide_eq_true_iff]

/-- The columns that stay, and those that are added. -/
theorem mem_synced_columns {column : DbColumn Value} :
    column ∈ (synced evaluate name table run stored).columns ↔
      (column ∈ stored.columns ∧ (column.name ∈ (getExpectedColumns table).map Prod.fst ∨
        column.name = "rindexer_id")) ∨
      ∃ n ∈ missingNames name table run stored,
        addedColumn evaluate name table n = some column := by
  rw [synced, DbTable.drop, DbTable.add, List.mem_filter, List.mem_append, List.mem_filterMap,
    decide_eq_true_iff, List.mem_filter, mem_goneNames, decide_eq_true_iff]
  constructor
  · rintro ⟨hColumn | hColumn, hNotGone⟩
    · refine Or.inl ⟨hColumn, ?_⟩
      by_contra hNot
      obtain ⟨hExpected, hId⟩ := not_or.mp hNot
      exact hNotGone ⟨⟨List.mem_map_of_mem hColumn, hExpected⟩, hId⟩
    · exact Or.inr hColumn
  · rintro (⟨hColumn, hKept⟩ | ⟨n, hMissing, hAdded⟩)
    · refine ⟨Or.inl hColumn, ?_⟩
      rintro ⟨⟨-, hExpected⟩, hId⟩
      exact hKept.elim hExpected hId
    · refine ⟨Or.inr ⟨n, hMissing, hAdded⟩, ?_⟩
      rintro ⟨⟨hStored, -⟩, -⟩
      rw [addedColumn_name hAdded] at hStored
      exact (mem_missingNames.mp hMissing).2 hStored

section Names

variable (hNames : (createTable table.definition).columnNames.Nodup)
include hNames

/-- A generated column is added as it is created. -/
theorem addedColumn_generated {d : ColumnDdl} (hd : d ∈ generatedDdl table.definition) :
    addedColumn evaluate name table d.name = some (d.stored evaluate) := by
  obtain ⟨hDefault, -, hSerial, hType⟩ := generatedDdl_spec _ d hd
  rw [addedColumn, columnToAdd_generated hNames hd, Option.bind_some]
  simp only [SchemaChange.column?, ColumnDdl.stored, hDefault, hSerial]
  split
  case isTrue hId => rw [hId]
  case isFalse hId => rw [hType hId]; rfl

theorem addedColumn_untyped {c : TableColumn} (hc : c ∈ table.definition.columns)
    (h : table.typed c.name = false) : addedColumn evaluate name table c.name = none := by
  rw [addedColumn, columnToAdd_column hNames hc, h]
  rfl

theorem addedColumn_typed {c : TableColumn} (hc : c ∈ table.definition.columns)
    (h : table.typed c.name = true) : addedColumn evaluate name table c.name =
      (SchemaChange.addColumn name c.name (addedType c.name (expectedType c.columnType))
        c.default).column? evaluate := by
  rw [addedColumn, columnToAdd_column hNames hc, if_pos h, Option.bind_some]

theorem addable_generated {d : ColumnDdl} (hd : d ∈ generatedDdl table.definition) :
    Addable evaluate name table d.name := by
  intro _
  rw [addedColumn_generated hNames hd]
  rfl

theorem addable_column_iff {c : TableColumn} (hc : c ∈ table.definition.columns) :
    Addable evaluate name table c.name ↔ (table.typed c.name = true → c.name ≠ "rindexer_id" →
      ∀ text ∈ c.default,
        (evaluate (addedType c.name (expectedType c.columnType)) text).isSome) := by
  rw [Addable, columnToAdd_column hNames hc]
  cases hTyped : table.typed c.name with
  | false => simp
  | true =>
    rw [addedColumn_typed hNames hc hTyped]
    simp only [if_true, Option.isSome_some, forall_const, SchemaChange.column?]
    split
    case isTrue hId => simp [hId]
    case isFalse hId =>
      cases c.default with
      | none => simp
      | some text => simp [hId]

theorem mem_names_iff {n : String} : n ∈ (getExpectedColumns table).map Prod.fst ↔
    (∃ d ∈ generatedDdl table.definition, d.name = n) ∨
      ∃ c ∈ table.definition.columns, c.name = n := by
  rw [mem_expectedNames hNames, mem_createTable_columnNames]

/-- What is added is taken just if the defaults are. -/
theorem addable_iff : (∀ n ∈ missingNames name table run stored, Addable evaluate name table n) ↔
    ∀ c ∈ table.definition.columns, table.typed c.name = true → c.name ∉ stored.columnNames →
      c.name ≠ "rindexer_id" → ∀ text ∈ c.default,
        (evaluate (addedType c.name (expectedType c.columnType)) text).isSome := by
  constructor
  · intro h c hc hTyped hMissing
    refine (addable_column_iff hNames hc).mp (h c.name (mem_missingNames.mpr ⟨?_, hMissing⟩)) hTyped
    exact (mem_names_iff hNames).mpr (Or.inr ⟨c, hc, rfl⟩)
  · intro h n hn
    obtain ⟨hExpected, hMissing⟩ := mem_missingNames.mp hn
    rcases (mem_names_iff hNames).mp hExpected with ⟨d, hd, rfl⟩ | ⟨c, hc, rfl⟩
    · exact addable_generated hNames hd
    · exact (addable_column_iff hNames hc).mpr fun hTyped => h c hc hTyped hMissing

end Names

/-- A column of the manifest has no change of type just if its type is unknown or it has the type. -/
theorem typeChange_eq_none_iff (hNames : (createTable table.definition).columnNames.Nodup)
    (hStored : stored.columnNames.Nodup) {c : TableColumn} (hc : c ∈ table.definition.columns) :
    typeChange name table stored c = none ↔ (table.typed c.name = true →
      ∀ d ∈ stored.columns, d.name = c.name → SameType d.type c.columnType) := by
  rw [typeChange, lookup_column hNames hc]
  cases hTyped : table.typed c.name with
  | false => simp [SyncTable.columnType?, hTyped]
  | true =>
    rw [SyncTable.expectedText_of_typed hTyped, SyncTable.columnType?, if_pos hTyped]
    cases hFind : stored.columns.find? fun d => d.name == c.name with
    | none =>
      have hNone := List.find?_eq_none.mp hFind
      simp only [beq_iff_eq] at hNone
      exact iff_of_true rfl fun _ d hd hName => absurd hName (hNone d hd)
    | some existing =>
      have hMem := List.mem_of_find?_eq_some hFind
      have hName : existing.name = c.name := by simpa using List.find?_some hFind
      have hOnly : (∀ d ∈ stored.columns, d.name = c.name → SameType d.type c.columnType) ↔
          SameType existing.type c.columnType := by
        refine ⟨fun h => h existing hMem hName, fun h d hd hEq => ?_⟩
        rwa [List.inj_on_of_nodup_map hStored hd hMem (hEq.trans hName.symm)]
      rw [hOnly, SameType]
      simp [expectedType_ne_unknown]

theorem alterAll_typeChanges {after after' : DbTable Value} :
    alterAll evaluate after (table.definition.columns.filterMap (typeChange name table stored)) =
        some after' ↔
      (∀ c ∈ table.definition.columns, typeChange name table stored c = none) ∧ after' = after := by
  rw [← List.filterMap_eq_nil_iff]
  cases hChanges : table.definition.columns.filterMap (typeChange name table stored) with
  | nil => simp [eq_comm]
  | cons change changes =>
    have hMem : change ∈ table.definition.columns.filterMap (typeChange name table stored) := by
      rw [hChanges]
      exact List.mem_cons_self
    obtain ⟨c, -, hChange⟩ := List.mem_filterMap.mp hMem
    have hKind : ∃ existing expected,
        change = .columnTypeChanged name c.name existing expected := by
      rw [typeChange] at hChange
      split at hChange
      · dsimp only at hChange
        split at hChange
        · exact nomatch hChange
        · exact ⟨_, _, (Option.some.inj hChange).symm⟩
      · exact nomatch hChange
    obtain ⟨existing, expected, rfl⟩ := hKind
    simp [alterAll_cons, SchemaChange.alter]

/-- The key is set to what is expected, if its columns are there. -/
theorem alterAll_keyChange {after after' : DbTable Value} (hKey : stored.primaryKey ≠ [])
    (hKept : stored.primaryKey = getExpectedPkColumns (run.read name table.definition) →
      after.primaryKey = stored.primaryKey ∧ stored.primaryKey ⊆ after.columnNames)
    (hNil : getExpectedPkColumns (run.read name table.definition) ≠ [])
    (hNodup : (getExpectedPkColumns (run.read name table.definition)).Nodup) :
    alterAll evaluate after (keyChange name table run stored) = some after' ↔
      getExpectedPkColumns (run.read name table.definition) ⊆ after.columnNames ∧
        after' = ⟨after.columns, getExpectedPkColumns (run.read name table.definition)⟩ := by
  by_cases hSame : stored.primaryKey = getExpectedPkColumns (run.read name table.definition)
  · obtain ⟨hEq, hSubset⟩ := hKept hSame
    have hNone : keyChange name table run stored = [] := if_neg fun h => h.2 hSame
    rw [hNone, alterAll_nil, ← hSame, ← hEq]
    rw [← hEq] at hSubset
    simp only [Option.some.injEq, hSubset, true_and]
    exact eq_comm
  · have hSome : keyChange name table run stored = [.changePrimaryKey name stored.primaryKey
        (getExpectedPkColumns (run.read name table.definition))] := if_pos ⟨hKey, hSame⟩
    rw [hSome, alterAll_cons]
    simp only [SchemaChange.alter, hNil, hNodup, ne_eq, not_false_eq_true, true_and]
    split
    case isTrue hSubset =>
      simp only [Option.bind_some, alterAll_nil, Option.some.injEq, hSubset, true_and]
      exact eq_comm
    case isFalse hSubset => simp [hSubset]

/-- The changes of a table go through just if nothing that the table is stands against it. -/
theorem alterAll_detectTable (hTable : Creatable evaluate table.definition) (hStored : Keyed stored)
    {after : DbTable Value} :
    alterAll evaluate stored (detectTable name table run stored) = some after ↔
      GoesThrough evaluate table stored ∧ after = synced evaluate name table run stored := by
  have hNames := hTable.columns
  have hRead := hTable.reordered (run.reordered name table.definition)
  have hMissingNodup : (missingNames name table run stored).Nodup :=
    (run.perm name _).nodup_iff.mpr ((nodup_expectedNames hNames).filter (· ∉ stored.columnNames))
  have hGoneNodup : (goneNames name table run stored).Nodup :=
    (run.perm name _).nodup_iff.mpr
      (hStored.nodup.filter (· ∉ (getExpectedColumns table).map Prod.fst))
  have hKeyNames : ∀ n ∈ getExpectedPkColumns (run.read name table.definition),
      n ∈ (getExpectedColumns table).map Prod.fst := fun n hn =>
    (mem_expectedNames hNames).mpr (hTable.key_columns n
      ((mem_primaryKey_of_reordered (run.reordered name table.definition)).mp hn))
  let added := stored.add ((missingNames name table run stored).filterMap
    (addedColumn evaluate name table))
  let dropped := added.drop ((goneNames name table run stored).filter (· ≠ "rindexer_id"))
  have hDrop : alterAll evaluate added ((goneNames name table run stored).filterMap
      (columnToRemove name)) = some dropped := by
    refine alterAll_removes hGoneNodup fun n hn => ?_
    obtain ⟨column, hColumn, rfl⟩ := List.mem_map.mp (mem_goneNames.mp hn).1
    exact List.mem_map_of_mem (List.mem_append_left _ hColumn)
  -- a name of the key is there afterwards if it was there or is added
  have hThere : ∀ n ∈ getExpectedPkColumns (run.read name table.definition),
      n ∈ dropped.columnNames ↔ n ∈ stored.columnNames ∨
        (addedColumn evaluate name table n).isSome := by
    intro n hn
    have hMem : n ∈ dropped.columnNames ↔
        ∃ column ∈ (synced evaluate name table run stored).columns, column.name = n := List.mem_map
    rw [hMem]
    constructor
    · rintro ⟨column, hColumn, rfl⟩
      rcases mem_synced_columns.mp hColumn with ⟨hOld, -⟩ | ⟨n', hn', hAdded⟩
      · exact Or.inl (List.mem_map_of_mem hOld)
      · rw [addedColumn_name hAdded, hAdded]
        exact Or.inr rfl
    · intro h
      by_cases hOld : n ∈ stored.columnNames
      · obtain ⟨column, hColumn, rfl⟩ := List.mem_map.mp hOld
        exact ⟨column, mem_synced_columns.mpr (Or.inl ⟨hColumn, Or.inl (hKeyNames _ hn)⟩), rfl⟩
      · obtain ⟨column, hAdded⟩ := Option.isSome_iff_exists.mp (h.resolve_left hOld)
        exact ⟨column, mem_synced_columns.mpr (Or.inr ⟨n, mem_missingNames.mpr ⟨hKeyNames n hn, hOld⟩,
          hAdded⟩), addedColumn_name hAdded⟩
  have hKept : stored.primaryKey = getExpectedPkColumns (run.read name table.definition) →
      dropped.primaryKey = stored.primaryKey ∧ stored.primaryKey ⊆ dropped.columnNames := by
    intro hSame
    refine ⟨if_neg ?_, fun n hn => (hThere n (hSame ▸ hn)).mpr (Or.inl (hStored.key_columns hn))⟩
    rintro ⟨n, hn, hKey⟩
    exact (mem_goneNames.mp (List.mem_of_mem_filter hn)).2 (hKeyNames n (hSame ▸ hKey))
  have hSplit : alterAll evaluate stored (detectTable name table run stored) = some after ↔
      (∀ n ∈ missingNames name table run stored, Addable evaluate name table n) ∧
        getExpectedPkColumns (run.read name table.definition) ⊆ dropped.columnNames ∧
        (∀ c ∈ table.definition.columns, typeChange name table stored c = none) ∧
        after = synced evaluate name table run stored := by
    rw [detectTable, alterAll_append, alterAll_append, alterAll_append]
    simp only [Option.bind_eq_some_iff]
    constructor
    · rintro ⟨s₃, ⟨s₂, ⟨s₁, hAdds, hRemoves⟩, hKey⟩, hTypes⟩
      obtain ⟨hAddable, rfl⟩ := (alterAll_adds hMissingNodup
        fun n hn => (mem_missingNames.mp hn).2).mp hAdds
      obtain rfl := Option.some.inj (hDrop.symm.trans hRemoves)
      obtain ⟨hSubset, rfl⟩ := (alterAll_keyChange hStored.key_ne_nil hKept hRead.key_ne_nil
        hRead.key_nodup).mp hKey
      obtain ⟨hNone, rfl⟩ := alterAll_typeChanges.mp hTypes
      exact ⟨hAddable, hSubset, hNone, rfl⟩
    · rintro ⟨hAddable, hSubset, hNone, rfl⟩
      refine ⟨_, ⟨dropped, ⟨added, ?_, hDrop⟩, ?_⟩,
        alterAll_typeChanges.mpr ⟨hNone, rfl⟩⟩
      · exact (alterAll_adds hMissingNodup fun n hn => (mem_missingNames.mp hn).2).mpr
          ⟨hAddable, rfl⟩
      · exact (alterAll_keyChange hStored.key_ne_nil hKept hRead.key_ne_nil hRead.key_nodup).mpr
          ⟨hSubset, rfl⟩
  rw [hSplit, addable_iff hNames]
  have hTypes : (∀ c ∈ table.definition.columns, typeChange name table stored c = none) ↔
      ∀ c ∈ table.definition.columns, table.typed c.name = true →
        ∀ d ∈ stored.columns, d.name = c.name → SameType d.type c.columnType :=
    forall₂_congr fun c hc => typeChange_eq_none_iff hNames hStored.nodup hc
  rw [hTypes]
  constructor
  · rintro ⟨hDefaults, hSubset, hSame, hAfter⟩
    refine ⟨⟨hSame, hDefaults, fun c hc hKey hMissing => ?_⟩, hAfter⟩
    have hKey' : c.name ∈ getExpectedPkColumns (run.read name table.definition) :=
      (mem_primaryKey_of_reordered (run.reordered name table.definition)).mpr hKey
    rcases (hThere _ hKey').mp (hSubset hKey') with hOld | hAdded
    · exact absurd hOld hMissing
    · by_contra hUntyped
      rw [addedColumn_untyped hNames hc (by simpa using hUntyped)] at hAdded
      exact nomatch hAdded
  · rintro ⟨hThrough, hAfter⟩
    refine ⟨hThrough.defaults, fun n hn => (hThere n hn).mpr ?_, hThrough.types, hAfter⟩
    by_cases hOld : n ∈ stored.columnNames
    · exact Or.inl hOld
    · right
      rcases (mem_names_iff hNames).mp (hKeyNames n hn) with ⟨d, hd, rfl⟩ | ⟨c, hc, rfl⟩
      · rw [addedColumn_generated hNames hd]
        rfl
      · have hKey := (mem_primaryKey_of_reordered (run.reordered name table.definition)).mp hn
        have hTyped := hThrough.key c hc hKey hOld
        have hAddable : Addable evaluate name table c.name := (addable_column_iff hNames hc).mpr
          fun _ hId => hThrough.defaults c hc hTyped hOld hId
        refine hAddable ?_
        rw [columnToAdd_column hNames hc, if_pos hTyped]
        rfl

end Sync

end Rindexer.Database
