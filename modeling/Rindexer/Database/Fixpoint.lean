import Rindexer.Database.Resync

/-! Where the sync comes to rest: which tables it finds nothing to change in, and when the table that
it leaves is the one that would be created. -/

namespace Rindexer.Database

open Rindexer.Manifest

variable {Value : Type} {evaluate : Evaluate Value} {name : TableName} {table : SyncTable}
  {run : SyncRun} {stored : DbTable Value}

/-! ### Tables that need nothing -/

/-- The sync finds nothing just if each column with a known type is there and has the type, no column
is too much, and the key is the one of this reading. -/
theorem detectTable_eq_nil_iff (hNames : (createTable table.definition).columnNames.Nodup)
    (hStored : stored.columnNames.Nodup) : detectTable name table run stored = [] ↔
      ((∀ d ∈ generatedDdl table.definition, d.name ∈ stored.columnNames) ∧
        ∀ c ∈ table.definition.columns, table.typed c.name = true → c.name ∈ stored.columnNames) ∧
      (∀ n ∈ stored.columnNames, n ∉ (createTable table.definition).columnNames →
        n = "rindexer_id") ∧
      (stored.primaryKey = [] ∨
        stored.primaryKey = (createTable (run.read name table.definition)).primaryKey) ∧
      ∀ c ∈ table.definition.columns, table.typed c.name = true →
        ∀ d ∈ stored.columns, d.name = c.name → SameType d.type c.columnType := by
  have hAdds : (missingNames name table run stored).filterMap (columnToAdd name table) = [] ↔
      (∀ d ∈ generatedDdl table.definition, d.name ∈ stored.columnNames) ∧
        ∀ c ∈ table.definition.columns, table.typed c.name = true →
          c.name ∈ stored.columnNames := by
    rw [List.filterMap_eq_nil_iff]
    constructor
    · intro h
      refine ⟨fun d hd => ?_, fun c hc hTyped => ?_⟩
      · by_contra hMissing
        have hNone := h d.name (mem_missingNames.mpr
          ⟨(mem_names_iff hNames).mpr (Or.inl ⟨d, hd, rfl⟩), hMissing⟩)
        rw [columnToAdd_generated hNames hd] at hNone
        exact nomatch hNone
      · by_contra hMissing
        have hNone := h c.name (mem_missingNames.mpr
          ⟨(mem_names_iff hNames).mpr (Or.inr ⟨c, hc, rfl⟩), hMissing⟩)
        rw [columnToAdd_column hNames hc, if_pos hTyped] at hNone
        exact nomatch hNone
    · rintro ⟨hGenerated, hColumns⟩ n hn
      obtain ⟨hExpected, hMissing⟩ := mem_missingNames.mp hn
      rcases (mem_names_iff hNames).mp hExpected with ⟨d, hd, rfl⟩ | ⟨c, hc, rfl⟩
      · exact absurd (hGenerated d hd) hMissing
      · rw [columnToAdd_column hNames hc, if_neg fun hTyped => hMissing (hColumns c hc hTyped)]
  have hRemoves : (goneNames name table run stored).filterMap (columnToRemove name) = [] ↔
      ∀ n ∈ stored.columnNames, n ∉ (createTable table.definition).columnNames →
        n = "rindexer_id" := by
    rw [List.filterMap_eq_nil_iff]
    constructor
    · intro h n hn hNot
      by_contra hId
      have hNone := h n (mem_goneNames.mpr ⟨hn, fun hMem => hNot ((mem_expectedNames hNames).mp hMem)⟩)
      rw [columnToRemove, if_neg hId] at hNone
      exact nomatch hNone
    · intro h n hn
      obtain ⟨hMem, hNot⟩ := mem_goneNames.mp hn
      exact if_pos (h n hMem fun hExpected => hNot ((mem_expectedNames hNames).mpr hExpected))
  have hKey : keyChange name table run stored = [] ↔ stored.primaryKey = [] ∨
      stored.primaryKey = (createTable (run.read name table.definition)).primaryKey := by
    rw [keyChange]
    show (if stored.primaryKey ≠ [] ∧
      stored.primaryKey ≠ (createTable (run.read name table.definition)).primaryKey then _ else _) =
        [] ↔ _
    split
    case isTrue h => exact iff_of_false (List.cons_ne_nil _ _) (not_or.mpr h)
    case isFalse h => exact iff_of_true rfl (by tauto)
  have hTypes : table.definition.columns.filterMap (typeChange name table stored) = [] ↔
      ∀ c ∈ table.definition.columns, table.typed c.name = true →
        ∀ d ∈ stored.columns, d.name = c.name → SameType d.type c.columnType := by
    rw [List.filterMap_eq_nil_iff]
    exact forall₂_congr fun c hc => typeChange_eq_none_iff hNames hStored hc
  rw [detectTable, List.append_eq_nil_iff, List.append_eq_nil_iff, List.append_eq_nil_iff, hKey, hTypes]
  rw [missingNames] at hAdds
  rw [goneNames] at hRemoves
  rw [hAdds, hRemoves, and_assoc, and_assoc]

/-! ### Tables that were created -/

/-- A table as a reading of the manifest creates it. -/
def newTable (evaluate : Evaluate Value) (t : Table) : DbTable Value :=
  (createTable t).stored evaluate

theorem ColumnDdl.stored_name (d : ColumnDdl) : (d.stored evaluate).name = d.name := by
  rw [ColumnDdl.stored]
  split <;> rfl

theorem columnNames_created (evaluate : Evaluate Value) (t : Table) :
    (newTable evaluate t).columnNames = (createTable t).columnNames := by
  rw [newTable, CreateTable.stored, DbTable.columnNames, List.map_map, CreateTable.columnNames]
  exact List.map_congr_left fun d _ => d.stored_name

theorem created_columns_of_reordered (evaluate : Evaluate Value) {t t' : Table} (h : t.Reordered t') :
    (newTable evaluate t').columns = (newTable evaluate t).columns := by
  rw [newTable, newTable, CreateTable.stored, CreateTable.stored, createTable_columns_of_reordered h]

theorem Creatable.keyed {t : Table} (h : Creatable evaluate t) : Keyed (newTable evaluate t) where
  nodup := by
    rw [columnNames_created]
    exact h.columns
  key_ne_nil := h.key_ne_nil
  key_columns := by
    rw [columnNames_created]
    exact h.key_columns

theorem columnDdl_stored_type (evaluate : Evaluate Value) (c : TableColumn) :
    ((columnDdl c).stored evaluate).type = c.columnType.toPostgresType := by
  have hSerial : c.columnType.toPostgresType ≠ "BIGSERIAL" := by
    cases c.columnType with
    | array inner =>
      intro h
      have hBracketed := bracketed_array inner
      rw [h] at hBracketed
      exact absurd hBracketed (by show ¬ "BIGSERIAL".toList.getLast? = some ']'; decide)
    | _ =>
      rw [ColumnType.toPostgresType]
      decide
  rw [ColumnDdl.stored, if_neg (show (columnDdl c).type ≠ "BIGSERIAL" from hSerial)]
  rfl

theorem columnDdl_stored (c : TableColumn) : (columnDdl c).stored evaluate =
    ⟨c.name, c.columnType.toPostgresType, .constant (c.default.bind fun text =>
      (evaluate c.columnType.toPostgresType (defaultValue c.columnType text)).join)⟩ := by
  have hType := columnDdl_stored_type evaluate c
  rw [ColumnDdl.stored] at hType ⊢
  split
  case isTrue hSerial =>
    rw [if_pos hSerial] at hType
    have hBoth : (columnDdl c).type = "BIGINT" := hType.symm
    rw [hSerial] at hBoth
    exact absurd hBoth (by decide)
  case isFalse =>
    cases hDefault : c.default with
    | none => simp [columnDdl, hDefault]
    | some text => simp [columnDdl, hDefault]

/-- The columns of a created table by the name. -/
theorem mem_created_of_name {t : Table} (hNames : (createTable t).columnNames.Nodup)
    {column : DbColumn Value} (h : column ∈ (newTable evaluate t).columns) {d : ColumnDdl}
    (hd : d ∈ (createTable t).columns) (hName : column.name = d.name) : column = d.stored evaluate := by
  obtain ⟨d', hd', rfl⟩ := List.mem_map.mp h
  rw [ColumnDdl.stored_name] at hName
  rw [List.inj_on_of_nodup_map hNames hd' hd hName]

/-- The sync finds nothing in a created table just if the key is the same in both readings and no
typed column is an array. -/
theorem detectTable_created_iff {t' : Table} (hTable : Creatable evaluate table.definition)
    (hRead : table.definition.Reordered t') :
    detectTable name table run (newTable evaluate t') = [] ↔
      (createTable t').primaryKey = (createTable (run.read name table.definition)).primaryKey ∧
        ∀ c ∈ table.definition.columns, table.typed c.name = true →
          ∀ inner, c.columnType ≠ .array inner := by
  have hColumns := created_columns_of_reordered evaluate hRead
  have hSame : (newTable evaluate t').columnNames = (createTable table.definition).columnNames := by
    rw [← columnNames_created evaluate, DbTable.columnNames, DbTable.columnNames,
      hColumns]
  have hNames := hTable.columns
  rw [detectTable_eq_nil_iff hNames (hSame ▸ hNames), hSame, hColumns]
  have hKey : (newTable evaluate t').primaryKey = (createTable t').primaryKey := rfl
  have hKeyNe : (createTable t').primaryKey ≠ [] := (hTable.reordered hRead).key_ne_nil
  rw [hKey]
  have hTypes : (∀ c ∈ table.definition.columns, table.typed c.name = true →
      ∀ d ∈ (newTable evaluate table.definition).columns, d.name = c.name →
        SameType d.type c.columnType) ↔
      ∀ c ∈ table.definition.columns, table.typed c.name = true →
        ∀ inner, c.columnType ≠ .array inner := by
    refine forall₂_congr fun c hc => forall_congr' fun _ => ?_
    have hMem := mem_createTable_columns.mpr (Or.inr ⟨c, hc, rfl⟩)
    rw [← sameType_created_iff]
    constructor
    · intro h
      have hType := h ((columnDdl c).stored evaluate) (List.mem_map_of_mem hMem)
        (columnDdl c).stored_name
      rwa [columnDdl_stored_type] at hType
    · intro h d hd hName
      rw [mem_created_of_name hNames hd hMem hName, columnDdl_stored_type]
      exact h
  rw [hTypes]
  constructor
  · rintro ⟨-, -, hNil | hEq, hArrays⟩
    · exact absurd hNil hKeyNe
    · exact ⟨hEq, hArrays⟩
  · rintro ⟨hEq, hArrays⟩
    refine ⟨⟨fun d hd => ?_, fun c hc _ => ?_⟩, fun n hn hNot => absurd hn hNot, Or.inr hEq, hArrays⟩
    · exact mem_createTable_columnNames.mpr (Or.inl ⟨d, hd, rfl⟩)
    · exact mem_createTable_columnNames.mpr (Or.inr ⟨c, hc, rfl⟩)

/-! ### Tables that were synced -/

/-- A column that the sync takes for the expected one once it has added it. -/
def Readable (c : TableColumn) : Prop :=
  if c.name = "rindexer_id" then c.columnType.toPostgresType = "BIGINT" else Plain c.columnType

/-- What lets the sync of a table find nothing a second time. -/
structure Settles (table : SyncTable) (stored : DbTable Value) : Prop where
  key : table.definition.KeyOrdered
  added : ∀ c ∈ table.definition.columns, table.typed c.name = true → c.name ∉ stored.columnNames →
    Readable c

/-- The type of a big integer, compared with that of no array and with those of all scalar types. -/
theorem bigint_texts : (normalizePgType (informationSchemaType "BIGINT")).toList.getLast? ≠ some ']' ∧
    ∀ columnType ∈ scalarTypes,
      (normalizePgType (informationSchemaType "BIGINT") = normalizePgType (expectedType columnType) ↔
        columnType.toPostgresType = "BIGINT") := by
  with_unfolding_all decide

theorem sameType_bigint_iff {columnType : ColumnType} :
    SameType "BIGINT" columnType ↔ columnType.toPostgresType = "BIGINT" := by
  cases columnType with
  | array inner =>
    refine iff_of_false (not_sameType_array bigint_texts.1 inner) fun h => ?_
    have hBracketed := bracketed_array inner
    rw [h] at hBracketed
    exact absurd hBracketed (by show ¬ "BIGINT".toList.getLast? = some ']'; decide)
  | _ => exact bigint_texts.2 _ (by simp [scalarTypes])

/-- The names of the columns that every table has. -/
theorem injected_mem_generatedDdl (t : Table) : ∀ n ∈ ["rindexer_tx_hash", "rindexer_block_hash",
    "rindexer_contract_address"], ∃ d ∈ generatedDdl t, d.name = n := by
  rw [generatedDdl, networkDdl, injectedDdl]
  cases t.crossChain <;> cases t.timestamp <;> cases t.isInsertOnly <;> decide

section Names

variable (hNames : (createTable table.definition).columnNames.Nodup)
include hNames

theorem addedColumn_type {c : TableColumn} (hc : c ∈ table.definition.columns)
    (hTyped : table.typed c.name = true) {column : DbColumn Value}
    (h : addedColumn evaluate name table c.name = some column) : column.type =
      if c.name = "rindexer_id" then "BIGINT" else addedType c.name (expectedType c.columnType) := by
  rw [addedColumn_typed hNames hc hTyped] at h
  simp only [SchemaChange.column?] at h
  split at h
  case isTrue hId =>
    rw [if_pos hId, ← Option.some.inj h]
  case isFalse hId =>
    rw [if_neg hId]
    cases hDefault : c.default with
    | none =>
      rw [hDefault] at h
      rw [← Option.some.inj h]
    | some text =>
      rw [hDefault] at h
      obtain ⟨value, -, rfl⟩ := Option.map_eq_some_iff.mp h
      rfl

/-- The sync takes a column that it added for the expected one just if it is readable. -/
theorem sameType_addedColumn_iff {c : TableColumn} (hc : c ∈ table.definition.columns)
    (hTyped : table.typed c.name = true) {column : DbColumn Value}
    (h : addedColumn evaluate name table c.name = some column) :
    SameType column.type c.columnType ↔ Readable c := by
  have hNe : ∀ n ∈ ["rindexer_tx_hash", "rindexer_block_hash", "rindexer_contract_address"],
      c.name ≠ n := by
    intro n hn
    obtain ⟨d, hd, rfl⟩ := injected_mem_generatedDdl table.definition n hn
    exact name_ne_of_generated hNames hd hc
  rw [addedColumn_type hNames hc hTyped h, Readable]
  split
  · exact sameType_bigint_iff
  · exact sameType_added_iff (hNe _ (by simp)) (hNe _ (by simp)) (hNe _ (by simp))

theorem nodup_synced (hStored : stored.columnNames.Nodup) :
    (synced evaluate name table run stored).columnNames.Nodup := by
  have hAdded : ∀ names : List String, ((names.filterMap (addedColumn evaluate name table)).map
      DbColumn.name).Sublist names := by
    intro names
    induction names with
    | nil => exact .slnil
    | cons n names ih =>
      cases hColumn : addedColumn evaluate name table n with
      | none =>
        rw [List.filterMap_cons_none hColumn]
        exact ih.cons n
      | some column =>
        rw [List.filterMap_cons_some hColumn, List.map_cons, addedColumn_name hColumn]
        exact ih.cons_cons n
  have hMissing : (missingNames name table run stored).Nodup :=
    (run.perm name _).nodup_iff.mpr ((nodup_expectedNames hNames).filter (· ∉ stored.columnNames))
  refine List.Nodup.sublist (List.Sublist.map _ List.filter_sublist) ?_
  rw [DbTable.add, List.map_append, List.nodup_append]
  refine ⟨hStored, hMissing.sublist (hAdded _), fun n hn n' hn' hEq => ?_⟩
  exact (mem_missingNames.mp ((hAdded _).subset hn')).2 (hEq ▸ hn)

end Names

/-- A second detection, possibly in another run, finds nothing just if both read the same key and each
added column is readable. -/
theorem detectTable_synced_iff (hTable : Creatable evaluate table.definition) (hStored : Keyed stored)
    (hThrough : GoesThrough evaluate table stored) {second : SyncRun} :
    detectTable name table second (synced evaluate name table run stored) = [] ↔
      (createTable (run.read name table.definition)).primaryKey =
          (createTable (second.read name table.definition)).primaryKey ∧
        ∀ c ∈ table.definition.columns, table.typed c.name = true → c.name ∉ stored.columnNames →
          Readable c := by
  have hNames := hTable.columns
  have hAfter : ∀ {n}, n ∈ (getExpectedColumns table).map Prod.fst → (n ∈ stored.columnNames ∨
      (addedColumn evaluate name table n).isSome) →
        n ∈ (synced evaluate name table run stored).columnNames := by
    intro n hExpected h
    rw [DbTable.columnNames, List.mem_map]
    by_cases hOld : n ∈ stored.columnNames
    · obtain ⟨column, hColumn, rfl⟩ := List.mem_map.mp hOld
      exact ⟨column, mem_synced_columns.mpr (Or.inl ⟨hColumn, Or.inl hExpected⟩), rfl⟩
    · obtain ⟨column, hAdded⟩ := Option.isSome_iff_exists.mp (h.resolve_left hOld)
      exact ⟨column, mem_synced_columns.mpr (Or.inr ⟨n, mem_missingNames.mpr ⟨hExpected, hOld⟩,
        hAdded⟩), addedColumn_name hAdded⟩
  have hAdded : ∀ c ∈ table.definition.columns, table.typed c.name = true →
      c.name ∉ stored.columnNames → ∃ column, addedColumn evaluate name table c.name = some column := by
    intro c hc hTyped hMissing
    refine Option.isSome_iff_exists.mp ((addable_column_iff hNames hc).mpr
      (fun _ hId => hThrough.defaults c hc hTyped hMissing hId) ?_)
    rw [columnToAdd_column hNames hc, if_pos hTyped]
    rfl
  have hGenerated : ∀ d ∈ generatedDdl table.definition,
      d.name ∈ (synced evaluate name table run stored).columnNames := fun d hd =>
    hAfter ((mem_names_iff hNames).mpr (Or.inl ⟨d, hd, rfl⟩))
      (Or.inr (by rw [addedColumn_generated hNames hd]; rfl))
  have hTypedThere : ∀ c ∈ table.definition.columns, table.typed c.name = true →
      c.name ∈ (synced evaluate name table run stored).columnNames := by
    intro c hc hTyped
    refine hAfter ((mem_names_iff hNames).mpr (Or.inr ⟨c, hc, rfl⟩)) ?_
    by_cases hOld : c.name ∈ stored.columnNames
    · exact Or.inl hOld
    · obtain ⟨column, hColumn⟩ := hAdded c hc hTyped hOld
      exact Or.inr (by rw [hColumn]; rfl)
  have hGone : ∀ n ∈ (synced evaluate name table run stored).columnNames,
      n ∉ (createTable table.definition).columnNames → n = "rindexer_id" := by
    intro n hn hNot
    obtain ⟨column, hColumn, rfl⟩ := List.mem_map.mp hn
    rcases mem_synced_columns.mp hColumn with ⟨-, hExpected | hId⟩ | ⟨n', hn', hAdded'⟩
    · exact absurd ((mem_expectedNames hNames).mp hExpected) hNot
    · exact hId
    · rw [addedColumn_name hAdded'] at hNot
      exact absurd ((mem_expectedNames hNames).mp (mem_missingNames.mp hn').1) hNot
  have hKeyNe : (createTable (run.read name table.definition)).primaryKey ≠ [] :=
    (hTable.reordered (run.reordered name table.definition)).key_ne_nil
  have hKey : (synced evaluate name table run stored).primaryKey =
      (createTable (run.read name table.definition)).primaryKey := rfl
  rw [detectTable_eq_nil_iff hNames (nodup_synced hNames hStored.nodup), hKey]
  constructor
  · rintro ⟨-, -, hNil | hEq, hTypes⟩
    · exact absurd hNil hKeyNe
    · refine ⟨hEq, fun c hc hTyped hMissing => ?_⟩
      obtain ⟨column, hColumn⟩ := hAdded c hc hTyped hMissing
      refine (sameType_addedColumn_iff hNames hc hTyped hColumn).mp
        (hTypes c hc hTyped column ?_ (addedColumn_name hColumn))
      refine mem_synced_columns.mpr (Or.inr ⟨c.name, mem_missingNames.mpr ⟨?_, hMissing⟩, hColumn⟩)
      exact (mem_names_iff hNames).mpr (Or.inr ⟨c, hc, rfl⟩)
  · rintro ⟨hEq, hReadable⟩
    refine ⟨⟨hGenerated, hTypedThere⟩, hGone, Or.inr hEq, fun c hc hTyped d hd hName => ?_⟩
    rcases mem_synced_columns.mp hd with ⟨hOld, -⟩ | ⟨n, hn, hColumn⟩
    · exact hThrough.types c hc hTyped d hOld hName
    · obtain rfl : n = c.name := (addedColumn_name hColumn).symm.trans hName
      exact (sameType_addedColumn_iff hNames hc hTyped hColumn).mpr
        (hReadable c hc hTyped (mem_missingNames.mp hn).2)

/-- Two tables with the same columns, types, defaults and primary key. -/
structure Alike (stored stored' : DbTable Value) : Prop where
  columns : ∀ column, column ∈ stored.columns ↔ column ∈ stored'.columns
  primaryKey : stored.primaryKey = stored'.primaryKey

/-- What lets the sync make a table the one that would be created: each column that is missing has a
known, plain type, its default means the same with and without quotes, and each column that is there
is as it would be created. -/
structure Completes (evaluate : Evaluate Value) (table : SyncTable) (stored : DbTable Value) :
    Prop where
  key : table.definition.KeyOrdered
  added : ∀ c ∈ table.definition.columns, c.name ∉ stored.columnNames →
    table.typed c.name = true ∧ c.name ≠ "rindexer_id" ∧ Plain c.columnType ∧
      ∀ text ∈ c.default, evaluate c.columnType.toPostgresType text =
        evaluate c.columnType.toPostgresType (defaultValue c.columnType text)
  kept : ∀ column ∈ stored.columns, ∀ d ∈ (createTable table.definition).columns,
    column.name = d.name → column = d.stored evaluate
  counter : "rindexer_id" ∈ stored.columnNames →
    "rindexer_id" ∈ (createTable table.definition).columnNames

theorem Completes.settles (h : Completes evaluate table stored) : Settles table stored where
  key := h.key
  added := by
    intro c hc _ hMissing
    obtain ⟨-, hId, hPlain, -⟩ := h.added c hc hMissing
    rw [Readable, if_neg hId]
    exact hPlain

/-- A column of a plain type is added as it is created, if its default means the same both ways. -/
theorem addedColumn_eq_iff (hTable : Creatable evaluate table.definition) {c : TableColumn}
    (hc : c ∈ table.definition.columns) (hTyped : table.typed c.name = true)
    (hId : c.name ≠ "rindexer_id") (hPlain : Plain c.columnType)
    (hTaken : ∀ text ∈ c.default,
      (evaluate (addedType c.name (expectedType c.columnType)) text).isSome) :
    addedColumn evaluate name table c.name = some ((columnDdl c).stored evaluate) ↔
      ∀ text ∈ c.default, evaluate c.columnType.toPostgresType text =
        evaluate c.columnType.toPostgresType (defaultValue c.columnType text) := by
  rw [addedColumn_typed hTable.columns hc hTyped, columnDdl_stored]
  simp only [SchemaChange.column?, if_neg hId]
  rw [addedType_of_plain hPlain] at hTaken ⊢
  cases hDefault : c.default with
  | none => simp
  | some text =>
    obtain ⟨raw, hRaw⟩ := Option.isSome_iff_exists.mp (hTaken text hDefault)
    have hCreated := hTable.defaults (columnDdl c)
      (mem_createTable_columns.mpr (Or.inr ⟨c, hc, rfl⟩)) (defaultValue c.columnType text)
      (by simp [columnDdl, hDefault])
    obtain ⟨quoted, hQuoted⟩ := Option.isSome_iff_exists.mp hCreated
    have hQuoted' : evaluate c.columnType.toPostgresType (defaultValue c.columnType text) =
        some quoted := hQuoted
    simp [hRaw, hQuoted']

/-- The columns that the sync leaves are those that would be created. -/
theorem synced_columns_iff (hTable : Creatable evaluate table.definition)
    (hThrough : GoesThrough evaluate table stored) (hKey : table.definition.KeyOrdered)
    (hReadable : ∀ c ∈ table.definition.columns, table.typed c.name = true →
      c.name ∉ stored.columnNames → Readable c) :
    (∀ column, column ∈ (synced evaluate name table run stored).columns ↔
        column ∈ (newTable evaluate table.definition).columns) ↔
      Completes evaluate table stored := by
  have hNames := hTable.columns
  have hMemCreated : ∀ {d : ColumnDdl}, d ∈ (createTable table.definition).columns →
      d.stored evaluate ∈ (newTable evaluate table.definition).columns :=
    fun hd => List.mem_map_of_mem hd
  constructor
  · intro hSame
    refine ⟨hKey, fun c hc hMissing => ?_, fun column hColumn d hd hName => ?_, fun hId => ?_⟩
    · have hMem := mem_createTable_columns.mpr (Or.inr ⟨c, hc, rfl⟩)
      have hAdded : addedColumn evaluate name table c.name =
          some ((columnDdl c).stored evaluate) := by
        rcases mem_synced_columns.mp ((hSame _).mpr (hMemCreated hMem)) with
          ⟨hOld, -⟩ | ⟨n, -, hAdded⟩
        · refine absurd (List.mem_map_of_mem (f := DbColumn.name) hOld) ?_
          rw [ColumnDdl.stored_name]
          exact hMissing
        · obtain rfl : c.name = n := (columnDdl c).stored_name.symm.trans (addedColumn_name hAdded)
          exact hAdded
      have hTyped : table.typed c.name = true := by
        by_contra hUntyped
        rw [addedColumn_untyped hNames hc (by simpa using hUntyped)] at hAdded
        exact nomatch hAdded
      have hId : c.name ≠ "rindexer_id" := by
        intro hId
        rw [addedColumn_typed hNames hc hTyped, columnDdl_stored] at hAdded
        simp [SchemaChange.column?, hId] at hAdded
      have hPlain : Plain c.columnType := by
        have hRead := hReadable c hc hTyped hMissing
        rwa [Readable, if_neg hId] at hRead
      exact ⟨hTyped, hId, hPlain, (addedColumn_eq_iff hTable hc hTyped hId hPlain
        (hThrough.defaults c hc hTyped hMissing hId)).mp hAdded⟩
    · have hExpected : column.name ∈ (getExpectedColumns table).map Prod.fst := by
        rw [mem_expectedNames hNames, hName]
        exact List.mem_map_of_mem hd
      exact mem_created_of_name hNames
        ((hSame column).mp (mem_synced_columns.mpr (Or.inl ⟨hColumn, Or.inl hExpected⟩))) hd hName
    · obtain ⟨column, hColumn, hName⟩ := List.mem_map.mp hId
      have hCreated := (hSame column).mp (mem_synced_columns.mpr (Or.inl ⟨hColumn, Or.inr hName⟩))
      rw [← columnNames_created evaluate, ← hName]
      exact List.mem_map_of_mem hCreated
  · intro h column
    rw [mem_synced_columns]
    constructor
    · rintro (⟨hOld, hKept⟩ | ⟨n, hn, hAdded⟩)
      · have hName : column.name ∈ (createTable table.definition).columnNames := by
          rcases hKept with hExpected | hId
          · exact (mem_expectedNames hNames).mp hExpected
          · rw [hId]
            exact h.counter (hId ▸ List.mem_map_of_mem hOld)
        obtain ⟨d, hd, hEq⟩ := List.mem_map.mp hName
        rw [h.kept column hOld d hd hEq.symm]
        exact hMemCreated hd
      · obtain ⟨hExpected, hMissing⟩ := mem_missingNames.mp hn
        rcases (mem_names_iff hNames).mp hExpected with ⟨d, hd, rfl⟩ | ⟨c, hc, rfl⟩
        · rw [addedColumn_generated hNames hd] at hAdded
          obtain rfl := Option.some.inj hAdded
          exact hMemCreated (mem_createTable_columns.mpr (Or.inl hd))
        · obtain ⟨hTyped, hId, hPlain, hDefault⟩ := h.added c hc hMissing
          have hEq : addedColumn evaluate name table c.name =
              some ((columnDdl c).stored evaluate) :=
            (addedColumn_eq_iff hTable hc hTyped hId hPlain
              (hThrough.defaults c hc hTyped hMissing hId)).mpr hDefault
          obtain rfl := Option.some.inj (hEq.symm.trans hAdded)
          exact hMemCreated (mem_createTable_columns.mpr (Or.inr ⟨c, hc, rfl⟩))
    · intro hCreated
      obtain ⟨d, hd, rfl⟩ := List.mem_map.mp hCreated
      by_cases hOld : d.name ∈ stored.columnNames
      · obtain ⟨column, hColumn, hName⟩ := List.mem_map.mp hOld
        rw [← h.kept column hColumn d hd hName]
        refine Or.inl ⟨hColumn, Or.inl ?_⟩
        rw [mem_expectedNames hNames, hName]
        exact List.mem_map_of_mem hd
      · refine Or.inr ⟨d.name, mem_missingNames.mpr ⟨?_, hOld⟩, ?_⟩
        · rw [mem_expectedNames hNames]
          exact List.mem_map_of_mem hd
        · rcases mem_createTable_columns.mp hd with hd | ⟨c, hc, rfl⟩
          · exact addedColumn_generated hNames hd
          · obtain ⟨hTyped, hId, hPlain, hDefault⟩ := h.added c hc hOld
            exact (addedColumn_eq_iff hTable hc hTyped hId hPlain
              (hThrough.defaults c hc hTyped hOld hId)).mpr hDefault

end Rindexer.Database
