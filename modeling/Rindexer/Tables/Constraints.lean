import Rindexer.Database.CreateTable
import Rindexer.Manifest.Validation
import Rindexer.Tables.Checkpoint
import Rindexer.Tables.Transparency

/-! The inserts and upserts of a custom table against the table that is created for it: the columns of
`ON CONFLICT`, and the null values and repeated keys that the table does not take. -/

namespace Rindexer.Tables

open Rindexer.Database Rindexer.Manifest Rindexer.Reorg

/-! ### Column names in a statement -/

inductive SqlIdentifier
  | bare (name : String)
  | quoted (name : String)
deriving DecidableEq, Repr

/-- `RESERVED_KEYWORDS`. -/
def reservedKeywords : List String := ["group", "user", "order", "table", "index", "primary", "key"]

def quoteIdentifier (name : String) : SqlIdentifier :=
  if name ∈ reservedKeywords then .quoted name else .bare name

/-- The column that an identifier names, `bareName` giving what the server makes of a bare word. -/
def SqlIdentifier.named (bareName : String → Option String) : SqlIdentifier → Option String
  | .bare name => bareName name
  | .quoted name => some name

/-- What a server makes of a bare word: it folds its case, and refuses what is no identifier. -/
structure FoldsNames (bareName : String → Option String) : Prop where
  network : bareName "network" = some "network"
  folded : ∀ name name', bareName name = some name' → bareName name' = some name'

/-! ### What the runtime builds -/

namespace Operation

/-- The columns that the statement of an operation matches its rows by. -/
def distinctColumns (op : Operation) : List String := if op.isInsert then [] else op.keys

/-- The columns of `ON CONFLICT`. -/
def conflictColumns (t : Texts) (op : Operation) : List String :=
  let whereColumns := ((op.columns t).filter fun c => c.action = .whereColumn).map
    DynamicColumnDefinition.name
  if whereColumns ≠ [] then whereColumns else op.distinctColumns

/-- The columns that an operation gives a value to, with the references of the values. -/
def entries (op : Operation) : List (String × String) :=
  op.operation.whereClause ++ op.operation.set.map fun s => (s.column, s.effectiveValue)

/-- The reference of the last value that an operation gives to a column. -/
def lastRef (op : Operation) (column : String) : Option String := op.entries.reverse.lookup column

/-- The rows of the statements for the rows of a batch. -/
def statements (t : Texts) (op : Operation) (rows : List TableRow) : List (List TableRow) :=
  BatchOperation.chunks (Nat.max (32767 / ((op.columns t).length + 1)) 1) rows.length rows

/-- The row of a cron trigger, if the operation gives a value to some column. -/
def cronRow {ε : Type} (x : Extraction ε) (op : Operation) (e : EventData ε) : Option TableRowData :=
  let columns := op.rowColumns x e.logParams e
  if columns = [] then none
  else some ⟨columns, e.network, e.txMetadata,
    if op.table.timestamp then e.txMetadata.blockTimestamp else none⟩

/-- All values that an operation takes from an event resolve, and only `$null` to null. -/
def Resolves {ε : Type} (x : Extraction ε) (op : Operation) (e : EventData ε) (params : ε) : Prop :=
  ∀ w ∈ op.entries, ∀ c, (op.table.columns.find? fun c => c.name == w.1) = some c →
    ∃ value, x.extractValue w.2 params e.txMetadata c.columnType e.network = some value ∧
      (value = .null ↔ w.2 = "$null")

end Operation

/-- An operation that a trigger of a table runs: that of the mapping of an event, or of a cron. -/
inductive Runs (t : Table) : Operation → Prop
  | event {event : String} {mapping : TableEventMapping} {op : TableOperation}
    (hMapping : t.mapping? event = some mapping) (hOp : op ∈ mapping.operations) :
    Runs t ⟨t, mapping, op⟩
  | cron {op : TableOperation} (hOp : op ∈ t.cronOperations) : Runs t ⟨t, ⟨"", [], []⟩, op⟩

/-- The rows that an operation is run on: those of a batch of events, or of the triggers of a cron,
with values that all resolve. -/
inductive Writes {ε : Type} (x : Extraction ε) (t : Table) : Operation → List TableRowData → Prop
  | event {event : String} {mapping : TableEventMapping} {op : TableOperation}
    {events : List (EventData ε)} (hMapping : t.mapping? event = some mapping)
    (hOp : op ∈ mapping.operations)
    (hResolves : ∀ e ∈ events, ∀ elements,
      x.expandIterateBindings mapping.iterate e.logParams = some elements →
        ∀ params ∈ elements, Operation.Resolves x ⟨t, mapping, op⟩ e params) :
    Writes x t ⟨t, mapping, op⟩ (Operation.batchRows x ⟨t, mapping, op⟩ events)
  | cron {op : TableOperation} {triggers : List (EventData ε)} (hOp : op ∈ t.cronOperations)
    (hResolves : ∀ e ∈ triggers, Operation.Resolves x ⟨t, ⟨"", [], []⟩, op⟩ e e.logParams)
    (hNow : ∀ e ∈ triggers, e.txMetadata.blockTimestamp ≠ none) :
    Writes x t ⟨t, ⟨"", [], []⟩, op⟩
      (triggers.filterMap (Operation.cronRow x ⟨t, ⟨"", [], []⟩, op⟩))

/-! ### Violated constraints -/

/-- The value of a column for a group of rows is null: that of the last row, or an aggregate, and these
skip the nulls. -/
def CoalescesToNull (arithmetic : Bool) (c : DynamicColumnDefinition) (group : List TableRow)
    (last : TableRow) : Prop :=
  if arithmetic = true ∧ c.aggregate ≠ .groupKey ∧ c.aggregate ≠ .lastBySeq then
    ∀ row ∈ group, row.fields c.name = .null
  else last.fields c.name = .null

/-- A statement inserts a null into a column that takes none. -/
def NullViolation (sv : Server) (t : Texts) (op : Operation) (rows : List TableRow) : Prop :=
  ∃ c ∈ op.columns t, (createTable op.table).requires c.name ∧
    match op.operation.operationType with
    | .insert => ∃ row ∈ rows, row.fields c.name = .null
    | .upsert => ∃ key last,
        BatchOperation.latest? (sv.scan (rows.filter fun row => op.keys.map row.fields = key)) =
          some last ∧
        CoalescesToNull ((op.columns t).any fun c => c.action.isArithmetic) c
          (rows.filter fun row => op.keys.map row.fields = key) last
    | _ => False

/-- An insert repeats a primary key.  An upsert updates the row that has it, and an insert-only table
counts its rows. -/
def KeyViolation (op : Operation) (contents : Contents) (rows : List TableRow) : Prop :=
  op.operation.operationType = .insert ∧ op.table.isInsertOnly = false ∧
    ((∃ row ∈ rows, contents.keyed (op.keys.map row.fields) ≠ none) ∨
      ¬ (rows.map fun row => op.keys.map row.fields).Nodup)

/-- The columns of `ON CONFLICT` are those of the primary key. -/
def ConflictIsKey (bareName : String → Option String) (t : Texts) (op : Operation) : Prop :=
  ∀ name, name ∈ (op.conflictColumns t).map (fun column => (quoteIdentifier column).named bareName) ↔
    name ∈ (createTable op.table).primaryKey.map some

/-- What is generated for a table fits together. -/
structure GeneratedFits (sv : Server) (bareName : String → Option String)
    (acceptsDefault : String → String → Bool) (texts : Texts) (t : Table) : Prop where
  wellFormed : (createTable t).WellFormed acceptsDefault
  conflicts : ∀ op, Runs t op → op.operation.operationType = .upsert → ConflictIsKey bareName texts op
  writes : ∀ {ε : Type} (x : Extraction ε) (op : Operation) (rows : List TableRowData),
    Writes x t op rows → ∀ contents, ∀ statement ∈ op.statements texts (rows.map (op.tableRow texts)),
      ¬ NullViolation sv texts op statement ∧ ¬ KeyViolation op contents statement

/-! ### When it fits -/

/-- An operation gives a value to a column of the table, and so has rows. -/
def Operation.Assigns (op : Operation) : Prop :=
  ∃ w ∈ op.entries, w.1 ∈ op.table.columns.map TableColumn.name

/-- A column gets a value that is not null: the last that the operation gives it, or else the
default. -/
def Operation.Gives (op : Operation) (c : TableColumn) : Prop :=
  match op.lastRef c.name with
  | some ref => ref ≠ "$null"
  | none => c.default ≠ none

/-- What the checks look at: the columns that are neither optional nor taken to be generated, in an
insert of an event. -/
def Operation.Checked (op : Operation) (c : TableColumn) : Prop :=
  op.operation.operationType = .insert ∧ op.operation ∉ op.table.cronOperations ∧
    c.name ∉ Table.autoColumns ∧ c.name ∉ op.table.optionalColumns

/-- The condition on a table for what is generated to fit together. -/
structure FitsTable (bareName : String → Option String) (acceptsDefault : String → String → Bool)
    (t : Table) : Prop where
  columns : (createTable t).columnNames.Nodup
  key : ¬ (t.crossChain = true ∧ (t.global = true ∨ t.allOperations = []))
  key_columns : ∀ column ∈ t.primaryKeyColumns,
    column ∈ t.columns.map TableColumn.name ∨ column ∈ injectedNames t
  defaults : ∀ c ∈ t.columns, ∀ default ∈ c.default,
    acceptsDefault c.columnType.toPostgresType (defaultValue c.columnType default) = true
  upserts : ∀ op, Runs t op → op.operation.operationType = .upsert → ∀ column ∈ t.primaryKeyColumns,
    column ∈ t.columns.map TableColumn.name ∧ (quoteIdentifier column).named bareName = some column
  inserts : ∀ op, Runs t op → op.operation.operationType = .insert → op.Assigns →
    t.isInsertOnly = true
  given : ∀ op, Runs t op → op.operation.operationType ∈ [OperationType.insert, .upsert] →
    op.Assigns → ∀ c ∈ t.columns,
      c.nullable = false ∨ (t.isInsertOnly = false ∧ c.name ∈ t.primaryKeyColumns) →
        op.Checked c ∨ op.Gives c

/-! ### The values of a row -/

section Rows

variable {ε : Type} {x : Extraction ε} {op : Operation}

theorem find?_column {columns : List TableColumn} (h : (columns.map TableColumn.name).Nodup)
    {c : TableColumn} (hc : c ∈ columns) : (columns.find? fun d => d.name == c.name) = some c := by
  cases hFind : columns.find? fun d => d.name == c.name with
  | none => simpa using List.find?_eq_none.mp hFind c hc
  | some d =>
    have hName := List.find?_some hFind
    rw [List.inj_on_of_nodup_map h (List.mem_of_find?_eq_some hFind) hc (by simpa using hName)]

theorem rowColumns_eq (params : ε) (e : EventData ε) : op.rowColumns x params e =
    op.entries.reverse.filterMap fun w => op.columnValue x params e w.1 w.2 := by
  rw [Operation.rowColumns, Operation.entries, List.reverse_append, List.filterMap_append,
    List.filterMap_reverse, List.filterMap_reverse, List.filterMap_map]
  rfl

/-- The value of a column in a row, from the reference of the entry that gives it. -/
def ValueOf (ref : Option String) (value : Option SqlValue) : Prop :=
  match ref with
  | some ref => ∃ v, value = some v ∧ (v = .null ↔ ref = "$null")
  | none => value = none

theorem valueOf_lookup {params : ε} {e : EventData ε} {c : TableColumn} {l : List (String × String)}
    (hFind : (op.table.columns.find? fun d => d.name == c.name) = some c)
    (hResolves : ∀ w ∈ l, ∀ d, (op.table.columns.find? fun d => d.name == w.1) = some d →
      ∃ value, x.extractValue w.2 params e.txMetadata d.columnType e.network = some value ∧
        (value = .null ↔ w.2 = "$null")) :
    ValueOf (l.lookup c.name)
      ((l.filterMap fun w => op.columnValue x params e w.1 w.2).lookup c.name) := by
  induction l with
  | nil => rfl
  | cons w l ih =>
    have hRest := ih fun w' hw' => hResolves w' (List.mem_cons_of_mem w hw')
    obtain ⟨column, ref⟩ := w
    by_cases hName : column = c.name
    · subst hName
      obtain ⟨value, hValue, hNull⟩ := hResolves _ List.mem_cons_self c hFind
      have hEntry : op.columnValue x params e c.name ref = some (c.name, value) := by
        rw [Operation.columnValue, hFind, Option.bind_some, hValue, Option.map_some]
      simp only [List.filterMap_cons, hEntry, List.lookup_cons, beq_self_eq_true]
      exact ⟨value, rfl, hNull⟩
    · have hOther : (c.name == column) = false := by simpa using Ne.symm hName
      rw [List.lookup_cons, hOther, List.filterMap_cons]
      cases hEntry : op.columnValue x params e column ref with
      | none => exact hRest
      | some entry =>
        obtain ⟨d, -, hd⟩ := Option.bind_eq_some_iff.mp hEntry
        obtain ⟨value, -, rfl⟩ := Option.map_eq_some_iff.mp hd
        simp only [List.lookup_cons, hOther]
        exact hRest

/-- A row that an operation has from an event or a trigger. -/
structure BuiltRow (x : Extraction ε) (op : Operation) (row : TableRowData) : Prop where
  columns : ∃ e params, op.Resolves x e params ∧ row.columns = op.rowColumns x params e
  ne_nil : row.columns ≠ []
  timestamp : op.table.timestamp = true → ∃ time, row.blockTimestamp = some time

theorem elementRow_built {e : EventData ε} {params : ε} {row : TableRowData}
    (hResolves : op.Resolves x e params) (h : op.elementRow x e params = .ok (some row)) :
    BuiltRow x op row := by
  unfold Operation.elementRow at h
  split at h
  case isTrue => cases h
  case isFalse =>
    dsimp only at h
    split at h
    case isTrue => cases h
    case isFalse hNonEmpty =>
      split at h
      case isTrue =>
        split at h
        · cases h
        · cases h
          exact ⟨⟨e, params, hResolves, rfl⟩, hNonEmpty, fun _ => ⟨_, rfl⟩⟩
      case isFalse hTime =>
        cases h
        exact ⟨⟨e, params, hResolves, rfl⟩, hNonEmpty, fun h => absurd h hTime⟩

theorem elementRows_mem {e : EventData ε} {elements : List ε} {rows : List TableRowData}
    (h : op.elementRows x e elements = .ok rows) {row : TableRowData} (hRow : row ∈ rows) :
    ∃ params ∈ elements, op.elementRow x e params = .ok (some row) := by
  induction elements generalizing rows with
  | nil =>
    cases h
    cases hRow
  | cons params elements ih =>
    rw [Operation.elementRows] at h
    cases hFirst : op.elementRow x e params with
    | error m =>
      rw [hFirst] at h
      cases h
    | ok first =>
      cases hRest : op.elementRows x e elements with
      | error m =>
        rw [hFirst, hRest] at h
        cases h
      | ok rest =>
        rw [hFirst, hRest] at h
        cases h
        rcases List.mem_append.mp hRow with hRow | hRow
        · cases first with
          | none => cases hRow
          | some first =>
            cases List.mem_singleton.mp hRow
            exact ⟨params, List.mem_cons_self, hFirst⟩
        · obtain ⟨params', hMem, hElement⟩ := ih hRest hRow
          exact ⟨params', List.mem_cons_of_mem _ hMem, hElement⟩

/-- What an operation of a table is run on. -/
theorem writes_spec {t : Table} {rows : List TableRowData} (h : Writes x t op rows) :
    Runs t op ∧ ∀ row ∈ rows, BuiltRow x op row := by
  cases h with
  | event hMapping hOp hResolves =>
    refine ⟨.event hMapping hOp, fun row hRow => ?_⟩
    obtain ⟨e, he, rows, hRows, hRow⟩ := Operation.mem_batchRows.mp hRow
    obtain ⟨params, hParams, hElement⟩ := elementRows_mem hRows hRow
    cases hExpand : x.expandIterateBindings _ e.logParams with
    | none =>
      rw [hExpand] at hParams
      cases hParams
    | some elements =>
      rw [hExpand, Option.getD_some] at hParams
      exact elementRow_built (hResolves e he elements hExpand params hParams) hElement
  | cron hOp hResolves hNow =>
    refine ⟨.cron hOp, fun row hRow => ?_⟩
    obtain ⟨e, he, hBuilt⟩ := List.mem_filterMap.mp hRow
    simp only [Operation.cronRow] at hBuilt
    split at hBuilt
    case isTrue => cases hBuilt
    case isFalse hNonEmpty =>
      cases hBuilt
      refine ⟨⟨e, e.logParams, hResolves e he, rfl⟩, hNonEmpty, fun hTime => ?_⟩
      obtain ⟨time, hTime'⟩ := Option.ne_none_iff_exists'.mp (hNow e he)
      exact ⟨time, by rw [if_pos hTime, hTime']⟩

theorem Runs.table {t : Table} (h : Runs t op) : op.table = t := by
  cases h with
  | event => rfl
  | cron => rfl

theorem Runs.mem {t : Table} (h : Runs t op) : op.operation ∈ t.allOperations := by
  cases h with
  | event hMapping hOp =>
    exact List.mem_append_left _ (List.mem_flatMap.mpr ⟨_, List.mem_of_find?_eq_some hMapping, hOp⟩)
  | cron hOp => exact List.mem_append_right _ hOp

/-- A row has a value for a column of its table. -/
theorem BuiltRow.assigns {row : TableRowData} (h : BuiltRow x op row) : op.Assigns := by
  obtain ⟨e, params, -, hColumns⟩ := h.columns
  obtain ⟨entry, hEntry⟩ := List.exists_mem_of_ne_nil _ h.ne_nil
  rw [hColumns, rowColumns_eq] at hEntry
  obtain ⟨w, hw, hValue⟩ := List.mem_filterMap.mp hEntry
  obtain ⟨d, hd, -⟩ := Option.bind_eq_some_iff.mp hValue
  refine ⟨w, List.mem_reverse.mp hw, List.mem_map.mpr ⟨d, List.mem_of_find?_eq_some hd, ?_⟩⟩
  simpa using List.find?_some hd

variable {texts : Texts} (hLiteral : ∀ text type, texts.literalToWrapper text type ≠ .null)
  (hNames : (createTable op.table).columnNames.Nodup)

include hNames in
theorem network_not_mem (hCross : op.table.crossChain = false) :
    "network" ∉ op.table.columns.map TableColumn.name := by
  rw [columnNames_createTable, List.nodup_append, List.nodup_append] at hNames
  intro h
  refine hNames.1.2.2 "network" ?_ _ h rfl
  rw [networkDdl, hCross]
  exact List.mem_singleton_self _

include hLiteral hNames in
/-- The value of a column of the table is null exactly if the operation does not give it one. -/
theorem fields_eq_null_iff {row : TableRowData} (hRow : BuiltRow x op row) {c : TableColumn}
    (hc : c ∈ op.table.columns) :
    (op.tableRow texts row).fields c.name = .null ↔ ¬ op.Gives c := by
  have hColumns : (op.table.columns.map TableColumn.name).Nodup := by
    rw [columnNames_createTable, List.nodup_append, List.nodup_append] at hNames
    exact hNames.1.2.1
  have hFind := find?_column hColumns hc
  have hNotNetwork : ¬ (c.name = "network" ∧ op.table.crossChain = false) := by
    rintro ⟨hName, hCross⟩
    exact network_not_mem hNames hCross (hName ▸ List.mem_map_of_mem hc)
  obtain ⟨e, params, hResolves, hRowColumns⟩ := hRow.columns
  have hValue := valueOf_lookup (l := op.entries.reverse) hFind fun w hw =>
    hResolves w (List.mem_reverse.mp hw)
  rw [← rowColumns_eq, ← hRowColumns] at hValue
  simp only [Operation.tableRow, if_neg hNotNetwork, hFind]
  rw [Operation.Gives, Operation.lastRef]
  cases hRef : op.entries.reverse.lookup c.name with
  | some ref =>
    rw [hRef] at hValue
    obtain ⟨v, hLookup, hNull⟩ := hValue
    simp only [hLookup, not_not]
    exact hNull
  | none =>
    rw [hRef] at hValue
    have hLookup : row.columns.lookup c.name = none := hValue
    simp only [hLookup]
    cases hDefault : c.default with
    | none => simp
    | some text => simp [hLiteral]

include hNames in
theorem injected_ne_null {row : TableRowData} (hRow : BuiltRow x op row)
    {d : DynamicColumnDefinition} (hd : d ∈ Operation.injectedColumns op.table) :
    (op.tableRow texts row).fields d.name ≠ .null := by
  have hName : d.name ∈ injectedNames op.table := by
    rw [Operation.injectedColumns] at hd
    rw [injectedNames, injectedDdl]
    cases hTime : op.table.timestamp with
    | false =>
      simp only [hTime, Bool.false_eq_true, if_false, List.append_nil, List.cons_append,
        List.nil_append, List.mem_cons, List.not_mem_nil, or_false] at hd
      rcases hd with rfl | rfl | rfl | rfl <;> simp
    | true =>
      simp only [hTime, if_true, List.cons_append, List.nil_append, List.mem_cons,
        List.not_mem_nil, or_false] at hd
      rcases hd with rfl | rfl | rfl | rfl | rfl <;> simp
  have hFind : (op.table.columns.find? fun c => c.name == d.name) = none := by
    rw [List.find?_eq_none]
    intro c hc hEq
    rw [columnNames_createTable, List.nodup_append] at hNames
    exact hNames.2.2 c.name (List.mem_append_right _ (List.mem_map_of_mem hc)) _ hName
      (by simpa using hEq)
  have hNotNetwork : ¬ (d.name = "network" ∧ op.table.crossChain = false) := by
    rintro ⟨hEq, hCross⟩
    rw [columnNames_createTable, List.nodup_append] at hNames
    refine hNames.2.2 "network" (List.mem_append_left _ ?_) _ hName hEq.symm
    rw [networkDdl, hCross]
    exact List.mem_singleton_self _
  simp only [Operation.tableRow, if_neg hNotNetwork, hFind]
  rw [Operation.injectedColumns] at hd
  cases hTime : op.table.timestamp with
  | false =>
    simp only [hTime, Bool.false_eq_true, if_false, List.append_nil, List.cons_append,
      List.nil_append, List.mem_cons, List.not_mem_nil, or_false] at hd
    rcases hd with rfl | rfl | rfl | rfl <;> simp [Operation.injectedValue]
  | true =>
    obtain ⟨time, hStamp⟩ := hRow.timestamp hTime
    simp only [hTime, if_true, List.cons_append, List.nil_append, List.mem_cons,
      List.not_mem_nil, or_false] at hd
    rcases hd with rfl | rfl | rfl | rfl | rfl <;> simp [Operation.injectedValue, hTime, hStamp]

include hLiteral hNames in
/-- A row has a value for every column that takes no null, if the operation gives one to those of the
table. -/
theorem fields_ne_null {row : TableRowData} (hRow : BuiltRow x op row)
    (hGives : ∀ c ∈ op.table.columns, (createTable op.table).requires c.name → op.Gives c)
    {d : DynamicColumnDefinition} (hd : d ∈ op.columns texts)
    (hRequires : (createTable op.table).requires d.name) :
    (op.tableRow texts row).fields d.name ≠ .null := by
  rcases List.mem_append.mp hd with hd | hd
  · rcases List.mem_append.mp hd with hd | hd
    · rw [Operation.networkColumns] at hd
      split at hd
      case isTrue => cases hd
      case isFalse hCross =>
        obtain rfl := List.mem_singleton.mp hd
        simp [Operation.tableRow, hCross]
    · obtain ⟨c, hc, rfl⟩ := List.mem_map.mp hd
      have hNull := fields_eq_null_iff hLiteral hNames hRow hc
      exact fun h => hNull.mp h (hGives c hc hRequires)
  · exact injected_ne_null hNames hRow hd

theorem mem_statements {rows statement : List TableRow} (h : statement ∈ op.statements texts rows) :
    ∀ row ∈ statement, row ∈ rows := by
  intro row hRow
  have hFlatten : (op.statements texts rows).flatten = rows := BatchOperation.flatten_chunks
    (Nat.lt_of_lt_of_le Nat.zero_lt_one (Nat.le_max_right _ _)) le_rfl
  rw [← hFlatten]
  exact List.mem_flatten.mpr ⟨statement, h, hRow⟩

/-- A statement whose rows have a value for every column that takes no null inserts no null. -/
theorem not_nullViolation {sv : Server} {rows : List TableRow}
    (h : ∀ row ∈ rows, ∀ d ∈ op.columns texts, (createTable op.table).requires d.name →
      row.fields d.name ≠ .null) : ¬ NullViolation sv texts op rows := by
  rintro ⟨d, hd, hRequires, hInserted⟩
  cases hType : op.operation.operationType with
  | insert =>
    rw [hType] at hInserted
    obtain ⟨row, hRow, hNull⟩ := hInserted
    exact h row hRow d hd hRequires hNull
  | upsert =>
    rw [hType] at hInserted
    obtain ⟨key, last, hLast, hNull⟩ := hInserted
    have hIn := ((sv.scan_perm _).mem_iff).mp (BatchOperation.latest?_spec hLast).1
    have hRow := (List.mem_filter.mp hIn).1
    rw [CoalescesToNull] at hNull
    split at hNull
    case isTrue => exact h last hRow d hd hRequires (hNull last hIn)
    case isFalse => exact h last hRow d hd hRequires hNull
  | update =>
    rw [hType] at hInserted
    exact hInserted
  | delete =>
    rw [hType] at hInserted
    exact hInserted

end Rows

/-! ### The tables that fit -/

section Fits

variable {sv : Server} {bareName : String → Option String} {acceptsDefault : String → String → Bool}
  {texts : Texts} {t : Table}

/-- An insert-only table has no `where` clause, nor has a global table. -/
theorem primaryKeyColumns_eq_nil (hAccepted : t.Accepted)
    (h : t.isInsertOnly = true ∨ t.global = true) : t.primaryKeyColumns = [] := by
  have hNone : ∀ op ∈ t.allOperations, op.whereClause = [] := by
    intro op hOp
    cases hGlobal : t.global with
    | true => exact (Table.global_of_validateWhereColumns hAccepted.whereColumns hGlobal op hOp).1
    | false =>
      have hOnly := h.resolve_right (by simp [hGlobal])
      rw [Table.isInsertOnly, Bool.and_eq_true, List.all_eq_true] at hOnly
      exact (Table.where_of_validateWhereColumns hAccepted.whereColumns hGlobal).1 op hOp
        (by simpa using hOnly.2 op hOp)
  exact Table.primaryKeyColumns_eq_nil_iff.mpr hNone

/-- A table that is neither insert-only nor global, and has operations, tells its rows apart by a
column. -/
theorem primaryKeyColumns_ne_nil (hAccepted : t.Accepted) (hOnly : t.isInsertOnly = false)
    (hGlobal : t.global = false) (hOps : t.allOperations ≠ []) : t.primaryKeyColumns ≠ [] := by
  have hOther : ∃ op ∈ t.allOperations, op.operationType ≠ .insert := by
    by_contra hAll
    push Not at hAll
    rw [Table.isInsertOnly, Bool.and_eq_false_iff] at hOnly
    rcases hOnly with hNil | hSome
    · exact hOps (by simpa using hNil)
    · rw [List.all_eq_false] at hSome
      obtain ⟨op, hOp, hType⟩ := hSome
      exact hType (by simpa using hAll op hOp)
  obtain ⟨op, hOp, hType⟩ := hOther
  have hWhere := ((Table.where_of_validateWhereColumns hAccepted.whereColumns hGlobal).2 op hOp hType).1
  intro hNone
  exact hWhere (Table.primaryKeyColumns_eq_nil_iff.mp hNone op hOp)

/-- Only the columns of the manifest have defaults. -/
theorem generated_default : ∀ c ∈ networkDdl t ++ injectedDdl t, c.default = none := by
  rw [networkDdl, injectedDdl]
  cases t.crossChain <;> cases t.timestamp <;> cases t.isInsertOnly <;> decide

theorem mem_columnNames {column : String} : column ∈ (createTable t).columnNames ↔
    (t.crossChain = false ∧ column = "network") ∨ column ∈ t.columns.map TableColumn.name ∨
      column ∈ injectedNames t := by
  rw [columnNames_createTable, List.mem_append, List.mem_append, networkDdl, or_assoc]
  cases t.crossChain <;> simp

/-- The statement that creates an accepted table makes sense exactly if its columns have different
names, its rows are told apart by columns that it has, and its defaults have a meaning. -/
theorem wellFormed_iff (hAccepted : t.Accepted) :
    (createTable t).WellFormed acceptsDefault ↔ (createTable t).columnNames.Nodup ∧
      ¬ (t.crossChain = true ∧ (t.global = true ∨ t.allOperations = [])) ∧
      (∀ column ∈ t.primaryKeyColumns,
        column ∈ t.columns.map TableColumn.name ∨ column ∈ injectedNames t) ∧
      ∀ c ∈ t.columns, ∀ default ∈ c.default,
        acceptsDefault c.columnType.toPostgresType (defaultValue c.columnType default) = true := by
  have hKeyOf : t.isInsertOnly = false → (createTable t).primaryKey =
      (if t.crossChain then [] else ["network"]) ++ t.primaryKeyColumns := by
    intro hOnly
    rw [createTable, hOnly]
    rfl
  constructor
  · rintro ⟨hColumns, hNonEmpty, hNodup, hKey, hDefaults⟩
    refine ⟨hColumns, ?_, fun column hColumn => ?_, fun c hc default hDefault => ?_⟩
    · rintro ⟨hCross, hNothing⟩
      have hOnly : t.isInsertOnly = false := by
        rcases hNothing with hGlobal | hNil
        · rw [Table.isInsertOnly, Bool.and_eq_false_iff]
          by_cases hNil : t.allOperations = []
          · exact Or.inl (by simp [hNil])
          · right
            obtain ⟨op, hOp⟩ := List.exists_mem_of_ne_nil _ hNil
            have hType := (Table.global_of_validateWhereColumns hAccepted.whereColumns hGlobal op hOp).2
            rw [List.all_eq_false]
            exact ⟨op, hOp, by simpa using hType⟩
        · simp [Table.isInsertOnly, hNil]
      refine hNonEmpty ?_
      rw [hKeyOf hOnly, hCross, if_pos rfl, List.nil_append]
      rcases hNothing with hGlobal | hNil
      · exact primaryKeyColumns_eq_nil hAccepted (Or.inr hGlobal)
      · simp [Table.primaryKeyColumns, hNil]
    · cases hOnly : t.isInsertOnly with
      | true =>
        rw [primaryKeyColumns_eq_nil hAccepted (Or.inl hOnly)] at hColumn
        cases hColumn
      | false =>
        rw [hKeyOf hOnly] at hNodup hKey
        rcases mem_columnNames.mp (hKey column (List.mem_append_right _ hColumn)) with
          ⟨hCross, rfl⟩ | hIn
        · rw [hCross, if_neg Bool.false_ne_true] at hNodup
          exact absurd hColumn (List.nodup_cons.mp hNodup).1
        · exact hIn
    · refine hDefaults (columnDdl c) ?_ _ ?_
      · exact List.mem_append_left _ (List.mem_append_right _ (List.mem_map_of_mem hc))
      · exact Option.mem_map.mpr ⟨default, hDefault, rfl⟩
  · rintro ⟨hColumns, hKey, hKeyColumns, hDefaults⟩
    have hDefault : ∀ c ∈ (createTable t).columns, ∀ text ∈ c.default,
        acceptsDefault c.type text = true := by
      intro c hc text hText
      rcases List.mem_append.mp hc with hc | hc
      · rcases List.mem_append.mp hc with hc | hc
        · rw [generated_default c (List.mem_append_left _ hc)] at hText
          cases hText
        · obtain ⟨d, hd, rfl⟩ := List.mem_map.mp hc
          obtain ⟨default, hDefault, rfl⟩ := Option.mem_map.mp hText
          exact hDefaults d hd default hDefault
      · rw [generated_default c (List.mem_append_right _ hc)] at hText
        cases hText
    cases hOnly : t.isInsertOnly with
    | true =>
      have hEq : (createTable t).primaryKey =
          (if t.crossChain then [] else ["network"]) ++ ["rindexer_id"] := by
        rw [createTable, hOnly]
        rfl
      have hId : "rindexer_id" ∈ injectedNames t := by
        rw [injectedNames, injectedDdl, hOnly]
        simp
      refine ⟨hColumns, by simp [hEq], ?_, ?_, hDefault⟩
      · rw [hEq]
        cases t.crossChain <;> simp
      · intro name hName
        rw [hEq] at hName
        rw [mem_columnNames]
        rcases List.mem_append.mp hName with hName | hName
        · cases hCross : t.crossChain with
          | true => simp [hCross] at hName
          | false => exact Or.inl ⟨rfl, by simpa [hCross] using hName⟩
        · exact Or.inr (Or.inr (List.mem_singleton.mp hName ▸ hId))
    | false =>
      have hNotNetwork : t.crossChain = false → "network" ∉ t.primaryKeyColumns := by
        intro hCross hIn
        rw [columnNames_createTable, networkDdl, hCross, List.append_assoc] at hColumns
        have hCons : ("network" :: (t.columns.map TableColumn.name ++ injectedNames t)).Nodup :=
          hColumns
        refine (List.nodup_cons.mp hCons).1 ?_
        rcases hKeyColumns _ hIn with hIn | hIn
        · exact List.mem_append_left _ hIn
        · exact List.mem_append_right _ hIn
      refine ⟨hColumns, ?_, ?_, ?_, hDefault⟩
      · rw [hKeyOf hOnly]
        cases hCross : t.crossChain with
        | false => simp
        | true =>
          obtain ⟨hGlobal, hOps⟩ := not_or.mp fun h => hKey ⟨hCross, h⟩
          simpa using primaryKeyColumns_ne_nil hAccepted hOnly (by simpa using hGlobal) hOps
      · rw [hKeyOf hOnly]
        cases hCross : t.crossChain with
        | false => exact List.nodup_cons.mpr ⟨hNotNetwork hCross, t.nodup_primaryKeyColumns⟩
        | true => exact t.nodup_primaryKeyColumns
      · intro name hName
        rw [hKeyOf hOnly] at hName
        rw [mem_columnNames]
        rcases List.mem_append.mp hName with hName | hName
        · cases hCross : t.crossChain with
          | true => simp [hCross] at hName
          | false => exact Or.inl ⟨rfl, by simpa [hCross] using hName⟩
        · exact Or.inr (hKeyColumns name hName)

theorem mem_conflictColumns {op : Operation} (hInsert : op.isInsert = false) {name : String} :
    name ∈ op.conflictColumns texts ↔ name ∈ op.keys := by
  rw [Operation.conflictColumns]
  split
  case isTrue =>
    rw [Operation.mem_keys hInsert, List.mem_map]
    simp only [List.mem_filter, decide_eq_true_eq]
    constructor
    · rintro ⟨c, ⟨hc, hWhere⟩, hName⟩
      exact ⟨c, hc, hName, hWhere⟩
    · rintro ⟨c, hc, hName, hWhere⟩
      exact ⟨c, ⟨hc, hWhere⟩, hName⟩
  case isFalse => rw [Operation.distinctColumns, hInsert, if_neg Bool.false_ne_true]

theorem FoldsNames.named_eq (hFolds : FoldsNames bareName) {column name : String}
    (h : (quoteIdentifier column).named bareName = some name) :
    (quoteIdentifier name).named bareName = some name := by
  rw [quoteIdentifier] at h ⊢
  split at h
  case isTrue hReserved =>
    obtain rfl := Option.some.inj h
    rw [if_pos hReserved]
    rfl
  case isFalse =>
    split
    · rfl
    · exact hFolds.folded _ _ h

/-- The columns of `ON CONFLICT` are those of the key exactly if they are columns of the table whose
names are written as they are read. -/
theorem conflictIsKey_iff (hFolds : FoldsNames bareName) (hNodup : (createTable t).primaryKey.Nodup)
    {op : Operation} (hRuns : Runs t op) (hUpsert : op.operation.operationType = .upsert) :
    ConflictIsKey bareName texts op ↔ ∀ column ∈ t.primaryKeyColumns,
      column ∈ t.columns.map TableColumn.name ∧
        (quoteIdentifier column).named bareName = some column := by
  have hInsert : op.isInsert = false := by simp [Operation.isInsert, hUpsert]
  have hOnly : t.isInsertOnly = false := by
    rw [Table.isInsertOnly, Bool.and_eq_false_iff]
    right
    rw [List.all_eq_false]
    exact ⟨op.operation, hRuns.mem, by simp [hUpsert]⟩
  have hKey : (createTable t).primaryKey =
      (if t.crossChain then [] else ["network"]) ++ t.primaryKeyColumns := by
    rw [createTable, hOnly]
    rfl
  have hKeys : ∀ name, name ∈ op.keys ↔ name ∈ (if t.crossChain then [] else ["network"]) ∨
      (name ∈ t.columns.map TableColumn.name ∧ name ∈ t.primaryKeyColumns) := by
    intro name
    rw [Operation.keys, hRuns.table, List.mem_append, List.mem_filter, Table.mem_primaryKeyColumns]
  have hNetwork : (quoteIdentifier "network").named bareName = some "network" := by
    rw [quoteIdentifier, if_neg (by decide)]
    exact hFolds.network
  rw [ConflictIsKey, hRuns.table]
  simp only [List.mem_map, mem_conflictColumns hInsert, hKeys, hKey, List.mem_append]
  constructor
  · intro hSame column hColumn
    have hNamed : ∀ name, (name ∈ (if t.crossChain then [] else ["network"]) ∨
        name ∈ t.primaryKeyColumns) → (quoteIdentifier name).named bareName = some name ∧
          (name ∈ (if t.crossChain then [] else ["network"]) ∨
            (name ∈ t.columns.map TableColumn.name ∧ name ∈ t.primaryKeyColumns)) := by
      intro name hName
      obtain ⟨name', hIn, hEq⟩ := (hSame (some name)).mpr ⟨name, hName, rfl⟩
      have hFixed := hFolds.named_eq hEq
      obtain ⟨name'', hIn', hEq'⟩ := (hSame (some name')).mpr
        ⟨name', hIn.imp id And.right, rfl⟩
      have hOther := hFolds.named_eq hEq'
      obtain rfl := Option.some.inj (hEq.symm.trans hOther)
      exact ⟨hFixed, by simpa only [List.mem_map] using hIn⟩
    obtain ⟨hFixed, hIn⟩ := hNamed column (Or.inr hColumn)
    refine ⟨?_, hFixed⟩
    rcases hIn with hIn | ⟨hIn, -⟩
    · cases hCross : t.crossChain with
      | true => simp [hCross] at hIn
      | false =>
        rw [hKey, hCross, if_neg Bool.false_ne_true] at hNodup
        rw [hCross, if_neg Bool.false_ne_true, List.mem_singleton] at hIn
        exact absurd (hIn ▸ hColumn) (List.nodup_cons.mp hNodup).1
    · simpa using hIn
  · rintro hColumns name
    constructor
    · rintro ⟨column, hIn, rfl⟩
      rcases hIn with hIn | ⟨-, hIn⟩
      · refine ⟨column, Or.inl hIn, ?_⟩
        cases hCross : t.crossChain with
        | true => simp [hCross] at hIn
        | false =>
          rw [hCross, if_neg Bool.false_ne_true, List.mem_singleton] at hIn
          rw [hIn, hNetwork]
      · exact ⟨column, Or.inr hIn, (hColumns column hIn).2.symm⟩
    · rintro ⟨column, hIn, rfl⟩
      rcases hIn with hIn | hIn
      · refine ⟨column, Or.inl hIn, ?_⟩
        cases hCross : t.crossChain with
        | true => simp [hCross] at hIn
        | false =>
          rw [hCross, if_neg Bool.false_ne_true, List.mem_singleton] at hIn
          rw [hIn, hNetwork]
      · exact ⟨column, Or.inr ⟨by simpa using (hColumns column hIn).1, hIn⟩, (hColumns column hIn).2⟩

/-! ### A row of every operation -/

/-- An extraction that gives every reference but `$null` the value 1. -/
def plainExtraction : Extraction Unit where
  expandIterateBindings _ params := some [params]
  hasTableReferences _ := true
  evaluateFilter _ _ _ := true
  extractValue ref _ _ _ _ := some (if ref = "$null" then .null else .num 1)
  cachedBlockTimestamp _ _ := none

def plainEvent : EventData Unit := ⟨(), "ethereum", ⟨1, some 1, "", "", "", 0, 0⟩⟩

/-- The row that an operation has from the plain event. -/
def plainRow (op : Operation) : TableRowData where
  columns := op.rowColumns plainExtraction () plainEvent
  network := "ethereum"
  txMetadata := plainEvent.txMetadata
  blockTimestamp := if op.table.timestamp then some 1 else none

theorem plain_resolves (op : Operation) : op.Resolves plainExtraction plainEvent () := by
  intro w _ c _
  refine ⟨_, rfl, ?_⟩
  split <;> simp [*]

/-- An operation that gives a value to a column has a row from the plain event. -/
theorem plainRow_ne_nil {op : Operation} (h : op.Assigns) :
    op.rowColumns plainExtraction () plainEvent ≠ [] := by
  obtain ⟨w, hw, hColumn⟩ := h
  obtain ⟨c, hc, hName⟩ := List.mem_map.mp hColumn
  cases hFind : op.table.columns.find? fun d => d.name == w.1 with
  | none =>
    have hNot := List.find?_eq_none.mp hFind c hc
    simp [hName] at hNot
  | some d =>
    have hValue : op.columnValue plainExtraction () plainEvent w.1 w.2 =
        some (w.1, if w.2 = "$null" then .null else .num 1) := by
      rw [Operation.columnValue, hFind]
      rfl
    rw [rowColumns_eq]
    exact List.ne_nil_of_mem (List.mem_filterMap.mpr ⟨w, List.mem_reverse.mpr hw, hValue⟩)

theorem plainRow_built {op : Operation} (h : op.Assigns) :
    BuiltRow plainExtraction op (plainRow op) :=
  ⟨⟨plainEvent, (), plain_resolves op, rfl⟩, plainRow_ne_nil h, fun hTime => ⟨1, if_pos hTime⟩⟩

theorem writes_plainRow {op : Operation} (hRuns : Runs t op) (h : op.Assigns) :
    Writes plainExtraction t op [plainRow op] := by
  have hNonEmpty := plainRow_ne_nil h
  cases hRuns with
  | @event event mapping operation hMapping hOp =>
    have hRows : Operation.batchRows plainExtraction ⟨t, mapping, operation⟩ [plainEvent] =
        [plainRow ⟨t, mapping, operation⟩] := by
      have hElement : Operation.elementRow plainExtraction ⟨t, mapping, operation⟩ plainEvent () =
          .ok (some (plainRow ⟨t, mapping, operation⟩)) := by
        have hRust : Operation.rustCondition plainExtraction ⟨t, mapping, operation⟩ = none := by
          rw [Operation.rustCondition, Option.filter_eq_none_iff]
          intro c _
          simp [plainExtraction]
        simp only [Operation.elementRow, hRust, Option.any_none, Bool.false_eq_true, if_false,
          if_neg hNonEmpty]
        cases hTime : t.timestamp <;> simp [plainRow, plainEvent, hTime]
      have hEvent : Operation.eventRows plainExtraction ⟨t, mapping, operation⟩ plainEvent =
          .ok [plainRow ⟨t, mapping, operation⟩] := by
        rw [Operation.eventRows]
        show Operation.elementRows plainExtraction ⟨t, mapping, operation⟩ plainEvent [()] = _
        simp only [Operation.elementRows, hElement, Option.toList_some, List.append_nil]
      rw [Operation.batchRows, List.flatMap_singleton, hEvent]
      rfl
    rw [← hRows]
    exact .event hMapping hOp fun e _ _ _ params _ => plain_resolves _
  | @cron operation hOp =>
    have hRows : [plainEvent].filterMap (Operation.cronRow plainExtraction ⟨t, ⟨"", [], []⟩, operation⟩) =
        [plainRow ⟨t, ⟨"", [], []⟩, operation⟩] := by
      have hRow : Operation.cronRow plainExtraction ⟨t, ⟨"", [], []⟩, operation⟩ plainEvent =
          some (plainRow ⟨t, ⟨"", [], []⟩, operation⟩) := by
        simp only [Operation.cronRow]
        exact if_neg hNonEmpty
      simp only [List.filterMap_cons, hRow, List.filterMap_nil]
    rw [← hRows]
    refine .cron hOp (fun e he => ?_) fun e he => ?_
    · rw [List.mem_singleton.mp he]
      exact plain_resolves _
    · rw [List.mem_singleton.mp he]
      exact Option.some_ne_none _

theorem statements_singleton (op : Operation) (row : TableRow) :
    op.statements texts [row] = [[row]] := by
  rw [Operation.statements]
  obtain ⟨n, hn⟩ : ∃ n, Nat.max (32767 / ((op.columns texts).length + 1)) 1 = n + 1 :=
    Nat.exists_eq_add_one.mpr (Nat.lt_of_lt_of_le Nat.zero_lt_one (Nat.le_max_right _ _))
  simp only [hn, List.length_singleton, BatchOperation.chunks, List.take_succ_cons, List.take_nil]

/-- A statement for one row inserts its nulls. -/
theorem nullViolation_singleton {op : Operation} {row : TableRow} {d : DynamicColumnDefinition}
    (hd : d ∈ op.columns texts) (hRequires : (createTable op.table).requires d.name)
    (hType : op.operation.operationType ∈ [OperationType.insert, .upsert])
    (hNull : row.fields d.name = .null) : NullViolation sv texts op [row] := by
  refine ⟨d, hd, hRequires, ?_⟩
  cases hOp : op.operation.operationType with
  | insert => exact ⟨row, List.mem_singleton_self row, hNull⟩
  | upsert =>
    refine ⟨op.keys.map row.fields, row, ?_, ?_⟩
    · have hScan : sv.scan [row] = [row] := List.perm_singleton.mp (sv.scan_perm _)
      rw [List.filter_cons_of_pos (by simp), List.filter_nil, hScan]
      rfl
    · rw [CoalescesToNull]
      split
      · intro r hr
        rw [List.mem_singleton.mp (List.mem_filter.mp hr).1]
        exact hNull
      · exact hNull
  | update => simp [hOp] at hType
  | delete => simp [hOp] at hType

theorem lastRef_mem {op : Operation} {column ref : String} (h : op.lastRef column = some ref) :
    (column, ref) ∈ op.entries := by
  rw [Operation.lastRef, List.lookup_eq_some_iff] at h
  obtain ⟨l, l', hEq, -⟩ := h
  rw [← List.mem_reverse, hEq]
  simp

theorem gives_of_lastRef {op : Operation} {c : TableColumn} {ref : String}
    (h : op.lastRef c.name = some ref) (hRef : ref ≠ "$null") : op.Gives c := by
  rw [Operation.Gives, h]
  exact hRef

/-- What the checks look at is given a value. -/
theorem gives_of_checked (hAccepted : t.Accepted) {op : Operation} (hRuns : Runs t op)
    {c : TableColumn} (hc : c ∈ t.columns) (hChecked : op.Checked c) : op.Gives c := by
  obtain ⟨hInsert, hNotCron, hAuto, hOptional⟩ := hChecked
  have hNullable : c.name ∉ t.nullableColumns := by
    intro hIn
    rw [hRuns.table] at hOptional
    obtain ⟨d, hd, hName⟩ := List.mem_map.mp hIn
    obtain ⟨hd, hNullable⟩ := List.mem_filter.mp hd
    exact hOptional (List.mem_map.mpr ⟨d, List.mem_filter.mpr ⟨hd, by simp [hNullable]⟩, hName⟩)
  have hSet : c.name ∈ op.operation.set.map SetColumn.column := by
    cases hRuns with
    | @event event mapping operation hMapping hOp =>
      rcases Table.set_of_validateRequiredColumns hAccepted.requiredColumns
          (List.mem_of_find?_eq_some hMapping) hOp hInsert hc with h | h | h
      · exact absurd h hAuto
      · exact absurd h hOptional
      · exact h
    | cron hOp => exact absurd hOp hNotCron
  rw [Operation.Gives]
  cases hRef : op.lastRef c.name with
  | none =>
    obtain ⟨column, hColumn, hName⟩ := List.mem_map.mp hSet
    rw [Operation.lastRef, List.lookup_eq_none_iff] at hRef
    have hEntry : (column.column, column.effectiveValue) ∈ op.entries.reverse :=
      List.mem_reverse.mpr (List.mem_append_right _ (List.mem_map_of_mem hColumn))
    have hNot := hRef _ hEntry
    simp [hName] at hNot
  | some ref =>
    rintro rfl
    obtain ⟨hWhere, hValues⟩ := Table.nullable_of_validateNullValues hAccepted.nullValues hRuns.mem
    rcases List.mem_append.mp (lastRef_mem hRef) with hIn | hIn
    · exact hNullable (hWhere _ hIn rfl)
    · obtain ⟨column, hColumn, hEq⟩ := List.mem_map.mp hIn
      obtain ⟨hName, hValue⟩ := Prod.mk.inj hEq
      exact hNullable (hName ▸ hValues column hColumn hValue)

theorem fits_of_generated (hAccepted : t.Accepted) (hFolds : FoldsNames bareName)
    (hLiteral : ∀ text type, texts.literalToWrapper text type ≠ .null)
    (hGenerated : GeneratedFits sv bareName acceptsDefault texts t) :
    FitsTable bareName acceptsDefault t := by
  obtain ⟨hWellFormed, hConflicts, hWrites⟩ := hGenerated
  obtain ⟨hColumns, hKey, hKeyColumns, hDefaults⟩ := (wellFormed_iff hAccepted).mp hWellFormed
  refine ⟨hColumns, hKey, hKeyColumns, hDefaults, ?_, ?_, ?_⟩
  · intro op hRuns hUpsert
    exact (conflictIsKey_iff hFolds hWellFormed.key_nodup hRuns hUpsert).mp
      (hConflicts op hRuns hUpsert)
  · intro op hRuns hInsert hAssigns
    by_contra hOnly
    have hStatement := hWrites plainExtraction op _ (writes_plainRow hRuns hAssigns)
      ⟨fun _ => some (op.tableRow texts (plainRow op)), []⟩ [op.tableRow texts (plainRow op)]
      (by rw [List.map_singleton, statements_singleton]; exact List.mem_singleton_self _)
    refine hStatement.2 ⟨hInsert, ?_, Or.inl ⟨_, List.mem_singleton_self _, Option.some_ne_none _⟩⟩
    rw [hRuns.table]
    simpa using hOnly
  · intro op hRuns hType hAssigns c hc hRequired
    by_contra hNot
    obtain ⟨-, hGives⟩ := not_or.mp hNot
    have hStatement := hWrites plainExtraction op _ (writes_plainRow hRuns hAssigns)
      ⟨fun _ => none, []⟩ [op.tableRow texts (plainRow op)]
      (by rw [List.map_singleton, statements_singleton]; exact List.mem_singleton_self _)
    refine hStatement.1 ?_
    have hTable := hRuns.table
    subst hTable
    refine nullViolation_singleton (d := op.columnDefinition texts c) ?_ ?_ hType ?_
    · exact List.mem_append_left _ (List.mem_append_right _ (List.mem_map_of_mem hc))
    · exact (requires_iff hColumns hc).mpr hRequired
    · exact (fields_eq_null_iff hLiteral hColumns (plainRow_built hAssigns) hc).mpr hGives

theorem generated_of_fits (hAccepted : t.Accepted) (hFolds : FoldsNames bareName)
    (hLiteral : ∀ text type, texts.literalToWrapper text type ≠ .null)
    (hFits : FitsTable bareName acceptsDefault t) :
    GeneratedFits sv bareName acceptsDefault texts t := by
  have hWellFormed : (createTable t).WellFormed acceptsDefault :=
    (wellFormed_iff hAccepted).mpr
      ⟨hFits.columns, hFits.key, hFits.key_columns, hFits.defaults⟩
  refine ⟨hWellFormed, fun op hRuns hUpsert => ?_, ?_⟩
  · exact (conflictIsKey_iff hFolds hWellFormed.key_nodup hRuns hUpsert).mpr
      (hFits.upserts op hRuns hUpsert)
  · intro ε x op rows hWrites contents statement hStatement
    obtain ⟨hRuns, hBuilt⟩ := writes_spec hWrites
    have hTable := hRuns.table
    subst hTable
    have hRow : ∀ row ∈ statement, ∃ built, BuiltRow x op built ∧ op.tableRow texts built = row := by
      intro row hMem
      obtain ⟨built, hIn, rfl⟩ := List.mem_map.mp (mem_statements hStatement row hMem)
      exact ⟨built, hBuilt built hIn, rfl⟩
    constructor
    · by_cases hType : op.operation.operationType ∈ [OperationType.insert, .upsert]
      · apply not_nullViolation
        intro row hMem d hd hRequires
        obtain ⟨built, hBuiltRow, rfl⟩ := hRow row hMem
        refine fields_ne_null hLiteral hFits.columns hBuiltRow (fun c hc hRequired => ?_) hd hRequires
        rcases hFits.given op hRuns hType hBuiltRow.assigns c hc
          ((requires_iff hFits.columns hc).mp hRequired) with hChecked | hGives
        · exact gives_of_checked hAccepted hRuns hc hChecked
        · exact hGives
      · rintro ⟨d, -, -, hInserted⟩
        cases hOp : op.operation.operationType with
        | insert => simp [hOp] at hType
        | upsert => simp [hOp] at hType
        | update =>
          rw [hOp] at hInserted
          exact hInserted
        | delete =>
          rw [hOp] at hInserted
          exact hInserted
    · rintro ⟨hInsert, hOnly, hRepeats⟩
      have hSome : ∃ row, row ∈ statement := by
        rcases hRepeats with ⟨row, hMem, -⟩ | hRepeats
        · exact ⟨row, hMem⟩
        · cases statement with
          | nil => exact absurd List.nodup_nil hRepeats
          | cons row rest => exact ⟨row, List.mem_cons_self⟩
      obtain ⟨row, hMem⟩ := hSome
      obtain ⟨built, hBuiltRow, -⟩ := hRow row hMem
      rw [hFits.inserts op hRuns hInsert hBuiltRow.assigns] at hOnly
      cases hOnly

/-- What is generated for an accepted table fits together exactly if the table fits: the parts that the
checks leave open. -/
theorem generatedFits_iff (sv : Server) (bareName : String → Option String)
    (acceptsDefault : String → String → Bool) (texts : Texts) (t : Table) (hAccepted : t.Accepted)
    (hFolds : FoldsNames bareName)
    (hLiteral : ∀ text type, texts.literalToWrapper text type ≠ .null) :
    GeneratedFits sv bareName acceptsDefault texts t ↔ FitsTable bareName acceptsDefault t :=
  ⟨fits_of_generated hAccepted hFolds hLiteral, generated_of_fits hAccepted hFolds hLiteral⟩

end Fits

theorem foldsNames_some : FoldsNames some := ⟨rfl, fun _ _ _ => rfl⟩

theorem zero_literal : ∀ text type, Texts.zero.literalToWrapper text type ≠ .null := by
  intro text type h
  cases h

theorem balances_accepted : balances.Accepted := ⟨by rfl, by rfl, by rfl⟩

theorem generatedFits_iff_balances :
    GeneratedFits plainServer some (fun _ _ => true) Texts.zero balances := by
  refine (generatedFits_iff plainServer some (fun _ _ => true) Texts.zero balances balances_accepted
    foldsNames_some zero_literal).mpr ?_
  have hOps : ∀ op, Runs balances op → op.table = balances ∧
      (op.operation = debit ∨ op.operation = credit) := by
    intro op hRuns
    refine ⟨hRuns.table, ?_⟩
    have hMem : op.operation ∈ [debit, credit] := hRuns.mem
    simpa using hMem
  refine ⟨by decide, by decide, by decide, fun _ _ _ _ => rfl, ?_, ?_, ?_⟩
  · intro op _ _ column hColumn
    exact ⟨by revert column; decide, by rw [quoteIdentifier]; split <;> rfl⟩
  · intro op hRuns hInsert
    rcases (hOps op hRuns).2 with h | h
    · rw [h] at hInsert
      cases hInsert
    · rw [h] at hInsert
      cases hInsert
  · intro op hRuns _ _ c hc _
    right
    rw [show balances.columns = [⟨"holder", .address, false, none⟩,
      ⟨"balance", .uint256, false, some "0"⟩] from rfl, List.mem_pair] at hc
    rcases (hOps op hRuns).2 with h | h
    · have hEntries : op.entries = [("holder", "$from"), ("balance", "$value")] := by
        rw [Operation.entries, h]
        rfl
      rcases hc with rfl | rfl
      · exact gives_of_lastRef (by rw [Operation.lastRef, hEntries]; rfl) (by decide)
      · exact gives_of_lastRef (by rw [Operation.lastRef, hEntries]; rfl) (by decide)
    · have hEntries : op.entries = [("holder", "$to"), ("balance", "$value")] := by
        rw [Operation.entries, h]
        rfl
      rcases hc with rfl | rfl
      · exact gives_of_lastRef (by rw [Operation.lastRef, hEntries]; rfl) (by decide)
      · exact gives_of_lastRef (by rw [Operation.lastRef, hEntries]; rfl) (by decide)

/-- The balances with the block of the first transfer, which no operation sets. -/
def seenBalances : Table :=
  { balances with columns := balances.columns ++ [⟨"first_seen", .uint64, false, none⟩] }

/-- A debit of `seenBalances` does not say what to insert as the first block. -/
theorem unset_column_inserted :
    ¬ ∀ (sv : Server) (bareName : String → Option String) (acceptsDefault : String → String → Bool)
      (texts : Texts) (t : Table), t.Accepted → FoldsNames bareName →
      (∀ text type, texts.literalToWrapper text type ≠ .null) →
      GeneratedFits sv bareName acceptsDefault texts t := by
  intro hClaim
  have hAccepted : seenBalances.Accepted := ⟨by rfl, by rfl, by rfl⟩
  have hFits := fits_of_generated hAccepted foldsNames_some zero_literal <|
    hClaim plainServer some (fun _ _ => true) Texts.zero seenBalances hAccepted foldsNames_some
      zero_literal
  have hRuns : Runs seenBalances ⟨seenBalances, ⟨"Transfer", [], [debit, credit]⟩, debit⟩ :=
    @Runs.event seenBalances "Transfer" _ debit rfl List.mem_cons_self
  rcases hFits.given _ hRuns (by decide)
      ⟨("holder", "$from"), by decide, by decide⟩ ⟨"first_seen", .uint64, false, none⟩ (by decide)
      (Or.inl rfl) with hChecked | hGives
  · exact absurd hChecked.1 (by decide)
  · have hNone : ¬ (none : Option String) ≠ none := by decide
    exact hNone hGives

end Rindexer.Tables
