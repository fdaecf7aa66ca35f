import Mathlib.Logic.Function.Basic
import Rindexer.Database.CreateTable
import Rindexer.Lib.Transition

/-! The statements that set a database up and what they do to it: schemas, tables with their rows, and
a batch of statements that runs as a whole or not at all.  A statement touches a table by itself, so
what a batch leaves of a table depends on what the table was before and on nothing else. -/

namespace Rindexer.Database

structure TableName where
  schema : List Char
  table : List Char
deriving DecidableEq, Repr

/-- A row: its columns with their texts. -/
abbrev StoredRow := List (String × String)

structure StoredTable where
  ddl : CreateTable
  rows : List StoredRow
deriving DecidableEq, Repr

namespace StoredTable

/-- `ADD COLUMN IF NOT EXISTS`. -/
def addColumn (stored : StoredTable) (column : ColumnDdl) : StoredTable :=
  if column.name ∈ stored.ddl.columnNames then stored
  else { stored with ddl := { stored.ddl with columns := stored.ddl.columns ++ [column] } }

def rekey (stored : StoredTable) (key : List String) : StoredTable :=
  { stored with ddl := { stored.ddl with primaryKey := key } }

/-- `INSERT … ON CONFLICT (key) DO NOTHING`. -/
def insertIfAbsent (stored : StoredTable) (key : String) (row : StoredRow) : StoredTable :=
  if stored.rows.any fun r => r.lookup key == row.lookup key then stored
  else { stored with rows := stored.rows ++ [row] }

theorem columnNames_subset_addColumn (stored : StoredTable) (column : ColumnDdl) :
    stored.ddl.columnNames ⊆ (stored.addColumn column).ddl.columnNames := by
  rw [addColumn]
  split
  · exact List.Subset.refl _
  · simp [CreateTable.columnNames]

theorem mem_columnNames_addColumn (stored : StoredTable) (column : ColumnDdl) :
    column.name ∈ (stored.addColumn column).ddl.columnNames := by
  rw [addColumn]
  split
  · assumption
  · simp [CreateTable.columnNames]

theorem addColumn_primaryKey (stored : StoredTable) (column : ColumnDdl) :
    (stored.addColumn column).ddl.primaryKey = stored.ddl.primaryKey := by
  rw [addColumn]
  split <;> rfl

theorem addColumn_rows (stored : StoredTable) (column : ColumnDdl) :
    (stored.addColumn column).rows = stored.rows := by
  rw [addColumn]
  split <;> rfl

theorem insertIfAbsent_ddl (stored : StoredTable) (key : String) (row : StoredRow) :
    (stored.insertIfAbsent key row).ddl = stored.ddl := by
  rw [insertIfAbsent]
  split <;> rfl

theorem insertIfAbsent_eq (stored : StoredTable) (key : String) (row : StoredRow) :
    stored.insertIfAbsent key row = ⟨stored.ddl, (stored.insertIfAbsent key row).rows⟩ := by
  rw [insertIfAbsent]
  split <;> rfl

end StoredTable

structure Catalog where
  schemas : List Char → Bool
  tables : TableName → Option StoredTable

namespace Catalog

def empty : Catalog := ⟨fun _ => false, fun _ => none⟩

def set (db : Catalog) (table : TableName) (stored : Option StoredTable) : Catalog :=
  { db with tables := Function.update db.tables table stored }

@[simp] theorem set_schemas (db : Catalog) (table : TableName) (stored : Option StoredTable) :
    (db.set table stored).schemas = db.schemas := rfl

theorem set_tables (db : Catalog) (table t : TableName) (stored : Option StoredTable) :
    (db.set table stored).tables t = if table = t then stored else db.tables t := by
  show Function.update db.tables table stored t = _
  rw [Function.update_apply]
  simp only [eq_comm]

end Catalog

inductive Statement
  | createSchema (schema : List Char)
  | createTable (table : TableName) (ddl : CreateTable)
  | addColumn (table : TableName) (column : ColumnDdl)
  | rekey (table : TableName) (key : List String)
  | insertIfAbsent (table : TableName) (key : String) (row : StoredRow)
  | dropTable (table : TableName)
  | dropSchema (schema : List Char)
deriving DecidableEq, Repr

namespace Statement

/-- What a statement does to a database, or none if Postgres refuses it: what it is about is missing. -/
def exec (db : Catalog) : Statement → Option Catalog
  | createSchema schema => some { db with schemas := Function.update db.schemas schema true }
  | createTable table ddl =>
    if db.schemas table.schema then
      some (db.set table ((db.tables table).or (some ⟨ddl, []⟩)))
    else none
  | addColumn table column =>
    (db.tables table).map fun stored => db.set table (some (stored.addColumn column))
  | rekey table key => (db.tables table).map fun stored => db.set table (some (stored.rekey key))
  | insertIfAbsent table key row =>
    (db.tables table).map fun stored => db.set table (some (stored.insertIfAbsent key row))
  | dropTable table => some (db.set table none)
  | dropSchema schema =>
    some ⟨Function.update db.schemas schema false,
      fun table => if table.schema = schema then none else db.tables table⟩

/-- What a statement does to one table. -/
def onTable (table : TableName) (stored : Option StoredTable) : Statement → Option StoredTable
  | createSchema _ => stored
  | createTable t ddl => if t = table then stored.or (some ⟨ddl, []⟩) else stored
  | addColumn t column => if t = table then stored.map (·.addColumn column) else stored
  | rekey t key => if t = table then stored.map (·.rekey key) else stored
  | insertIfAbsent t key row => if t = table then stored.map (·.insertIfAbsent key row) else stored
  | dropTable t => if t = table then none else stored
  | dropSchema schema => if table.schema = schema then none else stored

theorem exec_tables {db db' : Catalog} {statement : Statement} (h : statement.exec db = some db')
    (table : TableName) : db'.tables table = statement.onTable table (db.tables table) := by
  cases statement with
  | createSchema schema =>
    obtain rfl := Option.some.inj h
    rfl
  | createTable t ddl =>
    rw [exec] at h
    split at h
    · obtain rfl := Option.some.inj h
      rw [Catalog.set_tables, onTable]
      split
      case isTrue hEq => rw [hEq]
      case isFalse => rfl
    · exact nomatch h
  | addColumn t column =>
    obtain ⟨stored, hStored, rfl⟩ := Option.map_eq_some_iff.mp h
    rw [Catalog.set_tables, onTable]
    split
    case isTrue hEq => rw [← hEq, hStored, Option.map_some]
    case isFalse => rfl
  | rekey t key =>
    obtain ⟨stored, hStored, rfl⟩ := Option.map_eq_some_iff.mp h
    rw [Catalog.set_tables, onTable]
    split
    case isTrue hEq => rw [← hEq, hStored, Option.map_some]
    case isFalse => rfl
  | insertIfAbsent t key row =>
    obtain ⟨stored, hStored, rfl⟩ := Option.map_eq_some_iff.mp h
    rw [Catalog.set_tables, onTable]
    split
    case isTrue hEq => rw [← hEq, hStored, Option.map_some]
    case isFalse => rfl
  | dropTable t =>
    obtain rfl := Option.some.inj h
    rw [Catalog.set_tables, onTable]
  | dropSchema schema =>
    obtain rfl := Option.some.inj h
    rfl

/-- Whether a statement drops a table. -/
def drops (table : TableName) : Statement → Bool
  | dropTable t => t == table
  | dropSchema schema => table.schema == schema
  | _ => false

def isDrop : Statement → Bool
  | dropTable _ | dropSchema _ => true
  | _ => false

/-- Whether a statement inserts into a table. -/
def inserts (table : TableName) : Statement → Bool
  | insertIfAbsent t _ _ => t == table
  | _ => false

/-- Whether a statement has nothing left to do to a table of this definition. -/
def Settled (table : TableName) (ddl : CreateTable) : Statement → Prop
  | addColumn t column => t = table → column.name ∈ ddl.columnNames
  | rekey t key => t = table → ddl.primaryKey = key
  | insertIfAbsent t _ _ => t ≠ table
  | dropTable t => t ≠ table
  | dropSchema schema => table.schema ≠ schema
  | createSchema _ | createTable _ _ => True

/-- A statement that drops nothing, adds no column but `column` and sets no key but `key`. -/
def Alike (column : ColumnDdl) (key : List String) : Statement → Prop
  | addColumn _ c => c = column
  | rekey _ k => k = key
  | dropTable _ | dropSchema _ => False
  | createSchema _ | createTable _ _ | insertIfAbsent _ _ _ => True

theorem onTable_of_settled {table : TableName} {ddl : CreateTable} {rows : List StoredRow}
    {statement : Statement} (h : statement.Settled table ddl) :
    statement.onTable table (some ⟨ddl, rows⟩) = some ⟨ddl, rows⟩ := by
  cases statement with
  | createSchema schema => rfl
  | createTable t ddl' =>
    rw [onTable]
    split <;> rfl
  | addColumn t column =>
    rw [onTable]
    split
    case isTrue hEq => rw [Option.map_some, StoredTable.addColumn, if_pos (h hEq)]
    case isFalse => rfl
  | rekey t key =>
    rw [onTable]
    split
    case isTrue hEq => rw [Option.map_some, StoredTable.rekey, ← h hEq]
    case isFalse => rfl
  | insertIfAbsent t key row => rw [onTable, if_neg h]
  | dropTable t => rw [onTable, if_neg h]
  | dropSchema schema => rw [onTable, if_neg h]

theorem onTable_of_isDrop {table : TableName} {stored : Option StoredTable} {statement : Statement}
    (h : statement.isDrop = true) :
    statement.onTable table stored = if statement.drops table then none else stored := by
  cases statement with
  | dropTable t => simp [onTable, drops]
  | dropSchema schema => simp [onTable, drops]
  | createSchema schema => exact nomatch h
  | createTable t ddl => exact nomatch h
  | addColumn t column => exact nomatch h
  | rekey t key => exact nomatch h
  | insertIfAbsent t key row => exact nomatch h

/-- A statement that drops nothing keeps a table, with its columns, and its key unless it sets one. -/
theorem onTable_alike {column : ColumnDdl} {key : List String} (table : TableName)
    (stored : StoredTable) {statement : Statement} (h : statement.Alike column key) :
    ∃ stored', statement.onTable table (some stored) = some stored' ∧
      stored.ddl.columnNames ⊆ stored'.ddl.columnNames ∧
      (stored'.ddl.primaryKey = stored.ddl.primaryKey ∨ stored'.ddl.primaryKey = key) ∧
      (statement.inserts table = false → stored'.rows = stored.rows) := by
  cases statement with
  | createSchema schema => exact ⟨stored, rfl, List.Subset.refl _, Or.inl rfl, fun _ => rfl⟩
  | createTable t ddl' =>
    refine ⟨stored, ?_, List.Subset.refl _, Or.inl rfl, fun _ => rfl⟩
    rw [onTable]
    split <;> rfl
  | addColumn t c =>
    rw [onTable]
    split
    · exact ⟨_, rfl, stored.columnNames_subset_addColumn c, Or.inl (stored.addColumn_primaryKey c),
        fun _ => stored.addColumn_rows c⟩
    · exact ⟨stored, rfl, List.Subset.refl _, Or.inl rfl, fun _ => rfl⟩
  | rekey t k =>
    rw [onTable]
    split
    · exact ⟨_, rfl, List.Subset.refl _, Or.inr h, fun _ => rfl⟩
    · exact ⟨stored, rfl, List.Subset.refl _, Or.inl rfl, fun _ => rfl⟩
  | insertIfAbsent t k row =>
    rw [onTable]
    split
    case isTrue hEq =>
      have hDdl := stored.insertIfAbsent_ddl k row
      refine ⟨_, rfl, by rw [hDdl]; exact List.Subset.refl _, Or.inl (by rw [hDdl]), ?_⟩
      simp [inserts, hEq]
    case isFalse => exact ⟨stored, rfl, List.Subset.refl _, Or.inl rfl, fun _ => rfl⟩
  | dropTable t => exact h.elim
  | dropSchema schema => exact h.elim

theorem mem_rows_onTable {table : TableName} {stored : Option StoredTable} {row : StoredRow}
    (statement : Statement)
    (h : row ∈ (statement.onTable table stored).elim [] StoredTable.rows) :
    row ∈ stored.elim [] StoredTable.rows ∨ ∃ key, statement = .insertIfAbsent table key row := by
  cases stored with
  | none =>
    cases statement <;> simp only [onTable, Option.map_none, ite_self, Option.elim_none,
      List.not_mem_nil] at h
    case createTable t ddl => split at h <;> simp at h
  | some stored =>
    cases statement with
    | createSchema schema => exact Or.inl h
    | createTable t ddl =>
      rw [onTable] at h
      split at h <;> exact Or.inl h
    | addColumn t column =>
      rw [onTable] at h
      split at h
      · rw [Option.map_some, Option.elim_some, stored.addColumn_rows column] at h
        exact Or.inl h
      · exact Or.inl h
    | rekey t key =>
      rw [onTable] at h
      split at h <;> exact Or.inl h
    | insertIfAbsent t key r =>
      rw [onTable] at h
      split at h
      case isTrue hEq =>
        rw [Option.map_some, Option.elim_some, StoredTable.insertIfAbsent] at h
        split at h
        · exact Or.inl h
        · rcases List.mem_append.mp h with h | h
          · exact Or.inl h
          · rw [List.mem_singleton.mp h, hEq]
            exact Or.inr ⟨key, rfl⟩
      case isFalse => exact Or.inl h
    | dropTable t =>
      rw [onTable] at h
      split at h
      · exact absurd h List.not_mem_nil
      · exact Or.inl h
    | dropSchema schema =>
      rw [onTable] at h
      split at h
      · exact absurd h List.not_mem_nil
      · exact Or.inl h

end Statement

/-! ### Batches -/

/-- A batch of statements, run in order.  A statement that could not be generated is `none`. -/
abbrev Batch := List (Option Statement)

def run (batch : Batch) (db : Catalog) : Option Catalog :=
  Lib.run (fun db (s : Option Statement) => s.bind (Statement.exec db)) db batch

namespace Batch

/-- What a batch does to one table. -/
def onTable (table : TableName) : Batch → Option StoredTable → Option StoredTable
  | [], stored => stored
  | none :: batch, stored => onTable table batch stored
  | some statement :: batch, stored => onTable table batch (statement.onTable table stored)

def drops (batch : Batch) (table : TableName) : Bool :=
  batch.any fun s => s.any (Statement.drops table)

def Alike (column : ColumnDdl) (key : List String) (batch : Batch) : Prop :=
  ∀ s, some s ∈ batch → s.Alike column key

def InsertsNone (table : TableName) (batch : Batch) : Prop :=
  ∀ s, some s ∈ batch → s.inserts table = false

def Settled (table : TableName) (ddl : CreateTable) (batch : Batch) : Prop :=
  ∀ s, some s ∈ batch → s.Settled table ddl

end Batch

@[simp] theorem run_nil (db : Catalog) : run [] db = some db := rfl

theorem run_cons (s : Option Statement) (batch : Batch) (db : Catalog) :
    run (s :: batch) db = (s.bind (Statement.exec db)).bind (run batch) := rfl

theorem run_cons_some {s : Option Statement} {batch : Batch} {db db' : Catalog}
    (h : run (s :: batch) db = some db') :
    ∃ statement db1, s = some statement ∧ statement.exec db = some db1 ∧
      run batch db1 = some db' := by
  rw [run_cons] at h
  obtain ⟨db1, hHead, hRest⟩ := Option.bind_eq_some_iff.mp h
  obtain ⟨statement, rfl, hHead⟩ := Option.bind_eq_some_iff.mp hHead
  exact ⟨statement, db1, rfl, hHead, hRest⟩

theorem run_append (batch1 batch2 : Batch) (db : Catalog) :
    run (batch1 ++ batch2) db = (run batch1 db).bind (run batch2) := by
  induction batch1 generalizing db with
  | nil => rfl
  | cons s batch1 ih =>
    rw [List.cons_append, run_cons, run_cons, funext ih]
    exact (Option.bind_assoc _ _ _).symm

theorem run_tables {batch : Batch} {db db' : Catalog} (h : run batch db = some db')
    (table : TableName) : db'.tables table = batch.onTable table (db.tables table) := by
  induction batch generalizing db with
  | nil =>
    obtain rfl := Option.some.inj h
    rfl
  | cons s batch ih =>
    obtain ⟨statement, db1, rfl, hHead, hRest⟩ := run_cons_some h
    rw [ih hRest, Statement.exec_tables hHead, Batch.onTable]

theorem none_notMem_of_run {batch : Batch} {db db' : Catalog} (h : run batch db = some db') :
    none ∉ batch := by
  induction batch generalizing db with
  | nil => exact List.not_mem_nil
  | cons s batch ih =>
    obtain ⟨statement, db1, rfl, -, hRest⟩ := run_cons_some h
    exact List.not_mem_cons_of_ne_of_not_mem (Option.some_ne_none statement).symm (ih hRest)

namespace Batch

theorem onTable_of_settled {batch : Batch} {table : TableName} {ddl : CreateTable}
    {rows : List StoredRow} (h : batch.Settled table ddl) :
    batch.onTable table (some ⟨ddl, rows⟩) = some ⟨ddl, rows⟩ := by
  induction batch with
  | nil => rfl
  | cons s batch ih =>
    have hRest := ih fun s hs => h s (List.mem_cons_of_mem _ hs)
    cases s with
    | none => exact hRest
    | some statement =>
      rw [onTable, Statement.onTable_of_settled (h statement List.mem_cons_self), hRest]

theorem onTable_of_isDrop {batch : Batch} (h : ∀ s, some s ∈ batch → s.isDrop = true)
    (table : TableName) (stored : Option StoredTable) :
    batch.onTable table stored = if batch.drops table then none else stored := by
  induction batch generalizing stored with
  | nil => rfl
  | cons s batch ih =>
    have hRest := ih fun s hs => h s (List.mem_cons_of_mem _ hs)
    cases s with
    | none => exact hRest stored
    | some statement =>
      rw [onTable, Statement.onTable_of_isDrop (h statement List.mem_cons_self), hRest, drops, drops,
        List.any_cons, Option.any_some]
      cases statement.drops table
      · simp
      · simp

theorem run_of_isDrop {batch : Batch} (hNames : none ∉ batch)
    (h : ∀ s, some s ∈ batch → s.isDrop = true) (db : Catalog) : ∃ db', run batch db = some db' := by
  induction batch generalizing db with
  | nil => exact ⟨db, rfl⟩
  | cons s batch ih =>
    rw [List.mem_cons, not_or] at hNames
    obtain ⟨hHead, hRest⟩ := hNames
    obtain ⟨statement, rfl⟩ := Option.ne_none_iff_exists'.mp (Ne.symm hHead)
    have hDrop := h statement List.mem_cons_self
    have hExec : ∃ db1, statement.exec db = some db1 := by
      cases statement with
      | dropTable t => exact ⟨_, rfl⟩
      | dropSchema schema => exact ⟨_, rfl⟩
      | createSchema schema => exact nomatch hDrop
      | createTable t ddl => exact nomatch hDrop
      | addColumn t column => exact nomatch hDrop
      | rekey t key => exact nomatch hDrop
      | insertIfAbsent t key row => exact nomatch hDrop
    obtain ⟨db1, h1⟩ := hExec
    obtain ⟨db', h'⟩ := ih hRest (fun s hs => h s (List.mem_cons_of_mem _ hs)) db1
    exact ⟨db', by rw [run_cons, Option.bind_some, h1, Option.bind_some, h']⟩

section Alike

variable {column : ColumnDdl} {key : List String} {batch : Batch} {table : TableName}

theorem Alike.tail {s : Option Statement} (h : Alike column key (s :: batch)) :
    Alike column key batch :=
  fun s hs => h s (List.mem_cons_of_mem _ hs)

theorem InsertsNone.tail {s : Option Statement} (h : InsertsNone table (s :: batch)) :
    InsertsNone table batch :=
  fun s hs => h s (List.mem_cons_of_mem _ hs)

theorem onTable_alike (table : TableName) (stored : StoredTable) (h : batch.Alike column key) :
    ∃ stored', batch.onTable table (some stored) = some stored' ∧
      stored.ddl.columnNames ⊆ stored'.ddl.columnNames ∧
      (stored'.ddl.primaryKey = stored.ddl.primaryKey ∨ stored'.ddl.primaryKey = key) ∧
      (batch.InsertsNone table → stored'.rows = stored.rows) := by
  induction batch generalizing stored with
  | nil => exact ⟨stored, rfl, List.Subset.refl _, Or.inl rfl, fun _ => rfl⟩
  | cons s batch ih =>
    cases s with
    | none =>
      obtain ⟨stored', h', hNames, hKey, hRows⟩ := ih stored h.tail
      exact ⟨stored', h', hNames, hKey, fun hNone => hRows hNone.tail⟩
    | some statement =>
      obtain ⟨stored1, h1, hNames1, hKey1, hRows1⟩ :=
        Statement.onTable_alike table stored (h statement List.mem_cons_self)
      obtain ⟨stored', h', hNames', hKey', hRows'⟩ := ih stored1 h.tail
      refine ⟨stored', by rw [onTable, h1, h'], fun column hc => hNames' (hNames1 hc), ?_, fun hNone => ?_⟩
      · rcases hKey' with hKey' | hKey'
        · rw [hKey']
          exact hKey1
        · exact Or.inr hKey'
      · rw [hRows' hNone.tail, hRows1 (hNone statement List.mem_cons_self)]

/-- Once a batch has run, it has nothing left to do to a table that it does not insert into. -/
theorem settled_of_run {db db' : Catalog} (hRun : run batch db = some db')
    (hAlike : batch.Alike column key) (hInserts : batch.InsertsNone table) {stored : StoredTable}
    (hStored : db'.tables table = some stored) : batch.Settled table stored.ddl := by
  induction batch generalizing db with
  | nil => exact fun s hs => absurd hs List.not_mem_nil
  | cons s batch ih =>
    obtain ⟨statement, db1, rfl, hHead, hRest⟩ := run_cons_some hRun
    have hAlikeHead := hAlike statement List.mem_cons_self
    have hAfter : ∀ stored1, db1.tables table = some stored1 →
        stored1.ddl.columnNames ⊆ stored.ddl.columnNames ∧
          (stored.ddl.primaryKey = stored1.ddl.primaryKey ∨ stored.ddl.primaryKey = key) := by
      intro stored1 h1
      obtain ⟨stored', h', hNames, hKey, -⟩ := onTable_alike table stored1 hAlike.tail
      rw [← h1, ← run_tables hRest, hStored] at h'
      obtain rfl := Option.some.inj h'
      exact ⟨hNames, hKey⟩
    intro s' hs'
    rcases List.mem_cons.mp hs' with hEq | hs'
    · obtain rfl := Option.some.inj hEq
      cases s' with
      | createSchema schema => trivial
      | createTable t ddl => trivial
      | addColumn t c =>
        rintro rfl
        obtain ⟨before, -, rfl⟩ := Option.map_eq_some_iff.mp hHead
        exact (hAfter _ (by rw [Catalog.set_tables, if_pos rfl])).1
          (before.mem_columnNames_addColumn c)
      | rekey t k =>
        rintro rfl
        obtain ⟨before, -, rfl⟩ := Option.map_eq_some_iff.mp hHead
        obtain rfl : k = key := hAlikeHead
        rcases (hAfter _ (by rw [Catalog.set_tables, if_pos rfl])).2 with h | h
        · exact h
        · exact h
      | insertIfAbsent t k row =>
        rintro rfl
        have hNone := hInserts _ List.mem_cons_self
        simp [Statement.inserts] at hNone
      | dropTable t => exact hAlikeHead.elim
      | dropSchema schema => exact hAlikeHead.elim
    · exact ih hRest hAlike.tail hInserts.tail s' hs'

/-- A table that a batch creates without inserting into it is empty. -/
theorem rows_of_created {stored : StoredTable} (hAlike : batch.Alike column key)
    (hInserts : batch.InsertsNone table) (hStored : batch.onTable table none = some stored) :
    stored.rows = [] := by
  induction batch with
  | nil => exact nomatch hStored
  | cons s batch ih =>
    cases s with
    | none => exact ih hAlike.tail hInserts.tail hStored
    | some statement =>
      rw [onTable] at hStored
      cases hHead : statement.onTable table none with
      | none => exact ih hAlike.tail hInserts.tail (hHead ▸ hStored)
      | some stored1 =>
        have hRows1 : stored1.rows = [] := by
          cases statement <;> simp only [Statement.onTable, Option.map_none, ite_self,
            reduceCtorEq] at hHead
          case createTable t ddl =>
            split at hHead
            · obtain rfl := Option.some.inj hHead
              rfl
            · exact nomatch hHead
        obtain ⟨stored', h', -, -, hRows⟩ := onTable_alike table stored1 hAlike.tail
        rw [hHead, h'] at hStored
        obtain rfl := Option.some.inj hStored
        rw [hRows hInserts.tail, hRows1]

/-- A table that a batch leaves missing is one that it does not address. -/
theorem onTable_of_missing {db db' : Catalog} (hRun : run batch db = some db')
    (hAlike : batch.Alike column key) (hMissing : db'.tables table = none)
    (stored : Option StoredTable) : batch.onTable table stored = stored := by
  induction batch generalizing db with
  | nil => rfl
  | cons s batch ih =>
    obtain ⟨statement, db1, rfl, hHead, hRest⟩ := run_cons_some hRun
    have hMissing1 : db1.tables table = none := by
      cases h1 : db1.tables table with
      | none => rfl
      | some stored1 =>
        obtain ⟨stored', h', -⟩ := onTable_alike table stored1 hAlike.tail
        rw [← h1, ← run_tables hRest, hMissing] at h'
        exact nomatch h'
    have hOther : ∀ t stored1, db1 = db.set t (some stored1) → t ≠ table := by
      rintro t stored1 rfl rfl
      rw [Catalog.set_tables, if_pos rfl] at hMissing1
      exact nomatch hMissing1
    rw [onTable]
    have hHere : statement.onTable table stored = stored := by
      cases statement with
      | createSchema schema => rfl
      | createTable t ddl =>
        rw [Statement.exec] at hHead
        split at hHead
        · have hEq := (Option.some.inj hHead).symm
          cases hBefore : db.tables t with
          | none => exact if_neg (hOther t _ (by rw [hEq, hBefore, Option.none_or]))
          | some before => exact if_neg (hOther t _ (by rw [hEq, hBefore, Option.some_or]))
        · exact nomatch hHead
      | addColumn t c =>
        obtain ⟨before, -, hEq⟩ := Option.map_eq_some_iff.mp hHead
        exact if_neg (hOther t _ hEq.symm)
      | rekey t k =>
        obtain ⟨before, -, hEq⟩ := Option.map_eq_some_iff.mp hHead
        exact if_neg (hOther t _ hEq.symm)
      | insertIfAbsent t k row =>
        obtain ⟨before, -, hEq⟩ := Option.map_eq_some_iff.mp hHead
        exact if_neg (hOther t _ hEq.symm)
      | dropTable t => exact (hAlike _ List.mem_cons_self).elim
      | dropSchema schema => exact (hAlike _ List.mem_cons_self).elim
    rw [hHere]
    exact ih hRest hAlike.tail

end Alike

/-- A column that a batch adds to a table is in it afterwards. -/
theorem mem_columnNames_of_addColumn {column : ColumnDdl} {key : List String} {batch : Batch}
    {table : TableName} (hAlike : batch.Alike column key) (h : some (.addColumn table column) ∈ batch)
    (stored : StoredTable) : ∃ stored', batch.onTable table (some stored) = some stored' ∧
      column.name ∈ stored'.ddl.columnNames := by
  induction batch generalizing stored with
  | nil => exact absurd h List.not_mem_nil
  | cons s batch ih =>
    rcases List.mem_cons.mp h with rfl | hRest
    · obtain ⟨stored', h', hNames, -⟩ :=
        onTable_alike table (stored.addColumn column) hAlike.tail
      exact ⟨stored', by rw [onTable, Statement.onTable, if_pos rfl, Option.map_some, h'],
        hNames (stored.mem_columnNames_addColumn column)⟩
    · cases s with
      | none => exact ih hAlike.tail hRest stored
      | some statement =>
        obtain ⟨stored1, h1, -⟩ :=
          Statement.onTable_alike table stored (hAlike statement List.mem_cons_self)
        rw [onTable, h1]
        exact ih hAlike.tail hRest stored1

/-- A row of a table was there before or has been inserted. -/
theorem mem_rows_onTable {batch : Batch} {table : TableName} {stored : Option StoredTable}
    {row : StoredRow} (h : row ∈ (batch.onTable table stored).elim [] StoredTable.rows) :
    row ∈ stored.elim [] StoredTable.rows ∨
      ∃ key, some (.insertIfAbsent table key row) ∈ batch := by
  induction batch generalizing stored with
  | nil => exact Or.inl h
  | cons s batch ih =>
    cases s with
    | none => exact (ih h).imp_right fun ⟨key, hMem⟩ => ⟨key, List.mem_cons_of_mem _ hMem⟩
    | some statement =>
      rcases ih h with h | ⟨key, hMem⟩
      · rcases statement.mem_rows_onTable h with h | ⟨key, rfl⟩
        · exact Or.inl h
        · exact Or.inr ⟨key, List.mem_cons_self⟩
      · exact Or.inr ⟨key, List.mem_cons_of_mem _ hMem⟩

/-- A table that a batch creates is there after it. -/
theorem isSome_of_createTable {column : ColumnDdl} {key : List String} {batch : Batch}
    {table : TableName} {ddl : CreateTable} (hAlike : batch.Alike column key)
    (h : some (.createTable table ddl) ∈ batch) (stored : Option StoredTable) :
    (batch.onTable table stored).isSome = true := by
  have hKeep : ∀ {batch : Batch} (stored : StoredTable), batch.Alike column key →
      (batch.onTable table (some stored)).isSome = true := by
    intro batch stored hAlike
    obtain ⟨stored', h', -⟩ := onTable_alike table stored hAlike
    rw [h']
    rfl
  induction batch generalizing stored with
  | nil => exact absurd h List.not_mem_nil
  | cons s batch ih =>
    rcases List.mem_cons.mp h with rfl | hRest
    · rw [onTable, Statement.onTable, if_pos rfl]
      cases stored with
      | none => exact hKeep _ hAlike.tail
      | some stored => exact hKeep _ hAlike.tail
    · cases s with
      | none => exact ih hAlike.tail hRest stored
      | some statement => exact ih hAlike.tail hRest _

/-! ### Batches that are never refused -/

/-- The batch runs on every database with these schemas and tables, if its statements are all there. -/
def Supported (schemas : List (List Char)) (tables : List TableName) (batch : Batch) : Prop :=
  none ∉ batch → ∀ db : Catalog, (∀ s ∈ schemas, db.schemas s = true) →
    (∀ t ∈ tables, (db.tables t).isSome = true) →
      ∃ db', run batch db = some db' ∧ (∀ s, db.schemas s = true → db'.schemas s = true) ∧
        ∀ t, (db.tables t).isSome = true → (db'.tables t).isSome = true

section Supported

variable {schemas : List (List Char)} {tables : List TableName} {batch : Batch}

theorem supported_nil : Supported schemas tables [] :=
  fun _ db _ _ => ⟨db, rfl, fun _ h => h, fun _ h => h⟩

theorem supported_none : Supported schemas tables (none :: batch) :=
  fun hNames => absurd List.mem_cons_self hNames

theorem Supported.append {batch2 : Batch} (h1 : Supported schemas tables batch)
    (h2 : Supported schemas tables batch2) : Supported schemas tables (batch ++ batch2) := by
  intro hNames db hSchemas hTables
  rw [List.mem_append, not_or] at hNames
  obtain ⟨hNames1, hNames2⟩ := hNames
  obtain ⟨db1, hRun1, hSchemas1, hTables1⟩ := h1 hNames1 db hSchemas hTables
  obtain ⟨db2, hRun2, hSchemas2, hTables2⟩ := h2 hNames2 db1
    (fun s hs => hSchemas1 s (hSchemas s hs)) fun t ht => hTables1 t (hTables t ht)
  exact ⟨db2, by rw [run_append, hRun1, Option.bind_some, hRun2],
    fun s hs => hSchemas2 s (hSchemas1 s hs), fun t ht => hTables2 t (hTables1 t ht)⟩

theorem supported_flatMap {α : Type} {f : α → Batch} {xs : List α}
    (h : ∀ x ∈ xs, Supported schemas tables (f x)) : Supported schemas tables (xs.flatMap f) := by
  induction xs with
  | nil => exact supported_nil
  | cons x xs ih =>
    obtain ⟨hHead, hRest⟩ := List.forall_mem_cons.mp h
    rw [List.flatMap_cons]
    exact hHead.append (ih hRest)

theorem Supported.createSchema {schema : List Char}
    (h : Supported (schema :: schemas) tables batch) :
    Supported schemas tables (some (.createSchema schema) :: batch) := by
  intro hNames db hSchemas hTables
  have hGrow : ∀ s, db.schemas s = true → Function.update db.schemas schema true s = true := by
    intro s hs
    rw [Function.update_apply]
    split
    · rfl
    · exact hs
  obtain ⟨db', hRun, hSchemas', hTables'⟩ := h (List.not_mem_of_not_mem_cons hNames)
    { db with schemas := Function.update db.schemas schema true }
    (List.forall_mem_cons.mpr ⟨Function.update_self .., fun s hs => hGrow s (hSchemas s hs)⟩) hTables
  exact ⟨db', hRun, fun s hs => hSchemas' s (hGrow s hs), hTables'⟩

theorem isSome_set {db : Catalog} {table t : TableName} {stored : StoredTable}
    (h : (db.tables t).isSome = true) : ((db.set table (some stored)).tables t).isSome = true := by
  rw [Catalog.set_tables]
  split
  · rfl
  · exact h

theorem Supported.createTable {table : TableName} {ddl : CreateTable} (hSchema : table.schema ∈ schemas)
    (h : Supported schemas (table :: tables) batch) :
    Supported schemas tables (some (.createTable table ddl) :: batch) := by
  intro hNames db hSchemas hTables
  obtain ⟨stored, hStored⟩ : ∃ stored, (db.tables table).or (some ⟨ddl, []⟩) = some stored := by
    cases db.tables table with
    | none => exact ⟨_, rfl⟩
    | some stored => exact ⟨stored, rfl⟩
  have hExec : (Statement.createTable table ddl).exec db = some (db.set table (some stored)) := by
    rw [Statement.exec, if_pos (hSchemas _ hSchema), hStored]
  obtain ⟨db', hRun, hSchemas', hTables'⟩ := h (List.not_mem_of_not_mem_cons hNames)
    (db.set table (some stored)) hSchemas (List.forall_mem_cons.mpr
      ⟨by rw [Catalog.set_tables, if_pos rfl]; rfl, fun t ht => isSome_set (hTables t ht)⟩)
  exact ⟨db', by rw [run_cons, Option.bind_some, hExec, Option.bind_some, hRun], hSchemas',
    fun t ht => hTables' t (isSome_set ht)⟩

/-- A statement that changes a table which is there. -/
theorem Supported.change {statement : Statement} {table : TableName} {f : StoredTable → StoredTable}
    (hExec : ∀ db : Catalog, statement.exec db =
      (db.tables table).map fun stored => db.set table (some (f stored)))
    (hTable : table ∈ tables) (h : Supported schemas tables batch) :
    Supported schemas tables (some statement :: batch) := by
  intro hNames db hSchemas hTables
  obtain ⟨stored, hStored⟩ := Option.isSome_iff_exists.mp (hTables _ hTable)
  obtain ⟨db', hRun, hSchemas', hTables'⟩ := h (List.not_mem_of_not_mem_cons hNames)
    (db.set table (some (f stored))) hSchemas fun t ht => isSome_set (hTables t ht)
  exact ⟨db', by rw [run_cons, Option.bind_some, hExec, hStored, Option.map_some, Option.bind_some,
    hRun], hSchemas', fun t ht => hTables' t (isSome_set ht)⟩

/-- Columns are added to the tables that are there. -/
theorem run_addColumns {db : Catalog} (hNames : none ∉ batch) (h : ∀ s, some s ∈ batch →
    ∃ table column, s = .addColumn table column ∧ (db.tables table).isSome = true) :
    ∃ db', run batch db = some db' := by
  induction batch generalizing db with
  | nil => exact ⟨db, rfl⟩
  | cons s batch ih =>
    rw [List.mem_cons, not_or] at hNames
    obtain ⟨hHead, hRest⟩ := hNames
    obtain ⟨statement, rfl⟩ := Option.ne_none_iff_exists'.mp (Ne.symm hHead)
    obtain ⟨table, column, rfl, hTable⟩ := h statement List.mem_cons_self
    obtain ⟨stored, hStored⟩ := Option.isSome_iff_exists.mp hTable
    obtain ⟨db', hRun⟩ := @ih (db.set table (some (stored.addColumn column))) hRest
      fun s hs => by
        obtain ⟨t, c, rfl, ht⟩ := h s (List.mem_cons_of_mem _ hs)
        exact ⟨t, c, rfl, isSome_set ht⟩
    refine ⟨db', ?_⟩
    rw [run_cons, Option.bind_some, Statement.exec, hStored, Option.map_some, Option.bind_some, hRun]

end Supported

end Batch

end Rindexer.Database
