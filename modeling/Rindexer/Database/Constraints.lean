import Rindexer.Database.Relationships

/-! The constraints and indexes of the tables of events, and what the statements that apply and drop them
do: what each takes away or adds, and when all that has been applied can be dropped again. -/

namespace Rindexer.Database

open Rindexer.Lib

/-! ### What the statements do -/

structure ForeignKeyConstraint where
  table : TableName
  name : List Char
  column : List Char
  linkedTable : TableName
  linkedColumn : List Char
deriving DecidableEq, Repr

structure UniqueConstraint where
  table : TableName
  name : List Char
  column : List Char
deriving DecidableEq, Repr

structure StoredIndex where
  table : TableName
  name : List Char
  columns : List (List Char)
deriving DecidableEq, Repr

/-- The constraints and the indexes of the tables of events. -/
structure Constraints where
  foreignKeys : List ForeignKeyConstraint
  uniques : List UniqueConstraint
  indexes : List StoredIndex
deriving DecidableEq, Repr

/-- A statement that applies a part of a relationship, or an index. -/
inductive ApplyingSql
  | unique (r : Relationship)
  | foreignKey (r : Relationship)
  | index (r : Relationship)
  | createIndex (index : PostgresIndexResult)

namespace Relationship

variable (r : Relationship)

def foreignKeyConstraint : ForeignKeyConstraint where
  table := r.dbTableName
  name := r.foreignKeyConstructName
  column := r.dbTableColumn
  linkedTable := r.linkedTo.dbTableName
  linkedColumn := r.linkedTo.dbTableColumn

def uniqueConstraint : UniqueConstraint where
  table := r.linkedTo.dbTableName
  name := r.uniqueConstructName
  column := r.linkedTo.dbTableColumn

def storedIndex : StoredIndex := ⟨r.dbTableName, r.indexName, [r.dbTableColumn]⟩

def applySql : List ApplyingSql := [.unique r, .foreignKey r, .index r]

end Relationship

def PostgresIndexResult.storedIndex (index : PostgresIndexResult) : StoredIndex :=
  ⟨index.dbTableName, index.indexName, index.dbTableColumns⟩

namespace Constraints

def none : Constraints := ⟨[], [], []⟩

variable (tables : List TableName) (c : Constraints)

/-- `ALTER TABLE … DROP CONSTRAINT IF EXISTS`.  A unique constraint that a foreign key refers to stays,
and the statement fails. -/
def dropConstraint (table : TableName) (name : List Char) : Option Constraints :=
  let foreignKeys := c.foreignKeys.filter fun k => ¬(k.table = table ∧ k.name = name)
  if table ∉ tables then Option.none
  else if ∃ u ∈ c.uniques, (u.table = table ∧ u.name = name) ∧
      ∃ k ∈ foreignKeys, k.linkedTable = u.table ∧ k.linkedColumn = u.column then Option.none
  else some { c with
    foreignKeys := foreignKeys
    uniques := c.uniques.filter fun u => ¬(u.table = table ∧ u.name = name) }

/-- The statements of one text run as a whole or not at all. -/
def drop : DroppingSql → Option Constraints
  | .constraints table foreignKey linkedTable unique =>
    (c.dropConstraint tables table foreignKey).bind fun c' =>
      c'.dropConstraint tables linkedTable unique
  | .index schema name =>
    if ∃ u ∈ c.uniques, u.table.schema = schema ∧ u.name = name then Option.none
    else some { c with
      indexes := c.indexes.filter fun i => ¬(i.table.schema = schema ∧ i.name = name) }

/-- A table, or the index of a constraint or of its own, has the name. -/
def HasRelation (schema name : List Char) : Prop :=
  ⟨schema, name⟩ ∈ tables ∨ (∃ u ∈ c.uniques, u.table.schema = schema ∧ u.name = name) ∨
    ∃ i ∈ c.indexes, i.table.schema = schema ∧ i.name = name

instance (schema name : List Char) : Decidable (c.HasRelation tables schema name) :=
  inferInstanceAs (Decidable (_ ∨ _))

/-- `pg_constraint` has the name for the table. -/
def HasConstraint (table : TableName) (name : List Char) : Prop :=
  (∃ k ∈ c.foreignKeys, k.table = table ∧ k.name = name) ∨
    ∃ u ∈ c.uniques, u.table = table ∧ u.name = name

instance (table : TableName) (name : List Char) : Decidable (c.HasConstraint table name) :=
  inferInstanceAs (Decidable (_ ∨ _))

def apply : ApplyingSql → Option Constraints
  | .unique r =>
    if r.linkedTo.dbTableName ∉ tables then Option.none
    else if c.HasConstraint r.linkedTo.dbTableName r.uniqueConstructName then some c
    else if c.HasRelation tables r.linkedTo.dbTableName.schema r.uniqueConstructName then Option.none
    else some { c with uniques := c.uniques ++ [r.uniqueConstraint] }
  | .foreignKey r =>
    if r.dbTableName ∉ tables ∨ r.linkedTo.dbTableName ∉ tables then Option.none
    else if c.HasConstraint r.dbTableName r.foreignKeyConstructName then Option.none
    else if ∃ u ∈ c.uniques, u.table = r.linkedTo.dbTableName ∧ u.column = r.linkedTo.dbTableColumn then
      some { c with foreignKeys := c.foreignKeys ++ [r.foreignKeyConstraint] }
    else Option.none
  | .index r =>
    if r.dbTableName ∉ tables then Option.none
    else if c.HasRelation tables r.dbTableName.schema r.indexName then some c
    else some { c with indexes := c.indexes ++ [r.storedIndex] }
  | .createIndex index =>
    if index.dbTableName ∉ tables then Option.none
    else if c.HasRelation tables index.dbTableName.schema index.indexName then Option.none
    else some { c with indexes := c.indexes ++ [index.storedIndex] }

end Constraints

/-! ### What the statements take away and add -/

/-- Each constraint and each index is one that some statement of the list takes away. -/
structure Constraints.Covered (c : Constraints) (codes : List DroppingSql) : Prop where
  foreignKeys : ∀ k ∈ c.foreignKeys, ∃ linkedTable unique,
    .constraints k.table k.name linkedTable unique ∈ codes
  uniques : ∀ u ∈ c.uniques, ∃ table foreignKey, .constraints table foreignKey u.table u.name ∈ codes
  indexes : ∀ i ∈ c.indexes, .index i.table.schema i.name ∈ codes

namespace Constraints

variable {tables : List TableName} {c c' : Constraints}

theorem none_covered (codes : List DroppingSql) : none.Covered codes :=
  ⟨fun _ h => absurd h List.not_mem_nil, fun _ h => absurd h List.not_mem_nil,
    fun _ h => absurd h List.not_mem_nil⟩

theorem Covered.mono {codes codes' : List DroppingSql} (h : c.Covered codes) (hSubset : codes ⊆ codes') :
    c.Covered codes' where
  foreignKeys k hk := by
    obtain ⟨linkedTable, unique, hMem⟩ := h.foreignKeys k hk
    exact ⟨linkedTable, unique, hSubset hMem⟩
  uniques u hu := by
    obtain ⟨table, foreignKey, hMem⟩ := h.uniques u hu
    exact ⟨table, foreignKey, hSubset hMem⟩
  indexes i hi := hSubset (h.indexes i hi)

theorem Covered.eq_none (h : c.Covered []) : c = none := by
  obtain ⟨foreignKeys, uniques, indexes⟩ := c
  have hForeignKeys : foreignKeys = [] := List.eq_nil_iff_forall_not_mem.mpr fun k hk => by
    obtain ⟨_, _, hMem⟩ := h.foreignKeys k hk
    exact absurd hMem List.not_mem_nil
  have hUniques : uniques = [] := List.eq_nil_iff_forall_not_mem.mpr fun u hu => by
    obtain ⟨_, _, hMem⟩ := h.uniques u hu
    exact absurd hMem List.not_mem_nil
  have hIndexes : indexes = [] := List.eq_nil_iff_forall_not_mem.mpr fun i hi =>
    absurd (h.indexes i hi) List.not_mem_nil
  rw [hForeignKeys, hUniques, hIndexes]
  rfl

/-- A statement that succeeds takes away what it names and leaves the rest. -/
theorem dropConstraint_some {table : TableName} {name : List Char}
    (h : c.dropConstraint tables table name = some c') :
    c'.foreignKeys = c.foreignKeys.filter (fun k => ¬(k.table = table ∧ k.name = name)) ∧
      c'.uniques = c.uniques.filter (fun u => ¬(u.table = table ∧ u.name = name)) ∧
      c'.indexes = c.indexes := by
  rw [dropConstraint] at h
  split at h
  · cases h
  · split at h
    · cases h
    · cases h
      exact ⟨rfl, rfl, rfl⟩

/-- A constraint or an index is left only if the statement does not name it. -/
theorem drop_some {code : DroppingSql} (h : c.drop tables code = some c') :
    (∀ k ∈ c'.foreignKeys, k ∈ c.foreignKeys ∧
        ∀ linkedTable unique, code ≠ .constraints k.table k.name linkedTable unique) ∧
      (∀ u ∈ c'.uniques, u ∈ c.uniques ∧
        ∀ table foreignKey, code ≠ .constraints table foreignKey u.table u.name) ∧
      ∀ i ∈ c'.indexes, i ∈ c.indexes ∧ code ≠ .index i.table.schema i.name := by
  cases code with
  | constraints table foreignKey linkedTable unique =>
    obtain ⟨mid, hFirst, hSecond⟩ := Option.bind_eq_some_iff.mp h
    obtain ⟨hKeys, hUniques, hIndexes⟩ := dropConstraint_some hFirst
    obtain ⟨hKeys', hUniques', hIndexes'⟩ := dropConstraint_some hSecond
    rw [hKeys', hUniques', hIndexes', hKeys, hUniques, hIndexes]
    refine ⟨fun k hk => ?_, fun u hu => ?_, fun i hi => ⟨hi, fun hEq => by cases hEq⟩⟩
    · have hLeft := List.mem_filter.mp (List.mem_filter.mp hk).1
      refine ⟨hLeft.1, fun _ _ hEq => ?_⟩
      injection hEq with hTable hName
      exact (of_decide_eq_true hLeft.2) ⟨hTable.symm, hName.symm⟩
    · have hRight := List.mem_filter.mp hu
      refine ⟨(List.mem_filter.mp hRight.1).1, fun _ _ hEq => ?_⟩
      injection hEq with _ _ hTable hName
      exact (of_decide_eq_true hRight.2) ⟨hTable.symm, hName.symm⟩
  | index schema name =>
    rw [drop] at h
    split at h
    · cases h
    · cases h
      refine ⟨fun k hk => ⟨hk, fun _ _ hEq => by cases hEq⟩,
        fun u hu => ⟨hu, fun _ _ hEq => by cases hEq⟩, fun i hi => ?_⟩
      obtain ⟨hMem, hLeft⟩ := List.mem_filter.mp hi
      refine ⟨hMem, fun hEq => ?_⟩
      injection hEq with hSchema hName
      exact (of_decide_eq_true hLeft) ⟨hSchema.symm, hName.symm⟩

/-- What a statement leaves is covered by the other statements. -/
theorem Covered.drop {code : DroppingSql} {codes codes' : List DroppingSql} (h : c.Covered codes)
    (hDrop : c.drop tables code = some c') (hRest : ∀ x ∈ codes, x = code ∨ x ∈ codes') :
    c'.Covered codes' := by
  obtain ⟨hKeys, hUniques, hIndexes⟩ := drop_some hDrop
  refine ⟨fun k hk => ?_, fun u hu => ?_, fun i hi => ?_⟩
  · obtain ⟨hMem, hOther⟩ := hKeys k hk
    obtain ⟨linkedTable, unique, hCode⟩ := h.foreignKeys k hMem
    exact ⟨linkedTable, unique, (hRest _ hCode).resolve_left fun hEq => hOther _ _ hEq.symm⟩
  · obtain ⟨hMem, hOther⟩ := hUniques u hu
    obtain ⟨table, foreignKey, hCode⟩ := h.uniques u hMem
    exact ⟨table, foreignKey, (hRest _ hCode).resolve_left fun hEq => hOther _ _ hEq.symm⟩
  · obtain ⟨hMem, hOther⟩ := hIndexes i hi
    exact (hRest _ (h.indexes i hMem)).resolve_left fun hEq => hOther hEq.symm

end Constraints

/-- The statements that take away what a statement adds. -/
def ApplyingSql.drops : ApplyingSql → List DroppingSql
  | .unique r => r.dropSql
  | .foreignKey r => r.dropSql
  | .index r => r.dropSql
  | .createIndex result => [result.dropIndexSql]

namespace Constraints

variable {tables : List TableName} {c c' : Constraints}

/-- A statement adds one constraint or index, and may find a unique constraint or an index of a
relationship in place. -/
theorem apply_some {statement : ApplyingSql} (h : c.apply tables statement = some c') :
    c' = c ∨
      (∃ r, statement = .unique r ∧ c' = { c with uniques := c.uniques ++ [r.uniqueConstraint] }) ∨
      (∃ r, statement = .foreignKey r ∧
        c' = { c with foreignKeys := c.foreignKeys ++ [r.foreignKeyConstraint] }) ∨
      (∃ r, statement = .index r ∧ c' = { c with indexes := c.indexes ++ [r.storedIndex] }) ∨
      ∃ index, statement = .createIndex index ∧
        c' = { c with indexes := c.indexes ++ [index.storedIndex] } := by
  cases statement with
  | unique r =>
    rw [apply] at h
    split at h
    · cases h
    · split at h
      · cases h
        exact .inl rfl
      · split at h
        · cases h
        · cases h
          exact .inr (.inl ⟨r, rfl, rfl⟩)
  | foreignKey r =>
    rw [apply] at h
    split at h
    · cases h
    · split at h
      · cases h
      · split at h
        · cases h
          exact .inr (.inr (.inl ⟨r, rfl, rfl⟩))
        · cases h
  | index r =>
    rw [apply] at h
    split at h
    · cases h
    · split at h
      · cases h
        exact .inl rfl
      · cases h
        exact .inr (.inr (.inr (.inl ⟨r, rfl, rfl⟩)))
  | createIndex index =>
    rw [apply] at h
    split at h
    · cases h
    · split at h
      · cases h
      · cases h
        exact .inr (.inr (.inr (.inr ⟨index, rfl, rfl⟩)))

theorem Covered.apply {statement : ApplyingSql} {codes : List DroppingSql} (h : c.Covered codes)
    (hApply : c.apply tables statement = some c') (hSaved : statement.drops ⊆ codes) :
    c'.Covered codes := by
  obtain ⟨hKeys, hUniques, hIndexes⟩ := h
  obtain rfl | ⟨r, rfl, rfl⟩ | ⟨r, rfl, rfl⟩ | ⟨r, rfl, rfl⟩ | ⟨index, rfl, rfl⟩ := apply_some hApply
  · exact ⟨hKeys, hUniques, hIndexes⟩
  · refine ⟨hKeys, fun u hu => ?_, hIndexes⟩
    rcases List.mem_append.mp hu with hOld | hNew
    · exact hUniques u hOld
    · obtain rfl := List.mem_singleton.mp hNew
      exact ⟨_, _, hSaved (.head _)⟩
  · refine ⟨fun k hk => ?_, hUniques, hIndexes⟩
    rcases List.mem_append.mp hk with hOld | hNew
    · exact hKeys k hOld
    · obtain rfl := List.mem_singleton.mp hNew
      exact ⟨_, _, hSaved (.head _)⟩
  · refine ⟨hKeys, hUniques, fun i hi => ?_⟩
    rcases List.mem_append.mp hi with hOld | hNew
    · exact hIndexes i hOld
    · obtain rfl := List.mem_singleton.mp hNew
      exact hSaved (.tail _ (.head _))
  · refine ⟨hKeys, hUniques, fun i hi => ?_⟩
    rcases List.mem_append.mp hi with hOld | hNew
    · exact hIndexes i hOld
    · obtain rfl := List.mem_singleton.mp hNew
      exact hSaved (.head _)

end Constraints

/-! ### What has been applied -/

namespace ApplyingSql

def foreignKey? : ApplyingSql → Option ForeignKeyConstraint
  | .foreignKey r => some r.foreignKeyConstraint
  | _ => none

def unique? : ApplyingSql → Option UniqueConstraint
  | .unique r => some r.uniqueConstraint
  | _ => none

/-- The tables that have to be there. -/
def tables : ApplyingSql → List TableName
  | .unique r => [r.linkedTo.dbTableName]
  | .foreignKey r => [r.dbTableName, r.linkedTo.dbTableName]
  | .index r => [r.dbTableName]
  | .createIndex result => [result.dbTableName]

end ApplyingSql

/-- The constraints are those of the statements done, and no two foreign keys of a table have one
name. -/
structure Applied (tables : List TableName) (done : List ApplyingSql) (c : Constraints) : Prop where
  foreignKeys : c.foreignKeys = done.filterMap ApplyingSql.foreignKey?
  uniques : ∀ u, u ∈ c.uniques ↔ u ∈ done.filterMap ApplyingSql.unique?
  nodup : (c.foreignKeys.map fun k => (k.table, k.name)).Nodup
  tables : ∀ statement ∈ done, statement.tables ⊆ tables

namespace Relationship

variable (r r' : Relationship)

theorem foreignKeyConstructName_ne_unique : r.foreignKeyConstructName ≠ r'.uniqueConstructName := by
  simp [foreignKeyConstructName, uniqueConstructName]

theorem uniqueConstructName_ne_index : r.uniqueConstructName ≠ r'.indexName := by
  simp [uniqueConstructName, indexName]

variable {r r'}

/-- On one table, the name of a unique constraint has its column in it. -/
theorem uniqueConstraint_eq_iff :
    r.uniqueConstraint.table = r'.linkedTo.dbTableName ∧
      r.uniqueConstraint.name = r'.uniqueConstructName ↔ r.target = r'.target := by
  constructor
  · intro h
    have hTable : r.linkedTo.dbTableName = r'.linkedTo.dbTableName := h.1
    have hName : r.uniqueConstructName = r'.uniqueConstructName := h.2
    simp only [uniqueConstructName, hTable, List.append_cancel_left_eq, List.cons.injEq,
      true_and] at hName
    exact Prod.ext hTable hName
  · intro h
    have hTable : r.linkedTo.dbTableName = r'.linkedTo.dbTableName := congrArg Prod.fst h
    have hColumn : r.linkedTo.dbTableColumn = r'.linkedTo.dbTableColumn := congrArg Prod.snd h
    refine ⟨hTable, ?_⟩
    change r.uniqueConstructName = _
    rw [uniqueConstructName, uniqueConstructName, hTable, hColumn]

theorem uniqueConstraint_inj (h : r.target = r'.target) : r.uniqueConstraint = r'.uniqueConstraint := by
  have hTable : r.linkedTo.dbTableName = r'.linkedTo.dbTableName := congrArg Prod.fst h
  have hColumn : r.linkedTo.dbTableColumn = r'.linkedTo.dbTableColumn := congrArg Prod.snd h
  rw [uniqueConstraint, uniqueConstraint, uniqueConstructName, uniqueConstructName, hTable, hColumn]

end Relationship

theorem mem_uniques_of_done {done : List ApplyingSql} {u : UniqueConstraint}
    (h : u ∈ done.filterMap ApplyingSql.unique?) : ∃ r, .unique r ∈ done ∧ u = r.uniqueConstraint := by
  obtain ⟨statement, hMem, hUnique⟩ := List.mem_filterMap.mp h
  cases statement with
  | unique r =>
    cases hUnique
    exact ⟨r, hMem, rfl⟩
  | foreignKey r => cases hUnique
  | index r => cases hUnique
  | createIndex index => cases hUnique

theorem mem_foreignKeys_of_done {done : List ApplyingSql} {k : ForeignKeyConstraint}
    (h : k ∈ done.filterMap ApplyingSql.foreignKey?) :
    ∃ r, .foreignKey r ∈ done ∧ k = r.foreignKeyConstraint := by
  obtain ⟨statement, hMem, hKey⟩ := List.mem_filterMap.mp h
  cases statement with
  | foreignKey r =>
    cases hKey
    exact ⟨r, hMem, rfl⟩
  | unique r => cases hKey
  | index r => cases hKey
  | createIndex index => cases hKey

section AppliedStep

variable {tables : List TableName} {done : List ApplyingSql} {c c' : Constraints}

theorem Applied.start (hKeys : c.foreignKeys = []) (hUniques : c.uniques = []) : Applied tables [] c :=
  ⟨hKeys, fun u => by rw [hUniques]; rfl, by rw [hKeys]; exact List.nodup_nil,
    fun _ h => absurd h List.not_mem_nil⟩

theorem Applied.mono {tables' : List TableName} (h : Applied tables done c) (hTables : tables ⊆ tables') :
    Applied tables' done c :=
  ⟨h.foreignKeys, h.uniques, h.nodup, fun statement hMem =>
    List.Subset.trans (h.tables statement hMem) hTables⟩

/-- A unique constraint that is in place under the name of another is the other. -/
theorem Applied.unique_in_place (h : Applied tables done c) {r : Relationship}
    (hHas : c.HasConstraint r.linkedTo.dbTableName r.uniqueConstructName) :
    r.uniqueConstraint ∈ c.uniques := by
  rcases hHas with ⟨k, hk, -, hName⟩ | ⟨u, hu, hTable, hName⟩
  · rw [h.foreignKeys] at hk
    obtain ⟨r', -, rfl⟩ := mem_foreignKeys_of_done hk
    exact absurd hName (r'.foreignKeyConstructName_ne_unique r)
  · obtain ⟨r', -, rfl⟩ := mem_uniques_of_done ((h.uniques u).mp hu)
    have hTarget := Relationship.uniqueConstraint_eq_iff.mp ⟨hTable, hName⟩
    rw [← Relationship.uniqueConstraint_inj hTarget]
    exact hu

theorem Applied.tables_append (h : Applied tables done c) {statement : ApplyingSql}
    (hTables : statement.tables ⊆ tables) :
    ∀ x ∈ done ++ [statement], x.tables ⊆ tables := by
  intro x hx
  rcases List.mem_append.mp hx with hOld | hNew
  · exact h.tables x hOld
  · rw [List.mem_singleton.mp hNew]
    exact hTables

theorem Applied.unique (h : Applied tables done c) {r : Relationship}
    (hApply : c.apply tables (.unique r) = some c') : Applied tables (done ++ [.unique r]) c' := by
  rw [Constraints.apply] at hApply
  split at hApply
  · cases hApply
  · rename_i hTable
    have hTables : ∀ x ∈ done ++ [ApplyingSql.unique r], x.tables ⊆ tables :=
      h.tables_append (List.cons_subset.mpr ⟨not_not.mp hTable, List.nil_subset _⟩)
    split at hApply
    · rename_i hHas
      cases hApply
      have hPlace := h.unique_in_place hHas
      refine ⟨?_, fun u => ?_, h.nodup, hTables⟩
      · rw [h.foreignKeys, List.filterMap_append]
        exact (List.append_nil _).symm
      · rw [h.uniques, List.filterMap_append, List.mem_append]
        refine ⟨.inl, fun hu => hu.elim id fun hNew => ?_⟩
        rw [List.mem_singleton.mp hNew]
        exact (h.uniques _).mp hPlace
    · split at hApply
      · cases hApply
      · cases hApply
        refine ⟨?_, fun u => ?_, h.nodup, hTables⟩
        · rw [List.filterMap_append]
          exact h.foreignKeys.trans (List.append_nil _).symm
        · rw [List.filterMap_append, List.mem_append, List.mem_append, h.uniques]
          exact Iff.rfl

theorem Applied.foreignKey (h : Applied tables done c) {r : Relationship}
    (hApply : c.apply tables (.foreignKey r) = some c') :
    Applied tables (done ++ [.foreignKey r]) c' := by
  rw [Constraints.apply] at hApply
  split at hApply
  · cases hApply
  · rename_i hTable
    obtain ⟨hOwn, hLinked⟩ := not_or.mp hTable
    have hTables : ∀ x ∈ done ++ [ApplyingSql.foreignKey r], x.tables ⊆ tables :=
      h.tables_append (List.cons_subset.mpr
        ⟨not_not.mp hOwn, List.cons_subset.mpr ⟨not_not.mp hLinked, List.nil_subset _⟩⟩)
    split at hApply
    · cases hApply
    · rename_i hNew
      split at hApply
      · cases hApply
        refine ⟨?_, fun u => ?_, ?_, hTables⟩
        · rw [List.filterMap_append, h.foreignKeys]
          rfl
        · rw [List.filterMap_append, List.mem_append, h.uniques]
          exact ⟨.inl, fun hu => hu.elim id fun hNone => absurd hNone List.not_mem_nil⟩
        · rw [List.map_append, List.nodup_append]
          refine ⟨h.nodup, List.nodup_singleton _, fun pair hPair pair' hPair' hEq => hNew (.inl ?_)⟩
          obtain ⟨k, hk, rfl⟩ := List.mem_map.mp hPair
          rw [List.mem_singleton.mp hPair'] at hEq
          exact ⟨k, hk, congrArg Prod.fst hEq, congrArg Prod.snd hEq⟩
      · cases hApply

/-- An index adds nothing to the constraints. -/
theorem Applied.indexed (h : Applied tables done c) {statement : ApplyingSql}
    (hKey : statement.foreignKey? = none) (hUnique : statement.unique? = none)
    (hTables : statement.tables ⊆ tables) (indexes : List StoredIndex) :
    Applied tables (done ++ [statement]) { c with indexes := indexes } := by
  have hKeys : [statement].filterMap ApplyingSql.foreignKey? = [] := by
    rw [List.filterMap_cons, hKey, List.filterMap_nil]
  have hUniques : [statement].filterMap ApplyingSql.unique? = [] := by
    rw [List.filterMap_cons, hUnique, List.filterMap_nil]
  refine ⟨?_, fun u => ?_, h.nodup, h.tables_append hTables⟩
  · rw [List.filterMap_append, hKeys, List.append_nil]
    exact h.foreignKeys
  · rw [List.filterMap_append, hUniques, List.append_nil]
    exact h.uniques u

theorem Applied.index (h : Applied tables done c) {r : Relationship}
    (hApply : c.apply tables (.index r) = some c') : Applied tables (done ++ [.index r]) c' := by
  rw [Constraints.apply] at hApply
  split at hApply
  · cases hApply
  · rename_i hTable
    have hTables : ApplyingSql.tables (.index r) ⊆ tables :=
      List.cons_subset.mpr ⟨not_not.mp hTable, List.nil_subset _⟩
    split at hApply
    · cases hApply
      exact h.indexed rfl rfl hTables c.indexes
    · cases hApply
      exact h.indexed rfl rfl hTables _

end AppliedStep

/-! ### The dropping of what has been applied -/

section Dropping

variable {tables : List TableName}

/-- The statements one after the other. -/
def Constraints.dropAll (tables : List TableName) : Constraints → List DroppingSql → Option Constraints
  | c, [] => some c
  | c, code :: codes => (c.drop tables code).bind fun c' => Constraints.dropAll tables c' codes

/-- The constraints are those of the relationships. -/
structure Holds (tables : List TableName) (rs : List Relationship) (c : Constraints) : Prop where
  foreignKeys : c.foreignKeys = rs.map Relationship.foreignKeyConstraint
  uniques : ∀ u, u ∈ c.uniques ↔ u ∈ rs.map Relationship.uniqueConstraint
  nodup : (c.foreignKeys.map fun k => (k.table, k.name)).Nodup
  tables : ∀ r ∈ rs, r.dbTableName ∈ tables ∧ r.linkedTo.dbTableName ∈ tables

theorem filter_of_nodup_cons {α β : Type} [DecidableEq β] {f : α → β} {a : α} {as : List α}
    (h : ((a :: as).map f).Nodup) : (a :: as).filter (fun x => ¬f x = f a) = as := by
  rw [List.map_cons, List.nodup_cons] at h
  rw [List.filter_cons_of_neg (by simp), List.filter_eq_self]
  intro x hx
  exact decide_eq_true fun hEq => h.1 (List.mem_map.mpr ⟨x, hx, hEq⟩)

variable {r : Relationship} {rs : List Relationship} {c : Constraints}

theorem Holds.unique_of_mem (h : Holds tables rs c) {u : UniqueConstraint} (hu : u ∈ c.uniques) :
    ∃ r' ∈ rs, u = r'.uniqueConstraint := by
  obtain ⟨r', hMem, hEq⟩ := List.mem_map.mp ((h.uniques u).mp hu)
  exact ⟨r', hMem, hEq.symm⟩

theorem Holds.drop_foreignKey (h : Holds tables (r :: rs) c) :
    c.dropConstraint tables r.dbTableName r.foreignKeyConstructName =
      some { c with foreignKeys := rs.map Relationship.foreignKeyConstraint } := by
  have hTable := (h.tables r (List.mem_cons_self ..)).1
  have hNames : ∀ u ∈ c.uniques, u.name ≠ r.foreignKeyConstructName := by
    intro u hu
    obtain ⟨r', -, rfl⟩ := h.unique_of_mem hu
    exact (r.foreignKeyConstructName_ne_unique r').symm
  have hKeys : c.foreignKeys.filter
      (fun k => ¬(k.table = r.dbTableName ∧ k.name = r.foreignKeyConstructName)) =
        rs.map Relationship.foreignKeyConstraint := by
    have hNodup := h.nodup
    rw [h.foreignKeys, List.map_cons] at hNodup ⊢
    refine Eq.trans ?_ (filter_of_nodup_cons hNodup)
    refine List.filter_congr fun k _ => decide_eq_decide.mpr (not_congr ?_)
    exact ⟨fun hEq => Prod.ext hEq.1 hEq.2, fun hEq => ⟨congrArg Prod.fst hEq, congrArg Prod.snd hEq⟩⟩
  have hUniques : c.uniques.filter
      (fun u => ¬(u.table = r.dbTableName ∧ u.name = r.foreignKeyConstructName)) = c.uniques :=
    List.filter_eq_self.mpr fun u hu => decide_eq_true fun hEq => hNames u hu hEq.2
  rw [Constraints.dropConstraint, if_neg (not_not.mpr hTable), if_neg, hKeys, hUniques]
  rintro ⟨u, hu, hEq, -⟩
  exact hNames u hu hEq.2

/-- What is left to drop the unique constraint from. -/
theorem Holds.mem_foreignKeys {k : ForeignKeyConstraint}
    (hk : k ∈ rs.map Relationship.foreignKeyConstraint) {u : UniqueConstraint}
    (hu : u = r.uniqueConstraint) (hTable : k.linkedTable = u.table) (hColumn : k.linkedColumn = u.column) :
    r.target ∈ rs.map Relationship.target := by
  obtain ⟨r', hMem, rfl⟩ := List.mem_map.mp hk
  subst hu
  exact List.mem_map.mpr ⟨r', hMem, Prod.ext hTable hColumn⟩

/-- The unique constraint that a dropping statement names. -/
theorem Holds.named_unique (h : Holds tables (r :: rs) c) {u : UniqueConstraint} (hu : u ∈ c.uniques) :
    u.table = r.linkedTo.dbTableName ∧ u.name = r.uniqueConstructName ↔ u = r.uniqueConstraint := by
  obtain ⟨r', -, rfl⟩ := h.unique_of_mem hu
  constructor
  · exact fun hNamed => Relationship.uniqueConstraint_inj (Relationship.uniqueConstraint_eq_iff.mp hNamed)
  · exact fun hEq => ⟨congrArg UniqueConstraint.table hEq, congrArg UniqueConstraint.name hEq⟩

theorem Holds.foreignKeys_unnamed (rs : List Relationship) (r : Relationship) :
    (rs.map Relationship.foreignKeyConstraint).filter
      (fun k => ¬(k.table = r.linkedTo.dbTableName ∧ k.name = r.uniqueConstructName)) =
        rs.map Relationship.foreignKeyConstraint := by
  refine List.filter_eq_self.mpr fun k hk => decide_eq_true fun hEq => ?_
  obtain ⟨r', -, rfl⟩ := List.mem_map.mp hk
  exact r'.foreignKeyConstructName_ne_unique r hEq.2

/-- A foreign key of a later relationship keeps the unique constraint from being dropped. -/
theorem Holds.drop_refused (h : Holds tables (r :: rs) c) (hLater : r.target ∈ rs.map Relationship.target) :
    Constraints.dropConstraint tables
      { c with foreignKeys := rs.map Relationship.foreignKeyConstraint }
      r.linkedTo.dbTableName r.uniqueConstructName = none := by
  obtain ⟨r', hMem, hTarget⟩ := List.mem_map.mp hLater
  rw [Constraints.dropConstraint, if_neg (not_not.mpr (h.tables r (List.mem_cons_self ..)).2), if_pos]
  refine ⟨r.uniqueConstraint, (h.uniques _).mpr (List.mem_cons_self ..), ⟨rfl, rfl⟩,
    r'.foreignKeyConstraint, ?_, congrArg Prod.fst hTarget, congrArg Prod.snd hTarget⟩
  rw [Holds.foreignKeys_unnamed]
  exact List.mem_map.mpr ⟨r', hMem, rfl⟩

theorem Holds.drop_unique (h : Holds tables (r :: rs) c) (hLast : r.target ∉ rs.map Relationship.target) :
    ∃ c', Constraints.dropConstraint tables
        { c with foreignKeys := rs.map Relationship.foreignKeyConstraint }
        r.linkedTo.dbTableName r.uniqueConstructName = some c' ∧ Holds tables rs c' := by
  have hNodup := h.nodup
  rw [h.foreignKeys, List.map_cons, List.map_cons] at hNodup
  refine ⟨⟨rs.map Relationship.foreignKeyConstraint, c.uniques.filter fun u =>
      ¬(u.table = r.linkedTo.dbTableName ∧ u.name = r.uniqueConstructName), c.indexes⟩, ?_, rfl,
    fun u => ?_, (List.nodup_cons.mp hNodup).2, fun r' hr' => h.tables r' (List.mem_cons_of_mem _ hr')⟩
  · rw [Constraints.dropConstraint, if_neg (not_not.mpr (h.tables r (List.mem_cons_self ..)).2),
      if_neg, Holds.foreignKeys_unnamed]
    rintro ⟨u, hu, hNamed, k, hk, hTable, hColumn⟩
    rw [Holds.foreignKeys_unnamed] at hk
    exact hLast (Holds.mem_foreignKeys hk ((h.named_unique hu).mp hNamed) hTable hColumn)
  · rw [List.mem_filter, decide_eq_true_eq]
    constructor
    · rintro ⟨hu, hNot⟩
      rw [h.named_unique hu] at hNot
      have hMem := (h.uniques u).mp hu
      rw [List.map_cons, List.mem_cons] at hMem
      exact hMem.resolve_left hNot
    · intro hu
      have hMem : u ∈ c.uniques := (h.uniques u).mpr (List.mem_cons_of_mem _ hu)
      refine ⟨hMem, fun hNamed => hLast ?_⟩
      obtain ⟨r', hr', rfl⟩ := List.mem_map.mp hu
      exact List.mem_map.mpr ⟨r', hr', Relationship.uniqueConstraint_eq_iff.mp hNamed⟩

theorem Holds.drop_index (h : Holds tables rs c) (r : Relationship) :
    ∃ c', c.drop tables (.index r.dbTableName.schema r.indexName) = some c' ∧ Holds tables rs c' := by
  rw [Constraints.drop, if_neg]
  · exact ⟨_, rfl, h.foreignKeys, h.uniques, h.nodup, h.tables⟩
  · rintro ⟨u, hu, -, hName⟩
    obtain ⟨r', -, rfl⟩ := h.unique_of_mem hu
    exact r'.uniqueConstructName_ne_index r hName

/-- The constraints of relationships can all be dropped exactly if no two refer to one column. -/
theorem Holds.dropAll_iff (h : Holds tables rs c) :
    (c.dropAll tables (rs.flatMap Relationship.dropSql)).isSome ↔
      (rs.map Relationship.target).Nodup := by
  induction rs generalizing c with
  | nil => simp [Constraints.dropAll]
  | cons r rs ih =>
    rw [List.flatMap_cons, List.map_cons, List.nodup_cons, Relationship.dropSql, List.cons_append,
      Constraints.dropAll, Constraints.drop, h.drop_foreignKey, Option.bind_some]
    by_cases hLater : r.target ∈ rs.map Relationship.target
    · rw [h.drop_refused hLater]
      exact iff_of_false (by simp) fun hBoth => hBoth.1 hLater
    · obtain ⟨mid, hDrop, hMid⟩ := h.drop_unique hLater
      obtain ⟨c', hIndex, hRest⟩ := hMid.drop_index r
      rw [hDrop, Option.bind_some, List.cons_append, Constraints.dropAll, hIndex, Option.bind_some,
        List.nil_append, ih hRest]
      exact ⟨fun hNodup => ⟨hLater, hNodup⟩, And.right⟩

end Dropping

end Rindexer.Database
