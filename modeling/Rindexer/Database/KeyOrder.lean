import Rindexer.Database.CreateTable

/-! The order of a primary key.  The `where` clauses of a manifest are hash maps, so each reading of
the manifest goes through the columns of a clause in an order of its own, and the columns of a primary
key come in the order in which they are met. -/

namespace Rindexer.Manifest

open Rindexer.Lib

/-- An operation and what another reading of the manifest makes of it. -/
structure TableOperation.Reordered (op op' : TableOperation) : Prop where
  rest : op' = { op with whereClause := op'.whereClause }
  whereClause : op.whereClause.Perm op'.whereClause

structure TableEventMapping.Reordered (mapping mapping' : TableEventMapping) : Prop where
  rest : mapping' = { mapping with operations := mapping'.operations }
  operations : List.Forall₂ TableOperation.Reordered mapping.operations mapping'.operations

structure Table.Reordered (t t' : Table) : Prop where
  rest : t' = { t with events := t'.events, cronOperations := t'.cronOperations }
  events : List.Forall₂ TableEventMapping.Reordered t.events t'.events
  cronOperations : List.Forall₂ TableOperation.Reordered t.cronOperations t'.cronOperations

theorem TableOperation.Reordered.refl (op : TableOperation) : op.Reordered op := ⟨rfl, .refl _⟩

theorem TableOperation.Reordered.operationType_eq {op op' : TableOperation} (h : op.Reordered op') :
    op'.operationType = op.operationType := by
  rw [h.rest]

theorem TableOperation.Reordered.whereColumns {op op' : TableOperation} (h : op.Reordered op') :
    op.whereColumns.Perm op'.whereColumns := h.whereClause.map _

namespace Table

/-- The columns that rows are told apart by, and their order, are settled: no operation brings two
columns that no operation before it has. -/
def KeyOrdered (t : Table) : Prop :=
  t.isInsertOnly = true ∨ BringsOne [] (t.allOperations.map TableOperation.whereColumns)

/-- A table with each of its operations changed. -/
def mapOperations (f : TableOperation → TableOperation) (t : Table) : Table :=
  { t with
    events := t.events.map fun mapping => { mapping with operations := mapping.operations.map f }
    cronOperations := t.cronOperations.map f }

theorem allOperations_mapOperations (f : TableOperation → TableOperation) (t : Table) :
    (t.mapOperations f).allOperations = t.allOperations.map f := by
  simp only [allOperations, mapOperations, List.map_append, List.flatMap_map, List.map_flatMap]

theorem reordered_mapOperations {f : TableOperation → TableOperation} (h : ∀ op : TableOperation, op.Reordered (f op))
    (t : Table) : t.Reordered (t.mapOperations f) := by
  have hOps : ∀ ops : List TableOperation, List.Forall₂ TableOperation.Reordered ops (ops.map f) :=
    fun ops => List.forall₂_map_right_iff.mpr (List.forall₂_same.mpr fun op _ => h op)
  refine ⟨rfl, ?_, hOps t.cronOperations⟩
  exact List.forall₂_map_right_iff.mpr (List.forall₂_same.mpr fun m _ => ⟨rfl, hOps m.operations⟩)

namespace Reordered

variable {t t' : Table}

theorem refl (t : Table) : t.Reordered t := by
  have hOps : ∀ ops : List TableOperation, List.Forall₂ TableOperation.Reordered ops ops :=
    fun ops => List.forall₂_same.mpr fun op _ => .refl op
  exact ⟨rfl, List.forall₂_same.mpr fun m _ => ⟨rfl, hOps m.operations⟩, hOps t.cronOperations⟩

theorem columns (h : t.Reordered t') : t'.columns = t.columns := by rw [h.rest]

theorem crossChain (h : t.Reordered t') : t'.crossChain = t.crossChain := by rw [h.rest]

theorem timestamp (h : t.Reordered t') : t'.timestamp = t.timestamp := by rw [h.rest]

theorem allOperations (h : t.Reordered t') :
    List.Forall₂ TableOperation.Reordered t.allOperations t'.allOperations :=
  List.rel_append (List.rel_flatMap h.events fun _ _ hMapping => hMapping.operations)
    h.cronOperations

theorem isInsertOnly (h : t.Reordered t') : t'.isInsertOnly = t.isInsertOnly := by
  have hAll : ∀ {ops ops' : List TableOperation}, List.Forall₂ TableOperation.Reordered ops ops' →
      (ops' != []) = (ops != []) ∧ (ops'.all fun op => op.operationType == .insert) =
        ops.all fun op => op.operationType == .insert := by
    intro ops ops' hOps
    induction hOps with
    | nil => exact ⟨rfl, rfl⟩
    | cons hHead _ ih => exact ⟨rfl, by rw [List.all_cons, List.all_cons, ih.2, hHead.operationType_eq]⟩
  obtain ⟨hNil, hEach⟩ := hAll h.allOperations
  rw [Table.isInsertOnly, Table.isInsertOnly, hNil, hEach]

theorem whereColumns (h : t.Reordered t') :
    List.Forall₂ List.Perm (t.allOperations.map TableOperation.whereColumns)
      (t'.allOperations.map TableOperation.whereColumns) := by
  rw [List.forall₂_map_left_iff, List.forall₂_map_right_iff]
  exact h.allOperations.imp fun _ _ hOp => hOp.whereColumns

theorem mem_primaryKeyColumns (h : t.Reordered t') {name : String} :
    name ∈ t'.primaryKeyColumns ↔ name ∈ t.primaryKeyColumns := by
  have hMem : ∀ {lists lists' : List (List String)}, List.Forall₂ List.Perm lists lists' →
      (name ∈ lists'.flatten ↔ name ∈ lists.flatten) := by
    intro lists lists' hLists
    induction hLists with
    | nil => exact Iff.rfl
    | cons hHead _ ih =>
      rw [List.flatten_cons, List.flatten_cons, List.mem_append, List.mem_append, ih, hHead.mem_iff]
  rw [primaryKeyColumns, primaryKeyColumns, firstSeen, firstSeen, mem_addUnseen, mem_addUnseen,
    hMem h.whereColumns]

end Reordered

end Table

end Rindexer.Manifest

namespace Rindexer.Database

open Rindexer.Lib Rindexer.Manifest

variable {t t' : Table}

theorem createTable_columns_of_reordered (h : t.Reordered t') :
    (createTable t').columns = (createTable t).columns := by
  rw [createTable, createTable, networkDdl, networkDdl, injectedDdl, injectedDdl, h.columns,
    h.crossChain, h.timestamp, h.isInsertOnly]

theorem mem_primaryKey_of_reordered (h : t.Reordered t') {name : String} :
    name ∈ (createTable t').primaryKey ↔ name ∈ (createTable t).primaryKey := by
  simp only [createTable, h.crossChain, h.isInsertOnly, List.mem_append]
  cases t.isInsertOnly with
  | false => simp only [Bool.false_eq_true, if_false, h.mem_primaryKeyColumns]
  | true => rfl

/-- Two readings that tell rows apart by the same columns, whatever the order, give statements that
Postgres takes alike. -/
theorem wellFormed_of_reordered {acceptsDefault : String → String → Bool} (h : t.Reordered t')
    (hWell : (createTable t).WellFormed acceptsDefault) : (createTable t').WellFormed acceptsDefault := by
  have hColumns := createTable_columns_of_reordered h
  have hNames : (createTable t').columnNames = (createTable t).columnNames := by
    rw [CreateTable.columnNames, CreateTable.columnNames, hColumns]
  refine ⟨hNames ▸ hWell.columns, ?_, ?_, ?_, hColumns ▸ hWell.defaults⟩
  · obtain ⟨name, hName⟩ := List.exists_mem_of_ne_nil _ hWell.key_ne_nil
    exact List.ne_nil_of_mem ((mem_primaryKey_of_reordered h).mpr hName)
  · have hKey := hWell.key_nodup
    simp only [createTable, h.crossChain, h.isInsertOnly] at hKey ⊢
    cases hOnly : t.isInsertOnly with
    | true => simpa only [hOnly, if_true] using hKey
    | false =>
      simp only [hOnly, Bool.false_eq_true, if_false, List.nodup_append] at hKey ⊢
      exact ⟨hKey.1, t'.nodup_primaryKeyColumns,
        fun a ha b hb => hKey.2.2 a ha b (h.mem_primaryKeyColumns.mp hb)⟩
  · intro name hName
    rw [hNames]
    exact hWell.key_columns name ((mem_primaryKey_of_reordered h).mp hName)

/-- An operation that is read with a given one of its columns first. -/
theorem exists_reordered_head {op : TableOperation} {column : String} (h : column ∈ op.whereColumns) :
    ∃ op', op.Reordered op' ∧ ∃ rest, op'.whereColumns = column :: rest := by
  obtain ⟨entry, hEntry, rfl⟩ := List.mem_map.mp h
  refine ⟨{ op with whereClause := entry :: op.whereClause.erase entry }, ⟨rfl, ?_⟩, _, rfl⟩
  exact List.perm_cons_erase hEntry

/-- A reading under which a column that an operation brings comes right after the columns of the
operations before it. -/
theorem exists_reordered_prefix {before after : List TableOperation} {op : TableOperation}
    (hOps : t.allOperations = before ++ op :: after) {column : String} (hColumn : column ∈ op.whereColumns)
    (hNew : column ∉ firstSeen [] (before.map TableOperation.whereColumns)) :
    ∃ t', t.Reordered t' ∧
      firstSeen [] (before.map TableOperation.whereColumns) ++ [column] <+: t'.primaryKeyColumns := by
  obtain ⟨op', hOp', rest, hHead⟩ := exists_reordered_head hColumn
  let f : TableOperation → TableOperation := fun o => if o = op then op' else o
  have hEach : ∀ o : TableOperation, o.Reordered (f o) := by
    intro o
    simp only [f]
    split
    case isTrue hEq => exact hEq ▸ hOp'
    case isFalse => exact .refl o
  refine ⟨t.mapOperations f, Table.reordered_mapOperations hEach t, ?_⟩
  have hBefore : before.map f = before := by
    conv => rhs; rw [← List.map_id before]
    refine List.map_congr_left fun o ho => if_neg ?_
    rintro rfl
    exact hNew (mem_firstSeen.mpr (Or.inr ⟨_, List.mem_map_of_mem ho, hColumn⟩))
  rw [Table.primaryKeyColumns, Table.allOperations_mapOperations, hOps, List.map_append, List.map_cons,
    hBefore, List.map_append, List.map_cons, show f op = op' from if_pos rfl, hHead]
  exact prefix_firstSeen_of_head hNew

/-- The primary key is the same in every reading of the manifest just if no operation brings two
columns. -/
theorem primaryKey_eq_iff : (∀ t', t.Reordered t' →
    (createTable t').primaryKey = (createTable t).primaryKey) ↔ t.KeyOrdered := by
  constructor
  · intro hSame
    cases hOnly : t.isInsertOnly with
    | true => exact Or.inl hOnly
    | false =>
      right
      by_contra hTwo
      have hKeys : ∀ t', t.Reordered t' → t'.primaryKeyColumns = t.primaryKeyColumns := by
        intro t' h
        have hEq := hSame t' h
        simp only [createTable, h.crossChain, h.isInsertOnly, hOnly, Bool.false_eq_true,
          if_false] at hEq
        exact List.append_cancel_left hEq
      obtain ⟨before, columns, after, hLists, a, ha, b, hb, hNe, hNewA, hNewB⟩ :=
        exists_of_not_bringsOne hTwo
      obtain ⟨ops, rest, hOps, rfl, hRest⟩ := List.map_eq_append_iff.mp hLists
      obtain ⟨op, ops', rfl, rfl, rfl⟩ := List.map_eq_cons_iff.mp hRest
      obtain ⟨t₁, h₁, hPrefix₁⟩ := exists_reordered_prefix hOps ha hNewA
      obtain ⟨t₂, h₂, hPrefix₂⟩ := exists_reordered_prefix hOps hb hNewB
      rw [hKeys t₁ h₁] at hPrefix₁
      rw [hKeys t₂ h₂] at hPrefix₂
      have hEq := List.IsPrefix.eq_of_length
        (List.prefix_of_prefix_length_le hPrefix₁ hPrefix₂ (by simp)) (by simp)
      exact hNe (List.singleton_inj.mp (List.append_cancel_left hEq))
  · rintro (hOnly | hOne) t' h
    · simp only [createTable, h.crossChain, h.isInsertOnly, hOnly, if_true]
    · have hKeys : t'.primaryKeyColumns = t.primaryKeyColumns := firstSeen_eq_of_perm hOne h.whereColumns
      simp only [createTable, h.crossChain, h.isInsertOnly, hKeys]

end Rindexer.Database
