import Mathlib.Data.String.Basic
import Rindexer.Lib.Sorting
import Rindexer.Manifest

/-! The checks that a custom table passes before it is created: its `where` columns, its null values
and the columns that its inserts have to set. -/

namespace Rindexer.Manifest

open Rindexer.Lib

/-- The first error of a check over a list. -/
def each {α : Type} (check : α → Except String Unit) : List α → Except String Unit
  | [] => .ok ()
  | a :: l =>
    match check a with
    | .error message => .error message
    | .ok () => each check l

theorem each_ok_iff {α : Type} {check : α → Except String Unit} {l : List α} :
    each check l = .ok () ↔ ∀ a ∈ l, check a = .ok () := by
  induction l with
  | nil => simp [each]
  | cons a l ih =>
    rw [each, List.forall_mem_cons, ← ih]
    cases hCheck : check a with
    | error message => simp
    | ok u => simp

theorem ok_of_ite_error {p : Prop} [Decidable p] {message : String} {rest : Except String Unit} :
    (if p then .error message else rest) = .ok () ↔ ¬ p ∧ rest = .ok () := by
  split
  case isTrue h => exact ⟨nofun, fun hOk => absurd h hOk.1⟩
  case isFalse h => exact ⟨fun hOk => ⟨h, hOk⟩, fun hOk => hOk.2⟩

/-- How `Debug` writes a list of strings. -/
def debugStrings (l : List String) : String := "[" ++ ", ".intercalate (l.map String.quote) ++ "]"

namespace Table

/-! ### The where columns -/

def validateGlobalOperation (t : Table) (op : TableOperation) : Except String Unit :=
  if op.whereClause ≠ [] then
    .error ("Global table '" ++ t.name ++ "' should not have 'where' clauses. " ++
      "Global tables have a single row per network.")
  else if op.operationType = .insert then
    .error ("Global table '" ++ t.name ++ "' cannot use 'insert' operation type. " ++
      "Global tables maintain a single row per network - use 'upsert' instead. " ++
      "For time-series data that inserts new rows, remove 'global: true'.")
  else .ok ()

def sortedWhere (op : TableOperation) : List String := sortByKey id op.whereColumns

/-- The loop over the operations: the columns that they have to use, and whether one is no insert. -/
def whereLoop (t : Table) :
    Option (List String) → Bool → List TableOperation → Except String (Option (List String) × Bool)
  | expected, hasNonInsert, [] => .ok (expected, hasNonInsert)
  | expected, hasNonInsert, op :: ops =>
    if op.operationType = .insert then
      if op.whereClause ≠ [] then
        .error ("Insert operation in table '" ++ t.name ++ "' should not have a 'where' clause. " ++
          "Insert always creates new rows (identified by rindexer_sequence_id).")
      else t.whereLoop expected hasNonInsert ops
    else
      match expected with
      | none => t.whereLoop (some (sortedWhere op)) true ops
      | some columns =>
        if sortedWhere op ≠ columns then
          .error ("Inconsistent 'where' columns in table '" ++ t.name ++ "'. Expected " ++
            debugStrings columns ++ " but found " ++ debugStrings (sortedWhere op) ++
            ". All operations must use the same where columns.")
        else t.whereLoop (some columns) true ops

def validateWhereColumns (t : Table) : Except String Unit :=
  if t.global then each t.validateGlobalOperation t.allOperations
  else
    match t.whereLoop none false t.allOperations with
    | .error message => .error message
    | .ok (expected, hasNonInsert) =>
      if hasNonInsert = true ∧ expected.getD [] = [] then
        .error ("Table '" ++ t.name ++ "' has no 'where' clause in upsert/update/delete operations. " ++
          "At least one column must be specified in 'where' to identify rows. " ++
          "For single-row aggregate tables, use 'global: true' instead. " ++
          "For time-series data, use 'type: insert' which doesn't require 'where'.")
      else .ok ()

/-- What the loop accepts: inserts without columns, and one set of columns for all others. -/
structure WhereAccepted (ops : List TableOperation) (expected : Option (List String))
    (hasNonInsert : Bool) : Prop where
  inserts : ∀ op ∈ ops, op.operationType = .insert → op.whereClause = []
  same : ∀ op ∈ ops, op.operationType ≠ .insert →
    expected = some (sortedWhere op) ∧ hasNonInsert = true

theorem whereLoop_ok {t : Table} {ops : List TableOperation} {expected expected' : Option (List String)}
    {hasNonInsert hasNonInsert' : Bool}
    (h : t.whereLoop expected hasNonInsert ops = .ok (expected', hasNonInsert')) :
    WhereAccepted ops expected' hasNonInsert' ∧ (∀ columns ∈ expected, expected' = some columns) ∧
      (hasNonInsert = true → hasNonInsert' = true) := by
  induction ops generalizing expected hasNonInsert with
  | nil =>
    cases h
    refine ⟨⟨nofun, nofun⟩, fun columns hColumns => hColumns, id⟩
  | cons op ops ih =>
    unfold whereLoop at h
    split at h
    case isTrue hInsert =>
      split at h
      case isTrue => cases h
      case isFalse hNone =>
        obtain ⟨hRest, hExpected, hHas⟩ := ih h
        refine ⟨⟨?_, ?_⟩, hExpected, hHas⟩
        · rintro op' hMem hType
          rcases List.mem_cons.mp hMem with rfl | hMem
          · exact not_not.mp hNone
          · exact hRest.inserts op' hMem hType
        · rintro op' hMem hType
          rcases List.mem_cons.mp hMem with rfl | hMem
          · exact absurd hInsert hType
          · exact hRest.same op' hMem hType
    case isFalse hOther =>
      have hCons : ∀ {columns : List String}, columns = sortedWhere op →
          t.whereLoop (some columns) true ops = .ok (expected', hasNonInsert') →
          WhereAccepted (op :: ops) expected' hasNonInsert' ∧ expected' = some columns ∧
            hasNonInsert' = true := by
        rintro columns hColumns hLoop
        obtain ⟨hRest, hExpected, hHas⟩ := ih hLoop
        refine ⟨⟨?_, ?_⟩, hExpected _ rfl, hHas rfl⟩
        · rintro op' hMem hType
          rcases List.mem_cons.mp hMem with rfl | hMem
          · exact absurd hType hOther
          · exact hRest.inserts op' hMem hType
        · rintro op' hMem hType
          rcases List.mem_cons.mp hMem with rfl | hMem
          · exact ⟨hColumns ▸ hExpected _ rfl, hHas rfl⟩
          · exact hRest.same op' hMem hType
      cases expected with
      | none =>
        obtain ⟨hAccepted, -, hHas⟩ := hCons rfl h
        exact ⟨hAccepted, nofun, fun _ => hHas⟩
      | some columns =>
        simp only at h
        split at h
        case isTrue => cases h
        case isFalse hSame =>
          obtain ⟨hAccepted, hExpected, hHas⟩ := hCons (not_not.mp hSame).symm h
          refine ⟨hAccepted, fun columns' hColumns => ?_, fun _ => hHas⟩
          rw [hExpected, Option.mem_some_iff.mp hColumns]

/-- A global table has no `where` clause and no insert. -/
theorem global_of_validateWhereColumns {t : Table} (h : t.validateWhereColumns = .ok ())
    (hGlobal : t.global = true) :
    ∀ op ∈ t.allOperations, op.whereClause = [] ∧ op.operationType ≠ .insert := by
  rw [validateWhereColumns, if_pos hGlobal, each_ok_iff] at h
  intro op hOp
  have hCheck := h op hOp
  rw [validateGlobalOperation, ok_of_ite_error, ok_of_ite_error] at hCheck
  exact ⟨not_not.mp hCheck.1, hCheck.2.1⟩

/-- In another table the inserts have no `where` clause, and all other operations one over the same
columns. -/
theorem where_of_validateWhereColumns {t : Table} (h : t.validateWhereColumns = .ok ())
    (hGlobal : t.global = false) :
    (∀ op ∈ t.allOperations, op.operationType = .insert → op.whereClause = []) ∧
      (∀ op ∈ t.allOperations, op.operationType ≠ .insert → op.whereClause ≠ [] ∧
        ∀ op' ∈ t.allOperations, op'.operationType ≠ .insert →
          op.whereColumns.Perm op'.whereColumns) := by
  rw [validateWhereColumns, hGlobal, if_neg Bool.false_ne_true] at h
  cases hLoop : t.whereLoop none false t.allOperations with
  | error message =>
    rw [hLoop] at h
    cases h
  | ok result =>
    obtain ⟨expected, hasNonInsert⟩ := result
    simp only [hLoop] at h
    obtain ⟨hNonEmpty, -⟩ := ok_of_ite_error.mp h
    obtain ⟨hAccepted, -⟩ := whereLoop_ok hLoop
    have hSorted : ∀ op : TableOperation, (sortedWhere op).Perm op.whereColumns :=
      fun op => sortByKey_perm _ _
    refine ⟨hAccepted.inserts, fun op hOp hType => ⟨fun hEmpty => ?_, fun op' hOp' hType' => ?_⟩⟩
    · obtain ⟨hExpected, hHas⟩ := hAccepted.same op hOp hType
      refine hNonEmpty ⟨hHas, ?_⟩
      rw [hExpected, Option.getD_some]
      have hNone := hSorted op
      rw [TableOperation.whereColumns, hEmpty] at hNone
      exact List.perm_nil.mp hNone
    · have hSame : sortedWhere op = sortedWhere op' := Option.some.inj <|
        (hAccepted.same op hOp hType).1.symm.trans (hAccepted.same op' hOp' hType').1
      exact (hSorted op).symm.trans (hSame ▸ hSorted op')

/-! ### Null values -/

def nullableColumns (t : Table) : List String :=
  (t.columns.filter TableColumn.nullable).map TableColumn.name

/-- The check of a column and the value that it is matched with or set to. -/
def validateNullValue (t : Table) (column value : String) : Except String Unit :=
  if value = "$null" ∧ column ∉ t.nullableColumns then
    .error ("Cannot use '$null' for column '" ++ column ++ "' in table '" ++ t.name ++
      "' because it is not nullable. " ++
      "Add 'nullable: true' to the column definition to allow NULL values.")
  else .ok ()

def validateNullValues (t : Table) : Except String Unit :=
  each (fun op =>
    match each (fun w => t.validateNullValue w.1 w.2) op.whereClause with
    | .error message => .error message
    | .ok () => each (fun s => t.validateNullValue s.column s.effectiveValue) op.set) t.allOperations

/-- Only nullable columns are matched with `$null` or set to it. -/
theorem nullable_of_validateNullValues {t : Table} (h : t.validateNullValues = .ok ())
    {op : TableOperation} (hOp : op ∈ t.allOperations) :
    (∀ w ∈ op.whereClause, w.2 = "$null" → w.1 ∈ t.nullableColumns) ∧
      ∀ s ∈ op.set, s.effectiveValue = "$null" → s.column ∈ t.nullableColumns := by
  have hCheck := each_ok_iff.mp h op hOp
  have hValue : ∀ {column value : String}, t.validateNullValue column value = .ok () →
      value = "$null" → column ∈ t.nullableColumns := by
    intro column value hOk hNull
    rw [validateNullValue, ok_of_ite_error, not_and, not_not] at hOk
    exact hOk.1 hNull
  cases hWhere : each (fun w => t.validateNullValue w.1 w.2) op.whereClause with
  | error message =>
    simp only [hWhere] at hCheck
    cases hCheck
  | ok u =>
    simp only [hWhere] at hCheck
    exact ⟨fun w hw => hValue (each_ok_iff.mp hWhere w hw),
      fun s hs => hValue (each_ok_iff.mp hCheck s hs)⟩

/-! ### Required columns -/

/-- The columns that the check takes to be generated. -/
def autoColumns : List String :=
  ["rindexer_sequence_id", "network", "rindexer_block_number", "rindexer_block_hash",
    "rindexer_tx_hash", "rindexer_tx_index", "rindexer_log_index", "rindexer_contract_address",
    "rindexer_block_timestamp"]

def optionalColumns (t : Table) : List String :=
  (t.columns.filter fun c => c.nullable || c.default.isSome).map TableColumn.name

def validateRequiredColumn (t : Table) (mapping : TableEventMapping) (op : TableOperation)
    (column : TableColumn) : Except String Unit :=
  if column.name ∈ autoColumns ∨ column.name ∈ t.optionalColumns ∨
      column.name ∈ op.set.map SetColumn.column then .ok ()
  else
    .error ("Column '" ++ column.name ++ "' in table '" ++ t.name ++
      "' is not nullable and has no default value, " ++
      "but is not set in the insert operation for event '" ++ mapping.event ++ "'. " ++
      "Either set the column, add a default value, or mark it as nullable.")

def validateRequiredColumns (t : Table) : Except String Unit :=
  each (fun mapping =>
    each (fun op =>
      if op.operationType = .insert then each (t.validateRequiredColumn mapping op) t.columns
      else .ok ()) mapping.operations) t.events

/-- An insert of an event sets the columns that are neither optional nor taken to be generated. -/
theorem set_of_validateRequiredColumns {t : Table} (h : t.validateRequiredColumns = .ok ())
    {mapping : TableEventMapping} (hMapping : mapping ∈ t.events) {op : TableOperation}
    (hOp : op ∈ mapping.operations) (hInsert : op.operationType = .insert) {column : TableColumn}
    (hColumn : column ∈ t.columns) : column.name ∈ autoColumns ∨ column.name ∈ t.optionalColumns ∨
      column.name ∈ op.set.map SetColumn.column := by
  have hCheck := each_ok_iff.mp (each_ok_iff.mp h mapping hMapping) op hOp
  rw [if_pos hInsert] at hCheck
  have hSet := each_ok_iff.mp hCheck column hColumn
  rw [validateRequiredColumn] at hSet
  by_contra hNot
  rw [if_neg hNot] at hSet
  cases hSet

/-- The checks that a custom table has to pass. -/
structure Accepted (t : Table) : Prop where
  whereColumns : t.validateWhereColumns = .ok ()
  nullValues : t.validateNullValues = .ok ()
  requiredColumns : t.validateRequiredColumns = .ok ()

end Table

end Rindexer.Manifest
