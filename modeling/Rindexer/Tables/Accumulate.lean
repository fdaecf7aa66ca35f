import Mathlib.Algebra.BigOperators.Group.List.Basic
import Rindexer.Tables.Statements

/-! Upserts without a condition: whatever the order of the rows and however they are cut into batches,
the row of a key is the same function of the rows of the key. -/

namespace Rindexer.Tables.BatchOperation

open Rindexer.Database Rindexer.Manifest Rindexer.Reorg

variable {sv : Server} {b : BatchOperation}

/-- The sum of the values of a column. -/
def total (rows : List TableRow) (name : String) : Int :=
  (rows.map fun row => number (row.fields name)).sum

def NonNull (b : BatchOperation) (row : TableRow) : Prop :=
  ∀ c ∈ b.columns, row.fields c.name ≠ .null

/-- The highest sequence id of some rows. -/
def Highest (rows : List TableRow) (sequenceId : Nat) : Prop :=
  (∃ row ∈ rows, row.sequenceId = sequenceId) ∧ ∀ row ∈ rows, row.sequenceId ≤ sequenceId

/-- What a coalesced row is of its group. -/
structure Coalesced (sv : Server) (b : BatchOperation) (group : List TableRow) (tp : TableRow) :
    Prop where
  sequence : Highest group tp.sequenceId
  sum : ∀ c ∈ b.columns, c.action = .add ∨ c.action = .subtract →
    tp.fields c.name = .num (total group c.name)
  max : ∀ c ∈ b.columns, c.action = .max →
    IsMax sv (group.map fun row => row.fields c.name) (tp.fields c.name)
  min : ∀ c ∈ b.columns, c.action = .min →
    IsMin sv (group.map fun row => row.fields c.name) (tp.fields c.name)
  set : ∀ c ∈ b.columns, c.action = .set → c.columnType.isArray = false →
    ∃ last ∈ group, last.sequenceId = tp.sequenceId ∧ tp.fields c.name = last.fields c.name

/-- What the row of a key is of the rows that were upserted under the key. -/
structure Accumulated (sv : Server) (b : BatchOperation) (rows : List TableRow) (row : TableRow) :
    Prop where
  sequence : Highest rows row.sequenceId
  add : ∀ c ∈ b.columns, c.action = .add →
    row.fields c.name = .num (c.start + total rows c.name)
  subtract : ∀ c ∈ b.columns, c.action = .subtract →
    row.fields c.name = .num (c.start - total rows c.name)
  max : ∀ c ∈ b.columns, c.action = .max →
    IsMax sv (rows.map fun r => r.fields c.name) (row.fields c.name)
  min : ∀ c ∈ b.columns, c.action = .min →
    IsMin sv (rows.map fun r => r.fields c.name) (row.fields c.name)
  set : ∀ c ∈ b.columns, c.action = .set → c.columnType.isArray = false →
    ∃ last ∈ rows, last.sequenceId = row.sequenceId ∧ row.fields c.name = last.fields c.name

theorem total_append (rows more : List TableRow) (name : String) :
    total (rows ++ more) name = total rows name + total more name := by
  simp [total]

theorem Highest.append {rows more : List TableRow} {m n : Nat} (h : Highest rows m)
    (hMore : Highest more n) : Highest (rows ++ more) (Nat.max m n) := by
  obtain ⟨⟨row, hRow, rfl⟩, hLe⟩ := h
  obtain ⟨⟨row', hRow', rfl⟩, hLe'⟩ := hMore
  constructor
  · rcases Nat.le_total row.sequenceId row'.sequenceId with h | h
    · exact ⟨row', List.mem_append_right _ hRow', (Nat.max_eq_right h).symm⟩
    · exact ⟨row, List.mem_append_left _ hRow, (Nat.max_eq_left h).symm⟩
  · intro r hr
    rcases List.mem_append.mp hr with hr | hr
    · exact (hLe r hr).trans (Nat.le_max_left _ _)
    · exact (hLe' r hr).trans (Nat.le_max_right _ _)

theorem Highest.perm {rows rows' : List TableRow} {n : Nat} (h : Highest rows n)
    (hPerm : rows.Perm rows') : Highest rows' n := by
  obtain ⟨⟨row, hRow, hEq⟩, hLe⟩ := h
  exact ⟨⟨row, hPerm.mem_iff.mp hRow, hEq⟩, fun r hr => hLe r (hPerm.mem_iff.mpr hr)⟩

theorem Accumulated.perm {rows rows' : List TableRow} {row : TableRow}
    (h : Accumulated sv b rows row) (hPerm : rows.Perm rows') : Accumulated sv b rows' row where
  sequence := h.sequence.perm hPerm
  add c hc hAdd := by
    rw [h.add c hc hAdd, total, (hPerm.map _).sum_eq]
    rfl
  subtract c hc hSubtract := by
    rw [h.subtract c hc hSubtract, total, (hPerm.map _).sum_eq]
    rfl
  max c hc hMax := (h.max c hc hMax).perm (hPerm.map _)
  min c hc hMin := (h.min c hc hMin).perm (hPerm.map _)
  set c hc hSet hArray := by
    obtain ⟨last, hLast, hRest⟩ := h.set c hc hSet hArray
    exact ⟨last, hPerm.mem_iff.mp hLast, hRest⟩

/-! ### Coalescing -/

theorem hasArithmetic_of_mem {c : DynamicColumnDefinition} (h : c ∈ b.columns)
    (hAction : c.action.isArithmetic = true) : b.hasArithmetic = true :=
  List.any_eq_true.mpr ⟨c, h, hAction⟩

theorem numeric_of_holds {t : ColumnType} {value : SqlValue} (hNumeric : t.isNumeric = true)
    (hHolds : t.holds value = true) (hNull : value ≠ .null) : ∃ n, value = .num n := by
  cases value with
  | null => contradiction
  | num n => exact ⟨n, rfl⟩
  | bool v =>
    rw [ColumnType.holds, beq_iff_eq] at hHolds
    rw [hHolds] at hNumeric
    cases hNumeric
  | text s => simp [ColumnType.holds, hNumeric] at hHolds

theorem numeric_of_typed {c : DynamicColumnDefinition} (hTyped : c.typed = true)
    (hSum : c.action = .add ∨ c.action = .subtract) : c.columnType.isNumeric = true := by
  rcases hSum with h | h <;> simpa [DynamicColumnDefinition.typed, h] using hTyped

theorem coalesce_coalesced {group : List TableRow} {tp : TableRow}
    (h : b.coalesce sv group = some tp) (hTyped : ∀ c ∈ b.columns, c.typed = true)
    (hCasts : ∀ row ∈ group, b.casts row = true) (hNonNull : ∀ row ∈ group, b.NonNull row) :
    Coalesced sv b group tp := by
  obtain ⟨last, hLast, hLe, hSequence, hFields⟩ := coalesce_spec h
  have hGroup : group ≠ [] := List.ne_nil_of_mem hLast
  have hValues : ∀ c ∈ b.columns, ∀ v ∈ group.map fun row => row.fields c.name, v ≠ .null := by
    intro c hc v hv
    obtain ⟨row, hRow, rfl⟩ := List.mem_map.mp hv
    exact hNonNull row hRow c hc
  refine ⟨⟨⟨last, hLast, hSequence.symm⟩, fun r hr => hSequence ▸ hLe r hr⟩, ?_, ?_, ?_, ?_⟩
  · intro c hc hSum
    have hAggregate : c.aggregate = .sum := by
      rcases hSum with h | h <;> simp [DynamicColumnDefinition.aggregate, h]
    have hArithmetic : b.hasArithmetic = true :=
      hasArithmetic_of_mem hc (by rcases hSum with h | h <;> rw [h] <;> rfl)
    rw [hFields c hc, if_pos hArithmetic, DynamicColumnDefinition.aggregateValue, hAggregate]
    refine (sqlSum_of_numeric (fun v hv => ?_) (by simpa using hGroup)).trans ?_
    · obtain ⟨row, hRow, rfl⟩ := List.mem_map.mp hv
      exact numeric_of_holds (numeric_of_typed (hTyped c hc) hSum)
        (List.all_eq_true.mp (hCasts row hRow) c hc) (hNonNull row hRow c hc)
    · rw [List.map_map]
      rfl
  · intro c hc hMax
    have hAggregate : c.aggregate = .max := by simp [DynamicColumnDefinition.aggregate, hMax]
    rw [hFields c hc, if_pos (hasArithmetic_of_mem hc (by rw [hMax]; rfl)),
      DynamicColumnDefinition.aggregateValue, hAggregate]
    exact isMax_sqlMax sv (by simpa using hGroup) (hValues c hc)
  · intro c hc hMin
    have hAggregate : c.aggregate = .min := by simp [DynamicColumnDefinition.aggregate, hMin]
    rw [hFields c hc, if_pos (hasArithmetic_of_mem hc (by rw [hMin]; rfl)),
      DynamicColumnDefinition.aggregateValue, hAggregate]
    exact isMin_sqlMin sv (by simpa using hGroup) (hValues c hc)
  · intro c hc hSet hArray
    have hAggregate : c.aggregate = .lastBySeq := by
      simp [DynamicColumnDefinition.aggregate, hSet, hArray]
    refine ⟨last, hLast, hSequence.symm, ?_⟩
    rw [hFields c hc]
    split
    · rw [DynamicColumnDefinition.aggregateValue, hAggregate]
    · rfl

/-! ### One coalesced row -/

theorem excluded_field {c : DynamicColumnDefinition} (h : c ∈ b.columns) (tp : TableRow) :
    (b.excluded tp).fields c.name = c.excludedValue (tp.fields c.name) := by
  simp only [excluded, column?_of_mem h]

theorem conflictRow_field {c : DynamicColumnDefinition} (h : c ∈ b.columns) (old ex : TableRow) :
    (b.conflictRow sv old ex).fields c.name = b.conflictValue sv c old ex := by
  simp only [conflictRow, column?_of_mem h]

/-- The row that is inserted for a group. -/
theorem Coalesced.insert {group : List TableRow} {tp : TableRow} (h : Coalesced sv b group tp) :
    Accumulated sv b group (b.excluded tp) where
  sequence := h.sequence
  add c hc hAdd := by
    simp [excluded_field hc, DynamicColumnDefinition.excludedValue, hAdd, h.sum c hc (.inl hAdd)]
  subtract c hc hSubtract := by
    simp [excluded_field hc, DynamicColumnDefinition.excludedValue, hSubtract, h.sum c hc (.inr hSubtract)]
  max c hc hMax := by
    simpa [excluded_field hc, DynamicColumnDefinition.excludedValue, hMax] using h.max c hc hMax
  min c hc hMin := by
    simpa [excluded_field hc, DynamicColumnDefinition.excludedValue, hMin] using h.min c hc hMin
  set c hc hSet hArray := by
    rw [excluded_field hc, DynamicColumnDefinition.excludedValue, hSet]
    exact h.set c hc hSet hArray

theorem ne_null_of_isMax {rows : List TableRow} {c : DynamicColumnDefinition} {v : SqlValue}
    (hc : c ∈ b.columns) (hNonNull : ∀ row ∈ rows, b.NonNull row)
    (h : v ∈ rows.map fun row => row.fields c.name) : v ≠ .null := by
  obtain ⟨row, hRow, rfl⟩ := List.mem_map.mp h
  exact hNonNull row hRow c hc

/-- The row that the row of a key is updated to, for a group of later or earlier rows. -/
theorem Accumulated.update {rows group : List TableRow} {old tp : TableRow}
    (h : Accumulated sv b rows old) (hTp : Coalesced sv b group tp)
    (hRows : ∀ row ∈ rows, b.NonNull row) (hGroup : ∀ row ∈ group, b.NonNull row)
    (hUpdates : b.hasArithmetic = true ∨ old.sequenceId < tp.sequenceId) :
    Accumulated sv b (rows ++ group) (b.conflictRow sv old (b.excluded tp)) where
  sequence := h.sequence.append hTp.sequence
  add c hc hAdd := by
    have hOld := h.add c hc hAdd
    have hNew := hTp.sum c hc (.inl hAdd)
    simp only [conflictRow_field hc, conflictValue, excluded_field hc, DynamicColumnDefinition.excludedValue, hAdd, hOld, hNew,
      coalesceZero_num, sqlAdd_num, sqlSub_num, total_append, SqlValue.num.injEq]
    omega
  subtract c hc hSubtract := by
    have hOld := h.subtract c hc hSubtract
    have hNew := hTp.sum c hc (.inr hSubtract)
    simp only [conflictRow_field hc, conflictValue, excluded_field hc, DynamicColumnDefinition.excludedValue, hSubtract, hOld, hNew,
      coalesceZero_num, sqlAdd_num, sqlSub_num, total_append, SqlValue.num.injEq]
    omega
  max c hc hMax := by
    have hOld := h.max c hc hMax
    have hNew := hTp.max c hc hMax
    have hOldNull := ne_null_of_isMax hc hRows hOld.1
    have hNewNull := ne_null_of_isMax hc hGroup hNew.1
    simp only [conflictRow_field hc, conflictValue, excluded_field hc, DynamicColumnDefinition.excludedValue, hMax, if_neg hOldNull,
      List.map_append]
    exact hOld.append hNew hOldNull hNewNull
  min c hc hMin := by
    have hOld := h.min c hc hMin
    have hNew := hTp.min c hc hMin
    have hOldNull := ne_null_of_isMax hc hRows hOld.1
    have hNewNull := ne_null_of_isMax hc hGroup hNew.1
    simp only [conflictRow_field hc, conflictValue, excluded_field hc, DynamicColumnDefinition.excludedValue, hMin, if_neg hOldNull,
      List.map_append]
    exact hOld.append hNew hOldNull hNewNull
  set c hc hSet hArray := by
    simp only [conflictRow_field hc, conflictValue, excluded_field hc, DynamicColumnDefinition.excludedValue, hSet]
    by_cases hLt : old.sequenceId < tp.sequenceId
    · obtain ⟨last, hLast, hSequence, hValue⟩ := hTp.set c hc hSet hArray
      refine ⟨last, List.mem_append_right _ hLast, ?_, ?_⟩
      · exact hSequence.trans (Nat.max_eq_right hLt.le).symm
      · simpa [excluded, hLt] using hValue
    · obtain ⟨last, hLast, hSequence, hValue⟩ := h.set c hc hSet hArray
      refine ⟨last, List.mem_append_left _ hLast, ?_, ?_⟩
      · exact hSequence.trans (Nat.max_eq_left (Nat.le_of_not_lt hLt)).symm
      · simpa [excluded, hLt, hUpdates.resolve_right hLt] using hValue

/-- Without an arithmetic column, an older group changes nothing. -/
theorem Accumulated.keep {rows group : List TableRow} {old tp : TableRow}
    (h : Accumulated sv b rows old) (hTp : Coalesced sv b group tp)
    (hArithmetic : b.hasArithmetic = false) (hLe : tp.sequenceId ≤ old.sequenceId) :
    Accumulated sv b (rows ++ group) old := by
  have hNone : ∀ c ∈ b.columns, c.action.isArithmetic ≠ true := fun c hc hAction => by
    rw [hasArithmetic_of_mem hc hAction] at hArithmetic
    cases hArithmetic
  refine ⟨?_, ?_, ?_, ?_, ?_, ?_⟩
  · have hBoth := h.sequence.append hTp.sequence
    rwa [show Nat.max old.sequenceId tp.sequenceId = old.sequenceId from Nat.max_eq_left hLe] at hBoth
  · exact fun c hc hAdd => absurd (by rw [hAdd]; rfl) (hNone c hc)
  · exact fun c hc hSubtract => absurd (by rw [hSubtract]; rfl) (hNone c hc)
  · exact fun c hc hMax => absurd (by rw [hMax]; rfl) (hNone c hc)
  · exact fun c hc hMin => absurd (by rw [hMin]; rfl) (hNone c hc)
  · intro c hc hSet hArray
    obtain ⟨last, hLast, hRest⟩ := h.set c hc hSet hArray
    exact ⟨last, List.mem_append_left _ hLast, hRest⟩

/-- What there is under a key of the rows that were upserted under it. -/
def Accumulates (sv : Server) (b : BatchOperation) (rows : List TableRow) :
    Option TableRow → Prop
  | none => rows = []
  | some row => Accumulated sv b rows row

theorem updates_of_none (hWhere : b.customWhere = none) (old ex : TableRow) :
    b.updates old ex = some (b.hasArithmetic || decide (old.sequenceId < ex.sequenceId)) := by
  rw [updates, hWhere]
  cases b.hasArithmetic || decide (old.sequenceId < ex.sequenceId) <;> rfl

theorem upsertRow_accumulates (hWhere : b.customWhere = none) {rows group : List TableRow}
    {old new : Option TableRow} {tp : TableRow} (hOld : Accumulates sv b rows old)
    (hTp : Coalesced sv b group tp) (hRows : ∀ row ∈ rows, b.NonNull row)
    (hGroup : ∀ row ∈ group, b.NonNull row) (h : b.upsertRow sv old tp = some new) :
    Accumulates sv b (rows ++ group) new := by
  simp only [upsertRow] at h
  by_cases hFits : b.fits (b.excluded tp) = true
  · rw [if_pos hFits] at h
    cases old with
    | none =>
      cases h
      rw [show rows = [] from hOld]
      exact hTp.insert
    | some old =>
      by_cases hUpdates : b.hasArithmetic = true ∨ old.sequenceId < tp.sequenceId
      · have hGuard : b.updates old (b.excluded tp) = some true := by
          rw [updates_of_none hWhere, Option.some.injEq, Bool.or_eq_true, decide_eq_true_eq]
          exact hUpdates
        simp only [hGuard] at h
        by_cases hSums : (b.sumsFit old (b.excluded tp) &&
            b.fits (b.conflictRow sv old (b.excluded tp))) = true
        · rw [if_pos hSums] at h
          cases h
          exact Accumulated.update hOld hTp hRows hGroup hUpdates
        · rw [if_neg hSums] at h
          cases h
      · have hGuard : b.updates old (b.excluded tp) = some false := by
          rw [updates_of_none hWhere, Option.some.injEq, Bool.eq_false_iff, ne_eq, Bool.or_eq_true,
            decide_eq_true_eq]
          exact hUpdates
        simp only [hGuard] at h
        cases h
        rw [not_or, Nat.not_lt] at hUpdates
        exact Accumulated.keep hOld hTp (by simpa using hUpdates.1) hUpdates.2
  · rw [if_neg hFits] at h
    cases h

/-! ### Runs -/

/-- The rows of a key. -/
def ofKey (b : BatchOperation) (rows : List TableRow) (key : List SqlValue) : List TableRow :=
  rows.filter fun row => b.key row = key

theorem executeBatch_upsert (hType : b.type = .upsert) {rows : List TableRow}
    {contents contents' : Contents} (h : b.executeBatch sv rows contents = some contents') :
    (∀ row ∈ rows, b.casts row = true) ∧ (∀ c ∈ b.columns, c.typed = true) ∧
      (b.toProcess sv rows).foldlM (b.applyTo sv) contents = some contents' := by
  have hInsert : b.type ≠ .insert := by rw [hType]; simp
  rw [executeBatch] at h
  by_cases hCasts : rows.all b.casts = true
  · rw [if_pos hCasts, if_neg hInsert] at h
    by_cases hTyped : b.keys ≠ [] ∧ b.columns.all DynamicColumnDefinition.typed = true
    · rw [if_pos hTyped] at h
      exact ⟨List.all_eq_true.mp hCasts, List.all_eq_true.mp hTyped.2, h⟩
    · rw [if_neg hTyped] at h
      cases h
  · rw [if_neg hCasts] at h
    cases h

theorem executeBatch_accumulates (hType : b.type = .upsert) (hWhere : b.customWhere = none)
    {before rows : List TableRow} {contents contents' : Contents} {key : List SqlValue}
    (hOld : Accumulates sv b (b.ofKey before key) (contents.keyed key))
    (hBefore : ∀ row ∈ before, b.NonNull row) (hRows : ∀ row ∈ rows, b.NonNull row)
    (h : b.executeBatch sv rows contents = some contents') :
    Accumulates sv b (b.ofKey (before ++ rows) key) (contents'.keyed key) := by
  have hInsert : b.type ≠ .insert := by rw [hType]; simp
  obtain ⟨hCasts, hTyped, hFold⟩ := executeBatch_upsert hType h
  have hKeys := map_key_toProcess sv hInsert rows
  obtain ⟨hFrame, hApplied, -⟩ := foldlM_applyTo hFold (hKeys ▸ List.nodup_dedup _)
  have hOf : b.ofKey (before ++ rows) key = b.ofKey before key ++ b.ofKey rows key :=
    List.filter_append ..
  by_cases hMem : key ∈ rows.map b.key
  · obtain ⟨tp, hTp, hCoalesce⟩ := exists_mem_toProcess sv hMem
    have hKey : b.key tp = key := key_coalesce hInsert hCoalesce fun row hRow => by
      simpa using (List.mem_filter.mp hRow).2
    have hGroup : ∀ row ∈ b.ofKey rows key, row ∈ rows := fun row hRow => (List.mem_filter.mp hRow).1
    have hCoalesced := coalesce_coalesced hCoalesce hTyped (fun row hRow => hCasts row (hGroup row hRow))
      fun row hRow => hRows row (hGroup row hRow)
    have hRow := hApplied tp hTp
    rw [hKey, applyRow, hType] at hRow
    rw [hOf]
    exact upsertRow_accumulates hWhere hOld hCoalesced
      (fun row hRow => hBefore row (List.mem_filter.mp hRow).1)
      (fun row hRow => hRows row (hGroup row hRow)) hRow
  · have hNone : b.ofKey rows key = [] := by
      refine List.filter_eq_nil_iff.mpr fun row hRow hKey => hMem ?_
      exact List.mem_map.mpr ⟨row, hRow, by simpa using hKey⟩
    rw [hOf, hNone, List.append_nil, hFrame key (by rwa [hKeys, List.mem_dedup])]
    exact hOld

theorem executeBatches_accumulates (hType : b.type = .upsert) (hWhere : b.customWhere = none)
    {before : List TableRow} {batches : List (List TableRow)} {contents contents' : Contents}
    {key : List SqlValue} (hOld : Accumulates sv b (b.ofKey before key) (contents.keyed key))
    (hBefore : ∀ row ∈ before, b.NonNull row) (hRows : ∀ row ∈ batches.flatten, b.NonNull row)
    (h : b.executeBatches sv batches contents = (contents', true)) :
    Accumulates sv b (b.ofKey (before ++ batches.flatten) key) (contents'.keyed key) := by
  induction batches generalizing before contents with
  | nil =>
    cases h
    simpa using hOld
  | cons rows batches ih =>
    rw [executeBatches] at h
    cases hBatch : b.executeBatch sv rows contents with
    | none =>
      rw [hBatch] at h
      cases h
    | some next =>
      simp only [hBatch] at h
      rw [List.flatten_cons] at hRows ⊢
      have hFirst : ∀ row ∈ rows, b.NonNull row := fun row hRow =>
        hRows row (List.mem_append_left _ hRow)
      have hNext := executeBatch_accumulates hType hWhere hOld hBefore hFirst hBatch
      rw [← List.append_assoc]
      refine ih hNext (fun row hRow => ?_) (fun row hRow => hRows row (List.mem_append_right _ hRow)) h
      exact (List.mem_append.mp hRow).elim (hBefore row) (hFirst row)

/-- A batch operation on one list of rows after the other, until one fails. -/
def executeCalls (sv : Server) (b : BatchOperation) :
    List (List TableRow) → Contents → Contents × Bool
  | [], contents => (contents, true)
  | rows :: calls, contents =>
    match b.execute sv rows contents with
    | (contents, false) => (contents, false)
    | (contents, true) => executeCalls sv b calls contents

theorem executeBatches_append (first second : List (List TableRow)) (contents : Contents) :
    b.executeBatches sv (first ++ second) contents =
      match b.executeBatches sv first contents with
      | (contents, false) => (contents, false)
      | (contents, true) => b.executeBatches sv second contents := by
  induction first generalizing contents with
  | nil => rfl
  | cons rows first ih =>
    rw [List.cons_append, executeBatches, executeBatches]
    cases b.executeBatch sv rows contents with
    | none => rfl
    | some next => exact ih next

/-- The statements of the calls. -/
theorem executeCalls_eq (calls : List (List TableRow)) (contents : Contents) :
    b.executeCalls sv calls contents = b.executeBatches sv
      (calls.flatMap fun rows => chunks b.maxRowsPerBatch rows.length rows) contents := by
  induction calls generalizing contents with
  | nil => rfl
  | cons rows calls ih =>
    rw [executeCalls, List.flatMap_cons, executeBatches_append, execute]
    rcases b.executeBatches sv (chunks b.maxRowsPerBatch rows.length rows) contents with ⟨next, _ | _⟩
    · rfl
    · exact ih next

theorem flatten_statements (calls : List (List TableRow)) :
    (calls.flatMap fun rows => chunks b.maxRowsPerBatch rows.length rows).flatten = calls.flatten := by
  induction calls with
  | nil => rfl
  | cons rows calls ih =>
    rw [List.flatMap_cons, List.flatten_append, ih, flatten_chunks_maxRowsPerBatch, List.flatten_cons]

/-! ### Operations that cannot fail -/

/-- An operation for whose sums there is always room: they are kept as `NUMERIC`. -/
structure Unbounded (b : BatchOperation) : Prop where
  keys : b.keys ≠ []
  typed : ∀ c ∈ b.columns, c.typed = true
  sums : ∀ c ∈ b.columns, c.action = .add ∨ c.action = .subtract → c.columnType.bits = none

/-- A row whose values are there, and of the types of their columns. -/
def Sound (b : BatchOperation) (row : TableRow) : Prop :=
  ∀ c ∈ b.columns, row.fields c.name ≠ .null ∧ c.columnType.holds (row.fields c.name) = true

theorem Sound.fits {row : TableRow} (h : b.Sound row) : b.fits row = true :=
  List.all_eq_true.mpr fun c hc => by
    rw [DynamicColumnDefinition.fits, if_neg (h c hc).1]
    exact (h c hc).2

theorem Sound.casts {row : TableRow} (h : b.Sound row) : b.casts row = true :=
  List.all_eq_true.mpr fun c hc => (h c hc).2

theorem Unbounded.holds_num (h : b.Unbounded) {c : DynamicColumnDefinition} (hc : c ∈ b.columns)
    (hSum : c.action = .add ∨ c.action = .subtract) (n : Int) :
    c.columnType.holds (.num n) = true := by
  rw [ColumnType.holds, if_pos (numeric_of_typed (h.typed c hc) hSum), h.sums c hc hSum]
  rfl

theorem computed_of_bits {t : ColumnType} (h : t.bits = none) : t.computed = t := by
  cases t <;> first | rfl | cases h

/-- A column that is not summed has in a coalesced row the value of one of the rows. -/
theorem coalesce_field_mem {group : List TableRow} {tp : TableRow} {c : DynamicColumnDefinition}
    (h : b.coalesce sv group = some tp) (hc : c ∈ b.columns)
    (hSum : ¬(c.action = .add ∨ c.action = .subtract))
    (hNonNull : ∀ row ∈ group, row.fields c.name ≠ .null) :
    ∃ row ∈ group, tp.fields c.name = row.fields c.name := by
  obtain ⟨last, hLast, -, -, hFields⟩ := coalesce_spec h
  have hNonempty : group.map (fun row => row.fields c.name) ≠ [] := by
    simpa using List.ne_nil_of_mem hLast
  have hValues : ∀ v ∈ group.map fun row => row.fields c.name, v ≠ .null := by
    intro v hv
    obtain ⟨row, hRow, rfl⟩ := List.mem_map.mp hv
    exact hNonNull row hRow
  rw [hFields c hc]
  split
  · rw [DynamicColumnDefinition.aggregateValue]
    split
    · exact ⟨last, hLast, rfl⟩
    · next hAggregate =>
      exfalso
      unfold DynamicColumnDefinition.aggregate at hAggregate
      split at hAggregate <;> simp_all
      all_goals (split at hAggregate <;> cases hAggregate)
    · obtain ⟨row, hRow, hEq⟩ := List.mem_map.mp (isMax_sqlMax sv hNonempty hValues).1
      exact ⟨row, hRow, hEq.symm⟩
    · obtain ⟨row, hRow, hEq⟩ := List.mem_map.mp (isMin_sqlMin sv hNonempty hValues).1
      exact ⟨row, hRow, hEq.symm⟩
    · exact ⟨last, hLast, rfl⟩
  · exact ⟨last, hLast, rfl⟩

theorem Sound.coalesce (hUnbounded : b.Unbounded) {group : List TableRow} {tp : TableRow}
    (h : b.coalesce sv group = some tp) (hGroup : ∀ row ∈ group, b.Sound row) : b.Sound tp := by
  have hCoalesced := coalesce_coalesced h hUnbounded.typed (fun row hRow => (hGroup row hRow).casts)
    fun row hRow c hc => (hGroup row hRow c hc).1
  intro c hc
  by_cases hSum : c.action = .add ∨ c.action = .subtract
  · rw [hCoalesced.sum c hc hSum]
    exact ⟨by simp, hUnbounded.holds_num hc hSum _⟩
  · obtain ⟨row, hRow, hEq⟩ := coalesce_field_mem h hc hSum fun row hRow => (hGroup row hRow c hc).1
    rw [hEq]
    exact hGroup row hRow c hc

theorem Sound.excluded (hUnbounded : b.Unbounded) {tp : TableRow} (h : b.Sound tp) :
    b.Sound (b.excluded tp) := by
  intro c hc
  have hOld := h c hc
  rw [excluded_field hc, DynamicColumnDefinition.excludedValue]
  have hNum : c.action = .add ∨ c.action = .subtract → ∃ n, tp.fields c.name = .num n := fun hSum =>
    numeric_of_holds (numeric_of_typed (hUnbounded.typed c hc) hSum) hOld.2 hOld.1
  split
  · next hAdd =>
    obtain ⟨n, hn⟩ := hNum (.inl hAdd)
    rw [hn, sqlAdd_num]
    exact ⟨by simp, hUnbounded.holds_num hc (.inl hAdd) _⟩
  · next hSubtract =>
    obtain ⟨n, hn⟩ := hNum (.inr hSubtract)
    rw [hn, sqlSub_num]
    exact ⟨by simp, hUnbounded.holds_num hc (.inr hSubtract) _⟩
  · exact hOld

theorem Sound.sums (hUnbounded : b.Unbounded) {old ex : TableRow} (hOld : b.Sound old)
    (hEx : b.Sound ex) {c : DynamicColumnDefinition} (hc : c ∈ b.columns)
    (hSum : c.action = .add ∨ c.action = .subtract) :
    ∃ n, sqlAdd (coalesceZero (old.fields c.name)) (ex.fields c.name) = .num n := by
  have hNumeric := numeric_of_typed (hUnbounded.typed c hc) hSum
  obtain ⟨m, hm⟩ := numeric_of_holds hNumeric (hOld c hc).2 (hOld c hc).1
  obtain ⟨n, hn⟩ := numeric_of_holds hNumeric (hEx c hc).2 (hEx c hc).1
  exact ⟨m + n, by rw [hm, hn]; rfl⟩

theorem Sound.sumsFit (hUnbounded : b.Unbounded) {old ex : TableRow} (hOld : b.Sound old)
    (hEx : b.Sound ex) : b.sumsFit old ex = true := by
  refine List.all_eq_true.mpr fun c hc => ?_
  have hFit : c.action = .add ∨ c.action = .subtract → c.columnType.computed.holds
      (sqlAdd (coalesceZero (old.fields c.name)) (ex.fields c.name)) = true := fun hSum => by
    obtain ⟨n, hn⟩ := hOld.sums hUnbounded hEx hc hSum
    rw [hn, computed_of_bits (hUnbounded.sums c hc hSum)]
    exact hUnbounded.holds_num hc hSum n
  split
  · next hAdd => exact hFit (.inl hAdd)
  · next hSubtract => exact hFit (.inr hSubtract)
  · rfl

theorem Sound.conflictRow (hUnbounded : b.Unbounded) {old ex : TableRow} (hOld : b.Sound old)
    (hEx : b.Sound ex) : b.Sound (b.conflictRow sv old ex) := by
  intro c hc
  have hSub : c.action = .add ∨ c.action = .subtract →
      sqlSub (sqlAdd (coalesceZero (old.fields c.name)) (ex.fields c.name)) (.num c.start) ≠ .null ∧
        c.columnType.holds (sqlSub (sqlAdd (coalesceZero (old.fields c.name)) (ex.fields c.name))
          (.num c.start)) = true := fun hSum => by
    obtain ⟨n, hn⟩ := hOld.sums hUnbounded hEx hc hSum
    rw [hn, sqlSub_num]
    exact ⟨by simp, hUnbounded.holds_num hc hSum _⟩
  rw [conflictRow_field hc, conflictValue]
  split
  · split
    · exact hOld c hc
    · exact hEx c hc
  · next hAdd => exact hSub (.inl hAdd)
  · next hSubtract => exact hSub (.inr hSubtract)
  · rw [if_neg (hOld c hc).1]
    rcases (greatest_spec sv (hOld c hc).1 (hEx c hc).1).1 with h | h <;> rw [h]
    · exact hOld c hc
    · exact hEx c hc
  · rw [if_neg (hOld c hc).1]
    rcases (least_spec sv (hOld c hc).1 (hEx c hc).1).1 with h | h <;> rw [h]
    · exact hOld c hc
    · exact hEx c hc
  · exact hOld c hc
  · exact hOld c hc

theorem upsertRow_sound (hUnbounded : b.Unbounded) (hWhere : b.customWhere = none)
    {old : Option TableRow} {tp : TableRow} (hOld : ∀ row, old = some row → b.Sound row)
    (hTp : b.Sound tp) : ∃ row, b.upsertRow sv old tp = some (some row) ∧ b.Sound row := by
  have hEx := hTp.excluded hUnbounded
  simp only [upsertRow]
  rw [if_pos hEx.fits]
  cases old with
  | none => exact ⟨_, rfl, hEx⟩
  | some old =>
    have hSound := hOld old rfl
    simp only [updates_of_none hWhere]
    cases b.hasArithmetic || decide (old.sequenceId < (b.excluded tp).sequenceId) with
    | false => exact ⟨old, rfl, hSound⟩
    | true =>
      have hNew : b.Sound (b.conflictRow sv old _) := hSound.conflictRow hUnbounded hEx
      have hSums := hSound.sumsFit hUnbounded hEx
      simp only
      rw [if_pos (by rw [hSums, hNew.fits]; rfl)]
      exact ⟨_, rfl, hNew⟩

theorem executeBatch_sound (sv : Server) (hType : b.type = .upsert) (hUnbounded : b.Unbounded)
    (hWhere : b.customWhere = none) {K : List SqlValue → Prop} {rows : List TableRow}
    {contents : Contents} (hOld : ∀ key, K key → ∀ row, contents.keyed key = some row → b.Sound row)
    (hRows : ∀ row ∈ rows, b.Sound row ∧ K (b.key row)) :
    ∃ contents', b.executeBatch sv rows contents = some contents' ∧
      ∀ key, K key → ∀ row, contents'.keyed key = some row → b.Sound row := by
  have hInsert : b.type ≠ .insert := by rw [hType]; simp
  have hKeys := map_key_toProcess sv hInsert rows
  have hApply : ∀ tp ∈ b.toProcess sv rows, ∃ row,
      b.applyRow sv (contents.keyed (b.key tp)) tp = some (some row) ∧ b.Sound row := by
    intro tp hTp
    have hMem : b.key tp ∈ rows.map b.key := List.mem_dedup.mp (hKeys ▸ List.mem_map_of_mem hTp)
    obtain ⟨r, hr, hKey⟩ := List.mem_map.mp hMem
    obtain ⟨group, hGroup, hCoalesce⟩ := List.mem_filterMap.mp hTp
    obtain ⟨key, -, rfl⟩ := List.mem_map.mp hGroup
    have hTpSound := Sound.coalesce hUnbounded hCoalesce fun row hRow =>
      (hRows row (List.mem_filter.mp hRow).1).1
    rw [applyRow, hType]
    exact upsertRow_sound hUnbounded hWhere (hOld _ (hKey ▸ (hRows r hr).2)) hTpSound
  obtain ⟨contents', hFold⟩ := foldlM_applyTo_isSome
    (fun tp hTp => let ⟨row, hRow, _⟩ := hApply tp hTp; ⟨_, hRow⟩) (hKeys ▸ List.nodup_dedup _)
  obtain ⟨hFrame, hApplied, -⟩ := foldlM_applyTo hFold (hKeys ▸ List.nodup_dedup _)
  refine ⟨contents', ?_, fun key hKey row hRow => ?_⟩
  · rw [executeBatch, if_pos (List.all_eq_true.mpr fun row hRow => (hRows row hRow).1.casts),
      if_neg hInsert, if_pos ⟨hUnbounded.keys, List.all_eq_true.mpr hUnbounded.typed⟩]
    exact hFold
  · by_cases hMem : key ∈ (b.toProcess sv rows).map b.key
    · obtain ⟨tp, hTp, rfl⟩ := List.mem_map.mp hMem
      obtain ⟨new, hNew, hSound⟩ := hApply tp hTp
      rw [hApplied tp hTp, hRow] at hNew
      cases hNew
      exact hSound
    · exact hOld key hKey row (hFrame key hMem ▸ hRow)

theorem executeBatches_sound (hType : b.type = .upsert) (hUnbounded : b.Unbounded)
    (hWhere : b.customWhere = none) {K : List SqlValue → Prop} {batches : List (List TableRow)}
    {contents : Contents} (hOld : ∀ key, K key → ∀ row, contents.keyed key = some row → b.Sound row)
    (hRows : ∀ row ∈ batches.flatten, b.Sound row ∧ K (b.key row)) :
    ∃ contents', b.executeBatches sv batches contents = (contents', true) := by
  induction batches generalizing contents with
  | nil => exact ⟨contents, rfl⟩
  | cons rows batches ih =>
    rw [List.flatten_cons] at hRows
    obtain ⟨next, hNext, hSound⟩ := executeBatch_sound sv hType hUnbounded hWhere hOld
      fun row hRow => hRows row (List.mem_append_left _ hRow)
    rw [executeBatches, hNext]
    exact ih hSound fun row hRow => hRows row (List.mem_append_right _ hRow)

/-! ### Order and partition -/

/-- Whatever the order of the rows of new keys and however they are cut into calls, once all statements
have succeeded the row of a key is that of the rows of the key; and the statements of an operation with
unbounded sums succeed. -/
theorem upserts_accumulate (sv : Server) (b : BatchOperation) (hType : b.type = .upsert)
    (hWhere : b.customWhere = none) {rows : List TableRow} (hNonNull : ∀ row ∈ rows, b.NonNull row)
    {contents : Contents} (hNew : ∀ row ∈ rows, contents.keyed (b.key row) = none)
    {calls : List (List TableRow)} (hPerm : calls.flatten.Perm rows) :
    (∀ contents', b.executeCalls sv calls contents = (contents', true) →
      ∀ row ∈ rows, ∃ new, contents'.keyed (b.key row) = some new ∧
        Accumulated sv b (b.ofKey rows (b.key row)) new) ∧
      (b.Unbounded → (∀ row ∈ rows, b.casts row = true) →
        ∃ contents', b.executeCalls sv calls contents = (contents', true)) := by
  rw [executeCalls_eq]
  have hFlatten := flatten_statements (b := b) calls
  constructor
  · intro contents' hRun row hRow
    have hStart : Accumulates sv b (b.ofKey [] (b.key row)) (contents.keyed (b.key row)) := by
      rw [hNew row hRow]
      rfl
    have hEnd := executeBatches_accumulates hType hWhere hStart (by simp)
      (fun r hr => hNonNull r (hPerm.mem_iff.mp (hFlatten ▸ hr))) hRun
    rw [List.nil_append, hFlatten] at hEnd
    cases hValue : contents'.keyed (b.key row) with
    | none =>
      rw [hValue] at hEnd
      have hMem : row ∈ b.ofKey calls.flatten (b.key row) :=
        List.mem_filter.mpr ⟨hPerm.mem_iff.mpr hRow, by simp⟩
      rw [show b.ofKey calls.flatten (b.key row) = [] from hEnd] at hMem
      cases hMem
    | some new =>
      rw [hValue] at hEnd
      exact ⟨new, rfl, Accumulated.perm hEnd (hPerm.filter _)⟩
  · intro hUnbounded hCasts
    refine executeBatches_sound hType hUnbounded hWhere
      (K := fun key => key ∈ rows.map b.key) (fun key hKey row hRow => ?_) fun row hRow => ?_
    · obtain ⟨r, hr, rfl⟩ := List.mem_map.mp hKey
      rw [hNew r hr] at hRow
      cases hRow
    · have hMem : row ∈ rows := hPerm.mem_iff.mp (hFlatten ▸ hRow)
      exact ⟨fun c hc => ⟨hNonNull row hMem c hc, List.all_eq_true.mp (hCasts row hMem) c hc⟩,
        List.mem_map_of_mem hMem⟩

/-- An upsert that adds to a column of a type. -/
def adding (t : ColumnType) : BatchOperation where
  type := .upsert
  insertOnly := false
  keys := ["holder"]
  columns := [⟨"holder", .string, .whereColumn, none, false⟩, ⟨"balance", t, .add, none, false⟩]
  customWhere := none
  nodup := by simp
  keys_where _ name := by simp [eq_comm]

/-- A row that adds an amount to the balance of a holder. -/
def deposit (sequenceId : Nat) (amount : Int) : TableRow where
  sequenceId := sequenceId
  fields name := if name = "holder" then .text "alice" else .num amount

def emptyContents : Contents := ⟨fun _ => none, []⟩

/-- Deposits in one call and in several. -/
theorem upserts_accumulate_deposits : ∃ contents new,
    (adding .uint256).executeCalls plainServer [[deposit 2 3], [deposit 3 4, deposit 1 5]]
      emptyContents = (contents, true) ∧
    contents.keyed [.text "alice"] = some new ∧ new.fields "balance" = .num 12 := by
  have hNonNull : ∀ row ∈ [deposit 1 5, deposit 2 3, deposit 3 4],
      (adding .uint256).NonNull row := by
    simp [NonNull, adding, deposit]
  have hNew : ∀ row ∈ [deposit 1 5, deposit 2 3, deposit 3 4],
      emptyContents.keyed ((adding .uint256).key row) = none := fun _ _ => rfl
  have hPerm : [[deposit 2 3], [deposit 3 4, deposit 1 5]].flatten.Perm
      [deposit 1 5, deposit 2 3, deposit 3 4] :=
    show ([deposit 2 3, deposit 3 4] ++ [deposit 1 5]).Perm ([deposit 1 5] ++ _) from
      List.perm_append_comm
  obtain ⟨hRow, hSucceeds⟩ :=
    upserts_accumulate plainServer (adding .uint256) rfl rfl hNonNull hNew hPerm
  have hUnbounded : (adding .uint256).Unbounded :=
    ⟨by simp [adding], by simp [adding, DynamicColumnDefinition.typed, ColumnType.isNumeric],
      by simp [adding, ColumnType.bits]⟩
  obtain ⟨contents, hRun⟩ := hSucceeds hUnbounded (by decide)
  obtain ⟨new, hNew, hAccumulated⟩ := hRow contents hRun (deposit 1 5) (by simp)
  refine ⟨contents, new, hRun, hNew, ?_⟩
  rw [hAccumulated.add ⟨"balance", .uint256, .add, none, false⟩ (by simp [adding]) rfl]
  decide

/-- Where a sum is kept as `SMALLINT`, one deposit after the other can fail where all in one do not. -/
theorem upserts_accumulate_smallint :
    ((adding .int16).executeCalls plainServer [[deposit 1 32767, deposit 2 1, deposit 3 (-2)]]
      emptyContents).2 = true ∧
    ((adding .int16).executeCalls plainServer [[deposit 1 32767], [deposit 2 1], [deposit 3 (-2)]]
      emptyContents).2 = false ∧
    ¬∃ new, ((adding .int16).executeCalls plainServer
        [[deposit 1 32767], [deposit 2 1], [deposit 3 (-2)]] emptyContents).1.keyed [.text "alice"] =
          some new ∧
      Accumulated plainServer (adding .int16) [deposit 1 32767, deposit 2 1, deposit 3 (-2)] new := by
  refine ⟨by decide, by decide, ?_⟩
  rintro ⟨new, hNew, hAccumulated⟩
  have hBalance := hAccumulated.add ⟨"balance", .int16, .add, none, false⟩ (by simp [adding]) rfl
  have hFirst : (((adding .int16).executeCalls plainServer
      [[deposit 1 32767], [deposit 2 1], [deposit 3 (-2)]] emptyContents).1.keyed
        [.text "alice"]).map (fun row => row.fields "balance") = some (.num 32767) := by decide
  rw [hNew, Option.map_some, hBalance] at hFirst
  revert hFirst
  decide

end Rindexer.Tables.BatchOperation
