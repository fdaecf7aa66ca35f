import Rindexer.Tables.Accumulate

/-! What a batch operation does to the row of one key, if it does not fail. -/

namespace Rindexer.Tables.BatchOperation

open Rindexer.Database Rindexer.Manifest Rindexer.Reorg

section Effects

variable (sv : Server) (b : BatchOperation)

def upsertEffect (old : Option TableRow) (tp : TableRow) : TableRow :=
  match old with
  | none => b.excluded tp
  | some old =>
    if b.updates old (b.excluded tp) = some true then b.conflictRow sv old (b.excluded tp) else old

/-- The row of a key after a row of the batch, if nothing fails. -/
def effect (old : Option TableRow) (tp : TableRow) : Option TableRow :=
  match b.type with
  | .upsert => some (b.upsertEffect sv old tp)
  | .update => old.map fun am =>
      if SqlValue.null ∉ b.key tp ∧ am.sequenceId < tp.sequenceId then b.updatedRow sv am tp else am
  | .delete => old.bind fun am =>
      if SqlValue.null ∉ b.key tp ∧ am.sequenceId ≤ tp.sequenceId then none else some am
  | .insert => some tp

/-- Whether the rows of a batch are appended to the table. -/
def appends : Bool := b.type == .insert && b.insertOnly

/-- The row of a key after the rows of the key in one batch. -/
def pieceEffect (old : Option TableRow) (piece : List TableRow) : Option TableRow :=
  if b.appends then old
  else if b.type = .insert then piece.foldl (b.effect sv) old
  else
    match b.coalesce sv piece with
    | none => old
    | some tp => b.effect sv old tp

end Effects

variable {sv : Server} {b : BatchOperation}

theorem upsertRow_effect {old new : Option TableRow} {tp : TableRow}
    (h : b.upsertRow sv old tp = some new) : new = some (b.upsertEffect sv old tp) := by
  simp only [upsertRow] at h
  by_cases hFits : b.fits (b.excluded tp) = true
  · rw [if_pos hFits] at h
    cases old with
    | none =>
      cases h
      rfl
    | some old =>
      rw [upsertEffect]
      cases hGuard : b.updates old (b.excluded tp) with
      | none =>
        simp only [hGuard] at h
        cases h
      | some updates =>
        cases updates with
        | false =>
          simp only [hGuard] at h
          cases h
          rfl
        | true =>
          simp only [hGuard] at h
          split at h
          · cases h
            rfl
          · cases h
  · rw [if_neg hFits] at h
    cases h

theorem updateRow_effect {old new : Option TableRow} {tp : TableRow}
    (h : b.updateRow sv old tp = some new) : new = old.map fun am =>
      if SqlValue.null ∉ b.key tp ∧ am.sequenceId < tp.sequenceId then b.updatedRow sv am tp else am := by
  cases old with
  | none =>
    cases h
    rfl
  | some am =>
    simp only [updateRow] at h
    rw [Option.map_some]
    split at h
    · next hGuard =>
      rw [if_pos hGuard]
      split at h
      · cases h
        rfl
      · cases h
    · next hGuard =>
      rw [if_neg hGuard]
      cases h
      rfl

theorem deleteRow_effect {old new : Option TableRow} {tp : TableRow}
    (h : b.deleteRow old tp = some new) : new = old.bind fun am =>
      if SqlValue.null ∉ b.key tp ∧ am.sequenceId ≤ tp.sequenceId then none else some am := by
  cases old with
  | none =>
    cases h
    rfl
  | some am =>
    simp only [deleteRow] at h
    rw [Option.bind_some]
    split at h
    · next hGuard =>
      rw [if_pos hGuard]
      cases h
      rfl
    · next hGuard =>
      rw [if_neg hGuard]
      cases h
      rfl

theorem insertRow_effect {old new : Option TableRow} {row : TableRow}
    (h : b.insertRow old row = some new) : new = some row := by
  cases old with
  | none =>
    simp only [insertRow] at h
    split at h
    · cases h
      rfl
    · cases h
  | some old => cases h

theorem applyRow_effect {old new : Option TableRow} {row : TableRow}
    (h : b.applyRow sv old row = some new) : new = b.effect sv old row := by
  unfold applyRow at h
  unfold effect
  cases hType : b.type with
  | upsert => exact upsertRow_effect (by simpa only [hType] using h)
  | update => exact updateRow_effect (by simpa only [hType] using h)
  | delete => exact deleteRow_effect (by simpa only [hType] using h)
  | insert => exact insertRow_effect (by simpa only [hType] using h)

theorem foldlM_applyTo_effect {rows : List TableRow} {contents contents' : Contents}
    (h : rows.foldlM (b.applyTo sv) contents = some contents') :
    (∀ key, contents'.keyed key = (b.ofKey rows key).foldl (b.effect sv) (contents.keyed key)) ∧
      contents'.appended = contents.appended := by
  induction rows generalizing contents with
  | nil =>
    cases h
    exact ⟨fun _ => rfl, rfl⟩
  | cons row rows ih =>
    rw [List.foldlM_cons] at h
    obtain ⟨next, hNext, hRest⟩ := Option.bind_eq_some_iff.mp h
    obtain ⟨hApplied, hFrame, hAppended⟩ := applyTo_spec hNext
    obtain ⟨hKeyed, hAppended'⟩ := ih hRest
    refine ⟨fun key => ?_, hAppended'.trans hAppended⟩
    rw [hKeyed key]
    by_cases hKey : b.key row = key
    · subst hKey
      rw [ofKey, ofKey, List.filter_cons_of_pos (by simp), List.foldl_cons, applyRow_effect hApplied]
    · rw [ofKey, ofKey, List.filter_cons_of_neg (by simpa using hKey), hFrame key fun hEq => hKey hEq.symm]

@[simp] theorem coalesce_nil : b.coalesce sv [] = none := by
  rw [coalesce, (sv.scan_perm []).eq_nil]
  rfl

theorem ofKey_toProcess (hType : b.type ≠ .insert) (rows : List TableRow) (key : List SqlValue) :
    b.ofKey (b.toProcess sv rows) key = (b.coalesce sv (b.ofKey rows key)).toList := by
  have hKeys := map_key_toProcess sv hType rows
  have hNodup : ((b.toProcess sv rows).map b.key).Nodup := hKeys ▸ List.nodup_dedup _
  by_cases hMem : key ∈ rows.map b.key
  · obtain ⟨tp, hTp, hCoalesce⟩ := exists_mem_toProcess sv hMem
    have hKey : b.key tp = key := key_coalesce hType hCoalesce fun row hRow => by
      simpa using (List.mem_filter.mp hRow).2
    rw [show b.coalesce sv (b.ofKey rows key) = some tp from hCoalesce, Option.toList_some]
    generalize b.toProcess sv rows = processed at hTp hNodup
    induction processed with
    | nil => cases hTp
    | cons r processed ih =>
      rw [List.map_cons, List.nodup_cons] at hNodup
      rcases List.mem_cons.mp hTp with rfl | hTp
      · have hNone : processed.filter (fun row => decide (b.key row = key)) = [] :=
          List.filter_eq_nil_iff.mpr fun row hRow hEq => hNodup.1 <| by
            rw [hKey]
            exact List.mem_map.mpr ⟨row, hRow, by simpa using hEq⟩
        rw [ofKey, List.filter_cons_of_pos (by simpa using hKey), hNone]
      · have hOther : b.key r ≠ key := fun hEq => hNodup.1 <| by
          rw [hEq, ← hKey]
          exact List.mem_map_of_mem hTp
        rw [ofKey, List.filter_cons_of_neg (by simpa using hOther)]
        exact ih hTp hNodup.2
  · have hNone : b.ofKey rows key = [] := List.filter_eq_nil_iff.mpr fun row hRow hEq =>
      hMem (List.mem_map.mpr ⟨row, hRow, by simpa using hEq⟩)
    rw [hNone, coalesce_nil, Option.toList_none]
    refine List.filter_eq_nil_iff.mpr fun row hRow hEq => hMem ?_
    rw [← List.mem_dedup, ← hKeys]
    exact List.mem_map.mpr ⟨row, hRow, by simpa using hEq⟩

/-- What a statement that does not fail does to the row of a key, and to the appended rows. -/
theorem executeBatch_effect {rows : List TableRow} {contents contents' : Contents}
    (h : b.executeBatch sv rows contents = some contents') :
    (∀ key, contents'.keyed key = b.pieceEffect sv (contents.keyed key) (b.ofKey rows key)) ∧
      contents'.appended = contents.appended ++ (if b.appends then rows else []) ∧
      (∀ row ∈ rows, b.casts row = true) ∧
      (b.type ≠ .insert → ∀ c ∈ b.columns, c.typed = true) := by
  rw [executeBatch] at h
  split at h
  · next hCasts =>
    have hCasts := List.all_eq_true.mp hCasts
    split at h
    · next hType =>
      split at h
      · next hInsertOnly =>
        have hAppends : b.appends = true := by simp [appends, hType, hInsertOnly]
        split at h
        · cases h
          exact ⟨fun key => by rw [pieceEffect, if_pos hAppends], by rw [if_pos hAppends], hCasts,
            fun hNot => absurd hType hNot⟩
        · cases h
      · next hInsertOnly =>
        have hAppends : ¬b.appends = true := by simp [appends, hInsertOnly]
        split at h
        · cases h
        · obtain ⟨hKeyed, hAppended⟩ := foldlM_applyTo_effect h
          refine ⟨fun key => ?_, by rw [hAppended, if_neg hAppends, List.append_nil], hCasts,
            fun hNot => absurd hType hNot⟩
          rw [hKeyed, pieceEffect, if_neg hAppends, if_pos hType]
    · next hType =>
      have hAppends : ¬b.appends = true := by simp [appends, hType]
      split at h
      · next hTyped =>
        obtain ⟨hKeyed, hAppended⟩ := foldlM_applyTo_effect h
        refine ⟨fun key => ?_, by rw [hAppended, if_neg hAppends, List.append_nil], hCasts,
          fun _ => List.all_eq_true.mp hTyped.2⟩
        rw [hKeyed, ofKey_toProcess hType, pieceEffect, if_neg hAppends, if_neg hType]
        cases b.coalesce sv (b.ofKey rows key) <;> rfl
      · cases h
  · cases h

/-- The row of a key after the batches. -/
def piecesEffect (sv : Server) (b : BatchOperation) (key : List SqlValue)
    (batches : List (List TableRow)) (old : Option TableRow) : Option TableRow :=
  batches.foldl (fun old rows => b.pieceEffect sv old (b.ofKey rows key)) old

theorem executeBatches_effect {batches : List (List TableRow)} {contents contents' : Contents}
    (h : b.executeBatches sv batches contents = (contents', true)) :
    (∀ key, contents'.keyed key = b.piecesEffect sv key batches (contents.keyed key)) ∧
      contents'.appended = contents.appended ++ (if b.appends then batches.flatten else []) ∧
      (∀ row ∈ batches.flatten, b.casts row = true) ∧
      (batches ≠ [] → b.type ≠ .insert → ∀ c ∈ b.columns, c.typed = true) := by
  induction batches generalizing contents with
  | nil =>
    cases h
    simp [piecesEffect]
  | cons rows batches ih =>
    rw [executeBatches] at h
    cases hBatch : b.executeBatch sv rows contents with
    | none =>
      rw [hBatch] at h
      cases h
    | some next =>
      simp only [hBatch] at h
      obtain ⟨hKeyed, hAppended, hCasts, hTyped⟩ := executeBatch_effect hBatch
      obtain ⟨hKeyed', hAppended', hCasts', -⟩ := ih h
      refine ⟨fun key => ?_, ?_, fun row hRow => ?_, fun _ => hTyped⟩
      · rw [hKeyed', hKeyed]
        rfl
      · rw [hAppended', hAppended, List.append_assoc, List.flatten_cons]
        split <;> simp
      · exact (List.mem_append.mp hRow).elim (hCasts row) (hCasts' row)

theorem execute_effect {rows : List TableRow} {contents contents' : Contents}
    (h : b.execute sv rows contents = (contents', true)) :
    (∀ key, contents'.keyed key =
        b.piecesEffect sv key (chunks b.maxRowsPerBatch rows.length rows) (contents.keyed key)) ∧
      contents'.appended = contents.appended ++ (if b.appends then rows else []) ∧
      (∀ row ∈ rows, b.casts row = true) ∧
      (rows ≠ [] → b.type ≠ .insert → ∀ c ∈ b.columns, c.typed = true) := by
  have hEffect := executeBatches_effect h
  rw [flatten_chunks_maxRowsPerBatch] at hEffect
  refine ⟨hEffect.1, hEffect.2.1, hEffect.2.2.1, fun hRows => hEffect.2.2.2 fun hNil => hRows ?_⟩
  rw [← flatten_chunks_maxRowsPerBatch (b := b) rows, hNil]
  rfl

/-! ### Upserts by column -/

@[simp] theorem greatest_self (sv : Server) (a : SqlValue) : greatest sv a a = a := by
  cases a <;> simp [greatest]

@[simp] theorem least_self (sv : Server) (a : SqlValue) : least sv a a = a := by
  cases a <;> simp [least]

/-- The greatest of a value or else another, and the other. -/
theorem greatest_coalesce (sv : Server) (a b : SqlValue) :
    greatest sv (if a = .null then b else a) b = greatest sv a b := by
  by_cases ha : a = .null
  · rw [if_pos ha, ha, greatest_self, greatest_null_left]
  · rw [if_neg ha]

theorem least_coalesce (sv : Server) (a b : SqlValue) :
    least sv (if a = .null then b else a) b = least sv a b := by
  by_cases ha : a = .null
  · rw [if_pos ha, ha, least_self, least_null_left]
  · rw [if_neg ha]

/-- The value of a column after an upsert of a row whose key is there. -/
def upsertedValue (sv : Server) (c : DynamicColumnDefinition) (old tp : TableRow) : SqlValue :=
  match c.action with
  | .set => if old.sequenceId < tp.sequenceId then tp.fields c.name else old.fields c.name
  | .add | .subtract =>
    sqlSub (sqlAdd (coalesceZero (old.fields c.name)) (c.excludedValue (tp.fields c.name)))
      (.num c.start)
  | .max => greatest sv (old.fields c.name) (tp.fields c.name)
  | .min => least sv (old.fields c.name) (tp.fields c.name)
  | .whereColumn | .nothing => old.fields c.name

/-- An upsert without a condition of a row whose key is there. -/
theorem upsertEffect_some (sv : Server) (hWhere : b.customWhere = none) (old tp : TableRow) :
    (b.upsertEffect sv (some old) tp).sequenceId = Nat.max old.sequenceId tp.sequenceId ∧
      (∀ name, b.column? name = none →
        (b.upsertEffect sv (some old) tp).fields name = old.fields name) ∧
      ∀ c ∈ b.columns, (b.upsertEffect sv (some old) tp).fields c.name = upsertedValue sv c old tp := by
  rw [upsertEffect, updates_of_none hWhere]
  by_cases hGuard : (b.hasArithmetic || decide (old.sequenceId < tp.sequenceId)) = true
  · rw [if_pos (by rw [Option.some.injEq]; exact hGuard)]
    refine ⟨rfl, fun name hName => by simp [conflictRow, hName], fun c hc => ?_⟩
    rw [conflictRow_field hc, conflictValue, excluded_field hc, upsertedValue]
    cases hAction : c.action with
    | set =>
      simp only [DynamicColumnDefinition.excludedValue, hAction]
      by_cases hLt : old.sequenceId < tp.sequenceId
      · simp [excluded, hLt]
      · rw [if_neg hLt]
        simp only [hLt, decide_false, Bool.or_false] at hGuard
        simp [excluded, hLt, hGuard]
    | max =>
      simp only [DynamicColumnDefinition.excludedValue, hAction]
      exact greatest_coalesce sv _ _
    | min =>
      simp only [DynamicColumnDefinition.excludedValue, hAction]
      exact least_coalesce sv _ _
    | _ => rfl
  · rw [if_neg (by rw [Option.some.injEq]; exact hGuard)]
    rw [Bool.or_eq_true, not_or, decide_eq_true_eq] at hGuard
    refine ⟨(Nat.max_eq_left (Nat.le_of_not_lt hGuard.2)).symm, fun _ _ => rfl, fun c hc => ?_⟩
    have hNone : c.action.isArithmetic ≠ true := fun h => hGuard.1 (hasArithmetic_of_mem hc h)
    rw [upsertedValue]
    cases hAction : c.action with
    | set => rw [if_neg hGuard.2]
    | whereColumn => rfl
    | nothing => rfl
    | _ => exact absurd (by rw [hAction]; rfl) hNone

end Rindexer.Tables.BatchOperation
