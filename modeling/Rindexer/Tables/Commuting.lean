import Rindexer.Tables.Coalescing

/-! Two operations on the row of one key: when it does not matter that the one with the later row comes
first. -/

namespace Rindexer.Tables.BatchOperation

open Rindexer.Database Rindexer.Manifest Rindexer.Reorg

variable {sv : Server} {b : BatchOperation}

/-! ### Rows stay rows of their table -/

theorem isNumber_sqlAdd (x y : SqlValue) : isNumber (sqlAdd x y) := by
  cases x <;> cases y <;> simp [sqlAdd, isNumber]

theorem isNumber_sqlSub (x y : SqlValue) : isNumber (sqlSub x y) := by
  cases x <;> cases y <;> simp [sqlSub, isNumber]

theorem isNumber_greatest (sv : Server) {x y : SqlValue} (hx : isNumber x) (hy : isNumber y) :
    isNumber (greatest sv x y) := by
  by_cases hxNull : x = .null
  · rwa [hxNull, greatest_null_left]
  by_cases hyNull : y = .null
  · rwa [hyNull, greatest_null_right]
  rcases (greatest_spec sv hxNull hyNull).1 with h | h <;> rwa [h]

theorem isNumber_least (sv : Server) {x y : SqlValue} (hx : isNumber x) (hy : isNumber y) :
    isNumber (least sv x y) := by
  by_cases hxNull : x = .null
  · rwa [hxNull, least_null_left]
  by_cases hyNull : y = .null
  · rwa [hyNull, least_null_right]
  rcases (least_spec sv hxNull hyNull).1 with h | h <;> rwa [h]

theorem key_congr (hType : b.type ≠ .insert) {x y : TableRow}
    (h : ∀ c ∈ b.columns, c.action = .whereColumn → x.fields c.name = y.fields c.name) :
    b.key x = b.key y := by
  refine List.map_congr_left fun name hName => ?_
  obtain ⟨c, hc, rfl, hWhere⟩ := (b.keys_where hType name).mp hName
  exact h c hc hWhere

theorem Stored.excluded (hType : b.type ≠ .insert) {key : List SqlValue} {tp : TableRow}
    (h : Stored b key tp) : Stored b key (b.excluded tp) where
  key := (key_congr hType fun c hc hWhere => by
    rw [excluded_field hc, DynamicColumnDefinition.excludedValue, hWhere]).trans h.key
  others name hName := by simpa [BatchOperation.excluded, hName] using h.others name hName
  numbers c hc hNumeric := by
    rw [excluded_field hc, DynamicColumnDefinition.excludedValue]
    split
    · exact isNumber_sqlAdd _ _
    · exact isNumber_sqlSub _ _
    · exact h.numbers c hc hNumeric

theorem Stored.conflictRow (hType : b.type ≠ .insert) {key : List SqlValue} {old ex : TableRow}
    (hOld : Stored b key old) (hEx : Stored b key ex) :
    Stored b key (b.conflictRow sv old ex) := by
  refine ⟨(key_congr hType fun c hc hAction => ?_).trans hOld.key,
    fun name hName => by simpa [BatchOperation.conflictRow, hName] using hOld.others name hName,
    fun c hc hNumeric => ?_⟩
  · rw [conflictRow_field hc, conflictValue, hAction]
  · have hOldNumber := hOld.numbers c hc hNumeric
    have hExNumber := hEx.numbers c hc hNumeric
    have hEither : isNumber (if old.fields c.name = .null then ex.fields c.name else old.fields c.name) := by
      split
      · exact hExNumber
      · exact hOldNumber
    rw [conflictRow_field hc, conflictValue]
    cases c.action with
    | set =>
      simp only
      split
      · exact hOldNumber
      · exact hExNumber
    | add => exact isNumber_sqlSub _ _
    | subtract => exact isNumber_sqlSub _ _
    | max => exact isNumber_greatest sv hEither hExNumber
    | min => exact isNumber_least sv hEither hExNumber
    | whereColumn => exact hOldNumber
    | nothing => exact hOldNumber

theorem Stored.updatedRow (hType : b.type ≠ .insert) {key : List SqlValue} {am tp : TableRow}
    (hAm : Stored b key am) (hTp : Stored b key tp) : Stored b key (b.updatedRow sv am tp) := by
  refine ⟨(key_congr hType fun c hc hAction => ?_).trans hAm.key,
    fun name hName => by simpa [BatchOperation.updatedRow, hName] using hAm.others name hName,
    fun c hc hNumeric => ?_⟩
  · rw [updatedRow_field hc, DynamicColumnDefinition.setValue, hAction]
  · have hAmNumber := hAm.numbers c hc hNumeric
    have hTpNumber := hTp.numbers c hc hNumeric
    rw [updatedRow_field hc, DynamicColumnDefinition.setValue]
    cases c.action with
    | set => exact hTpNumber
    | add => exact isNumber_sqlAdd _ _
    | subtract => exact isNumber_sqlSub _ _
    | max => exact isNumber_greatest sv hAmNumber hTpNumber
    | min => exact isNumber_least sv hAmNumber hTpNumber
    | whereColumn => exact hAmNumber
    | nothing => exact hAmNumber

/-- What there may be under a key. -/
def StoredAt (b : BatchOperation) (key : List SqlValue) (old : Option TableRow) : Prop :=
  ∀ row, old = some row → Stored b key row

theorem effect_stored {key : List SqlValue} {old : Option TableRow} {tp : TableRow}
    (hOld : StoredAt b key old) (hTp : Stored b key tp) : StoredAt b key (b.effect sv old tp) := by
  intro new hNew
  unfold effect at hNew
  cases hType : b.type with
  | upsert =>
    have hInsert : b.type ≠ .insert := by rw [hType]; simp
    have hEx := hTp.excluded hInsert
    simp only [hType, Option.some.injEq] at hNew
    rw [← hNew]
    cases old with
    | none => exact hEx
    | some old =>
      rw [upsertEffect]
      split
      · exact (hOld old rfl).conflictRow hInsert hEx
      · exact hOld old rfl
  | update =>
    have hInsert : b.type ≠ .insert := by rw [hType]; simp
    simp only [hType] at hNew
    obtain ⟨am, rfl, rfl⟩ := Option.map_eq_some_iff.mp hNew
    split
    · exact (hOld am rfl).updatedRow hInsert hTp
    · exact hOld am rfl
  | delete =>
    simp only [hType] at hNew
    obtain ⟨am, rfl, hAm⟩ := Option.bind_eq_some_iff.mp hNew
    split at hAm
    · cases hAm
    · rw [← Option.some.inj hAm]
      exact hOld am rfl
  | insert =>
    simp only [hType] at hNew
    cases hNew
    exact hTp

theorem foldl_stored {key : List SqlValue} {rows : List TableRow} {old : Option TableRow}
    (hOld : StoredAt b key old) (hRows : ∀ row ∈ rows, Stored b key row) :
    StoredAt b key (rows.foldl (b.effect sv) old) := by
  induction rows generalizing old with
  | nil => exact hOld
  | cons row rows ih =>
    exact ih (effect_stored hOld (hRows row List.mem_cons_self))
      fun r hr => hRows r (List.mem_cons_of_mem _ hr)

/-! ### Pieces -/

theorem Fresh.effect (hType : b.type = .update) {row : TableRow} {rows : List TableRow}
    {old : Option TableRow} (h : Fresh (row :: rows) old)
    (hRow : ∀ r ∈ rows, row.sequenceId < r.sequenceId) : Fresh rows (b.effect sv old row) := by
  cases old with
  | none =>
    intro am hAm
    simp [BatchOperation.effect, hType] at hAm
  | some old =>
    rw [effect_update hType]
    intro am hAm
    cases hAm
    split
    · exact .inl hRow
    · exact (h old rfl).imp (fun h r hr => h r (List.mem_cons_of_mem _ hr))
        fun h r hr => h r (List.mem_cons_of_mem _ hr)

theorem Fresh.foldl (hType : b.type = .update) {rows more : List TableRow} {old : Option TableRow}
    (h : Fresh (rows ++ more) old)
    (hOrder : (rows ++ more).Pairwise fun x y => x.sequenceId < y.sequenceId) :
    Fresh more (rows.foldl (b.effect sv) old) := by
  induction rows generalizing old with
  | nil => exact h
  | cons row rows ih =>
    obtain ⟨hRow, hRest⟩ := List.pairwise_cons.mp hOrder
    exact ih (Fresh.effect hType h hRow) hRest

/-- However the rows of a key are cut into statements, they are applied one after the other. -/
theorem piecesEffect_eq (hAppends : b.appends = false)
    (hTyped : b.type ≠ .insert → ∀ c ∈ b.columns, c.typed = true) {key : List SqlValue}
    {batches : List (List TableRow)} {old : Option TableRow}
    (hStored : ∀ row ∈ b.ofKey batches.flatten key, Stored b key row) (hOld : StoredAt b key old)
    (hOrder : (b.ofKey batches.flatten key).Pairwise fun x y => x.sequenceId ≤ y.sequenceId)
    (hCoalescible : 2 ≤ (b.ofKey batches.flatten key).length →
      Coalescible b (b.ofKey batches.flatten key))
    (hFresh : 2 ≤ (b.ofKey batches.flatten key).length → b.type = .update →
      b.hasArithmetic = true → Fresh (b.ofKey batches.flatten key) old) :
    b.piecesEffect sv key batches old = (b.ofKey batches.flatten key).foldl (b.effect sv) old := by
  induction batches generalizing old with
  | nil => rfl
  | cons rows batches ih =>
    have hOf : b.ofKey (rows :: batches).flatten key =
        b.ofKey rows key ++ b.ofKey batches.flatten key := by
      rw [List.flatten_cons, ofKey, List.filter_append]
      rfl
    rw [hOf] at hStored hOrder hCoalescible hFresh ⊢
    obtain ⟨hOrderRows, hOrderRest, -⟩ := List.pairwise_append.mp hOrder
    have hStoredRows : ∀ row ∈ b.ofKey rows key, Stored b key row := fun row hRow =>
      hStored row (List.mem_append_left _ hRow)
    have hPiece : b.pieceEffect sv old (b.ofKey rows key) =
        (b.ofKey rows key).foldl (b.effect sv) old := by
      rw [pieceEffect, if_neg (by simp [hAppends])]
      by_cases hInsert : b.type = .insert
      · rw [if_pos hInsert]
      · rw [if_neg hInsert]
        by_cases hNil : b.ofKey rows key = []
        · rw [hNil, coalesce_nil]
          rfl
        · obtain ⟨tp, hTp⟩ := coalesce_of_ne_nil sv b hNil
          rw [hTp]
          refine effect_coalesce hInsert (hTyped hInsert) hTp hStoredRows hOld hOrderRows
            (fun hLength => (hCoalescible ?_).left) fun hLength hUpdate hArithmetic =>
              (hFresh ?_ hUpdate hArithmetic).left
          all_goals
            rw [List.length_append]
            omega
    have hCons : b.piecesEffect sv key (rows :: batches) old =
        b.piecesEffect sv key batches ((b.ofKey rows key).foldl (b.effect sv) old) := by
      rw [piecesEffect, List.foldl_cons, hPiece]
      rfl
    rw [List.foldl_append, hCons]
    refine ih (fun row hRow => hStored row (List.mem_append_right _ hRow))
      (foldl_stored hOld hStoredRows) hOrderRest
      (fun hLength => (hCoalescible ?_).right) fun hLength hUpdate hArithmetic => ?_
    · rw [List.length_append]
      omega
    · have hTwo : 2 ≤ (b.ofKey rows key ++ b.ofKey batches.flatten key).length := by
        rw [List.length_append]
        omega
      have hCond := hCoalescible hTwo
      simp only [Coalescible, hUpdate] at hCond
      exact Fresh.foldl hUpdate (hFresh hTwo hUpdate hArithmetic) (hCond.2 hArithmetic)

/-! ### Sums -/

/-- What a row adds to a column. -/
def delta (c : DynamicColumnDefinition) (n : Int) : Int :=
  if c.action = .subtract then -n else n

def isSum (c : DynamicColumnDefinition) : Prop := c.action = .add ∨ c.action = .subtract

theorem excludedValue_sum {c : DynamicColumnDefinition} (h : isSum c) (n : Int) :
    c.excludedValue (.num n) = .num (c.start + delta c n) := by
  rcases h with h | h <;> simp [DynamicColumnDefinition.excludedValue, delta, h, Int.sub_eq_add_neg]

theorem upsertedValue_sum {c : DynamicColumnDefinition} (h : isSum c) {old tp : TableRow} {n : Int}
    (hValue : tp.fields c.name = .num n) :
    upsertedValue sv c old tp = sqlAdd (coalesceZero (old.fields c.name)) (.num (delta c n)) := by
  have hSum : upsertedValue sv c old tp =
      sqlSub (sqlAdd (coalesceZero (old.fields c.name)) (c.excludedValue (tp.fields c.name)))
        (.num c.start) := by
    rcases h with h | h <;> simp [upsertedValue, h]
  rw [hSum, hValue, excludedValue_sum h]
  cases coalesceZero (old.fields c.name) <;> simp [sqlAdd, sqlSub]
  omega

theorem sqlAdd_comm_delta {x : SqlValue} (h : isNumber x) (m n : Int) :
    sqlAdd (coalesceZero (sqlAdd (coalesceZero x) (.num m))) (.num n) =
      sqlAdd (coalesceZero (sqlAdd (coalesceZero x) (.num n))) (.num m) := by
  rcases h with rfl | ⟨k, rfl⟩ <;> simp [coalesceZero] <;> omega

/-! ### Operations on one table -/

/-- Two operations on one table, which may do different things to its columns. -/
structure SameTable (b b' : BatchOperation) : Prop where
  keys : b.keys = b'.keys
  columns : b.columns.map (fun c => (c.name, c.columnType)) =
    b'.columns.map fun c => (c.name, c.columnType)

theorem SameTable.symm {b b' : BatchOperation} (h : SameTable b b') : SameTable b' b :=
  ⟨h.keys.symm, h.columns.symm⟩

theorem SameTable.exists_mem {b b' : BatchOperation} (h : SameTable b b')
    {c : DynamicColumnDefinition} (hc : c ∈ b.columns) :
    ∃ c' ∈ b'.columns, c'.name = c.name ∧ c'.columnType = c.columnType := by
  have hMem : (c.name, c.columnType) ∈ b'.columns.map fun c => (c.name, c.columnType) :=
    h.columns ▸ List.mem_map_of_mem hc
  obtain ⟨c', hc', hEq⟩ := List.mem_map.mp hMem
  exact ⟨c', hc', (Prod.mk.inj hEq).1, (Prod.mk.inj hEq).2⟩

theorem column?_eq_none_iff {name : String} :
    b.column? name = none ↔ ∀ c ∈ b.columns, c.name ≠ name := by
  simp [column?]

theorem SameTable.column?_eq_none {b b' : BatchOperation} (h : SameTable b b') {name : String}
    (hName : b.column? name = none) : b'.column? name = none := by
  rw [column?_eq_none_iff] at hName ⊢
  intro c' hc' hEq
  obtain ⟨c, hc, hNames, -⟩ := h.symm.exists_mem hc'
  exact hName c hc (hNames.trans hEq)

theorem SameTable.key_eq {b b' : BatchOperation} (h : SameTable b b') (row : TableRow) :
    b.key row = b'.key row := by
  rw [key, key, h.keys]

theorem SameTable.stored {b b' : BatchOperation} (h : SameTable b b') {key : List SqlValue}
    {row : TableRow} (hRow : Stored b key row) : Stored b' key row where
  key := h.key_eq row ▸ hRow.key
  others name hName := hRow.others name (h.symm.column?_eq_none hName)
  numbers c' hc' hNumeric := by
    obtain ⟨c, hc, hName, hTypes⟩ := h.symm.exists_mem hc'
    exact hName ▸ hRow.numbers c hc (hTypes ▸ hNumeric)

/-! ### Columns that commute -/

/-- A column that two upserts treat in ways that do not depend on their order: `c` is how the one with
the later row treats it, with the value `l`, and `c'` how the other does, with `e`. -/
inductive ColumnsCommute (c c' : DynamicColumnDefinition) (l e : SqlValue) : Prop
  | key (h : c.action = .whereColumn) (h' : c'.action = .whereColumn)
  | set (h : c.action = .set) (h' : c'.action = .set ∨ c'.action = .nothing)
  | nothing (h : c.action = .nothing) (h' : c'.action = .nothing) (hSame : l = e)
  | sums (h : isSum c) (h' : isSum c') (hStart : c.start = c'.start) (hLate : ∃ n, l = .num n)
    (hEarly : ∃ n, e = .num n)
  | sumNothing (h : isSum c) (h' : c'.action = .nothing) (hLate : ∃ n, l = .num n)
    (hDefault : coalesceZero e = .num c.start)
  | nothingSum (h : c.action = .nothing) (h' : isSum c') (hDefault : coalesceZero l = .num c'.start)
    (hEarly : ∃ n, e = .num n)
  | max (h : c.action = .max) (h' : c'.action = .max ∨ c'.action = .nothing ∧ e = .null)
  | min (h : c.action = .min) (h' : c'.action = .min ∨ c'.action = .nothing ∧ e = .null)
  | nothingMax (h : c.action = .nothing) (h' : c'.action = .max) (hDefault : l = .null)
  | nothingMin (h : c.action = .nothing) (h' : c'.action = .min) (hDefault : l = .null)

/-- The later row first into a row that is there. -/
theorem ColumnsCommute.upserted {c c' : DynamicColumnDefinition} {old l e inner inner' : TableRow}
    (h : ColumnsCommute c c' (l.fields c.name) (e.fields c.name)) (hNames : c'.name = c.name)
    (hNumber : isSum c ∨ isSum c' → isNumber (old.fields c.name)) (hLt : e.sequenceId < l.sequenceId)
    (hInner : inner.fields c.name = upsertedValue sv c old l)
    (hInnerSequence : l.sequenceId ≤ inner.sequenceId)
    (hInner' : inner'.fields c.name = upsertedValue sv c' old e)
    (hInnerSequence' : inner'.sequenceId < l.sequenceId ↔ old.sequenceId < l.sequenceId) :
    upsertedValue sv c' inner e = upsertedValue sv c inner' l := by
  have hLate : ¬inner.sequenceId < e.sequenceId := by omega
  cases h with
  | key h h' =>
    rw [upsertedValue, upsertedValue, h, h', hNames, hInner, hInner', upsertedValue, upsertedValue, h, h',
      hNames]
  | set h h' =>
    have hValue : upsertedValue sv c' inner e = inner.fields c.name := by
      rcases h' with h' | h' <;> simp only [upsertedValue, h', hNames, if_neg hLate]
    rw [hValue, hInner]
    simp only [upsertedValue, h]
    by_cases hOld : old.sequenceId < l.sequenceId
    · rw [if_pos hOld, if_pos (hInnerSequence'.mpr hOld)]
    · rw [if_neg hOld, if_neg (fun hLt => hOld (hInnerSequence'.mp hLt)), hInner']
      rcases h' with h' | h'
      · rw [upsertedValue, h', if_neg (by omega), hNames]
      · rw [upsertedValue, h', hNames]
  | nothing h h' _ =>
    rw [upsertedValue, upsertedValue, h, h', hNames, hInner, hInner', upsertedValue, upsertedValue, h, h',
      hNames]
  | sums h h' _ hl he =>
    obtain ⟨m, hm⟩ := hl
    obtain ⟨n, hn⟩ := he
    have hn' : e.fields c'.name = .num n := hNames ▸ hn
    rw [upsertedValue_sum h' hn', upsertedValue_sum h hm, hNames, hInner, hInner',
      upsertedValue_sum h' hn', upsertedValue_sum h hm, hNames]
    exact sqlAdd_comm_delta (hNumber (.inl h)) _ _
  | sumNothing h h' hl _ =>
    obtain ⟨m, hm⟩ := hl
    have hKept : ∀ x, upsertedValue sv c' x e = x.fields c.name := fun x => by
      rw [upsertedValue, h', hNames]
    rw [hKept, hInner, upsertedValue_sum h hm, upsertedValue_sum h hm, hInner', hKept]
  | nothingSum h h' _ he =>
    obtain ⟨n, hn⟩ := he
    have hn' : e.fields c'.name = .num n := hNames ▸ hn
    have hKept : ∀ x, upsertedValue sv c x l = x.fields c.name := fun x => by rw [upsertedValue, h]
    rw [hKept, hInner', upsertedValue_sum h' hn', upsertedValue_sum h' hn', hNames, hInner, hKept]
  | max h h' =>
    have hLater : ∀ x, upsertedValue sv c x l = greatest sv (x.fields c.name) (l.fields c.name) :=
      fun x => by rw [upsertedValue, h]
    have hEarlier : ∀ x, upsertedValue sv c' x e = greatest sv (x.fields c.name) (e.fields c.name) := by
      intro x
      rcases h' with h' | ⟨h', hNull⟩
      · rw [upsertedValue, h', hNames]
      · rw [upsertedValue, h', hNull, greatest_null_right, hNames]
    rw [hEarlier, hLater, hInner, hInner', hLater, hEarlier, greatest_assoc, greatest_assoc,
      greatest_comm sv (l.fields c.name)]
  | min h h' =>
    have hLater : ∀ x, upsertedValue sv c x l = least sv (x.fields c.name) (l.fields c.name) :=
      fun x => by rw [upsertedValue, h]
    have hEarlier : ∀ x, upsertedValue sv c' x e = least sv (x.fields c.name) (e.fields c.name) := by
      intro x
      rcases h' with h' | ⟨h', hNull⟩
      · rw [upsertedValue, h', hNames]
      · rw [upsertedValue, h', hNull, least_null_right, hNames]
    rw [hEarlier, hLater, hInner, hInner', hLater, hEarlier, least_assoc, least_assoc,
      least_comm sv (l.fields c.name)]
  | nothingMax h h' _ =>
    have hKept : ∀ x, upsertedValue sv c x l = x.fields c.name := fun x => by rw [upsertedValue, h]
    rw [hKept, hInner', upsertedValue, upsertedValue, h', hNames, hInner, hKept]
  | nothingMin h h' _ =>
    have hKept : ∀ x, upsertedValue sv c x l = x.fields c.name := fun x => by rw [upsertedValue, h]
    rw [hKept, hInner', upsertedValue, upsertedValue, h', hNames, hInner, hKept]

/-- The later row first where there is none. -/
theorem ColumnsCommute.inserted {c c' : DynamicColumnDefinition} {l e inner inner' : TableRow}
    (h : ColumnsCommute c c' (l.fields c.name) (e.fields c.name)) (hNames : c'.name = c.name)
    (hKeys : c.action = .whereColumn → l.fields c.name = e.fields c.name)
    (hLt : e.sequenceId < l.sequenceId)
    (hInner : inner.fields c.name = c.excludedValue (l.fields c.name))
    (hInnerSequence : inner.sequenceId = l.sequenceId)
    (hInner' : inner'.fields c.name = c'.excludedValue (e.fields c.name))
    (hInnerSequence' : inner'.sequenceId = e.sequenceId) :
    upsertedValue sv c' inner e = upsertedValue sv c inner' l := by
  have hPlain : ∀ {d : DynamicColumnDefinition}, ¬isSum d → ∀ v, d.excludedValue v = v := by
    intro d hd v
    rw [isSum, not_or] at hd
    rw [DynamicColumnDefinition.excludedValue]
    split
    · next h => exact absurd h hd.1
    · next h => exact absurd h hd.2
    · rfl
  have hNotSum : ∀ {d : DynamicColumnDefinition} {a : BatchOperationAction}, d.action = a →
      a ≠ .add → a ≠ .subtract → ¬isSum d := fun hd hAdd hSubtract hSum =>
    hSum.elim (fun h => hAdd (hd ▸ h)) fun h => hSubtract (hd ▸ h)
  cases h with
  | key h h' =>
    rw [hPlain (hNotSum h (by simp) (by simp))] at hInner
    rw [hPlain (hNotSum h' (by simp) (by simp))] at hInner'
    rw [upsertedValue, upsertedValue, h, h', hNames, hInner, hInner', hKeys h]
  | set h h' =>
    rw [hPlain (hNotSum h (by simp) (by simp))] at hInner
    rw [upsertedValue.eq_def sv c, h, hInnerSequence', if_pos hLt]
    rcases h' with h' | h'
    · rw [upsertedValue, h', hInnerSequence, if_neg (by omega), hNames, hInner]
    · rw [upsertedValue, h', hNames, hInner]
  | nothing h h' hSame =>
    rw [hPlain (hNotSum h (by simp) (by simp))] at hInner
    rw [hPlain (hNotSum h' (by simp) (by simp))] at hInner'
    rw [upsertedValue, upsertedValue, h, h', hNames, hInner, hInner', hSame]
  | sums h h' hStart hl he =>
    obtain ⟨m, hm⟩ := hl
    obtain ⟨n, hn⟩ := he
    have hn' : e.fields c'.name = .num n := hNames ▸ hn
    rw [upsertedValue_sum h' hn', upsertedValue_sum h hm, hNames, hInner, hInner', hm, hn,
      excludedValue_sum h, excludedValue_sum h']
    simp only [coalesceZero_num, sqlAdd_num, SqlValue.num.injEq]
    omega
  | sumNothing h h' hl hDefault =>
    obtain ⟨m, hm⟩ := hl
    rw [hPlain (hNotSum h' (by simp) (by simp))] at hInner'
    rw [upsertedValue_sum h hm, hInner', hDefault, sqlAdd_num, upsertedValue, h', hNames, hInner, hm,
      excludedValue_sum h]
  | nothingSum h h' hDefault he =>
    obtain ⟨n, hn⟩ := he
    have hn' : e.fields c'.name = .num n := hNames ▸ hn
    rw [hPlain (hNotSum h (by simp) (by simp))] at hInner
    rw [upsertedValue_sum h' hn', hNames, hInner, hDefault, sqlAdd_num, upsertedValue, h, hInner', hn,
      excludedValue_sum h']
  | max h h' =>
    rw [hPlain (hNotSum h (by simp) (by simp))] at hInner
    rcases h' with h' | ⟨h', hNull⟩
    · rw [hPlain (hNotSum h' (by simp) (by simp))] at hInner'
      rw [upsertedValue, upsertedValue, h, h', hNames, hInner, hInner', greatest_comm]
    · rw [hPlain (hNotSum h' (by simp) (by simp))] at hInner'
      rw [upsertedValue, upsertedValue, h, h', hNames, hInner, hInner', hNull, greatest_null_left]
  | min h h' =>
    rw [hPlain (hNotSum h (by simp) (by simp))] at hInner
    rcases h' with h' | ⟨h', hNull⟩
    · rw [hPlain (hNotSum h' (by simp) (by simp))] at hInner'
      rw [upsertedValue, upsertedValue, h, h', hNames, hInner, hInner', least_comm]
    · rw [hPlain (hNotSum h' (by simp) (by simp))] at hInner'
      rw [upsertedValue, upsertedValue, h, h', hNames, hInner, hInner', hNull, least_null_left]
  | nothingMax h h' hDefault =>
    rw [hPlain (hNotSum h (by simp) (by simp))] at hInner
    rw [hPlain (hNotSum h' (by simp) (by simp))] at hInner'
    rw [upsertedValue, upsertedValue, h, h', hNames, hInner, hInner', hDefault, greatest_null_left]
  | nothingMin h h' hDefault =>
    rw [hPlain (hNotSum h (by simp) (by simp))] at hInner
    rw [hPlain (hNotSum h' (by simp) (by simp))] at hInner'
    rw [upsertedValue, upsertedValue, h, h', hNames, hInner, hInner', hDefault, least_null_left]

/-! ### Operations that commute -/

/-- Two operations on rows of one key that do the same in either order: `late` on the later row `l`, and
`early` on `e`. -/
inductive Commutes (late early : BatchOperation) (l e : TableRow) : Prop
  | delete (h : late.type = .delete) (h' : early.type = .delete ∨ early.type = .update)
  | insert (h : late.type = .insert) (h' : early.type = .delete ∨ early.type = .update)
  | upsertDelete (h : late.type = .upsert) (hWhere : late.customWhere = none)
    (hSets : ∀ c ∈ late.columns, c.action = .set ∨ c.action = .whereColumn)
    (h' : early.type = .delete)
  | update (h : late.type = .update ∨ late.type = .upsert ∧ late.customWhere = none)
    (h' : early.type = .update)
    (hCovers : ∀ c ∈ late.columns, ∀ c' ∈ early.columns, c'.name = c.name →
      c'.action = .whereColumn ∨ c'.action = .nothing ∨ c'.action = .set ∧ c.action = .set)
  | upserts (h : late.type = .upsert) (hWhere : late.customWhere = none) (h' : early.type = .upsert)
    (hWhere' : early.customWhere = none)
    (hColumns : ∀ c ∈ late.columns, ∀ c' ∈ early.columns, c'.name = c.name →
      ColumnsCommute c c' (l.fields c.name) (e.fields c.name))

section Pairs

variable {late early : BatchOperation} {l e : TableRow} {key : List SqlValue} {old : Option TableRow}

theorem effect_upsert (hType : b.type = .upsert) (old : Option TableRow) (tp : TableRow) :
    b.effect sv old tp = some (b.upsertEffect sv old tp) := by
  simp only [effect, hType]

theorem effect_delete (hType : b.type = .delete) (am tp : TableRow) :
    b.effect sv (some am) tp =
      if SqlValue.null ∉ b.key tp ∧ am.sequenceId ≤ tp.sequenceId then none else some am := by
  simp only [effect, hType, Option.bind_some]

/-- An update of an older row does nothing. -/
theorem effect_update_older (hType : b.type = .update) {am tp : TableRow}
    (h : tp.sequenceId ≤ am.sequenceId) : b.effect sv (some am) tp = some am := by
  rw [effect_update hType, if_neg]
  rintro ⟨-, hLt⟩
  omega

theorem effect_delete_older (hType : b.type = .delete) {am tp : TableRow}
    (h : tp.sequenceId < am.sequenceId) : b.effect sv (some am) tp = some am := by
  rw [effect_delete hType, if_neg]
  rintro ⟨-, hLe⟩
  omega

theorem upsertEffect_le (hWhere : b.customWhere = none) (old : Option TableRow) (tp : TableRow) :
    tp.sequenceId ≤ (b.upsertEffect sv old tp).sequenceId := by
  cases old with
  | none => exact le_rfl
  | some o =>
    rw [(upsertEffect_some sv hWhere o tp).1]
    exact Nat.le_max_right _ _

theorem upserts_comm (hSame : SameTable late early) (hInsert : late.type ≠ .insert)
    (hTyped : ∀ c ∈ late.columns, c.typed = true) (hTyped' : ∀ c ∈ early.columns, c.typed = true)
    (hWhere : late.customWhere = none) (hWhere' : early.customWhere = none)
    (hColumns : ∀ c ∈ late.columns, ∀ c' ∈ early.columns, c'.name = c.name →
      ColumnsCommute c c' (l.fields c.name) (e.fields c.name))
    (hl : Stored late key l) (he : Stored late key e) (hOld : StoredAt late key old)
    (hLt : e.sequenceId < l.sequenceId) :
    early.upsertEffect sv (some (late.upsertEffect sv old l)) e =
      late.upsertEffect sv (some (early.upsertEffect sv old e)) l := by
  obtain ⟨hSequence, hOthers, hFields⟩ :=
    upsertEffect_some sv hWhere' (late.upsertEffect sv old l) e
  obtain ⟨hSequence', hOthers', hFields'⟩ :=
    upsertEffect_some sv hWhere (early.upsertEffect sv old e) l
  refine row_ext late ?_ (fun name hName => ?_) fun c hc => ?_
  · rw [hSequence, hSequence']
    cases old with
    | none => exact Nat.max_comm _ _
    | some o =>
      rw [(upsertEffect_some sv hWhere o l).1, (upsertEffect_some sv hWhere' o e).1]
      show max (max _ _) _ = max (max _ _) _
      omega
  · have hName' := hSame.column?_eq_none hName
    rw [hOthers name hName', hOthers' name hName]
    cases old with
    | none => simp [upsertEffect, BatchOperation.excluded, hName, hName', hl.others name hName, he.others name hName]
    | some o =>
      rw [(upsertEffect_some sv hWhere o l).2.1 name hName,
        (upsertEffect_some sv hWhere' o e).2.1 name hName']
  · obtain ⟨c', hc', hNames, hTypes⟩ := hSame.exists_mem hc
    have hCommute := hColumns c hc c' hc' hNames
    rw [hFields' c hc, ← hNames, hFields c' hc']
    cases old with
    | none =>
      refine hCommute.inserted hNames (fun hAction => ?_) hLt (excluded_field hc l) rfl ?_ rfl
      · exact where_eq hInsert (hl.key.trans he.key.symm) hc hAction
      · rw [← hNames]
        exact excluded_field hc' e
    | some o =>
      obtain ⟨hSequence₁, -, hFields₁⟩ := upsertEffect_some sv hWhere o l
      obtain ⟨hSequence₂, -, hFields₂⟩ := upsertEffect_some sv hWhere' o e
      refine hCommute.upserted hNames (fun hSum => ?_) hLt (hFields₁ c hc) ?_ ?_ ?_
      · refine (hOld o rfl).numbers c hc ?_
        rcases hSum with hSum | hSum
        · exact numeric_of_typed (hTyped c hc) hSum
        · exact hTypes ▸ numeric_of_typed (hTyped' c' hc') hSum
      · rw [hSequence₁]
        exact Nat.le_max_right _ _
      · rw [← hNames]
        exact hFields₂ c' hc'
      · rw [hSequence₂]
        show max _ _ < _ ↔ _
        omega

/-- What an update sets is set again by a later row. -/
theorem covered_update (hSame : SameTable late early)
    (hCovers : ∀ c ∈ late.columns, ∀ c' ∈ early.columns, c'.name = c.name →
      c'.action = .whereColumn ∨ c'.action = .nothing ∨ c'.action = .set ∧ c.action = .set)
    {c : DynamicColumnDefinition} (hc : c ∈ late.columns) (hSet : c.action ≠ .set) (am : TableRow) :
    (early.updatedRow sv am e).fields c.name = am.fields c.name := by
  obtain ⟨c', hc', hNames, -⟩ := hSame.exists_mem hc
  rw [← hNames, updatedRow_field hc', DynamicColumnDefinition.setValue]
  rcases hCovers c hc c' hc' hNames with h | h | ⟨-, h⟩
  · rw [h]
  · rw [h]
  · exact absurd h hSet

theorem update_covered (hSame : SameTable late early)
    (hCovers : ∀ c ∈ late.columns, ∀ c' ∈ early.columns, c'.name = c.name →
      c'.action = .whereColumn ∨ c'.action = .nothing ∨ c'.action = .set ∧ c.action = .set)
    (am : TableRow) :
    late.updatedRow sv (early.updatedRow sv am e) l = late.updatedRow sv am l := by
  refine row_ext late rfl (fun name hName => ?_) fun c hc => ?_
  · simp [BatchOperation.updatedRow, hName, hSame.column?_eq_none hName]
  · rw [updatedRow_field hc, updatedRow_field hc, DynamicColumnDefinition.setValue,
      DynamicColumnDefinition.setValue]
    by_cases hSet : c.action = .set
    · rw [hSet]
    · rw [covered_update hSame hCovers hc hSet]

theorem upsert_covered (hSame : SameTable late early) (hWhere : late.customWhere = none)
    (hCovers : ∀ c ∈ late.columns, ∀ c' ∈ early.columns, c'.name = c.name →
      c'.action = .whereColumn ∨ c'.action = .nothing ∨ c'.action = .set ∧ c.action = .set)
    {am : TableRow} (hAm : am.sequenceId < e.sequenceId) (hLt : e.sequenceId < l.sequenceId) :
    late.upsertEffect sv (some (early.updatedRow sv am e)) l = late.upsertEffect sv (some am) l := by
  obtain ⟨hSequence, hOthers, hFields⟩ := upsertEffect_some sv hWhere am l
  obtain ⟨hSequence', hOthers', hFields'⟩ :=
    upsertEffect_some sv hWhere (early.updatedRow sv am e) l
  refine row_ext late ?_ (fun name hName => ?_) fun c hc => ?_
  · rw [hSequence, hSequence']
    show max e.sequenceId _ = max _ _
    omega
  · rw [hOthers name hName, hOthers' name hName]
    simp [BatchOperation.updatedRow, hSame.column?_eq_none hName]
  · rw [hFields c hc, hFields' c hc, upsertedValue, upsertedValue]
    by_cases hSet : c.action = .set
    · rw [hSet]
      show (if e.sequenceId < l.sequenceId then _ else _) = _
      rw [if_pos hLt, if_pos (hAm.trans hLt)]
    · rw [covered_update hSame hCovers hc hSet]
      cases hAction : c.action with
      | set => exact absurd hAction hSet
      | _ => rfl

/-- An upsert that sets every column leaves nothing of an older row. -/
theorem upsert_overwrites (hInsert : late.type ≠ .insert) (hWhere : late.customWhere = none)
    (hSets : ∀ c ∈ late.columns, c.action = .set ∨ c.action = .whereColumn)
    (hl : Stored late key l) {am : TableRow} (hAm : Stored late key am)
    (hLt : am.sequenceId < l.sequenceId) :
    late.upsertEffect sv (some am) l = late.excluded l := by
  obtain ⟨hSequence, hOthers, hFields⟩ := upsertEffect_some sv hWhere am l
  refine row_ext late ?_ (fun name hName => ?_) fun c hc => ?_
  · rw [hSequence]
    exact Nat.max_eq_right hLt.le
  · rw [hOthers name hName, hAm.others name hName]
    simp [BatchOperation.excluded, hName, hl.others name hName]
  · rw [hFields c hc, upsertedValue, excluded_field hc, DynamicColumnDefinition.excludedValue]
    rcases hSets c hc with hAction | hAction
    · rw [hAction, if_pos hLt]
    · rw [hAction]
      exact where_eq hInsert (hAm.key.trans hl.key.symm) hc hAction

/-- The later row first is the later row last. -/
theorem effect_comm (hSame : SameTable late early)
    (hTyped : late.type ≠ .insert → ∀ c ∈ late.columns, c.typed = true)
    (hTyped' : early.type ≠ .insert → ∀ c ∈ early.columns, c.typed = true)
    (h : Commutes late early l e) (hl : Stored late key l) (he : Stored late key e)
    (hOld : StoredAt late key old) (hLt : e.sequenceId < l.sequenceId) :
    early.effect sv (late.effect sv old l) e = late.effect sv (early.effect sv old e) l := by
  have hKeys : late.key l = early.key e := hl.key.trans (he.key.symm.trans (hSame.key_eq e))
  cases h with
  | delete h h' =>
    cases old with
    | none => rcases h' with h' | h' <;> simp [effect, h, h']
    | some am =>
      rcases h' with h' | h'
      · rw [effect_delete h, effect_delete h', hKeys]
        by_cases hNull : SqlValue.null ∈ early.key e
        · simp [hNull, effect, h, h', hKeys]
        · simp only [hNull, not_false_eq_true, true_and]
          by_cases hLate : am.sequenceId ≤ l.sequenceId
          · rw [if_pos hLate]
            split
            · simp [effect, h, h']
            · rw [effect_delete h, hKeys, if_pos ⟨hNull, hLate⟩]
              simp [effect, h']
          · rw [if_neg hLate, if_neg (by omega), effect_delete h', effect_delete h, if_neg (by omega),
              if_neg (by omega)]
      · rw [effect_update h', effect_delete h, hKeys]
        by_cases hApplies : early.applies am e
        · have hLate : am.sequenceId ≤ l.sequenceId := hApplies.2.le.trans hLt.le
          rw [if_pos hApplies, if_pos ⟨hApplies.1, hLate⟩, effect_delete h, hKeys,
            if_pos ⟨hApplies.1, hLt.le⟩]
          simp [effect, h']
        · rw [if_neg hApplies, effect_delete h, hKeys]
          split
          · simp [effect, h']
          · rw [effect_update h', if_neg hApplies]
  | insert h h' =>
    have hInserted : ∀ old, late.effect sv old l = some l := fun old => by simp only [effect, h]
    rw [hInserted, hInserted]
    rcases h' with h' | h'
    · exact effect_delete_older h' hLt
    · exact effect_update_older h' hLt.le
  | upsertDelete h hWhere hSets h' =>
    have hInsert : late.type ≠ .insert := by rw [h]; simp
    rw [effect_upsert h, effect_upsert h,
      effect_delete_older h' (hLt.trans_le (upsertEffect_le hWhere old l)), Option.some.injEq]
    cases old with
    | none => simp [effect, h']
    | some am =>
      rw [effect_delete h']
      split
      · next hDeleted =>
        exact upsert_overwrites hInsert hWhere hSets hl (hOld am rfl) (hDeleted.2.trans_lt hLt)
      · rfl
  | update h h' hCovers =>
    rcases h with h | ⟨h, hWhere⟩
    · cases old with
      | none => simp [effect, h, h']
      | some am =>
        rw [effect_update h, effect_update h' am]
        by_cases hApplies : late.applies am l
        · rw [if_pos hApplies, effect_update_older h' (show e.sequenceId ≤ (late.updatedRow sv am l).sequenceId from hLt.le),
            effect_update h, Option.some.injEq]
          by_cases hFirst : early.applies am e
          · rw [if_pos hFirst, if_pos ⟨hApplies.1, hLt⟩, update_covered hSame hCovers]
          · rw [if_neg hFirst, if_pos hApplies]
        · have hNone : ¬early.applies am e := fun hFirst =>
            hApplies ⟨hKeys ▸ hFirst.1, hFirst.2.trans hLt⟩
          rw [if_neg hApplies, if_neg hNone, effect_update h', effect_update h, if_neg hNone,
            if_neg hApplies]
    · rw [effect_upsert h, effect_upsert h,
        effect_update_older h' (hLt.le.trans (upsertEffect_le hWhere old l)), Option.some.injEq]
      cases old with
      | none => simp [effect, h']
      | some am =>
        rw [effect_update h']
        by_cases hFirst : early.applies am e
        · rw [if_pos hFirst, upsert_covered hSame hWhere hCovers hFirst.2 hLt]
        · rw [if_neg hFirst]
  | upserts h hWhere h' hWhere' hColumns =>
    rw [effect_upsert h, effect_upsert h, effect_upsert h', effect_upsert h', Option.some.injEq]
    have hInsert : late.type ≠ .insert := by rw [h]; simp
    have hInsert' : early.type ≠ .insert := by rw [h']; simp
    exact upserts_comm hSame hInsert (hTyped hInsert) (hTyped' hInsert') hWhere hWhere' hColumns hl he hOld hLt

end Pairs

end Rindexer.Tables.BatchOperation
