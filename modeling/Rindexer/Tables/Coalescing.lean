import Mathlib.Data.List.Induction
import Rindexer.Tables.Effects

/-! Coalescing the rows of a key does what the rows do one after the other, where their values allow
it. -/

namespace Rindexer.Tables

open Rindexer.Database Rindexer.Manifest Rindexer.Reorg

/-! ### Sums and extrema -/

theorem sqlSum_append_num {values : List SqlValue} (hNumeric : ∀ v ∈ values, ∃ n, v = .num n)
    (hNonempty : values ≠ []) (n : Int) :
    sqlSum (values ++ [.num n]) = sqlAdd (sqlSum values) (.num n) := by
  rw [sqlSum_of_numeric hNumeric hNonempty, sqlSum_of_numeric _ (by simp)]
  · simp
  · intro v hv
    rcases List.mem_append.mp hv with hv | hv
    · exact hNumeric v hv
    · exact ⟨n, List.mem_singleton.mp hv⟩

theorem sqlSum_singleton {value : SqlValue} (h : value = .null ∨ ∃ n, value = .num n) :
    sqlSum [value] = value := by
  rcases h with rfl | ⟨n, rfl⟩
  · rfl
  · simp [sqlSum]

theorem sqlAdd_assoc (a b c : SqlValue) : sqlAdd (sqlAdd a b) c = sqlAdd a (sqlAdd b c) := by
  cases a <;> cases b <;> cases c <;> simp [sqlAdd, Int.add_assoc]

theorem sqlSub_sqlAdd (a b c : SqlValue) : sqlSub a (sqlAdd b c) = sqlSub (sqlSub a b) c := by
  cases a <;> cases b <;> cases c <;> simp [sqlAdd, sqlSub, Int.sub_sub]

section Extrema

variable (sv : Server)

theorem greatest_ne_null {a b : SqlValue} (ha : a ≠ .null) (hb : b ≠ .null) :
    greatest sv a b ≠ .null := by
  rcases (greatest_spec sv ha hb).1 with h | h <;> rw [h] <;> assumption

theorem least_ne_null {a b : SqlValue} (ha : a ≠ .null) (hb : b ≠ .null) :
    least sv a b ≠ .null := by
  rcases (least_spec sv ha hb).1 with h | h <;> rw [h] <;> assumption

/-- There is only one maximum. -/
theorem IsMax.unique {sv : Server} {values : List SqlValue} {v w : SqlValue} (hv : IsMax sv values v)
    (hw : IsMax sv values w) : v = w :=
  sv.le_antisymm v w (hw.2 v hv.1) (hv.2 w hw.1)

theorem IsMin.unique {sv : Server} {values : List SqlValue} {v w : SqlValue} (hv : IsMin sv values v)
    (hw : IsMin sv values w) : v = w :=
  sv.le_antisymm v w (hv.2 w hw.1) (hw.2 v hv.1)

theorem greatest_assoc (a b c : SqlValue) :
    greatest sv (greatest sv a b) c = greatest sv a (greatest sv b c) := by
  by_cases ha : a = .null
  · rw [ha, greatest_null_left, greatest_null_left]
  by_cases hb : b = .null
  · rw [hb, greatest_null_right, greatest_null_left]
  by_cases hc : c = .null
  · rw [hc, greatest_null_right, greatest_null_right]
  have hLeft := ((isMax_singleton a).append (isMax_singleton b) ha hb).append (isMax_singleton c)
    (greatest_ne_null sv ha hb) hc
  have hRight := (isMax_singleton a).append ((isMax_singleton b).append (isMax_singleton c) hb hc) ha
    (greatest_ne_null sv hb hc)
  rw [List.append_assoc] at hLeft
  exact hLeft.unique hRight

theorem least_assoc (a b c : SqlValue) :
    least sv (least sv a b) c = least sv a (least sv b c) := by
  by_cases ha : a = .null
  · rw [ha, least_null_left, least_null_left]
  by_cases hb : b = .null
  · rw [hb, least_null_right, least_null_left]
  by_cases hc : c = .null
  · rw [hc, least_null_right, least_null_right]
  have hLeft := ((isMin_singleton a).append (isMin_singleton b) ha hb).append (isMin_singleton c)
    (least_ne_null sv ha hb) hc
  have hRight := (isMin_singleton a).append ((isMin_singleton b).append (isMin_singleton c) hb hc) ha
    (least_ne_null sv hb hc)
  rw [List.append_assoc] at hLeft
  exact hLeft.unique hRight

theorem greatest_comm (a b : SqlValue) : greatest sv a b = greatest sv b a := by
  by_cases ha : a = .null
  · rw [ha, greatest_null_left, greatest_null_right]
  by_cases hb : b = .null
  · rw [hb, greatest_null_right, greatest_null_left]
  exact ((isMax_singleton a).append (isMax_singleton b) ha hb).unique
    (((isMax_singleton b).append (isMax_singleton a) hb ha).perm List.perm_append_comm)

theorem least_comm (a b : SqlValue) : least sv a b = least sv b a := by
  by_cases ha : a = .null
  · rw [ha, least_null_left, least_null_right]
  by_cases hb : b = .null
  · rw [hb, least_null_right, least_null_left]
  exact ((isMin_singleton a).append (isMin_singleton b) ha hb).unique
    (((isMin_singleton b).append (isMin_singleton a) hb ha).perm List.perm_append_comm)

theorem sqlMax_append (values : List SqlValue) (v : SqlValue) :
    sqlMax sv (values ++ [v]) = greatest sv (sqlMax sv values) v :=
  List.foldl_append

theorem sqlMin_append (values : List SqlValue) (v : SqlValue) :
    sqlMin sv (values ++ [v]) = least sv (sqlMin sv values) v :=
  List.foldl_append

theorem sqlMax_const {values : List SqlValue} {v : SqlValue} (h : ∀ w ∈ values, w = v)
    (hNonempty : values ≠ []) : sqlMax sv values = v := by
  induction values using List.reverseRecOn with
  | nil => contradiction
  | append_singleton values w ih =>
    have hw : w = v := h w (by simp)
    rw [sqlMax_append, hw]
    by_cases hValues : values = []
    · rw [hValues]
      rfl
    · rw [ih (fun u hu => h u (List.mem_append_left _ hu)) hValues, BatchOperation.greatest_self]

end Extrema

namespace BatchOperation

variable {sv : Server} {b : BatchOperation}

/-! ### Rows of a table -/

theorem mem_of_column? {name : String} {c : DynamicColumnDefinition} (h : b.column? name = some c) :
    c ∈ b.columns ∧ c.name = name :=
  ⟨List.mem_of_find?_eq_some h, by simpa using List.find?_some h⟩

theorem row_ext (b : BatchOperation) {x y : TableRow} (hSequence : x.sequenceId = y.sequenceId)
    (hOthers : ∀ name, b.column? name = none → x.fields name = y.fields name)
    (hColumns : ∀ c ∈ b.columns, x.fields c.name = y.fields c.name) : x = y := by
  refine TableRow.ext hSequence (funext fun name => ?_)
  cases hColumn : b.column? name with
  | none => exact hOthers name hColumn
  | some c =>
    obtain ⟨hc, rfl⟩ := mem_of_column? hColumn
    exact hColumns c hc

def isNumber (value : SqlValue) : Prop := value = .null ∨ ∃ n, value = .num n

/-- A row as a table has it under a key: with the key, with the columns of the table, and with numbers
in its numeric columns. -/
structure Stored (b : BatchOperation) (key : List SqlValue) (row : TableRow) : Prop where
  key : b.key row = key
  others : ∀ name, b.column? name = none → row.fields name = .null
  numbers : ∀ c ∈ b.columns, c.columnType.isNumeric = true → isNumber (row.fields c.name)

theorem where_eq {x y : TableRow} (hType : b.type ≠ .insert) (hKey : b.key x = b.key y)
    {c : DynamicColumnDefinition} (hc : c ∈ b.columns) (hWhere : c.action = .whereColumn) :
    x.fields c.name = y.fields c.name :=
  List.map_inj_left.mp hKey c.name ((b.keys_where hType c.name).mpr ⟨c, hc, rfl, hWhere⟩)

/-- Rows of one key whose coalesced row does what they do. -/
structure Mergeable (b : BatchOperation) (x y : TableRow) : Prop where
  nothing : ∀ c ∈ b.columns, c.action = .nothing → x.fields c.name = y.fields c.name
  ties : x.sequenceId = y.sequenceId → ∀ c ∈ b.columns, c.action = .set →
    x.fields c.name = y.fields c.name
  sums : ∀ c ∈ b.columns, c.action = .add ∨ c.action = .subtract →
    ∃ n, y.fields c.name = .num n
  arrays : b.hasArithmetic = true → ∀ c ∈ b.columns, c.action = .set → c.columnType.isArray = true →
    x.fields c.name = y.fields c.name

/-! ### Coalesced rows -/

theorem coalesce_others {group : List TableRow} {tp : TableRow} {key : List SqlValue}
    (h : b.coalesce sv group = some tp) (hStored : ∀ row ∈ group, Stored b key row) {name : String}
    (hName : b.column? name = none) : tp.fields name = .null := by
  obtain ⟨last, hLast, rfl⟩ := Option.map_eq_some_iff.mp h
  have hMem := (sv.scan_perm group).mem_iff.mp (latest?_spec hLast).1
  split
  · simp [hName]
  · exact (hStored last hMem).others name hName

/-- The columns of a coalesced row. -/
theorem coalesce_columns {group : List TableRow} {tp : TableRow} (h : b.coalesce sv group = some tp)
    (hPairs : ∀ x ∈ group, ∀ y ∈ group, Mergeable b x y) :
    ∃ last ∈ group, (∀ row ∈ group, row.sequenceId ≤ last.sequenceId) ∧
      tp.sequenceId = last.sequenceId ∧ ∀ c ∈ b.columns, tp.fields c.name =
        match c.action with
        | .add | .subtract => sqlSum (group.map fun row => row.fields c.name)
        | .max => sqlMax sv (group.map fun row => row.fields c.name)
        | .min => sqlMin sv (group.map fun row => row.fields c.name)
        | _ => last.fields c.name := by
  obtain ⟨last, hLast, hLe, hSequence, hFields⟩ := coalesce_spec h
  refine ⟨last, hLast, hLe, hSequence, fun c hc => ?_⟩
  have hAlike : b.hasArithmetic = true → c.action = .set ∨ c.action = .nothing →
      c.columnType.isArray = true →
      sqlMax sv (group.map fun row => row.fields c.name) = last.fields c.name := by
    intro hArithmetic hAction hArray
    refine sqlMax_const sv (fun w hw => ?_) (by simpa using List.ne_nil_of_mem hLast)
    obtain ⟨row, hRow, rfl⟩ := List.mem_map.mp hw
    have hPair := hPairs row hRow last hLast
    rcases hAction with hAction | hAction
    · exact hPair.arrays hArithmetic c hc hAction hArray
    · exact hPair.nothing c hc hAction
  rw [hFields c hc]
  by_cases hArithmetic : b.hasArithmetic = true
  · rw [if_pos hArithmetic, DynamicColumnDefinition.aggregateValue,
      DynamicColumnDefinition.aggregate]
    cases hAction : c.action with
    | set =>
      cases hArray : c.columnType.isArray with
      | true => exact hAlike hArithmetic (.inl hAction) hArray
      | false => rfl
    | nothing =>
      cases hArray : c.columnType.isArray with
      | true => exact hAlike hArithmetic (.inr hAction) hArray
      | false => rfl
    | _ => rfl
  · rw [if_neg hArithmetic]
    have hNone : c.action.isArithmetic = false := by
      by_contra hAction
      exact hArithmetic (hasArithmetic_of_mem hc (by simpa using hAction))
    cases hAction : c.action <;> rw [hAction] at hNone <;> first | rfl | cases hNone

/-- A row that is alone with its key is coalesced to itself. -/
theorem coalesce_singleton (hTyped : ∀ c ∈ b.columns, c.typed = true) {row : TableRow}
    {key : List SqlValue} (hRow : Stored b key row) : b.coalesce sv [row] = some row := by
  obtain ⟨tp, hTp⟩ := coalesce_of_ne_nil sv b (List.cons_ne_nil row [])
  obtain ⟨last, hLast, -, hSequence, hFields⟩ := coalesce_spec hTp
  cases List.mem_singleton.mp hLast
  rw [hTp, Option.some.injEq]
  refine row_ext b hSequence (fun name hName => ?_) fun c hc => ?_
  · rw [hRow.others name hName]
    exact coalesce_others hTp (by simpa using hRow) hName
  · rw [hFields c hc]
    split
    · rw [DynamicColumnDefinition.aggregateValue]
      split
      · rfl
      · next hAggregate =>
        refine sqlSum_singleton (hRow.numbers c hc (numeric_of_typed (hTyped c hc) ?_))
        unfold DynamicColumnDefinition.aggregate at hAggregate
        cases hAction : c.action <;> rw [hAction] at hAggregate <;> simp at hAggregate ⊢
        all_goals (split at hAggregate <;> cases hAggregate)
      · rfl
      · rfl
      · rfl
    · rfl

/-- The value of a column when a row is coalesced with later rows. -/
def mergeValue (sv : Server) (c : DynamicColumnDefinition) (tp row : SqlValue) : SqlValue :=
  match c.action with
  | .add | .subtract => sqlAdd tp row
  | .max => greatest sv tp row
  | .min => least sv tp row
  | _ => row

def mergeRow (sv : Server) (b : BatchOperation) (tp row : TableRow) : TableRow where
  sequenceId := row.sequenceId
  fields name :=
    match b.column? name with
    | none => .null
    | some c => mergeValue sv c (tp.fields name) (row.fields name)

theorem mergeRow_field {c : DynamicColumnDefinition} (h : c ∈ b.columns) (tp row : TableRow) :
    (mergeRow sv b tp row).fields c.name = mergeValue sv c (tp.fields c.name) (row.fields c.name) := by
  simp only [mergeRow, column?_of_mem h]

/-- A coalesced row, and how it goes with a later row of its key. -/
theorem coalesce_mergeable {group : List TableRow} {row tp : TableRow}
    (h : b.coalesce sv group = some tp)
    (hPairs : ∀ x ∈ group ++ [row], ∀ y ∈ group ++ [row], Mergeable b x y)
    (hOrder : ∀ x ∈ group, x.sequenceId ≤ row.sequenceId) :
    Mergeable b tp row ∧ tp.sequenceId ≤ row.sequenceId := by
  have hGroup : ∀ x ∈ group, ∀ y ∈ group, Mergeable b x y := fun x hx y hy =>
    hPairs x (List.mem_append_left _ hx) y (List.mem_append_left _ hy)
  obtain ⟨last, hLast, -, hSequence, hColumns⟩ := coalesce_columns h hGroup
  have hPair := hPairs last (List.mem_append_left _ hLast) row (by simp)
  refine ⟨⟨?_, ?_, hPair.sums, ?_⟩, hSequence ▸ hOrder last hLast⟩
  · intro c hc hNothing
    rw [hColumns c hc, hNothing]
    exact hPair.nothing c hc hNothing
  · intro hTie c hc hSet
    rw [hColumns c hc, hSet]
    exact hPair.ties (hSequence ▸ hTie) c hc hSet
  · intro hArithmetic c hc hSet hArray
    rw [hColumns c hc, hSet]
    exact hPair.arrays hArithmetic c hc hSet hArray

theorem coalesce_append (hType : b.type ≠ .insert) {group : List TableRow} {row tp : TableRow}
    {key : List SqlValue} (h : b.coalesce sv group = some tp)
    (hStored : ∀ x ∈ group ++ [row], Stored b key x)
    (hPairs : ∀ x ∈ group ++ [row], ∀ y ∈ group ++ [row], Mergeable b x y)
    (hOrder : ∀ x ∈ group, x.sequenceId ≤ row.sequenceId) :
    b.coalesce sv (group ++ [row]) = some (mergeRow sv b tp row) := by
  obtain ⟨all, hAll⟩ := coalesce_of_ne_nil sv b (List.append_ne_nil_of_right_ne_nil group
    (List.cons_ne_nil row []))
  have hRow : row ∈ group ++ [row] := by simp
  have hGroup : ∀ x ∈ group, ∀ y ∈ group, Mergeable b x y := fun x hx y hy =>
    hPairs x (List.mem_append_left _ hx) y (List.mem_append_left _ hy)
  obtain ⟨first, hFirst, -, -, hFirstColumns⟩ := coalesce_columns h hGroup
  obtain ⟨last, hLast, hLe, hSequence, hColumns⟩ := coalesce_columns hAll hPairs
  have hLastRow : last.sequenceId = row.sequenceId := by
    apply Nat.le_antisymm _ (hLe row hRow)
    rcases List.mem_append.mp hLast with hMem | hMem
    · exact hOrder last hMem
    · rw [List.mem_singleton.mp hMem]
  have hNumbers : ∀ c ∈ b.columns, c.action = .add ∨ c.action = .subtract →
      sqlSum ((group ++ [row]).map fun x => x.fields c.name) =
        sqlAdd (sqlSum (group.map fun x => x.fields c.name)) (row.fields c.name) := by
    intro c hc hSum
    obtain ⟨n, hn⟩ := (hPairs row hRow row hRow).sums c hc hSum
    rw [List.map_append, List.map_singleton, hn]
    refine sqlSum_append_num (fun v hv => ?_) (by simpa using List.ne_nil_of_mem hFirst) n
    obtain ⟨x, hx, rfl⟩ := List.mem_map.mp hv
    exact (hPairs row hRow x (List.mem_append_left _ hx)).sums c hc hSum
  have hPair := hPairs last hLast row hRow
  rw [hAll, Option.some.injEq]
  refine row_ext b (hSequence.trans hLastRow) (fun name hName => ?_) fun c hc => ?_
  · rw [coalesce_others hAll hStored hName]
    simp [mergeRow, hName]
  · rw [hColumns c hc, mergeRow_field hc, mergeValue, hFirstColumns c hc]
    cases hAction : c.action with
    | whereColumn => exact where_eq hType ((hStored last hLast).key.trans (hStored row hRow).key.symm) hc hAction
    | set => exact hPair.ties hLastRow c hc hAction
    | add => exact hNumbers c hc (.inl hAction)
    | subtract => exact hNumbers c hc (.inr hAction)
    | max =>
      simp only [List.map_append, List.map_cons, List.map_nil]
      exact sqlMax_append sv _ _
    | min =>
      simp only [List.map_append, List.map_cons, List.map_nil]
      exact sqlMin_append sv _ _
    | nothing => exact hPair.nothing c hc hAction

/-! ### One row after the other -/

theorem upsertEffect_merge (hType : b.type ≠ .insert) (hWhere : b.customWhere = none)
    (hTyped : ∀ c ∈ b.columns, c.typed = true)
    {old : Option TableRow} {tp row : TableRow} {key : List SqlValue}
    (hOld : ∀ o, old = some o → Stored b key o) (hKey : b.key tp = b.key row)
    (hTp : ∀ name, b.column? name = none → tp.fields name = .null)
    (hPair : Mergeable b tp row) (hSums : ∀ c ∈ b.columns, c.action = .add ∨ c.action = .subtract →
      ∃ n, tp.fields c.name = .num n) (hLe : tp.sequenceId ≤ row.sequenceId) :
    b.upsertEffect sv old (mergeRow sv b tp row) =
      b.upsertEffect sv (some (b.upsertEffect sv old tp)) row := by
  obtain ⟨hSequence, hOthers, hColumns⟩ :=
    upsertEffect_some sv hWhere (b.upsertEffect sv old tp) row
  cases old with
  | none =>
    refine row_ext b ?_ (fun name hName => ?_) fun c hc => ?_
    · rw [hSequence]
      exact (Nat.max_eq_right hLe).symm
    · rw [hOthers name hName]
      simp [upsertEffect, excluded, mergeRow, hName, hTp name hName]
    · rw [hColumns c hc, upsertedValue]
      simp only [upsertEffect, excluded_field hc, mergeRow_field hc, mergeValue,
        DynamicColumnDefinition.excludedValue]
      cases hAction : c.action with
      | whereColumn => exact where_eq hType hKey.symm hc hAction
      | set =>
        show _ = if tp.sequenceId < row.sequenceId then _ else _
        by_cases hLt : tp.sequenceId < row.sequenceId
        · rw [if_pos hLt]
        · rw [if_neg hLt]
          exact (hPair.ties (Nat.le_antisymm hLe (Nat.le_of_not_lt hLt)) c hc hAction).symm
      | add =>
        obtain ⟨m, hm⟩ := hSums c hc (.inl hAction)
        obtain ⟨n, hn⟩ := hPair.sums c hc (.inl hAction)
        simp only [hm, hn, sqlAdd_num, sqlSub_num, coalesceZero_num, SqlValue.num.injEq]
        omega
      | subtract =>
        obtain ⟨m, hm⟩ := hSums c hc (.inr hAction)
        obtain ⟨n, hn⟩ := hPair.sums c hc (.inr hAction)
        simp only [hm, hn, sqlAdd_num, sqlSub_num, coalesceZero_num, SqlValue.num.injEq]
        omega
      | max => rfl
      | min => rfl
      | nothing => exact (hPair.nothing c hc hAction).symm
  | some o =>
    obtain ⟨hSequence₁, hOthers₁, hColumns₁⟩ := upsertEffect_some sv hWhere o tp
    obtain ⟨hSequence₂, hOthers₂, hColumns₂⟩ :=
      upsertEffect_some sv hWhere o (mergeRow sv b tp row)
    refine row_ext b ?_ (fun name hName => ?_) fun c hc => ?_
    · rw [hSequence, hSequence₁, hSequence₂]
      show max o.sequenceId row.sequenceId = max (max o.sequenceId tp.sequenceId) row.sequenceId
      omega
    · rw [hOthers name hName, hOthers₁ name hName, hOthers₂ name hName]
    · rw [hColumns c hc, upsertedValue, hColumns₁ c hc, hColumns₂ c hc, hSequence₁]
      simp only [upsertedValue, mergeRow_field hc, mergeValue, DynamicColumnDefinition.excludedValue]
      cases hAction : c.action with
      | whereColumn => rfl
      | set =>
        have hTie := fun h => hPair.ties h c hc hAction
        show (if o.sequenceId < row.sequenceId then _ else _) =
          if max o.sequenceId tp.sequenceId < row.sequenceId then _ else
            if o.sequenceId < tp.sequenceId then _ else _
        split_ifs <;> first | rfl | omega | skip
        exact (hTie (by omega)).symm
      | add =>
        obtain ⟨m, hm⟩ := hSums c hc (.inl hAction)
        obtain ⟨n, hn⟩ := hPair.sums c hc (.inl hAction)
        have hNumeric := numeric_of_typed (hTyped c hc) (.inl hAction)
        rcases (hOld o rfl).numbers c hc hNumeric with hValue | ⟨k, hValue⟩ <;>
          simp only [hm, hn, hValue, coalesceZero, sqlAdd_num, sqlSub_num, SqlValue.num.injEq] <;> omega
      | subtract =>
        obtain ⟨m, hm⟩ := hSums c hc (.inr hAction)
        obtain ⟨n, hn⟩ := hPair.sums c hc (.inr hAction)
        have hNumeric := numeric_of_typed (hTyped c hc) (.inr hAction)
        rcases (hOld o rfl).numbers c hc hNumeric with hValue | ⟨k, hValue⟩ <;>
          simp only [hm, hn, hValue, coalesceZero, sqlAdd_num, sqlSub_num, SqlValue.num.injEq] <;> omega
      | max => exact (greatest_assoc sv _ _ _).symm
      | min => exact (least_assoc sv _ _ _).symm
      | nothing => rfl

theorem updatedRow_field {c : DynamicColumnDefinition} (h : c ∈ b.columns) (am tp : TableRow) :
    (b.updatedRow sv am tp).fields c.name = c.setValue sv am tp := by
  simp only [updatedRow, column?_of_mem h]

theorem setValue_merge {c : DynamicColumnDefinition} (hc : c ∈ b.columns) (am tp row : TableRow) :
    c.setValue sv am (mergeRow sv b tp row) = c.setValue sv (b.updatedRow sv am tp) row := by
  simp only [DynamicColumnDefinition.setValue, mergeRow_field hc, mergeValue, updatedRow_field hc]
  cases hAction : c.action with
  | add => exact (sqlAdd_assoc _ _ _).symm
  | subtract => exact sqlSub_sqlAdd _ _ _
  | max => exact (greatest_assoc sv _ _ _).symm
  | min => exact (least_assoc sv _ _ _).symm
  | _ => rfl

theorem setValue_merge_plain {c : DynamicColumnDefinition} (hc : c ∈ b.columns)
    (hPlain : c.action.isArithmetic = false) (am tp row : TableRow) :
    c.setValue sv am (mergeRow sv b tp row) = c.setValue sv am row := by
  simp only [DynamicColumnDefinition.setValue, mergeRow_field hc, mergeValue]
  cases hAction : c.action <;> rw [hAction] at hPlain <;> first | rfl | cases hPlain

theorem plain_of_hasArithmetic {c : DynamicColumnDefinition} (hc : c ∈ b.columns)
    (h : b.hasArithmetic = false) : c.action.isArithmetic = false := by
  by_contra hAction
  rw [hasArithmetic_of_mem hc (by simpa using hAction)] at h
  cases h

theorem updatedRow_merge (am tp row : TableRow) :
    b.updatedRow sv am (mergeRow sv b tp row) = b.updatedRow sv (b.updatedRow sv am tp) row := by
  refine row_ext b rfl (fun name hName => by simp [updatedRow, hName]) fun c hc => ?_
  rw [updatedRow_field hc, updatedRow_field hc, setValue_merge hc]

theorem updatedRow_merge_plain (h : b.hasArithmetic = false) (am tp row : TableRow) :
    b.updatedRow sv am (mergeRow sv b tp row) = b.updatedRow sv am row := by
  refine row_ext b rfl (fun name hName => by simp [updatedRow, hName]) fun c hc => ?_
  rw [updatedRow_field hc, updatedRow_field hc, setValue_merge_plain hc (plain_of_hasArithmetic hc h)]

/-- An update that is repeated for a row of the same sequence id. -/
theorem updatedRow_tie (h : b.hasArithmetic = false) {tp row : TableRow} (hPair : Mergeable b tp row)
    (hTie : tp.sequenceId = row.sequenceId) (am : TableRow) :
    b.updatedRow sv am row = b.updatedRow sv am tp := by
  refine row_ext b hTie.symm (fun name hName => by simp [updatedRow, hName]) fun c hc => ?_
  have hPlain := plain_of_hasArithmetic hc h
  rw [updatedRow_field hc, updatedRow_field hc, DynamicColumnDefinition.setValue,
    DynamicColumnDefinition.setValue]
  cases hAction : c.action with
  | set => exact (hPair.ties hTie c hc hAction).symm
  | whereColumn => rfl
  | nothing => rfl
  | _ => rw [hAction] at hPlain; cases hPlain

/-- Whether an update applies to a row of the table. -/
def applies (b : BatchOperation) (am tp : TableRow) : Prop :=
  SqlValue.null ∉ b.key tp ∧ am.sequenceId < tp.sequenceId

instance (am tp : TableRow) : Decidable (b.applies am tp) :=
  inferInstanceAs (Decidable (_ ∧ _))

theorem effect_update (hType : b.type = .update) (am tp : TableRow) :
    b.effect sv (some am) tp = some (if b.applies am tp then b.updatedRow sv am tp else am) := by
  simp only [effect, hType, Option.map_some]
  rfl

theorem updateEffect_merge (hType : b.type = .update) {old : Option TableRow} {tp row : TableRow}
    {key : List SqlValue} (hTp : b.key tp = key) (hRow : b.key row = key)
    (hMerge : b.key (mergeRow sv b tp row) = key) (hPair : Mergeable b tp row)
    (hLe : tp.sequenceId ≤ row.sequenceId)
    (hFresh : b.hasArithmetic = true → ∀ am, old = some am →
      (am.sequenceId < tp.sequenceId ∧ tp.sequenceId < row.sequenceId) ∨
        row.sequenceId ≤ am.sequenceId) :
    b.effect sv old (mergeRow sv b tp row) = b.effect sv (b.effect sv old tp) row := by
  cases old with
  | none => simp [effect, hType]
  | some am =>
    rw [effect_update hType, effect_update hType, effect_update hType, Option.some.injEq]
    by_cases hNull : SqlValue.null ∈ key
    · have hNone : ∀ am' tp', b.key tp' = key → ¬b.applies am' tp' := fun am' tp' hKey h =>
        h.1 (hKey ▸ hNull)
      rw [if_neg (hNone _ _ hMerge), if_neg (hNone _ _ hTp), if_neg (hNone _ _ hRow)]
    · have hApplies : ∀ am' tp', b.key tp' = key →
          (b.applies am' tp' ↔ am'.sequenceId < tp'.sequenceId) := fun am' tp' hKey =>
        ⟨fun h => h.2, fun h => ⟨hKey ▸ hNull, h⟩⟩
      simp only [hApplies _ _ hMerge, hApplies _ _ hTp, hApplies _ _ hRow]
      show (if am.sequenceId < row.sequenceId then _ else am) = _
      by_cases hFirst : am.sequenceId < tp.sequenceId
      · rw [if_pos hFirst, if_pos (hFirst.trans_le hLe)]
        show _ = if tp.sequenceId < row.sequenceId then _ else _
        by_cases hSecond : tp.sequenceId < row.sequenceId
        · rw [if_pos hSecond, updatedRow_merge]
        · rw [if_neg hSecond]
          have hPlain : b.hasArithmetic = false := by
            by_contra hArithmetic
            rcases hFresh (by simpa using hArithmetic) am rfl with h | h <;> omega
          have hTie : tp.sequenceId = row.sequenceId := Nat.le_antisymm hLe (Nat.le_of_not_lt hSecond)
          rw [updatedRow_merge_plain hPlain, updatedRow_tie hPlain hPair hTie]
      · rw [if_neg hFirst]
        by_cases hSecond : am.sequenceId < row.sequenceId
        · have hPlain : b.hasArithmetic = false := by
            by_contra hArithmetic
            rcases hFresh (by simpa using hArithmetic) am rfl with h | h <;> omega
          rw [if_pos hSecond, if_pos hSecond, updatedRow_merge_plain hPlain]
        · rw [if_neg hSecond, if_neg hSecond]

theorem deleteEffect_later (hType : b.type = .delete) {old : Option TableRow} {first last all : TableRow}
    {key : List SqlValue} (hFirst : b.key first = key) (hLast : b.key last = key)
    (hAll : b.key all = key) (hSequence : all.sequenceId = last.sequenceId)
    (hLe : first.sequenceId ≤ last.sequenceId) :
    b.effect sv old all = b.effect sv (b.effect sv old first) last := by
  cases old with
  | none => simp [effect, hType]
  | some am =>
    simp only [effect, hType, Option.bind_some, hFirst, hLast, hAll, hSequence]
    by_cases hNull : SqlValue.null ∈ key
    · simp [hNull]
    · simp only [hNull, not_false_eq_true, true_and]
      by_cases hDeleted : am.sequenceId ≤ first.sequenceId
      · rw [if_pos hDeleted, if_pos (hDeleted.trans hLe), Option.bind_none]
      · rw [if_neg hDeleted, Option.bind_some]

/-! ### Groups -/

/-- The condition on the rows of a key, in their order, when there are several. -/
def Coalescible (b : BatchOperation) (rows : List TableRow) : Prop :=
  match b.type with
  | .delete | .insert => True
  | .upsert => b.customWhere = none ∧ ∀ x ∈ rows, ∀ y ∈ rows, Mergeable b x y
  | .update => (∀ x ∈ rows, ∀ y ∈ rows, Mergeable b x y) ∧
    (b.hasArithmetic = true → rows.Pairwise fun x y => x.sequenceId < y.sequenceId)

/-- A row of the table older than all rows of the batch, or newer. -/
def Fresh (rows : List TableRow) (old : Option TableRow) : Prop :=
  ∀ am, old = some am → (∀ row ∈ rows, am.sequenceId < row.sequenceId) ∨
    ∀ row ∈ rows, row.sequenceId ≤ am.sequenceId

theorem Coalescible.left {rows more : List TableRow} (h : Coalescible b (rows ++ more)) :
    Coalescible b rows := by
  unfold Coalescible at h ⊢
  cases hType : b.type with
  | upsert =>
    simp only [hType] at h ⊢
    exact ⟨h.1, fun x hx y hy => h.2 x (List.mem_append_left _ hx) y (List.mem_append_left _ hy)⟩
  | update =>
    simp only [hType] at h ⊢
    exact ⟨fun x hx y hy => h.1 x (List.mem_append_left _ hx) y (List.mem_append_left _ hy),
      fun hArithmetic => (List.pairwise_append.mp (h.2 hArithmetic)).1⟩
  | delete => trivial
  | insert => trivial

theorem Coalescible.right {rows more : List TableRow} (h : Coalescible b (rows ++ more)) :
    Coalescible b more := by
  unfold Coalescible at h ⊢
  cases hType : b.type with
  | upsert =>
    simp only [hType] at h ⊢
    exact ⟨h.1, fun x hx y hy => h.2 x (List.mem_append_right _ hx) y (List.mem_append_right _ hy)⟩
  | update =>
    simp only [hType] at h ⊢
    exact ⟨fun x hx y hy => h.1 x (List.mem_append_right _ hx) y (List.mem_append_right _ hy),
      fun hArithmetic => (List.pairwise_append.mp (h.2 hArithmetic)).2.1⟩
  | delete => trivial
  | insert => trivial

theorem Fresh.left {rows more : List TableRow} {old : Option TableRow} (h : Fresh (rows ++ more) old) :
    Fresh rows old := fun am hAm =>
  (h am hAm).imp (fun h row hRow => h row (List.mem_append_left _ hRow))
    fun h row hRow => h row (List.mem_append_left _ hRow)

/-- A coalesced row does what the rows of its group do one after the other. -/
theorem effect_coalesce (hType : b.type ≠ .insert) (hTyped : ∀ c ∈ b.columns, c.typed = true)
    {rows : List TableRow} {key : List SqlValue} {old : Option TableRow} {tp : TableRow}
    (h : b.coalesce sv rows = some tp) (hStored : ∀ row ∈ rows, Stored b key row)
    (hOld : ∀ o, old = some o → Stored b key o)
    (hOrder : rows.Pairwise fun x y => x.sequenceId ≤ y.sequenceId)
    (hCoalescible : 2 ≤ rows.length → Coalescible b rows)
    (hFresh : 2 ≤ rows.length → b.type = .update → b.hasArithmetic = true → Fresh rows old) :
    b.effect sv old tp = rows.foldl (b.effect sv) old := by
  induction rows using List.reverseRecOn generalizing tp with
  | nil =>
    rw [coalesce_nil] at h
    cases h
  | append_singleton rows row ih =>
    have hRow := hStored row (by simp)
    have hRows : ∀ x ∈ rows, Stored b key x := fun x hx => hStored x (List.mem_append_left _ hx)
    by_cases hNil : rows = []
    · subst hNil
      rw [List.nil_append, coalesce_singleton hTyped hRow] at h
      cases h
      rfl
    have hLength : 2 ≤ (rows ++ [row]).length := by
      have := List.length_pos_iff.mpr hNil
      simp
      omega
    obtain ⟨hOrderRows, -, hOrderLast⟩ := List.pairwise_append.mp hOrder
    have hLe : ∀ x ∈ rows, x.sequenceId ≤ row.sequenceId := fun x hx => hOrderLast x hx row (by simp)
    obtain ⟨first, hFirst⟩ := coalesce_of_ne_nil sv b hNil
    have hFirstKey : b.key first = key := key_coalesce hType hFirst fun x hx => (hRows x hx).key
    have hTpKey : b.key tp = key := key_coalesce hType h fun x hx => (hStored x hx).key
    obtain ⟨x, hx, -, hFirstSequence, -⟩ := coalesce_spec hFirst
    have hFirstLe : first.sequenceId ≤ row.sequenceId := hFirstSequence ▸ hLe x hx
    rw [List.foldl_append, List.foldl_cons, List.foldl_nil,
      ← ih hFirst hRows hOrderRows (fun _ => (hCoalescible hLength).left)
        fun _ hUpdate hArithmetic => (hFresh hLength hUpdate hArithmetic).left]
    have hCond := hCoalescible hLength
    cases hKind : b.type with
    | insert => exact absurd hKind hType
    | delete =>
      obtain ⟨last, hLast, hHighest, hSequence, -⟩ := coalesce_spec h
      have hLastRow : last.sequenceId = row.sequenceId := by
        apply Nat.le_antisymm _ (hHighest row (by simp))
        rcases List.mem_append.mp hLast with hMem | hMem
        · exact hLe last hMem
        · rw [List.mem_singleton.mp hMem]
      exact deleteEffect_later hKind hFirstKey hRow.key hTpKey (hSequence.trans hLastRow) hFirstLe
    | upsert =>
      simp only [Coalescible, hKind] at hCond
      obtain ⟨hWhere, hPairs⟩ := hCond
      have hMerged := coalesce_append hType hFirst hStored hPairs hLe
      rw [h, Option.some.injEq] at hMerged
      have hSums : ∀ c ∈ b.columns, c.action = .add ∨ c.action = .subtract →
          ∃ n, first.fields c.name = .num n := by
        intro c hc hSum
        obtain ⟨_, _, _, _, hColumns⟩ := coalesce_columns hFirst fun x hx y hy =>
          hPairs x (List.mem_append_left _ hx) y (List.mem_append_left _ hy)
        have hValue : first.fields c.name = sqlSum (rows.map fun r => r.fields c.name) := by
          rw [hColumns c hc]
          rcases hSum with hSum | hSum <;> rw [hSum]
        rw [hValue, sqlSum_of_numeric _ (by simpa using hNil)]
        · exact ⟨_, rfl⟩
        · intro v hv
          obtain ⟨r, hr, rfl⟩ := List.mem_map.mp hv
          exact (hPairs row (by simp) r (List.mem_append_left _ hr)).sums c hc hSum
      simp only [effect, hKind, hMerged, Option.some.injEq]
      exact upsertEffect_merge hType hWhere hTyped hOld (hFirstKey.trans hRow.key.symm)
        (fun name hName => coalesce_others hFirst hRows hName)
        (coalesce_mergeable hFirst hPairs hLe).1 hSums hFirstLe
    | update =>
      simp only [Coalescible, hKind] at hCond
      obtain ⟨hPairs, hStrict⟩ := hCond
      have hMerged := coalesce_append hType hFirst hStored hPairs hLe
      rw [h, Option.some.injEq] at hMerged
      rw [hMerged]
      refine updateEffect_merge hKind hFirstKey hRow.key (hMerged ▸ hTpKey)
        (coalesce_mergeable hFirst hPairs hLe).1 hFirstLe fun hArithmetic am hAm => ?_
      rcases hFresh hLength hKind hArithmetic am hAm with hOlder | hNewer
      · refine .inl ⟨hFirstSequence ▸ hOlder x (List.mem_append_left _ hx), ?_⟩
        rw [hFirstSequence]
        exact (List.pairwise_append.mp (hStrict hArithmetic)).2.2 x hx row (by simp)
      · exact .inr (hNewer row (by simp))

end BatchOperation

end Rindexer.Tables
