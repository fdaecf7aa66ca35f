import Mathlib.Logic.Function.Basic
import Rindexer.Manifest
import Rindexer.Tables.Values

/-! The statements that a batch operation runs on a custom table: how the rows of a batch are coalesced
by key, and what each of the coalesced rows does to the row of its key. -/

namespace Rindexer.Manifest.ColumnType

open Rindexer.Database

def isArray : ColumnType → Bool
  | array _ => true
  | _ => false

/-- The bits of the integer type of a column, `NUMERIC` having none. -/
def bits : ColumnType → Option Nat
  | uint8 | uint16 | int8 | int16 => some 16
  | uint32 | int32 => some 32
  | uint64 | int64 => some 64
  | _ => none

def isNumeric : ColumnType → Bool
  | uint8 | uint16 | uint32 | uint64 | uint128 | uint256 => true
  | int8 | int16 | int32 | int64 | int128 | int256 => true
  | _ => false

/-- Whether there is a `MAX` for the type of a column. -/
def isOrdered : ColumnType → Bool
  | bytes | bytes32 | bool => false
  | _ => true

def inBits (bits : Option Nat) (n : Int) : Bool :=
  match bits with
  | none => true
  | some b => decide (-2 ^ (b - 1) ≤ n ∧ n < 2 ^ (b - 1))

/-- Whether a column has room for a value of its type. -/
def holds (t : ColumnType) : SqlValue → Bool
  | .null => true
  | .num n => if t.isNumeric then inBits t.bits n else t == timestamp
  | .bool _ => t == bool
  | .text _ => !t.isNumeric && t != bool && t != timestamp

/-- The type that Postgres computes in when it adds to a column. -/
def computed : ColumnType → ColumnType
  | uint8 | uint16 | int8 | int16 => int32
  | t => t

end Rindexer.Manifest.ColumnType

namespace Rindexer.Tables

open Rindexer.Database Rindexer.Manifest Rindexer.Reorg

inductive BatchOperationAction
  | whereColumn
  | set
  | add
  | subtract
  | max
  | min
  | nothing
deriving DecidableEq, Repr

def BatchOperationAction.isArithmetic : BatchOperationAction → Bool
  | add | subtract | max | min => true
  | _ => false

/-- How a column is aggregated in `GROUP BY`. -/
inductive ColumnAggregate
  | groupKey
  | sum
  | max
  | min
  | lastBySeq
deriving DecidableEq, Repr

/-- What is the same in all rows of a batch about a column. -/
structure DynamicColumnDefinition where
  name : String
  columnType : ColumnType
  action : BatchOperationAction
  insertDefault : Option Int
  nullable : Bool
deriving DecidableEq, Repr

namespace DynamicColumnDefinition

def aggregate (c : DynamicColumnDefinition) : ColumnAggregate :=
  match c.action with
  | .whereColumn => .groupKey
  | .add | .subtract => .sum
  | .max => .max
  | .min => .min
  | .set | .nothing => if c.columnType.isArray then .max else .lastBySeq

/-- The value that a sum starts from. -/
def start (c : DynamicColumnDefinition) : Int := c.insertDefault.getD 0

/-- Whether the statement makes sense for the type of the column. -/
def typed (c : DynamicColumnDefinition) : Bool :=
  match c.action with
  | .add | .subtract => c.columnType.isNumeric
  | .max | .min => c.columnType.isOrdered
  | _ => true

def fits (c : DynamicColumnDefinition) (value : SqlValue) : Bool :=
  if value = .null then c.nullable else c.columnType.holds value

/-- The value of a column in the coalesced row of a group. -/
def aggregateValue (sv : Server) (c : DynamicColumnDefinition) (group : List TableRow) (last : TableRow) :
    SqlValue :=
  match c.aggregate with
  | .groupKey => last.fields c.name
  | .sum => sqlSum (group.map fun row => row.fields c.name)
  | .max => sqlMax sv (group.map fun row => row.fields c.name)
  | .min => sqlMin sv (group.map fun row => row.fields c.name)
  | .lastBySeq => last.fields c.name

/-- The value of a column in the row that an upsert inserts. -/
def excludedValue (c : DynamicColumnDefinition) (value : SqlValue) : SqlValue :=
  match c.action with
  | .add => sqlAdd (.num c.start) value
  | .subtract => sqlSub (.num c.start) value
  | _ => value

/-- The value of a column in the batch, from its value in the row that an upsert inserts. -/
def rewrittenValue (c : DynamicColumnDefinition) (value : SqlValue) : SqlValue :=
  match c.action with
  | .add => sqlSub value (.num c.start)
  | .subtract => sqlSub (.num c.start) value
  | _ => value

/-- The value of a column after `SET`. -/
def setValue (sv : Server) (c : DynamicColumnDefinition) (am tp : TableRow) : SqlValue :=
  match c.action with
  | .set => tp.fields c.name
  | .add => sqlAdd (am.fields c.name) (tp.fields c.name)
  | .subtract => sqlSub (am.fields c.name) (tp.fields c.name)
  | .max => greatest sv (am.fields c.name) (tp.fields c.name)
  | .min => least sv (am.fields c.name) (tp.fields c.name)
  | .whereColumn | .nothing => am.fields c.name

end DynamicColumnDefinition

/-- A batch operation: its type, the primary key of its table, its columns without those for the
sequence id, and its condition on the row of the table and the row of the batch, which fails on some.
The key of an insert-only table is a counter. -/
structure BatchOperation where
  type : OperationType
  insertOnly : Bool
  keys : List String
  columns : List DynamicColumnDefinition
  customWhere : Option (TableRow → TableRow → Option Bool)
  nodup : (columns.map DynamicColumnDefinition.name).Nodup
  keys_where : type ≠ .insert →
    ∀ name, name ∈ keys ↔ ∃ c ∈ columns, c.name = name ∧ c.action = .whereColumn

/-- The rows of a custom table: by their keys, or in the order in which they are appended. -/
structure Contents where
  keyed : List SqlValue → Option TableRow
  appended : List TableRow

namespace BatchOperation

variable (sv : Server) (b : BatchOperation)

def column? (name : String) : Option DynamicColumnDefinition :=
  b.columns.find? fun c => c.name == name

def key (row : TableRow) : List SqlValue := b.keys.map row.fields

def hasArithmetic : Bool := b.columns.any fun c => c.action.isArithmetic

/-! ### Coalescing -/

/-- The first of the rows with the highest sequence id. -/
def latest? : List TableRow → Option TableRow
  | [] => none
  | row :: rows =>
    match latest? rows with
    | none => some row
    | some later => if row.sequenceId < later.sequenceId then some later else some row

/-- The rows of the keys of a batch. -/
def groups (rows : List TableRow) : List (List TableRow) :=
  (rows.map b.key).dedup.map fun key => rows.filter fun row => b.key row = key

/-- The row of `to_process` for a group: an aggregate of each column, or else `DISTINCT ON` the key the
row with the highest sequence id. -/
def coalesce (group : List TableRow) : Option TableRow :=
  (latest? (sv.scan group)).map fun last =>
    if b.hasArithmetic then
      { sequenceId := last.sequenceId
        fields := fun name => ((b.column? name).map fun c => c.aggregateValue sv group last).getD .null }
    else last

def toProcess (rows : List TableRow) : List TableRow := (b.groups rows).filterMap (b.coalesce sv)

/-! ### Upserts -/

/-- The row that an upsert inserts if there is none of its key. -/
def excluded (tp : TableRow) : TableRow where
  sequenceId := tp.sequenceId
  fields name :=
    match b.column? name with
    | none => tp.fields name
    | some c => c.excludedValue (tp.fields name)

/-- The row of the batch, as the rewritten condition recovers it from the excluded row. -/
def rewritten (ex : TableRow) : TableRow where
  sequenceId := ex.sequenceId
  fields name :=
    match b.column? name with
    | none => ex.fields name
    | some c => c.rewrittenValue (ex.fields name)

/-- The `WHERE` of `DO UPDATE`.  With an arithmetic column there is no comparison of sequence ids. -/
def updates (old ex : TableRow) : Option Bool :=
  if b.hasArithmetic || decide (old.sequenceId < ex.sequenceId) then
    match b.customWhere with
    | none => some true
    | some condition => condition old (b.rewritten ex)
  else some false

/-- The value of a column after `DO UPDATE SET`. -/
def conflictValue (c : DynamicColumnDefinition) (old ex : TableRow) : SqlValue :=
  let t := old.fields c.name
  let e := ex.fields c.name
  match c.action with
  | .set => if b.hasArithmetic && !decide (old.sequenceId < ex.sequenceId) then t else e
  | .add | .subtract => sqlSub (sqlAdd (coalesceZero t) e) (.num c.start)
  | .max => greatest sv (if t = .null then e else t) e
  | .min => least sv (if t = .null then e else t) e
  | .whereColumn | .nothing => t

def conflictRow (old ex : TableRow) : TableRow where
  sequenceId := Nat.max old.sequenceId ex.sequenceId
  fields name :=
    match b.column? name with
    | none => old.fields name
    | some c => b.conflictValue sv c old ex

/-- Whether every column has room for its value. -/
def fits (row : TableRow) : Bool := b.columns.all fun c => c.fits (row.fields c.name)

/-- Whether the sums of `DO UPDATE SET` can be computed. -/
def sumsFit (old ex : TableRow) : Bool :=
  b.columns.all fun c =>
    match c.action with
    | .add | .subtract =>
      c.columnType.computed.holds (sqlAdd (coalesceZero (old.fields c.name)) (ex.fields c.name))
    | _ => true

/-- The row of a key after a row of the batch, or none if the statement fails. -/
def upsertRow (old : Option TableRow) (tp : TableRow) : Option (Option TableRow) :=
  let ex := b.excluded tp
  if b.fits ex then
    match old with
    | none => some (some ex)
    | some old =>
      match b.updates old ex with
      | none => none
      | some false => some (some old)
      | some true =>
        if b.sumsFit old ex && b.fits (b.conflictRow sv old ex) then
          some (some (b.conflictRow sv old ex))
        else none
  else none

/-! ### Updates, deletes and inserts -/

def updatedRow (am tp : TableRow) : TableRow where
  sequenceId := tp.sequenceId
  fields name :=
    match b.column? name with
    | none => am.fields name
    | some c => c.setValue sv am tp

def updateRow (old : Option TableRow) (tp : TableRow) : Option (Option TableRow) :=
  match old with
  | none => some none
  | some am =>
    if SqlValue.null ∉ b.key tp ∧ am.sequenceId < tp.sequenceId then
      if b.fits (b.updatedRow sv am tp) then some (some (b.updatedRow sv am tp)) else none
    else some (some am)

def deleteRow (old : Option TableRow) (tp : TableRow) : Option (Option TableRow) :=
  match old with
  | none => some none
  | some am =>
    if SqlValue.null ∉ b.key tp ∧ am.sequenceId ≤ tp.sequenceId then some none
    else some (some am)

def insertRow (old : Option TableRow) (row : TableRow) : Option (Option TableRow) :=
  match old with
  | none => if b.fits row then some (some row) else none
  | some _ => none

/-! ### Batches -/

def applyRow (old : Option TableRow) (row : TableRow) : Option (Option TableRow) :=
  match b.type with
  | .upsert => b.upsertRow sv old row
  | .update => b.updateRow sv old row
  | .delete => b.deleteRow old row
  | .insert => b.insertRow old row

def applyTo (contents : Contents) (row : TableRow) : Option Contents :=
  (b.applyRow sv (contents.keyed (b.key row)) row).map fun new =>
    { contents with keyed := Function.update contents.keyed (b.key row) new }

/-- Whether the parameters of a row can be cast to the types of their columns. -/
def casts (row : TableRow) : Bool := b.columns.all fun c => c.columnType.holds (row.fields c.name)

/-- The statement for a batch, or none if it fails.  There is no table without a primary key. -/
def executeBatch (rows : List TableRow) (contents : Contents) : Option Contents :=
  if rows.all b.casts then
    if b.type = .insert then
      if b.insertOnly then
        if rows.all b.fits then some { contents with appended := contents.appended ++ rows } else none
      else if b.keys = [] then none
      else rows.foldlM (b.applyTo sv) contents
    else if b.keys ≠ [] ∧ b.columns.all DynamicColumnDefinition.typed then
      (b.toProcess sv rows).foldlM (b.applyTo sv) contents
    else none
  else none

/-- The rows in pieces of `size`, the last one being shorter. -/
def chunks (size : Nat) : Nat → List TableRow → List (List TableRow)
  | 0, _ => []
  | _ + 1, [] => []
  | fuel + 1, row :: rows =>
    (row :: rows).take size :: chunks size fuel ((row :: rows).drop size)

/-- The most rows of a statement, whose parameters are at most 32767. -/
def maxRowsPerBatch : Nat := Nat.max (32767 / (b.columns.length + 1)) 1

/-- The statements for batches, one after the other until one fails. -/
def executeBatches : List (List TableRow) → Contents → Contents × Bool
  | [], contents => (contents, true)
  | rows :: batches, contents =>
    match b.executeBatch sv rows contents with
    | none => (contents, false)
    | some contents => executeBatches batches contents

def execute (rows : List TableRow) (contents : Contents) : Contents × Bool :=
  b.executeBatches sv (chunks b.maxRowsPerBatch rows.length rows) contents

/-! ### Coalesced rows -/

section Lemmas

variable {sv : Server} {b : BatchOperation}

theorem column?_of_mem {c : DynamicColumnDefinition} (h : c ∈ b.columns) :
    b.column? c.name = some c := by
  have hNodup := b.nodup
  rw [column?]
  generalize b.columns = columns at h hNodup
  induction columns with
  | nil => cases h
  | cons d columns ih =>
    rw [List.map_cons, List.nodup_cons] at hNodup
    rcases List.mem_cons.mp h with rfl | h
    · rw [List.find?_cons_of_pos (by simp)]
    · have hName : d.name ≠ c.name := fun hEq =>
        hNodup.1 (hEq ▸ List.mem_map_of_mem h)
      rw [List.find?_cons_of_neg (by simpa using hName)]
      exact ih h hNodup.2

theorem latest?_spec {rows : List TableRow} {last : TableRow} (h : latest? rows = some last) :
    last ∈ rows ∧ ∀ row ∈ rows, row.sequenceId ≤ last.sequenceId := by
  induction rows generalizing last with
  | nil => cases h
  | cons row rows ih =>
    rw [latest?] at h
    cases hLater : latest? rows with
    | none =>
      rw [hLater] at h
      cases h
      cases rows with
      | nil => simp
      | cons r rows =>
        rw [latest?] at hLater
        split at hLater <;> [cases hLater; (split at hLater <;> cases hLater)]
    | some later =>
      obtain ⟨hMem, hLe⟩ := ih hLater
      simp only [hLater] at h
      by_cases hLt : row.sequenceId < later.sequenceId
      · rw [if_pos hLt] at h
        cases h
        refine ⟨List.mem_cons_of_mem _ hMem, fun r hr => ?_⟩
        rcases List.mem_cons.mp hr with rfl | hr
        · exact hLt.le
        · exact hLe r hr
      · rw [if_neg hLt] at h
        cases h
        refine ⟨List.mem_cons_self, fun r hr => ?_⟩
        rcases List.mem_cons.mp hr with rfl | hr
        · exact le_rfl
        · exact (hLe r hr).trans (Nat.le_of_not_lt hLt)

theorem latest?_of_ne_nil {rows : List TableRow} (h : rows ≠ []) : ∃ last, latest? rows = some last := by
  cases rows with
  | nil => contradiction
  | cons row rows =>
    rw [latest?]
    cases latest? rows with
    | none => exact ⟨row, rfl⟩
    | some later =>
      simp only
      split
      · exact ⟨later, rfl⟩
      · exact ⟨row, rfl⟩

/-- What coalesces a group: its last row, and the aggregates of the columns. -/
theorem coalesce_spec {group : List TableRow} {tp : TableRow} (h : b.coalesce sv group = some tp) :
    ∃ last ∈ group, (∀ row ∈ group, row.sequenceId ≤ last.sequenceId) ∧
      tp.sequenceId = last.sequenceId ∧
      ∀ c ∈ b.columns, tp.fields c.name =
        if b.hasArithmetic then c.aggregateValue sv group last else last.fields c.name := by
  obtain ⟨last, hLast, rfl⟩ := Option.map_eq_some_iff.mp h
  obtain ⟨hMem, hLe⟩ := latest?_spec hLast
  refine ⟨last, (sv.scan_perm group).mem_iff.mp hMem,
    fun row hRow => hLe row ((sv.scan_perm group).mem_iff.mpr hRow), ?_, fun c hc => ?_⟩
  · split <;> rfl
  · by_cases hArithmetic : b.hasArithmetic = true
    · rw [if_pos hArithmetic, if_pos hArithmetic]
      simp [column?_of_mem hc]
    · rw [if_neg hArithmetic, if_neg hArithmetic]

theorem coalesce_of_ne_nil (sv : Server) (b : BatchOperation) {group : List TableRow} (h : group ≠ []) :
    ∃ tp, b.coalesce sv group = some tp := by
  have hScan : sv.scan group ≠ [] := fun hNil => h ((hNil ▸ sv.scan_perm group).symm.eq_nil)
  obtain ⟨last, hLast⟩ := latest?_of_ne_nil hScan
  exact ⟨_, by rw [coalesce, hLast]; rfl⟩

/-- A coalesced row has the key of its group. -/
theorem key_coalesce (hType : b.type ≠ .insert) {group : List TableRow} {tp : TableRow}
    {key : List SqlValue} (h : b.coalesce sv group = some tp) (hKey : ∀ row ∈ group, b.key row = key) :
    b.key tp = key := by
  obtain ⟨last, hMem, -, -, hFields⟩ := coalesce_spec h
  rw [← hKey last hMem]
  refine List.map_congr_left fun name hName => ?_
  obtain ⟨c, hc, rfl, hWhere⟩ := (b.keys_where hType name).mp hName
  rw [hFields c hc]
  split
  · simp [DynamicColumnDefinition.aggregateValue, DynamicColumnDefinition.aggregate, hWhere]
  · rfl

theorem map_key_toProcess (sv : Server) (hType : b.type ≠ .insert) (rows : List TableRow) :
    (b.toProcess sv rows).map b.key = (rows.map b.key).dedup := by
  have hAll : ∀ keys : List (List SqlValue), (∀ key ∈ keys, key ∈ rows.map b.key) →
      ((keys.map fun key => rows.filter fun row => b.key row = key).filterMap
        (b.coalesce sv)).map b.key = keys := by
    intro keys hKeys
    induction keys with
    | nil => rfl
    | cons key keys ih =>
      obtain ⟨row, hRow, hKey⟩ := List.mem_map.mp (hKeys key List.mem_cons_self)
      have hGroup : (rows.filter fun row => b.key row = key) ≠ [] :=
        List.ne_nil_of_mem (List.mem_filter.mpr ⟨hRow, by simpa using hKey⟩)
      obtain ⟨tp, hTp⟩ := coalesce_of_ne_nil sv b hGroup
      rw [List.map_cons, List.filterMap_cons_some hTp, List.map_cons,
        key_coalesce hType hTp fun r hr => by simpa using (List.mem_filter.mp hr).2,
        ih fun k hk => hKeys k (List.mem_cons_of_mem _ hk)]
  exact hAll _ fun key hKey => List.mem_dedup.mp hKey

/-- The coalesced row of a key of the batch. -/
theorem exists_mem_toProcess (sv : Server) {rows : List TableRow} {key : List SqlValue}
    (h : key ∈ rows.map b.key) :
    ∃ tp ∈ b.toProcess sv rows, b.coalesce sv (rows.filter fun row => b.key row = key) = some tp := by
  obtain ⟨row, hRow, hKey⟩ := List.mem_map.mp h
  have hGroup : (rows.filter fun row => b.key row = key) ≠ [] :=
    List.ne_nil_of_mem (List.mem_filter.mpr ⟨hRow, by simpa using hKey⟩)
  obtain ⟨tp, hTp⟩ := coalesce_of_ne_nil sv b hGroup
  exact ⟨tp, List.mem_filterMap.mpr
    ⟨_, List.mem_map.mpr ⟨key, List.mem_dedup.mpr h, rfl⟩, hTp⟩, hTp⟩

/-! ### Batches by key -/

theorem applyTo_spec {contents contents' : Contents} {row : TableRow}
    (h : b.applyTo sv contents row = some contents') :
    b.applyRow sv (contents.keyed (b.key row)) row = some (contents'.keyed (b.key row)) ∧
      (∀ key, key ≠ b.key row → contents'.keyed key = contents.keyed key) ∧
      contents'.appended = contents.appended := by
  obtain ⟨new, hNew, rfl⟩ := Option.map_eq_some_iff.mp h
  refine ⟨?_, fun key hKey => Function.update_of_ne hKey _ _, rfl⟩
  rw [hNew]
  simp

/-- Rows of distinct keys are applied independently. -/
theorem foldlM_applyTo {rows : List TableRow} {contents contents' : Contents}
    (h : rows.foldlM (b.applyTo sv) contents = some contents') (hNodup : (rows.map b.key).Nodup) :
    (∀ key ∉ rows.map b.key, contents'.keyed key = contents.keyed key) ∧
      (∀ row ∈ rows, b.applyRow sv (contents.keyed (b.key row)) row =
        some (contents'.keyed (b.key row))) ∧ contents'.appended = contents.appended := by
  induction rows generalizing contents with
  | nil =>
    cases h
    simp
  | cons row rows ih =>
    rw [List.foldlM_cons] at h
    obtain ⟨next, hNext, hRest⟩ := Option.bind_eq_some_iff.mp h
    rw [List.map_cons, List.nodup_cons] at hNodup
    obtain ⟨hApplied, hFrame, hAppended⟩ := applyTo_spec hNext
    obtain ⟨hOthers, hRows, hAppended'⟩ := ih hRest hNodup.2
    refine ⟨fun key hKey => ?_, fun r hr => ?_, hAppended'.trans hAppended⟩
    · rw [List.map_cons, List.mem_cons, not_or] at hKey
      rw [hOthers key hKey.2, hFrame key hKey.1]
    · rcases List.mem_cons.mp hr with rfl | hr
      · rw [hOthers _ hNodup.1]
        exact hApplied
      · have hKey : b.key r ≠ b.key row := fun hEq => hNodup.1 (hEq ▸ List.mem_map_of_mem hr)
        rw [← hFrame _ hKey]
        exact hRows r hr

/-- A batch that coalesces succeeds if each of its coalesced rows can be applied. -/
theorem foldlM_applyTo_isSome {rows : List TableRow} {contents : Contents}
    (h : ∀ row ∈ rows, ∃ new, b.applyRow sv (contents.keyed (b.key row)) row = some new)
    (hNodup : (rows.map b.key).Nodup) :
    ∃ contents', rows.foldlM (b.applyTo sv) contents = some contents' := by
  induction rows generalizing contents with
  | nil => exact ⟨contents, rfl⟩
  | cons row rows ih =>
    rw [List.map_cons, List.nodup_cons] at hNodup
    obtain ⟨new, hNew⟩ := h row List.mem_cons_self
    have hNext : b.applyTo sv contents row =
        some { contents with keyed := Function.update contents.keyed (b.key row) new } := by
      rw [applyTo, hNew]
      rfl
    rw [List.foldlM_cons, hNext]
    refine ih (fun r hr => ?_) hNodup.2
    have hKey : b.key r ≠ b.key row := fun hEq => hNodup.1 (hEq ▸ List.mem_map_of_mem hr)
    simp only [Function.update_of_ne hKey]
    exact h r (List.mem_cons_of_mem _ hr)

theorem flatten_chunks {size fuel : Nat} {rows : List TableRow} (hSize : 0 < size)
    (hFuel : rows.length ≤ fuel) : (chunks size fuel rows).flatten = rows := by
  induction fuel generalizing rows with
  | zero =>
    rw [List.length_eq_zero_iff.mp (Nat.le_zero.mp hFuel)]
    rfl
  | succ fuel ih =>
    cases rows with
    | nil => rfl
    | cons row rows =>
      rw [chunks, List.flatten_cons, ih (by rw [List.length_drop]; simp at hFuel ⊢; omega),
        List.take_append_drop]

theorem flatten_chunks_maxRowsPerBatch (rows : List TableRow) :
    (chunks b.maxRowsPerBatch rows.length rows).flatten = rows :=
  flatten_chunks (Nat.lt_of_lt_of_le Nat.zero_lt_one (Nat.le_max_right _ _)) le_rfl

end Lemmas

end BatchOperation

end Rindexer.Tables
