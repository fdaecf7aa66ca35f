import Rindexer.Database.Rollback

/-! The durable cursors: seeding, the monotone advance, and the insert of a batch that advances its
cursor in the same transaction.  A cursor row is known by its network and detail key. -/

namespace Rindexer.Database

/-- The detail key of a row that stands for the whole event. -/
def legacyDetailKey : String := "__event__"

/-- A row for the whole event may not coexist with rows for single details. -/
def validateExactCursorIdentity (requested : String) (existing : List String) : Bool :=
  if requested = legacyDetailKey then existing.all (· == legacyDetailKey)
  else existing.all (· != legacyDetailKey)

def CursorRow.isFor (network detailKey : String) (row : CursorRow) : Bool :=
  row.network == network && row.detailKey == detailKey

def Db.setCursors (db : Db) (table : String) (rows : List CursorRow) : Db :=
  { db with cursors := Function.update db.cursors table rows }

/-- The value of a cursor. -/
def Db.cursor (db : Db) (table network detailKey : String) : Option Nat :=
  ((db.cursors table).find? (CursorRow.isFor network detailKey)).map CursorRow.lastSyncedBlock

/-- Seeds a missing cursor at zero. -/
def ensureDetailCursor (db : Db) (table network detailKey : String) : Except String Db :=
  let existing := ((db.cursors table).filter fun r => r.network == network).map CursorRow.detailKey
  if !validateExactCursorIdentity detailKey existing then .error "exact cursor identity conflict"
  else if (db.cursors table).any (CursorRow.isFor network detailKey) then .ok db
  else .ok (db.setCursors table (db.cursors table ++ [⟨network, detailKey, 0⟩]))

/-- `UPDATE … SET last_synced_block = $1 WHERE … AND $1 > last_synced_block`. -/
def advanceRows (network detailKey : String) (toBlock : Nat) (rows : List CursorRow) :
    List CursorRow :=
  rows.map fun r =>
    if r.isFor network detailKey ∧ r.lastSyncedBlock < toBlock then
      { r with lastSyncedBlock := toBlock }
    else r

/-- Advances a cursor, never back.  A missing row is a failure. -/
def advanceDetailCursor (db : Db) (table network detailKey : String) (toBlock : Nat) :
    Except String Db :=
  if (db.cursors table).any (CursorRow.isFor network detailKey) then
    .ok (db.setCursors table (advanceRows network detailKey toBlock (db.cursors table)))
  else .error s!"missing exact cursor seed for rindexer_internal.{table} ({network}, {detailKey})"

def Db.insertRows (db : Db) (tableName : String) (rows : List EventRow) : Db :=
  let table := db.events tableName
  { db with events := Function.update db.events tableName { table with rows := table.rows ++ rows } }

/-- A batch of rows and its cursor, in one transaction.  An empty batch does nothing. -/
def insertBulkWithCursor (db : Db) (tableName : String) (rows : List EventRow)
    (internalTable network detailKey : String) (toBlock : Nat) : Except String Db :=
  if rows = [] then .ok db
  else advanceDetailCursor (db.insertRows tableName rows) internalTable network detailKey toBlock

/-! ### Cursor values -/

@[simp] theorem cursor_insertRows (db : Db) (tableName : String) (rows : List EventRow)
    (table network detailKey : String) :
    (db.insertRows tableName rows).cursor table network detailKey =
      db.cursor table network detailKey := rfl

theorem find?_map_of_isFor {f : CursorRow → CursorRow} {network detailKey : String}
    (h : ∀ r, (f r).isFor network detailKey = r.isFor network detailKey) (rows : List CursorRow) :
    (rows.map f).find? (CursorRow.isFor network detailKey) =
      (rows.find? (CursorRow.isFor network detailKey)).map f := by
  rw [List.find?_map]
  congr 2
  exact funext h

/-- An advance sets the cursor to the larger of its value and the block. -/
theorem cursor_advanceDetailCursor {db db' : Db} {table network detailKey : String} {toBlock : Nat}
    (h : advanceDetailCursor db table network detailKey toBlock = .ok db') :
    db'.cursor table network detailKey =
      (db.cursor table network detailKey).map (max toBlock) := by
  unfold advanceDetailCursor at h
  split at h
  · cases h
    unfold Db.cursor Db.setCursors advanceRows
    simp only [Function.update_self]
    rw [find?_map_of_isFor]
    · cases hFind : (db.cursors table).find? (CursorRow.isFor network detailKey) with
      | none => rfl
      | some r =>
        have hIs := List.find?_some hFind
        simp only [Option.map_some, Option.some.injEq, hIs, true_and]
        by_cases hLess : r.lastSyncedBlock < toBlock
        · rw [if_pos hLess, Nat.max_eq_left hLess.le]
        · rw [if_neg hLess, Nat.max_eq_right (Nat.not_lt.mp hLess)]
    · intro r
      split <;> rfl
  · cases h

/-- An advance changes no other cursor. -/
theorem cursor_advanceDetailCursor_ne {db db' : Db} {table network detailKey : String}
    {toBlock : Nat} (h : advanceDetailCursor db table network detailKey toBlock = .ok db')
    {table' network' detailKey' : String}
    (hne : ¬(table' = table ∧ network' = network ∧ detailKey' = detailKey)) :
    db'.cursor table' network' detailKey' = db.cursor table' network' detailKey' := by
  unfold advanceDetailCursor at h
  split at h
  · cases h
    unfold Db.cursor Db.setCursors advanceRows
    by_cases hTable : table' = table
    · subst hTable
      simp only [Function.update_self]
      rw [find?_map_of_isFor]
      · cases hFind : (db.cursors table').find? (CursorRow.isFor network' detailKey') with
        | none => rfl
        | some r =>
          have hIs := List.find?_some hFind
          have hOther : r.isFor network detailKey = false := by
            by_contra hBoth
            simp only [CursorRow.isFor, Bool.not_eq_false, Bool.and_eq_true, beq_iff_eq] at hIs hBoth
            exact hne ⟨rfl, hIs.1.symm.trans hBoth.1, hIs.2.symm.trans hBoth.2⟩
          simp [hOther]
      · intro r
        split <;> rfl
    · simp only [Function.update_of_ne hTable]
  · cases h

theorem cursor_insertBulkWithCursor {db db' : Db} {tableName : String} {rows : List EventRow}
    {internalTable network detailKey : String} {toBlock : Nat}
    (h : insertBulkWithCursor db tableName rows internalTable network detailKey toBlock = .ok db') :
    ∀ table' network' detailKey', db'.cursor table' network' detailKey' =
      if table' = internalTable ∧ network' = network ∧ detailKey' = detailKey ∧ rows ≠ [] then
        (db.cursor table' network' detailKey').map (max toBlock)
      else db.cursor table' network' detailKey' := by
  intro table' network' detailKey'
  unfold insertBulkWithCursor at h
  split at h
  · rename_i hNil
    cases h
    simp [hNil]
  · rename_i hRows
    by_cases hSame : table' = internalTable ∧ network' = network ∧ detailKey' = detailKey
    · obtain ⟨rfl, rfl, rfl⟩ := hSame
      have hAdvanced := cursor_advanceDetailCursor h
      rw [if_pos ⟨rfl, rfl, rfl, hRows⟩]
      exact hAdvanced
    · have hKept := cursor_advanceDetailCursor_ne h hSame
      have hNot : ¬(table' = internalTable ∧ network' = network ∧ detailKey' = detailKey ∧
          rows ≠ []) := by
        rintro ⟨hTable, hNetwork, hDetail, -⟩
        exact hSame ⟨hTable, hNetwork, hDetail⟩
      rw [if_neg hNot]
      exact hKept

theorem find?_append_other {row : CursorRow} {network detailKey : String}
    (hne : ¬(network = row.network ∧ detailKey = row.detailKey)) (rows : List CursorRow) :
    (rows ++ [row]).find? (CursorRow.isFor network detailKey) =
      rows.find? (CursorRow.isFor network detailKey) := by
  have hOther : row.isFor network detailKey = false := by
    by_contra hIs
    simp only [CursorRow.isFor, Bool.not_eq_false, Bool.and_eq_true, beq_iff_eq] at hIs
    exact hne ⟨hIs.1.symm, hIs.2.symm⟩
  rw [List.find?_append, List.find?_singleton, hOther]
  simp

/-- A seed leaves every cursor that was there and adds one at zero. -/
theorem cursor_ensureDetailCursor {db db' : Db} {table network detailKey : String}
    (h : ensureDetailCursor db table network detailKey = .ok db')
    (table' network' detailKey' : String) :
    db'.cursor table' network' detailKey' =
      if table' = table ∧ network' = network ∧ detailKey' = detailKey then
        some ((db.cursor table' network' detailKey').getD 0)
      else db.cursor table' network' detailKey' := by
  simp only [ensureDetailCursor] at h
  split at h
  · cases h
  · split at h
    · rename_i hHeld
      cases h
      split
      · rename_i hSame
        obtain ⟨rfl, rfl, rfl⟩ := hSame
        have hSome : ((db.cursors table').find? (CursorRow.isFor network' detailKey')).isSome := by
          rw [List.find?_isSome]
          exact List.any_eq_true.mp hHeld
        obtain ⟨r, hr⟩ := Option.isSome_iff_exists.mp hSome
        simp [Db.cursor, hr]
      · rfl
    · rename_i hMissing
      cases h
      unfold Db.cursor Db.setCursors
      by_cases hTable : table' = table
      · subst hTable
        simp only [Function.update_self]
        by_cases hKey : network' = network ∧ detailKey' = detailKey
        · obtain ⟨rfl, rfl⟩ := hKey
          have hNone : (db.cursors table').find? (CursorRow.isFor network' detailKey') = none := by
            rw [List.find?_eq_none]
            simpa using hMissing
          simp [List.find?_append, hNone, CursorRow.isFor]
        · rw [find?_append_other hKey, if_neg fun hBoth => hKey hBoth.2]
      · rw [if_neg fun hBoth => hTable hBoth.1]
        simp only [Function.update_of_ne hTable]

/-- A rewind sets every cursor of the network in its tables to one block, back or forward. -/
theorem cursor_rewindAll {db db' : Db} {tables : List String} {network : String}
    {rewindBlock : Nat} (h : db'.cursors = rewindAll network rewindBlock tables db.cursors)
    (table' network' detailKey' : String) :
    db'.cursor table' network' detailKey' =
      if table' ∈ tables ∧ network' = network then
        (db.cursor table' network' detailKey').map fun _ => rewindBlock
      else db.cursor table' network' detailKey' := by
  unfold Db.cursor
  rw [h, rewindAll]
  by_cases hTable : table' ∈ tables
  · rw [if_pos hTable, rewindCursors, find?_map_of_isFor]
    · cases hFind : (db.cursors table').find? (CursorRow.isFor network' detailKey') with
      | none => simp
      | some r =>
        have hIs := List.find?_some hFind
        simp only [CursorRow.isFor, Bool.and_eq_true, beq_iff_eq] at hIs
        simp only [Option.map_some, hIs.1, hTable, true_and]
        split <;> rfl
    · intro r
      split <;> rfl
  · rw [if_neg hTable, if_neg fun hBoth => hTable hBoth.1]

end Rindexer.Database
