import Rindexer.Reorg.Persistence
import Rindexer.Reorg.Task

/-! The block hashes after a handled reorg.  A task edits two copies of them with different bounds:
the window is overwritten with the canonical blocks, wherever it reaches, and the persisted rows are
replaced between the fork point and the detection point.  `repaired_iff` says when both end up with
the canonical hashes and nothing else from the fork point on. -/

namespace Rindexer.Reorg

open Rindexer.Lib Rindexer.Database ReorgBlockHashPersistence

/-- The canonical list that a task works from: its pre-fetched blocks, also those out of its range,
or what the provider answers. -/
def ReorgTask.canonicalList (task : ReorgTask) (provider : Option ChainProvider) : List Header :=
  if task.canonicalBlocks ≠ [] then task.canonicalBlocks else task.fetchRange provider

/-- Every window entry from the fork point on carries the hash that the canonical list has for its
height. -/
def Repaired (listed : List Header) (forkPoint : Nat) (w : BlockChainWindow) : Prop :=
  ∀ n hash parentHash, forkPoint ≤ n → w.get n = some (hash, parentHash) →
    ∃ b ∈ listed, b.number = n ∧ b.hash = hash

/-- Loading the persisted block hashes gives the entries of the window from the fork point on. -/
def ReloadAgrees (db : Db) (network : String) (forkPoint : Nat) (w : BlockChainWindow) : Prop :=
  ∃ loaded, load db network w.maxWindowSize = .ok loaded ∧
    ∀ n, forkPoint ≤ n → loaded.get n = w.get n

/-- Every height from the fork point on that the window holds is overwritten by a selected block, or
listed with the very hash that the window holds. -/
def CoversWindow (selected listed : List Header) (forkPoint : Nat) (w : BlockChainWindow) : Prop :=
  ∀ n hash parentHash, forkPoint ≤ n → w.get n = some (hash, parentHash) →
    n ∈ selected.map Header.number ∨ ∃ b ∈ listed, b.number = n ∧ b.hash = hash

/-- When no stale hash survives a task: the window is cut or covered, the rows above the detection
point agree with what the window keeps there, and the rows from the fork point on fit the
window. -/
structure FullRepair (task : ReorgTask) (selected listed : List Header)
    (rows : OrderedMap Nat (B256 × B256)) (w : BlockChainWindow) : Prop where
  covered : selected = [] ∨ CoversWindow selected listed task.forkPoint w
  above : ∀ n, task.detectionPoint < n →
    rows.get? n = if selected = [] then none else w.get n
  fits : selected.length + (rows.keys.filter (task.detectionPoint < ·)).length ≤ w.maxWindowSize

/-- The selected blocks are the listed ones in the range of the task. -/
theorem mem_selectCanonical {task : ReorgTask} {provider : Option ChainProvider} {b : Header} :
    b ∈ task.selectCanonical provider ↔ b ∈ task.canonicalList provider ∧
      task.forkPoint ≤ b.number ∧ b.number ≤ task.detectionPoint := by
  unfold ReorgTask.selectCanonical ReorgTask.canonicalList
  by_cases hFetched : task.canonicalBlocks ≠ []
  · simp [hFetched]
  · rw [if_neg hFetched, if_neg hFetched]
    exact ⟨fun h => ⟨h, fetchRange_range h⟩, fun h => h.1⟩

theorem exists_of_mem_numbers {blocks : List Header} {n : Nat}
    (h : n ∈ blocks.map Header.number) : ∃ b ∈ blocks, b.number = n := by
  obtain ⟨b, hMem, rfl⟩ := List.mem_map.mp h
  exact ⟨b, hMem, rfl⟩

/-! ### The window -/

section Window

variable (task : ReorgTask) {selected : List Header} (w : BlockChainWindow)

theorem repairWindow_maxWindowSize :
    (repairWindow task selected w).maxWindowSize = w.maxWindowSize := by
  unfold repairWindow
  split <;> rfl

theorem repairWindow_get_of_mem (hNodup : (selected.map Header.number).Nodup) {b : Header}
    (h : b ∈ selected) :
    (repairWindow task selected w).get b.number = some (b.hash, b.parentHash) := by
  unfold repairWindow
  rw [if_pos (List.ne_nil_of_mem h)]
  exact BlockChainWindow.get_updateRange_of_mem hNodup h

theorem repairWindow_get_of_notMem {n : Nat} (hFork : task.forkPoint ≤ n)
    (h : n ∉ selected.map Header.number) :
    (repairWindow task selected w).get n = if selected = [] then none else w.get n := by
  unfold repairWindow
  by_cases hNil : selected = []
  · rw [if_neg (by simp [hNil]), if_pos hNil, BlockChainWindow.get_removeFrom, if_neg (by omega)]
  · rw [if_pos hNil, if_neg hNil, BlockChainWindow.get_updateRange_of_notMem h]

theorem repaired_repairWindow_iff {listed : List Header}
    (hNodup : (selected.map Header.number).Nodup) (hListed : ∀ b ∈ selected, b ∈ listed) :
    Repaired listed task.forkPoint (repairWindow task selected w) ↔
      selected = [] ∨ CoversWindow selected listed task.forkPoint w := by
  constructor
  · intro hRepaired
    by_cases hNil : selected = []
    · exact .inl hNil
    · refine .inr fun n hash parentHash hFork hGet => ?_
      by_cases hMem : n ∈ selected.map Header.number
      · exact .inl hMem
      · have hKept := repairWindow_get_of_notMem task w hFork hMem
        rw [if_neg hNil, hGet] at hKept
        exact .inr (hRepaired n hash parentHash hFork hKept)
  · intro hCovered n hash parentHash hFork hGet
    by_cases hMem : n ∈ selected.map Header.number
    · obtain ⟨b, hb, rfl⟩ := exists_of_mem_numbers hMem
      rw [repairWindow_get_of_mem task w hNodup hb] at hGet
      cases hGet
      exact ⟨b, hListed b hb, rfl, rfl⟩
    · rw [repairWindow_get_of_notMem task w hFork hMem] at hGet
      split at hGet
      · cases hGet
      · rename_i hNil
        exact (hCovered.resolve_left hNil n hash parentHash hFork hGet).resolve_left hMem

end Window

/-! ### The persisted rows after the transaction -/

section Rows

variable {rows rows' : OrderedMap Nat (B256 × B256)} {forkPoint detectionPoint : Nat}
  {selected : List Header}

theorem corrected_get_of_mem
    (h : insertCorrected (rows.restrict fun n => !(forkPoint ≤ n && n ≤ detectionPoint))
      selected = .ok rows') {b : Header} (hMem : b ∈ selected) :
    rows'.get? b.number = some (b.hash, b.parentHash) := by
  obtain ⟨_, hNodup, _, rfl⟩ := insertCorrected_ok_iff.mp h
  refine OrderedMap.get?_insertAll_of_mem (by simpa [Function.comp_def] using hNodup) ?_
  exact List.mem_map_of_mem (f := fun b : Header => (b.number, b.hash, b.parentHash)) hMem

theorem corrected_get_of_notMem
    (h : insertCorrected (rows.restrict fun n => !(forkPoint ≤ n && n ≤ detectionPoint))
      selected = .ok rows') {n : Nat} (hNot : n ∉ selected.map Header.number) :
    rows'.get? n = if forkPoint ≤ n ∧ n ≤ detectionPoint then none else rows.get? n := by
  obtain ⟨_, _, _, rfl⟩ := insertCorrected_ok_iff.mp h
  rw [OrderedMap.get?_insertAll_of_notMem (by simpa [Function.comp_def] using hNot),
    OrderedMap.get?_restrict]
  by_cases hIn : forkPoint ≤ n ∧ n ≤ detectionPoint
  · simp [hIn]
  · rw [if_neg hIn, if_pos]
    simpa [Bool.and_eq_false_iff, imp_iff_not_or] using hIn

/-- The heights of the rows from the fork point on: the selected ones, and those that were there
above the detection point. -/
theorem corrected_keys_perm
    (h : insertCorrected (rows.restrict fun n => !(forkPoint ≤ n && n ≤ detectionPoint))
      selected = .ok rows') (hOrder : forkPoint ≤ detectionPoint)
    (hRange : ∀ b ∈ selected, forkPoint ≤ b.number ∧ b.number ≤ detectionPoint) :
    (rows'.keys.filter (forkPoint ≤ ·)).Perm
      (selected.map Header.number ++ rows.keys.filter (detectionPoint < ·)) := by
  have hNodupKeys : ∀ m : OrderedMap Nat (B256 × B256), m.keys.Nodup := fun m =>
    m.keys_ascending.imp fun hlt => Nat.ne_of_lt hlt
  obtain ⟨_, hNodup, _, _⟩ := insertCorrected_ok_iff.mp h
  have hApart : ∀ n ∈ selected.map Header.number, n ≤ detectionPoint := by
    intro n hMem
    obtain ⟨b, hb, rfl⟩ := exists_of_mem_numbers hMem
    exact (hRange b hb).2
  refine (List.perm_ext_iff_of_nodup ((hNodupKeys rows').filter _) ?_).mpr fun n => ?_
  · refine List.nodup_append.mpr ⟨hNodup, (hNodupKeys rows).filter _, fun a ha b hb => ?_⟩
    have hLow := hApart a ha
    have hHigh : detectionPoint < b := by simpa using (List.mem_filter.mp hb).2
    omega
  · simp only [List.mem_filter, List.mem_append, OrderedMap.mem_keys, decide_eq_true_eq]
    by_cases hMem : n ∈ selected.map Header.number
    · obtain ⟨b, hb, rfl⟩ := exists_of_mem_numbers hMem
      simp only [hMem, true_or, iff_true]
      exact ⟨⟨_, corrected_get_of_mem h hb⟩, (hRange b hb).1⟩
    · rw [corrected_get_of_notMem h hMem]
      simp only [hMem, false_or]
      constructor
      · rintro ⟨⟨v, hv⟩, hFork⟩
        split at hv
        · cases hv
        · exact ⟨⟨v, hv⟩, by omega⟩
      · rintro ⟨hv, hAbove⟩
        rw [if_neg (by omega)]
        exact ⟨hv, by omega⟩

end Rows

/-! ### Reloading -/

section Reload

variable {task : ReorgTask} {selected listed : List Header} {db : Db}
  {rows : OrderedMap Nat (B256 × B256)} {w : BlockChainWindow}

theorem reloadAgrees_of_fullRepair (hNetwork : validateSqlValue task.network = true)
    (hOrder : task.forkPoint ≤ task.detectionPoint)
    (hSelected : ∀ b, b ∈ selected ↔
      b ∈ listed ∧ task.forkPoint ≤ b.number ∧ b.number ≤ task.detectionPoint)
    (hInserted : insertCorrected
      (rows.restrict fun n => !(task.forkPoint ≤ n && n ≤ task.detectionPoint)) selected =
        .ok (db.blockHashes task.network))
    (hFull : FullRepair task selected listed rows w) :
    ReloadAgrees db task.network task.forkPoint (repairWindow task selected w) := by
  obtain ⟨loaded, hLoad⟩ := load_succeeds db hNetwork w.sizePositive
  refine ⟨loaded, repairWindow_maxWindowSize task w ▸ hLoad, fun n hFork => ?_⟩
  obtain ⟨_, hNodup, _, _⟩ := insertCorrected_ok_iff.mp hInserted
  have hCount := (corrected_keys_perm hInserted hOrder fun b hb => ((hSelected b).mp hb).2).length_eq
  have hFits := hFull.fits
  rw [List.length_append, List.length_map] at hCount
  have hSize : (db.blockHashes task.network).keys.length = (db.blockHashes task.network).size :=
    List.length_map _
  -- Every row from the fork point on is among those that the load keeps.
  have hLoaded : loaded.get n = (db.blockHashes task.network).get? n := by
    rw [BlockChainWindow.get, (load_ok hLoad).2]
    apply OrderedMap.get?_dropFirst_of_count
    have hMono : ((db.blockHashes task.network).keys.filter (n ≤ ·)).length ≤
        ((db.blockHashes task.network).keys.filter (task.forkPoint ≤ ·)).length := by
      refine (List.monotone_filter_right _ fun k hk => ?_).length_le
      have : n ≤ k := by simpa using hk
      simp only [decide_eq_true_eq]
      omega
    have hAll := List.length_filter_le (n ≤ ·) (db.blockHashes task.network).keys
    omega
  rw [hLoaded]
  by_cases hMem : n ∈ selected.map Header.number
  · obtain ⟨b, hb, rfl⟩ := exists_of_mem_numbers hMem
    rw [corrected_get_of_mem hInserted hb, repairWindow_get_of_mem task w hNodup hb]
  · rw [corrected_get_of_notMem hInserted hMem, repairWindow_get_of_notMem task w hFork hMem]
    by_cases hIn : n ≤ task.detectionPoint
    · rw [if_pos ⟨hFork, hIn⟩]
      split
      · rfl
      · rename_i hNil
        by_contra hHeld
        obtain ⟨e, hGet⟩ := Option.ne_none_iff_exists'.mp (Ne.symm hHeld)
        rcases hFull.covered.resolve_left hNil n e.1 e.2 hFork hGet with h | ⟨b, hb, rfl, _⟩
        · exact hMem h
        · exact hMem (List.mem_map_of_mem ((hSelected b).mpr ⟨hb, hFork, hIn⟩))
    · rw [if_neg (by omega), hFull.above n (by omega)]

/-- Where a load agrees with the repaired window, it has lost no row from the fork point on. -/
theorem reload_keeps
    (hRange : ∀ b ∈ selected, task.forkPoint ≤ b.number ∧ b.number ≤ task.detectionPoint)
    (hInserted : insertCorrected
      (rows.restrict fun n => !(task.forkPoint ≤ n && n ≤ task.detectionPoint)) selected =
        .ok (db.blockHashes task.network))
    {j : Nat} (hDrop : 0 < (db.blockHashes task.network).size →
      j < (db.blockHashes task.network).size)
    (hSame : ∀ n, task.forkPoint ≤ n →
      ((db.blockHashes task.network).dropFirst j).get? n = (repairWindow task selected w).get n)
    {n : Nat} (hFork : task.forkPoint ≤ n) :
    ((db.blockHashes task.network).dropFirst j).get? n = (db.blockHashes task.network).get? n := by
  obtain ⟨_, hNodup, _, _⟩ := insertCorrected_ok_iff.mp hInserted
  have hKept : ∀ b ∈ selected, ((db.blockHashes task.network).dropFirst j).get? b.number =
      some (b.hash, b.parentHash) := by
    intro b hb
    rw [hSame b.number (hRange b hb).1, repairWindow_get_of_mem task w hNodup hb]
  by_cases hMem : n ∈ selected.map Header.number
  · obtain ⟨b, hb, rfl⟩ := exists_of_mem_numbers hMem
    rw [hKept b hb, corrected_get_of_mem hInserted hb]
  cases hHeld : (db.blockHashes task.network).get? n with
  | none =>
    by_contra hLeft
    obtain ⟨v, hv⟩ := Option.ne_none_iff_exists'.mp hLeft
    rw [OrderedMap.get?_of_get?_dropFirst hv] at hHeld
    cases hHeld
  | some v =>
    have hAbove : task.detectionPoint < n := by
      have hGet := corrected_get_of_notMem hInserted hMem
      rw [hHeld] at hGet
      split at hGet
      · cases hGet
      · omega
    rw [← hHeld]
    cases hSelected : selected with
    | cons b rest =>
      -- A selected block lies below `n` and is kept.
      have hb : b ∈ selected := hSelected ▸ List.mem_cons_self
      have hLow := hRange b hb
      exact OrderedMap.get?_dropFirst_of_le (hKept b hb) (by omega)
    | nil =>
      -- The greatest row is kept, but the window is cut.
      have hKey := OrderedMap.mem_keys.mpr ⟨v, hHeld⟩
      have hSize : 0 < (db.blockHashes task.network).size := by
        have hPos := List.length_pos_of_mem hKey
        rwa [OrderedMap.keys, List.length_map] at hPos
      have hNonempty : (db.blockHashes task.network).last? ≠ none := by
        rw [Ne, OrderedMap.last?_eq_none_iff]
        omega
      obtain ⟨last, hLast⟩ := Option.ne_none_iff_exists'.mp hNonempty
      have hBelow := OrderedMap.le_last? hLast hKey
      have hLastFork : task.forkPoint ≤ last := hFork.trans hBelow
      obtain ⟨e, hLoaded⟩ := OrderedMap.get?_dropFirst_last hLast (hDrop hSize)
      have hCut := repairWindow_get_of_notMem task w hLastFork
        (show last ∉ selected.map Header.number by simp [hSelected])
      rw [← hSame last hLastFork, hLoaded, if_pos hSelected] at hCut
      cases hCut

theorem fullRepair_of_reloadAgrees (hOrder : task.forkPoint ≤ task.detectionPoint)
    (hRange : ∀ b ∈ selected, task.forkPoint ≤ b.number ∧ b.number ≤ task.detectionPoint)
    (hInserted : insertCorrected
      (rows.restrict fun n => !(task.forkPoint ≤ n && n ≤ task.detectionPoint)) selected =
        .ok (db.blockHashes task.network))
    (hCovered : selected = [] ∨ CoversWindow selected listed task.forkPoint w)
    (hAgrees : ReloadAgrees db task.network task.forkPoint (repairWindow task selected w)) :
    FullRepair task selected listed rows w := by
  obtain ⟨loaded, hLoad, hSame⟩ := hAgrees
  obtain ⟨-, hEntries⟩ := load_ok hLoad
  rw [repairWindow_maxWindowSize] at hEntries
  have hPositive := w.sizePositive
  have hWindow : ∀ n, task.forkPoint ≤ n →
      (db.blockHashes task.network).get? n = (repairWindow task selected w).get n := by
    intro n hFork
    rw [← hSame n hFork, BlockChainWindow.get, hEntries]
    refine (reload_keeps (w := w) hRange hInserted (fun _ => by omega) (fun k hk => ?_) hFork).symm
    rw [← hSame k hk, BlockChainWindow.get, hEntries]
  refine ⟨hCovered, fun n hAbove => ?_, ?_⟩
  · have hMem : n ∉ selected.map Header.number := by
      intro hListed
      obtain ⟨b, hb, rfl⟩ := exists_of_mem_numbers hListed
      have hHigh := (hRange b hb).2
      omega
    rw [← repairWindow_get_of_notMem task w (by omega) hMem, ← hWindow n (by omega),
      corrected_get_of_notMem hInserted hMem, if_neg (by omega)]
  · have hCount := (corrected_keys_perm hInserted hOrder hRange).length_eq
    rw [List.length_append, List.length_map] at hCount
    have hSubset : (db.blockHashes task.network).keys.filter (task.forkPoint ≤ ·) ⊆
        loaded.entries.keys := by
      intro n hn
      obtain ⟨hKey, hLe⟩ := List.mem_filter.mp hn
      have hFork : task.forkPoint ≤ n := by simpa using hLe
      obtain ⟨v, hv⟩ := OrderedMap.mem_keys.mp hKey
      rw [hWindow n hFork, ← hSame n hFork] at hv
      exact OrderedMap.mem_keys.mpr ⟨v, hv⟩
    have hKeysNodup : ((db.blockHashes task.network).keys.filter (task.forkPoint ≤ ·)).Nodup :=
      ((db.blockHashes task.network).keys_ascending.imp fun hlt => Nat.ne_of_lt hlt).filter _
    have hLength := (List.subperm_of_subset hKeysNodup hSubset).length_le
    have hKeys : loaded.entries.keys.length = loaded.entries.size := List.length_map _
    have hSize : loaded.entries.size ≤ w.maxWindowSize := by
      rw [hEntries, OrderedMap.size_dropFirst]
      omega
    omega

end Reload

/-- After an execution that succeeds, the window holds only canonical hashes from the fork point on
and a load gives the same entries there, exactly when `FullRepair` held before it. -/
theorem repaired_iff {pg : Postgres} {sessions : Nat → Option Nat} {task : ReorgTask}
    {provider : Option ChainProvider} {m m' : Machine} {w w' : BlockChainWindow}
    (hOrder : task.forkPoint ≤ task.detectionPoint)
    (h : task.execute pg sessions provider m w = (m', w', none)) :
    (Repaired (task.canonicalList provider) task.forkPoint w' ∧
      ReloadAgrees m'.db task.network task.forkPoint w') ↔
    FullRepair task (task.selectCanonical provider) (task.canonicalList provider)
      (m.db.blockHashes task.network) w := by
  obtain ⟨hNetwork, rfl, db1, db2, hBefore, hAfter, hCommit⟩ := execute_ok h
  have hInserted := hCommit.inserted
  rw [hBefore.blockHashes, ← hAfter.blockHashes] at hInserted
  obtain ⟨_, hNodup, _, _⟩ := insertCorrected_ok_iff.mp hInserted
  rw [repaired_repairWindow_iff task w hNodup fun b hb => (mem_selectCanonical.mp hb).1]
  constructor
  · rintro ⟨hCovered, hAgrees⟩
    exact fullRepair_of_reloadAgrees hOrder (fun b hb => (mem_selectCanonical.mp hb).2) hInserted
      hCovered hAgrees
  · intro hFull
    exact ⟨hFull.covered, reloadAgrees_of_fullRepair hNetwork hOrder
      (fun b => mem_selectCanonical) hInserted hFull⟩

/-- Blocks 10 to 12, as a window saw them before a reorg of 11 and 12. -/
def staleRows : OrderedMap Nat (B256 × B256) :=
  (∅ : OrderedMap Nat (B256 × B256)).insertAll [(10, 10, 9), (11, 11, 10), (12, 12, 11)]

def staleWindow : BlockChainWindow := ⟨staleRows, 100, hundred_pos⟩

def staleMachine : Machine where
  db := { Db.empty with blockHashes := fun _ => staleRows }
  temps := []
  eventsDeleted := 0
  affectedTxHashes := []

/-- A task that block 12 detects, with the canonical blocks that the fork search was answered. -/
def taskAtTwelve (canonicalBlocks : List Header) : ReorgTask where
  network := "ethereum"
  forkPoint := 11
  detectionPoint := 12
  eventTables := []
  derivedTables := []
  canonicalBlocks := canonicalBlocks

/-- The task when the node has both blocks. -/
def answeredTask : ReorgTask := taskAtTwelve [⟨11, 21, 10⟩, ⟨12, 22, 21⟩]

theorem staleRows_held {n : Nat} (h : staleRows.get? n ≠ none) : n ∈ [10, 11, 12] := by
  have hKeys : staleRows.keys = [10, 11, 12] := by decide
  rw [← hKeys]
  exact not_not.mp (mt OrderedMap.get?_eq_none_iff.mpr h)

theorem repaired_iff_answered :
    ∃ m' w', answeredTask.execute .plain some none staleMachine staleWindow = (m', w', none) ∧
      Repaired (answeredTask.canonicalList none) answeredTask.forkPoint w' ∧
      ReloadAgrees m'.db answeredTask.network answeredTask.forkPoint w' := by
  have hFull : FullRepair answeredTask (answeredTask.selectCanonical none)
      (answeredTask.canonicalList none) (staleMachine.db.blockHashes answeredTask.network)
      staleWindow := by
    refine ⟨.inr fun n hash parentHash hFork hGet => .inl ?_, fun n hAbove => ?_, by decide⟩
    · have hHeld := staleRows_held (show staleRows.get? n ≠ none from by
        rw [show staleRows.get? n = some (hash, parentHash) from hGet]; simp)
      have hNumbers : (answeredTask.selectCanonical none).map Header.number = [11, 12] := by decide
      have hLow : 11 ≤ n := hFork
      simp only [List.mem_cons, List.not_mem_nil, or_false] at hHeld
      rw [hNumbers]
      simp only [List.mem_cons, List.not_mem_nil, or_false]
      omega
    · rw [if_neg (by decide)]
      rfl
  have hDone : answeredTask.execute .plain some none staleMachine staleWindow =
      (_, _, none) := rfl
  exact ⟨_, _, hDone, (repaired_iff (by decide) hDone).mpr hFull⟩

/-- A node that answers block 12 with null leaves the stale hash of block 12 in the window. -/
theorem stale_survives_null_block :
    ¬ ∀ (pg : Postgres) (sessions : Nat → Option Nat) (task : ReorgTask) (provider : Option ChainProvider)
        (m m' : Machine) (w w' : BlockChainWindow), task.forkPoint ≤ task.detectionPoint →
      task.execute pg sessions provider m w = (m', w', none) →
      Repaired (task.canonicalList provider) task.forkPoint w' ∧
        ReloadAgrees m'.db task.network task.forkPoint w' := by
  intro hClaim
  have hRepaired := (hClaim .plain some (taskAtTwelve [⟨11, 21, 10⟩]) none staleMachine _ staleWindow
    _ (by decide) rfl).1
  obtain ⟨b, hMem, hNumber, -⟩ := hRepaired 12 12 11 (by decide) (by decide)
  have hOnly : b = ⟨11, 21, 10⟩ := List.mem_singleton.mp hMem
  rw [hOnly] at hNumber
  exact absurd hNumber (by decide)

end Rindexer.Reorg
