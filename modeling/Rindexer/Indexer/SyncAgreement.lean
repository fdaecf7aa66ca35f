import Rindexer.Indexer.LastSynced

/-! When writing and reading the last synced block agree: a read returns at least what was written and
what an earlier read returned. -/

namespace Rindexer.Indexer

open Rindexer.Database Rindexer.Lib

section Stored

variable (naming : Naming) (config : StorageConfig)

/-- A read has a table to read, whose keys are of one kind with the detail's, or files with numbers. -/
def Readable (x : EventDetail) (store : SyncStore) : Prop :=
  if config.postgres then
    ∃ table, postgresTable naming x.indexerName x.contractName x.eventName = some table ∧
      validateExactCursorIdentity x.detailKey
        (((store.db.cursors table).filter fun r => r.network == x.network).map
          CursorRow.detailKey) = true
  else if config.clickhouse then
    ∃ table, clickhouseTable naming x.indexerName x.contractName x.eventName = some table ∧
      validateExactCursorIdentity x.detailKey (store.clickhouse.detailKeys table x.network) = true
  else ∀ path text, store.files path ≠ .other text

theorem getLastSyncedBlock_of_readable {x : EventDetail} {store : SyncStore}
    (h : Readable naming config x store) :
    ∃ value store', getLastSyncedBlock naming config x store = .ok (value, store') := by
  unfold Readable at h
  unfold getLastSyncedBlock
  by_cases hPostgres : config.postgres = true
  · rw [if_pos hPostgres] at h ⊢
    obtain ⟨table, hTable, hValid⟩ := h
    have hSeed : ∃ db, ensureDetailCursor store.db table x.network x.detailKey = .ok db := by
      simp only [ensureDetailCursor, hValid, Bool.not_true, Bool.false_eq_true, if_false]
      split
      · exact ⟨_, rfl⟩
      · exact ⟨_, rfl⟩
    obtain ⟨db, hSeed⟩ := hSeed
    have hCursor := cursor_ensureDetailCursor hSeed table x.network x.detailKey
    rw [if_pos ⟨rfl, rfl, rfl⟩] at hCursor
    simp only [hTable, getLastSyncedBlockNumber, hSeed, hCursor]
    exact ⟨_, _, rfl⟩
  rw [if_neg hPostgres] at h ⊢
  by_cases hClickhouse : config.clickhouse = true
  · rw [if_pos hClickhouse] at h ⊢
    obtain ⟨table, hTable, hValid⟩ := h
    simp only [hTable, hValid, Bool.not_true, Bool.false_eq_true, if_false]
    have hRow : ∃ block, Clickhouse.cursor (if x.detailKey ∈
        store.clickhouse.detailKeys table x.network then store
        else store.insertCursor table x.network x.detailKey 0).clickhouse table x.network
          x.detailKey = some block := by
      rw [← Option.isSome_iff_exists, Clickhouse.cursor, finalCursor_isSome]
      split
      next hExisting => exact hExisting
      next =>
        rw [mem_finalKeys]
        refine ⟨⟨x.network, x.detailKey, 0⟩, ?_, rfl, rfl⟩
        simp [SyncStore.insertCursor, SyncStore.setClickhouse]
    obtain ⟨block, hBlock⟩ := hRow
    rw [hBlock]
    exact ⟨_, _, rfl⟩
  rw [if_neg hClickhouse] at h ⊢
  have hFile : ∀ path, ∃ value store', readDetailFile naming x store path = .ok (value, store') := by
    intro path
    rw [readDetailFile, getLastSyncedBlockNumberFile]
    cases hContent : store.files (detailFile naming path x) with
    | missing => exact ⟨_, _, rfl⟩
    | empty => exact ⟨_, _, rfl⟩
    | number n => exact ⟨_, _, rfl⟩
    | other text => exact absurd hContent (h _ text)
  split
  · exact hFile _
  · split
    · exact hFile _
    · exact ⟨_, _, rfl⟩

theorem validateExactCursorIdentity_iff {requested : String} {existing : List String} :
    validateExactCursorIdentity requested existing = true ↔
      ∀ key ∈ existing, key = legacyDetailKey ↔ requested = legacyDetailKey := by
  rw [validateExactCursorIdentity]
  by_cases hLegacy : requested = legacyDetailKey
  · simp [hLegacy]
  · simp [hLegacy]

theorem detailKeys_advanceRows (network detailKey network' : String) (toBlock : Nat)
    (rows : List CursorRow) :
    ((advanceRows network detailKey toBlock rows).filter fun r => r.network == network').map
        CursorRow.detailKey =
      (rows.filter fun r => r.network == network').map CursorRow.detailKey := by
  induction rows with
  | nil => rfl
  | cons row rows ih =>
    have hRow : ∀ row' : CursorRow, row'.network = row.network → row'.detailKey = row.detailKey →
        ((row' :: advanceRows network detailKey toBlock rows).filter
          fun r => r.network == network').map CursorRow.detailKey =
        ((row :: rows).filter fun r => r.network == network').map CursorRow.detailKey := by
      intro row' hNetwork hKey
      rw [List.filter_cons, List.filter_cons, hNetwork]
      split
      · rw [List.map_cons, List.map_cons, ih, hKey]
      · exact ih
    rw [advanceRows, List.map_cons]
    split
    · exact hRow _ rfl rfl
    · exact hRow _ rfl rfl

theorem cursors_advance {store store' : SyncStore} {table network detailKey : String}
    {toBlock : Nat} (h : (advanceDetailCursor store.db table network detailKey toBlock).map
      store.setDb = .ok store') :
    ((store'.db.cursors table).filter fun r => r.network == network).map CursorRow.detailKey =
      ((store.db.cursors table).filter fun r => r.network == network).map CursorRow.detailKey := by
  unfold advanceDetailCursor at h
  split at h
  · obtain rfl := Except.ok.inj h
    simp only [SyncStore.setDb, Db.setCursors, Function.update_self]
    exact detailKeys_advanceRows _ _ _ _ _
  · cases h

theorem updateFile_numbers {path : List String} {toBlock : Nat} {store store' : SyncStore}
    (h : updateLastSyncedBlockNumberForFile path toBlock store = .ok store')
    (hNumbers : ∀ path text, store.files path ≠ .other text) :
    ∀ path text, store'.files path ≠ .other text := by
  have hSet : ∀ path' text, (store.setFile path (.number toBlock)).files path' ≠ .other text := by
    intro path' text
    by_cases hPath : path' = path
    · subst hPath
      simp [SyncStore.setFile]
    · simpa [SyncStore.setFile, Function.update_of_ne hPath] using hNumbers path' text
  unfold updateLastSyncedBlockNumberForFile at h
  split at h
  · cases h
  · exact Except.ok.inj h ▸ hSet
  · split at h
    · exact Except.ok.inj h ▸ hSet
    · exact Except.ok.inj h ▸ hNumbers

/-- A write leaves its detail readable. -/
theorem readable_update {x : EventDetail} {toBlock : Nat} {store store' : SyncStore}
    (h : updateProgressAndLastSyncedTask naming config x toBlock store = .ok store')
    (hReadable : Readable naming config x store) : Readable naming config x store' := by
  unfold updateProgressAndLastSyncedTask at h
  unfold Readable at hReadable ⊢
  by_cases hPostgres : config.postgres = true
  · rw [if_pos hPostgres] at h hReadable ⊢
    obtain ⟨table, hTable, hValid⟩ := hReadable
    rw [hTable] at h
    exact ⟨table, hTable, by rw [cursors_advance h, hValid]⟩
  rw [if_neg hPostgres] at h hReadable ⊢
  by_cases hClickhouse : config.clickhouse = true
  · rw [if_pos hClickhouse] at h hReadable ⊢
    obtain ⟨table, hTable, hValid⟩ := hReadable
    rw [hTable] at h
    obtain rfl := Except.ok.inj h
    refine ⟨table, hTable, validateExactCursorIdentity_iff.mpr fun key hKey => ?_⟩
    obtain ⟨row, hRow, hNetwork, hName⟩ := mem_finalKeys.mp hKey
    simp only [SyncStore.insertCursor, SyncStore.setClickhouse, Clickhouse.cursorRows_setCursorRows,
      Function.update_self, List.mem_append, List.mem_singleton] at hRow
    rcases hRow with hRow | rfl
    · exact validateExactCursorIdentity_iff.mp hValid key
        (mem_finalKeys.mpr ⟨row, hRow, hNetwork, hName⟩)
    · rw [← hName]
  rw [if_neg hClickhouse] at h hReadable ⊢
  split at h
  · exact updateFile_numbers h hReadable
  · split at h
    · exact updateFile_numbers h hReadable
    · exact Except.ok.inj h ▸ hReadable

theorem readable_updateTrace {indexerName network : String} {toBlock : Nat}
    {store store' : SyncStore}
    (h : evmTraceUpdateProgressAndLastSyncedTask naming (startTraceConfig config indexerName network)
      toBlock store = .ok store') (hPostgres : config.postgres = true)
    (hReadable : Readable naming config (traceDetail indexerName network) store) :
    Readable naming config (traceDetail indexerName network) store' := by
  have hTrace : (startTraceConfig config indexerName network).postgres = true := hPostgres
  rw [evmTraceUpdateProgressAndLastSyncedTask] at h
  simp only [hTrace, if_true] at h
  dsimp only [startTraceConfig] at h
  rw [postgresTable_native_transfer] at h
  unfold Readable at hReadable ⊢
  rw [if_pos hPostgres] at hReadable ⊢
  obtain ⟨table, hTable, hValid⟩ := hReadable
  rw [traceDetail] at hTable hValid
  rw [hTable] at h
  exact ⟨table, hTable, by rw [traceDetail, cursors_advance h, hValid]⟩

/-! ### Runs -/

/-- A call, of any detail or network. -/
inductive SyncCall
  | update (x : EventDetail) (toBlock : Nat)
  | updateTrace (indexerName network : String) (toBlock : Nat)
  | read (x : EventDetail)

/-- The store after a call.  An error leaves it as it was. -/
def syncStep (store : SyncStore) : SyncCall → Option SyncStore
  | .update x toBlock =>
    some ((updateProgressAndLastSyncedTask naming config x toBlock store).toOption.getD store)
  | .updateTrace indexerName network toBlock =>
    some ((evmTraceUpdateProgressAndLastSyncedTask naming (startTraceConfig config indexerName network)
      toBlock store).toOption.getD store)
  | .read x => some (((getLastSyncedBlock naming config x store).toOption.map Prod.snd).getD store)

theorem syncStep_grows {store store' : SyncStore} {call : SyncCall}
    (h : syncStep naming config store call = some store') : Grows store store' := by
  cases call with
  | update x toBlock =>
    obtain rfl := Option.some.inj h
    cases hUpdate : updateProgressAndLastSyncedTask naming config x toBlock store with
    | error e => exact Grows.refl store
    | ok after => exact (updateProgress_spec naming config hUpdate).1
  | updateTrace indexerName network toBlock =>
    obtain rfl := Option.some.inj h
    cases hUpdate : evmTraceUpdateProgressAndLastSyncedTask naming
        (startTraceConfig config indexerName network) toBlock store with
    | error e => exact Grows.refl store
    | ok after => exact (updateTrace_spec naming config hUpdate).1
  | read x =>
    obtain rfl := Option.some.inj h
    cases hRead : getLastSyncedBlock naming config x store with
    | error e => exact Grows.refl store
    | ok pair => exact (getLastSyncedBlock_spec naming config hRead).1

theorem run_grows {store store' : SyncStore} {calls : List SyncCall}
    (h : run (syncStep naming config) store calls = some store') : Grows store store' := by
  induction calls generalizing store with
  | nil =>
    obtain rfl := Option.some.inj h
    exact Grows.refl store
  | cons call calls ih =>
    obtain ⟨mid, hStep, hRest⟩ := Option.bind_eq_some_iff.mp h
    exact (syncStep_grows naming config hStep).trans (ih hRest)

/-- The writes of `blocks`, each of which returns. -/
def writeAll (write : Nat → SyncStore → Except String SyncStore) :
    List Nat → SyncStore → Except String SyncStore
  | [], store => .ok store
  | toBlock :: blocks, store =>
    match write toBlock store with
    | .error e => .error e
    | .ok store => writeAll write blocks store

/-- A read after `write` returns at least the largest block written, and never less than an earlier
read, whatever calls come between. -/
structure Agrees (write : Nat → SyncStore → Except String SyncStore) (x : EventDetail) : Prop where
  returns : ∀ blocks before after, Readable naming config x before →
    writeAll write blocks before = .ok after →
      ∃ value store, getLastSyncedBlock naming config x after = .ok (value, store) ∧
        ∀ toBlock ∈ blocks, toBlock ≤ value.getD 0
  afterWrite : ∀ toBlock calls before written after value store, write toBlock before = .ok written →
    run (syncStep naming config) written calls = some after →
      getLastSyncedBlock naming config x after = .ok (value, store) → toBlock ≤ value.getD 0
  afterRead : ∀ calls before read after value1 value2 store,
    getLastSyncedBlock naming config x before = .ok (value1, read) →
      run (syncStep naming config) read calls = some after →
        getLastSyncedBlock naming config x after = .ok (value2, store) →
          value1.getD 0 ≤ value2.getD 0

/-- Writes and reads agree if a write stores its block where the read looks and leaves the detail
readable. -/
theorem agrees_of_write {write : Nat → SyncStore → Except String SyncStore} {x : EventDetail}
    (hWrite : ∀ toBlock before after, write toBlock before = .ok after →
      Grows before after ∧ toBlock ≤ storedBlock naming config x after)
    (hReadable : ∀ toBlock before after, write toBlock before = .ok after →
      Readable naming config x before → Readable naming config x after) :
    Agrees naming config write x := by
  have hWrites : ∀ blocks before after, writeAll write blocks before = .ok after →
      Readable naming config x before → Readable naming config x after ∧
        storedBlock naming config x before ≤ storedBlock naming config x after ∧
          ∀ toBlock ∈ blocks, toBlock ≤ storedBlock naming config x after := by
    intro blocks
    induction blocks with
    | nil =>
      intro before after h hBefore
      obtain rfl := Except.ok.inj h
      exact ⟨hBefore, Nat.le_refl _, fun _ hb => absurd hb List.not_mem_nil⟩
    | cons toBlock blocks ih =>
      intro before after h hBefore
      rw [writeAll] at h
      split at h
      · cases h
      next mid hFirst =>
        obtain ⟨hGrows, hBlock⟩ := hWrite toBlock before mid hFirst
        obtain ⟨hAfter, hMono, hRest⟩ := ih mid after h (hReadable toBlock before mid hFirst hBefore)
        refine ⟨hAfter, Nat.le_trans (hGrows.storedBlock naming config x) hMono, fun b hb => ?_⟩
        rcases List.mem_cons.mp hb with rfl | hb
        · exact Nat.le_trans hBlock hMono
        · exact hRest b hb
  refine ⟨?_, ?_, ?_⟩
  · intro blocks before after hBefore h
    obtain ⟨hAfter, -, hBlocks⟩ := hWrites blocks before after h hBefore
    obtain ⟨value, store, hRead⟩ := getLastSyncedBlock_of_readable naming config hAfter
    refine ⟨value, store, hRead, fun b hb => ?_⟩
    rw [(getLastSyncedBlock_spec naming config hRead).2]
    exact hBlocks b hb
  · intro toBlock calls before written after value store h hRun hRead
    rw [(getLastSyncedBlock_spec naming config hRead).2]
    exact Nat.le_trans (hWrite toBlock before written h).2
      ((run_grows naming config hRun).storedBlock naming config x)
  · intro calls before read after value1 value2 store hRead1 hRun hRead2
    obtain ⟨hGrows, hValue⟩ := getLastSyncedBlock_spec naming config hRead1
    rw [hValue, (getLastSyncedBlock_spec naming config hRead2).2]
    exact (hGrows.trans (run_grows naming config hRun)).storedBlock naming config x

/-- Nothing stored yet. -/
def SyncStore.empty : SyncStore := ⟨Db.empty, ⟨fun _ => ⟨[], []⟩, fun _ => [], fun _ _ => none⟩,
  fun _ => .missing⟩

/-- Another storage is read than the one that was written. -/
theorem not_agrees_of_not_reads {x : EventDetail} (h : ¬ReadsWhatItWrites config x.contractName) :
    ¬Agrees naming config (updateProgressAndLastSyncedTask naming config x) x := by
  intro hAgrees
  unfold ReadsWhatItWrites at h
  rw [not_or, not_or] at h
  obtain ⟨hPostgres, hClickhouse, hStorage⟩ := h
  have hLost : ∀ written, updateProgressAndLastSyncedTask naming config x 1 .empty = .ok written →
      getLastSyncedBlock naming config x written = .ok (none, written) → False := by
    intro written hWrite hRead
    have hBlock := hAgrees.afterWrite 1 [] .empty written written none written hWrite rfl hRead
    exact absurd hBlock (by decide)
  unfold updateProgressAndLastSyncedTask getLastSyncedBlock at hLost
  simp only [if_neg hPostgres, if_neg hClickhouse] at hLost
  cases hCsv : config.csv with
  | none =>
    simp only [hCsv, ne_eq, not_not] at hStorage
    simp only [hCsv, hStorage] at hLost
    exact hLost .empty rfl trivial
  | some csv =>
    simp only [hCsv, not_or, Bool.not_eq_true] at hStorage
    obtain ⟨hDisabled, hStreams⟩ := hStorage
    simp only [hCsv, hDisabled] at hLost
    cases hPath : config.streamsPath x.contractName with
    | none =>
      simp only [hPath] at hLost
      exact hLost _ rfl trivial
    | some path =>
      simp only [hPath] at hLost
      apply hLost _ rfl
      have hOther : detailFile naming path x ≠ detailFile naming csv.fullPath x := by
        intro hSame
        apply hStreams
        rw [hPath, (List.cons.inj hSame).1]
      simp only [readDetailFile, getLastSyncedBlockNumberFile, SyncStore.setFile, SyncStore.empty,
        Function.update_of_ne hOther]
      rfl

/-! ### Native transfers -/

theorem clickhouseTable_traces (indexerName : String) :
    clickhouseTable naming indexerName nativeTransferContractName "NativeTransfer" = none ↔
      Panics naming.classes indexerName.toList := by
  have hContract : ¬Panics naming.classes nativeTransferContractName.toList :=
    not_panics_of_ascii _ (by decide)
  have hEvent : ¬Panics naming.classes "NativeTransfer".toList :=
    not_panics_of_ascii _ (by decide)
  rw [clickhouseTable, Option.map_eq_none_iff, ← camelToSnake_eq_none_iff]
  simp only [generateIndexerContractSchemaName, generateInternalEventTableNameNoShorten,
    camelToSnake_of_not_panics _ hContract, camelToSnake_of_not_panics _ hEvent, Option.map_some]
  cases camelToSnake naming.classes indexerName.toList with
  | none => exact ⟨fun _ => rfl, fun _ => rfl⟩
  | some name =>
    rw [Option.bind_some, Option.bind_some]
    exact iff_of_false (Option.some_ne_none _) (Option.some_ne_none _)

theorem storedBlock_empty (x : EventDetail) : storedBlock naming config x .empty = 0 := by
  unfold storedBlock
  split
  · split <;> rfl
  · split
    · split <;> rfl
    · split
      · rfl
      · split <;> rfl

/-- Without Postgres the pipeline stores nothing. -/
theorem agrees_traces_of_not_postgres {indexerName network : String}
    (hPostgres : ¬config.postgres = true) :
    Agrees naming config (evmTraceUpdateProgressAndLastSyncedTask naming
        (startTraceConfig config indexerName network)) (traceDetail indexerName network) ↔
      config.clickhouse = true ∧ Panics naming.classes indexerName.toList := by
  have hWrite : ∀ toBlock store, evmTraceUpdateProgressAndLastSyncedTask naming
      (startTraceConfig config indexerName network) toBlock store = .ok store := by
    intro toBlock store
    exact if_neg hPostgres
  constructor
  · intro hAgrees
    by_contra hNot
    have hReadable : Readable naming config (traceDetail indexerName network) .empty := by
      unfold Readable
      rw [if_neg hPostgres]
      split
      next hClickhouse =>
        have hTable : clickhouseTable naming indexerName nativeTransferContractName
            "NativeTransfer" ≠ none := by
          rw [ne_eq, clickhouseTable_traces]
          exact fun hPanics => hNot ⟨hClickhouse, hPanics⟩
        obtain ⟨table, hTable⟩ := Option.ne_none_iff_exists'.mp hTable
        exact ⟨table, hTable, rfl⟩
      next =>
        intro path text h
        cases h
    obtain ⟨value, store, hRead⟩ := getLastSyncedBlock_of_readable naming config hReadable
    have hBlock := hAgrees.afterWrite 1 [] .empty .empty .empty value store (hWrite 1 .empty) rfl hRead
    rw [(getLastSyncedBlock_spec naming config hRead).2, storedBlock_empty] at hBlock
    exact absurd hBlock (by decide)
  · rintro ⟨hClickhouse, hPanics⟩
    have hTable := (clickhouseTable_traces naming indexerName).mpr hPanics
    have hRead : ∀ store, getLastSyncedBlock naming config (traceDetail indexerName network) store =
        .error namePanics := by
      intro store
      unfold getLastSyncedBlock
      rw [if_neg hPostgres, if_pos hClickhouse, traceDetail, hTable]
    refine ⟨?_, ?_, ?_⟩
    · intro blocks before after hBefore
      unfold Readable at hBefore
      rw [if_neg hPostgres, if_pos hClickhouse] at hBefore
      obtain ⟨table, hSome, -⟩ := hBefore
      rw [traceDetail, hTable] at hSome
      cases hSome
    · intro toBlock calls before written after value store _ _ h
      rw [hRead] at h
      cases h
    · intro calls before read after value1 value2 store h
      rw [hRead] at h
      cases h

/-- Events agree exactly if the storage that is read is the one that is written.  Native transfers agree
exactly with Postgres, or if no table can be named for them. -/
theorem agrees_iff (x : EventDetail) (indexerName network : String) :
    (Agrees naming config (updateProgressAndLastSyncedTask naming config x) x ↔
      ReadsWhatItWrites config x.contractName) ∧
    (Agrees naming config (evmTraceUpdateProgressAndLastSyncedTask naming
        (startTraceConfig config indexerName network)) (traceDetail indexerName network) ↔
      config.postgres = true ∨
        (config.clickhouse = true ∧ Panics naming.classes indexerName.toList)) := by
  constructor
  · constructor
    · intro hAgrees
      by_contra hReads
      exact not_agrees_of_not_reads naming config hReads hAgrees
    · intro hReads
      apply agrees_of_write
      · intro toBlock before after h
        obtain ⟨hGrows, hBlock⟩ := updateProgress_spec naming config h
        exact ⟨hGrows, hBlock hReads⟩
      · exact fun _ _ _ h => readable_update naming config h
  · by_cases hPostgres : config.postgres = true
    · simp only [hPostgres, true_or, iff_true]
      apply agrees_of_write
      · intro toBlock before after h
        obtain ⟨hGrows, hBlock⟩ := updateTrace_spec naming config h
        exact ⟨hGrows, hBlock hPostgres⟩
      · exact fun _ _ _ h => readable_updateTrace naming config h hPostgres
    · rw [agrees_traces_of_not_postgres naming config hPostgres]
      exact (or_iff_right hPostgres).symm

end Stored

def asciiNaming : Naming where
  classes := asciiClasses
  keccak := zeroKeccak
  toLowercase := String.toLower
  keccakHex _ := "00"

/-- CSV storage, and a contract that generates no CSV files. -/
def csvOnly : StorageConfig where
  postgres := false
  clickhouse := false
  csv := some ⟨"/project/generated_csv", true⟩
  contracts := [⟨"Token", some false, none⟩]

def clickhouseOnly : StorageConfig := ⟨false, true, none, []⟩

def tokenTransfer : EventDetail := ⟨"Indexer", "Token", "Transfer", "ethereum", legacyDetailKey⟩

/-- Block 100 is written to the CSV directory and the read returns nothing.  With ClickHouse the block
of the native transfers is not written at all. -/
theorem csv_block_not_read :
    ¬Agrees asciiNaming csvOnly
        (updateProgressAndLastSyncedTask asciiNaming csvOnly tokenTransfer) tokenTransfer ∧
      ¬Agrees asciiNaming clickhouseOnly
        (evmTraceUpdateProgressAndLastSyncedTask asciiNaming
          (startTraceConfig clickhouseOnly "Indexer" "ethereum"))
        (traceDetail "Indexer" "ethereum") := by
  constructor
  · intro h
    have hBlock := h.afterWrite 100 [] .empty _ _ none _ rfl rfl rfl
    exact absurd hBlock (by decide)
  · intro h
    have hBlock := h.afterWrite 100 [] .empty _ _ none _ rfl rfl rfl
    exact absurd hBlock (by decide)

end Rindexer.Indexer
