import Rindexer.Database.Clickhouse
import Rindexer.Database.NameAgreement
import Rindexer.Indexer.Start
import Rindexer.Lib.Transition

/-! The last synced block of an event, over every storage that a manifest can configure.  Writing and
reading choose their storage separately. -/

namespace Rindexer.Indexer

open Rindexer.Database Rindexer.Lib

/-! ### Storage -/

/-- What the manifest says of one contract: whether it generates CSV files, and the path of its
streams, of those that have any. -/
structure ContractStorage where
  name : String
  generateCsv : Option Bool
  streamsPath : Option String
deriving DecidableEq, Repr

structure CsvDetails where
  fullPath : String
  enabled : Bool
deriving DecidableEq, Repr

structure StorageConfig where
  postgres : Bool
  clickhouse : Bool
  csv : Option CsvDetails
  contracts : List ContractStorage
deriving DecidableEq, Repr

namespace StorageConfig

variable (config : StorageConfig)

/-- Filters are registered under a name of their own, so no contract has it. -/
def contractCsvEnabled (contractName : String) : Bool :=
  config.csv.any CsvDetails.enabled &&
    (config.contracts.find? (·.name == contractName)).any fun c => c.generateCsv.getD true

def streamsPath (contractName : String) : Option String :=
  (config.contracts.find? (·.name == contractName)).bind ContractStorage.streamsPath

end StorageConfig

/-- A file for a last synced block.  Of its text only the first line counts. -/
inductive SyncedFile
  | missing
  | empty
  | number (n : Nat)
  | other (text : String)
deriving DecidableEq, Repr

structure SyncStore where
  db : Db
  clickhouse : Clickhouse
  files : List String → SyncedFile

/-- `to_lowercase` and `keccak256` in hexadecimal, for file names, and what table names need. -/
structure Naming where
  classes : UnicodeClasses
  keccak : Keccak
  toLowercase : String → String
  keccakHex : String → String

/-- One detail of an event, as its cursor is addressed. -/
structure EventDetail where
  indexerName : String
  contractName : String
  eventName : String
  network : String
  detailKey : String
deriving DecidableEq, Repr

namespace SyncStore

def setFile (store : SyncStore) (path : List String) (file : SyncedFile) : SyncStore :=
  { store with files := Function.update store.files path file }

def setDb (store : SyncStore) (db : Db) : SyncStore := { store with db }

def setClickhouse (store : SyncStore) (clickhouse : Clickhouse) : SyncStore :=
  { store with clickhouse }

/-- `INSERT INTO … (network, detail_key, last_synced_block)`. -/
def insertCursor (store : SyncStore) (table network detailKey : String) (block : Nat) : SyncStore :=
  store.setClickhouse (store.clickhouse.setCursorRows table
    (store.clickhouse.cursorRows table ++ [⟨network, detailKey, block⟩]))

end SyncStore

section Files

variable (naming : Naming)

def buildLastSyncedBlockNumberFile (fullPath contractName network eventName detailKey : String) :
    List String :=
  let detailSuffix :=
    if detailKey = legacyDetailKey then "" else s!"-detail-0x{naming.keccakHex detailKey}"
  [fullPath, contractName, "last-synced-blocks",
    s!"{naming.toLowercase contractName}-{naming.toLowercase network}-{naming.toLowercase eventName}{detailSuffix}.txt"]

def getLastSyncedBlockNumberFile (store : SyncStore) (path : List String) :
    Except String (Option Nat) :=
  match store.files path with
  | .missing => .ok none
  | .empty => .ok none
  | .number n => .ok (some n)
  | .other text => .error s!"Failed to parse block number: {text}"

/-- Writes the block unless the file holds one as high. -/
def updateLastSyncedBlockNumberForFile (path : List String) (toBlock : Nat) (store : SyncStore) :
    Except String SyncStore :=
  match getLastSyncedBlockNumberFile store path with
  | .error e => .error e
  | .ok none => .ok (store.setFile path (.number toBlock))
  | .ok (some last) =>
    if last < toBlock then .ok (store.setFile path (.number toBlock)) else .ok store

end Files

/-! ### Writing and reading -/

section Sync

variable (naming : Naming) (config : StorageConfig)

/-- The cursor table of an event on Postgres. -/
def postgresTable (indexerName contractName eventName : String) : Option String :=
  ((generateIndexerContractSchemaName naming.classes indexerName.toList contractName.toList).bind
    fun schema => generateInternalEventTableName naming.classes naming.keccak schema
      eventName.toList).map String.ofList

/-- The cursor table of an event on ClickHouse. -/
def clickhouseTable (indexerName contractName eventName : String) : Option String :=
  ((generateIndexerContractSchemaName naming.classes indexerName.toList contractName.toList).bind
    fun schema => generateInternalEventTableNameNoShorten naming.classes schema
      eventName.toList).map String.ofList

def namePanics : String := "a table name cannot be built"

def detailFile (fullPath : String) (x : EventDetail) : List String :=
  buildLastSyncedBlockNumberFile naming fullPath x.contractName x.network x.eventName x.detailKey

def updateProgressAndLastSyncedTask (x : EventDetail) (toBlock : Nat) (store : SyncStore) :
    Except String SyncStore :=
  if config.postgres then
    match postgresTable naming x.indexerName x.contractName x.eventName with
    | none => .error namePanics
    | some table =>
      (advanceDetailCursor store.db table x.network x.detailKey toBlock).map store.setDb
  else if config.clickhouse then
    match clickhouseTable naming x.indexerName x.contractName x.eventName with
    | none => .error namePanics
    | some table => .ok (store.insertCursor table x.network x.detailKey toBlock)
  else
    match config.csv with
    | some csv =>
      updateLastSyncedBlockNumberForFile (detailFile naming csv.fullPath x) toBlock store
    | none =>
      match config.streamsPath x.contractName with
      | some path => updateLastSyncedBlockNumberForFile (detailFile naming path x) toBlock store
      | none => .ok store

/-- The pipeline for the traces of a network. -/
structure TraceProcessingConfig where
  indexerName : String
  contractName : String
  eventName : String
  network : String
  postgres : Bool
  csvPath : Option String
  streamLastSyncedBlockFilePath : Option String
deriving DecidableEq, Repr

/-- A file first, then Postgres. -/
def evmTraceUpdateProgressAndLastSyncedTask (trace : TraceProcessingConfig) (toBlock : Nat)
    (store : SyncStore) : Except String SyncStore :=
  let file (path : String) := buildLastSyncedBlockNumberFile naming path trace.contractName
    trace.network trace.eventName legacyDetailKey
  let fileResult :=
    match trace.csvPath with
    | some path => updateLastSyncedBlockNumberForFile (file path) toBlock store
    | none =>
      match trace.streamLastSyncedBlockFilePath with
      | some path => updateLastSyncedBlockNumberForFile (file path) toBlock store
      | none => .ok store
  match fileResult with
  | .error e => .error e
  | .ok store =>
    if trace.postgres then
      match postgresTable naming trace.indexerName trace.contractName "native_transfer" with
      | none => .error namePanics
      | some table =>
        (advanceDetailCursor store.db table trace.network legacyDetailKey toBlock).map store.setDb
    else .ok store

def readDetailFile (x : EventDetail) (store : SyncStore) (fullPath : String) :
    Except String (Option Nat × SyncStore) :=
  match getLastSyncedBlockNumberFile store (detailFile naming fullPath x) with
  | .error e => .error e
  | .ok value => .ok (value.filter (· ≠ 0), store)

/-- Postgres, then ClickHouse, then the CSV file of a contract with CSV, then its streams.  Zero
stands for no progress. -/
def getLastSyncedBlock (x : EventDetail) (store : SyncStore) :
    Except String (Option Nat × SyncStore) :=
  if config.postgres then
    match postgresTable naming x.indexerName x.contractName x.eventName with
    | none => .error namePanics
    | some table =>
      match getLastSyncedBlockNumber store.db table x.network x.detailKey with
      | .error e => .error e
      | .ok (db, value) => .ok (value, store.setDb db)
  else if config.clickhouse then
    match clickhouseTable naming x.indexerName x.contractName x.eventName with
    | none => .error namePanics
    | some table =>
      let existing := store.clickhouse.detailKeys table x.network
      if !validateExactCursorIdentity x.detailKey existing then
        .error "ClickHouse exact cursor identity conflict"
      else
        let seeded :=
          if x.detailKey ∈ existing then store
          else store.insertCursor table x.network x.detailKey 0
        match seeded.clickhouse.cursor table x.network x.detailKey with
        | none => .error "no row"
        | some value => .ok (if value = 0 then none else some value, seeded)
  else
    match config.csv, config.contractCsvEnabled x.contractName with
    | some csv, true => readDetailFile naming x store csv.fullPath
    | _, _ =>
      match config.streamsPath x.contractName with
      | some path => readDetailFile naming x store path
      | none => .ok (none, store)

def nativeTransferContractName : String := "EvmTraces"

/-- The pipeline that `start_indexing_traces` builds for a network. -/
def startTraceConfig (indexerName network : String) : TraceProcessingConfig where
  indexerName := indexerName
  contractName := nativeTransferContractName
  eventName := "TraceEvents"
  network := network
  postgres := config.postgres
  csvPath := none
  streamLastSyncedBlockFilePath := none

/-- The detail that `start_indexing_traces` reads: the registered event of the native transfers. -/
def traceDetail (indexerName network : String) : EventDetail :=
  ⟨indexerName, nativeTransferContractName, "NativeTransfer", network, legacyDetailKey⟩

end Sync

/-! ### The block of a detail -/

def SyncedFile.block : SyncedFile → Nat
  | .number n => n
  | _ => 0

theorem max?_concat {values : List Nat} {m : Nat} (h : values.max? = some m) (n : Nat) :
    (values ++ [n]).max? = some (max m n) := by
  obtain ⟨hMem, hLe⟩ := List.max?_eq_some_iff.mp h
  rw [List.max?_eq_some_iff]
  constructor
  · rcases Nat.le_total m n with hmn | hmn
    · rw [Nat.max_eq_right hmn]
      exact List.mem_append_right _ (List.mem_singleton.mpr rfl)
    · rw [Nat.max_eq_left hmn]
      exact List.mem_append_left _ hMem
  · intro b hb
    rcases List.mem_append.mp hb with hb | hb
    · exact Nat.le_trans (hLe b hb) (Nat.le_max_left m n)
    · rw [List.mem_singleton.mp hb]
      exact Nat.le_max_right m n

theorem finalCursor_append {rows : List CursorRow} {row : CursorRow} {network detailKey : String} :
    (finalCursor (rows ++ [row]) network detailKey).getD 0 =
      if row.isFor network detailKey then
        max ((finalCursor rows network detailKey).getD 0) row.lastSyncedBlock
      else (finalCursor rows network detailKey).getD 0 := by
  rw [finalCursor, List.filter_append]
  split
  next hFor =>
    rw [List.filter_cons_of_pos hFor, List.filter_nil, List.map_append, finalCursor]
    cases hMax : ((rows.filter (CursorRow.isFor network detailKey)).map
        CursorRow.lastSyncedBlock).max? with
    | none =>
      rw [List.max?_eq_none_iff] at hMax
      rw [hMax]
      simp
    | some m =>
      rw [List.map_singleton, max?_concat hMax]
      rfl
  next hOther =>
    rw [List.filter_cons_of_neg hOther, List.filter_nil, List.append_nil, finalCursor]

section Stored

variable (naming : Naming) (config : StorageConfig)

/-- The block of a detail in the storage that is read, zero where there is none. -/
def storedBlock (x : EventDetail) (store : SyncStore) : Nat :=
  if config.postgres then
    match postgresTable naming x.indexerName x.contractName x.eventName with
    | none => 0
    | some table => (store.db.cursor table x.network x.detailKey).getD 0
  else if config.clickhouse then
    match clickhouseTable naming x.indexerName x.contractName x.eventName with
    | none => 0
    | some table => (store.clickhouse.cursor table x.network x.detailKey).getD 0
  else
    match config.csv, config.contractCsvEnabled x.contractName with
    | some csv, true => (store.files (detailFile naming csv.fullPath x)).block
    | _, _ =>
      match config.streamsPath x.contractName with
      | some path => (store.files (detailFile naming path x)).block
      | none => 0

/-- No block of any storage is lower. -/
structure Grows (before after : SyncStore) : Prop where
  db : ∀ table network detailKey, (before.db.cursor table network detailKey).getD 0 ≤
    (after.db.cursor table network detailKey).getD 0
  clickhouse : ∀ table network detailKey,
    (before.clickhouse.cursor table network detailKey).getD 0 ≤
      (after.clickhouse.cursor table network detailKey).getD 0
  files : ∀ path, (before.files path).block ≤ (after.files path).block

theorem Grows.refl (store : SyncStore) : Grows store store :=
  ⟨fun _ _ _ => Nat.le_refl _, fun _ _ _ => Nat.le_refl _, fun _ => Nat.le_refl _⟩

theorem Grows.trans {s1 s2 s3 : SyncStore} (h1 : Grows s1 s2) (h2 : Grows s2 s3) : Grows s1 s3 :=
  ⟨fun t n d => Nat.le_trans (h1.db t n d) (h2.db t n d),
    fun t n d => Nat.le_trans (h1.clickhouse t n d) (h2.clickhouse t n d),
    fun p => Nat.le_trans (h1.files p) (h2.files p)⟩

theorem Grows.storedBlock {before after : SyncStore} (h : Grows before after) (x : EventDetail) :
    storedBlock naming config x before ≤ storedBlock naming config x after := by
  unfold Indexer.storedBlock
  split
  · split
    · exact Nat.le_refl 0
    · exact h.db _ _ _
  · split
    · split
      · exact Nat.le_refl 0
      · exact h.clickhouse _ _ _
    · split
      · exact h.files _
      · split
        · exact h.files _
        · exact Nat.le_refl 0

theorem grows_setDb {store : SyncStore} {db : Db}
    (h : ∀ table network detailKey, (store.db.cursor table network detailKey).getD 0 ≤
      (db.cursor table network detailKey).getD 0) : Grows store (store.setDb db) :=
  ⟨h, fun _ _ _ => Nat.le_refl _, fun _ => Nat.le_refl _⟩

theorem cursor_insertCursor (store : SyncStore) (table network detailKey : String) (block : Nat)
    (table' network' detailKey' : String) :
    ((store.insertCursor table network detailKey block).clickhouse.cursor table' network'
      detailKey').getD 0 =
      if table' = table ∧ network' = network ∧ detailKey' = detailKey then
        max ((store.clickhouse.cursor table' network' detailKey').getD 0) block
      else (store.clickhouse.cursor table' network' detailKey').getD 0 := by
  unfold Clickhouse.cursor SyncStore.insertCursor SyncStore.setClickhouse
  rw [Clickhouse.cursorRows_setCursorRows]
  by_cases hTable : table' = table
  · subst hTable
    rw [Function.update_self, finalCursor_append]
    by_cases hKey : network' = network ∧ detailKey' = detailKey
    · obtain ⟨rfl, rfl⟩ := hKey
      simp [CursorRow.isFor]
    · have hOther : (⟨network, detailKey, block⟩ : CursorRow).isFor network' detailKey' = false := by
        by_contra hIs
        simp only [CursorRow.isFor, Bool.not_eq_false, Bool.and_eq_true, beq_iff_eq] at hIs
        exact hKey ⟨hIs.1.symm, hIs.2.symm⟩
      rw [hOther, if_neg Bool.false_ne_true, if_neg fun hBoth => hKey hBoth.2]
  · rw [Function.update_of_ne hTable, if_neg fun hBoth => hTable hBoth.1]

theorem grows_insertCursor (store : SyncStore) (table network detailKey : String) (block : Nat) :
    Grows store (store.insertCursor table network detailKey block) := by
  refine ⟨fun _ _ _ => Nat.le_refl _, fun t n d => ?_, fun _ => Nat.le_refl _⟩
  rw [cursor_insertCursor]
  split
  · exact Nat.le_max_left _ _
  · exact Nat.le_refl _

/-- A file that was updated holds at least the block. -/
theorem updateFile_spec {path : List String} {toBlock : Nat} {store store' : SyncStore}
    (h : updateLastSyncedBlockNumberForFile path toBlock store = .ok store') :
    Grows store store' ∧ toBlock ≤ (store'.files path).block := by
  have hSet : (store.files path).block ≤ toBlock →
      Grows store (store.setFile path (.number toBlock)) ∧
        toBlock ≤ ((store.setFile path (.number toBlock)).files path).block := by
    intro hLow
    refine ⟨⟨fun _ _ _ => Nat.le_refl _, fun _ _ _ => Nat.le_refl _, fun path' => ?_⟩, ?_⟩
    · by_cases hPath : path' = path
      · subst hPath
        simpa [SyncStore.setFile, SyncedFile.block] using hLow
      · simp [SyncStore.setFile, Function.update_of_ne hPath]
    · simp [SyncStore.setFile, SyncedFile.block]
  unfold updateLastSyncedBlockNumberForFile getLastSyncedBlockNumberFile at h
  cases hFile : store.files path with
  | missing =>
    simp only [hFile, Except.ok.injEq] at h
    exact h ▸ hSet (by rw [hFile]; exact Nat.zero_le _)
  | empty =>
    simp only [hFile, Except.ok.injEq] at h
    exact h ▸ hSet (by rw [hFile]; exact Nat.zero_le _)
  | number n =>
    simp only [hFile] at h
    split at h
    next hLess =>
      rw [Except.ok.injEq] at h
      exact h ▸ hSet (by rw [hFile]; exact Nat.le_of_lt hLess)
    next hHigh =>
      rw [Except.ok.injEq] at h
      refine h ▸ ⟨Grows.refl store, ?_⟩
      rw [hFile]
      exact Nat.not_lt.mp hHigh
  | other text =>
    simp only [hFile] at h
    cases h

theorem advance_spec {store store' : SyncStore} {table network detailKey : String} {toBlock : Nat}
    (h : (advanceDetailCursor store.db table network detailKey toBlock).map store.setDb =
      .ok store') :
    Grows store store' ∧ toBlock ≤ (store'.db.cursor table network detailKey).getD 0 := by
  cases hAdvance : advanceDetailCursor store.db table network detailKey toBlock with
  | error e =>
    rw [hAdvance] at h
    cases h
  | ok db =>
    rw [hAdvance] at h
    obtain rfl := Except.ok.inj h
    have hCursor := cursor_advanceDetailCursor hAdvance
    constructor
    · apply grows_setDb
      intro table' network' detailKey'
      by_cases hSame : table' = table ∧ network' = network ∧ detailKey' = detailKey
      · obtain ⟨rfl, rfl, rfl⟩ := hSame
        rw [hCursor]
        cases store.db.cursor table' network' detailKey' with
        | none => exact Nat.le_refl _
        | some value => exact Nat.le_max_right _ _
      · rw [cursor_advanceDetailCursor_ne hAdvance hSame]
    · change toBlock ≤ (db.cursor table network detailKey).getD 0
      rw [hCursor]
      cases hOld : store.db.cursor table network detailKey with
      | some value => exact Nat.le_max_left _ _
      | none =>
        -- Without a row the advance is an error.
        unfold advanceDetailCursor at hAdvance
        split at hAdvance
        next hAny =>
          have hSome : ((store.db.cursors table).find? (CursorRow.isFor network detailKey)).isSome := by
            rw [List.find?_isSome]
            exact List.any_eq_true.mp hAny
          rw [Db.cursor, Option.map_eq_none_iff] at hOld
          rw [hOld] at hSome
          cases hSome
        next => cases hAdvance

/-- The storage that is read is the one that is written. -/
def ReadsWhatItWrites (contractName : String) : Prop :=
  config.postgres = true ∨ config.clickhouse = true ∨
    match config.csv with
    | some csv => config.contractCsvEnabled contractName = true ∨
        config.streamsPath contractName = some csv.fullPath
    | none => config.streamsPath contractName ≠ none

theorem updateProgress_spec {x : EventDetail} {toBlock : Nat} {store store' : SyncStore}
    (h : updateProgressAndLastSyncedTask naming config x toBlock store = .ok store') :
    Grows store store' ∧ (ReadsWhatItWrites config x.contractName →
      toBlock ≤ storedBlock naming config x store') := by
  unfold updateProgressAndLastSyncedTask at h
  unfold storedBlock
  by_cases hPostgres : config.postgres = true
  · rw [if_pos hPostgres] at h ⊢
    cases hTable : postgresTable naming x.indexerName x.contractName x.eventName with
    | none =>
      rw [hTable] at h
      cases h
    | some table =>
      rw [hTable] at h
      obtain ⟨hGrows, hBlock⟩ := advance_spec h
      exact ⟨hGrows, fun _ => hBlock⟩
  rw [if_neg hPostgres] at h ⊢
  by_cases hClickhouse : config.clickhouse = true
  · rw [if_pos hClickhouse] at h ⊢
    cases hTable : clickhouseTable naming x.indexerName x.contractName x.eventName with
    | none =>
      rw [hTable] at h
      cases h
    | some table =>
      rw [hTable] at h
      obtain rfl := Except.ok.inj h
      refine ⟨grows_insertCursor _ _ _ _ _, fun _ => ?_⟩
      simp only
      rw [cursor_insertCursor, if_pos ⟨rfl, rfl, rfl⟩]
      exact Nat.le_max_right _ _
  rw [if_neg hClickhouse] at h ⊢
  cases hCsv : config.csv with
  | some csv =>
    rw [hCsv] at h
    obtain ⟨hGrows, hBlock⟩ := updateFile_spec h
    refine ⟨hGrows, fun hReads => ?_⟩
    unfold ReadsWhatItWrites at hReads
    rw [hCsv] at hReads
    rcases hReads with hP | hC | hEnabled | hStreams
    · exact absurd hP hPostgres
    · exact absurd hC hClickhouse
    · rw [hEnabled]
      exact hBlock
    · cases config.contractCsvEnabled x.contractName with
      | true => exact hBlock
      | false =>
        simp only [hStreams]
        exact hBlock
  | none =>
    rw [hCsv] at h
    cases hStreams : config.streamsPath x.contractName with
    | some path =>
      simp only [hStreams] at h
      obtain ⟨hGrows, hBlock⟩ := updateFile_spec h
      refine ⟨hGrows, fun _ => ?_⟩
      cases config.contractCsvEnabled x.contractName with
      | true => exact hBlock
      | false => exact hBlock
    | none =>
      simp only [hStreams, Except.ok.injEq] at h
      refine ⟨h ▸ Grows.refl store, fun hReads => ?_⟩
      simp [ReadsWhatItWrites, hPostgres, hClickhouse, hCsv, hStreams] at hReads

/-- Snake case of the two names of the native transfers is the same. -/
theorem postgresTable_native_transfer (indexerName : String) :
    postgresTable naming indexerName nativeTransferContractName "native_transfer" =
      postgresTable naming indexerName nativeTransferContractName "NativeTransfer" := by
  have hNames : camelToSnake naming.classes "native_transfer".toList =
      camelToSnake naming.classes "NativeTransfer".toList := by
    have hAscii : camelToSnake asciiClasses "native_transfer".toList =
        camelToSnake asciiClasses "NativeTransfer".toList := by decide
    exact (camelToSnake_of_ascii naming.classes (by decide)).trans
      (hAscii.trans (camelToSnake_of_ascii naming.classes (by decide)).symm)
  simp only [postgresTable, generateInternalEventTableName, generateInternalEventTableNameNoShorten,
    hNames]

theorem updateTrace_spec {indexerName network : String} {toBlock : Nat} {store store' : SyncStore}
    (h : evmTraceUpdateProgressAndLastSyncedTask naming (startTraceConfig config indexerName network)
      toBlock store = .ok store') :
    Grows store store' ∧ (config.postgres = true →
      toBlock ≤ storedBlock naming config (traceDetail indexerName network) store') := by
  -- The pipeline has neither a CSV nor a stream path.
  change (if config.postgres = true then
    match postgresTable naming indexerName nativeTransferContractName "native_transfer" with
    | none => Except.error namePanics
    | some table =>
      (advanceDetailCursor store.db table network legacyDetailKey toBlock).map store.setDb
    else Except.ok store) = Except.ok store' at h
  split at h
  next hPostgres =>
    rw [postgresTable_native_transfer] at h
    unfold storedBlock
    rw [if_pos hPostgres]
    cases hTable : postgresTable naming indexerName nativeTransferContractName "NativeTransfer" with
    | none =>
      rw [hTable] at h
      cases h
    | some table =>
      rw [hTable] at h
      obtain ⟨hGrows, hBlock⟩ := advance_spec h
      refine ⟨hGrows, fun _ => ?_⟩
      simp only [traceDetail, hTable]
      exact hBlock
  next hPostgres =>
    rw [Except.ok.injEq] at h
    exact ⟨h ▸ Grows.refl store, fun h => absurd h hPostgres⟩

theorem readDetailFile_spec {x : EventDetail} {path : String} {value : Option Nat}
    {store store' : SyncStore} (h : readDetailFile naming x store path = .ok (value, store')) :
    Grows store store' ∧ value.getD 0 = (store.files (detailFile naming path x)).block := by
  rw [readDetailFile, getLastSyncedBlockNumberFile] at h
  cases hContent : store.files (detailFile naming path x) with
  | missing =>
    simp only [hContent, Option.filter_none, Except.ok.injEq, Prod.mk.injEq] at h
    obtain ⟨rfl, rfl⟩ := h
    exact ⟨Grows.refl store, rfl⟩
  | empty =>
    simp only [hContent, Option.filter_none, Except.ok.injEq, Prod.mk.injEq] at h
    obtain ⟨rfl, rfl⟩ := h
    exact ⟨Grows.refl store, rfl⟩
  | number n =>
    simp only [hContent, Except.ok.injEq, Prod.mk.injEq] at h
    obtain ⟨rfl, rfl⟩ := h
    refine ⟨Grows.refl store, ?_⟩
    by_cases hn : n = 0
    · subst hn
      rfl
    · simp [Option.filter, hn, SyncedFile.block]
  | other text =>
    simp only [hContent] at h
    cases h

/-- A read returns the block of the detail and lowers none. -/
theorem getLastSyncedBlock_spec {x : EventDetail} {value : Option Nat} {store store' : SyncStore}
    (h : getLastSyncedBlock naming config x store = .ok (value, store')) :
    Grows store store' ∧ value.getD 0 = storedBlock naming config x store := by
  have hZero : ∀ block : Nat, (if block = 0 then none else some block : Option Nat).getD 0 = block := by
    intro block
    split
    next hBlock => exact hBlock.symm
    next => rfl
  unfold getLastSyncedBlock at h
  unfold storedBlock
  by_cases hPostgres : config.postgres = true
  · rw [if_pos hPostgres] at h ⊢
    cases hTable : postgresTable naming x.indexerName x.contractName x.eventName with
    | none =>
      rw [hTable] at h
      cases h
    | some table =>
      simp only [hTable, getLastSyncedBlockNumber] at h
      cases hSeed : ensureDetailCursor store.db table x.network x.detailKey with
      | error e =>
        rw [hSeed] at h
        cases h
      | ok db =>
        simp only [hSeed] at h
        have hCursor := cursor_ensureDetailCursor hSeed
        have hRead := hCursor table x.network x.detailKey
        rw [if_pos ⟨rfl, rfl, rfl⟩] at hRead
        simp only [hRead, Except.ok.injEq, Prod.mk.injEq] at h
        obtain ⟨rfl, rfl⟩ := h
        refine ⟨grows_setDb fun t n d => ?_, hZero _⟩
        rw [hCursor]
        split
        · exact Nat.le_refl _
        · exact Nat.le_refl _
  rw [if_neg hPostgres] at h ⊢
  by_cases hClickhouse : config.clickhouse = true
  · rw [if_pos hClickhouse] at h ⊢
    cases hTable : clickhouseTable naming x.indexerName x.contractName x.eventName with
    | none =>
      rw [hTable] at h
      cases h
    | some table =>
      simp only [hTable] at h
      split at h
      · cases h
      · split at h
        · cases h
        next block hBlock =>
          simp only [Except.ok.injEq, Prod.mk.injEq] at h
          obtain ⟨rfl, rfl⟩ := h
          rw [hZero]
          split at hBlock
          next hExisting =>
            rw [if_pos hExisting]
            refine ⟨Grows.refl store, ?_⟩
            simp only [hBlock, Option.getD_some]
          next hMissing =>
            rw [if_neg hMissing]
            refine ⟨grows_insertCursor _ _ _ _ _, ?_⟩
            have hCursor := cursor_insertCursor store table x.network x.detailKey 0 table x.network
              x.detailKey
            rw [hBlock, if_pos ⟨rfl, rfl, rfl⟩, Nat.max_zero] at hCursor
            exact hCursor
  rw [if_neg hClickhouse] at h ⊢
  cases hCsv : config.csv with
  | some csv =>
    cases hEnabled : config.contractCsvEnabled x.contractName with
    | true =>
      simp only [hCsv, hEnabled] at h
      exact readDetailFile_spec naming h
    | false =>
      cases hStreams : config.streamsPath x.contractName with
      | some path =>
        simp only [hCsv, hEnabled, hStreams] at h
        exact readDetailFile_spec naming h
      | none =>
        simp only [hCsv, hEnabled, hStreams, Except.ok.injEq, Prod.mk.injEq] at h
        obtain ⟨rfl, rfl⟩ := h
        exact ⟨Grows.refl store, rfl⟩
  | none =>
    cases hStreams : config.streamsPath x.contractName with
    | some path =>
      simp only [hCsv, hStreams] at h
      exact readDetailFile_spec naming h
    | none =>
      simp only [hCsv, hStreams, Except.ok.injEq, Prod.mk.injEq] at h
      obtain ⟨rfl, rfl⟩ := h
      exact ⟨Grows.refl store, rfl⟩

end Stored

end Rindexer.Indexer
