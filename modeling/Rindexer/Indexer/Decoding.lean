import Rindexer.Database.NameAgreement
import Rindexer.Database.SetupFacts
import Rindexer.Manifest.Signature

/-! How the events of a contract are registered: with the topic of the one entry of the ABI, the decoder
of the first entry of its name, and the table that was created first under its table's name.  An event's
logs are decoded as what they are exactly if all of these agree. -/

namespace Rindexer.Database

open Rindexer.Manifest

namespace Batch

/-- The definition that a batch first creates a table with. -/
def firstDefinition (table : TableName) : Batch → Option CreateTable
  | [] => none
  | some (.createTable t ddl) :: batch => if t = table then some ddl else firstDefinition table batch
  | _ :: batch => firstDefinition table batch

/-- No column is added without the key being set. -/
def Paired (batch : Batch) : Prop :=
  ∀ table column, some (.addColumn table column) ∈ batch → some (.rekey table cursorKey) ∈ batch

theorem paired_append {batch1 batch2 : Batch} (h1 : batch1.Paired) (h2 : batch2.Paired) :
    Paired (batch1 ++ batch2) := by
  intro table column h
  rcases List.mem_append.mp h with h | h
  · exact List.mem_append_left _ (h1 table column h)
  · exact List.mem_append_right _ (h2 table column h)

theorem paired_flatMap {α : Type} {f : α → Batch} {xs : List α} (h : ∀ x, (f x).Paired) :
    Paired (xs.flatMap f) := by
  intro table column hMem
  obtain ⟨x, hx, hMem⟩ := List.mem_flatMap.mp hMem
  exact List.mem_flatMap.mpr ⟨x, hx, h x table column hMem⟩

theorem paired_of_none {batch : Batch} (h : ∀ table column, some (.addColumn table column) ∉ batch) :
    batch.Paired :=
  fun table column hMem => absurd hMem (h table column)

section Definition

variable {column : ColumnDdl} {key : List String} {batch : Batch} {table : TableName}

theorem ddl_of_some (hAlike : batch.Alike column key)
    (hColumns : ∀ c, some (.addColumn table c) ∉ batch) (hKeys : ∀ k, some (.rekey table k) ∉ batch)
    (stored : StoredTable) :
    (batch.onTable table (some stored)).map StoredTable.ddl = some stored.ddl := by
  induction batch generalizing stored with
  | nil => rfl
  | cons s batch ih =>
    have hRest := ih hAlike.tail (fun c h => hColumns c (List.mem_cons_of_mem _ h))
      fun k h => hKeys k (List.mem_cons_of_mem _ h)
    cases s with
    | none => exact hRest stored
    | some statement =>
      rw [onTable]
      cases statement with
      | createSchema schema => exact hRest stored
      | createTable t ddl =>
        rw [Statement.onTable]
        split
        · exact hRest stored
        · exact hRest stored
      | addColumn t c =>
        rw [Statement.onTable, if_neg]
        · exact hRest stored
        · rintro rfl
          exact hColumns c List.mem_cons_self
      | rekey t k =>
        rw [Statement.onTable, if_neg]
        · exact hRest stored
        · rintro rfl
          exact hKeys k List.mem_cons_self
      | insertIfAbsent t k row =>
        rw [Statement.onTable]
        split
        · rw [Option.map_some, hRest, stored.insertIfAbsent_ddl]
        · exact hRest stored
      | dropTable t => exact (hAlike _ List.mem_cons_self).elim
      | dropSchema schema => exact (hAlike _ List.mem_cons_self).elim

theorem ddl_of_none (hAlike : batch.Alike column key)
    (hColumns : ∀ c, some (.addColumn table c) ∉ batch) (hKeys : ∀ k, some (.rekey table k) ∉ batch) :
    (batch.onTable table none).map StoredTable.ddl = batch.firstDefinition table := by
  induction batch with
  | nil => rfl
  | cons s batch ih =>
    have hColumnsRest := fun c h => hColumns c (List.mem_cons_of_mem s h)
    have hKeysRest := fun k h => hKeys k (List.mem_cons_of_mem s h)
    have hRest := ih hAlike.tail hColumnsRest hKeysRest
    cases s with
    | none => exact hRest
    | some statement =>
      rw [onTable]
      cases statement with
      | createSchema schema => exact hRest
      | createTable t ddl =>
        rw [Statement.onTable, firstDefinition]
        split
        · exact ddl_of_some hAlike.tail hColumnsRest hKeysRest _
        · exact hRest
      | addColumn t c =>
        rw [Statement.onTable, Option.map_none, ite_self]
        exact hRest
      | rekey t k =>
        rw [Statement.onTable, Option.map_none, ite_self]
        exact hRest
      | insertIfAbsent t k row =>
        rw [Statement.onTable, Option.map_none, ite_self]
        exact hRest
      | dropTable t => exact (hAlike _ List.mem_cons_self).elim
      | dropSchema schema => exact (hAlike _ List.mem_cons_self).elim

/-- A batch that sets a table's key leaves it with that key. -/
theorem primaryKey_of_rekey {db db' : Catalog} (hRun : run batch db = some db')
    (hAlike : batch.Alike column key) (h : some (.rekey table key) ∈ batch) :
    ∃ stored, db'.tables table = some stored ∧ stored.ddl.primaryKey = key := by
  induction batch generalizing db with
  | nil => exact absurd h List.not_mem_nil
  | cons s batch ih =>
    obtain ⟨statement, db1, rfl, hHead, hRest⟩ := run_cons_some hRun
    rcases List.mem_cons.mp h with hEq | hMem
    · obtain rfl := Option.some.inj hEq
      obtain ⟨before, -, rfl⟩ := Option.map_eq_some_iff.mp hHead
      obtain ⟨stored, hStored, -, hKey, -⟩ :=
        onTable_alike table (before.rekey key) hAlike.tail
      refine ⟨stored, ?_, ?_⟩
      · rw [run_tables hRest, Catalog.set_tables, if_pos rfl, hStored]
      · rcases hKey with hKey | hKey
        · exact hKey
        · exact hKey
    · exact ih hRest hAlike.tail hMem

end Definition

end Batch

section Paired

variable {classes : UnicodeClasses} {keccak : Keccak} {m : Indexer} {disableEventTables : Bool}

theorem paired_storedTable {schema : Option (List Char)} {rawEvents : List EventInfo}
    {tables : List ContractTable} :
    (storedTableStatements classes disableEventTables schema rawEvents tables).Paired := by
  refine Batch.paired_of_none fun table column h => ?_
  rw [storedTableStatements] at h
  split at h
  · exact absurd h List.not_mem_nil
  · simp only [List.mem_append, List.mem_cons, List.mem_map] at h
    rcases h with (h | ⟨event, -, h⟩) | ⟨custom, -, h⟩
    · simp at h
    · obtain ⟨t, -, h⟩ := Option.bind_eq_some_iff.mp h
      obtain ⟨ddl, -, h⟩ := Option.map_eq_some_iff.mp h
      exact nomatch h
    · obtain ⟨name, -, h⟩ := Option.map_eq_some_iff.mp h
      exact nomatch h

theorem paired_internalEvent {schema : Option (List Char)} {networks : List (List Char)}
    {event : EventInfo} :
    (internalEventStatements classes keccak schema networks event).Paired := by
  intro table column h
  simp only [internalEventStatements, List.mem_append, List.mem_cons, List.not_mem_nil, or_false,
    List.mem_map] at h ⊢
  rcases h with (h | h | h | h) | ⟨network, -, h⟩
  · simp at h
  · obtain ⟨t, ht, hEq⟩ := Option.map_eq_some_iff.mp h.symm
    obtain ⟨rfl, -⟩ := Statement.addColumn.inj hEq
    refine Or.inl (Or.inr (Or.inr (Or.inl ?_)))
    rw [ht, Option.map_some]
  · simp at h
  · simp at h
  · simp at h

theorem paired_generate :
    (generateTablesForIndexerSql classes keccak m disableEventTables).Paired := by
  have hContract : ∀ contract,
      (createContract classes keccak m disableEventTables contract).Paired := by
    intro contract
    rw [createContract]
    split
    · exact Batch.paired_of_none (by simp)
    · refine Batch.paired_append (Batch.paired_append (Batch.paired_append paired_storedTable
        (Batch.paired_flatMap fun event => paired_internalEvent)) ?_) ?_
      · exact Batch.paired_of_none (by simp [factoryStatement])
      · exact Batch.paired_of_none (by simp [cronStatements])
  have hNative : (createNativeTransfers classes keccak m disableEventTables).Paired := by
    rw [createNativeTransfers]
    split
    · split
      · exact Batch.paired_of_none (by simp)
      · exact Batch.paired_append paired_storedTable
          (Batch.paired_flatMap fun event => paired_internalEvent)
    · exact Batch.paired_of_none (by simp)
  refine Batch.paired_append (Batch.paired_append (Batch.paired_append ?_
    (Batch.paired_flatMap hContract)) hNative) ?_
  · exact Batch.paired_of_none (by simp)
  · exact Batch.paired_of_none (by simp)

end Paired

end Rindexer.Database

namespace Rindexer.Indexer

open Rindexer.Database Rindexer.Manifest

/-! ### Decoding -/

structure DecodedEvent (Value : Type) where
  indexed : List Value
  body : List Value

structure Log (Hash Data : Type) where
  topics : List Hash
  data : Data

structure LogParam (Value : Type) where
  name : List Char
  value : Value
  components : Option (List ABIInput)

/-- The values of the parameters in order, each from its own list.  Too few of them are a panic. -/
def takeParams {Value : Type} : List ABIInput → List Value → List Value → Option (List (LogParam Value))
  | [], _, _ => some []
  | input :: inputs, indexed, body =>
    if input.indexed = some true then
      match indexed with
      | [] => none
      | value :: indexed => (takeParams inputs indexed body).map (⟨input.name, value, input.components⟩ :: ·)
    else
      match body with
      | [] => none
      | value :: body => (takeParams inputs indexed body).map (⟨input.name, value, input.components⟩ :: ·)

section Registration

variable {Hash Data Value : Type}

/-- `log.topics().len() - 1`.  Without topics it panics, or wraps in a build without overflow checks. -/
def topicsLength (overflowChecks : Bool) (topics : List Hash) : Option Nat :=
  match topics with
  | [] => if overflowChecks then none else some (2 ^ 64 - 1)
  | _ :: topics => some topics.length

def indexedInputsAbiLength (event : ABIItem) : Nat :=
  event.inputs.countP fun input => input.indexed = some true

/-- `parse_log` with the decoder of the ABI library; a panic has no result. -/
def parseLogIn (overflowChecks : Bool)
    (decodeLog : ABIItem → Log Hash Data → Option (DecodedEvent Value)) (event : ABIItem)
    (log : Log Hash Data) : Option (Option (List (LogParam Value))) :=
  (topicsLength overflowChecks log.topics).bind fun topicsLength =>
    if topicsLength = indexedInputsAbiLength event then
      match decodeLog event log with
      | none => some none
      | some decoded => (takeParams event.inputs decoded.indexed decoded.body).map some
    else some none

/-- The parameters of a log in a build without overflow checks, if it has any. -/
def parseLog (decodeLog : ABIItem → Log Hash Data → Option (DecodedEvent Value)) (event : ABIItem)
    (log : Log Hash Data) : Option (List (LogParam Value)) :=
  (parseLogIn false decodeLog event log).join

/-- A log with another number of topics than the decoder has indexed parameters is dropped. -/
theorem parseLog_of_topics {decodeLog : ABIItem → Log Hash Data → Option (DecodedEvent Value)}
    {event : ABIItem} {log : Log Hash Data} (hTopics : log.topics ≠ [])
    (h : log.topics.length - 1 ≠ indexedInputsAbiLength event) : parseLog decodeLog event log = none := by
  obtain ⟨signature, topics, hLog⟩ := List.exists_cons_of_ne_nil hTopics
  rw [hLog, List.length_cons, Nat.add_sub_cancel] at h
  simp [parseLog, parseLogIn, topicsLength, hLog, h]

/-! ### Registration -/

inductive ProcessIndexersError
  | contractNameConflict (contractName : List Char)
  | paramType (error : ParamTypeError)
  | eventNameNotFoundInAbi (contractName eventName : List Char)
  /-- A name or a column that panics. -/
  | panics
deriving DecidableEq, Repr

/-- What an event is registered with: `event` is the entry whose decoder its logs go through. -/
structure Registration (Hash : Type) where
  topicId : Hash
  eventInfo : EventInfo
  event : ABIItem
  sqlEventTableName : TableName
  sqlColumnNames : List String
  storeRawEvents : Bool

/-- The first event of a name in the ABI. -/
def firstEvent (abi : List ABIItem) (name : List Char) : Option ABIItem :=
  abi.find? fun item => item.type = "event".toList ∧ item.name = name

variable (classes : UnicodeClasses) (keccak256 : List Char → Hash)

def registerEvent (indexerName : List Char) (contract : Contract) (info : EventInfo) :
    Except ProcessIndexersError (Registration Hash) :=
  match firstEvent contract.abi info.name with
  | none => .error (.eventNameNotFoundInAbi contract.name info.name)
  | some event =>
    match generateColumnNamesOnlyWithBaseProperties classes info.inputs,
      generateEventTableFullName classes indexerName contract.name info.name with
    | some columns, some table =>
      .ok ⟨keccak256 info.signature, info, event, table, columns, contract.storesRawEvents info.name⟩
    | _, _ => .error .panics

def registerEvents (indexerName : List Char) (contract : Contract) :
    List EventInfo → Except ProcessIndexersError (List (Registration Hash))
  | [] => .ok []
  | info :: infos =>
    match registerEvent classes keccak256 indexerName contract info with
    | .error e => .error e
    | .ok registration =>
      match registerEvents indexerName contract infos with
      | .error e => .error e
      | .ok registrations => .ok (registration :: registrations)

def processContract (indexerName : List Char) (contract : Contract) :
    Except ProcessIndexersError (List (Registration Hash)) :=
  if contract.name.map Char.toLower = Database.nativeTransferContractName.map Char.toLower then
    .error (.contractNameConflict contract.name)
  else
    let isFilter := contract.isFilter
    let contract := contract.identifyAndModifyFilter
    match extractEventNamesAndSignaturesFromAbi (contract.getAbiItems isFilter) with
    | .error e => .error (.paramType e)
    | .ok eventNames => registerEvents classes keccak256 indexerName contract eventNames

theorem mem_registerEvents {indexerName : List Char} {contract : Contract} {infos : List EventInfo}
    {registrations : List (Registration Hash)}
    (h : registerEvents classes keccak256 indexerName contract infos = .ok registrations)
    {r : Registration Hash} (hr : r ∈ registrations) :
    ∃ info ∈ infos, registerEvent classes keccak256 indexerName contract info = .ok r := by
  induction infos generalizing registrations with
  | nil =>
    cases h
    exact absurd hr List.not_mem_nil
  | cons info infos ih =>
    rw [registerEvents] at h
    split at h
    · exact nomatch h
    next first hFirst =>
      split at h
      · exact nomatch h
      next rest hRest =>
        cases h
        rcases List.mem_cons.mp hr with rfl | hr
        · exact ⟨info, List.mem_cons_self, hFirst⟩
        · obtain ⟨info', hInfo, hSpec⟩ := ih hRest hr
          exact ⟨info', List.mem_cons_of_mem _ hInfo, hSpec⟩

/-- What an event is registered with. -/
structure Registered (indexerName : List Char) (contract : Contract) (r : Registration Hash) : Prop where
  topicId : r.topicId = keccak256 r.eventInfo.signature
  event : firstEvent contract.abi r.eventInfo.name = some r.event
  columns : generateColumnNamesOnlyWithBaseProperties classes r.eventInfo.inputs =
    some r.sqlColumnNames
  table : generateEventTableFullName classes indexerName contract.beforeModifyNameIfFilterReadonly
    r.eventInfo.name = some r.sqlEventTableName
  stored : r.storeRawEvents = contract.storesRawEvents r.eventInfo.name

theorem registered_of_processContract {indexerName : List Char} {contract : Contract}
    {registrations : List (Registration Hash)}
    (h : processContract classes keccak256 indexerName contract = .ok registrations)
    {r : Registration Hash} (hr : r ∈ registrations) :
    Registered classes keccak256 indexerName contract r := by
  rw [processContract] at h
  split at h
  · exact nomatch h
  · simp only [Contract.identifyAndModifyFilter_eq] at h
    split at h
    · exact nomatch h
    next infos hInfos =>
      obtain ⟨info, hInfo, hSpec⟩ := mem_registerEvents classes keccak256 h hr
      rw [registerEvent] at hSpec
      split at hSpec
      · exact nomatch hSpec
      next event hEvent =>
        split at hSpec
        next columns table hColumns hTable =>
          cases hSpec
          exact ⟨rfl, hEvent, hColumns, hTable, rfl⟩
        · exact nomatch hSpec

/-! ### The promise and when it is kept -/

/-- The events of an ABI are events of Solidity. -/
def IsAbi (abi : List ABIItem) : Prop :=
  ∀ item ∈ abi, item.type = "event".toList → ∃ event : SolEvent, item = event.toItem

variable (db : Catalog) (keccak : Keccak) (m : Database.Indexer) (disableEventTables : Bool)
  (contract : Contract)

/-- The logs of an event's topic are decoded with the entry of the ABI whose signature has this topic,
and stored with the columns of that entry in a table for them. -/
def DecodedAsItIs (r : Registration Hash) : Prop :=
  ∃ event : SolEvent, event.toItem ∈ contract.abi ∧
    keccak256 event.canonicalSignature = r.topicId ∧ r.event = event.toItem ∧
    generateColumnNamesOnlyWithBaseProperties classes event.toItem.inputs = some r.sqlColumnNames ∧
    (disableEventTables = false → r.storeRawEvents = true →
      ∃ ddl, eventTableDdl classes event.toItem.inputs = some ddl ∧
        (db.tables r.sqlEventTableName).map StoredTable.ddl = some ddl)

/-- The first entry of the event's name has its topic and its columns.  If the event is stored, the
first table that is created under its table's name is one for that entry, and no cursor table. -/
def FirstOfItsName (info : EventInfo) : Prop :=
  ∃ first, firstEvent contract.abi info.name = some first ∧
    (∃ signature, first.formatEventSignature = .ok signature ∧
      keccak256 signature = keccak256 info.signature) ∧
    generateColumnNamesOnlyWithBaseProperties classes first.inputs =
      generateColumnNamesOnlyWithBaseProperties classes info.inputs ∧
    (disableEventTables = false → contract.storesRawEvents info.name = true →
      ∃ table ddl, eventTable classes (contractSchema classes m contract) info.name = some table ∧
        eventTableDdl classes first.inputs = some ddl ∧
        (generateTablesForIndexerSql classes keccak m disableEventTables).firstDefinition table =
          some ddl ∧
        some (.rekey table cursorKey) ∉ generateTablesForIndexerSql classes keccak m disableEventTables)

variable {classes keccak256 db keccak m disableEventTables contract}

theorem eventTableDdl_primaryKey {inputs : List ABIInput} {ddl : CreateTable}
    (h : eventTableDdl classes inputs = some ddl) : ddl.primaryKey = ["rindexer_id"] := by
  obtain ⟨columns, -, rfl⟩ := Option.map_eq_some_iff.mp h
  rfl

/-- A table is one for an event if it is first created as one, and if no cursor has its name. -/
theorem ddl_eq_iff (hCreate : run (generateTablesForIndexerSql classes keccak m disableEventTables)
      Catalog.empty = some db) {inputs : List ABIInput} {ddl : CreateTable}
    (hDdl : eventTableDdl classes inputs = some ddl) (table : TableName) :
    (db.tables table).map StoredTable.ddl = some ddl ↔
      (generateTablesForIndexerSql classes keccak m disableEventTables).firstDefinition table =
          some ddl ∧
        some (.rekey table cursorKey) ∉
          generateTablesForIndexerSql classes keccak m disableEventTables := by
  have hAlike := @generate_alike classes keccak m disableEventTables
  have hFirst : some (.rekey table cursorKey) ∉
      generateTablesForIndexerSql classes keccak m disableEventTables →
        (db.tables table).map StoredTable.ddl =
          (generateTablesForIndexerSql classes keccak m disableEventTables).firstDefinition table := by
    intro hCursor
    rw [run_tables hCreate]
    refine Database.Batch.ddl_of_none hAlike (fun c hc => hCursor (paired_generate table c hc)) fun k hk => ?_
    obtain rfl : k = cursorKey := hAlike _ hk
    exact hCursor hk
  constructor
  · intro hTable
    have hCursor : some (.rekey table cursorKey) ∉
        generateTablesForIndexerSql classes keccak m disableEventTables := by
      intro hMem
      obtain ⟨stored, hStored, hKey⟩ := Database.Batch.primaryKey_of_rekey hCreate hAlike hMem
      rw [hStored, Option.map_some] at hTable
      rw [Option.some.inj hTable, eventTableDdl_primaryKey hDdl] at hKey
      exact absurd hKey (by decide)
    exact ⟨by rw [← hFirst hCursor, hTable], hCursor⟩
  · rintro ⟨hDefinition, hCursor⟩
    rw [hFirst hCursor, hDefinition]

/-- The logs of a registered event are decoded as what they are exactly if the first entry of its name
and the first table under its table's name are as good as its own. -/
theorem decodedAsItIs_iff (classes : UnicodeClasses) (keccak : Keccak) (keccak256 : List Char → Hash)
    (m : Database.Indexer) (disableEventTables : Bool) {db : Catalog}
    (hCreate : run (generateTablesForIndexerSql classes keccak m disableEventTables)
      Catalog.empty = some db) {contract : Contract} (hAbi : IsAbi contract.abi)
    {registrations : List (Registration Hash)}
    (hProcess : processContract classes keccak256 m.name contract = .ok registrations)
    {r : Registration Hash} (hr : r ∈ registrations) :
    DecodedAsItIs classes keccak256 db disableEventTables contract r ↔
      FirstOfItsName classes keccak256 keccak m disableEventTables contract r.eventInfo := by
  have hRegistered := registered_of_processContract classes keccak256 hProcess hr
  have hMem := List.mem_of_find?_eq_some hRegistered.event
  have hFound : r.event.type = "event".toList ∧ r.event.name = r.eventInfo.name := by
    simpa using List.find?_some hRegistered.event
  have hTable : eventTable classes (contractSchema classes m contract) r.eventInfo.name =
      some r.sqlEventTableName := hRegistered.table
  constructor
  · rintro ⟨event, -, hTopic, hEvent, hColumns, hStored⟩
    refine ⟨r.event, hRegistered.event, ⟨event.canonicalSignature, ?_, ?_⟩, ?_, ?_⟩
    · rw [hEvent, formatEventSignature_toItem]
    · rw [hTopic, hRegistered.topicId]
    · rw [hEvent, hColumns, hRegistered.columns]
    · intro hEnabled hStore
      obtain ⟨ddl, hDdl, hHas⟩ := hStored hEnabled (hRegistered.stored.trans hStore)
      obtain ⟨hDefinition, hCursor⟩ := (ddl_eq_iff hCreate hDdl _).mp hHas
      exact ⟨r.sqlEventTableName, ddl, hTable, by rw [hEvent, hDdl], hDefinition, hCursor⟩
  · rintro ⟨first, hFirst, ⟨signature, hSignature, hTopic⟩, hColumns, hStored⟩
    obtain rfl := Option.some.inj (hRegistered.event.symm.trans hFirst)
    obtain ⟨event, hEvent⟩ := hAbi r.event hMem hFound.1
    rw [hEvent, formatEventSignature_toItem] at hSignature
    obtain rfl := Except.ok.inj hSignature
    refine ⟨event, hEvent ▸ hMem, ?_, hEvent, ?_, ?_⟩
    · rw [hTopic, hRegistered.topicId]
    · rw [← hEvent, hColumns, hRegistered.columns]
    · intro hEnabled hStore
      obtain ⟨table, ddl, hName, hDdl, hDefinition, hCursor⟩ :=
        hStored hEnabled (hRegistered.stored.symm.trans hStore)
      obtain rfl := Option.some.inj (hTable.symm.trans hName)
      exact ⟨ddl, hEvent ▸ hDdl, (ddl_eq_iff hCreate hDdl _).mpr ⟨hDefinition, hCursor⟩⟩

end Registration

/-! ### Two events of one name -/

def depositEther : SolEvent where
  name := "Deposit".toList
  params := [⟨"user".toList, .elementary .address, true⟩,
    ⟨"amount".toList, .elementary (.uint 256), false⟩]

def depositToken : SolEvent where
  name := "Deposit".toList
  params := [⟨"user".toList, .elementary .address, true⟩, ⟨"token".toList, .elementary .address, true⟩,
    ⟨"amount".toList, .elementary (.uint 256), false⟩]

/-- A contract that indexes the deposits of its ABI. -/
def vaultContract (abi : List SolEvent) : Contract where
  name := "Vault".toList
  details := [⟨"ethereum".toList, none, none⟩]
  abi := abi.map SolEvent.toItem
  includeEvents := some ["Deposit".toList]
  tables := none

def vaultIndexer (abi : List SolEvent) : Database.Indexer :=
  ⟨"Savings".toList, [vaultContract abi], ⟨false, none, []⟩⟩

def vaultRegistrations (abi : List SolEvent) : List (Registration (List Char)) :=
  ((processContract asciiClasses id "Savings".toList (vaultContract abi)).toOption).getD []

def vaultCatalog (abi : List SolEvent) : Catalog :=
  (run (generateTablesForIndexerSql asciiClasses zeroKeccak (vaultIndexer abi) false)
    Catalog.empty).getD Catalog.empty

theorem processContract_vault {abi : List SolEvent}
    (h : ((processContract asciiClasses id "Savings".toList (vaultContract abi)).toOption).isSome = true) :
    processContract asciiClasses id "Savings".toList (vaultContract abi) =
      .ok (vaultRegistrations abi) := by
  rw [vaultRegistrations]
  cases hProcess : processContract asciiClasses id "Savings".toList (vaultContract abi) with
  | error e =>
    rw [hProcess] at h
    exact nomatch h
  | ok registrations => rfl

/-- The deposits of tokens go through the decoder of those of ether, which drops them all. -/
theorem token_deposits_dropped :
    processContract asciiClasses id "Savings".toList (vaultContract [depositEther, depositToken]) =
        .ok (vaultRegistrations [depositEther, depositToken]) ∧
      ∃ r ∈ vaultRegistrations [depositEther, depositToken],
        r.topicId = depositToken.canonicalSignature ∧
        ¬DecodedAsItIs asciiClasses id (vaultCatalog [depositEther, depositToken]) false
          (vaultContract [depositEther, depositToken]) r ∧
        ∀ (decodeLog : ABIItem → Log (List Char) Unit → Option (DecodedEvent Unit))
          (log : Log (List Char) Unit), log.topics.length = 3 → parseLog decodeLog r.event log = none := by
  refine ⟨processContract_vault (by decide), ?_⟩
  have hSecond : ((vaultRegistrations [depositEther, depositToken])[1]?).isSome = true := by
    decide
  obtain ⟨r, hr⟩ := Option.isSome_iff_exists.mp hSecond
  have hTopic : ((vaultRegistrations [depositEther, depositToken])[1]?).map Registration.topicId =
      some depositToken.canonicalSignature := by
    decide
  have hColumns : ((vaultRegistrations [depositEther, depositToken])[1]?).all (fun r =>
      generateColumnNamesOnlyWithBaseProperties asciiClasses r.event.inputs ≠
        some r.sqlColumnNames) = true := by
    decide
  have hIndexed : ((vaultRegistrations [depositEther, depositToken])[1]?).map (fun r =>
      r.event.inputs.countP fun input => input.indexed = some true) = some 1 := by
    decide
  rw [hr] at hTopic hColumns hIndexed
  refine ⟨r, List.mem_of_getElem? hr, Option.some.inj hTopic, ?_, fun decodeLog log hLog => ?_⟩
  · rintro ⟨event, -, -, hEvent, hNames, -⟩
    rw [← hEvent] at hNames
    simp [hNames] at hColumns
  · have hCount : (r.event.inputs.countP fun input => input.indexed = some true) = 1 :=
      Option.some.inj hIndexed
    refine parseLog_of_topics (fun hNone => ?_) (by rw [hLog, indexedInputsAbiLength, hCount]; decide)
    rw [hNone] at hLog
    cases hLog

/-- A contract with one event of the name. -/
theorem decodedAsItIs_iff_one : ∃ r, r ∈ vaultRegistrations [depositEther] ∧
    DecodedAsItIs asciiClasses id (vaultCatalog [depositEther]) false (vaultContract [depositEther]) r := by
  have hCreate : run (generateTablesForIndexerSql asciiClasses zeroKeccak (vaultIndexer [depositEther])
      false) Catalog.empty = some (vaultCatalog [depositEther]) := by
    have hSome : (run (generateTablesForIndexerSql asciiClasses zeroKeccak
        (vaultIndexer [depositEther]) false) Catalog.empty).isSome = true := by
      decide
    obtain ⟨db, hDb⟩ := Option.isSome_iff_exists.mp hSome
    rw [vaultCatalog, hDb, Option.getD_some]
  have hAbi : IsAbi (vaultContract [depositEther]).abi := by
    intro item hItem _
    exact ⟨depositEther, List.mem_singleton.mp hItem⟩
  have hInfos : (vaultRegistrations [depositEther]).all (fun r =>
      r.eventInfo.name = depositEther.name ∧ r.eventInfo.signature = depositEther.canonicalSignature ∧
        generateColumnNamesOnlyWithBaseProperties asciiClasses depositEther.toItem.inputs =
          generateColumnNamesOnlyWithBaseProperties asciiClasses r.eventInfo.inputs) = true := by
    decide
  have hOne : (vaultRegistrations [depositEther]).length = 1 := by decide
  obtain ⟨r, hRegistered⟩ := List.length_eq_one_iff.mp hOne
  have hr : r ∈ vaultRegistrations [depositEther] := hRegistered ▸ List.mem_singleton_self r
  refine ⟨r, hr, ?_⟩
  obtain ⟨hName, hSignature, hColumns⟩ : r.eventInfo.name = depositEther.name ∧
      r.eventInfo.signature = depositEther.canonicalSignature ∧
        generateColumnNamesOnlyWithBaseProperties asciiClasses depositEther.toItem.inputs =
          generateColumnNamesOnlyWithBaseProperties asciiClasses r.eventInfo.inputs := by
    simpa using List.all_eq_true.mp hInfos r hr
  refine (decodedAsItIs_iff asciiClasses zeroKeccak id (vaultIndexer [depositEther]) false hCreate hAbi
    (processContract_vault (by decide)) hr).mpr ⟨depositEther.toItem, ?_,
      ⟨_, formatEventSignature_toItem depositEther, by rw [hSignature]⟩, hColumns, fun _ _ => ?_⟩
  · rw [hName]
    rfl
  · rw [hName]
    have hTable : ((eventTable asciiClasses (contractSchema asciiClasses (vaultIndexer [depositEther])
        (vaultContract [depositEther])) depositEther.name).bind fun table =>
          (eventTableDdl asciiClasses depositEther.toItem.inputs).bind fun ddl =>
            if (generateTablesForIndexerSql asciiClasses zeroKeccak (vaultIndexer [depositEther])
                false).firstDefinition table = some ddl ∧
              some (.rekey table cursorKey) ∉ generateTablesForIndexerSql asciiClasses zeroKeccak
                (vaultIndexer [depositEther]) false then some () else none) = some () := by
      decide
    obtain ⟨table, hEventTable, hTable⟩ := Option.bind_eq_some_iff.mp hTable
    obtain ⟨ddl, hDdl, hTable⟩ := Option.bind_eq_some_iff.mp hTable
    have hBoth := (Option.ite_none_right_eq_some.mp hTable).1
    exact ⟨table, ddl, hEventTable, hDdl, hBoth.1, hBoth.2⟩

end Rindexer.Indexer
