import Rindexer.Tables.Batching
import Rindexer.Tables.Checkpoint

/-! When a list of events leaves the same rows in the custom tables however it is cut into batches. -/

namespace Rindexer.Tables

open Rindexer.Database Rindexer.Lib Rindexer.Manifest Rindexer.Reorg BatchOperation

variable {ε : Type}

def EventData.sequenceId (e : EventData ε) : Nat :=
  computeSequenceId e.txMetadata.blockNumber e.txMetadata.txIndex e.txMetadata.logIndex

namespace Operation

/-- The rows of a batch of events, as the statements get them. -/
def rows (x : Extraction ε) (t : Texts) (op : Operation) (events : List (EventData ε)) :
    List TableRow :=
  (op.batchRows x events).map (op.tableRow t)

variable {x : Extraction ε} {t : Texts} {op : Operation} {b : BatchOperation}

theorem rows_append (first second : List (EventData ε)) :
    op.rows x t (first ++ second) = op.rows x t first ++ op.rows x t second := by
  rw [rows, batchRows, List.flatMap_append, List.map_append]
  rfl

theorem rows_cons (e : EventData ε) (events : List (EventData ε)) :
    op.rows x t (e :: events) = op.rows x t [e] ++ op.rows x t events :=
  rows_append [e] events

theorem sequenceId_of_mem_rows {e : EventData ε} {row : TableRow} (h : row ∈ op.rows x t [e]) :
    row.sequenceId = e.sequenceId := by
  obtain ⟨data, hData, rfl⟩ := List.mem_map.mp h
  obtain ⟨e', he', rows, hRows, hMem⟩ := mem_batchRows.mp hData
  cases List.mem_singleton.mp he'
  have hOrigin := (eventRows_origin hRows data hMem).2
  rw [EventData.sequenceId, ← hOrigin]
  rfl

theorem rows_ascending {events : List (EventData ε)}
    (h : events.Pairwise fun e e' => e.sequenceId < e'.sequenceId) :
    (op.rows x t events).Pairwise fun r r' => r.sequenceId ≤ r'.sequenceId := by
  induction events with
  | nil => exact List.Pairwise.nil
  | cons e events ih =>
    obtain ⟨hFirst, hRest⟩ := List.pairwise_cons.mp h
    rw [rows_cons]
    refine List.pairwise_append.mpr ⟨?_, ih hRest, fun r hr r' hr' => ?_⟩
    · refine List.pairwise_of_forall_mem_list fun r hr r' hr' => ?_
      rw [sequenceId_of_mem_rows hr, sequenceId_of_mem_rows hr']
    · obtain ⟨data, hData, rfl⟩ := List.mem_map.mp hr'
      obtain ⟨e', he', more, hRows, hMem⟩ := mem_batchRows.mp hData
      have hr'' : op.tableRow t data ∈ op.rows x t [e'] :=
        List.mem_map_of_mem (mem_batchRows.mpr ⟨e', by simp, more, hRows, hMem⟩)
      rw [sequenceId_of_mem_rows hr, sequenceId_of_mem_rows hr'']
      exact (hFirst e' he').le

theorem batch_columns (h : op.batch x t = some b) :
    b.type = op.operation.operationType ∧ b.keys = op.keys ∧ b.columns = op.columns t := by
  unfold batch at h
  split at h
  · cases h
    exact ⟨rfl, rfl, rfl⟩
  · cases h

/-- Operations on one table. -/
theorem batch_sameTable {op' : Operation} {b' : BatchOperation} (h : op.batch x t = some b)
    (h' : op'.batch x t = some b') (hTable : op.table = op'.table) : SameTable b b' := by
  obtain ⟨-, hKeys, hColumns⟩ := batch_columns h
  obtain ⟨-, hKeys', hColumns'⟩ := batch_columns h'
  refine ⟨by rw [hKeys, hKeys', keys, keys, hTable], ?_⟩
  rw [hColumns, hColumns', columns, columns, hTable]
  simp only [List.map_append, List.map_map]
  rfl

theorem tableRow_others (h : op.batch x t = some b) (row : TableRowData) {name : String}
    (hName : b.column? name = none) : (op.tableRow t row).fields name = .null := by
  rw [column?_eq_none_iff, (batch_columns h).2.2] at hName
  have hNetwork : ¬(name = "network" ∧ op.table.crossChain = false) := by
    rintro ⟨rfl, hCross⟩
    exact hName ⟨"network", .string, .whereColumn, none, false⟩
      (List.mem_append_left _ (List.mem_append_left _ (by simp [networkColumns, hCross]))) rfl
  have hInjected : ∀ c ∈ injectedColumns op.table, c.name ≠ name := fun c hc =>
    hName c (List.mem_append_right _ hc)
  have hTable : (op.table.columns.find? fun c => c.name == name) = none := by
    refine List.find?_eq_none.mpr fun c hc hEq => ?_
    exact hName (op.columnDefinition t c) (List.mem_append_left _ (List.mem_append_right _
      (List.mem_map_of_mem hc))) (by simpa [columnDefinition] using hEq)
  simp only [tableRow, if_neg hNetwork, hTable, injectedValue]
  simp only [injectedColumns] at hInjected
  rw [if_neg, if_neg, if_neg, if_neg, if_neg]
  · exact fun hEq => hInjected ⟨"rindexer_contract_address", .address, .set, none, false⟩ (by simp)
      hEq.symm
  · exact fun hEq => hInjected ⟨"rindexer_block_hash", .string, .set, none, false⟩ (by simp) hEq.symm
  · exact fun hEq => hInjected ⟨"rindexer_tx_hash", .string, .set, none, false⟩ (by simp) hEq.symm
  · exact fun hEq => hInjected ⟨"rindexer_block_timestamp", .timestamp, .set, none, false⟩
      (by simp [hEq.2]) hEq.1.symm
  · exact fun hEq => hInjected ⟨"rindexer_block_number", .uint64, .set, none, false⟩ (by simp)
      hEq.symm

theorem isNumber_of_holds {c : ColumnType} {value : SqlValue} (hNumeric : c.isNumeric = true)
    (h : c.holds value = true) : isNumber value := by
  by_cases hNull : value = .null
  · exact .inl hNull
  · exact .inr (numeric_of_holds hNumeric h hNull)

/-- A row whose parameters can be cast is a row as the table has them. -/
theorem tableRow_stored (h : op.batch x t = some b) {events : List (EventData ε)} {row : TableRow}
    (hRow : row ∈ op.rows x t events) (hCasts : b.casts row = true) : Stored b (b.key row) row := by
  obtain ⟨data, -, rfl⟩ := List.mem_map.mp hRow
  exact ⟨rfl, fun name hName => tableRow_others h data hName, fun c hc hNumeric =>
    isNumber_of_holds hNumeric (List.all_eq_true.mp hCasts c hc)⟩

end Operation

/-! ### Effects on one row -/

section Effects

variable (sv : Server) (x : Extraction ε) (t : Texts) (name : String) (key : List SqlValue)

/-- What an operation does for a batch of events to the row of a key of a table. -/
def keyEffect (op : Operation) (events : List (EventData ε)) (old : Option TableRow) :
    Option TableRow :=
  if op.table.name = name then
    match op.batch x t with
    | none => old
    | some b => b.piecesEffect sv key
        (chunks b.maxRowsPerBatch (op.rows x t events).length (op.rows x t events)) old
  else old

/-- The rows that an operation appends for a batch of events to a table. -/
def appendedRows (op : Operation) (events : List (EventData ε)) : List TableRow :=
  if op.table.name = name then
    match op.batch x t with
    | none => []
    | some b => if b.appends then op.rows x t events else []
  else []

/-- What an operation does for one event to the row of a key of a table. -/
def cell (op : Operation) (e : EventData ε) (old : Option TableRow) : Option TableRow :=
  if op.table.name = name then
    match op.batch x t with
    | none => old
    | some b =>
      if b.appends then old else (b.ofKey (op.rows x t [e]) key).foldl (b.effect sv) old
  else old

variable {sv x t}

/-- What is known of an operation that has run for a batch of events. -/
def Ran (x : Extraction ε) (t : Texts) (events : List (EventData ε)) (op : Operation) : Prop :=
  op.rows x t events ≠ [] → ∃ b, op.batch x t = some b ∧
    (∀ row ∈ op.rows x t events, b.casts row = true) ∧
    (b.type ≠ .insert → ∀ c ∈ b.columns, c.typed = true)

theorem executeOperation_effect {op : Operation} {events : List (EventData ε)}
    {store store' : String → Contents}
    (h : executeOperation sv x t op (op.batchRows x events) store = (store', none)) :
    (∀ key, (store' name).keyed key = keyEffect sv x t name key op events ((store name).keyed key)) ∧
      (store' name).appended = (store name).appended ++ appendedRows x t name op events ∧
      Ran x t events op := by
  unfold executeOperation at h
  cases hBatch : op.batch x t with
  | none =>
    simp only [hBatch] at h
    cases h
  | some b =>
    rcases hExecuted : b.execute sv ((op.batchRows x events).map (op.tableRow t)) (store op.table.name)
      with ⟨contents, _ | _⟩
    · simp only [hBatch, hExecuted] at h
      cases h
    · simp only [hBatch, hExecuted, Prod.mk.injEq, and_true] at h
      obtain ⟨hKeyed, hAppended, hCasts, hTyped⟩ := execute_effect hExecuted
      subst h
      refine ⟨fun key => ?_, ?_, fun hRows => ⟨b, hBatch, hCasts, hTyped hRows⟩⟩
      · rw [keyEffect]
        by_cases hName : op.table.name = name
        · subst hName
          simp only [Function.update_self, hBatch, if_true]
          exact hKeyed key
        · rw [if_neg hName, Function.update_of_ne fun hEq => hName hEq.symm]
      · rw [appendedRows]
        by_cases hName : op.table.name = name
        · subst hName
          simp only [Function.update_self, hBatch, if_true]
          exact hAppended
        · rw [if_neg hName, Function.update_of_ne fun hEq => hName hEq.symm, List.append_nil]

theorem keyEffect_of_rows_nil {op : Operation} {events : List (EventData ε)}
    (h : op.rows x t events = []) (old : Option TableRow) :
    keyEffect sv x t name key op events old = old := by
  rw [keyEffect, h]
  split
  · cases op.batch x t <;> rfl
  · rfl

theorem runOperations_effect {ops : List Operation} {events : List (EventData ε)}
    {store store' : String → Contents}
    (h : runOperations x (executeOperation sv x t) events ops store = some store') :
    (∀ key, (store' name).keyed key =
        ops.foldl (fun old op => keyEffect sv x t name key op events old) ((store name).keyed key)) ∧
      (store' name).appended =
        (store name).appended ++ ops.flatMap (fun op => appendedRows x t name op events) ∧
      ∀ op ∈ ops, Ran x t events op := by
  induction ops generalizing store with
  | nil =>
    cases h
    simp
  | cons op ops ih =>
    rw [runOperations] at h
    split at h
    · next hNil =>
      have hRows : op.rows x t events = [] := by rw [Operation.rows, hNil, List.map_nil]
      obtain ⟨hKeyed, hAppended, hRan⟩ := ih h
      refine ⟨fun key => ?_, ?_, ?_⟩
      · rw [List.foldl_cons, keyEffect_of_rows_nil name key hRows]
        exact hKeyed key
      · rw [List.flatMap_cons, hAppended]
        congr 1
        rw [appendedRows, hRows]
        split
        · cases op.batch x t with
          | none => rfl
          | some b => simp
        · rfl
      · intro op' hOp'
        rcases List.mem_cons.mp hOp' with rfl | hOp'
        · exact fun hNot => absurd hRows hNot
        · exact hRan op' hOp'
    · rcases hExecuted : executeOperation sv x t op (op.batchRows x events) store with ⟨next, _ | m⟩
      · simp only [hExecuted] at h
        obtain ⟨hKeyed, hAppended, hRan⟩ := executeOperation_effect name hExecuted
        obtain ⟨hKeyed', hAppended', hRan'⟩ := ih h
        refine ⟨fun key => ?_, ?_, ?_⟩
        · rw [hKeyed', hKeyed, List.foldl_cons]
        · rw [hAppended', hAppended, List.flatMap_cons, List.append_assoc]
        · intro op' hOp'
          rcases List.mem_cons.mp hOp' with rfl | hOp'
          · exact hRan
          · exact hRan' op' hOp'
      · simp only [hExecuted] at h
        cases h

theorem processBatches_effect {tables : List Table} {eventName : String}
    {batches : List (List (EventData ε))} {store store' : String → Contents}
    (h : processBatches sv x t tables eventName batches store = (store', none)) :
    (∀ key, (store' name).keyed key =
        batches.foldl (fun old events => (operationsFor eventName tables).foldl
          (fun old op => keyEffect sv x t name key op events old) old) ((store name).keyed key)) ∧
      (store' name).appended = (store name).appended ++ batches.flatMap fun events =>
        (operationsFor eventName tables).flatMap fun op => appendedRows x t name op events := by
  induction batches generalizing store with
  | nil =>
    cases h
    simp
  | cons events batches ih =>
    rw [processBatches] at h
    rcases hCall : processTableOperations x (executeOperation sv x t) events none tables eventName store
      with ⟨s, _ | stop⟩
    · simp only [hCall] at h
      obtain ⟨hKeyed, hAppended, -⟩ := runOperations_effect name (processTableOperations_store hCall)
      obtain ⟨hKeyed', hAppended'⟩ := ih h
      refine ⟨fun key => ?_, ?_⟩
      · rw [hKeyed', hKeyed, List.foldl_cons]
      · rw [hAppended', hAppended, List.flatMap_cons, List.append_assoc]
    · simp only [hCall] at h
      cases h

end Effects

/-! ### Transparency -/

/-- An arithmetic update for several rows of one key. -/
def Repeats (b : BatchOperation) (rows : List TableRow) : Prop :=
  b.type = .update ∧ b.hasArithmetic = true ∧ 2 ≤ rows.length

/-- The events and the tables for which the order of operations and events does not matter. -/
structure Transparent (x : Extraction ε) (t : Texts) (ops : List Operation)
    (events : List (EventData ε)) (store : String → Contents) : Prop where
  ascending : events.Pairwise fun e e' => e.sequenceId < e'.sequenceId
  coalescible : ∀ op ∈ ops, ∀ b, op.batch x t = some b → ∀ key,
    2 ≤ (b.ofKey (op.rows x t events) key).length → Coalescible b (b.ofKey (op.rows x t events) key)
  fresh : ∀ op ∈ ops, ∀ b, op.batch x t = some b → ∀ key,
    Repeats b (b.ofKey (op.rows x t events) key) →
    Fresh (b.ofKey (op.rows x t events) key) ((store op.table.name).keyed key)
  alone : ops.Pairwise fun op op' => op.table.name = op'.table.name → ∀ b b',
    op.batch x t = some b → op'.batch x t = some b' → ∀ key,
      (Repeats b (b.ofKey (op.rows x t events) key) → b'.ofKey (op'.rows x t events) key = []) ∧
      (Repeats b' (b'.ofKey (op'.rows x t events) key) → b.ofKey (op.rows x t events) key = [])
  commutes : ops.Pairwise fun op op' => op.table.name = op'.table.name → ∀ b b',
    op.batch x t = some b → op'.batch x t = some b' → b.appends = false →
      events.Pairwise fun e e' => ∀ l ∈ op.rows x t [e'], ∀ r ∈ op'.rows x t [e],
        b.key l = b'.key r → Commutes b b' l r

section Runs

variable {sv : Server} {x : Extraction ε} {t : Texts} {name : String} {key : List SqlValue}

theorem foldl_idle {α σ : Type} {f : α → σ → σ} {items : List α} (h : ∀ a ∈ items, ∀ s, f a s = s)
    (s : σ) : items.foldl (fun s a => f a s) s = s := by
  induction items with
  | nil => rfl
  | cons a items ih =>
    rw [List.foldl_cons, h a List.mem_cons_self, ih fun b hb => h b (List.mem_cons_of_mem _ hb)]

theorem foldl_cells {b : BatchOperation} {op : Operation} (hName : op.table.name = name)
    (hBatch : op.batch x t = some b) (hAppends : b.appends = false) (events : List (EventData ε))
    (old : Option TableRow) :
    events.foldl (fun old e => cell sv x t name key op e old) old =
      (b.ofKey (op.rows x t events) key).foldl (b.effect sv) old := by
  induction events generalizing old with
  | nil => rfl
  | cons e events ih =>
    rw [List.foldl_cons, ih, Operation.rows_cons]
    rw [show b.ofKey (op.rows x t [e] ++ op.rows x t events) key =
      b.ofKey (op.rows x t [e]) key ++ b.ofKey (op.rows x t events) key from List.filter_append ..,
      List.foldl_append]
    congr 1
    simp only [cell, hName, hBatch, hAppends, if_true, Bool.false_eq_true, if_false]

theorem piecesEffect_appends {b : BatchOperation} (h : b.appends = true)
    (batches : List (List TableRow)) (old : Option TableRow) :
    b.piecesEffect sv key batches old = old := by
  induction batches generalizing old with
  | nil => rfl
  | cons rows batches ih =>
    rw [piecesEffect, List.foldl_cons, pieceEffect, if_pos h]
    exact ih old

/-- The row of a key, as the operations on its table have it. -/
def StoredFor (x : Extraction ε) (t : Texts) (name : String) (key : List SqlValue)
    (ops : List Operation) (old : Option TableRow) : Prop :=
  ∀ op ∈ ops, op.table.name = name → ∀ b, op.batch x t = some b → StoredAt b key old

theorem stored_of_mem {ops : List Operation} {events : List (EventData ε)}
    (hRan : ∀ op ∈ ops, Ran x t events op) {op : Operation} (hOp : op ∈ ops) {b : BatchOperation}
    (hBatch : op.batch x t = some b) {row : TableRow} (hRow : row ∈ b.ofKey (op.rows x t events) key) :
    Stored b key row := by
  obtain ⟨hMem, hKey⟩ := List.mem_filter.mp hRow
  obtain ⟨b', hBatch', hCasts, -⟩ := hRan op hOp (List.ne_nil_of_mem hMem)
  rw [hBatch] at hBatch'
  cases hBatch'
  have hStored := Operation.tableRow_stored hBatch hMem (hCasts row hMem)
  rwa [show b.key row = key by simpa using hKey] at hStored

theorem mem_rows_of_mem {op : Operation} {events : List (EventData ε)} {e : EventData ε}
    (he : e ∈ events) {row : TableRow} (hRow : row ∈ op.rows x t [e]) : row ∈ op.rows x t events := by
  obtain ⟨first, second, rfl⟩ := List.append_of_mem he
  rw [Operation.rows_append, Operation.rows_cons]
  exact List.mem_append_right _ (List.mem_append_left _ hRow)

theorem cell_stored {ops : List Operation} {events : List (EventData ε)}
    (hSame : ∀ op ∈ ops, ∀ op' ∈ ops, op.table.name = op'.table.name → op.table = op'.table)
    (hRan : ∀ op ∈ ops, Ran x t events op) {op : Operation} (hOp : op ∈ ops) {e : EventData ε}
    (he : e ∈ events) {old : Option TableRow} (hOld : StoredFor x t name key ops old) :
    StoredFor x t name key ops (cell sv x t name key op e old) := by
  intro op' hOp' hName' b' hBatch'
  rw [cell]
  by_cases hName : op.table.name = name
  · rw [if_pos hName]
    cases hBatch : op.batch x t with
    | none => exact hOld op' hOp' hName' b' hBatch'
    | some b =>
      simp only
      split
      · exact hOld op' hOp' hName' b' hBatch'
      · have hTables := Operation.batch_sameTable hBatch hBatch'
          (hSame op hOp op' hOp' (hName.trans hName'.symm))
        have hKept : StoredAt b key ((b.ofKey (op.rows x t [e]) key).foldl (b.effect sv) old) :=
          foldl_stored (hOld op hOp hName b hBatch) fun row hRow => by
            refine stored_of_mem hRan hOp hBatch ?_
            obtain ⟨hMem, hKey⟩ := List.mem_filter.mp hRow
            exact List.mem_filter.mpr ⟨mem_rows_of_mem he hMem, hKey⟩
        exact fun row hRow => hTables.stored (hKept row hRow)
  · rw [if_neg hName]
    exact hOld op' hOp' hName' b' hBatch'

/-- An operation is applied event by event, whatever its statements are, unless it is an arithmetic
update for several rows. -/
theorem keyEffect_eq_cells {ops : List Operation} {events pre es post : List (EventData ε)}
    {store : String → Contents} (hEvents : events = pre ++ es ++ post)
    (hRan : ∀ op ∈ ops, Ran x t events op) (h : Transparent x t ops events store) {op : Operation}
    (hOp : op ∈ ops) (hOnce : op.table.name = name → ∀ b, op.batch x t = some b →
      ¬Repeats b (b.ofKey (op.rows x t events) key)) {old : Option TableRow}
    (hOld : StoredFor x t name key ops old) :
    keyEffect sv x t name key op es old =
      es.foldl (fun old e => cell sv x t name key op e old) old := by
  have hRows : op.rows x t events = op.rows x t pre ++ op.rows x t es ++ op.rows x t post := by
    rw [hEvents, Operation.rows_append, Operation.rows_append]
  by_cases hName : op.table.name = name
  · cases hBatch : op.batch x t with
    | none =>
      rw [foldl_idle fun e _ old => by simp only [cell, hName, hBatch, if_true]]
      simp only [keyEffect, hName, hBatch, if_true]
    | some b =>
      cases hAppends : b.appends with
      | true =>
        rw [foldl_idle fun e _ old => by simp only [cell, hName, hBatch, hAppends, if_true]]
        simp only [keyEffect, hName, hBatch, if_true]
        exact piecesEffect_appends hAppends _ _
      | false =>
        rw [foldl_cells hName hBatch hAppends]
        by_cases hNil : op.rows x t events = []
        · have hNone : op.rows x t es = [] := by
            rw [hRows] at hNil
            exact (List.append_eq_nil_iff.mp (List.append_eq_nil_iff.mp hNil).1).2
          rw [keyEffect_of_rows_nil name key hNone, hNone]
          rfl
        · obtain ⟨b', hBatch', -, hTyped⟩ := hRan op hOp hNil
          rw [hBatch] at hBatch'
          cases hBatch'
          have hOf : b.ofKey (op.rows x t events) key = b.ofKey (op.rows x t pre) key ++
              b.ofKey (op.rows x t es) key ++ b.ofKey (op.rows x t post) key := by
            rw [hRows, ofKey, List.filter_append, List.filter_append]
            rfl
          have hLonger : 2 ≤ (b.ofKey (op.rows x t es) key).length →
              2 ≤ (b.ofKey (op.rows x t events) key).length := fun hLength => by
            rw [hOf, List.length_append, List.length_append]
            omega
          have hAscending : (op.rows x t events).Pairwise fun r r' => r.sequenceId ≤ r'.sequenceId :=
            Operation.rows_ascending h.ascending
          have hOrder := hAscending.filter fun row => decide (b.key row = key)
          have hSplit := flatten_chunks_maxRowsPerBatch (b := b) (op.rows x t es)
          simp only [keyEffect, hName, hBatch, if_true]
          rw [piecesEffect_eq hAppends hTyped, hSplit]
          · rw [hSplit]
            intro row hRow
            refine stored_of_mem hRan hOp hBatch ?_
            rw [hOf]
            exact List.mem_append_left _ (List.mem_append_right _ hRow)
          · exact hOld op hOp hName b hBatch
          · rw [hSplit]
            rw [show (op.rows x t events).filter (fun row => decide (b.key row = key)) =
              b.ofKey (op.rows x t events) key from rfl, hOf] at hOrder
            exact (List.pairwise_append.mp (List.pairwise_append.mp hOrder).1).2.1
          · rw [hSplit]
            intro hLength
            have hCoalescible := h.coalescible op hOp b hBatch key (hLonger hLength)
            rw [hOf] at hCoalescible
            exact hCoalescible.left.right
          · rw [hSplit]
            intro hLength hUpdate hArithmetic
            exact absurd ⟨hUpdate, hArithmetic, hLonger hLength⟩ (hOnce hName b hBatch)
  · rw [foldl_idle fun e _ old => by simp only [cell, hName, if_false]]
    simp only [keyEffect, hName, if_false]

theorem foldl_effects_comm {b b' : BatchOperation} (hSame : SameTable b b')
    (hTyped : b.type ≠ .insert → ∀ c ∈ b.columns, c.typed = true)
    (hTyped' : b'.type ≠ .insert → ∀ c ∈ b'.columns, c.typed = true)
    {late early : List TableRow} (hLate : ∀ l ∈ late, Stored b key l) (hEarly : ∀ e ∈ early, Stored b key e)
    (h : ∀ l ∈ late, ∀ e ∈ early, Commutes b b' l e ∧ e.sequenceId < l.sequenceId)
    {old : Option TableRow} (hOld : StoredAt b key old) :
    early.foldl (b'.effect sv) (late.foldl (b.effect sv) old) =
      late.foldl (b.effect sv) (early.foldl (b'.effect sv) old) := by
  have hKeep' : ∀ e ∈ early, ∀ old, StoredAt b key old → StoredAt b key (b'.effect sv old e) := by
    intro e he old hOld row hRow
    refine hSame.symm.stored (effect_stored (fun r hr => hSame.stored (hOld r hr))
      (hSame.stored (hEarly e he)) row hRow)
  refine foldl_comm (P := StoredAt b key) (g := fun e old => b'.effect sv old e)
    (u := fun old => late.foldl (b.effect sv) old) hKeep' (fun e he old hOld => ?_) hOld
  refine (foldl_comm (P := StoredAt b key) (g := fun l old => b.effect sv old l)
    (u := fun old => b'.effect sv old e) (fun l hl old hOld => effect_stored hOld (hLate l hl))
    (fun l hl old hOld => ?_) hOld).symm
  obtain ⟨hCommutes, hLt⟩ := h l hl e he
  exact (effect_comm hSame hTyped hTyped' hCommutes (hLate l hl) (hEarly e he) hOld hLt).symm

/-- An operation for a later event commutes with a later operation for an earlier event. -/
theorem cells_comm {ops : List Operation} {events : List (EventData ε)} {op op' : Operation}
    (hOp : op ∈ ops) (hOp' : op' ∈ ops)
    (hSame : ∀ op ∈ ops, ∀ op' ∈ ops, op.table.name = op'.table.name → op.table = op'.table)
    (hRan : ∀ op ∈ ops, Ran x t events op) {e e' : EventData ε} (he : e ∈ events) (he' : e' ∈ events)
    (hLt : e.sequenceId < e'.sequenceId)
    (h : op.table.name = op'.table.name → ∀ b b', op.batch x t = some b → op'.batch x t = some b' →
      b.appends = false → ∀ l ∈ op.rows x t [e'], ∀ r ∈ op'.rows x t [e], b.key l = b'.key r →
        Commutes b b' l r)
    {old : Option TableRow} (hOld : StoredFor x t name key ops old) :
    cell sv x t name key op' e (cell sv x t name key op e' old) =
      cell sv x t name key op e' (cell sv x t name key op' e old) := by
  by_cases hName : op.table.name = name
  swap
  · simp only [cell, hName, if_false]
  by_cases hName' : op'.table.name = name
  swap
  · simp only [cell, hName', if_false]
  cases hBatch : op.batch x t with
  | none => simp only [cell, hName, hBatch, if_true]
  | some b =>
    cases hBatch' : op'.batch x t with
    | none => simp only [cell, hName', hBatch', if_true]
    | some b' =>
      cases hAppends : b.appends with
      | true => simp only [cell, hName, hBatch, hAppends, if_true]
      | false =>
        cases hAppends' : b'.appends with
        | true => simp only [cell, hName', hBatch', hAppends', if_true]
        | false =>
          have hNames := hName.trans hName'.symm
          have hTables := Operation.batch_sameTable hBatch hBatch' (hSame op hOp op' hOp' hNames)
          simp only [cell, hName, hName', hBatch, hBatch', hAppends, hAppends', if_true,
            Bool.false_eq_true, if_false]
          by_cases hLateNil : b.ofKey (op.rows x t [e']) key = []
          · rw [hLateNil]
            rfl
          by_cases hEarlyNil : b'.ofKey (op'.rows x t [e]) key = []
          · rw [hEarlyNil]
            rfl
          obtain ⟨l, hl⟩ := List.exists_mem_of_ne_nil _ hLateNil
          obtain ⟨r, hr⟩ := List.exists_mem_of_ne_nil _ hEarlyNil
          have hMem : ∀ l ∈ b.ofKey (op.rows x t [e']) key,
              l ∈ op.rows x t [e'] ∧ b.key l = key := fun l hl => by
            simpa [ofKey] using hl
          have hMem' : ∀ r ∈ b'.ofKey (op'.rows x t [e]) key,
              r ∈ op'.rows x t [e] ∧ b'.key r = key := fun r hr => by
            simpa [ofKey] using hr
          obtain ⟨b₁, hb₁, -, hTyped⟩ := hRan op hOp
            (List.ne_nil_of_mem (mem_rows_of_mem he' (hMem l hl).1))
          obtain ⟨b₂, hb₂, -, hTyped'⟩ := hRan op' hOp'
            (List.ne_nil_of_mem (mem_rows_of_mem he (hMem' r hr).1))
          rw [hBatch] at hb₁
          rw [hBatch'] at hb₂
          cases hb₁
          cases hb₂
          refine foldl_effects_comm hTables hTyped hTyped' (fun l hl => ?_) (fun r hr => ?_)
            (fun l hl r hr => ⟨?_, ?_⟩) (hOld op hOp hName b hBatch)
          · exact stored_of_mem hRan hOp hBatch
              (List.mem_filter.mpr ⟨mem_rows_of_mem he' (hMem l hl).1, by simpa using (hMem l hl).2⟩)
          · refine hTables.symm.stored (stored_of_mem hRan hOp' hBatch' (List.mem_filter.mpr
              ⟨mem_rows_of_mem he (hMem' r hr).1, by simpa using (hMem' r hr).2⟩))
          · exact h hNames b b' hBatch hBatch' hAppends l (hMem l hl).1 r (hMem' r hr).1
              ((hMem l hl).2.trans (hMem' r hr).2.symm)
          · rw [Operation.sequenceId_of_mem_rows (hMem l hl).1,
              Operation.sequenceId_of_mem_rows (hMem' r hr).1]
            exact hLt

theorem rowMajor_cells {ops : List Operation} {events pre es post : List (EventData ε)}
    {store : String → Contents} (hEvents : events = pre ++ es ++ post)
    (hSame : ∀ op ∈ ops, ∀ op' ∈ ops, op.table.name = op'.table.name → op.table = op'.table)
    (hRan : ∀ op ∈ ops, Ran x t events op) (h : Transparent x t ops events store)
    (hOnce : ∀ op ∈ ops, op.table.name = name → ∀ b, op.batch x t = some b →
      ¬Repeats b (b.ofKey (op.rows x t events) key)) {old : Option TableRow}
    (hOld : StoredFor x t name key ops old) :
    ops.foldl (fun old op => keyEffect sv x t name key op es old) old =
      rowMajor (cell sv x t name key) ops es old := by
  have hMem : ∀ e ∈ es, e ∈ events := fun e he => by
    rw [hEvents]
    exact List.mem_append_left _ (List.mem_append_right _ he)
  refine foldl_congr_keeps (P := StoredFor x t name key ops)
    (g := fun op old => keyEffect sv x t name key op es old)
    (fun op hOp old hOld => ?_) (fun op hOp old hOld => ?_) hOld
  · exact foldl_keeps (g := fun e old => cell sv x t name key op e old)
      (fun e he old hOld => cell_stored hSame hRan hOp (hMem e he) hOld) hOld
  · exact keyEffect_eq_cells hEvents hRan h hOp (hOnce op hOp) hOld

/-- Batch by batch, where no arithmetic update has several rows for the key. -/
theorem foldl_batches_once {ops : List Operation} {batches : List (List (EventData ε))}
    {store : String → Contents}
    (hSame : ∀ op ∈ ops, ∀ op' ∈ ops, op.table.name = op'.table.name → op.table = op'.table)
    (hRan : ∀ op ∈ ops, Ran x t batches.flatten op) (h : Transparent x t ops batches.flatten store)
    (hOnce : ∀ op ∈ ops, op.table.name = name → ∀ b, op.batch x t = some b →
      ¬Repeats b (b.ofKey (op.rows x t batches.flatten) key)) {old : Option TableRow}
    (hOld : StoredFor x t name key ops old) :
    batches.foldl (fun old es =>
        ops.foldl (fun old op => keyEffect sv x t name key op es old) old) old =
      ops.foldl (fun old op => keyEffect sv x t name key op batches.flatten old) old := by
  have hKeep : ∀ op ∈ ops, ∀ e ∈ batches.flatten, ∀ old, StoredFor x t name key ops old →
      StoredFor x t name key ops (cell sv x t name key op e old) := fun op hOp e he old hOld =>
    cell_stored hSame hRan hOp he hOld
  have hPairs := h.commutes
  have hComm : ops.Pairwise fun op op' => batches.flatten.Pairwise fun e e' => ∀ old,
      StoredFor x t name key ops old → cell sv x t name key op' e (cell sv x t name key op e' old) =
        cell sv x t name key op e' (cell sv x t name key op' e old) := by
    refine (List.Pairwise.and_mem.mp hPairs).imp fun {op op'} ⟨hOp, hOp', hPair⟩ => ?_
    by_cases hBoth : op.table.name = op'.table.name ∧ ∃ b b', op.batch x t = some b ∧
        op'.batch x t = some b' ∧ b.appends = false
    · obtain ⟨hNames, b, b', hBatch, hBatch', hAppends⟩ := hBoth
      have hInner := (hPair hNames b b' hBatch hBatch' hAppends).and h.ascending
      refine (List.Pairwise.and_mem.mp hInner).imp fun {e e'} ⟨he, he', hCommutes, hLt⟩ old hOld => ?_
      refine cells_comm hOp hOp' hSame hRan he he' hLt (fun _ b₁ b₂ hb₁ hb₂ _ => ?_) hOld
      rw [hBatch] at hb₁
      rw [hBatch'] at hb₂
      cases hb₁
      cases hb₂
      exact hCommutes
    · refine (List.Pairwise.and_mem.mp h.ascending).imp fun {e e'} ⟨he, he', hLt⟩ old hOld => ?_
      exact cells_comm hOp hOp' hSame hRan he he' hLt (fun hNames b b' hBatch hBatch' hAppends =>
        absurd ⟨hNames, b, b', hBatch, hBatch', hAppends⟩ hBoth) hOld
  have hEvents : batches.flatten = [] ++ batches.flatten ++ [] := by simp
  rw [rowMajor_cells hEvents hSame hRan h hOnce hOld, ← foldl_rowMajor_flatten hKeep hComm hOld]
  refine foldl_congr_keeps (P := StoredFor x t name key ops)
    (g := fun es old => ops.foldl (fun old op => keyEffect sv x t name key op es old) old)
    (fun es hEs old hOld => ?_) (fun es hEs old hOld => ?_) hOld
  · have hMem : ∀ e ∈ es, e ∈ batches.flatten := fun e he => List.mem_flatten.mpr ⟨es, hEs, he⟩
    exact foldl_keeps (g := fun op old => es.foldl (fun old e => cell sv x t name key op e old) old)
      (fun op hOp old hOld => foldl_keeps (g := fun e old => cell sv x t name key op e old)
        (fun e he old hOld => hKeep op hOp e (hMem e he) old hOld) hOld) hOld
  · obtain ⟨first, second, hBatches⟩ := List.append_of_mem hEs
    have hSplit : batches.flatten = first.flatten ++ es ++ second.flatten := by
      rw [hBatches, List.flatten_append, List.flatten_cons, List.append_assoc]
    exact rowMajor_cells hSplit hSame hRan h hOnce hOld

theorem piecesEffect_nil {b : BatchOperation} {batches : List (List TableRow)}
    (h : b.ofKey batches.flatten key = []) (old : Option TableRow) :
    b.piecesEffect sv key batches old = old := by
  induction batches generalizing old with
  | nil => rfl
  | cons rows batches ih =>
    rw [List.flatten_cons, ofKey, List.filter_append, List.append_eq_nil_iff] at h
    rw [piecesEffect, List.foldl_cons, show b.ofKey rows key = [] from h.1]
    have hPiece : b.pieceEffect sv old [] = old := by
      rw [pieceEffect, coalesce_nil]
      split
      · rfl
      · split <;> rfl
    rw [hPiece]
    exact ih h.2 old

theorem piecesEffect_append {b : BatchOperation} (first second : List (List TableRow))
    (old : Option TableRow) : b.piecesEffect sv key (first ++ second) old =
      b.piecesEffect sv key second (b.piecesEffect sv key first old) :=
  List.foldl_append

theorem rows_flatten (op : Operation) (batches : List (List (EventData ε))) :
    op.rows x t batches.flatten = (batches.map (op.rows x t)).flatten := by
  induction batches with
  | nil => rfl
  | cons events batches ih =>
    rw [List.flatten_cons, Operation.rows_append, ih, List.map_cons, List.flatten_cons]

/-- An operation without rows for the key does nothing there. -/
theorem keyEffect_idle {op : Operation} {events : List (EventData ε)}
    (h : op.table.name = name → ∀ b, op.batch x t = some b → b.ofKey (op.rows x t events) key = [])
    (old : Option TableRow) : keyEffect sv x t name key op events old = old := by
  by_cases hName : op.table.name = name
  · cases hBatch : op.batch x t with
    | none => simp only [keyEffect, hName, hBatch, if_true]
    | some b =>
      simp only [keyEffect, hName, hBatch, if_true]
      exact piecesEffect_nil (by rw [flatten_chunks_maxRowsPerBatch]; exact h hName b hBatch) old
  · simp only [keyEffect, hName, if_false]

theorem foldl_keyEffect_alone {first second : List Operation} {op : Operation}
    {events : List (EventData ε)}
    (h : ∀ op' ∈ first ++ second, op'.table.name = name → ∀ b', op'.batch x t = some b' →
      b'.ofKey (op'.rows x t events) key = []) (old : Option TableRow) :
    (first ++ op :: second).foldl (fun old op => keyEffect sv x t name key op events old) old =
      keyEffect sv x t name key op events old := by
  rw [List.foldl_append, List.foldl_cons,
    foldl_idle fun op' hOp' old => keyEffect_idle (h op' (List.mem_append_left _ hOp')) old,
    foldl_idle fun op' hOp' old => keyEffect_idle (h op' (List.mem_append_right _ hOp')) old]

/-- Batch by batch, where an arithmetic update has several rows for the key: it is the only operation
that has any. -/
theorem foldl_batches_repeated {ops : List Operation} {batches : List (List (EventData ε))}
    {store : String → Contents} (hRan : ∀ op ∈ ops, Ran x t batches.flatten op)
    (h : Transparent x t ops batches.flatten store) {op : Operation} (hOp : op ∈ ops)
    (hName : op.table.name = name) {b : BatchOperation} (hBatch : op.batch x t = some b)
    (hRepeats : Repeats b (b.ofKey (op.rows x t batches.flatten) key))
    (hOld : StoredAt b key ((store name).keyed key)) :
    batches.foldl (fun old es =>
        ops.foldl (fun old op => keyEffect sv x t name key op es old) old) ((store name).keyed key) =
      ops.foldl (fun old op => keyEffect sv x t name key op batches.flatten old)
        ((store name).keyed key) := by
  obtain ⟨hUpdate, hArithmetic, hTwo⟩ := hRepeats
  have hAppends : b.appends = false := by simp [appends, hUpdate]
  have hMem : ∀ row ∈ b.ofKey (op.rows x t batches.flatten) key, Stored b key row := fun row hRow =>
    stored_of_mem hRan hOp hBatch hRow
  have hNonempty : op.rows x t batches.flatten ≠ [] := fun hNil => by
    rw [hNil] at hTwo
    simp [ofKey] at hTwo
  obtain ⟨b', hBatch', -, hTyped⟩ := hRan op hOp hNonempty
  rw [hBatch] at hBatch'
  cases hBatch'
  have hCoalescible := h.coalescible op hOp b hBatch key hTwo
  have hFresh := h.fresh op hOp b hBatch key ⟨hUpdate, hArithmetic, hTwo⟩
  rw [hName] at hFresh
  have hAscending : (op.rows x t batches.flatten).Pairwise fun r r' => r.sequenceId ≤ r'.sequenceId :=
    Operation.rows_ascending h.ascending
  -- Whatever the statements, the rows of the key are applied one after the other.
  have hPieces : ∀ pieces : List (List TableRow), pieces.flatten = op.rows x t batches.flatten →
      b.piecesEffect sv key pieces ((store name).keyed key) =
        (b.ofKey (op.rows x t batches.flatten) key).foldl (b.effect sv) ((store name).keyed key) := by
    intro pieces hPieces
    rw [piecesEffect_eq hAppends hTyped, hPieces]
    · rwa [hPieces]
    · exact hOld
    · rw [hPieces]
      exact hAscending.filter fun row => decide (b.key row = key)
    · rw [hPieces]
      exact fun _ => hCoalescible
    · rw [hPieces]
      exact fun _ _ _ => hFresh
  obtain ⟨first, second, rfl⟩ := List.append_of_mem hOp
  have hAlone : ∀ op' ∈ first ++ second, op'.table.name = name → ∀ b', op'.batch x t = some b' →
      b'.ofKey (op'.rows x t batches.flatten) key = [] := by
    intro op' hOp' hName' b' hBatch'
    obtain ⟨-, hSecond, hFirst⟩ := List.pairwise_append.mp h.alone
    rcases List.mem_append.mp hOp' with hOp' | hOp'
    · exact (hFirst op' hOp' op List.mem_cons_self (hName'.trans hName.symm) b' b hBatch' hBatch
        key).2 ⟨hUpdate, hArithmetic, hTwo⟩
    · exact ((List.pairwise_cons.mp hSecond).1 op' hOp' (hName.trans hName'.symm) b b' hBatch hBatch'
        key).1 ⟨hUpdate, hArithmetic, hTwo⟩
  have hBatches : ∀ (batches' : List (List (EventData ε))) (old : Option TableRow),
      (∀ es ∈ batches', es ∈ batches) → batches'.foldl (fun old es => (first ++ op :: second).foldl
          (fun old op => keyEffect sv x t name key op es old) old) old =
        b.piecesEffect sv key (batches'.flatMap fun es =>
          chunks b.maxRowsPerBatch (op.rows x t es).length (op.rows x t es)) old := by
    intro batches' old hSub
    induction batches' generalizing old with
    | nil => rfl
    | cons es batches' ih =>
      have hEs : ∀ op' ∈ first ++ second, op'.table.name = name → ∀ b', op'.batch x t = some b' →
          b'.ofKey (op'.rows x t es) key = [] := by
        intro op' hOp' hName' b' hBatch'
        refine List.filter_eq_nil_iff.mpr fun row hRow => ?_
        refine List.filter_eq_nil_iff.mp (hAlone op' hOp' hName' b' hBatch') row ?_
        rw [rows_flatten]
        exact List.mem_flatten.mpr ⟨_, List.mem_map_of_mem (hSub es List.mem_cons_self), hRow⟩
      rw [List.foldl_cons, foldl_keyEffect_alone hEs,
        ih _ fun es' hEs' => hSub es' (List.mem_cons_of_mem _ hEs'), List.flatMap_cons,
        piecesEffect_append]
      simp only [keyEffect, hName, hBatch, if_true]
  rw [hBatches batches _ fun _ h => h, foldl_keyEffect_alone hAlone, hPieces]
  · simp only [keyEffect, hName, hBatch, if_true]
    rw [hPieces _ (flatten_chunks_maxRowsPerBatch _)]
  · have hStatements := flatten_statements (b := b) (batches.map (op.rows x t))
    rw [List.flatMap_map] at hStatements
    rw [hStatements, rows_flatten]

theorem flatMap_appendedRows (ops : List Operation) (batches : List (List (EventData ε))) :
    (ops.flatMap fun op => appendedRows x t name op batches.flatten).Perm
      (batches.flatMap fun events => ops.flatMap fun op => appendedRows x t name op events) := by
  have hAppend : ∀ (op : Operation) (first second : List (EventData ε)),
      appendedRows x t name op (first ++ second) =
        appendedRows x t name op first ++ appendedRows x t name op second := by
    intro op first second
    rw [appendedRows, appendedRows, appendedRows]
    by_cases hName : op.table.name = name
    · cases op.batch x t with
      | none => simp
      | some b => cases hAppends : b.appends <;> simp [hName, hAppends, Operation.rows_append]
    · simp [hName]
  induction batches with
  | nil =>
    have hNil : ∀ op, appendedRows x t name op ([] : List (EventData ε)) = [] := by
      intro op
      rw [appendedRows]
      split
      · cases op.batch x t with
        | none => rfl
        | some b => simp [Operation.rows, Operation.batchRows]
      · rfl
    simp [hNil]
  | cons events batches ih =>
    rw [List.flatten_cons, List.flatMap_cons]
    simp only [hAppend]
    exact (List.flatMap_append_perm ops _ _).symm.trans (ih.append_left _)

end Runs

/-! ### One call and several -/

section Calls

variable {sv : Server} {x : Extraction ε} {t : Texts} {tables : List Table} {eventName : String}

theorem table_mem_of_operationsFor {op : Operation} (h : op ∈ operationsFor eventName tables) :
    op.table ∈ tables := by
  obtain ⟨table, hTable, hOp⟩ := List.mem_flatMap.mp h
  cases hMapping : table.mapping? eventName with
  | none => simp [hMapping] at hOp
  | some mapping =>
    simp only [hMapping] at hOp
    obtain ⟨operation, -, rfl⟩ := List.mem_map.mp hOp
    exact hTable

/-- Where the order of operations and events does not matter, a list of events leaves the same rows
in one call and in calls for its consecutive batches. -/
theorem batching_transparent (hNames : ∀ table ∈ tables, ∀ table' ∈ tables,
      table.name = table'.name → table = table') {batches : List (List (EventData ε))}
    {store : String → Contents}
    (hStored : ∀ op ∈ operationsFor eventName tables, ∀ b, op.batch x t = some b → ∀ key,
      StoredAt b key ((store op.table.name).keyed key))
    (hTransparent : Transparent x t (operationsFor eventName tables) batches.flatten store)
    {whole : Progress (String → Contents)} {split : String → Contents}
    (hWhole : processTableOperations x (executeOperation sv x t) batches.flatten none tables eventName
      store = (whole, none))
    (hSplit : processBatches sv x t tables eventName batches store = (split, none)) (name : String) :
    (whole.store name).keyed = (split name).keyed ∧
      (whole.store name).appended.Perm (split name).appended := by
  have hSame : ∀ op ∈ operationsFor eventName tables, ∀ op' ∈ operationsFor eventName tables,
      op.table.name = op'.table.name → op.table = op'.table := fun op hOp op' hOp' hName =>
    hNames op.table (table_mem_of_operationsFor hOp) op'.table (table_mem_of_operationsFor hOp') hName
  obtain ⟨hKeyed, hAppended, hRan⟩ := runOperations_effect name (processTableOperations_store hWhole)
  obtain ⟨hKeyed', hAppended'⟩ := processBatches_effect name hSplit
  constructor
  · funext key
    rw [hKeyed, hKeyed']
    by_cases hRepeats : ∃ op ∈ operationsFor eventName tables, op.table.name = name ∧
        ∃ b, op.batch x t = some b ∧ Repeats b (b.ofKey (op.rows x t batches.flatten) key)
    · obtain ⟨op, hOp, hName, b, hBatch, hRepeats⟩ := hRepeats
      have hOld := hStored op hOp b hBatch key
      rw [hName] at hOld
      exact (foldl_batches_repeated hRan hTransparent hOp hName hBatch hRepeats hOld).symm
    · have hOld : StoredFor x t name key (operationsFor eventName tables) ((store name).keyed key) := by
        intro op hOp hName b hBatch
        rw [← hName]
        exact hStored op hOp b hBatch key
      refine (foldl_batches_once hSame hRan hTransparent (fun op hOp hName b hBatch hRows => ?_)
        hOld).symm
      exact hRepeats ⟨op, hOp, hName, b, hBatch, hRows⟩
  · rw [hAppended, hAppended']
    exact (flatMap_appendedRows _ _).append_left _

/-- The texts of a manifest whose only literal is 0. -/
def Texts.zero : Texts where
  literalToWrapper _ _ := .num 0
  arithmeticInsertDefault _ _ := some 0
  condition _ _ _ _ := some true

def emptyStore : String → Contents := fun _ => emptyContents

theorem ofKey_length_le_one {b : BatchOperation} {rows : List TableRow}
    (h : (rows.map b.key).Nodup) (key : List SqlValue) : (b.ofKey rows key).length ≤ 1 := by
  induction rows with
  | nil => simp [ofKey]
  | cons row rows ih =>
    obtain ⟨hNotMem, hNodup⟩ := List.nodup_cons.mp h
    by_cases hKey : b.key row = key
    · have hRest : rows.filter (fun r => decide (b.key r = key)) = [] := by
        refine List.filter_eq_nil_iff.mpr fun r hr hEq => hNotMem ?_
        rw [hKey, ← of_decide_eq_true hEq]
        exact List.mem_map_of_mem hr
      simp [ofKey, hKey, hRest]
    · simpa [ofKey, hKey] using ih hNodup

def debitOperation : Operation := ⟨balances, ⟨"Transfer", [], [debit, credit]⟩, debit⟩

def creditOperation : Operation := ⟨balances, ⟨"Transfer", [], [debit, credit]⟩, credit⟩

def transfers : List (EventData (List (String × SqlValue))) :=
  [transferEvent "alice" "bob" 7 5 0, transferEvent "bob" "alice" 3 5 1]

/-- A transfer back and forth: the second debits whom the first credits. -/
theorem transfers_transparent :
    Transparent .byName .zero [debitOperation, creditOperation] transfers emptyStore := by
  have hOnce : ∀ op ∈ [debitOperation, creditOperation], ∀ b, op.batch .byName .zero = some b →
      ∀ key, ¬2 ≤ (b.ofKey (op.rows .byName .zero transfers) key).length := by
    intro op hOp b hBatch key
    have hKey : b.key = fun row => op.keys.map row.fields := by
      funext row
      rw [BatchOperation.key, (Operation.batch_columns hBatch).2.1]
    have hNodup : ((op.rows .byName .zero transfers).map fun row => op.keys.map row.fields).Nodup := by
      clear hKey hBatch
      revert op
      decide
    have hLength := ofKey_length_le_one (hKey ▸ hNodup) key
    omega
  have hUpsert : ∀ op ∈ [debitOperation, creditOperation], ∀ b, op.batch .byName .zero = some b →
      b.type = .upsert ∧ b.customWhere = none := by
    intro op hOp b hBatch
    unfold Operation.batch at hBatch
    split at hBatch
    · cases hBatch
      exact ⟨by revert op; decide, by revert op; decide⟩
    · cases hBatch
  have hTransfer : ∀ l ∈ debitOperation.rows .byName .zero transfers.tail,
      l.fields "balance" = .num 3 := by decide
  have hTransfer' : ∀ r ∈ creditOperation.rows .byName .zero transfers.dropLast,
      r.fields "balance" = .num 7 := by decide
  have hColumns : ∀ c ∈ debitOperation.columns .zero, ∀ c' ∈ creditOperation.columns .zero,
      c'.name = c.name → c.action = .whereColumn ∧ c'.action = .whereColumn ∨
        c.action = .set ∧ c'.action = .set ∨
        c.action = .subtract ∧ c'.action = .add ∧ c.start = c'.start ∧ c.name = "balance" := by
    decide
  refine ⟨by simp [transfers]; decide, fun op hOp b hBatch key hTwo => ?_,
    fun op hOp b hBatch key hRepeats => ?_, ?_, ?_⟩
  · exact absurd hTwo (hOnce op hOp b hBatch key)
  · exact absurd hRepeats.2.2 (hOnce op hOp b hBatch key)
  · refine List.pairwise_of_forall_mem_list fun op hOp op' hOp' _ b b' hBatch hBatch' key => ⟨?_, ?_⟩
    · exact fun hRepeats => absurd hRepeats.2.2 (hOnce op hOp b hBatch key)
    · exact fun hRepeats => absurd hRepeats.2.2 (hOnce op' hOp' b' hBatch' key)
  · rw [List.pairwise_pair]
    intro _ b b' hBatch hBatch' _
    obtain ⟨hType, hWhere⟩ := hUpsert _ List.mem_cons_self b hBatch
    obtain ⟨hType', hWhere'⟩ := hUpsert _ (by simp) b' hBatch'
    rw [transfers, List.pairwise_pair]
    refine fun l hl r hr _ => .upserts hType hWhere hType' hWhere' fun c hc c' hc' hName => ?_
    rw [(Operation.batch_columns hBatch).2.2] at hc
    rw [(Operation.batch_columns hBatch').2.2] at hc'
    rcases hColumns c hc c' hc' hName with ⟨h, h'⟩ | ⟨h, h'⟩ | ⟨h, h', hStart, hBalance⟩
    · exact .key h h'
    · exact .set h (.inl h')
    · rw [hBalance, hTransfer l hl, hTransfer' r hr]
      exact .sums (.inr h) (.inl h') hStart ⟨3, rfl⟩ ⟨7, rfl⟩

/-- Two transfers leave the same balances together and one by one. -/
theorem batching_transparent_transfers : ∃ whole split,
    processTableOperations .byName (executeOperation plainServer .byName .zero)
      [[transferEvent "alice" "bob" 7 5 0], [transferEvent "bob" "alice" 3 5 1]].flatten none [balances]
      "Transfer" emptyStore = (whole, none) ∧
    processBatches plainServer .byName .zero [balances] "Transfer"
      [[transferEvent "alice" "bob" 7 5 0], [transferEvent "bob" "alice" 3 5 1]] emptyStore =
        (split, none) ∧
    (whole.store "balances").keyed = (split "balances").keyed ∧
    (whole.store "balances").appended.Perm (split "balances").appended := by
  have hNames : ∀ table ∈ [balances], ∀ table' ∈ [balances], table.name = table'.name →
      table = table' := by simp
  refine ⟨_, _, Prod.ext rfl ?_, Prod.ext rfl ?_, ?_⟩
  · decide
  · decide
  · refine @batching_transparent _ plainServer .byName .zero [balances] "Transfer" hNames
      [[transferEvent "alice" "bob" 7 5 0], [transferEvent "bob" "alice" 3 5 1]] emptyStore
      (fun op hOp b _ key row hRow => ?_) transfers_transparent _ _ (Prod.ext rfl ?_)
      (Prod.ext rfl ?_) "balances"
    · cases hRow
    · decide
    · decide

/-- The holders of a token that only one address has at a time. -/
def holders : Table where
  name := "holders"
  global := false
  crossChain := false
  columns := [⟨"holder", .address, false, none⟩, ⟨"tokenId", .uint256, false, none⟩]
  events := [⟨"Transfer", [], [⟨.delete, [("holder", "$from")], none, none, []⟩,
    ⟨.upsert, [("holder", "$to")], none, none, [⟨"tokenId", .set, some "$value"⟩]⟩]⟩]
  cronOperations := []
  timestamp := false

/-- In one batch the first transfer brings back the holder that the second has removed. -/
theorem batching_not_transparent : ∃ whole split,
    processTableOperations .byName (executeOperation plainServer .byName .zero)
      [transferEvent "alice" "bob" 7 5 0, transferEvent "bob" "carol" 7 5 1] none [holders] "Transfer"
      emptyStore = (whole, none) ∧
    processBatches plainServer .byName .zero [holders] "Transfer"
      [[transferEvent "alice" "bob" 7 5 0], [transferEvent "bob" "carol" 7 5 1]] emptyStore =
        (split, none) ∧
    (whole.store "holders").keyed [.text "ethereum", .text "bob"] ≠
      (split "holders").keyed [.text "ethereum", .text "bob"] := by
  refine ⟨_, _, Prod.ext rfl ?_, Prod.ext rfl ?_, fun hEq => ?_⟩
  · decide
  · decide
  · have hSome := congrArg Option.isSome hEq
    revert hSome
    decide

end Calls

end Rindexer.Tables
