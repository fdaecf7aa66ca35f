import Mathlib.Data.List.Infix
import Rindexer.Tables.Rows

/-! The loops that apply the operations of custom tables to a batch of events, table by table and
operation by operation, and the checkpoint that they save when the indexer shuts down. -/

namespace Rindexer.Tables

open Rindexer.Manifest

/-- A check of the shutdown flag: before anything, after the calls are prefetched, before a table, and
before an event of an operation, where the operations are numbered over all tables. -/
inductive ShutdownPoint
  | start
  | prefetched
  | table (index : Nat)
  | event (operation index : Nat)
deriving DecidableEq, Repr

inductive Stop
  | shutdown
  | failed (message : String)
deriving DecidableEq, Repr

/-- What the loops carry.  `finished` is the number of operations that are done. -/
structure Progress (σ : Type) where
  store : σ
  maxBlockWritten : String → Option Nat
  finished : Nat

/-- Enters a block into the highest blocks of the networks. -/
def raise (blocks : String → Option Nat) (network : String) (block : Nat) : String → Option Nat :=
  Function.update blocks network <| some <|
    match blocks network with
    | some highest => if highest < block then block else highest
    | none => block

def batchMaxBlocks (rows : List TableRowData) : String → Option Nat :=
  rows.foldl (fun blocks row => raise blocks row.network row.blockNumber) fun _ => none

def mergeBlocks (written batch : String → Option Nat) : String → Option Nat := fun network =>
  match batch network with
  | none => written network
  | some block => raise written network block network

variable {ε σ : Type}

/-- The operations for an event, in the order of the loops. -/
def operationsFor (eventName : String) (tables : List Table) : List Operation :=
  tables.flatMap fun table =>
    match table.mapping? eventName with
    | none => []
    | some mapping => mapping.operations.map fun op => ⟨table, mapping, op⟩

/-- Whether an operation for the event reads the chain. -/
def anyTableHasCalls (eventName : String) (tables : List Table) : Bool :=
  let hasCall := fun value : String =>
    decide ("$call(".toList <:+: value.toList) || decide ("$call_static(".toList <:+: value.toList)
  tables.any fun table => table.events.any fun m =>
    m.event == eventName && m.operations.any fun op =>
      op.whereClause.any (fun w => hasCall w.2) || op.set.any fun s => hasCall s.effectiveValue

section Loops

/- `execute` runs an operation on the databases, and `shutdown` is the first check that finds the flag
down. -/
variable (x : Extraction ε) (execute : Operation → List TableRowData → σ → σ × Option String)
  (events : List (EventData ε)) (shutdown : Option ShutdownPoint)

/-- The rows of an operation from an event of the batch on, with a check before each event. -/
def collectRows (op : Operation) (finished : Nat) :
    Nat → List (EventData ε) → Except Stop (List TableRowData)
  | _, [] => .ok []
  | index, e :: es =>
    if shutdown = some (.event finished index) then .error .shutdown
    else
      match op.eventRows x e with
      | .error m => .error (.failed m)
      | .ok rows =>
        match collectRows op finished (index + 1) es with
        | .error stop => .error stop
        | .ok rest => .ok (rows ++ rest)

def processOperation (op : Operation) (s : Progress σ) : Progress σ × Option Stop :=
  match collectRows x shutdown op s.finished 0 events with
  | .error stop => (s, some stop)
  | .ok [] => ({ s with finished := s.finished + 1 }, none)
  | .ok rows =>
    match execute op rows s.store with
    | (store, some m) => ({ s with store := store }, some (.failed m))
    | (store, none) =>
      ({ store := store
         maxBlockWritten := mergeBlocks s.maxBlockWritten (batchMaxBlocks rows)
         finished := s.finished + 1 }, none)

def processOperations : List Operation → Progress σ → Progress σ × Option Stop
  | [], s => (s, none)
  | op :: ops, s =>
    match processOperation x execute events shutdown op s with
    | (s, some stop) => (s, some stop)
    | (s, none) => processOperations ops s

def processTables (eventName : String) :
    Nat → List Table → Progress σ → Progress σ × Option Stop
  | _, [], s => (s, none)
  | index, table :: tables, s =>
    if shutdown = some (.table index) then (s, some .shutdown)
    else
      match table.mapping? eventName with
      | none => processTables eventName (index + 1) tables s
      | some mapping =>
        match processOperations x execute events shutdown
            (mapping.operations.map fun op => ⟨table, mapping, op⟩) s with
        | (s, some stop) => (s, some stop)
        | (s, none) => processTables eventName (index + 1) tables s

def processTableOperations (tables : List Table) (eventName : String) (store : σ) :
    Progress σ × Option Stop :=
  let s : Progress σ := ⟨store, fun _ => none, 0⟩
  if shutdown = some .start then (s, some .shutdown)
  else if anyTableHasCalls eventName tables ∧ shutdown = some .prefetched then (s, some .shutdown)
  else processTables x execute events shutdown eventName 0 tables s

end Loops

/-- The blocks that a run saves through its `ProgressCheckpointConfig`, if it has one with a database:
the highest blocks written, and on a shutdown only. -/
def savedBlocks (checkpointConfig : Bool) (result : Progress σ × Option Stop) :
    String → Option Nat := fun network =>
  if checkpointConfig ∧ result.2 = some .shutdown then result.1.maxBlockWritten network else none

/-! ### Highest blocks -/

/-- The highest block of the rows of a network. -/
def highestBlock (rows : List TableRowData) (network : String) : Option Nat :=
  ((rows.filter fun row => row.network == network).map TableRowData.blockNumber).max?

theorem max?_append (xs ys : List Nat) : (xs ++ ys).max? = max xs.max? ys.max? := by
  induction xs with
  | nil => simp
  | cons a xs ih =>
    rw [List.cons_append, List.max?_cons, List.max?_cons, ih]
    cases xs.max? <;> cases ys.max? <;> simp [Nat.max_assoc]

theorem highestBlock_append (rows more : List TableRowData) (network : String) :
    highestBlock (rows ++ more) network =
      max (highestBlock rows network) (highestBlock more network) := by
  rw [highestBlock, List.filter_append, List.map_append, max?_append]
  rfl

theorem highestBlock_eq_some_iff {rows : List TableRowData} {network : String} {b : Nat} :
    highestBlock rows network = some b ↔
      (∃ row ∈ rows, row.network = network ∧ row.blockNumber = b) ∧
        ∀ row ∈ rows, row.network = network → row.blockNumber ≤ b := by
  rw [highestBlock, List.max?_eq_some_iff]
  refine and_congr ?_ ?_
  · simp [and_assoc]
  · constructor
    · intro h row hMem hNetwork
      exact h _ (List.mem_map.mpr ⟨row, List.mem_filter.mpr ⟨hMem, by simpa using hNetwork⟩, rfl⟩)
    · intro h b' hMem
      obtain ⟨row, hRow, rfl⟩ := List.mem_map.mp hMem
      obtain ⟨hRow, hNetwork⟩ := List.mem_filter.mp hRow
      exact h row hRow (by simpa using hNetwork)

theorem raise_apply (blocks : String → Option Nat) (row : TableRowData) (network : String) :
    raise blocks row.network row.blockNumber network =
      max (blocks network) (highestBlock [row] network) := by
  by_cases h : row.network = network
  · subst h
    rw [raise, Function.update_self]
    cases hOld : blocks row.network with
    | none => simp [highestBlock]
    | some highest =>
      simp only [highestBlock, beq_self_eq_true, List.filter_cons_of_pos, List.filter_nil,
        List.map_cons, List.map_nil, List.max?_singleton, Option.max_some_some]
      split <;> congr 1 <;> omega
  · rw [raise, Function.update_of_ne fun h' => h h'.symm]
    simp [highestBlock, h]

theorem foldl_raise (rows : List TableRowData) (blocks : String → Option Nat) (network : String) :
    rows.foldl (fun blocks row => raise blocks row.network row.blockNumber) blocks network =
      max (blocks network) (highestBlock rows network) := by
  induction rows generalizing blocks with
  | nil => simp [highestBlock]
  | cons row rows ih =>
    rw [List.foldl_cons, ih, raise_apply]
    show _ = max (blocks network) (highestBlock ([row] ++ rows) network)
    rw [highestBlock_append]
    cases blocks network <;> cases highestBlock [row] network <;> cases highestBlock rows network <;>
      simp [Nat.max_assoc]

theorem batchMaxBlocks_eq (rows : List TableRowData) : batchMaxBlocks rows = highestBlock rows := by
  funext network
  rw [batchMaxBlocks, foldl_raise, Option.max_none_left]

theorem mergeBlocks_eq (rows more : List TableRowData) :
    mergeBlocks (highestBlock rows) (batchMaxBlocks more) = highestBlock (rows ++ more) := by
  funext network
  rw [highestBlock_append, mergeBlocks, batchMaxBlocks_eq]
  cases hMore : highestBlock more network with
  | none => rw [Option.max_none_right]
  | some block =>
    show raise (highestBlock rows) network block network = _
    rw [raise, Function.update_self]
    cases highestBlock rows network with
    | none => rfl
    | some highest =>
      simp only [Option.max_some_some]
      split <;> congr 1 <;> omega

/-! ### What is done when the loops stop -/

/-- The number of operations done when a check finds the flag down. -/
def ShutdownPoint.done (eventName : String) (tables : List Table) : ShutdownPoint → Nat
  | .start => 0
  | .prefetched => 0
  | .table index => (operationsFor eventName (tables.take index)).length
  | .event operation _ => operation

/-- The operations that are done, and what they have written. -/
structure Frontier (x : Extraction ε) (events : List (EventData ε)) (done : List Operation)
    (s : Progress σ) : Prop where
  finished : s.finished = done.length
  written : s.maxBlockWritten = highestBlock (done.flatMap fun op => op.batchRows x events)

/-- How a loop over operations ends: all of them are done, or a first part is, of a length with `P` when
it was a shutdown that stopped the loop. -/
def Ends (x : Extraction ε) (events : List (EventData ε)) (ops : List Operation) (P : Nat → Prop) :
    Progress σ × Option Stop → Prop
  | (s, none) => Frontier x events ops s
  | (s, some stop) =>
    ∃ k ≤ ops.length, Frontier x events (ops.take k) s ∧ (stop = .shutdown → P k)

theorem Ends.append {x : Extraction ε} {events : List (EventData ε)} {ops : List Operation}
    {P Q : Nat → Prop} {s : Progress σ} {stop : Stop} (h : Ends x events ops P (s, some stop))
    (more : List Operation) (hPQ : ∀ k, P k → Q k) :
    Ends x events (ops ++ more) Q (s, some stop) := by
  obtain ⟨k, hk, hFrontier, hPoint⟩ := h
  refine ⟨k, by simp; omega, ?_, fun hStop => hPQ k (hPoint hStop)⟩
  rwa [List.take_append_of_le_length hk]

section Loops

variable {x : Extraction ε} (execute : Operation → List TableRowData → σ → σ × Option String)
  {events : List (EventData ε)} (shutdown : Option ShutdownPoint)

theorem collectRows_ok {x : Extraction ε} {op : Operation} {finished index : Nat}
    {es : List (EventData ε)} {rows : List TableRowData}
    (h : collectRows x shutdown op finished index es = .ok rows) : rows = op.batchRows x es := by
  induction es generalizing index rows with
  | nil =>
    cases h
    rfl
  | cons e es ih =>
    rw [collectRows] at h
    split at h
    · cases h
    · cases hRows : op.eventRows x e with
      | error m =>
        rw [hRows] at h
        cases h
      | ok first =>
        rw [hRows] at h
        cases hRest : collectRows x shutdown op finished (index + 1) es with
        | error stop =>
          rw [hRest] at h
          cases h
        | ok rest =>
          rw [hRest] at h
          cases h
          rw [ih hRest, Operation.batchRows, Operation.batchRows, List.flatMap_cons, hRows]
          rfl

theorem collectRows_shutdown {x : Extraction ε} {op : Operation} {finished index : Nat}
    {es : List (EventData ε)} (h : collectRows x shutdown op finished index es = .error .shutdown) :
    ∃ i, shutdown = some (.event finished i) := by
  induction es generalizing index with
  | nil => cases h
  | cons e es ih =>
    rw [collectRows] at h
    split at h
    · exact ⟨index, by assumption⟩
    · cases hRows : op.eventRows x e with
      | error m =>
        rw [hRows] at h
        cases h
      | ok rows =>
        rw [hRows] at h
        cases hRest : collectRows x shutdown op finished (index + 1) es with
        | error stop =>
          rw [hRest] at h
          cases h
          exact ih hRest
        | ok rest =>
          rw [hRest] at h
          cases h

theorem processOperation_ends (op : Operation) {done : List Operation} {s : Progress σ}
    (h : Frontier x events done s) :
    Ends x events (done ++ [op]) (fun k => ∃ i, shutdown = some (.event k i))
      (processOperation x execute events shutdown op s) := by
  have hStopped : ∀ (s' : Progress σ) (stop : Stop), Frontier x events done s' →
      (stop = .shutdown → ∃ i, shutdown = some (.event done.length i)) →
      Ends x events (done ++ [op]) (fun k => ∃ i, shutdown = some (.event k i)) (s', some stop) :=
    fun s' stop hFrontier hPoint => ⟨done.length, by simp, by simpa using hFrontier, hPoint⟩
  cases hCollected : collectRows x shutdown op s.finished 0 events with
  | error stop =>
    simp only [processOperation, hCollected]
    refine hStopped s stop h ?_
    rintro rfl
    rw [← h.finished]
    exact collectRows_shutdown shutdown hCollected
  | ok rows =>
    have hWritten : highestBlock ((done ++ [op]).flatMap fun op => op.batchRows x events) =
        highestBlock ((done.flatMap fun op => op.batchRows x events) ++ rows) := by
      rw [List.flatMap_append, List.flatMap_singleton, collectRows_ok shutdown hCollected]
    cases rows with
    | nil =>
      simp only [processOperation, hCollected]
      exact ⟨by simp [h.finished], by rw [hWritten, List.append_nil]; exact h.written⟩
    | cons row rows =>
      rcases hExecuted : execute op (row :: rows) s.store with ⟨store, _ | m⟩
      · simp only [processOperation, hCollected, hExecuted]
        exact ⟨by simp [h.finished], by rw [hWritten, ← mergeBlocks_eq, ← h.written]⟩
      · simp only [processOperation, hCollected, hExecuted]
        exact hStopped _ _ ⟨h.finished, h.written⟩ fun hStop => by cases hStop

theorem processOperations_ends (ops : List Operation) {done : List Operation} {s : Progress σ}
    (h : Frontier x events done s) :
    Ends x events (done ++ ops) (fun k => ∃ i, shutdown = some (.event k i))
      (processOperations x execute events shutdown ops s) := by
  induction ops generalizing done s with
  | nil =>
    rw [processOperations, List.append_nil]
    exact h
  | cons op ops ih =>
    have hFirst := processOperation_ends execute shutdown op h
    rw [show done ++ op :: ops = done ++ [op] ++ ops by simp]
    rcases hResult : processOperation x execute events shutdown op s with ⟨s', _ | stop⟩
    · simp only [processOperations, hResult]
      rw [hResult] at hFirst
      exact ih hFirst
    · simp only [processOperations, hResult]
      rw [hResult] at hFirst
      exact hFirst.append ops fun k hPoint => hPoint

theorem operationsFor_append (eventName : String) (before tables : List Table) :
    operationsFor eventName (before ++ tables) =
      operationsFor eventName before ++ operationsFor eventName tables :=
  List.flatMap_append

/-- However the loops end, a first part of the operations is done; on a shutdown it is the part before
the check that finds the flag down. -/
theorem processTables_ends (eventName : String) (tables : List Table) {before : List Table}
    {s : Progress σ} (h : Frontier x events (operationsFor eventName before) s) :
    Ends x events (operationsFor eventName (before ++ tables))
      (fun k => ∃ point, shutdown = some point ∧ point.done eventName (before ++ tables) = k)
      (processTables x execute events shutdown eventName before.length tables s) := by
  induction tables generalizing before s with
  | nil =>
    rw [processTables, List.append_nil]
    exact h
  | cons table tables ih =>
    have hNext : before ++ table :: tables = (before ++ [table]) ++ tables := by simp
    have hLength : before.length + 1 = (before ++ [table]).length := by simp
    by_cases hPoint : shutdown = some (.table before.length)
    · rw [processTables, if_pos hPoint]
      refine ⟨(operationsFor eventName before).length, by simp [operationsFor_append], ?_, fun _ => ?_⟩
      · rwa [operationsFor_append, List.take_left]
      · exact ⟨_, hPoint, by simp [ShutdownPoint.done]⟩
    · have hThese : operationsFor eventName (before ++ [table]) = operationsFor eventName before ++
          operationsFor eventName [table] := operationsFor_append eventName before [table]
      cases hMapping : table.mapping? eventName with
      | none =>
        simp only [processTables, if_neg hPoint, hMapping]
        rw [hNext, hLength]
        refine ih ?_
        rw [hThese]
        simpa [operationsFor, hMapping] using h
      | some mapping =>
        have hOps := processOperations_ends execute shutdown
          (mapping.operations.map fun op => ⟨table, mapping, op⟩) h
        rw [show operationsFor eventName before ++ mapping.operations.map
            (fun op => (⟨table, mapping, op⟩ : Operation)) =
          operationsFor eventName (before ++ [table]) by simp [operationsFor, hMapping]] at hOps
        rcases hResult : processOperations x execute events shutdown
            (mapping.operations.map fun op => ⟨table, mapping, op⟩) s with ⟨s', _ | stop⟩
        · simp only [processTables, if_neg hPoint, hMapping, hResult]
          rw [hResult] at hOps
          rw [hNext, hLength]
          exact ih hOps
        · simp only [processTables, if_neg hPoint, hMapping, hResult]
          rw [hResult] at hOps
          rw [hNext, operationsFor_append]
          refine hOps.append _ ?_
          rintro k ⟨i, hi⟩
          exact ⟨_, hi, rfl⟩

theorem processTableOperations_ends (tables : List Table) (eventName : String) (store : σ) :
    Ends x events (operationsFor eventName tables)
      (fun k => ∃ point, shutdown = some point ∧ point.done eventName tables = k)
      (processTableOperations x execute events shutdown tables eventName store) := by
  have hStart : Frontier x events (operationsFor eventName [])
      (⟨store, fun _ => none, 0⟩ : Progress σ) := ⟨rfl, rfl⟩
  have hNone : ∀ point : ShutdownPoint, shutdown = some point → point.done eventName tables = 0 →
      Ends x events (operationsFor eventName tables)
        (fun k => ∃ point, shutdown = some point ∧ point.done eventName tables = k)
        ((⟨store, fun _ => none, 0⟩ : Progress σ), some Stop.shutdown) :=
    fun point hPoint hDone => ⟨0, Nat.zero_le _, hStart, fun _ => ⟨point, hPoint, hDone⟩⟩
  simp only [processTableOperations]
  by_cases hPoint : shutdown = some .start
  · rw [if_pos hPoint]
    exact hNone .start hPoint rfl
  · rw [if_neg hPoint]
    by_cases hPrefetched : anyTableHasCalls eventName tables ∧ shutdown = some .prefetched
    · rw [if_pos hPrefetched]
      exact hNone .prefetched hPrefetched.2 rfl
    · rw [if_neg hPrefetched]
      exact processTables_ends execute shutdown eventName tables hStart

end Loops

end Rindexer.Tables
