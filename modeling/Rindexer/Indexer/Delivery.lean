import Rindexer.Indexer.Start
import Rindexer.Lib.Transition

/-! Delivery of fetched batches.  Each detail has one fetch loop and one consumer: the consumer takes
the batches in the order in which they were fetched, may coalesce several, inserts their rows, and
then advances the durable cursor.  A rollback rewinds cursors and fetch loops, and a crash loses
everything but the database. -/

namespace Rindexer.Indexer

open Rindexer.Database

/-- The logs of a range of blocks, as a fetch loop sends them. -/
structure Batch where
  fromBlock : Nat
  toBlock : Nat
  rows : List EventRow

def Batch.covers (b : Batch) (blockNumber : Nat) : Bool :=
  b.fromBlock ≤ blockNumber && blockNumber ≤ b.toBlock

def Batch.merge (b b' : Batch) : Batch where
  fromBlock := min b.fromBlock b'.fromBlock
  toBlock := max b.toBlock b'.toBlock
  rows := b.rows ++ b'.rows

/-- A batch with those that were ready behind it. -/
def coalesce (b : Batch) (ready : List Batch) : Batch := ready.foldl Batch.merge b

theorem coalesce_toBlock (b : Batch) (ready : List Batch) :
    ∃ b' ∈ b :: ready, (coalesce b ready).toBlock = b'.toBlock := by
  induction ready generalizing b with
  | nil => exact ⟨b, List.mem_cons_self, rfl⟩
  | cons next ready ih =>
    obtain ⟨b', hMem, hTo⟩ := ih (b.merge next)
    rcases List.mem_cons.mp hMem with rfl | hReady
    · rcases le_total next.toBlock b.toBlock with hLe | hLe
      · exact ⟨b, by simp, hTo.trans (Nat.max_eq_left hLe)⟩
      · exact ⟨next, by simp, hTo.trans (Nat.max_eq_right hLe)⟩
    · exact ⟨b', by simp [hReady], hTo⟩

/-- The next block that a fetch loop asks for: past the last log, or past the range without one. -/
def nextBlock (toBlock : Nat) (rows : List EventRow) : Nat :=
  (rows.getLast?.map EventRow.blockNumber).getD toBlock + 1

theorem nextBlock_le {toBlock : Nat} {rows : List EventRow}
    (h : ∀ r ∈ rows, r.blockNumber ≤ toBlock) : nextBlock toBlock rows ≤ toBlock + 1 := by
  unfold nextBlock
  cases hLast : rows.getLast? with
  | none => simp
  | some r => simpa using h r (List.mem_of_getLast? hLast)

/-- The indexer of the details of a manifest.  `delivered` records whether the events of a block are
in a detail's table; no code reads it. -/
structure Indexing where
  db : Db
  /-- Next block of each fetch loop that runs. -/
  next : Detail → Option Nat
  /-- Batches fetched and not yet inserted, in order. -/
  inFlight : Detail → List Batch
  /-- End of a batch whose rows are in and whose cursor is still to be advanced. -/
  progress : Detail → Option Nat
  delivered : Detail → Nat → Bool

/-- An indexer that has not run on a database yet. -/
def Indexing.stopped (db : Db) : Indexing where
  db := db
  next _ := none
  inFlight _ := []
  progress _ := none
  delivered _ _ := false

inductive Act
  | start (x : Detail) (latestBlock : Nat)
  | fetch (x : Detail) (toBlock : Nat) (rows : List EventRow)
  | deliver (x : Detail) (coalesced : Nat) (atomic : Bool)
  | advance (x : Detail)
  | rollback (network : String) (forkPoint detectionPoint : Nat) (correctedBlocks : List Header)
      (rewound : List Detail)
  | crash

/-- The details whose tables are registered for the reorgs of a network. -/
def registered (details : List Detail) (network : String) : List Detail :=
  details.filter fun x => x.network = network

namespace Indexing

/-- A fetch loop starts where `get_start_end_block` says. -/
def start (s : Indexing) (x : Detail) (latestBlock : Nat) : Option Indexing :=
  match s.next x, getStartEndBlock x latestBlock s.db with
  | none, .ok (db, startBlock, _) =>
    some { s with
      db := db
      next := Function.update s.next x (some startBlock) }
  | _, _ => none

/-- A fetch loop sends the logs from its next block on. -/
def fetch (s : Indexing) (x : Detail) (toBlock : Nat) (rows : List EventRow) : Option Indexing :=
  match s.next x with
  | none => none
  | some fromBlock =>
    if fromBlock ≤ toBlock ∧ ∀ r ∈ rows, fromBlock ≤ r.blockNumber ∧ r.blockNumber ≤ toBlock then
      some { s with
        next := Function.update s.next x (some (nextBlock toBlock rows))
        inFlight := Function.update s.inFlight x (s.inFlight x ++ [⟨fromBlock, toBlock, rows⟩]) }
    else none

/-- The consumer of a detail inserts its first batches, with their cursor in one transaction or with
the cursor to follow. -/
def deliver (s : Indexing) (x : Detail) (coalesced : Nat) (atomic : Bool) : Option Indexing :=
  match s.progress x, s.inFlight x with
  | none, b :: waiting =>
    let ready := waiting.take coalesced
    let batch := coalesce b ready
    let inserted :=
      if atomic then
        insertBulkWithCursor s.db x.eventTable batch.rows x.checkpointTable x.network x.detailKey
          batch.toBlock
      else .ok (s.db.insertRows x.eventTable batch.rows)
    match inserted with
    | .error _ => none
    | .ok db =>
      some { s with
        db := db
        inFlight := Function.update s.inFlight x (waiting.drop coalesced)
        progress := Function.update s.progress x (some batch.toBlock)
        delivered := Function.update s.delivered x fun n =>
          s.delivered x n || (b :: ready).any (Batch.covers · n) }
  | _, _ => none

/-- The cursor of a detail follows its rows. -/
def advance (s : Indexing) (x : Detail) : Option Indexing :=
  match s.progress x with
  | none => none
  | some toBlock =>
    match advanceDetailCursor s.db x.checkpointTable x.network x.detailKey toBlock with
    | .error _ => none
    | .ok db => some { s with db := db, progress := Function.update s.progress x none }

/-- The rollback transaction on the tables of a network, and the fetch loops that it rewinds. -/
def rollback (details : List Detail) (s : Indexing) (network : String)
    (forkPoint detectionPoint : Nat) (correctedBlocks : List Header) (rewound : List Detail) :
    Option Indexing :=
  let tables := registered details network
  match reorgRollbackTransaction s.db (tables.map Detail.eventTable) network forkPoint
      detectionPoint correctedBlocks (tables.map Detail.checkpointTable) with
  | .error _ => none
  | .ok (db, _) =>
    some { s with
      db := db
      next := fun x =>
        if x ∈ rewound ∧ x.network = network then (s.next x).map fun _ => forkPoint else s.next x
      delivered := fun x n =>
        s.delivered x n && !(x.network == network && forkPoint ≤ n && n ≤ detectionPoint) }

def crash (s : Indexing) : Indexing :=
  { s with next := fun _ => none, inFlight := fun _ => [], progress := fun _ => none }

def step (details : List Detail) (s : Indexing) : Act → Option Indexing
  | .start x latestBlock => if x ∈ details then s.start x latestBlock else none
  | .fetch x toBlock rows => if x ∈ details then s.fetch x toBlock rows else none
  | .deliver x coalesced atomic => if x ∈ details then s.deliver x coalesced atomic else none
  | .advance x => if x ∈ details then s.advance x else none
  | .rollback network forkPoint detectionPoint correctedBlocks rewound =>
    s.rollback details network forkPoint detectionPoint correctedBlocks rewound
  | .crash => some s.crash

end Indexing

/-- A detail that indexes transfers from genesis on. -/
def transfers : Detail where
  eventName := "Transfer"
  eventTable := "app_token.transfer"
  checkpointTable := "app_token_transfer"
  network := "ethereum"
  chainId := 1
  detailKey := legacyDetailKey
  startBlock := some 0
  endBlock := none
  reorgSafeDistance := none

end Rindexer.Indexer
