import Rindexer.Indexer.Delivery

/-! One live event stream: the fetch task, the bounded channel, the consumer with its coalescing
buffer, and the callback that runs under the one permit.  A rollback runs in the fetch task and tells
the others nothing. -/

namespace Rindexer.Indexer

open Rindexer.Lib Rindexer.Database

/-- The logs that a node has of each block for an event on a network. -/
structure NodeLogs (network : String) where
  logs : Nat → List EventRow
  placed : ∀ n, ∀ r ∈ logs n, r.blockNumber = n ∧ r.network = network

/-- The answer of `get_logs` on a range of blocks. -/
def NodeLogs.range {network : String} (node : NodeLogs network) (fromBlock toBlock : Nat) :
    List EventRow :=
  (List.range' fromBlock (toBlock + 1 - fromBlock)).flatMap node.logs

/-- A batch on its way, with the number of rollbacks that were committed before it was fetched. -/
structure Sent where
  batch : Batch
  fetchedAt : Nat

/-- A stream of an event.  `rollbacks` lists the committed rollbacks, and `orphanedFrom` the lowest
block whose logs were fetched and have been replaced since, until a rollback.  `base` is the lowest
block that the stream has started from.  No code reads these three. -/
structure Stream (network : String) where
  db : Db
  next : Nat
  channel : List Sent
  /-- The batches that the consumer has taken and coalesced. -/
  buffer : List Sent
  /-- The batches that the running callback has. -/
  running : List Sent
  /-- Whether the running callback has inserted its rows. -/
  inserted : Bool
  node : NodeLogs network
  rollbacks : List (Nat × Nat)
  orphanedFrom : Option Nat
  base : Nat

/-- A stream before its first fetch. -/
def Stream.idle {network : String} (db : Db) (next : Nat) (node : NodeLogs network) :
    Stream network where
  db := db
  next := next
  channel := []
  buffer := []
  running := []
  inserted := false
  node := node
  rollbacks := []
  orphanedFrom := none
  base := next

inductive StreamAct (network : String)
  | reorg (height : Nat) (node : NodeLogs network)
  | fetch (toBlock : Nat)
  | receive
  | coalesce
  | dispatch
  | insert (atomic : Bool)
  | advance
  | rollback (forkPoint detectionPoint : Nat) (correctedBlocks : List Header)

/-- Logs at which the consumer stops coalescing. -/
def maxCoalesceLogs : Nat := 5000

/-- The rows of batches, in order. -/
def sentRows (sent : List Sent) : List EventRow := sent.flatMap fun b => b.batch.rows

/-- The batch that a list of batches is coalesced to. -/
def coalesceSent : List Sent → Option Batch
  | [] => none
  | b :: ready => some (Indexer.coalesce b.batch (ready.map Sent.batch))

namespace Stream

/-- The node's chain changes at a height and above. -/
def reorg {network : String} (s : Stream network) (height : Nat) (node : NodeLogs network) :
    Stream network :=
  { s with
    node :=
      { logs := fun n => if n < height then s.node.logs n else node.logs n
        placed := fun n r hMem => by
          split at hMem
          · exact s.node.placed n r hMem
          · exact node.placed n r hMem }
    orphanedFrom :=
      if height < s.next then some (min height (s.orphanedFrom.getD height)) else s.orphanedFrom }

/-- The fetch task asks for the logs from its next block on and sends them.  The send waits while the
channel is full, so that one batch more than its capacity is on the way. -/
def fetch {network : String} (capacity : Nat) (s : Stream network) (toBlock : Nat) :
    Option (Stream network) :=
  if s.next ≤ toBlock ∧ s.channel.length ≤ capacity then
    let rows := s.node.range s.next toBlock
    some { s with
      next := nextBlock toBlock rows
      channel := s.channel ++ [⟨⟨s.next, toBlock, rows⟩, s.rollbacks.length⟩] }
  else none

/-- The consumer takes a batch. -/
def receive {network : String} (s : Stream network) : Option (Stream network) :=
  match s.buffer, s.channel with
  | [], b :: channel => some { s with channel := channel, buffer := [b] }
  | _, _ => none

/-- The consumer takes another batch that is ready. -/
def coalesce {network : String} (s : Stream network) : Option (Stream network) :=
  match s.channel with
  | [] => none
  | b :: channel =>
    if s.buffer ≠ [] ∧ (sentRows s.buffer).length < maxCoalesceLogs then
      some { s with channel := channel, buffer := s.buffer ++ [b] }
    else none

/-- The consumer gets the permit and starts the callback. -/
def dispatch {network : String} (s : Stream network) : Option (Stream network) :=
  if s.buffer ≠ [] ∧ s.running = [] then
    some { s with buffer := [], running := s.buffer, inserted := false }
  else none

/-- The callback inserts its rows, with the cursor in one transaction or without it. -/
def insert (x : Detail) (s : Stream x.network) (atomic : Bool) : Option (Stream x.network) :=
  match coalesceSent s.running, s.inserted with
  | some batch, false =>
    let inserted :=
      if atomic then
        insertBulkWithCursor s.db x.eventTable batch.rows x.checkpointTable x.network x.detailKey
          batch.toBlock
      else .ok (s.db.insertRows x.eventTable batch.rows)
    match inserted with
    | .error _ => none
    | .ok db => some { s with db := db, inserted := true }
  | _, _ => none

/-- The cursor follows, and the permit is free. -/
def advance (x : Detail) (s : Stream x.network) : Option (Stream x.network) :=
  match coalesceSent s.running, s.inserted with
  | some batch, true =>
    match advanceDetailCursor s.db x.checkpointTable x.network x.detailKey batch.toBlock with
    | .error _ => none
    | .ok db => some { s with db := db, running := [] }
  | _, _ => none

/-- The fetch task handles a reorg: the orphaned blocks are at or above the fork point. -/
def rollback (x : Detail) (s : Stream x.network) (forkPoint detectionPoint : Nat)
    (correctedBlocks : List Header) : Option (Stream x.network) :=
  if s.orphanedFrom.any (· < forkPoint) then none
  else
    match reorgRollbackTransaction s.db [x.eventTable] x.network forkPoint detectionPoint
        correctedBlocks [x.checkpointTable] with
    | .error _ => none
    | .ok (db, _) =>
      some { s with
        db := db
        next := forkPoint
        rollbacks := s.rollbacks ++ [(forkPoint, detectionPoint)]
        orphanedFrom := none
        base := min s.base forkPoint }

def step (x : Detail) (capacity : Nat) (s : Stream x.network) :
    StreamAct x.network → Option (Stream x.network)
  | .reorg height node => some (s.reorg height node)
  | .fetch toBlock => s.fetch capacity toBlock
  | .receive => s.receive
  | .coalesce => s.coalesce
  | .dispatch => s.dispatch
  | .insert atomic => s.insert x atomic
  | .advance => s.advance x
  | .rollback forkPoint detectionPoint correctedBlocks =>
    s.rollback x forkPoint detectionPoint correctedBlocks

end Stream

end Rindexer.Indexer
