import Rindexer.Database.Cursors

/-! Where indexing of an event starts and ends: `get_start_end_block`, over the durable cursor and the
blocks that the manifest sets. -/

namespace Rindexer.Indexer

open Rindexer.Database

inductive ReorgSafeDistance
  | enabled (b : Bool)
  | custom (blocks : Nat)
deriving DecidableEq, Repr

def reorgSafeDistanceForChain (chainId : Nat) : Nat :=
  match chainId with
  | 1 => 20
  | 137 => 200
  | 42161 => 24
  | 10 => 24
  | 8453 => 24
  | 56 => 24
  | 43114 => 12
  | 100 => 24
  | _ => 64

def ReorgSafeDistance.resolve (chainId : Nat) : ReorgSafeDistance → Option Nat
  | .enabled true => some (reorgSafeDistanceForChain chainId)
  | .custom blocks => some blocks
  | .enabled false => none

/-- The end block, no nearer to the head than the safe distance, and that distance. -/
def calculateSafeBlockNumber (reorgSafeDistance : Option ReorgSafeDistance)
    (chainId latestBlock endBlock : Nat) : Nat × Nat :=
  match reorgSafeDistance.bind (ReorgSafeDistance.resolve chainId) with
  | some distance => (min endBlock (latestBlock - distance), distance)
  | none => (endBlock, 0)

/-- Seeds the cursor and reads it.  Zero stands for no progress. -/
def getLastSyncedBlockNumber (db : Db) (table network detailKey : String) :
    Except String (Db × Option Nat) :=
  match ensureDetailCursor db table network detailKey with
  | .error e => .error e
  | .ok seeded =>
    match seeded.cursor table network detailKey with
    | none => .error s!"seeded exact cursor disappeared from rindexer_internal.{table} ({network}, {detailKey})"
    | some value => .ok (seeded, if value = 0 then none else some value)

/-- One manifest detail of an event: its cursor, and the blocks and distance that it sets. -/
structure Detail where
  eventName : String
  /-- Full name of the event table. -/
  eventTable : String
  checkpointTable : String
  network : String
  chainId : Nat
  detailKey : String
  startBlock : Option Nat
  endBlock : Option Nat
  reorgSafeDistance : Option ReorgSafeDistance
deriving DecidableEq, Repr

/-- The blocks to start and end at and the distance from the head, with the cursor seeded.  A detail
without a start block starts at the head, whatever its cursor says. -/
def getStartEndBlock (x : Detail) (latestBlock : Nat) (db : Db) :
    Except String (Db × Nat × Nat × Nat) :=
  if x.startBlock.any (latestBlock < ·) then
    .error s!"The start block set for {x.eventName} is higher than the latest block: {x.startBlock.getD 0} - start block: {latestBlock}"
  else if x.endBlock.any (latestBlock < ·) then
    .error s!"The end block set for {x.eventName} is higher than the latest block: {x.endBlock.getD 0} - end block: {latestBlock}"
  else
    match getLastSyncedBlockNumber db x.checkpointTable x.network x.detailKey with
    | .error e => .error e
    | .ok (seeded, lastSyncedBlock) =>
      let lastKnownStartBlock := if x.startBlock.isSome then lastSyncedBlock.map (· + 1) else none
      let startBlock := lastKnownStartBlock.getD (x.startBlock.getD latestBlock)
      let endBlock := min (x.endBlock.getD latestBlock) latestBlock
      .ok (seeded, startBlock,
        calculateSafeBlockNumber x.reorgSafeDistance x.chainId latestBlock endBlock)

/-- The durable cursor of a detail. -/
def Detail.cursor (x : Detail) (db : Db) : Option Nat :=
  db.cursor x.checkpointTable x.network x.detailKey

/-- A start seeds the cursor and reads where to resume from it. -/
theorem getStartEndBlock_ok {x : Detail} {latestBlock : Nat} {db db' : Db}
    {blocks : Nat × Nat × Nat} (h : getStartEndBlock x latestBlock db = .ok (db', blocks)) :
    ensureDetailCursor db x.checkpointTable x.network x.detailKey = .ok db' ∧
      ∀ startBlock, x.startBlock = some startBlock →
        blocks.1 = match x.cursor db' with
          | some (lastSynced + 1) => lastSynced + 2
          | _ => startBlock := by
  unfold getStartEndBlock at h
  split at h
  · cases h
  split at h
  · cases h
  split at h
  · cases h
  rename_i seeded lastSynced hRead
  unfold getLastSyncedBlockNumber at hRead
  split at hRead
  · cases hRead
  rename_i db1 hSeed
  split at hRead
  · cases hRead
  rename_i value hValue
  cases hRead
  cases h
  refine ⟨hSeed, fun startBlock hStart => ?_⟩
  rw [Detail.cursor, hValue, hStart]
  cases value with
  | zero => rfl
  | succ n => rfl

end Rindexer.Indexer
