import Rindexer.Reorg.Persistence
import Rindexer.Reorg.Task

/-! `ReorgCoordinator`: detection of reorgs on each new block and at startup, and their handling.  What
the surroundings decide about a call (the chain that the provider sees, failures of the store, the
connections of a rollback) comes with the call. -/

namespace Rindexer.Reorg

open Rindexer.Lib Rindexer.Database

/-- What one call meets: the provider, the blocks that cannot be persisted, and the server. -/
structure Surroundings where
  provider : Option ChainProvider
  persistFails : Nat → Bool
  postgres : Postgres
  sessions : Nat → Option Nat

/-- No provider, and a store that never fails. -/
def Surroundings.calm : Surroundings where
  provider := none
  persistFails _ := false
  postgres := .plain
  sessions := some

/-- Blocks between flushes of old block hashes. -/
def flushInterval : Nat := 50

structure ReorgCoordinator where
  network : String
  window : BlockChainWindow
  eventTables : List EventTableInfo
  derivedTables : List DerivedTableInfo
  blocksSinceFlush : Nat
  /-- The database that it persists to and rolls back. -/
  store : Machine
  /-- The bounds of the prunes that it has spawned. -/
  spawnedPrunes : List Nat

/-- A coordinator of a network without tables, as it starts on an empty database. -/
def ReorgCoordinator.fresh (network : String) : ReorgCoordinator where
  network := network
  window := ⟨∅, 100, hundred_pos⟩
  eventTables := []
  derivedTables := []
  blocksSinceFlush := 0
  store := ⟨.empty, [], 0, []⟩
  spawnedPrunes := []

/-- How a call ends: an error, no reorg, or a reorg to handle. -/
abbrev Detection := Except String (Option ReorgTask)

namespace ReorgCoordinator

/-- Persists a block.  Every `flushInterval` blocks it spawns a prune below the oldest block. -/
def persistAndMaybePrune (env : Surroundings) (c : ReorgCoordinator) (blockNumber : Nat)
    (blockHash parentHash : B256) : ReorgCoordinator × Option String :=
  let counted := { c with blocksSinceFlush := c.blocksSinceFlush + 1 }
  let failed := (counted, some s!"Failed to persist block {blockNumber} hash to DB")
  if env.persistFails blockNumber then failed
  else
    match ReorgBlockHashPersistence.insertBlock c.store.db c.network blockNumber blockHash
        parentHash with
    | .error _ => failed
    | .ok db =>
      let persisted := { counted with store := { c.store with db := db } }
      if flushInterval ≤ persisted.blocksSinceFlush then
        ({ persisted with
            blocksSinceFlush := 0
            spawnedPrunes := c.spawnedPrunes ++ c.window.oldestBlock.toList }, none)
      else (persisted, none)

/-- Inserts a block into the window and persists it. -/
def insertBlock (env : Surroundings) (c : ReorgCoordinator) (blockNumber : Nat)
    (blockHash parentHash : B256) : ReorgCoordinator × Option String :=
  persistAndMaybePrune env { c with window := c.window.insert blockNumber blockHash parentHash }
    blockNumber blockHash parentHash

/-- The fork point, one past the highest stored block that is still canonical, and the canonical
blocks at the stored heights. -/
def findForkPoint (env : Surroundings) (c : ReorgCoordinator) :
    Except String (Nat × List Header) :=
  match c.window.blockNumbers with
  | [] => .error "Cannot find fork point: window is empty"
  | oldest :: _ =>
    match env.provider with
    | none => .error "No provider configured for fork point detection"
    | some provider =>
      match provider.getBlockByNumberBatch c.window.blockNumbers with
      | none => .error "Failed to fetch blocks for fork point detection"
      | some blocks =>
        match c.window.findForkPoint (blocks.map fun b => (b.number, b.hash)) with
        | some lastMatch => .ok (lastMatch + 1, blocks)
        | none => .ok (oldest, blocks)

def handleMismatch (env : Surroundings) (c : ReorgCoordinator) (blockNumber : Nat) : Detection :=
  match c.findForkPoint env with
  | .error e => .error e
  | .ok (forkPoint, canonicalBlocks) =>
    .ok (some
      { network := c.network
        forkPoint := forkPoint
        detectionPoint := blockNumber
        eventTables := c.eventTables
        derivedTables := c.derivedTables
        canonicalBlocks := canonicalBlocks })

/-- Inserts a block, or reports an error of the store. -/
def insertOrFail (env : Surroundings) (c : ReorgCoordinator) (blockNumber : Nat)
    (blockHash parentHash : B256) : ReorgCoordinator × Detection :=
  match c.insertBlock env blockNumber blockHash parentHash with
  | (c', some e) => (c', .error e)
  | (c', none) => (c', .ok none)

def insertOrDetectReorg (env : Surroundings) (c : ReorgCoordinator) (blockNumber : Nat)
    (blockHash parentHash : B256) : ReorgCoordinator × Detection :=
  match c.window.validateParent blockNumber parentHash with
  | .mismatch _ _ => (c, c.handleMismatch env blockNumber)
  | _ => c.insertOrFail env blockNumber blockHash parentHash

/-- The fetched blocks of a gap, validated and inserted in order.  A mismatch or an error of the
store ends the call. -/
def fillGap (env : Surroundings) (blockNumber : Nat) :
    ReorgCoordinator → List Header → ReorgCoordinator × Option Detection
  | c, [] => (c, none)
  | c, b :: blocks =>
    match c.window.validateParent b.number b.parentHash with
    | .mismatch _ _ => (c, some (c.handleMismatch env blockNumber))
    | _ =>
      match c.insertBlock env b.number b.hash b.parentHash with
      | (c', some e) => (c', some (.error e))
      | (c', none) => fillGap env blockNumber c' blocks

/-- The missing blocks between the latest block of the window and a new one.  A failed fetch is
passed over. -/
def fetchGap (env : Surroundings) (latest blockNumber : Nat) : List Header :=
  if latest + 1 < blockNumber then
    match env.provider with
    | none => []
    | some provider =>
      (provider.getBlockByNumberBatch
        (List.range' (latest + 1) (blockNumber - (latest + 1)))).getD []
  else []

/-- The blocks of a gap, then the new block, validated again. -/
def onGap (env : Surroundings) (c : ReorgCoordinator) (latest blockNumber : Nat)
    (blockHash parentHash : B256) : ReorgCoordinator × Detection :=
  match fillGap env blockNumber c (fetchGap env latest blockNumber) with
  | (c', some detection) => (c', detection)
  | (c', none) => c'.insertOrDetectReorg env blockNumber blockHash parentHash

/-- Called on each new block during live indexing. -/
def onNewBlock (env : Surroundings) (c : ReorgCoordinator) (blockNumber : Nat)
    (blockHash parentHash : B256) : ReorgCoordinator × Detection :=
  match c.window.validateParent blockNumber parentHash with
  | .valid => c.insertOrFail env blockNumber blockHash parentHash
  | .mismatch _ _ => (c, c.handleMismatch env blockNumber)
  | .noPreviousBlock =>
    match c.window.latestBlock with
    | none => c.insertOrFail env blockNumber blockHash parentHash
    | some latest =>
      if blockNumber = 0 then c.insertOrFail env blockNumber blockHash parentHash
      else c.onGap env latest blockNumber blockHash parentHash

/-- Called once on restart: whether blocks of the window were reorged while offline. -/
def validateOnStartup (env : Surroundings) (c : ReorgCoordinator) : Detection :=
  match c.window.blockNumbers with
  | [] => .ok none
  | oldest :: _ =>
    match env.provider with
    | none => .error "No provider configured for startup validation"
    | some provider =>
      match provider.getBlockByNumberBatch c.window.blockNumbers with
      | none => .error "Failed to fetch blocks for startup validation"
      | some blocks =>
        let latest := c.window.latestBlock.getD 0
        let task := fun forkPoint =>
          { network := c.network
            forkPoint := forkPoint
            detectionPoint := latest
            eventTables := c.eventTables
            derivedTables := c.derivedTables
            canonicalBlocks := [] : ReorgTask }
        match c.window.findForkPoint (blocks.map fun b => (b.number, b.hash)) with
        | some lastMatch => if latest ≤ lastMatch then .ok none else .ok (some (task (lastMatch + 1)))
        | none => .ok (some (task oldest))

/-- The task for a range of blocks that is known to be reorged. -/
def rangeTask (c : ReorgCoordinator) (forkPoint detectionPoint : Nat) : ReorgTask where
  network := c.network
  forkPoint := forkPoint
  detectionPoint := detectionPoint
  eventTables := c.eventTables
  derivedTables := c.derivedTables
  canonicalBlocks := []

/-- A task for a range of blocks that removed logs name. -/
def tryCreateReorgTaskForBlockRange (c : ReorgCoordinator) (forkPoint detectionPoint : Nat) :
    Except String ReorgTask :=
  if forkPoint ≤ detectionPoint then .ok (c.rangeTask forkPoint detectionPoint)
  else .error s!"fork_point ({forkPoint}) must be <= detection_point ({detectionPoint})"

/-- A task for a range of blocks that a notification names. -/
def onExexReorg (c : ReorgCoordinator) (revertFromBlock revertToBlock : Nat) :
    Except String ReorgTask :=
  if revertFromBlock ≤ revertToBlock then .ok (c.rangeTask revertFromBlock revertToBlock)
  else .error s!"revert_from_block ({revertFromBlock}) must be <= revert_to_block ({revertToBlock})"

/-- Executes a task on the store and the window. -/
def handleReorg (env : Surroundings) (c : ReorgCoordinator) (task : ReorgTask) :
    ReorgCoordinator × Option String :=
  let done := task.execute env.postgres env.sessions env.provider c.store c.window
  ({ c with store := done.1, window := done.2.1 }, done.2.2)

/-- Detection and handling in one: the fork point of a reorg that was handled. -/
def detectAndHandleReorg (env : Surroundings) (c : ReorgCoordinator) (blockNumber : Nat)
    (blockHash parentHash : B256) : ReorgCoordinator × Except String (Option Nat) :=
  match c.onNewBlock env blockNumber blockHash parentHash with
  | (c', .error e) => (c', .error e)
  | (c', .ok none) => (c', .ok none)
  | (c', .ok (some task)) =>
    match c'.handleReorg env task with
    | (c'', some e) => (c'', .error e)
    | (c'', none) => (c'', .ok (some task.forkPoint))

/-- The task whose rollback a block makes the coordinator commit, if any. -/
def committedTask (env : Surroundings) (c : ReorgCoordinator) (blockNumber : Nat)
    (blockHash parentHash : B256) : Option ReorgTask :=
  match c.onNewBlock env blockNumber blockHash parentHash with
  | (c', .ok (some task)) =>
    if task.commits env.postgres env.sessions env.provider c'.store then some task else none
  | _ => none

end ReorgCoordinator

end Rindexer.Reorg
