import Mathlib.Data.List.Forall2
import Rindexer.Blockclock.Encoder

/-! Attaching timestamps to a batch of logs: the four strategies in their order, the last of which asks
the node for blocks, sets apart the logs that its answer leaves out, and asks again for these. -/

namespace Rindexer.Blockclock

open Rindexer.Lib

/-- A log; `rest` is everything but its block. -/
structure Log (Data : Type) where
  rest : Data
  blockNumber : Option Nat
  blockTimestamp : Option UInt64
deriving DecidableEq

inductive NamedChain
  | base | blast | soneium | world | other
deriving DecidableEq, Repr

/-- A chain, with the block time in seconds that is known of it. -/
structure Chain where
  id : Nat
  named : Option NamedChain
  averageBlocktimeHint : Option UInt64
deriving DecidableEq

/-! ### Fixed intervals -/

inductive SpacedNetwork
  | base (chain : Chain)
  | blast (chain : Chain)
  | soneium (chain : Chain)
  | worldchain (chain : Chain)
deriving DecidableEq

namespace SpacedNetwork

def tryFrom (chain : Chain) : Option SpacedNetwork :=
  match chain.named with
  | some .base => some (.base chain)
  | some .blast => some (.blast chain)
  | some .soneium => some (.soneium chain)
  | some .world => some (.worldchain chain)
  | _ => none

def genesisTime : SpacedNetwork → UInt64
  | base _ => 1686789347
  | blast _ => 1708809815
  | soneium _ => 1733134751
  | worldchain _ => 1719335639

def inner : SpacedNetwork → Chain
  | base chain | blast chain | soneium chain | worldchain chain => chain

def blockSpacing (network : SpacedNetwork) : Option UInt64 := network.inner.averageBlocktimeHint

def maxSafeBlock : SpacedNetwork → Nat
  | base _ => 32853624
  | blast _ => 21843498
  | soneium _ => 9746802
  | worldchain _ => 16647415

def getBlockTime (network : SpacedNetwork) (block : Nat) : Option UInt64 :=
  network.blockSpacing.bind fun spacing =>
    if block ≤ network.maxSafeBlock then
      some (network.genesisTime + spacing * UInt64.ofNat block)
    else none

end SpacedNetwork

/-! ### Fetching -/

/-- Why no logs come back. -/
inductive Stop (ε : Type)
  | provider (error : ε)
  | missingBlockInRange (chain : Chain) (block : Nat)
  | panicked
deriving DecidableEq

/-- The error is returned, as opposed to a panic. -/
def Stop.IsError {ε : Type} : Stop ε → Prop
  | panicked => False
  | _ => True

/-- The fetcher of a network.  `sampled` and `estimate` are computed with floats: the blocks sampled
from a range, and the timestamp on the line between two blocks, which panics unless it is positive. -/
structure BlockFetcher (ε : Type) where
  chain : Chain
  sampled : Nat → Nat → List Nat
  estimate : (Nat × UInt64) × (Nat × UInt64) → Nat → Option UInt64
  /-- The answer to the given call, in the order they are made. -/
  getBlockByNumberBatch : Nat → List Nat → Except ε (List (Nat × UInt64))

def recommendedRpcChunkSize : Nat := 50

/-- The timestamps for logs that have none in the delta file or the answer, by block. -/
def attach {Data : Type} (timestamps : OrderedMap Nat UInt64) (log : Log Data) : Log Data :=
  match log.blockNumber.bind timestamps.get? with
  | some timestamp => { log with blockTimestamp := some timestamp }
  | none => log

/-- The blocks of the logs that have no timestamp. -/
def blocksWithoutTs {Data : Type} (logs : List (Log Data)) : List Nat :=
  logs.filterMap fun log => if log.blockTimestamp.isNone then log.blockNumber else none

namespace BlockFetcher

variable {ε Data : Type} (fetcher : BlockFetcher ε)

def blockRangeSamples (first last : Nat) : List Nat :=
  if last < first then []
  else if first = last then [last]
  else if last - first ≤ recommendedRpcChunkSize / 2 then List.range' first (last - first + 1)
  else fetcher.sampled first last

/-- The window of two anchors around a block, or the last one. -/
def windowOf (anchors : List (Nat × UInt64)) (block : Nat) :
    Option ((Nat × UInt64) × (Nat × UInt64)) :=
  let windows := anchors.zip anchors.tail
  (windows.find? fun window => window.1.1 ≤ block ∧ block ≤ window.2.1).or windows.getLast?

def interpolate (anchors : List (Nat × UInt64)) : Except (Stop ε) (OrderedMap Nat UInt64) :=
  match anchors with
  | [] => .ok ∅
  | [anchor] => .ok (OrderedMap.insert ∅ anchor.1 anchor.2)
  | first :: _ =>
    let anchors := sortByKey Prod.fst anchors
    let first := (anchors.head?.getD first).1
    let last := (anchors.getLast?.getD (first, 0)).1
    (List.range' first (last - first + 1)).foldlM (fun dates block =>
      match (windowOf anchors block).bind fun window => fetcher.estimate window block with
      | some timestamp => .ok (dates.insert block timestamp)
      | none => .error .panicked) ∅

/-- The blocks that are asked for, sorted and each one once. -/
def sortedBlocks (blocks : List Nat) : List Nat :=
  (blocks.insertionSort (· ≤ ·)).destutter (· ≠ ·)

def getBlocks (call : Nat) (blocks : List Nat) : Except (Stop ε) (OrderedMap Nat UInt64) :=
  let blocks := sortedBlocks blocks
  let first := blocks.head?.getD 0
  let last := blocks.getLast?.getD 0
  match fetcher.getBlockByNumberBatch call blocks with
  | .error error => .error (.provider error)
  | .ok answer =>
    if blocks.length ≤ (fetcher.blockRangeSamples first last).length then
      .ok (OrderedMap.insertAll ∅ answer)
    else
      (fetcher.interpolate answer).bind fun dates =>
        match blocks.find? fun block => (dates.get? block).isNone with
        | some block => .error (.missingBlockInRange fetcher.chain block)
        | none => .ok dates

/-- `attach_log_timestamps` of the fetcher, unless more than `fuel` calls are made. -/
def attachLogTimestamps : Nat → Nat → List (Log Data) → Option (Except (Stop ε) (List (Log Data)))
  | 0, _, _ => none
  | fuel + 1, call, logs =>
    if blocksWithoutTs logs = [] then some (.ok logs)
    else
      match fetcher.getBlocks call (blocksWithoutTs logs) with
      | .error stop => some (.error stop)
      | .ok timestamps =>
        let attached := logs.map (attach timestamps)
        let logsWithTs := attached.filter fun log => log.blockTimestamp.isSome
        let logsWithoutTs := attached.filter fun log => !log.blockTimestamp.isSome
        if logsWithoutTs ≠ [] then
          (attachLogTimestamps fuel (call + 1) logsWithoutTs).map fun result =>
            result.map fun completed => completed ++ logsWithTs
        else some (.ok logsWithTs)

end BlockFetcher

/-! ### The strategies -/

structure BlockClock (ε : Type) where
  fetcher : BlockFetcher ε
  runlencoder : Option DeltaEncoder

namespace BlockClock

variable {ε Data : Type}

/-- A timestamp that is too large for seconds is one in milliseconds. -/
def normalized (timestamp : UInt64) : UInt64 :=
  if timestamp > 1000000000000 then timestamp / 1000 else timestamp

def normalize (log : Log Data) : Log Data :=
  { log with blockTimestamp := log.blockTimestamp.map normalized }

/-- Strategy 2; no result where a log has no block number, which panics. -/
def spaced (chain : Chain) (logs : List (Log Data)) : Option (List (Log Data)) :=
  match SpacedNetwork.tryFrom chain with
  | some network =>
    logs.mapM fun log => log.blockNumber.map fun block =>
      { log with blockTimestamp := network.getBlockTime block }
  | none => some logs

/-- `try_attach_log_timestamps`. -/
def tryAttachLogTimestamps (encoder : DeltaEncoder) (logs : List (Log Data)) : List (Log Data) :=
  if blocksWithoutTs logs = [] then logs
  else logs.map (attach (encoder.getBlockTimestamps (blocksWithoutTs logs)))

/-- Strategy 3. -/
def encoded (clock : BlockClock ε) (logs : List (Log Data)) : List (Log Data) :=
  match clock.runlencoder with
  | some deltas => tryAttachLogTimestamps deltas logs
  | none => logs

def attachLogTimestamps (clock : BlockClock ε) (fuel : Nat) (logs : List (Log Data)) :
    Option (Except (Stop ε) (List (Log Data))) :=
  if logs = [] then some (.ok logs)
  else
    let logs := logs.map normalize
    if logs.all fun log => log.blockTimestamp.isSome then some (.ok logs)
    else
      match spaced clock.fetcher.chain logs with
      | none => some (.error .panicked)
      | some logs => clock.fetcher.attachLogTimestamps fuel 0 (clock.encoded logs)

end BlockClock

end Rindexer.Blockclock
