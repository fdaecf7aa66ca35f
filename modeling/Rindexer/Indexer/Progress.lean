import Mathlib.Data.String.Basic
import Rindexer.Lib.Decimal
import Rindexer.Lib.Joined
import Rindexer.Lib.OrderedMap
import Rindexer.Lib.Transition

/-! The progress of the events that are indexed: what is registered at the start, how a report of a
synced block changes it, and the blocks that are announced as complete for a chain. -/

namespace Rindexer.Indexer.Progress

open Rindexer.Lib

inductive IndexingEventProgressStatus
  | syncing (progress syncingToBlock : Nat)
  | live
  | completed
deriving DecidableEq, Repr

structure IndexingEventProgress where
  id : String
  startingBlock : Nat
  lastSyncedBlock : Nat
  chainId : Nat
  liveIndexing : Bool
  status : IndexingEventProgressStatus
deriving DecidableEq, Repr

inductive SyncError
  | eventNotFound (key : String)
  | blockNumberConversionTotalBlocks (syncingToBlock startingBlock : Nat)
  | blockNumberConversionSyncedBlocks (lastSyncedBlock startingBlock : Nat)
deriving DecidableEq, Repr

/-- How a report fails: with an error, or in the division. -/
inductive Failure
  | error (e : SyncError)
  | divisionByZero
deriving DecidableEq, Repr

def progressKey (chainId : Nat) (id : String) : String := toString chainId ++ "::" ++ id

structure NetworkBlockProgress where
  events : OrderedMap String Nat
  lastEmittedMin : Nat

structure IndexingEventsProgressState where
  events : OrderedMap String IndexingEventProgress
  blockNetworks : OrderedMap Nat NetworkBlockProgress

/-! ### Registration -/

/-- A detail of an event, or a network of traces, whose latest block the node has given. -/
structure Registration where
  id : String
  chainId : Nat
  startBlock : Option Nat
  endBlock : Option Nat
  latestBlock : Nat
  isTrace : Bool
deriving DecidableEq, Repr

namespace Registration

def start (r : Registration) : Nat := r.startBlock.getD r.latestBlock

def syncingTo (r : Registration) : Nat :=
  let endBlock := r.endBlock.getD r.latestBlock
  if endBlock < r.latestBlock then endBlock else r.latestBlock

def running (r : Registration) : IndexingEventProgress where
  id := r.id
  startingBlock := r.start
  lastSyncedBlock := r.start
  chainId := r.chainId
  liveIndexing := r.endBlock.isNone
  status := .syncing 0 r.syncingTo

def key (r : Registration) : String := progressKey r.chainId r.id

end Registration

def registerEvent (s : IndexingEventsProgressState) (r : Registration) :
    IndexingEventsProgressState :=
  let np := (s.blockNetworks.get? r.chainId).getD ⟨∅, 0⟩
  -- the entry of a trace stays as it is, that of an event is set
  let start := if r.isTrace then (np.events.get? r.id).getD r.start else r.start
  { events := s.events.insert r.key r.running
    blockNetworks := s.blockNetworks.insert r.chainId { np with events := np.events.insert r.id start } }

/-- A detail of a contract event. -/
structure NetworkContract where
  network : String
  chainId : Nat
  startBlock : Option Nat
  endBlock : Option Nat
deriving DecidableEq, Repr

structure EventInformation where
  id : String
  details : List NetworkContract
deriving DecidableEq, Repr

/-- The details of the contract events.  The latest block of a network is asked for until the node has
answered once; `answers` has what it answers, one request after the other. -/
def contractRegistrations : List (String × NetworkContract) → List (String × Nat) →
    List (Option Nat) → List Registration × List (Option Nat)
  | [], _, answers => ([], answers)
  | (id, d) :: details, cache, answers =>
    let latest := match cache.lookup d.network with
      | some block => some block
      | none => answers.head?.join
    let answers' := if (cache.lookup d.network).isSome then answers else answers.tail
    match latest with
    | some block =>
      let rest := contractRegistrations details ((d.network, block) :: cache) answers'
      (⟨id, d.chainId, d.startBlock, d.endBlock, block, false⟩ :: rest.1, rest.2)
    | none => contractRegistrations details cache answers'

/-- The networks of the traces, each with the first event that is on it. -/
def traceRegistrations : List (String × NetworkContract) → List String → List (Option Nat) →
    List Registration
  | [], _, _ => []
  | (id, d) :: details, seen, answers =>
    if d.network ∈ seen then traceRegistrations details seen answers
    else
      match answers.head?.join with
      | some block => ⟨id, d.chainId, d.startBlock, d.endBlock, block, true⟩ ::
        traceRegistrations details (d.network :: seen) answers.tail
      | none => traceRegistrations details (d.network :: seen) answers.tail

def detailsOf (information : List EventInformation) : List (String × NetworkContract) :=
  information.flatMap fun e => e.details.map (e.id, ·)

def registrations (eventInformation traceInformation : List EventInformation)
    (answers : List (Option Nat)) : List Registration :=
  let contracts := contractRegistrations (detailsOf eventInformation) [] answers
  contracts.1 ++ traceRegistrations (detailsOf traceInformation) [] contracts.2

def monitor (eventInformation traceInformation : List EventInformation)
    (answers : List (Option Nat)) : IndexingEventsProgressState :=
  (registrations eventInformation traceInformation answers).foldl registerEvent ⟨∅, ∅⟩

/-! ### Reports -/

/-- The status of an event after a report. -/
def IndexingEventProgress.advance (event : IndexingEventProgress) (newLastSyncedBlock : Nat) :
    Except Failure IndexingEventProgressStatus :=
  match event.status with
  | .syncing progress syncingToBlock =>
    if progress < 10000 then do
      let progress ←
        if event.lastSyncedBlock < syncingToBlock then
          if syncingToBlock < event.startingBlock then
            .error (.error (.blockNumberConversionTotalBlocks syncingToBlock event.startingBlock))
          else if newLastSyncedBlock < event.startingBlock then
            .error (.error
              (.blockNumberConversionSyncedBlocks newLastSyncedBlock event.startingBlock))
          else if syncingToBlock - event.startingBlock = 0 then .error .divisionByZero
          else
            .ok (min (min ((newLastSyncedBlock - event.startingBlock) * 10000) (2 ^ 64 - 1) /
              (syncingToBlock - event.startingBlock)) 10000)
        else .ok progress
      if syncingToBlock ≤ newLastSyncedBlock then
        return if event.liveIndexing then .live else .completed
      else return .syncing progress syncingToBlock
    else .ok event.status
  | _ => .ok event.status

structure BlockReport where
  chainId : Nat
  eventId : String
  block : Nat

def updateEvent (events : OrderedMap String IndexingEventProgress) (chainId : Nat) (id : String)
    (newLastSyncedBlock : Nat) :
    Except Failure (OrderedMap String IndexingEventProgress × BlockReport) :=
  match events.get? (progressKey chainId id) with
  | none => .error (.error (.eventNotFound (progressKey chainId id)))
  | some event => do
    let status ← event.advance newLastSyncedBlock
    return (events.insert (progressKey chainId id)
        { event with status, lastSyncedBlock := newLastSyncedBlock },
      ⟨event.chainId, event.id, newLastSyncedBlock⟩)

/-- Whether an event still holds its chain back. -/
def isActive (events : OrderedMap String IndexingEventProgress) (chainId : Nat) (id : String) : Bool :=
  match events.get? (progressKey chainId id) with
  | some event => event.status != .completed
  | none => false

/-- The least block of the events of a chain that are not completed. -/
def minBlock (events : OrderedMap String IndexingEventProgress) (chainId : Nat)
    (networkProgress : NetworkBlockProgress) : Option Nat :=
  ((networkProgress.events.entries.filter fun entry =>
    isActive events chainId entry.1).map Prod.snd).min?

/-- `update_last_synced_block`: the state after the report, and the block that is announced for the
chain. -/
def updateLastSyncedBlock (s : IndexingEventsProgressState) (chainId : Nat) (id : String)
    (newLastSyncedBlock : Nat) :
    Except Failure (IndexingEventsProgressState × Option (Nat × Nat)) :=
  match updateEvent s.events chainId id newLastSyncedBlock with
  | .error e => .error e
  | .ok (events, report) =>
    match s.blockNetworks.get? report.chainId with
    | none => .ok (⟨events, s.blockNetworks⟩, none)
    | some networkProgress =>
      match networkProgress.events.get? report.eventId with
      | none => .ok (⟨events, s.blockNetworks⟩, none)
      | some _ =>
        let progress := { networkProgress with
          events := networkProgress.events.insert report.eventId report.block }
        match minBlock events report.chainId progress with
        | none => .ok (⟨events, s.blockNetworks.insert report.chainId progress⟩, none)
        | some block =>
          if progress.lastEmittedMin < block then
            .ok (⟨events, s.blockNetworks.insert report.chainId
              { progress with lastEmittedMin := block }⟩, some (report.chainId, block))
          else .ok (⟨events, s.blockNetworks.insert report.chainId progress⟩, none)

end Rindexer.Indexer.Progress
