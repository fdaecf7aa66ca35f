import Rindexer.Chain
import Rindexer.Lib.Joined
import Rindexer.Lib.OrderedMap

/-! The streams of an event: its messages are split into chunks and published to every configured
target at once, or kept in a buffer until their block is final. -/

namespace Rindexer.Streams

open Rindexer.Lib

inductive StreamType
  | sns
  | webhook
  | rabbitmq
  | kafka
  | redis
  | cloudflareQueues
deriving DecidableEq, Repr

def StreamType.all : List StreamType := [.sns, .webhook, .rabbitmq, .kafka, .redis, .cloudflareQueues]

def StreamType.label : StreamType → List Char
  | .sns => "sns".toList
  | .webhook => "webhook".toList
  | .rabbitmq => "rabbitmq".toList
  | .kafka => "kafka".toList
  | .redis => "redis".toList
  | .cloudflareQueues => "cloudflare_queues".toList

inductive StreamDeliveryMode
  | instant
  | finalized
deriving DecidableEq, Repr

/-- An event that a target takes, with its conditions as a test on the event data. -/
structure StreamEvent (V : Type) where
  eventName : List Char
  conditions : Option (V → Bool)
  aliasName : Option (List Char)

/-- A topic, endpoint, exchange or queue.  Only topics have a prefix. -/
structure StreamTarget (V : Type) where
  endpoint : String
  prefixId : Option (List Char)
  networks : List (List Char)
  events : List (StreamEvent V)
  delivery : Option StreamDeliveryMode

structure EventMessage (V : Type) where
  eventName : List Char
  eventData : List V
  eventSignatureHash : B256
  network : List Char
  blockNumber : Nat
deriving DecidableEq

/-- What an identifier is made of: the callback of an event, a flushed block, or a reorg. -/
inductive Source
  | instant (contractName eventName network : List Char) (fromBlock toBlock blockNumber : Nat)
  | finalized (streamType : StreamType) (configIndex : Nat) (network : List Char) (blockNumber : Nat)
  | reorg (network : List Char) (forkBlock : Nat)
deriving DecidableEq, Repr

/-- The messages of one publication, one for each chunk. -/
structure Dispatch (V : Type) where
  streamType : StreamType
  configIndex : Nat
  endpoint : String
  prefixId : List Char
  source : Source
  messages : List (EventMessage V)

/-- The name of the native transfer event. -/
def nativeTransferEventName : List Char := "NativeTransfer".toList

section Messages

variable {V : Type}

def maxChunkSize : Nat := 75 * 1024

/-- Chunks of at most the maximal size, where an item that is larger has one of its own. -/
def chunkData (size : V → Nat) (dataArray : List V) : List (List V) :=
  let (chunks, currentChunk, _) := dataArray.foldl
    (fun (chunks, currentChunk, currentSize) item =>
      if maxChunkSize < currentSize + size item then
        (chunks ++ [currentChunk], [item], size item)
      else (chunks, currentChunk ++ [item], currentSize + size item))
    (([], [], 0) : List (List V) × List V × Nat)
  if currentChunk.isEmpty then chunks else chunks ++ [currentChunk]

/-- The alias of an event, if it has one. -/
def getEventName (events : List (StreamEvent V)) (eventMessage : EventMessage V) : List Char :=
  ((events.find? (·.eventName = eventMessage.eventName)).bind StreamEvent.aliasName).getD
    eventMessage.eventName

def createChunkMessage (events : List (StreamEvent V)) (eventMessage : EventMessage V)
    (chunk : List V) : EventMessage V :=
  { eventMessage with eventName := getEventName events eventMessage, eventData := chunk }

/-- Native transfers of a target without events are not filtered.  Of other events only those that the
target has get here. -/
def filterChunkEventDataByConditions (events : List (StreamEvent V)) (eventMessage : EventMessage V)
    (chunk : List V) (forceSendNetworkWide : Bool) : List V :=
  if forceSendNetworkWide then chunk
  else
    match events.find? (·.eventName = eventMessage.eventName) with
    | none => chunk
    | some event =>
      match event.conditions with
      | none => chunk
      | some conditions => chunk.filter conditions

def shouldSendForConfig (configEvents : List (StreamEvent V)) (eventName : List Char)
    (isTraceEvent forceSendNetworkWide : Bool) : Bool :=
  forceSendNetworkWide || isTraceEvent || configEvents.any (·.eventName = eventName)

/-- Reorg notifications and messages for block 0 are never kept. -/
def shouldBuffer (delivery : Option StreamDeliveryMode) (eventMessage : EventMessage V)
    (forceSendNetworkWide : Bool) : Bool :=
  if forceSendNetworkWide then false
  else if eventMessage.blockNumber = 0 then false
  else delivery = some .finalized

/-- The publications of a message to a target. -/
def streamTasks (streamType : StreamType) (configIndex : Nat) (target : StreamTarget V)
    (source : Source) (eventMessage : EventMessage V) (chunks : List (List V))
    (forceSendNetworkWide : Bool) : Dispatch V where
  streamType := streamType
  configIndex := configIndex
  endpoint := target.endpoint
  prefixId := if streamType = .sns then target.prefixId.getD [] else []
  source := source
  messages := chunks.map fun chunk =>
    createChunkMessage target.events eventMessage
      (filterChunkEventDataByConditions target.events eventMessage chunk forceSendNetworkWide)

end Messages

/-! ### The finalized buffer -/

/-- Events by the number of their block. -/
abbrev FinalizedBuffer (V : Type) := OrderedMap Nat (List V)

namespace FinalizedBuffer

variable {V : Type} (buffer : FinalizedBuffer V)

def add (blockNumber : Nat) (events : List V) : FinalizedBuffer V :=
  buffer.insert blockNumber ((buffer.get? blockNumber).getD [] ++ events)

/-- The blocks up to `currentHead - reorgSafeDistance`, and the others, which stay. -/
def flush (currentHead reorgSafeDistance : Nat) : List (Nat × List V) × FinalizedBuffer V :=
  let finalityThreshold := currentHead - reorgSafeDistance
  let cutoff := finalityThreshold + 1
  ((buffer.restrict (decide <| · < cutoff)).entries, buffer.restrict (decide <| cutoff ≤ ·))

def discardRange (forkPoint detectionPoint : Nat) : FinalizedBuffer V :=
  buffer.restrict fun k => !(decide (forkPoint ≤ k) && decide (k ≤ detectionPoint))

end FinalizedBuffer

structure BufferKey where
  streamType : StreamType
  configIndex : Nat
  network : List Char
  eventName : List Char
  eventSignatureHash : B256
deriving DecidableEq, Repr

/-- The buffers of one client. -/
structure Buffers (V : Type) where
  keys : List BufferKey
  buffer : BufferKey → FinalizedBuffer V

/-! ### Clients -/

/-- The targets of each type. -/
abbrev StreamsConfig (V : Type) := StreamType → List (StreamTarget V)

def StreamsConfig.targets {V : Type} (config : StreamsConfig V) :
    List (StreamType × Nat × StreamTarget V) :=
  StreamType.all.flatMap fun streamType =>
    (config streamType).zipIdx.map fun (target, configIndex) => (streamType, configIndex, target)

section Clients

variable {V : Type} (size : V → Nat) (config : StreamsConfig V)

def Buffers.empty : Buffers V := ⟨[], fun _ => ∅⟩

def bufferEvent (buffers : Buffers V) (streamType : StreamType) (configIndex : Nat)
    (eventMessage : EventMessage V) : Buffers V :=
  let key : BufferKey := ⟨streamType, configIndex, eventMessage.network, eventMessage.eventName,
    eventMessage.eventSignatureHash⟩
  { keys := if key ∈ buffers.keys then buffers.keys else buffers.keys ++ [key]
    buffer := Function.update buffers.buffer key
      ((buffers.buffer key).add eventMessage.blockNumber eventMessage.eventData) }

/-- One target of `stream_with_mode`. -/
def streamTo (source : Source) (eventMessage : EventMessage V)
    (isTraceEvent forceSendNetworkWide : Bool) (state : Buffers V × List (Dispatch V))
    (entry : StreamType × Nat × StreamTarget V) : Buffers V × List (Dispatch V) :=
  let (streamType, configIndex, target) := entry
  if shouldSendForConfig target.events eventMessage.eventName isTraceEvent forceSendNetworkWide &&
      target.networks.contains eventMessage.network then
    if shouldBuffer target.delivery eventMessage forceSendNetworkWide then
      (bufferEvent state.1 streamType configIndex eventMessage, state.2)
    else
      (state.1, state.2 ++ [streamTasks streamType configIndex target source eventMessage
        (chunkData size eventMessage.eventData) forceSendNetworkWide])
  else state

/-- The buffers and the publications of a message. -/
def streamWithMode (source : Source) (eventMessage : EventMessage V)
    (isTraceEvent forceSendNetworkWide : Bool) (buffers : Buffers V) :
    Buffers V × List (Dispatch V) :=
  config.targets.foldl (streamTo size source eventMessage isTraceEvent forceSendNetworkWide)
    (buffers, [])

/-- The publications of flushed blocks. -/
def dispatchFlushed (key : BufferKey) (ready : List (Nat × List V)) : List (Dispatch V) :=
  match (config key.streamType)[key.configIndex]? with
  | none => []
  | some target =>
    ready.map fun (blockNumber, events) =>
      let eventMessage : EventMessage V :=
        ⟨key.eventName, events, key.eventSignatureHash, key.network, blockNumber⟩
      streamTasks key.streamType key.configIndex target
        (.finalized key.streamType key.configIndex key.network blockNumber) eventMessage
        (chunkData size events) false

/-- Takes the final blocks of a network out of the buffers and publishes them. -/
def flushFinalized (reorgSafeDistance : Nat) (network : List Char) (headBlock : Nat)
    (buffers : Buffers V) : Buffers V × List (Dispatch V) :=
  ({ buffers with
      buffer := fun key =>
        if key.network = network then ((buffers.buffer key).flush headBlock reorgSafeDistance).2
        else buffers.buffer key },
    (buffers.keys.filter (·.network = network)).flatMap fun key =>
      dispatchFlushed size config key ((buffers.buffer key).flush headBlock reorgSafeDistance).1)

def discardFinalized (network : List Char) (forkPoint detectionPoint : Nat) (buffers : Buffers V) :
    Buffers V :=
  { buffers with
    buffer := fun key =>
      if key.network = network then (buffers.buffer key).discardRange forkPoint detectionPoint
      else buffers.buffer key }

/-- The notification of a reorg, to every target of the network. -/
def streamReorg (network : List Char) (forkBlock : Nat) (reorgPayload : V) (buffers : Buffers V) :
    Buffers V × List (Dispatch V) :=
  streamWithMode size config (.reorg network forkBlock)
    ⟨"__rindexer_reorg".toList, [reorgPayload], 0, network, 0⟩ false true buffers

/-- An event with streams, under the names of its callback. -/
structure StreamedEvent where
  contractName : List Char
  eventName : List Char
  eventSignatureHash : B256
  isTraceEvent : Bool
deriving DecidableEq, Repr

/-- The events of a batch with their blocks, as the callback gets them. -/
structure StreamBatch (V : Type) where
  network : List Char
  fromBlock : Nat
  toBlock : Nat
  events : List (Nat × V)

/-- The events of each block, in order. -/
def eventsByBlock (events : List (Nat × V)) : OrderedMap Nat (List V) :=
  events.foldl (fun byBlock (blockNumber, event) => FinalizedBuffer.add byBlock blockNumber [event]) ∅

/-- The stream part of `no_code_callback`: one message for each block. -/
def noCodeCallback (event : StreamedEvent) (batch : StreamBatch V) (buffers : Buffers V) :
    Buffers V × List (Dispatch V) :=
  (eventsByBlock batch.events).entries.foldl
    (fun (buffers, dispatched) (blockNumber, blockEvents) =>
      let (buffers', published) := streamWithMode size config
        (.instant event.contractName event.eventName batch.network batch.fromBlock batch.toBlock
          blockNumber)
        ⟨event.eventName, blockEvents, event.eventSignatureHash, batch.network, blockNumber⟩
        event.isTraceEvent false buffers
      (buffers', dispatched ++ published))
    (buffers, [])

end Clients

end Rindexer.Streams
