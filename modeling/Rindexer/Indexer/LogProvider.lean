import Rindexer.Chain
import Rindexer.Lib.Sorting
import Rindexer.Indexer.DetailKey

/-! The logs of an event filter as the JSON-RPC provider fetches them: one request for each topic
alternative and chunk of addresses, and the answers merged. -/

namespace Rindexer.Provider

open Rindexer.Lib Rindexer.Indexer

/-! ### Logs -/

/-- A log as `alloy` has it. -/
structure Log (Address Data : Type) where
  address : Address
  topics : List B256
  data : Data
  blockHash : Option B256
  blockNumber : Option Nat
  blockTimestamp : Option Nat
  transactionHash : Option B256
  transactionIndex : Option Nat
  logIndex : Option Nat
  removed : Bool
deriving DecidableEq, Repr

/-- A log of the canonical chain.  No instruction logs more than four topics. -/
structure ChainLog (Address Data : Type) where
  address : Address
  topics : List B256
  data : Data
  blockHash : B256
  blockNumber : Nat
  timestamp : Nat
  transactionHash : B256
  transactionIndex : Nat
  logIndex : Nat
  topics_length : topics.length ≤ 4

section ChainLog

variable {Address Data : Type}

/-- The log of a node.  Not every node sends the time of the block. -/
def ChainLog.toLog (stamps : Bool) (log : ChainLog Address Data) : Log Address Data where
  address := log.address
  topics := log.topics
  data := log.data
  blockHash := some log.blockHash
  blockNumber := some log.blockNumber
  blockTimestamp := if stamps then some log.timestamp else none
  transactionHash := some log.transactionHash
  transactionIndex := some log.transactionIndex
  logIndex := some log.logIndex
  removed := false

/-- A log without the time of its block, where the node does not send it. -/
def Log.asSent (stamps : Bool) (log : Log Address Data) : Log Address Data :=
  if stamps then log else { log with blockTimestamp := none }

theorem ChainLog.asSent_toLog (stamps : Bool) (log : ChainLog Address Data) :
    (log.toLog stamps).asSent stamps = log.toLog stamps ∧
      (log.toLog true).asSent stamps = log.toLog stamps := by
  cases stamps <;> exact ⟨rfl, rfl⟩

/-- The order of the chain: by block, and in a block by transaction and log index at once. -/
def ChainLog.Before (a b : ChainLog Address Data) : Prop :=
  a.blockNumber < b.blockNumber ∨ a.blockNumber = b.blockNumber ∧
    a.transactionIndex ≤ b.transactionIndex ∧ a.logIndex < b.logIndex

/-- The logs of the canonical chain, in its order. -/
structure CanonicalLogs (Address Data : Type) where
  logs : List (ChainLog Address Data)
  ordered : logs.Pairwise ChainLog.Before
  one_number : ∀ a ∈ logs, ∀ b ∈ logs, a.blockHash = b.blockHash → a.blockNumber = b.blockNumber

end ChainLog

/-! ### Event filters -/

/-- The words that a topic may be.  None means any. -/
abbrev Topic := List B256

/-- The topics of the three indexed positions. -/
structure Topics where
  topic1 : Topic
  topic2 : Topic
  topic3 : Topic
deriving DecidableEq, Repr

structure SimpleEventFilter (Address : Type) where
  address : Option (ValueOrArray Address)
  topicId : B256
  topics : Topics
  additionalTopics : List Topics
  currentBlock : UInt64
  nextBlock : UInt64
deriving DecidableEq, Repr

structure FactoryFilter where
  factoryContractName : String
  factoryEventName : String
  factoryInputName : ValueOrArray String
  topicId : B256
  topics : Topics
  currentBlock : UInt64
  nextBlock : UInt64
deriving DecidableEq, Repr

inductive RindexerEventFilter (Address : Type)
  | address (filter : SimpleEventFilter Address)
  | filter (filter : SimpleEventFilter Address)
  | factory (filter : FactoryFilter)
deriving DecidableEq, Repr

/-- What is known of the children of a factory, by contract, event and inputs. -/
abbrev KnownChildren (Address : Type) := String → String → List String → Option (List Address)

namespace RindexerEventFilter

variable {Address : Type}

def eventSignature : RindexerEventFilter Address → B256
  | .address simple => simple.topicId
  | .filter simple => simple.topicId
  | .factory children => children.topicId

/-- `topic1`, `topic2` and `topic3`: those of the first alternative. -/
def firstTopics : RindexerEventFilter Address → Topics
  | .address simple => simple.topics
  | .filter simple => simple.topics
  | .factory children => children.topics

def topicSets : RindexerEventFilter Address → List Topics
  | .address simple => simple.topics :: simple.additionalTopics
  | .filter simple => simple.topics :: simple.additionalTopics
  | .factory children => [children.topics]

def fromBlock : RindexerEventFilter Address → Nat
  | .address simple => simple.currentBlock.toNat
  | .filter simple => simple.currentBlock.toNat
  | .factory children => children.currentBlock.toNat

def toBlock : RindexerEventFilter Address → Nat
  | .address simple => simple.nextBlock.toNat
  | .filter simple => simple.nextBlock.toNat
  | .factory children => children.nextBlock.toNat

/-- The set of addresses, in the order that its iteration has. -/
def contractAddresses [DecidableEq Address] (known : KnownChildren Address) :
    RindexerEventFilter Address → Option (List Address)
  | .address simple => simple.address.map fun a => a.toList.dedup
  | .filter simple => simple.address.map fun a => a.toList.dedup
  | .factory children =>
    (known children.factoryContractName children.factoryEventName children.factoryInputName.toList).map
      List.dedup

theorem toBlock_lt (f : RindexerEventFilter Address) : f.toBlock < 2 ^ 64 := by
  cases f with
  | address simple => exact simple.nextBlock.toNat_lt
  | filter simple => exact simple.nextBlock.toNat_lt
  | factory children => exact children.nextBlock.toNat_lt

theorem mem_topicSets (f : RindexerEventFilter Address) : f.firstTopics ∈ f.topicSets := by
  cases f with
  | address simple => exact List.mem_cons_self
  | filter simple => exact List.mem_cons_self
  | factory children => exact List.mem_cons_self

end RindexerEventFilter

/-! ### Requests -/

/-- A constraint that admits any value where it names none. -/
def admitted {α : Type} [DecidableEq α] (allowed : List α) (value : Option α) : Bool :=
  allowed.isEmpty || value.any fun v => allowed.contains v

theorem admitted_iff {α : Type} [DecidableEq α] {allowed : List α} {value : Option α} :
    admitted allowed value = true ↔ allowed = [] ∨ ∃ v ∈ allowed, value = some v := by
  cases value with
  | none => simp [admitted]
  | some v => simp [admitted]

/-- What a request asks of a log. -/
structure LogSelection (Address : Type) where
  address : List Address
  topic0 : Topic
  topics : Topics
deriving DecidableEq, Repr

/-- The request of `eth_getLogs`. -/
structure Filter (Address : Type) where
  selection : LogSelection Address
  fromBlock : Nat
  toBlock : Nat
deriving DecidableEq, Repr

section Requests

variable {Address Data : Type} [DecidableEq Address]

def Topics.matches (topics : Topics) (log : ChainLog Address Data) : Bool :=
  admitted topics.topic1 log.topics[1]? && admitted topics.topic2 log.topics[2]? &&
    admitted topics.topic3 log.topics[3]?

def LogSelection.matches (selection : LogSelection Address) (log : ChainLog Address Data) : Bool :=
  admitted selection.address (some log.address) && admitted selection.topic0 log.topics[0]? &&
    selection.topics.matches log

def Filter.matches (filter : Filter Address) (log : ChainLog Address Data) : Bool :=
  decide (filter.fromBlock ≤ log.blockNumber) && decide (log.blockNumber ≤ filter.toBlock) &&
    filter.selection.matches log

end Requests

/-! ### The provider -/

inductive AddressFiltering
  | inMemory
  | maxAddressPerGetLogsRequest (chunkSize : Nat)
deriving DecidableEq, Repr

/-- What the provider's `get_logs` uses of a network: its node, and how it filters by address.  The
node answers `none` for an error. -/
structure JsonRpcCachedProvider (Address Data : Type) where
  getLogs : Filter Address → Option (List (Log Address Data))
  addressFiltering : Option AddressFiltering

def defaultRpcSupportedAccountFilters : Nat := 1000

def chunkLoop {α : Type} (chunkSize : Nat) : List α → List α → List (List α)
  | current, [] => if current = [] then [] else [current]
  | current, item :: set =>
    if (current ++ [item]).length = chunkSize then
      (current ++ [item]) :: chunkLoop chunkSize [] set
    else chunkLoop chunkSize (current ++ [item]) set

/-- `chunk_hashset`, which divides by the size of a chunk. -/
def chunkHashset {α : Type} (set : List α) (chunkSize : Nat) : Option (List (List α)) :=
  if chunkSize = 0 then none else some (chunkLoop chunkSize [] set)

section Merge

variable {Address Data : Type}

def Log.identity (log : Log Address Data) : Option (B256 × B256 × Nat) :=
  match log.blockHash, log.transactionHash, log.logIndex with
  | some blockHash, some transactionHash, some logIndex => some (blockHash, transactionHash, logIndex)
  | _, _, _ => none

def u64Max : Nat := 2 ^ 64 - 1

def Log.mergeKey (log : Log Address Data) : ℕ ×ₗ ℕ ×ₗ ℕ :=
  toLex (log.blockNumber.getD u64Max,
    toLex (log.transactionIndex.getD u64Max, log.logIndex.getD u64Max))

def mergeFilterLogs (filterResults : List (List (Log Address Data))) : List (Log Address Data) :=
  sortByKey Log.mergeKey (retainFirst Log.identity [] filterResults.flatten)

end Merge

namespace JsonRpcCachedProvider

variable {Address Data : Type} [DecidableEq Address]

def getLogsForAddressInBatches (rpc : JsonRpcCachedProvider Address Data) (filter : Filter Address)
    (addresses : List Address) (chunkSize : Nat) : Option (List (Log Address Data)) :=
  match chunkHashset addresses chunkSize with
  | none => none
  | some chunks =>
    (chunks.mapM fun chunk =>
      rpc.getLogs { filter with selection := { filter.selection with address := chunk } }).map
        List.flatten

def getLogsForAddressInMemory (rpc : JsonRpcCachedProvider Address Data) (filter : Filter Address)
    (addresses : List Address) : Option (List (Log Address Data)) :=
  (rpc.getLogs filter).map fun logs => logs.filter fun log => addresses.contains log.address

/-- The request of a topic alternative. -/
def requestFor (f : RindexerEventFilter Address) (topics : Topics) : Filter Address :=
  ⟨⟨[], [f.eventSignature], topics⟩, f.fromBlock, f.toBlock⟩

/-- The logs of a topic alternative. -/
def getLogsFor (rpc : JsonRpcCachedProvider Address Data) (filter : Filter Address)
    (addresses : Option (List Address)) : Option (List (Log Address Data)) :=
  match addresses with
  | some addresses =>
    match rpc.addressFiltering with
    | some .inMemory => rpc.getLogsForAddressInMemory filter addresses
    | some (.maxAddressPerGetLogsRequest chunkSize) =>
      rpc.getLogsForAddressInBatches filter addresses chunkSize
    | none => rpc.getLogsForAddressInBatches filter addresses defaultRpcSupportedAccountFilters
  | none => rpc.getLogs filter

/-- `get_logs`, with `none` for an error or a panic. -/
def getLogsOf (rpc : JsonRpcCachedProvider Address Data) (known : KnownChildren Address)
    (f : RindexerEventFilter Address) : Option (List (Log Address Data)) :=
  if f.contractAddresses known = some [] then some []
  else
    (f.topicSets.mapM fun topics =>
      rpc.getLogsFor (requestFor f topics) (f.contractAddresses known)).map mergeFilterLogs

end JsonRpcCachedProvider

/-! ### What it answers -/

section Answers

variable {Address Data : Type}

/-- The node answers a request with exactly the logs that match it, in some order. -/
def AnswersExactly [DecidableEq Address] (rpc : JsonRpcCachedProvider Address Data)
    (chain : CanonicalLogs Address Data) (stamps : Bool) : Prop :=
  ∀ filter, ∃ sent : List (ChainLog Address Data), sent.Perm (chain.logs.filter filter.matches) ∧
    rpc.getLogs filter = some (sent.map (ChainLog.toLog stamps))

theorem CanonicalLogs.before_or (chain : CanonicalLogs Address Data) :
    ∀ a ∈ chain.logs, ∀ b ∈ chain.logs, a = b ∨ a.Before b ∨ b.Before a := by
  have h : ∀ l : List (ChainLog Address Data), l.Pairwise ChainLog.Before →
      ∀ a ∈ l, ∀ b ∈ l, a = b ∨ a.Before b ∨ b.Before a := by
    intro l hl
    induction l with
    | nil => exact fun a ha => nomatch ha
    | cons c l ih =>
      obtain ⟨hHead, hTail⟩ := List.pairwise_cons.mp hl
      intro a ha b hb
      rcases List.mem_cons.mp ha with rfl | ha'
      · rcases List.mem_cons.mp hb with rfl | hb'
        · exact Or.inl rfl
        · exact Or.inr (Or.inl (hHead b hb'))
      · rcases List.mem_cons.mp hb with rfl | hb'
        · exact Or.inr (Or.inr (hHead a ha'))
        · exact ih hTail a ha' b hb'
  exact h chain.logs chain.ordered

/-- The logs of the chain differ in their identity. -/
theorem CanonicalLogs.identity_inj (chain : CanonicalLogs Address Data) (stamps : Bool) :
    ∀ a ∈ chain.logs, ∀ b ∈ chain.logs,
      (a.toLog stamps).identity = (b.toLog stamps).identity → a = b := by
  intro a ha b hb hSame
  simp only [Log.identity, ChainLog.toLog, Option.some.injEq, Prod.mk.injEq] at hSame
  have hNumber := chain.one_number a ha b hb hSame.1
  rcases chain.before_or a ha b hb with h | h | h
  · exact h
  · rcases h with h | h <;> omega
  · rcases h with h | h <;> omega

theorem ChainLog.Before.mergeKey_lt {a b : ChainLog Address Data} (h : a.Before b) (stamps : Bool) :
    (a.toLog stamps).mergeKey < (b.toLog stamps).mergeKey := by
  simp only [Log.mergeKey, ChainLog.toLog, Option.getD_some, Prod.Lex.toLex_lt_toLex]
  rcases h with h | ⟨hBlock, hTransaction, hIndex⟩
  · exact Or.inl h
  · refine Or.inr ⟨hBlock, ?_⟩
    rcases hTransaction.lt_or_eq with h | h
    · exact Or.inl h
    · exact Or.inr ⟨h, hIndex⟩

variable {chain : CanonicalLogs Address Data} {stamps : Bool}

/-- Answers that have together the selected logs of the chain are merged to these, in its order. -/
theorem mergeFilterLogs_eq {filterResults : List (List (Log Address Data))}
    {selected : ChainLog Address Data → Bool}
    (h : ∀ log, log ∈ filterResults.flatten ↔
      ∃ l ∈ chain.logs, selected l = true ∧ l.toLog stamps = log) :
    mergeFilterLogs filterResults = (chain.logs.filter selected).map (ChainLog.toLog stamps) := by
  have hSorted : ((chain.logs.filter selected).map (ChainLog.toLog stamps)).Pairwise
      fun a b => a.mergeKey < b.mergeKey := by
    rw [List.pairwise_map]
    exact (chain.ordered.filter _).imp fun hBefore => hBefore.mergeKey_lt stamps
  apply sortByKey_eq _ hSorted
  apply retainFirst_perm
  · intro log hLog
    obtain ⟨l, -, rfl⟩ := List.mem_map.mp hLog
    exact ⟨_, rfl⟩
  · intro a ha b hb hSame
    obtain ⟨a', ha', rfl⟩ := List.mem_map.mp ha
    obtain ⟨b', hb', rfl⟩ := List.mem_map.mp hb
    rw [chain.identity_inj stamps a' (List.mem_filter.mp ha').1 b' (List.mem_filter.mp hb').1 hSame]
  · exact nodup_of_pairwise_key hSorted
  · intro log
    rw [h]
    simp only [List.mem_map, List.mem_filter, and_assoc]

theorem chunkLoop_flatten {α : Type} (chunkSize : Nat) (current set : List α) :
    (chunkLoop chunkSize current set).flatten = current ++ set := by
  induction set generalizing current with
  | nil =>
    rw [chunkLoop]
    split
    · simp [*]
    · simp
  | cons item set ih =>
    rw [chunkLoop]
    split
    · rw [List.flatten_cons, ih]
      simp
    · rw [ih]
      simp

theorem chunkLoop_ne_nil {α : Type} (chunkSize : Nat) (current set : List α) :
    ∀ chunk ∈ chunkLoop chunkSize current set, chunk ≠ [] := by
  induction set generalizing current with
  | nil =>
    intro chunk hChunk
    rw [chunkLoop] at hChunk
    split at hChunk
    · cases hChunk
    case isFalse h =>
      rw [List.mem_singleton.mp hChunk]
      exact h
  | cons item set ih =>
    intro chunk hChunk
    rw [chunkLoop] at hChunk
    split at hChunk
    · rcases List.mem_cons.mp hChunk with rfl | hChunk
      · simp
      · exact ih [] chunk hChunk
    · exact ih _ chunk hChunk

theorem mapM_some {α β : Type} {f : α → Option β} {g : α → β} {l : List α}
    (h : ∀ a ∈ l, f a = some (g a)) : l.mapM f = some (l.map g) := by
  induction l with
  | nil => rfl
  | cons a l ih =>
    rw [List.mapM_cons, h a List.mem_cons_self, ih fun b hb => h b (List.mem_cons_of_mem a hb)]
    rfl

variable [DecidableEq Address] {rpc : JsonRpcCachedProvider Address Data}

theorem Filter.matches_iff {filter : Filter Address} {log : ChainLog Address Data} :
    filter.matches log = true ↔
      (filter.fromBlock ≤ log.blockNumber ∧ log.blockNumber ≤ filter.toBlock) ∧
        filter.selection.matches log = true := by
  rw [Filter.matches, Bool.and_eq_true, Bool.and_eq_true, decide_eq_true_eq, decide_eq_true_eq]

theorem LogSelection.matches_iff {selection : LogSelection Address} {log : ChainLog Address Data} :
    selection.matches log = true ↔
      (selection.address = [] ∨ log.address ∈ selection.address) ∧
        (selection.topic0 = [] ∨ ∃ v ∈ selection.topic0, log.topics[0]? = some v) ∧
          selection.topics.matches log = true := by
  rw [LogSelection.matches, Bool.and_eq_true, Bool.and_eq_true, admitted_iff, admitted_iff, and_assoc]
  simp only [Option.some.injEq, exists_eq_right']

/-- The addresses allow a log.  Without addresses any log is allowed. -/
def allowsAddress (addresses : Option (List Address)) (log : ChainLog Address Data) : Bool :=
  match addresses with
  | some addresses => addresses.contains log.address
  | none => true

/-- What an event filter selects. -/
def RindexerEventFilter.wants (known : KnownChildren Address) (f : RindexerEventFilter Address)
    (log : ChainLog Address Data) : Bool :=
  decide (f.fromBlock ≤ log.blockNumber ∧ log.blockNumber ≤ f.toBlock) &&
    allowsAddress (f.contractAddresses known) log &&
    decide (log.topics[0]? = some f.eventSignature) && f.topicSets.any fun topics => topics.matches log

/-- The addresses can be split into chunks: the size of a chunk is no 0. -/
def JsonRpcCachedProvider.Chunks (rpc : JsonRpcCachedProvider Address Data)
    (addresses : Option (List Address)) : Prop :=
  addresses = none ∨ rpc.addressFiltering ≠ some (.maxAddressPerGetLogsRequest 0)

/-- The logs that a list of answers has. -/
def HasLogs (chain : CanonicalLogs Address Data) (stamps : Bool)
    (selected : ChainLog Address Data → Bool) (logs : List (Log Address Data)) : Prop :=
  ∀ log, log ∈ logs ↔ ∃ l ∈ chain.logs, selected l = true ∧ l.toLog stamps = log

theorem AnswersExactly.hasLogs (h : AnswersExactly rpc chain stamps) (filter : Filter Address) :
    ∃ logs, rpc.getLogs filter = some logs ∧ HasLogs chain stamps filter.matches logs := by
  obtain ⟨sent, hSent, hLogs⟩ := h filter
  refine ⟨_, hLogs, fun log => ?_⟩
  simp only [List.mem_map, hSent.mem_iff, List.mem_filter, and_assoc]

/-- A request for the addresses of a list. -/
def Filter.forAddresses (filter : Filter Address) (addresses : List Address) : Filter Address :=
  { filter with selection := { filter.selection with address := addresses } }

theorem Filter.forAddresses_matches {filter : Filter Address} (hAny : filter.selection.address = [])
    {addresses : List Address} (hSome : addresses ≠ []) (log : ChainLog Address Data) :
    (filter.forAddresses addresses).matches log =
      (filter.matches log && addresses.contains log.address) := by
  rw [Bool.eq_iff_iff, Bool.and_eq_true, List.contains_iff_mem, Filter.matches_iff,
    Filter.matches_iff, LogSelection.matches_iff, LogSelection.matches_iff, hAny]
  constructor
  · rintro ⟨hRange, hAddress, hRest⟩
    exact ⟨⟨hRange, Or.inl rfl, hRest⟩, hAddress.resolve_left hSome⟩
  · rintro ⟨⟨hRange, -, hRest⟩, hAddress⟩
    exact ⟨hRange, Or.inr hAddress, hRest⟩

theorem inBatches_hasLogs (h : AnswersExactly rpc chain stamps) {filter : Filter Address}
    (hAny : filter.selection.address = []) (addresses : List Address) {chunkSize : Nat}
    (hSize : chunkSize ≠ 0) : ∃ logs,
      rpc.getLogsForAddressInBatches filter addresses chunkSize = some logs ∧
        HasLogs chain stamps (fun l => filter.matches l && addresses.contains l.address) logs := by
  choose answer hAnswer hHas using fun chunk => h.hasLogs (filter.forAddresses chunk)
  refine ⟨((chunkLoop chunkSize [] addresses).map answer).flatten, ?_, fun log => ?_⟩
  · rw [JsonRpcCachedProvider.getLogsForAddressInBatches, chunkHashset, if_neg hSize]
    have hAll : ∀ chunk ∈ chunkLoop chunkSize [] addresses, rpc.getLogs
        { filter with selection := { filter.selection with address := chunk } } =
          some (answer chunk) := fun chunk _ => hAnswer chunk
    simp only [mapM_some hAll, Option.map_some]
  · have hChunks := chunkLoop_flatten chunkSize [] addresses
    rw [List.nil_append] at hChunks
    simp only [List.mem_flatten, List.mem_map, Bool.and_eq_true, List.contains_iff_mem]
    constructor
    · rintro ⟨_, ⟨chunk, hChunk, rfl⟩, hLog⟩
      obtain ⟨l, hl, hMatches, rfl⟩ := (hHas chunk log).mp hLog
      rw [Filter.forAddresses_matches hAny (chunkLoop_ne_nil _ _ _ chunk hChunk),
        Bool.and_eq_true, List.contains_iff_mem] at hMatches
      refine ⟨l, hl, ⟨hMatches.1, ?_⟩, rfl⟩
      rw [← hChunks]
      exact List.mem_flatten.mpr ⟨chunk, hChunk, hMatches.2⟩
    · rintro ⟨l, hl, ⟨hMatches, hAddress⟩, rfl⟩
      rw [← hChunks] at hAddress
      obtain ⟨chunk, hChunk, hIn⟩ := List.mem_flatten.mp hAddress
      refine ⟨_, ⟨chunk, hChunk, rfl⟩, (hHas chunk _).mpr ⟨l, hl, ?_, rfl⟩⟩
      rw [Filter.forAddresses_matches hAny (chunkLoop_ne_nil _ _ _ chunk hChunk), hMatches,
        Bool.true_and, List.contains_iff_mem]
      exact hIn

theorem inMemory_hasLogs (h : AnswersExactly rpc chain stamps) (filter : Filter Address)
    (addresses : List Address) : ∃ logs,
      rpc.getLogsForAddressInMemory filter addresses = some logs ∧
        HasLogs chain stamps (fun l => filter.matches l && addresses.contains l.address) logs := by
  obtain ⟨logs, hLogs, hHas⟩ := h.hasLogs filter
  refine ⟨_, by rw [JsonRpcCachedProvider.getLogsForAddressInMemory, hLogs, Option.map_some],
    fun log => ?_⟩
  rw [List.mem_filter, hHas]
  constructor
  · rintro ⟨⟨l, hl, hMatches, rfl⟩, hAddress⟩
    exact ⟨l, hl, Bool.and_eq_true_iff.mpr ⟨hMatches, hAddress⟩, rfl⟩
  · rintro ⟨l, hl, hBoth, rfl⟩
    obtain ⟨hMatches, hAddress⟩ := (Bool.and_eq_true _ _).mp hBoth
    exact ⟨⟨l, hl, hMatches, rfl⟩, hAddress⟩

/-- The logs of one topic alternative. -/
theorem getLogsFor_hasLogs (h : AnswersExactly rpc chain stamps) {filter : Filter Address}
    (hAny : filter.selection.address = []) {addresses : Option (List Address)}
    (hChunks : rpc.Chunks addresses) : ∃ logs, rpc.getLogsFor filter addresses = some logs ∧
      HasLogs chain stamps (fun l => filter.matches l && allowsAddress addresses l) logs := by
  cases addresses with
  | none =>
    simp only [allowsAddress, Bool.and_true]
    exact h.hasLogs filter
  | some addresses =>
    simp only [JsonRpcCachedProvider.getLogsFor, allowsAddress]
    cases hFiltering : rpc.addressFiltering with
    | none => exact inBatches_hasLogs h hAny addresses (by decide)
    | some filtering =>
      cases filtering with
      | inMemory => exact inMemory_hasLogs h filter addresses
      | maxAddressPerGetLogsRequest chunkSize =>
        refine inBatches_hasLogs h hAny addresses ?_
        rintro rfl
        rcases hChunks with hNone | hSize
        · cases hNone
        · exact hSize hFiltering

/-- The requests of a filter, together, select what the filter does. -/
theorem RindexerEventFilter.wants_iff (known : KnownChildren Address)
    (f : RindexerEventFilter Address) (log : ChainLog Address Data) :
    f.wants known log = true ↔ ∃ topics ∈ f.topicSets,
      (JsonRpcCachedProvider.requestFor f topics).matches log = true ∧
        allowsAddress (f.contractAddresses known) log = true := by
  simp only [RindexerEventFilter.wants, JsonRpcCachedProvider.requestFor, Filter.matches_iff,
    LogSelection.matches_iff, Bool.and_eq_true, decide_eq_true_eq, List.any_eq_true,
    List.mem_singleton, exists_eq_left, true_or, false_or, true_and, List.cons_ne_nil]
  constructor
  · rintro ⟨⟨⟨hRange, hAddress⟩, hTopic⟩, topics, hTopics, hMatches⟩
    exact ⟨topics, hTopics, ⟨hRange, hTopic, hMatches⟩, hAddress⟩
  · rintro ⟨topics, hTopics, ⟨hRange, hTopic, hMatches⟩, hAddress⟩
    exact ⟨⟨⟨hRange, hAddress⟩, hTopic⟩, topics, hTopics, hMatches⟩

/-- The RPC provider answers with what the filter selects, in the order of the chain. -/
theorem getLogsOf_eq (h : AnswersExactly rpc chain stamps) (known : KnownChildren Address)
    (f : RindexerEventFilter Address)
    (hChunks : f.contractAddresses known = some [] ∨ rpc.Chunks (f.contractAddresses known)) :
    rpc.getLogsOf known f =
      some ((chain.logs.filter (f.wants known)).map (ChainLog.toLog stamps)) := by
  rw [JsonRpcCachedProvider.getLogsOf]
  split
  case isTrue hEmpty =>
    have hNone : ∀ l ∈ chain.logs, ¬ f.wants known l = true := by
      intro l _ hWants
      obtain ⟨topics, -, -, hAddress⟩ := (f.wants_iff known l).mp hWants
      rw [hEmpty] at hAddress
      cases hAddress
    rw [List.filter_eq_nil_iff.mpr hNone, List.map_nil]
  case isFalse hSome =>
    have hAny : ∀ topics, (JsonRpcCachedProvider.requestFor f topics).selection.address = [] :=
      fun _ => rfl
    choose answer hAnswer hHas using fun topics =>
      getLogsFor_hasLogs h (hAny topics) (hChunks.resolve_left hSome)
    rw [mapM_some fun topics _ => hAnswer topics, Option.map_some]
    congr 1
    apply mergeFilterLogs_eq
    intro log
    simp only [List.mem_flatten, List.mem_map]
    constructor
    · rintro ⟨_, ⟨topics, hTopics, rfl⟩, hLog⟩
      obtain ⟨l, hl, hBoth, rfl⟩ := (hHas topics log).mp hLog
      rw [Bool.and_eq_true] at hBoth
      exact ⟨l, hl, (f.wants_iff known l).mpr ⟨topics, hTopics, hBoth⟩, rfl⟩
    · rintro ⟨l, hl, hWants, rfl⟩
      obtain ⟨topics, hTopics, hBoth⟩ := (f.wants_iff known l).mp hWants
      refine ⟨_, ⟨topics, hTopics, rfl⟩, (hHas topics _).mpr ⟨l, hl, ?_, rfl⟩⟩
      rw [Bool.and_eq_true]
      exact hBoth

/-- A chunk size of 0 fails every request that names an address. -/
theorem getLogsOf_of_not_chunks (known : KnownChildren Address) (f : RindexerEventFilter Address)
    (hSome : f.contractAddresses known ≠ some [])
    (hChunks : ¬ rpc.Chunks (f.contractAddresses known)) : rpc.getLogsOf known f = none := by
  obtain ⟨hAddresses, hSize⟩ := not_or.mp hChunks
  obtain ⟨addresses, hAddresses⟩ := Option.ne_none_iff_exists'.mp hAddresses
  have hFails : ∀ topics,
      rpc.getLogsFor (JsonRpcCachedProvider.requestFor f topics) (f.contractAddresses known) =
        none := by
    intro topics
    rw [hAddresses]
    simp only [JsonRpcCachedProvider.getLogsFor, not_not.mp hSize,
      JsonRpcCachedProvider.getLogsForAddressInBatches, chunkHashset, if_true]
  rw [JsonRpcCachedProvider.getLogsOf, if_neg hSome]
  have hSets := f.mem_topicSets
  cases hList : f.topicSets with
  | nil =>
    rw [hList] at hSets
    cases hSets
  | cons topics rest =>
    rw [List.mapM_cons, hFails]
    rfl

end Answers

end Rindexer.Provider
