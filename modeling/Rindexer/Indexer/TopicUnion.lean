import Rindexer.Indexer.DetailLogs
import Rindexer.Indexer.LogProvider

/-! The event filter that a contract setup is turned into, and when its requests fetch the logs of all
filters that the manifest has for the event. -/

namespace Rindexer.Provider

open Rindexer.Indexer

section Constructors

variable {Address : Type} (words : TopicWords)

/-- `[Topic; 4]` of an indexed filter, of which the first entry is never set. -/
def topicsFrom (filter : EventInputIndexedFilters) : Topics where
  topic1 := (filter.indexed1.getD []).map (parseTopic words)
  topic2 := (filter.indexed2.getD []).map (parseTopic words)
  topic3 := (filter.indexed3.getD []).map (parseTopic words)

def defaultTopics : Topics := ⟨[], [], []⟩

/-- The topics of the first filter that names the event. -/
def firstTopicsFor (indexedFilters : Option (List EventInputIndexedFilters)) (eventName : List Char) :
    Topics :=
  ((indexedFilters.bind fun filters => filters.find? (·.eventName = eventName)).map
    (topicsFrom words)).getD defaultTopics

def newAddressFilter (topicId : B256) (eventName : List Char) (address : ValueOrArray Address)
    (indexedFilters : Option (List EventInputIndexedFilters)) (currentBlock nextBlock : UInt64) :
    RindexerEventFilter Address :=
  .filter
    { address := some address
      topicId := topicId
      topics := firstTopicsFor words indexedFilters eventName
      additionalTopics := []
      currentBlock := currentBlock
      nextBlock := nextBlock }

def newFilter (topicId : B256) (eventName : List Char)
    (indexedFilters : Option (List EventInputIndexedFilters)) (currentBlock nextBlock : UInt64) :
    RindexerEventFilter Address :=
  let sameEventTopics :=
    ((indexedFilters.getD []).filter (·.eventName = eventName)).map (topicsFrom words)
  .filter
    { address := none
      topicId := topicId
      topics := sameEventTopics.head?.getD defaultTopics
      additionalTopics := sameEventTopics.tail
      currentBlock := currentBlock
      nextBlock := nextBlock }

/-- `to_event_filter` of an event of a contract, for a range of blocks. -/
def toEventFilter (topicId : B256) (eventName : List Char) (startBlock endBlock : UInt64) :
    IndexingContractSetup Address → RindexerEventFilter Address
  | .address address filters =>
    newAddressFilter words topicId eventName address filters startBlock endBlock
  | .filter filters => newFilter words topicId eventName filters startBlock endBlock
  | .factory details =>
    .factory
      { factoryContractName := details.contractName
        factoryEventName := details.eventName
        factoryInputName := details.inputName
        topicId := topicId
        topics := firstTopicsFor words details.indexedFilters eventName
        currentBlock := startBlock
        nextBlock := endBlock }

/-- The topics of the filters that name the event, in the order of the manifest. -/
def alternativesFor (setup : IndexingContractSetup Address) (eventName : List Char) : List Topics :=
  (setup.filtersFor eventName).map (topicsFrom words)

end Constructors

section Union

variable {Address Data : Type} {words : TopicWords} {topicId : B256} {eventName : List Char}
  {startBlock endBlock : UInt64} {setup : IndexingContractSetup Address}

theorem head?_alternativesFor (setup : IndexingContractSetup Address) :
    (alternativesFor words setup eventName).head?.getD defaultTopics =
      firstTopicsFor words setup.indexedFilters eventName := by
  rw [alternativesFor, firstTopicsFor, IndexingContractSetup.filtersFor, List.head?_map,
    List.head?_filter]
  cases setup.indexedFilters with
  | none => rfl
  | some filters => rfl

/-- One alternative that admits all where none names the event. -/
def requested (alternatives : List Topics) : List Topics :=
  alternatives.head?.getD defaultTopics :: alternatives.tail

theorem requested_any {alternatives : List Topics} (log : ChainLog Address Data) :
    (requested alternatives).any (fun topics => topics.matches log) =
      (alternatives.isEmpty || alternatives.any fun topics => topics.matches log) := by
  cases alternatives with
  | nil => rfl
  | cons first rest => rfl

theorem topicSets_toEventFilter (setup : IndexingContractSetup Address) :
    (toEventFilter words topicId eventName startBlock endBlock setup).topicSets =
      match setup with
      | .filter _ => requested (alternativesFor words setup eventName)
      | _ => [(alternativesFor words setup eventName).head?.getD defaultTopics] := by
  cases setup with
  | address address filters =>
    simp only [head?_alternativesFor]
    rfl
  | filter filters => rfl
  | factory details =>
    simp only [head?_alternativesFor]
    rfl

theorem range_toEventFilter (setup : IndexingContractSetup Address) :
    (toEventFilter words topicId eventName startBlock endBlock setup).fromBlock = startBlock.toNat ∧
      (toEventFilter words topicId eventName startBlock endBlock setup).toBlock = endBlock.toNat ∧
      (toEventFilter words topicId eventName startBlock endBlock setup).eventSignature = topicId := by
  cases setup with
  | address address filters => exact ⟨rfl, rfl, rfl⟩
  | filter filters => exact ⟨rfl, rfl, rfl⟩
  | factory details => exact ⟨rfl, rfl, rfl⟩

/-- A log of the same topics but the first, at an address and in a block. -/
def ChainLog.moved (log : ChainLog Address Data) (address : Address) (topicId : B256)
    (blockNumber : Nat) : ChainLog Address Data :=
  { log with
    address := address
    topics := topicId :: log.topics.tail
    blockNumber := blockNumber
    topics_length := by
      have := log.topics_length
      rw [List.length_cons, List.length_tail]
      omega }

theorem ChainLog.matches_moved (log : ChainLog Address Data) (address : Address) (topicId : B256)
    (blockNumber : Nat) (topics : Topics) :
    topics.matches (log.moved address topicId blockNumber) = topics.matches log := by
  have h : ∀ n, (topicId :: log.topics.tail)[n + 1]? = log.topics[n + 1]? := by
    intro n
    rw [List.getElem?_cons_succ, List.getElem?_tail]
  simp only [Topics.matches, ChainLog.moved, h 0, h 1, h 2]

variable [DecidableEq Address]

/-- The addresses of a setup, those of the children where it is a factory. -/
def addressesOf (known : KnownChildren Address) : IndexingContractSetup Address → Option (List Address)
  | .address address _ => some address.toList.dedup
  | .filter _ => none
  | .factory details =>
    (known details.contractName details.eventName details.inputName.toList).map List.dedup

theorem contractAddresses_toEventFilter (known : KnownChildren Address)
    (setup : IndexingContractSetup Address) :
    (toEventFilter words topicId eventName startBlock endBlock setup).contractAddresses known =
      addressesOf known setup := by
  cases setup with
  | address address filters => rfl
  | filter filters => rfl
  | factory details => rfl

/-- The logs of the event in a range and of the addresses that match some filter naming the event, or
all of them where no filter does. -/
def wantedByAny (words : TopicWords) (known : KnownChildren Address) (topicId : B256)
    (eventName : List Char) (startBlock endBlock : UInt64) (setup : IndexingContractSetup Address)
    (log : ChainLog Address Data) : Bool :=
  decide (startBlock.toNat ≤ log.blockNumber ∧ log.blockNumber ≤ endBlock.toNat) &&
    allowsAddress (addressesOf known setup) log && decide (log.topics[0]? = some topicId) &&
    ((alternativesFor words setup eventName).isEmpty ||
      (alternativesFor words setup eventName).any fun topics => topics.matches log)

/-- The first filter admits what the others do. -/
def FirstCovers (Data : Type) (words : TopicWords) (setup : IndexingContractSetup Address)
    (eventName : List Char) : Prop :=
  ∀ topics ∈ alternativesFor words setup eventName, ∀ log : ChainLog Address Data,
    topics.matches log = true →
      ((alternativesFor words setup eventName).head?.getD defaultTopics).matches log = true

theorem wants_toEventFilter (known : KnownChildren Address) (log : ChainLog Address Data) :
    (toEventFilter words topicId eventName startBlock endBlock setup).wants known log =
      (decide (startBlock.toNat ≤ log.blockNumber ∧ log.blockNumber ≤ endBlock.toNat) &&
        allowsAddress (addressesOf known setup) log && decide (log.topics[0]? = some topicId) &&
        (toEventFilter words topicId eventName startBlock endBlock setup).topicSets.any
          fun topics => topics.matches log) := by
  obtain ⟨hFrom, hTo, hTopic⟩ := @range_toEventFilter Address words topicId eventName startBlock
    endBlock setup
  rw [RindexerEventFilter.wants, hFrom, hTo, hTopic, contractAddresses_toEventFilter]

/-- No other filter adds a log where the first covers them. -/
theorem wants_eq_of_covers (hCovers : FirstCovers Data words setup eventName)
    (known : KnownChildren Address) (log : ChainLog Address Data) :
    (toEventFilter words topicId eventName startBlock endBlock setup).wants known log =
      wantedByAny words known topicId eventName startBlock endBlock setup log := by
  have hAny : (toEventFilter words topicId eventName startBlock endBlock setup).topicSets.any
      (fun topics => topics.matches log) =
        ((alternativesFor words setup eventName).isEmpty ||
          (alternativesFor words setup eventName).any fun topics => topics.matches log) := by
    have hFirst : ((alternativesFor words setup eventName).head?.getD defaultTopics).matches log =
        ((alternativesFor words setup eventName).isEmpty ||
          (alternativesFor words setup eventName).any fun topics => topics.matches log) := by
      have hAll := hCovers
      unfold FirstCovers at hAll
      cases hList : alternativesFor words setup eventName with
      | nil => rfl
      | cons first rest =>
        rw [hList] at hAll
        rw [Bool.eq_iff_iff]
        simp only [List.head?_cons, Option.getD_some, List.isEmpty_cons, Bool.false_or,
          List.any_eq_true]
        exact ⟨fun h => ⟨first, List.mem_cons_self, h⟩, fun ⟨topics, hMem, h⟩ => hAll topics hMem log h⟩
    rw [topicSets_toEventFilter]
    cases setup with
    | address address filters =>
      rw [← hFirst]
      simp only [List.any_cons, List.any_nil, Bool.or_false]
    | filter filters => exact requested_any log
    | factory details =>
      rw [← hFirst]
      simp only [List.any_cons, List.any_nil, Bool.or_false]
  rw [wants_toEventFilter, hAny, wantedByAny]

theorem wants_filter (known : KnownChildren Address) (filters : Option (List EventInputIndexedFilters))
    (log : ChainLog Address Data) :
    (toEventFilter words topicId eventName startBlock endBlock (.filter filters)).wants known log =
      wantedByAny words known topicId eventName startBlock endBlock (.filter filters) log := by
  rw [wants_toEventFilter, topicSets_toEventFilter, wantedByAny]
  simp only [requested_any]

/-- Whatever the chain and an exact node, the logs that are fetched are those that some filter wants,
each once and in the order of the chain. -/
def FetchesUnion (Data : Type) (words : TopicWords) (known : KnownChildren Address) (topicId : B256)
    (eventName : List Char) (startBlock endBlock : UInt64) (setup : IndexingContractSetup Address) :
    Prop :=
  ∀ (chain : CanonicalLogs Address Data) (stamps : Bool) (rpc : JsonRpcCachedProvider Address Data),
    AnswersExactly rpc chain stamps → rpc.Chunks (addressesOf known setup) →
      rpc.getLogsOf known (toEventFilter words topicId eventName startBlock endBlock setup) =
        some ((chain.logs.filter
          (wantedByAny words known topicId eventName startBlock endBlock setup)).map
            (ChainLog.toLog stamps))

theorem fetchesUnion_of_wants {known : KnownChildren Address}
    (h : ∀ log : ChainLog Address Data,
      (toEventFilter words topicId eventName startBlock endBlock setup).wants known log =
        wantedByAny words known topicId eventName startBlock endBlock setup log) :
    FetchesUnion Data words known topicId eventName startBlock endBlock setup := by
  intro chain stamps rpc hExact hChunks
  rw [getLogsOf_eq hExact known _ (Or.inr (by rw [contractAddresses_toEventFilter]; exact hChunks))]
  rw [List.filter_congr fun log _ => h log]

/-- The chain of one log, and its node. -/
def oneLog (log : ChainLog Address Data) : CanonicalLogs Address Data where
  logs := [log]
  ordered := List.pairwise_singleton _ _
  one_number := by
    intro a ha b hb _
    rw [List.mem_singleton.mp ha, List.mem_singleton.mp hb]

def exactNode (chain : CanonicalLogs Address Data) : JsonRpcCachedProvider Address Data where
  getLogs filter := some ((chain.logs.filter filter.matches).map (ChainLog.toLog true))
  addressFiltering := none

theorem exactNode_answers (chain : CanonicalLogs Address Data) :
    AnswersExactly (exactNode chain) chain true :=
  fun _ => ⟨_, .refl _, rfl⟩

theorem exists_allowed {addresses : Option (List Address)} (h : addresses ≠ some [])
    (log : ChainLog Address Data) : ∃ a, ∀ topicId blockNumber,
      allowsAddress addresses (log.moved a topicId blockNumber) = true := by
  cases addresses with
  | none => exact ⟨log.address, fun _ _ => rfl⟩
  | some addresses =>
    cases addresses with
    | nil => exact absurd rfl h
    | cons a rest =>
      refine ⟨a, fun _ _ => ?_⟩
      rw [allowsAddress, List.contains_iff_mem]
      exact List.mem_cons_self

theorem covers_of_fetchesUnion {known : KnownChildren Address}
    (hNoFilter : ∀ filters, setup ≠ .filter filters) (hSome : addressesOf known setup ≠ some [])
    (hRange : startBlock ≤ endBlock)
    (h : FetchesUnion Data words known topicId eventName startBlock endBlock setup) :
    FirstCovers Data words setup eventName := by
  intro topics hTopics log hMatches
  by_contra hFirst
  obtain ⟨a, hAllowed⟩ := exists_allowed hSome log
  -- The chain of the log alone, at an allowed address and at the start of the range.
  let moved := log.moved a topicId startBlock.toNat
  have hFetched := h (oneLog moved) true (exactNode (oneLog moved)) (exactNode_answers _)
    (Or.inr (by rintro ⟨⟩))
  rw [getLogsOf_eq (exactNode_answers _) known _ (Or.inr (Or.inr (by rintro ⟨⟩)))] at hFetched
  have hUnwanted :
      (toEventFilter words topicId eventName startBlock endBlock setup).wants known moved = false := by
    rw [wants_toEventFilter, Bool.and_eq_false_iff]
    right
    rw [topicSets_toEventFilter]
    have hNot : ((alternativesFor words setup eventName).head?.getD defaultTopics).matches moved =
        false := by
      rw [ChainLog.matches_moved]
      exact Bool.eq_false_iff.mpr hFirst
    cases setup with
    | address address filters => simp only [List.any_cons, List.any_nil, hNot, Bool.or_false]
    | filter filters => exact absurd rfl (hNoFilter filters)
    | factory details => simp only [List.any_cons, List.any_nil, hNot, Bool.or_false]
  have hWanted : wantedByAny words known topicId eventName startBlock endBlock setup moved = true := by
    have hBlock : startBlock.toNat ≤ moved.blockNumber ∧ moved.blockNumber ≤ endBlock.toNat :=
      ⟨Nat.le_refl _, UInt64.le_iff_toNat_le.mp hRange⟩
    have hAny : (alternativesFor words setup eventName).any (fun topics => topics.matches moved) =
        true := by
      rw [List.any_eq_true]
      refine ⟨topics, hTopics, ?_⟩
      rw [ChainLog.matches_moved]
      exact hMatches
    have hTopic : moved.topics[0]? = some topicId := rfl
    rw [wantedByAny, hAny, decide_eq_true hBlock, hAllowed, decide_eq_true hTopic, Bool.or_true]
    rfl
  simp only [oneLog, List.filter_cons, List.filter_nil, hUnwanted, hWanted] at hFetched
  cases hFetched

end Union

/-- The logs of all filters naming the event are fetched exactly if the setup is a filter, has no
address, has no block, or has a first filter for the event that admits what the others do. -/
theorem fetches_union_iff {Address Data : Type} [DecidableEq Address] (words : TopicWords)
    (known : KnownChildren Address) (topicId : B256) (eventName : List Char)
    (startBlock endBlock : UInt64) (setup : IndexingContractSetup Address) :
    FetchesUnion Data words known topicId eventName startBlock endBlock setup ↔
      (∃ filters, setup = .filter filters) ∨ addressesOf known setup = some [] ∨
        endBlock < startBlock ∨ FirstCovers Data words setup eventName := by
  constructor
  · intro h
    by_contra hNone
    simp only [not_or, not_exists] at hNone
    obtain ⟨hNoFilter, hSome, hRange, hCovers⟩ := hNone
    exact hCovers (covers_of_fetchesUnion hNoFilter hSome (UInt64.not_lt.mp hRange) h)
  · rintro (⟨filters, rfl⟩ | hEmpty | hRange | hCovers)
    · exact fetchesUnion_of_wants (wants_filter known filters)
    · apply fetchesUnion_of_wants
      intro log
      rw [wants_toEventFilter, wantedByAny, hEmpty]
      simp only [allowsAddress, List.contains_nil, Bool.and_false, Bool.false_and]
    · apply fetchesUnion_of_wants
      intro log
      have hNone : ¬ (startBlock.toNat ≤ log.blockNumber ∧ log.blockNumber ≤ endBlock.toNat) := by
        rw [UInt64.lt_iff_toNat_lt] at hRange
        omega
      rw [wants_toEventFilter, wantedByAny, decide_eq_false hNone]
      simp only [Bool.false_and]
    · exact fetchesUnion_of_wants (wants_eq_of_covers hCovers known)

/-! A contract with two filters for its transfers. -/

def plainWords : TopicWords where
  addressFromStr _ := none
  u256FromStr
    | ['1'] => some 1
    | ['2'] => some 2
    | _ => none
  keccak256 _ := 0

def twoSenders : IndexingContractSetup Nat :=
  .address (.value 5)
    (some [⟨"Transfer".toList, some ["1".toList], none, none⟩,
      ⟨"Transfer".toList, some ["2".toList], none, none⟩])

/-- A transfer from sender 2. -/
def secondSender : ChainLog Nat Unit :=
  ⟨5, [10, 2, 7], (), 1, 3, 100, 2, 0, 0, by decide⟩

/-- The log of the second sender is not fetched. -/
theorem second_alternative_dropped :
    ¬ ∀ (words : TopicWords) (known : KnownChildren Nat) (topicId : B256) (eventName : List Char)
      (startBlock endBlock : UInt64) (setup : IndexingContractSetup Nat),
      FetchesUnion Unit words known topicId eventName startBlock endBlock setup := by
  intro h
  have hFetched := h plainWords (fun _ _ _ => none) 10 "Transfer".toList 0 5 twoSenders
    (oneLog secondSender) true (exactNode (oneLog secondSender)) (exactNode_answers _)
    (Or.inr (by rintro ⟨⟩))
  exact absurd (congrArg (Option.map List.length) hFetched) (by decide)

end Rindexer.Provider
