import Mathlib.Data.List.Perm.Basic
import Rindexer.Indexer.LogProvider

/-! The ways to filter by address: whatever the mode, the size of a chunk and the order of the
addresses, `get_logs` merges the same logs, also where a node leaves out fields of them. -/

namespace Rindexer.Provider

open Rindexer.Lib Rindexer.Indexer

/-- The fields that a node has for a log. -/
structure Fields where
  blockHash : Bool
  blockNumber : Bool
  blockTimestamp : Bool
  transactionHash : Bool
  transactionIndex : Bool
  logIndex : Bool
deriving DecidableEq, Repr

section Sending

variable {Address Data : Type}

def ChainLog.send (fieldsOf : ChainLog Address Data → Fields) (log : ChainLog Address Data) :
    Log Address Data where
  address := log.address
  topics := log.topics
  data := log.data
  blockHash := if (fieldsOf log).blockHash then some log.blockHash else none
  blockNumber := if (fieldsOf log).blockNumber then some log.blockNumber else none
  blockTimestamp := if (fieldsOf log).blockTimestamp then some log.timestamp else none
  transactionHash := if (fieldsOf log).transactionHash then some log.transactionHash else none
  transactionIndex := if (fieldsOf log).transactionIndex then some log.transactionIndex else none
  logIndex := if (fieldsOf log).logIndex then some log.logIndex else none
  removed := false

variable {fieldsOf : ChainLog Address Data → Fields}

theorem ChainLog.identity_send {log : ChainLog Address Data} {i : B256 × B256 × Nat}
    (h : (log.send fieldsOf).identity = some i) :
    i = (log.blockHash, log.transactionHash, log.logIndex) := by
  simp only [Log.identity, ChainLog.send] at h
  cases hBlock : (fieldsOf log).blockHash with
  | false => simp [hBlock] at h
  | true =>
    cases hTransaction : (fieldsOf log).transactionHash with
    | false => simp [hBlock, hTransaction] at h
    | true =>
      cases hIndex : (fieldsOf log).logIndex with
      | false => simp [hBlock, hTransaction, hIndex] at h
      | true =>
        simp only [hBlock, hTransaction, hIndex, if_true, Option.some.injEq] at h
        exact h.symm

theorem CanonicalLogs.send_inj (chain : CanonicalLogs Address Data) :
    ∀ a ∈ chain.logs, ∀ b ∈ chain.logs, ∀ i, (a.send fieldsOf).identity = some i →
      (b.send fieldsOf).identity = some i → a = b := by
  intro a ha b hb i hIdA hIdB
  have hSame := (ChainLog.identity_send hIdA).symm.trans (ChainLog.identity_send hIdB)
  simp only [Prod.mk.injEq] at hSame
  have hNumber := chain.one_number a ha b hb hSame.1
  rcases chain.before_or a ha b hb with h | h | h
  · exact h
  · rcases h with h | h <;> omega
  · rcases h with h | h <;> omega

end Sending

section Modes

variable {Address Data : Type} [DecidableEq Address]

/-- The node answers a request with exactly the logs that match it, in some order. -/
def SendsExactly (node : Filter Address → Option (List (Log Address Data)))
    (chain : CanonicalLogs Address Data) (fieldsOf : ChainLog Address Data → Fields) : Prop :=
  ∀ filter, ∃ sent : List (ChainLog Address Data), sent.Perm (chain.logs.filter filter.matches) ∧
    node filter = some (sent.map (ChainLog.send fieldsOf))

/-- `get_logs` with the addresses in the order that the set has. -/
def JsonRpcCachedProvider.getLogsAt (rpc : JsonRpcCachedProvider Address Data)
    (f : RindexerEventFilter Address) (addresses : Option (List Address)) :
    Option (List (Log Address Data)) :=
  if addresses = some [] then some []
  else
    (f.topicSets.mapM fun topics =>
      rpc.getLogsFor (JsonRpcCachedProvider.requestFor f topics) addresses).map mergeFilterLogs

/-- The logs of the chain that a topic alternative selects. -/
def selectedFor (chain : CanonicalLogs Address Data) (f : RindexerEventFilter Address)
    (addresses : Option (List Address)) (topics : Topics) : List (ChainLog Address Data) :=
  chain.logs.filter fun log =>
    (JsonRpcCachedProvider.requestFor f topics).matches log && allowsAddress addresses log

/-- The logs of all alternatives, as often as they select them. -/
def selectedBy (chain : CanonicalLogs Address Data) (f : RindexerEventFilter Address)
    (addresses : Option (List Address)) : List (ChainLog Address Data) :=
  f.topicSets.flatMap (selectedFor chain f addresses)

variable {node : Filter Address → Option (List (Log Address Data))}
  {chain : CanonicalLogs Address Data} {fieldsOf : ChainLog Address Data → Fields}
  {f : RindexerEventFilter Address}

theorem inMemory_perm (h : SendsExactly node chain fieldsOf) (filtering : Option AddressFiltering)
    (filter : Filter Address) (addresses : List Address) : ∃ logs,
      (⟨node, filtering⟩ : JsonRpcCachedProvider Address Data).getLogsForAddressInMemory filter
          addresses = some logs ∧
        logs.Perm ((chain.logs.filter fun l => filter.matches l && addresses.contains l.address).map
          (ChainLog.send fieldsOf)) := by
  obtain ⟨sent, hSent, hLogs⟩ := h filter
  refine ⟨(sent.map (ChainLog.send fieldsOf)).filter fun log => addresses.contains log.address,
    ?_, ?_⟩
  · simp only [JsonRpcCachedProvider.getLogsForAddressInMemory, hLogs, Option.map_some]
  rw [List.filter_map]
  apply List.Perm.map
  have hBoth := hSent.filter fun l => addresses.contains l.address
  rw [List.filter_filter] at hBoth
  simpa only [Function.comp_def, ChainLog.send, Bool.and_comm] using hBoth

theorem inBatches_perm (h : SendsExactly node chain fieldsOf) (filtering : Option AddressFiltering)
    {filter : Filter Address} (hAny : filter.selection.address = []) {addresses : List Address}
    (hNodup : addresses.Nodup) {chunkSize : Nat} (hSize : chunkSize ≠ 0) : ∃ logs,
      (⟨node, filtering⟩ : JsonRpcCachedProvider Address Data).getLogsForAddressInBatches filter
          addresses chunkSize = some logs ∧
        logs.Perm ((chain.logs.filter fun l => filter.matches l && addresses.contains l.address).map
          (ChainLog.send fieldsOf)) := by
  choose sent hSent hLogs using fun chunk => h (filter.forAddresses chunk)
  refine ⟨((chunkLoop chunkSize [] addresses).map fun chunk =>
    (sent chunk).map (ChainLog.send fieldsOf)).flatten, ?_, ?_⟩
  · rw [JsonRpcCachedProvider.getLogsForAddressInBatches, chunkHashset, if_neg hSize]
    have hAll : ∀ chunk ∈ chunkLoop chunkSize [] addresses,
        node { filter with selection := { filter.selection with address := chunk } } =
          some ((sent chunk).map (ChainLog.send fieldsOf)) := fun chunk _ => hLogs chunk
    simp only [mapM_some hAll, Option.map_some]
  · have hChunks := chunkLoop_flatten chunkSize [] addresses
    rw [List.nil_append] at hChunks
    have hSet : (chunkLoop chunkSize [] addresses).flatten.Nodup := by
      rw [hChunks]
      exact hNodup
    have hParts := flatMap_filter_perm hSet ChainLog.address filter.matches chain.logs
    rw [hChunks] at hParts
    refine List.Perm.trans ?_ (hParts.map (ChainLog.send fieldsOf))
    rw [← List.flatMap_def, List.map_flatMap]
    apply List.Perm.flatMap_left
    intro chunk hChunk
    apply List.Perm.map
    have hMatches : (filter.forAddresses chunk).matches =
        fun l : ChainLog Address Data => filter.matches l && chunk.contains l.address := by
      funext l
      exact Filter.forAddresses_matches hAny (chunkLoop_ne_nil _ _ _ chunk hChunk) l
    rw [← hMatches]
    exact hSent chunk

/-- The ways to filter by address that can split the addresses. -/
def AddressFiltering.Splits (filtering : Option AddressFiltering) : Prop :=
  filtering ≠ some (.maxAddressPerGetLogsRequest 0)

theorem getLogsFor_perm (h : SendsExactly node chain fieldsOf) {filtering : Option AddressFiltering}
    (hSplits : AddressFiltering.Splits filtering) {addresses : Option (List Address)}
    (hNodup : ∀ list ∈ addresses, list.Nodup) (topics : Topics) : ∃ logs,
      (⟨node, filtering⟩ : JsonRpcCachedProvider Address Data).getLogsFor
          (JsonRpcCachedProvider.requestFor f topics) addresses = some logs ∧
        logs.Perm ((selectedFor chain f addresses topics).map (ChainLog.send fieldsOf)) := by
  have hAny : (JsonRpcCachedProvider.requestFor f topics).selection.address = [] := rfl
  cases addresses with
  | none =>
    obtain ⟨sent, hSent, hLogs⟩ := h (JsonRpcCachedProvider.requestFor f topics)
    refine ⟨_, hLogs, ?_⟩
    simp only [selectedFor, allowsAddress, Bool.and_true]
    exact hSent.map _
  | some addresses =>
    have hSet := hNodup addresses rfl
    simp only [JsonRpcCachedProvider.getLogsFor, selectedFor, allowsAddress]
    cases filtering with
    | none => exact inBatches_perm h none hAny hSet (by decide)
    | some filtering =>
      cases filtering with
      | inMemory => exact inMemory_perm h _ _ addresses
      | maxAddressPerGetLogsRequest chunkSize =>
        refine inBatches_perm h _ hAny hSet ?_
        rintro rfl
        exact hSplits rfl

theorem mem_selectedBy {addresses : Option (List Address)} {log : ChainLog Address Data} :
    log ∈ selectedBy chain f addresses ↔ log ∈ chain.logs ∧ ∃ topics ∈ f.topicSets,
      (JsonRpcCachedProvider.requestFor f topics).matches log = true ∧
        allowsAddress addresses log = true := by
  simp only [selectedBy, selectedFor, List.mem_flatMap, List.mem_filter, Bool.and_eq_true]
  constructor
  · rintro ⟨topics, hTopics, hLog, hBoth⟩
    exact ⟨hLog, topics, hTopics, hBoth⟩
  · rintro ⟨hLog, topics, hTopics, hBoth⟩
    exact ⟨topics, hTopics, hLog, hBoth⟩

/-- The addresses are a set: the same ones in any order. -/
theorem selectedBy_congr {list list' : List Address} (h : list.Perm list') :
    selectedBy chain f (some list) = selectedBy chain f (some list') := by
  have hSame : ∀ log : ChainLog Address Data,
      allowsAddress (some list) log = allowsAddress (some list') log := by
    intro log
    rw [Bool.eq_iff_iff, allowsAddress, allowsAddress, List.contains_iff_mem, List.contains_iff_mem]
    exact h.mem_iff
  have hFor : selectedFor chain f (some list) = selectedFor chain f (some list') := by
    funext topics
    simp only [selectedFor, hSame]
  rw [selectedBy, selectedBy, hFor]

theorem selected_inj {addresses : Option (List Address)} :
    ∀ a ∈ (selectedBy chain f addresses).map (ChainLog.send fieldsOf),
      ∀ b ∈ (selectedBy chain f addresses).map (ChainLog.send fieldsOf), ∀ i,
        a.identity = some i → b.identity = some i → a = b := by
  intro a ha b hb i hIdA hIdB
  obtain ⟨a', ha', rfl⟩ := List.mem_map.mp ha
  obtain ⟨b', hb', rfl⟩ := List.mem_map.mp hb
  rw [chain.send_inj a' (mem_selectedBy.mp ha').1 b' (mem_selectedBy.mp hb').1 i hIdA hIdB]

/-- What `get_logs` sorts and merges, whatever the way to filter. -/
theorem getLogsAt_spec (h : SendsExactly node chain fieldsOf) {filtering : Option AddressFiltering}
    (hSplits : AddressFiltering.Splits filtering) {addresses : Option (List Address)}
    (hNodup : ∀ list ∈ addresses, list.Nodup) : ∃ retained : List (Log Address Data),
      retained.Perm (retainFirst Log.identity []
          ((selectedBy chain f addresses).map (ChainLog.send fieldsOf))) ∧
        (⟨node, filtering⟩ : JsonRpcCachedProvider Address Data).getLogsAt f addresses =
          some (sortByKey Log.mergeKey retained) := by
  rw [JsonRpcCachedProvider.getLogsAt]
  split
  · next hEmpty =>
    subst hEmpty
    have hNone : selectedBy chain f (some []) = [] := by
      simp [selectedBy, selectedFor, allowsAddress]
    rw [hNone]
    exact ⟨[], .refl _, rfl⟩
  · choose answer hAnswer hPerm using fun topics =>
      @getLogsFor_perm Address Data _ node chain fieldsOf f h filtering hSplits addresses hNodup topics
    rw [mapM_some fun topics _ => hAnswer topics, Option.map_some, mergeFilterLogs]
    refine ⟨_, ?_, rfl⟩
    have hAll : (f.topicSets.map answer).flatten.Perm
        ((selectedBy chain f addresses).map (ChainLog.send fieldsOf)) := by
      rw [← List.flatMap_def, selectedBy, List.map_flatMap]
      exact List.Perm.flatMap_left _ fun topics _ => hPerm topics
    exact (retainFirst_perm_of_perm hAll.symm selected_inj).symm

/-- No two logs that are sent differently have one place in the order. -/
def NoTies (chain : CanonicalLogs Address Data) (fieldsOf : ChainLog Address Data → Fields)
    (f : RindexerEventFilter Address) (addresses : Option (List Address)) : Prop :=
  ∀ a ∈ selectedBy chain f addresses, ∀ b ∈ selectedBy chain f addresses,
    (a.send fieldsOf).mergeKey = (b.send fieldsOf).mergeKey → a.send fieldsOf = b.send fieldsOf

/-- Logs that are sent with their place in the chain have a place of their own. -/
theorem noTies_of_placed {addresses : Option (List Address)}
    (h : ∀ log ∈ selectedBy chain f addresses, (fieldsOf log).blockNumber = true ∧
      (fieldsOf log).transactionIndex = true ∧ (fieldsOf log).logIndex = true) :
    NoTies chain fieldsOf f addresses := by
  intro a ha b hb hKey
  obtain ⟨haNumber, haTransaction, haIndex⟩ := h a ha
  obtain ⟨hbNumber, hbTransaction, hbIndex⟩ := h b hb
  simp only [Log.mergeKey, ChainLog.send, haNumber, haTransaction, haIndex, hbNumber, hbTransaction,
    hbIndex, if_true, Option.getD_some] at hKey
  obtain ⟨hNumber, hRest⟩ := Prod.mk.inj (toLex.injective hKey)
  obtain ⟨hTransaction, hIndex⟩ := Prod.mk.inj (toLex.injective hRest)
  rcases chain.before_or a (mem_selectedBy.mp ha).1 b (mem_selectedBy.mp hb).1 with hSame | h | h
  · rw [hSame]
  · rcases h with h | h <;> omega
  · rcases h with h | h <;> omega

end Modes

/-- A list of sent logs has what the filter selects at the addresses, in order: each log of a complete
identity once, the others at least once, and nothing else. -/
structure Merged {Address Data : Type} [DecidableEq Address] [DecidableEq Data]
    (chain : CanonicalLogs Address Data) (fieldsOf : ChainLog Address Data → Fields)
    (f : RindexerEventFilter Address) (addresses : Option (List Address))
    (logs : List (Log Address Data)) : Prop where
  sorted : logs.Pairwise fun a b => a.mergeKey ≤ b.mergeKey
  complete : ∀ log ∈ selectedBy chain f addresses, ((log.send fieldsOf).identity).isSome = true →
    logs.count (log.send fieldsOf) = 1
  incomplete : ∀ log ∈ selectedBy chain f addresses, (log.send fieldsOf).identity = none →
    logs.count (log.send fieldsOf) =
      ((selectedBy chain f addresses).map (ChainLog.send fieldsOf)).count (log.send fieldsOf)
  selected : ∀ sent ∈ logs, ∃ log ∈ selectedBy chain f addresses, log.send fieldsOf = sent
  allowed : ∀ sent ∈ logs, ∀ list, addresses = some list → sent.address ∈ list

section Merged

variable {Address Data : Type} [DecidableEq Address] [DecidableEq Data]
  {node : Filter Address → Option (List (Log Address Data))}
  {chain : CanonicalLogs Address Data} {fieldsOf : ChainLog Address Data → Fields}
  {f : RindexerEventFilter Address} {addresses : Option (List Address)}

theorem merged_of_perm {retained : List (Log Address Data)}
    (h : retained.Perm (retainFirst Log.identity []
      ((selectedBy chain f addresses).map (ChainLog.send fieldsOf)))) :
    Merged chain fieldsOf f addresses (sortByKey Log.mergeKey retained) := by
  have hAll := (sortByKey_perm Log.mergeKey retained).trans h
  have hCount := fun x => count_retainFirst
    (@selected_inj Address Data _ chain fieldsOf f addresses) x []
  have hSelected : ∀ sent ∈ sortByKey Log.mergeKey retained,
      ∃ log ∈ selectedBy chain f addresses, log.send fieldsOf = sent := by
    intro sent hSent
    have hPos := List.count_pos_iff.mpr (hAll.mem_iff.mp hSent)
    rw [hCount] at hPos
    have : 0 < ((selectedBy chain f addresses).map (ChainLog.send fieldsOf)).count sent := by
      cases hId : sent.identity with
      | none =>
        rw [hId] at hPos
        exact hPos
      | some i =>
        rw [hId] at hPos
        simp only [List.not_mem_nil, if_false] at hPos
        omega
    exact List.mem_map.mp (List.count_pos_iff.mp this)
  refine ⟨sortByKey_sorted _ _, fun log hLog hComplete => ?_, fun log hLog hNone => ?_, hSelected,
    fun sent hSent list hList => ?_⟩
  · obtain ⟨i, hId⟩ := Option.isSome_iff_exists.mp hComplete
    have hPos := List.count_pos_iff.mpr (List.mem_map_of_mem (f := ChainLog.send fieldsOf) hLog)
    rw [hAll.count_eq, hCount, hId]
    simp only [List.not_mem_nil, if_false]
    omega
  · rw [hAll.count_eq, hCount, hNone]
  · obtain ⟨log, hLog, rfl⟩ := hSelected sent hSent
    obtain ⟨-, -, -, -, hAllowed⟩ := mem_selectedBy.mp hLog
    rw [hList, allowsAddress, List.contains_iff_mem] at hAllowed
    exact hAllowed

end Merged

/-! Two logs of one transaction, at addresses 1 and 2, from a node that does not send log indexes. -/

def transferAt (address logIndex : Nat) : ChainLog Nat Unit :=
  ⟨address, [10], (), 1, 3, 100, 2, 0, logIndex, by decide⟩

def twoTransfers : CanonicalLogs Nat Unit where
  logs := [transferAt 1 0, transferAt 2 1]
  ordered := by
    refine List.pairwise_pair.mpr (Or.inr ⟨rfl, Nat.le_refl _, ?_⟩)
    exact Nat.zero_lt_one
  one_number := by
    intro a ha b hb _
    simp only [List.mem_cons, List.not_mem_nil, or_false] at ha hb
    rcases ha with rfl | rfl <;> rcases hb with rfl | rfl <;> rfl

def withoutIndex (_ : ChainLog Nat Unit) : Fields := ⟨true, true, true, true, true, false⟩

def plainNode (filter : Filter Nat) : Option (List (Log Nat Unit)) :=
  some ((twoTransfers.logs.filter filter.matches).map (ChainLog.send withoutIndex))

theorem plainNode_sends : SendsExactly plainNode twoTransfers withoutIndex :=
  fun _ => ⟨_, .refl _, rfl⟩

def transfersFilter : RindexerEventFilter Nat :=
  .filter ⟨some (.array [1, 2]), 10, ⟨[], [], []⟩, [], 0, 5⟩

end Rindexer.Provider
