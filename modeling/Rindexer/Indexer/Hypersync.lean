import Mathlib.Order.WithBot
import Rindexer.Indexer.LogProvider

/-! The HyperSync provider: the branches of its `get_logs`, the query of an archive, and when it
answers an event filter as the RPC provider does. -/

namespace Rindexer.Provider

open Rindexer.Lib Rindexer.Indexer

/-- A row of the archive's answer. -/
structure LogRow (Address Data : Type) where
  removed : Option Bool
  logIndex : Nat
  transactionIndex : Nat
  transactionHash : B256
  blockHash : B256
  blockNumber : Nat
  address : Address
  data : Data
  topic0 : Option B256
  topic1 : Option B256
  topic2 : Option B256
  topic3 : Option B256

/-- The rows of the logs, and the numbers and times of the blocks that are joined to them. -/
structure Response (Address Data : Type) where
  blocks : List (Nat × Nat)
  logs : List (LogRow Address Data)

structure Query (Address : Type) where
  logs : LogSelection Address
  fromBlock : Nat
  toBlockExcl : Nat
deriving DecidableEq, Repr

section Query

variable {Address Data : Type} [DecidableEq Address]

def Query.matches (query : Query Address) (log : ChainLog Address Data) : Bool :=
  decide (query.fromBlock ≤ log.blockNumber) && decide (log.blockNumber < query.toBlockExcl) &&
    query.logs.matches log

theorem Query.matches_iff {query : Query Address} {log : ChainLog Address Data} :
    query.matches log = true ↔
      (query.fromBlock ≤ log.blockNumber ∧ log.blockNumber < query.toBlockExcl) ∧
        query.logs.matches log = true := by
  rw [Query.matches, Bool.and_eq_true, Bool.and_eq_true, decide_eq_true_eq, decide_eq_true_eq]

end Query

/-- The archive.  `collectArrow` fails also where the query cannot be built. -/
structure Client (Address Data : Type) where
  getHeight : Option Nat
  collectArrow : Query Address → Option (Response Address Data)

structure HypersyncProvider (Address Data : Type) where
  client : Client Address Data
  rpc : JsonRpcCachedProvider Address Data

/-- A height and the time at which it was fetched, in milliseconds. -/
abbrev HeightCache := Option (Nat × Nat)

/-- `HEIGHT_CACHE_TTL`. -/
def heightCacheTtl : Nat := 2000

namespace HypersyncProvider

section Read

variable {Address Data : Type}

/-- `block_timestamps`: a later row of a block replaces an earlier one. -/
def timestampOf (blocks : List (Nat × Nat)) (number : Nat) : Option Nat :=
  (blocks.reverse.find? fun b => b.1 = number).map Prod.snd

/-- The topics up to the first that is missing. -/
def readTopics : List (Option B256) → List B256
  | some topic :: rest => topic :: readTopics rest
  | _ => []

def readLog (blocks : List (Nat × Nat)) (row : LogRow Address Data) : Log Address Data where
  address := row.address
  topics := readTopics [row.topic0, row.topic1, row.topic2, row.topic3]
  data := row.data
  blockHash := some row.blockHash
  blockNumber := some row.blockNumber
  blockTimestamp := timestampOf blocks row.blockNumber
  transactionHash := some row.transactionHash
  transactionIndex := some row.transactionIndex
  logIndex := some row.logIndex
  removed := row.removed.getD false

/-- The key of the sort, with a missing number before all others. -/
def chainKey (log : Log Address Data) : WithBot ℕ ×ₗ WithBot ℕ := toLex (log.blockNumber, log.logIndex)

end Read

variable {Address Data : Type} [DecidableEq Address]

/-- `covers_block` at the time `now`, and the cache that it leaves. -/
def coversBlock (client : Client Address Data) (cache : HeightCache) (now toBlock : Nat) :
    Bool × HeightCache :=
  let refreshed :=
    match client.getHeight with
    | some height => (decide (toBlock ≤ height), some (now, height))
    | none => (false, cache)
  match cache with
  | some (fetchedAt, height) =>
    if toBlock ≤ height then (true, cache)
    else if now - fetchedAt < heightCacheTtl then (false, cache)
    else refreshed
  | none => refreshed

/-- The query of a filter.  Its end, in 64 bits, is the block after the range. -/
def queryFor (f : RindexerEventFilter Address) (addresses : Option (List Address)) : Query Address :=
  ⟨⟨addresses.getD [], [f.eventSignature], f.firstTopics⟩, f.fromBlock, (f.toBlock + 1) % 2 ^ 64⟩

def getLogsViaHypersync (client : Client Address Data) (f : RindexerEventFilter Address)
    (addresses : Option (List Address)) : Option (List (Log Address Data)) :=
  (client.collectArrow (queryFor f addresses)).map fun response =>
    sortByKey chainKey (response.logs.map (readLog response.blocks))

/-- `get_logs`, and the cache of heights that it leaves. -/
def getLogs (provider : HypersyncProvider Address Data) (known : KnownChildren Address)
    (cache : HeightCache) (now : Nat) (f : RindexerEventFilter Address) :
    Option (List (Log Address Data)) × HeightCache :=
  if f.toBlock < f.fromBlock then (some [], cache)
  else
    match f.contractAddresses known with
    | some [] => (some [], cache)
    | addresses =>
      match coversBlock provider.client cache now f.toBlock with
      | (false, cache) => (provider.rpc.getLogsOf known f, cache)
      | (true, cache) =>
        match getLogsViaHypersync provider.client f addresses with
        | some logs => (some logs, cache)
        | none => (provider.rpc.getLogsOf known f, cache)

end HypersyncProvider

/-! ### The answer of the archive -/

section Archive

variable {Address Data : Type}

/-- A row has the log `log`. -/
structure RowOf (log : ChainLog Address Data) (row : LogRow Address Data) : Prop where
  removed : row.removed ≠ some true
  logIndex : row.logIndex = log.logIndex
  transactionIndex : row.transactionIndex = log.transactionIndex
  transactionHash : row.transactionHash = log.transactionHash
  blockHash : row.blockHash = log.blockHash
  blockNumber : row.blockNumber = log.blockNumber
  address : row.address = log.address
  data : row.data = log.data
  topic0 : row.topic0 = log.topics[0]?
  topic1 : row.topic1 = log.topics[1]?
  topic2 : row.topic2 = log.topics[2]?
  topic3 : row.topic3 = log.topics[3]?

/-- An answer has exactly the logs that match a query, in some order, and the times of their
blocks. -/
structure Response.Exact [DecidableEq Address] (chain : CanonicalLogs Address Data)
    (query : Query Address) (response : Response Address Data) : Prop where
  logs : ∃ sent : List (ChainLog Address Data), sent.Perm (chain.logs.filter query.matches) ∧
    List.Forall₂ RowOf sent response.logs
  joined : ∀ log ∈ chain.logs, query.matches log = true →
    ∃ timestamp, (log.blockNumber, timestamp) ∈ response.blocks
  timestamps : ∀ log ∈ chain.logs, ∀ b ∈ response.blocks, b.1 = log.blockNumber →
    b.2 = log.timestamp

variable {chain : CanonicalLogs Address Data}

theorem readTopics_eq {topics : List B256} (h : topics.length ≤ 4) :
    HypersyncProvider.readTopics [topics[0]?, topics[1]?, topics[2]?, topics[3]?] = topics := by
  match topics, h with
  | [], _ => rfl
  | [_], _ => rfl
  | [_, _], _ => rfl
  | [_, _, _], _ => rfl
  | [_, _, _, _], _ => rfl

theorem timestampOf_eq {blocks : List (Nat × Nat)} {log : ChainLog Address Data}
    (hJoined : ∃ timestamp, (log.blockNumber, timestamp) ∈ blocks)
    (hTimes : ∀ b ∈ blocks, b.1 = log.blockNumber → b.2 = log.timestamp) :
    HypersyncProvider.timestampOf blocks log.blockNumber = some log.timestamp := by
  rw [HypersyncProvider.timestampOf]
  cases hFind : blocks.reverse.find? fun b => b.1 = log.blockNumber with
  | none =>
    obtain ⟨timestamp, hMem⟩ := hJoined
    have hNot := List.find?_eq_none.mp hFind _ (List.mem_reverse.mpr hMem)
    simp at hNot
  | some b =>
    have hMem := List.mem_reverse.mp (List.mem_of_find?_eq_some hFind)
    have hNumber := List.find?_some hFind
    rw [Option.map_some, hTimes b hMem (by simpa using hNumber)]

/-- A row is read as the log that it has, with the time of its block. -/
theorem readLog_eq {blocks : List (Nat × Nat)} {log : ChainLog Address Data}
    {row : LogRow Address Data} (hRow : RowOf log row)
    (hTime : HypersyncProvider.timestampOf blocks log.blockNumber = some log.timestamp) :
    HypersyncProvider.readLog blocks row = log.toLog true := by
  have hRemoved : row.removed.getD false = false := by
    cases h : row.removed with
    | none => rfl
    | some removed =>
      cases removed with
      | false => rfl
      | true => exact absurd h hRow.removed
  rw [HypersyncProvider.readLog, hRow.topic0, hRow.topic1, hRow.topic2, hRow.topic3,
    readTopics_eq log.topics_length, hRow.address, hRow.data, hRow.blockHash, hRow.blockNumber,
    hTime, hRow.transactionHash, hRow.transactionIndex, hRow.logIndex, hRemoved]
  rfl

theorem ChainLog.Before.chainKey_lt {a b : ChainLog Address Data} (h : a.Before b) (stamps : Bool) :
    HypersyncProvider.chainKey (a.toLog stamps) < HypersyncProvider.chainKey (b.toLog stamps) := by
  simp only [HypersyncProvider.chainKey, ChainLog.toLog, Prod.Lex.toLex_lt_toLex]
  rcases h with h | ⟨hBlock, -, hIndex⟩
  · exact Or.inl (WithBot.coe_lt_coe.mpr h)
  · exact Or.inr ⟨by rw [hBlock], WithBot.coe_lt_coe.mpr hIndex⟩

variable [DecidableEq Address]

/-- What the archive answers: the logs of its query, in the order of the chain. -/
theorem getLogsViaHypersync_eq {client : Client Address Data} {f : RindexerEventFilter Address}
    {addresses : Option (List Address)} {response : Response Address Data}
    (hCollect : client.collectArrow (HypersyncProvider.queryFor f addresses) = some response)
    (hExact : response.Exact chain (HypersyncProvider.queryFor f addresses)) :
    HypersyncProvider.getLogsViaHypersync client f addresses =
      some ((chain.logs.filter (HypersyncProvider.queryFor f addresses).matches).map
        (ChainLog.toLog true)) := by
  obtain ⟨sent, hSent, hRows⟩ := hExact.logs
  have hRead : ∀ sent' rows, List.Forall₂ RowOf sent' rows → sent' ⊆ sent →
      rows.map (HypersyncProvider.readLog response.blocks) = sent'.map (ChainLog.toLog true) := by
    intro sent' rows h
    induction h with
    | nil => exact fun _ => rfl
    | @cons log row sent' rows hRow _ ih =>
      intro hSub
      obtain ⟨hLog, hMatches⟩ := List.mem_filter.mp (hSent.mem_iff.mp (hSub List.mem_cons_self))
      rw [List.map_cons, List.map_cons, ih fun l hl => hSub (List.mem_cons_of_mem _ hl),
        readLog_eq hRow (timestampOf_eq (hExact.joined log hLog hMatches)
          (hExact.timestamps log hLog))]
  rw [HypersyncProvider.getLogsViaHypersync, hCollect, Option.map_some]
  congr 1
  rw [hRead sent response.logs hRows fun l hl => hl]
  apply sortByKey_eq (hSent.map _)
  rw [List.pairwise_map]
  exact (chain.ordered.filter _).imp fun hBefore => hBefore.chainKey_lt true

/-- Whether the archive is asked, and answers. -/
def HypersyncProvider.Served (provider : HypersyncProvider Address Data)
    (known : KnownChildren Address) (cache : HeightCache) (now : Nat)
    (f : RindexerEventFilter Address) : Prop :=
  (coversBlock provider.client cache now f.toBlock).1 = true ∧
    provider.client.collectArrow (queryFor f (f.contractAddresses known)) ≠ none

/-- The one query of the archive selects what the filter does: the further alternatives select no log
that the first does not, and no log is selected where the block after the range is past 64 bits. -/
def OneQuery (chain : CanonicalLogs Address Data) (known : KnownChildren Address)
    (f : RindexerEventFilter Address) : Prop :=
  ∀ log ∈ chain.logs, f.wants known log = true →
    f.firstTopics.matches log = true ∧ f.toBlock + 1 < 2 ^ 64

/-- What the query of a filter selects. -/
theorem queryFor_matches_iff {known : KnownChildren Address} {f : RindexerEventFilter Address}
    (hSome : f.contractAddresses known ≠ some []) (log : ChainLog Address Data) :
    (HypersyncProvider.queryFor f (f.contractAddresses known)).matches log = true ↔
      f.wants known log = true ∧ f.firstTopics.matches log = true ∧ f.toBlock + 1 < 2 ^ 64 := by
  have hAddress : ((f.contractAddresses known).getD [] = [] ∨
      log.address ∈ (f.contractAddresses known).getD []) ↔
        allowsAddress (f.contractAddresses known) log = true := by
    cases hAddresses : f.contractAddresses known with
    | none => simp [allowsAddress]
    | some addresses =>
      rw [hAddresses, Ne, Option.some.injEq] at hSome
      simp [allowsAddress, hSome]
  have hEnd : log.blockNumber < (f.toBlock + 1) % 2 ^ 64 ↔
      log.blockNumber ≤ f.toBlock ∧ f.toBlock + 1 < 2 ^ 64 := by
    have := f.toBlock_lt
    omega
  rw [Query.matches_iff, LogSelection.matches_iff, f.wants_iff]
  simp only [HypersyncProvider.queryFor, hAddress, hEnd, JsonRpcCachedProvider.requestFor,
    Filter.matches_iff, LogSelection.matches_iff, List.mem_singleton, exists_eq_left, true_or,
    false_or, true_and, List.cons_ne_nil]
  constructor
  · rintro ⟨⟨hFrom, hTo, hFits⟩, hAllowed, hTopic, hFirst⟩
    exact ⟨⟨f.firstTopics, f.mem_topicSets, ⟨⟨hFrom, hTo⟩, hTopic, hFirst⟩, hAllowed⟩, hFirst, hFits⟩
  · rintro ⟨⟨_, -, ⟨⟨hFrom, hTo⟩, hTopic, -⟩, hAllowed⟩, hFirst, hFits⟩
    exact ⟨⟨hFrom, hTo, hFits⟩, hAllowed, hTopic, hFirst⟩

/-- A query that selects fewer logs of a list has another answer. -/
theorem filter_map_eq_iff {α β : Type} {l : List α} {p q : α → Bool} {g : α → β}
    (h : ∀ a ∈ l, p a = true → q a = true) :
    (l.filter p).map g = (l.filter q).map g ↔ ∀ a ∈ l, q a = true → p a = true := by
  constructor
  · intro hEq
    have hSub : (l.filter p).Sublist (l.filter q) := by
      have hBoth : l.filter p = (l.filter q).filter p := by
        rw [List.filter_filter]
        apply List.filter_congr
        intro a ha
        cases hp : p a with
        | false => rfl
        | true => rw [h a ha hp, Bool.and_true]
      rw [hBoth]
      exact List.filter_sublist
    have hLength : (l.filter p).length = (l.filter q).length := by
      simpa using congrArg List.length hEq
    have hSame := hSub.eq_of_length hLength
    intro a ha hq
    have hMem := List.mem_filter.mpr ⟨ha, hq⟩
    rw [← hSame] at hMem
    exact (List.mem_filter.mp hMem).2
  · intro hBack
    rw [List.filter_congr fun a ha => Bool.eq_iff_iff.mpr ⟨h a ha, hBack a ha⟩]

variable {provider : HypersyncProvider Address Data} {stamps : Bool}

/-- What the RPC provider answers has no more of the times than its node sends. -/
theorem getLogsOf_asSent (hNode : AnswersExactly provider.rpc chain stamps)
    (known : KnownChildren Address) (f : RindexerEventFilter Address) :
    (provider.rpc.getLogsOf known f).map (List.map (Log.asSent stamps)) =
      provider.rpc.getLogsOf known f := by
  by_cases hChunks : f.contractAddresses known = some [] ∨
      provider.rpc.Chunks (f.contractAddresses known)
  · rw [getLogsOf_eq hNode known f hChunks, Option.map_some, List.map_map]
    congr 1
    exact List.map_congr_left fun log _ => (log.asSent_toLog stamps).1
  · rw [getLogsOf_of_not_chunks known f (fun h => hChunks (Or.inl h)) fun h => hChunks (Or.inr h)]
    rfl

/-- A range that has no block is not fetched, nor are the logs of no address. -/
theorem getLogs_of_nothing {known : KnownChildren Address} {cache : HeightCache} {now : Nat}
    {f : RindexerEventFilter Address}
    (h : f.toBlock < f.fromBlock ∨ f.contractAddresses known = some []) :
    (provider.getLogs known cache now f).1 = some [] := by
  rw [HypersyncProvider.getLogs]
  split
  case isTrue => rfl
  case isFalse hRange => rw [h.resolve_left hRange]

/-- Otherwise the archive answers if it can, and else the RPC provider does. -/
theorem getLogs_of_range (provider : HypersyncProvider Address Data)
    {known : KnownChildren Address} (cache : HeightCache) (now : Nat)
    {f : RindexerEventFilter Address} (hRange : f.fromBlock ≤ f.toBlock)
    (hSome : f.contractAddresses known ≠ some []) :
    (provider.Served known cache now f ∧ (provider.getLogs known cache now f).1 =
        HypersyncProvider.getLogsViaHypersync provider.client f (f.contractAddresses known)) ∨
      (¬ provider.Served known cache now f ∧
        (provider.getLogs known cache now f).1 = provider.rpc.getLogsOf known f) := by
  have hBranch : provider.getLogs known cache now f =
      match HypersyncProvider.coversBlock provider.client cache now f.toBlock with
      | (false, cache) => (provider.rpc.getLogsOf known f, cache)
      | (true, cache) =>
        match HypersyncProvider.getLogsViaHypersync provider.client f
          (f.contractAddresses known) with
        | some logs => (some logs, cache)
        | none => (provider.rpc.getLogsOf known f, cache) := by
    rw [HypersyncProvider.getLogs, if_neg (Nat.not_lt.mpr hRange)]
    split
    case h_1 hEmpty => exact absurd hEmpty hSome
    case h_2 => rfl
  rw [hBranch, HypersyncProvider.Served]
  obtain ⟨covers, cache'⟩ :=
    HypersyncProvider.coversBlock provider.client cache now f.toBlock
  cases covers with
  | false => exact Or.inr ⟨fun h => (nomatch h.1), rfl⟩
  | true =>
    cases hCollect : provider.client.collectArrow
        (HypersyncProvider.queryFor f (f.contractAddresses known)) with
    | none =>
      refine Or.inr ⟨fun h => h.2 rfl, ?_⟩
      simp only [HypersyncProvider.getLogsViaHypersync, hCollect, Option.map_none]
    | some response =>
      refine Or.inl ⟨⟨rfl, Option.some_ne_none _⟩, ?_⟩
      simp only [HypersyncProvider.getLogsViaHypersync, hCollect, Option.map_some]

/-- HyperSync answers a filter as the RPC provider does, but for the times of blocks that the node
does not send, exactly if the archive does not serve the range or its one query selects what the
filter does. -/
theorem answers_alike_iff (provider : HypersyncProvider Address Data)
    (chain : CanonicalLogs Address Data) (stamps : Bool) (known : KnownChildren Address)
    (cache : HeightCache) (now : Nat) (f : RindexerEventFilter Address)
    (hNode : AnswersExactly provider.rpc chain stamps)
    (hClient : ∀ query response, provider.client.collectArrow query = some response →
      response.Exact chain query) :
    (provider.getLogs known cache now f).1.map (List.map (Log.asSent stamps)) =
        provider.rpc.getLogsOf known f ↔
      f.contractAddresses known = some [] ∨
        (f.fromBlock ≤ f.toBlock ∧ ¬ provider.Served known cache now f) ∨
        (provider.rpc.Chunks (f.contractAddresses known) ∧ OneQuery chain known f) := by
  by_cases hEmpty : f.contractAddresses known = some []
  · rw [getLogs_of_nothing (Or.inr hEmpty), JsonRpcCachedProvider.getLogsOf, if_pos hEmpty]
    exact iff_of_true rfl (Or.inl hEmpty)
  by_cases hRange : f.fromBlock ≤ f.toBlock
  · rcases getLogs_of_range provider cache now hRange hEmpty with ⟨hServed, hEq⟩ | ⟨hNot, hEq⟩
    · obtain ⟨response, hCollect⟩ := Option.ne_none_iff_exists'.mp hServed.2
      rw [hEq, getLogsViaHypersync_eq hCollect (hClient _ _ hCollect), Option.map_some, List.map_map]
      have hSent : Log.asSent stamps ∘ ChainLog.toLog true =
          (ChainLog.toLog stamps : ChainLog Address Data → Log Address Data) :=
        funext fun log => (log.asSent_toLog stamps).2
      rw [hSent]
      by_cases hChunks : provider.rpc.Chunks (f.contractAddresses known)
      · rw [getLogsOf_eq hNode known f (Or.inr hChunks), Option.some.injEq, filter_map_eq_iff
          fun log _ h => ((queryFor_matches_iff hEmpty log).mp h).1]
        constructor
        · intro hBack
          exact Or.inr (Or.inr ⟨hChunks, fun log hLog hWants =>
            ((queryFor_matches_iff hEmpty log).mp (hBack log hLog hWants)).2⟩)
        · rintro (h | h | ⟨-, hOne⟩)
          · exact absurd h hEmpty
          · exact absurd hServed h.2
          · exact fun log hLog hWants =>
              (queryFor_matches_iff hEmpty log).mpr ⟨hWants, hOne log hLog hWants⟩
      · rw [getLogsOf_of_not_chunks known f hEmpty hChunks]
        refine iff_of_false (by rintro ⟨⟩) ?_
        rintro (h | h | h)
        · exact hEmpty h
        · exact h.2 hServed
        · exact hChunks h.1
    · rw [hEq, getLogsOf_asSent hNode]
      exact iff_of_true rfl (Or.inr (Or.inl ⟨hRange, hNot⟩))
  · rw [getLogs_of_nothing (Or.inl (Nat.not_le.mp hRange))]
    by_cases hChunks : provider.rpc.Chunks (f.contractAddresses known)
    · have hNone : ∀ log ∈ chain.logs, ¬ f.wants known log = true := by
        intro log _ hWants
        obtain ⟨_, _, hMatches, _⟩ := (f.wants_iff known log).mp hWants
        have hBounds := (Filter.matches_iff.mp hMatches).1
        exact hRange (hBounds.1.trans hBounds.2)
      rw [getLogsOf_eq hNode known f (Or.inr hChunks), List.filter_eq_nil_iff.mpr hNone]
      exact iff_of_true rfl (Or.inr (Or.inr ⟨hChunks, fun log hLog hWants =>
        absurd hWants (hNone log hLog)⟩))
    · rw [getLogsOf_of_not_chunks known f hEmpty hChunks]
      refine iff_of_false (by rintro ⟨⟩) ?_
      rintro (h | h | h)
      · exact hEmpty h
      · exact hRange h.1
      · exact hChunks h.1

/-! ### A filter with two alternatives -/

/-- The row of a log. -/
def ChainLog.toRow (log : ChainLog Address Data) : LogRow Address Data where
  removed := none
  logIndex := log.logIndex
  transactionIndex := log.transactionIndex
  transactionHash := log.transactionHash
  blockHash := log.blockHash
  blockNumber := log.blockNumber
  address := log.address
  data := log.data
  topic0 := log.topics[0]?
  topic1 := log.topics[1]?
  topic2 := log.topics[2]?
  topic3 := log.topics[3]?

/-- A network whose node and archive, of height 100, answer from the chain. -/
def CanonicalLogs.network (chain : CanonicalLogs Address Data) :
    HypersyncProvider Address Data where
  client :=
    ⟨some 100, fun query => some
      ⟨chain.logs.map fun log => (log.blockNumber, log.timestamp),
        (chain.logs.filter query.matches).map ChainLog.toRow⟩⟩
  rpc :=
    ⟨fun filter => some ((chain.logs.filter filter.matches).map (ChainLog.toLog false)), none⟩

theorem CanonicalLogs.network_exact (chain : CanonicalLogs Address Data)
    (hTimes : ∀ a ∈ chain.logs, ∀ b ∈ chain.logs, b.blockNumber = a.blockNumber →
      b.timestamp = a.timestamp) :
    AnswersExactly chain.network.rpc chain false ∧
      ∀ query response, chain.network.client.collectArrow query = some response →
        response.Exact chain query := by
  refine ⟨fun filter => ⟨_, List.Perm.refl _, rfl⟩, ?_⟩
  rintro query _ ⟨⟩
  refine ⟨⟨_, List.Perm.refl _, ?_⟩, ?_, ?_⟩
  · rw [List.forall₂_map_right_iff, List.forall₂_same]
    exact fun log _ => ⟨nofun, rfl, rfl, rfl, rfl, rfl, rfl, rfl, rfl, rfl, rfl, rfl⟩
  · exact fun log hLog _ => ⟨log.timestamp, List.mem_map.mpr ⟨log, hLog, rfl⟩⟩
  · intro log hLog b hb hNumber
    obtain ⟨other, hOther, rfl⟩ := List.mem_map.mp hb
    exact hTimes log hLog other hOther hNumber

end Archive

/-- A transfer in block 7 from account 1 to account 2. -/
def transferLog : ChainLog Nat Nat where
  address := 50
  topics := [10, 1, 2]
  data := 0
  blockHash := 70
  blockNumber := 7
  timestamp := 700
  transactionHash := 71
  transactionIndex := 0
  logIndex := 0
  topics_length := by decide

def transferLogs : CanonicalLogs Nat Nat where
  logs := [transferLog]
  ordered := List.pairwise_singleton _ _
  one_number := by
    intro a ha b hb _
    rw [List.mem_singleton.mp ha, List.mem_singleton.mp hb]

theorem transferLogs_times : ∀ a ∈ transferLogs.logs, ∀ b ∈ transferLogs.logs,
    b.blockNumber = a.blockNumber → b.timestamp = a.timestamp := by
  intro a ha b hb _
  rw [List.mem_singleton.mp ha, List.mem_singleton.mp hb]

/-- The transfers that topic alternatives select. -/
def transfersOf (additionalTopics : List Topics) (topics : Topics) : RindexerEventFilter Nat :=
  .filter ⟨none, 10, topics, additionalTopics, 0, 20⟩

theorem answers_alike_iff_transfers :
    (transferLogs.network.getLogs (fun _ _ _ => none) none 0 (transfersOf [] ⟨[1], [], []⟩)).1.map
        (List.map (Log.asSent false)) =
      transferLogs.network.rpc.getLogsOf (fun _ _ _ => none) (transfersOf [] ⟨[1], [], []⟩) :=
  (answers_alike_iff transferLogs.network transferLogs false (fun _ _ _ => none) none 0
    (transfersOf [] ⟨[1], [], []⟩) (transferLogs.network_exact transferLogs_times).1
    (transferLogs.network_exact transferLogs_times).2).mpr
    (Or.inr (Or.inr ⟨Or.inl rfl, by
      intro log hLog _
      rw [List.mem_singleton.mp hLog]
      decide⟩))

/-- The transfers to or from account 1: the archive is asked for the first alternative only. -/
theorem alternative_dropped :
    ¬ ∀ (provider : HypersyncProvider Nat Nat) (chain : CanonicalLogs Nat Nat) (stamps : Bool)
      (known : KnownChildren Nat) (cache : HeightCache) (now : Nat) (f : RindexerEventFilter Nat),
      AnswersExactly provider.rpc chain stamps →
      (∀ query response, provider.client.collectArrow query = some response →
        response.Exact chain query) →
      (provider.getLogs known cache now f).1.map (List.map (Log.asSent stamps)) =
        provider.rpc.getLogsOf known f := by
  intro hClaim
  have hSame := hClaim transferLogs.network transferLogs false (fun _ _ _ => none) none 0
    (transfersOf [⟨[1], [], []⟩] ⟨[], [1], []⟩) (transferLogs.network_exact transferLogs_times).1
    (transferLogs.network_exact transferLogs_times).2
  exact absurd hSame (by decide)

end Rindexer.Provider
