import Rindexer.Indexer.Live
import Rindexer.Indexer.LogProvider
import Rindexer.Lib.Transition

/-! The blocks that the live loops do not fetch because the bloom filter of the head says that no log
of theirs is wanted: the loop of one event and the loop of events with dependencies. -/

namespace Rindexer.Indexer

open Rindexer.Lib Rindexer.Provider

/-- What the library says of the bloom filter of a header. -/
structure FilteredParams (Address Bloom : Type) where
  matchesAddress : Bloom → List Address → Bool
  matchesTopics : Bloom → List (List (Option B256)) → Bool

section Bloom

variable {Address Bloom : Type} (params : FilteredParams Address Bloom)

def contractInBloom (contractAddress : Address) (logsBloom : Bloom) : Bool :=
  params.matchesAddress logsBloom [contractAddress]

def topicInBloom (topicId : B256) (logsBloom : Bloom) : Bool :=
  params.matchesTopics logsBloom [[some topicId]]

/-- A head: its number, the bloom filter of its header, and its logs, whose addresses and topics are in
that filter. -/
structure HeadBlock (Data : Type) where
  number : Nat
  logsBloom : Bloom
  logs : List (ChainLog Address Data)
  addresses_in : ∀ log ∈ logs, contractInBloom params log.address logsBloom = true
  topics_in : ∀ log ∈ logs, ∀ topic ∈ log.topics, topicInBloom params topic logsBloom = true

variable {params} {Data : Type}

def isRelevantBlock (contractAddress : Option (List Address)) (topicId : B256)
    (latestBlock : HeadBlock params Data) : Bool :=
  if (contractAddress.any fun addresses =>
      addresses.all fun a => !contractInBloom params a latestBlock.logsBloom) then false
  else topicInBloom params topicId latestBlock.logsBloom

/-- Whether the range is the head alone, so that the bloom filter of the head is about it. -/
def bloomCheckApplies (latestBlock : HeadBlock params Data) (fromBlock toBlock : Nat)
    (disableLogsBloomChecks : Bool) : Bool :=
  fromBlock = latestBlock.number && fromBlock = toBlock && !disableLogsBloomChecks

variable [DecidableEq Address]

/-- A filter wants a log, in whichever block it is. -/
def wantsLog (f : RindexerEventFilter Address) (addresses : Option (List Address))
    (log : ChainLog Address Data) : Bool :=
  allowsAddress addresses log && decide (log.topics[0]? = some f.eventSignature) &&
    f.topicSets.any fun topics => topics.matches log

/-- A log that is wanted makes its block relevant. -/
theorem isRelevantBlock_of_wanted {f : RindexerEventFilter Address}
    {addresses : Option (List Address)} {latestBlock : HeadBlock params Data}
    {log : ChainLog Address Data} (hLog : log ∈ latestBlock.logs)
    (hWanted : wantsLog f addresses log = true) :
    isRelevantBlock addresses f.eventSignature latestBlock = true := by
  simp only [wantsLog, Bool.and_eq_true, decide_eq_true_eq] at hWanted
  obtain ⟨⟨hAllowed, hTopic⟩, -⟩ := hWanted
  have hTopicIn : topicInBloom params f.eventSignature latestBlock.logsBloom = true :=
    latestBlock.topics_in log hLog _ (List.mem_of_getElem? hTopic)
  rw [isRelevantBlock, if_neg ?_, hTopicIn]
  cases addresses with
  | none => simp
  | some addresses =>
    rw [allowsAddress, List.contains_iff_mem] at hAllowed
    simp only [Option.any_some, List.all_eq_true, Bool.not_eq_true', not_forall]
    exact ⟨log.address, hAllowed, by simp [latestBlock.addresses_in log hLog]⟩

/-- A range that was not fetched, the filter and addresses it was not fetched for, and the head whose
bloom filter was asked. -/
structure Skip (params : FilteredParams Address Bloom) (Data : Type) where
  filter : RindexerEventFilter Address
  addresses : Option (List Address)
  fromBlock : Nat
  toBlock : Nat
  head : HeadBlock params Data

/-- The range is the head alone, which has no log that is wanted. -/
structure Skip.Sound (skip : Skip params Data) : Prop where
  first : skip.fromBlock = skip.head.number
  last : skip.toBlock = skip.head.number
  unwanted : ∀ log ∈ skip.head.logs, wantsLog skip.filter skip.addresses log = false

theorem skip_sound {f : RindexerEventFilter Address} {addresses : Option (List Address)}
    {fromBlock toBlock : Nat} {disableLogsBloomChecks : Bool} {latestBlock : HeadBlock params Data}
    (h : (bloomCheckApplies latestBlock fromBlock toBlock disableLogsBloomChecks &&
      !isRelevantBlock addresses f.eventSignature latestBlock) = true) :
    (⟨f, addresses, fromBlock, toBlock, latestBlock⟩ : Skip params Data).Sound := by
  simp only [bloomCheckApplies, Bool.and_eq_true, decide_eq_true_eq, Bool.not_eq_true'] at h
  obtain ⟨⟨⟨hFirst, hSingle⟩, -⟩, hIrrelevant⟩ := h
  refine ⟨hFirst, hSingle.symm.trans hFirst, fun log hLog => ?_⟩
  rw [Bool.eq_false_iff]
  intro hWanted
  rw [isRelevantBlock_of_wanted hLog hWanted] at hIrrelevant
  cases hIrrelevant

/-- The next block after a range is fetched: after the last log, or after the range if there is none.
A last log without a block number leaves it. -/
def nextAfter (nextFrom toBlock : Nat) : Option (Option Nat) → Nat
  | none => toBlock + 1
  | some (some lastLogBlockNumber) => lastLogBlockNumber + 1
  | some none => nextFrom

/-! ### The loop of one event -/

inductive Fetched
  | logs (lastLog : Option (Option Nat))
  | unstamped
  | removed (minRemovedBlock : Nat)
  | failed (retry : LiveFetchRetryHint)

/-- What happens to the loop: no head, a reorg that it rewinds to, or a head with the children known
when the addresses are read and the answer if the range is fetched. -/
inductive LiveEvent (params : FilteredParams Address Bloom) (Data : Type)
  | noHead
  | rewind (forkBlock : Nat)
  | head (latestBlock : HeadBlock params Data) (known : KnownChildren Address) (answer : Fetched)

structure LiveStream (params : FilteredParams Address Bloom) (Data : Type) where
  nextFrom : Nat
  lastSeenBlockNumber : Nat
  retryHint : Option LiveFetchRetryHint
  skipped : List (Skip params Data)

namespace LiveStream

def rewound (s : LiveStream params Data) (forkBlock : Nat) : LiveStream params Data :=
  { s with nextFrom := forkBlock, lastSeenBlockNumber := forkBlock - 1, retryHint := none }

def fetched (s : LiveStream params Data) (plan : LiveFetchPlan) :
    Fetched → LiveStream params Data
  | .logs lastLog =>
    { s with
      nextFrom := nextAfter s.nextFrom plan.toBlock lastLog
      lastSeenBlockNumber := plan.toBlock
      retryHint := none }
  | .unstamped => { s with lastSeenBlockNumber := plan.toBlock }
  | .removed minRemovedBlock => s.rewound minRemovedBlock
  | .failed retry => { s with retryHint := some retry }

def step (config : LiveConfig) (f : RindexerEventFilter Address) (s : LiveStream params Data) :
    LiveEvent params Data → Option (LiveStream params Data)
  | .noHead => some s
  | .rewind forkBlock => some (s.rewound forkBlock)
  | .head latestBlock known answer =>
    if s.lastSeenBlockNumber = latestBlock.number then some s
    else
      match LiveFetchPlan.plan s.retryHint s.nextFrom (config.safeHead latestBlock.number)
          config.originalMaxLimit with
      | none => some s
      | some plan =>
        let contractAddress := f.contractAddresses known
        if bloomCheckApplies latestBlock plan.fromBlock plan.toBlock config.disableLogsBloomChecks &&
            !isRelevantBlock contractAddress f.eventSignature latestBlock then
          some
            { nextFrom := plan.toBlock + 1
              lastSeenBlockNumber := plan.toBlock
              retryHint := none
              skipped := s.skipped ++
                [⟨f, contractAddress, plan.fromBlock, plan.toBlock, latestBlock⟩] }
        else some (s.fetched plan answer)

end LiveStream

/-- Every skip so far is sound. -/
def AllSound (skipped : List (Skip params Data)) : Prop := ∀ skip ∈ skipped, skip.Sound

theorem AllSound.append {skipped more : List (Skip params Data)} (h : AllSound skipped)
    (hMore : AllSound more) : AllSound (skipped ++ more) := by
  intro skip hSkip
  rcases List.mem_append.mp hSkip with hOld | hNew
  · exact h skip hOld
  · exact hMore skip hNew

theorem AllSound.single {skip : Skip params Data} (h : skip.Sound) : AllSound [skip] := by
  intro other hOther
  rw [List.mem_singleton.mp hOther]
  exact h

omit [DecidableEq Address] in
theorem fetched_skipped (s : LiveStream params Data) (plan : LiveFetchPlan) (answer : Fetched) :
    (s.fetched plan answer).skipped = s.skipped := by
  cases answer with
  | logs lastLog => rfl
  | unstamped => rfl
  | removed minRemovedBlock => rfl
  | failed retry => rfl

theorem live_step_sound {config : LiveConfig} {f : RindexerEventFilter Address}
    {s s' : LiveStream params Data} {e : LiveEvent params Data} (hSound : AllSound s.skipped)
    (h : s.step config f e = some s') : AllSound s'.skipped := by
  cases e with
  | noHead =>
    cases h
    exact hSound
  | rewind forkBlock =>
    cases h
    exact hSound
  | head latestBlock known answer =>
    simp only [LiveStream.step] at h
    split at h
    · cases h
      exact hSound
    · split at h
      · cases h
        exact hSound
      · split at h
        · next hSkips =>
          cases h
          exact hSound.append (.single (skip_sound hSkips))
        · cases h
          rw [fetched_skipped]
          exact hSound

/-! ### The loop of events with dependencies -/

/-- An event of the loop: its filter and settings, and how far it is. -/
structure OrderedEvent (Address : Type) where
  filter : RindexerEventFilter Address
  distanceFromHead : Nat
  disableLogsBloomChecks : Bool
  nextFrom : Nat
  lastSeenBlockNumber : Nat

/-- The answer to an event whose range is fetched.  A failure, of the fetch or of what follows it, ends
the poll. -/
inductive OrderedAnswer
  | logs (lastLog : Option (Option Nat))
  | failed

/-- `stored` says whether the progress of a skipped range can be stored. -/
inductive OrderedInput (params : FilteredParams Address Bloom) (Data : Type)
  | noHead
  | rewind (forkBlock : Nat)
  | head (latestBlock : HeadBlock params Data) (known : KnownChildren Address) (stored : Nat → Bool)
    (answer : Nat → OrderedAnswer)

structure OrderedStream (params : FilteredParams Address Bloom) (Data : Type) where
  events : List (OrderedEvent Address)
  skipped : List (Skip params Data)

/-- The events of a poll in order, from the one at `i` on, and what they skip. -/
def pollEvents (latestBlock : HeadBlock params Data) (known : KnownChildren Address)
    (stored : Nat → Bool) (answer : Nat → OrderedAnswer) :
    Nat → List (OrderedEvent Address) → List (OrderedEvent Address) × List (Skip params Data)
  | _, [] => ([], [])
  | i, event :: rest =>
    let continued := fun (done : OrderedEvent Address) (skips : List (Skip params Data)) =>
      let others := pollEvents latestBlock known stored answer (i + 1) rest
      (done :: others.1, skips ++ others.2)
    let toBlock := latestBlock.number - event.distanceFromHead
    if event.lastSeenBlockNumber = latestBlock.number then continued event []
    else if toBlock < event.nextFrom then continued event []
    else
      let addresses := event.filter.contractAddresses known
      if bloomCheckApplies latestBlock event.nextFrom toBlock event.disableLogsBloomChecks &&
          !isRelevantBlock addresses event.filter.eventSignature latestBlock then
        let skip := ⟨event.filter, addresses, event.nextFrom, toBlock, latestBlock⟩
        if stored i then
          continued { event with nextFrom := toBlock + 1, lastSeenBlockNumber := toBlock } [skip]
        else (event :: rest, [skip])
      else
        match answer i with
        | .logs lastLog =>
          continued
            { event with
              nextFrom := nextAfter event.nextFrom toBlock lastLog
              lastSeenBlockNumber := toBlock } []
        | .failed => (event :: rest, [])

def OrderedStream.step (s : OrderedStream params Data) :
    OrderedInput params Data → Option (OrderedStream params Data)
  | .noHead => some s
  | .rewind forkBlock =>
    some
      { s with
        events := s.events.map fun event =>
          { event with nextFrom := forkBlock, lastSeenBlockNumber := forkBlock - 1 } }
  | .head latestBlock known stored answer =>
    let polled := pollEvents latestBlock known stored answer 0 s.events
    some ⟨polled.1, s.skipped ++ polled.2⟩

theorem pollEvents_sound (latestBlock : HeadBlock params Data) (known : KnownChildren Address)
    (stored : Nat → Bool) (answer : Nat → OrderedAnswer) (i : Nat)
    (events : List (OrderedEvent Address)) :
    AllSound (pollEvents latestBlock known stored answer i events).2 := by
  induction events generalizing i with
  | nil => exact fun skip hSkip => nomatch hSkip
  | cons event rest ih =>
    simp only [pollEvents]
    split
    · exact ih (i + 1)
    split
    · exact ih (i + 1)
    split
    · next hSkips =>
      split
      · exact (AllSound.single (skip_sound hSkips)).append (ih (i + 1))
      · exact .single (skip_sound hSkips)
    · split
      · exact ih (i + 1)
      · exact fun skip hSkip => nomatch hSkip

theorem ordered_step_sound {s s' : OrderedStream params Data} {e : OrderedInput params Data}
    (hSound : AllSound s.skipped) (h : s.step e = some s') : AllSound s'.skipped := by
  cases e with
  | noHead =>
    cases h
    exact hSound
  | rewind forkBlock =>
    cases h
    exact hSound
  | head latestBlock known stored answer =>
    cases h
    exact hSound.append (pollEvents_sound latestBlock known stored answer 0 s.events)

end Bloom

end Rindexer.Indexer
