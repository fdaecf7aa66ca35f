import Rindexer.Indexer.Historical

/-! The live fetch loop between reorgs: every poll of the head plans a range from the next block up to
the safe head, within the limit and the retry hint, fetches it, and sends it. -/

namespace Rindexer.Indexer

open Rindexer.Lib Rindexer.Database

/-- The logs of a node, and what the bloom filter of a block's header says about them. -/
structure BloomedLogs (network : String) extends NodeLogs network where
  isRelevantBlock : Nat → Bool
  bloom : ∀ n, isRelevantBlock n = false → logs n = []

structure LiveFetchRetryHint where
  fromBlock : Nat
  toBlock : Nat
deriving DecidableEq, Repr

structure LiveFetchPlan where
  fromBlock : Nat
  toBlock : Nat
deriving DecidableEq, Repr

/-- The range from the next block on: up to the safe head, the limit, and the retry hint. -/
def LiveFetchPlan.plan (retryHint : Option LiveFetchRetryHint) (nextFrom safeHead : Nat)
    (maxBlockRange : Option Nat) : Option LiveFetchPlan :=
  if safeHead < nextFrom then none
  else
    let normalTo := (maxBlockRange.map fun limit =>
      min (min (nextFrom + limit) (2 ^ 64 - 1)) safeHead).getD safeHead
    some ⟨nextFrom,
      (retryHint.map fun hint => min (max hint.toBlock nextFrom) normalTo).getD normalTo⟩

/-- What the loop is started with. -/
structure LiveConfig where
  reorgSafeDistance : Nat
  originalMaxLimit : Option Nat
  disableLogsBloomChecks : Bool

/-- The live loop: the start of its filter, the last block seen, the retry hint, and what was sent. -/
structure LiveLoop where
  nextFrom : Nat
  lastSeenBlockNumber : Nat
  retryHint : Option LiveFetchRetryHint
  sent : List Batch

def LiveLoop.start (nextFrom lastSeenBlockNumber : Nat) : LiveLoop where
  nextFrom := nextFrom
  lastSeenBlockNumber := lastSeenBlockNumber
  retryHint := none
  sent := []

/-- A poll: no head, or the number of the head and what comes back for the range that is planned. -/
inductive Poll
  | noHead
  | head (latestBlockNumber : Nat) (response : Response)
deriving DecidableEq, Repr

def LiveConfig.safeHead (config : LiveConfig) (latestBlockNumber : Nat) : Nat :=
  latestBlockNumber - config.reorgSafeDistance

namespace LiveLoop

/-- The range of a plan is sent. -/
def deliver (s : LiveLoop) (plan : LiveFetchPlan) (rows : List EventRow) : LiveLoop where
  nextFrom := nextBlock plan.toBlock rows % 2 ^ 64
  lastSeenBlockNumber := plan.toBlock
  retryHint := none
  sent := s.sent ++ [⟨plan.fromBlock, plan.toBlock, rows⟩]

/-- The range of a plan is fetched. -/
def fetch {network : String} (node : BloomedLogs network) (config : LiveConfig) (s : LiveLoop)
    (plan : LiveFetchPlan) : Response → LiveLoop
  | .logs true => s.deliver plan (node.range plan.fromBlock plan.toBlock)
  | .logs false => { s with lastSeenBlockNumber := plan.toBlock }
  | .error e =>
    let retry := rangeAfterError e plan.fromBlock plan.toBlock config.originalMaxLimit
    { s with retryHint := some ⟨retry.fromBlock, retry.toBlock⟩ }

def poll {network : String} (node : BloomedLogs network) (config : LiveConfig) (s : LiveLoop) :
    Poll → LiveLoop
  | .noHead => s
  | .head latestBlockNumber response =>
    if s.lastSeenBlockNumber = latestBlockNumber then s
    else
      match LiveFetchPlan.plan s.retryHint s.nextFrom (config.safeHead latestBlockNumber)
          config.originalMaxLimit with
      | none => s
      | some plan =>
        -- The bloom filter is that of the head, so it only tells about a range of that block alone.
        let bloomCheckApplies := plan.fromBlock = latestBlockNumber ∧ plan.fromBlock = plan.toBlock ∧
          !config.disableLogsBloomChecks
        if bloomCheckApplies ∧ node.isRelevantBlock latestBlockNumber = false then s.deliver plan []
        else s.fetch node config plan response

def step {network : String} (node : BloomedLogs network) (config : LiveConfig) (s : LiveLoop)
    (poll : Poll) : Option LiveLoop := some (s.poll node config poll)

end LiveLoop

/-- A poll sends nothing and stays at the next block, or it sends the logs of one range.  That range
starts at the next block and ends at or below the safe head, and the block after its last log is
next, or the block after its end when it has none. -/
def SendsNextRange {network : String} (node : BloomedLogs network) (config : LiveConfig)
    (s : LiveLoop) (poll : Poll) (s' : LiveLoop) : Prop :=
  s'.sent = s.sent ∧ s'.nextFrom = s.nextFrom ∨
    ∃ latestBlockNumber response batch, poll = .head latestBlockNumber response ∧
      s'.sent = s.sent ++ [batch] ∧ batch.fromBlock = s.nextFrom ∧
      s.nextFrom ≤ batch.toBlock ∧ batch.toBlock ≤ config.safeHead latestBlockNumber ∧
      batch.rows = node.range batch.fromBlock batch.toBlock ∧
      s'.nextFrom = nextBlock batch.toBlock batch.rows

/-- The logs of the blocks from the start to the next block have been sent, each once and in order,
and each of these blocks is in a range that was sent. -/
structure SentUpToNext {network : String} (node : BloomedLogs network) (startBlock : Nat)
    (s : LiveLoop) : Prop where
  reached : startBlock ≤ s.nextFrom
  logs : s.sent.flatMap Batch.rows = node.span startBlock s.nextFrom
  blocks : ∀ n, startBlock ≤ n → n < s.nextFrom → ∃ batch ∈ s.sent, batch.covers n

/-- Heads have a next block number of 64 bits. -/
def Poll.HeadFits : Poll → Prop
  | .noHead => True
  | .head latestBlockNumber _ => latestBlockNumber + 1 < 2 ^ 64

section Live

variable {network : String} {node : BloomedLogs network} {config : LiveConfig} {s s' : LiveLoop}

/-- A plan starts at the next block and ends between it and the safe head, whatever the hint says. -/
theorem plan_within {retryHint : Option LiveFetchRetryHint} {nextFrom safeHead : Nat}
    {maxBlockRange : Option Nat} {plan : LiveFetchPlan}
    (hNext : nextFrom < 2 ^ 64)
    (h : LiveFetchPlan.plan retryHint nextFrom safeHead maxBlockRange = some plan) :
    plan.fromBlock = nextFrom ∧ nextFrom ≤ plan.toBlock ∧ plan.toBlock ≤ safeHead := by
  unfold LiveFetchPlan.plan at h
  split at h
  · cases h
  rename_i hLe
  have hNormal : nextFrom ≤ (maxBlockRange.map fun limit =>
        min (min (nextFrom + limit) (2 ^ 64 - 1)) safeHead).getD safeHead ∧
      (maxBlockRange.map fun limit =>
        min (min (nextFrom + limit) (2 ^ 64 - 1)) safeHead).getD safeHead ≤ safeHead := by
    cases maxBlockRange with
    | none => exact ⟨Nat.not_lt.mp hLe, le_rfl⟩
    | some limit =>
      simp only [Option.map_some, Option.getD_some]
      omega
  generalize (maxBlockRange.map fun limit =>
    min (min (nextFrom + limit) (2 ^ 64 - 1)) safeHead).getD safeHead = normalTo at h hNormal
  cases h
  cases retryHint with
  | none => exact ⟨rfl, hNormal⟩
  | some hint =>
    exact ⟨rfl, Nat.le_min.mpr ⟨Nat.le_max_right _ _, hNormal.1⟩,
      (Nat.min_le_right _ _).trans hNormal.2⟩

theorem deliver_sends {plan : LiveFetchPlan} {latestBlockNumber : Nat} {response : Response}
    {rows : List EventRow} (hFits : latestBlockNumber + 1 < 2 ^ 64)
    (hFrom : plan.fromBlock = s.nextFrom) (hLe : s.nextFrom ≤ plan.toBlock)
    (hSafe : plan.toBlock ≤ config.safeHead latestBlockNumber)
    (hRows : rows = node.range plan.fromBlock plan.toBlock) :
    SendsNextRange node config s (.head latestBlockNumber response) (s.deliver plan rows) := by
  have hNext : nextBlock plan.toBlock rows ≤ plan.toBlock + 1 := by
    rw [hRows]
    exact nextBlock_le fun r hr => (mem_range node.toNodeLogs hr).2.1
  have hHead : plan.toBlock ≤ latestBlockNumber := hSafe.trans (Nat.sub_le _ _)
  refine .inr ⟨latestBlockNumber, response, ⟨plan.fromBlock, plan.toBlock, rows⟩, rfl, rfl, hFrom,
    hLe, hSafe, hRows, ?_⟩
  exact Nat.mod_eq_of_lt (by omega)

theorem poll_sends {poll : Poll} (hNext : s.nextFrom < 2 ^ 64) (hFits : poll.HeadFits)
    (h : s.step node config poll = some s') : SendsNextRange node config s poll s' := by
  cases h
  cases poll with
  | noHead => exact .inl ⟨rfl, rfl⟩
  | head latestBlockNumber response =>
    simp only [LiveLoop.poll]
    split
    · exact .inl ⟨rfl, rfl⟩
    split
    · exact .inl ⟨rfl, rfl⟩
    rename_i plan hPlan
    obtain ⟨hFrom, hLe, hSafe⟩ := plan_within hNext hPlan
    split
    · rename_i hSkip
      obtain ⟨⟨hHead, hSingle, -⟩, hIrrelevant⟩ := hSkip
      have hNone : node.range plan.fromBlock plan.toBlock = [] := by
        rw [← hSingle, hHead]
        simp [NodeLogs.range, node.bloom latestBlockNumber hIrrelevant]
      exact deliver_sends hFits hFrom hLe hSafe hNone.symm
    · match response with
      | .logs true => exact deliver_sends hFits hFrom hLe hSafe rfl
      | .logs false => exact .inl ⟨rfl, rfl⟩
      | .error _ => exact .inl ⟨rfl, rfl⟩

/-- What was sent reaches the next block after a poll that sends the next range. -/
theorem sendsNextRange_sent {startBlock : Nat} {poll : Poll}
    (hInv : SentUpToNext node startBlock s) (h : SendsNextRange node config s poll s') :
    SentUpToNext node startBlock s' := by
  obtain ⟨hReached, hLogs, hBlocks⟩ := hInv
  rcases h with ⟨hSent, hNext⟩ | ⟨_, _, batch, _, hSent, hFrom, hLe, _, hRows, hNext⟩
  · exact ⟨hNext ▸ hReached, by rw [hSent, hNext, hLogs], by rw [hSent, hNext]; exact hBlocks⟩
  have hForward : s.nextFrom ≤ s'.nextFrom := by
    rw [hNext, hRows, hFrom]
    exact le_nextBlock node.toNodeLogs hLe
  have hEnd : s'.nextFrom ≤ batch.toBlock + 1 := by
    rw [hNext, hRows]
    exact nextBlock_le fun r hr => (mem_range node.toNodeLogs hr).2.1
  have hSpan : batch.rows = node.span s.nextFrom s'.nextFrom := by
    rw [hNext, hRows, hFrom]
    exact range_eq_to_nextBlock node.toNodeLogs s.nextFrom batch.toBlock
  refine ⟨hReached.trans hForward, ?_, fun n hLow hHigh => ?_⟩
  · rw [hSent, List.flatMap_append, List.flatMap_singleton, hLogs, hSpan,
      span_append node.toNodeLogs hReached hForward]
  · rw [hSent]
    by_cases hOld : n < s.nextFrom
    · obtain ⟨b, hb, hCovers⟩ := hBlocks n hLow hOld
      exact ⟨b, List.mem_append_left _ hb, hCovers⟩
    · refine ⟨batch, by simp, ?_⟩
      simp only [Batch.covers, Bool.and_eq_true, decide_eq_true_eq]
      omega

end Live

/-- In every run of the live loop, each poll sends the next range or nothing, and the logs up to the
next block have been sent, each once. -/
theorem live_ranges_follow {network : String} (node : BloomedLogs network) (config : LiveConfig)
    (nextFrom lastSeenBlockNumber : Nat) (hNext : nextFrom < 2 ^ 64) (polls : List Poll)
    (hFits : Meets (LiveLoop.step node config) (fun _ poll => poll.HeadFits)
      (.start nextFrom lastSeenBlockNumber) polls) :
    EveryStep (LiveLoop.step node config) (SendsNextRange node config)
        (.start nextFrom lastSeenBlockNumber) polls ∧
      Always (LiveLoop.step node config) (SentUpToNext node nextFrom)
        (.start nextFrom lastSeenBlockNumber) polls := by
  have hStep : ∀ s poll s', (s.nextFrom < 2 ^ 64 ∧ SentUpToNext node nextFrom s) →
      Poll.HeadFits poll → LiveLoop.step node config s poll = some s' →
        (s'.nextFrom < 2 ^ 64 ∧ SentUpToNext node nextFrom s') ∧
          SendsNextRange node config s poll s' := by
    rintro s poll s' ⟨hSmall, hInv⟩ hPoll h
    have hSends := poll_sends hSmall hPoll h
    refine ⟨⟨?_, sendsNextRange_sent hInv hSends⟩, hSends⟩
    cases h
    rcases hSends with ⟨-, hSame⟩ | ⟨latest, response, batch, rfl, -, -, -, hSafe, hRows, hAt⟩
    · rw [hSame]
      exact hSmall
    · have hEnd : nextBlock batch.toBlock batch.rows ≤ batch.toBlock + 1 := by
        rw [hRows]
        exact nextBlock_le fun r hr => (mem_range node.toNodeLogs hr).2.1
      have hHead : batch.toBlock ≤ latest := hSafe.trans (Nat.sub_le _ _)
      have hLatest : latest + 1 < 2 ^ 64 := hPoll
      omega
  have hInit : (LiveLoop.start nextFrom lastSeenBlockNumber).nextFrom < 2 ^ 64 ∧
      SentUpToNext node nextFrom (.start nextFrom lastSeenBlockNumber) := by
    refine ⟨hNext, le_rfl, (span_eq_nil_of_le node.toNodeLogs le_rfl).symm, fun n hLow hHigh => ?_⟩
    exact absurd hHigh (Nat.not_lt.mpr hLow)
  refine ⟨everyStep_of_invariant hStep hInit hFits, ?_⟩
  exact (always_of_invariant (fun s poll s' hInv hPoll h => (hStep s poll s' hInv hPoll h).1) hInit
    hFits).mono fun s hInv => hInv.2

/-- The transfers of a node whose bloom filters are exact. -/
def bloomedTransfers : BloomedLogs transfers.network where
  toNodeLogs := transferLogs "a"
  isRelevantBlock n := n ≤ 12
  bloom n h := if_neg (by simpa using h)

/-- The head stalls, an error shrinks the range, timestamps are missing once, and the head goes back. -/
def unsteadyPolls : List Poll :=
  [.head 10 (.error ⟨"limited to a 2 block range", ""⟩), .noHead, .head 10 (.logs false),
    .head 11 (.logs true), .head 9 (.logs true), .head 14 (.logs true), .head 13 (.logs true)]

theorem live_ranges_follow_unsteady :
    EveryStep (LiveLoop.step bloomedTransfers ⟨1, none, false⟩)
        (SendsNextRange bloomedTransfers ⟨1, none, false⟩) (.start 5 4) unsteadyPolls ∧
      Always (LiveLoop.step bloomedTransfers ⟨1, none, false⟩) (SentUpToNext bloomedTransfers 5)
        (.start 5 4) unsteadyPolls := by
  refine live_ranges_follow bloomedTransfers ⟨1, none, false⟩ 5 4 (by decide) unsteadyPolls ?_
  refine .cons rfl ?_ (.cons rfl trivial (.cons rfl ?_ (.cons rfl ?_ (.cons rfl ?_
    (.cons rfl ?_ (.cons rfl ?_ trivial))))))
  all_goals
    show _ + 1 < 2 ^ 64
    decide

/-- After a range whose last blocks have no logs, those blocks are asked for again. -/
theorem quiet_blocks_asked_again :
    ¬ ∀ (network : String) (node : BloomedLogs network) (config : LiveConfig)
        (nextFrom lastSeenBlockNumber : Nat) (polls : List Poll),
      EveryStep (LiveLoop.step node config) (fun s poll s' => s'.sent = s.sent ∨
          ∃ latestBlockNumber response batch, poll = .head latestBlockNumber response ∧
            s'.sent = s.sent ++ [batch] ∧ batch.fromBlock = s.nextFrom ∧
            batch.toBlock ≤ config.safeHead latestBlockNumber ∧ s'.nextFrom = batch.toBlock + 1)
        (.start nextFrom lastSeenBlockNumber) polls := by
  intro hClaim
  have hRun := hClaim _ bloomedTransfers ⟨0, none, false⟩ 5 4 [.head 14 (.logs true)]
  rcases (hRun _ rfl).1 with hNone | ⟨_, _, batch, _, hSent, _, _, hNext⟩
  · exact absurd (congrArg List.length hNone) (by decide)
  · have hBatch := List.append_cancel_left
      (show ([] : List Batch) ++ [⟨5, 14, _⟩] = [] ++ [batch] from hSent)
    cases List.singleton_inj.mp hBatch
    exact absurd hNext (by decide)

end Rindexer.Indexer
