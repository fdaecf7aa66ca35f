import Rindexer.Indexer.Historical
import Rindexer.Indexer.ReorderBuffer

/-! The parallel historical fetch: a dispatcher that cuts the range into sub-ranges, a worker for each
of them, the channel that the workers send their batches to, and the task that puts the batches in
order. -/

namespace Rindexer.Indexer

open Rindexer.Lib Rindexer.Database

/-! ### Workers -/

structure ParallelFetchParams where
  chunkSize : Nat
  effectiveConcurrency : Nat
deriving DecidableEq, Repr

def parallelMinChunk : Nat := 1000

def parallelMaxConcurrency : Nat := 32

def maxWorkerResults : Nat := 1000

def maxStuckIterations : Nat := 10

def planParallelFetch (totalBlocks concurrency : Nat) : ParallelFetchParams :=
  let capped := max 1 (min concurrency parallelMaxConcurrency)
  ⟨max parallelMinChunk (totalBlocks / capped), min capped (max 1 (totalBlocks / parallelMinChunk))⟩

/-- The result of a fetch, as the consumer gets it. -/
abbrev FetchResult : Type := Except String Batch

/-- One round without the channel: the batch, the next range, and whether the request failed.  Past the
snapshot there is no next range. -/
def fetchLogsOnce {network : String} (node : NodeLogs network) (fromBlock toBlock : Nat)
    (limit : Option Nat) (snapshotToBlock : Nat) (response : Response) :
    Option Batch × Option ProcessHistoricLogsStreamResult × Bool :=
  let round := fetchHistoricLogsStream node fromBlock toBlock limit snapshotToBlock response
  if round.sent.isSome ∧ snapshotToBlock < round.next.fromBlock then (round.sent, none, false)
  else (round.sent, some round.next, fromBlock ≤ toBlock && !response.sends)

/-- A worker on a sub-range.  `results` are those that it has not sent yet. -/
structure Worker where
  subRangeStart : Nat
  subRangeEnd : Nat
  fromBlock : Nat
  toBlock : Nat
  maxBlockRangeLimitation : Option Nat
  results : List FetchResult
  stuckIterations : Nat
  lastRange : Option (Nat × Nat)
  /-- Whether the loop has been left. -/
  ended : Bool
  /-- Whether the final batch has been sent. -/
  finished : Bool

def Worker.start (subRangeStart subRangeEnd : Nat) (originalMaxLimit : Option Nat) : Worker where
  subRangeStart := subRangeStart
  subRangeEnd := subRangeEnd
  fromBlock := subRangeStart
  toBlock := subRangeEnd
  maxBlockRangeLimitation := originalMaxLimit
  results := []
  stuckIterations := 0
  lastRange := none
  ended := false
  finished := false

/-- The worker takes up the next range.  It gives up on a range that errors keep leading back to. -/
def Worker.proceed (w : Worker) (originalMaxLimit : Option Nat)
    (next : Option ProcessHistoricLogsStreamResult) (failed reset : Bool) : Worker :=
  match next with
  | none => { w with ended := true }
  | some next =>
    let newRange := (next.fromBlock, next.toBlock)
    let moved :=
      { w with
        fromBlock := next.fromBlock
        toBlock := next.toBlock
        maxBlockRangeLimitation :=
          if reset then originalMaxLimit else next.maxBlockRangeLimitation }
    if w.lastRange = some newRange ∧ failed then
      if maxStuckIterations ≤ w.stuckIterations + 1 then
        { w with
          stuckIterations := w.stuckIterations + 1
          results := w.results ++ [.error s!"fetch_logs: stuck on range {newRange.1}-{newRange.2} after {w.stuckIterations + 1} retries"]
          ended := true }
      else { moved with stuckIterations := w.stuckIterations + 1 }
    else { moved with stuckIterations := 0, lastRange := some newRange }

/-! ### The parallel fetch -/

/-- What the parallel fetch is started with. -/
structure ParallelPlan where
  startBlock : Nat
  snapshotToBlock : Nat
  originalMaxLimit : Option Nat
  concurrency : Nat

def ParallelPlan.params (plan : ParallelPlan) : ParallelFetchParams :=
  planParallelFetch (plan.snapshotToBlock - plan.startBlock + 1) plan.concurrency

/-- The dispatcher, the workers by sequence id, the channel, the reorder buffer, and what it has
delivered.  `received` are the batches that the buffer has taken in; no code reads it. -/
structure Parallel where
  nextFrom : Nat
  workers : List Worker
  channel : List (SequencedFetchBatch FetchResult)
  buffer : ReorderBuffer FetchResult
  received : List (SequencedFetchBatch FetchResult)
  delivered : List FetchResult

def Parallel.start (plan : ParallelPlan) : Parallel where
  nextFrom := plan.startBlock
  workers := []
  channel := []
  buffer := .new
  received := []
  delivered := []

inductive ParallelAct
  | spawn
  | fetch (sequenceId : Nat) (response : Response) (reset : Bool)
  | finish (sequenceId : Nat)
  | receive
deriving DecidableEq, Repr

namespace Parallel

/-- Room in the channel for another batch. -/
def hasRoom (plan : ParallelPlan) (s : Parallel) : Bool :=
  s.channel.length < 2 * plan.params.effectiveConcurrency

/-- The dispatcher starts a worker on the next sub-range, when fewer are active than may be. -/
def spawn (plan : ParallelPlan) (s : Parallel) : Option Parallel :=
  if s.nextFrom ≤ plan.snapshotToBlock ∧
      s.workers.countP (fun w => !w.finished) < plan.params.effectiveConcurrency then
    let subTo := min (s.nextFrom + (plan.params.chunkSize - 1)) plan.snapshotToBlock
    some { s with
      nextFrom := wrappingAdd subTo 1
      workers := s.workers ++ [.start s.nextFrom subTo plan.originalMaxLimit] }
  else none

/-- A round of a worker, with a partial batch to the channel when it has many results. -/
def fetch {network : String} (node : NodeLogs network) (plan : ParallelPlan) (s : Parallel)
    (sequenceId : Nat) (response : Response) (reset : Bool) : Option Parallel :=
  match s.workers[sequenceId]? with
  | none => none
  | some w =>
    if w.ended ∨ w.subRangeEnd < w.fromBlock then none
    else
      let once := fetchLogsOnce node w.fromBlock w.toBlock w.maxBlockRangeLimitation w.subRangeEnd
        response
      let results := w.results ++ (once.1.map Except.ok).toList
      if once.1.isSome ∧ maxWorkerResults ≤ results.length then
        if s.hasRoom plan then
          some { s with
            workers := s.workers.set sequenceId
              (({ w with results := [] } : Worker).proceed plan.originalMaxLimit once.2.1 once.2.2
                reset)
            channel := s.channel ++ [⟨sequenceId, results, false⟩] }
        else none
      else
        some { s with
          workers := s.workers.set sequenceId
            (({ w with results := results } : Worker).proceed plan.originalMaxLimit once.2.1
              once.2.2 reset) }

/-- A worker that has left its loop sends its final batch. -/
def finish (plan : ParallelPlan) (s : Parallel) (sequenceId : Nat) : Option Parallel :=
  match s.workers[sequenceId]? with
  | none => none
  | some w =>
    if !w.finished ∧ (w.ended ∨ w.subRangeEnd < w.fromBlock) ∧ s.hasRoom plan then
      some { s with
        workers := s.workers.set sequenceId
          { w with results := [], ended := true, finished := true }
        channel := s.channel ++ [⟨sequenceId, w.results, true⟩] }
    else none

/-- The reorder task takes a batch in and sends on what is next. -/
def receive (s : Parallel) : Option Parallel :=
  match s.channel with
  | [] => none
  | batch :: channel =>
    let accepted := s.buffer.accept batch
    some { s with
      channel := channel
      buffer := accepted.1
      received := s.received ++ [batch]
      delivered := s.delivered ++ accepted.2 }

def step {network : String} (node : NodeLogs network) (plan : ParallelPlan) (s : Parallel) :
    ParallelAct → Option Parallel
  | .spawn => s.spawn plan
  | .fetch sequenceId response reset => s.fetch node plan sequenceId response reset
  | .finish sequenceId => s.finish plan sequenceId
  | .receive => s.receive

/-- All sub-ranges are dispatched, all workers have finished, and the channel is empty. -/
def Complete (plan : ParallelPlan) (s : Parallel) : Prop :=
  plan.snapshotToBlock < s.nextFrom ∧ (∀ w ∈ s.workers, w.finished = true) ∧ s.channel = []

/-- All batches that have been sent. -/
def history (s : Parallel) : List (SequencedFetchBatch FetchResult) := s.received ++ s.channel

end Parallel

/-- The logs of results. -/
def resultRows (results : List FetchResult) : List EventRow :=
  results.flatMap fun r => match r with
    | .ok batch => batch.rows
    | .error _ => []

/-- The parallel fetch delivers what the sequential one does, in its order; each worker stays in its
sub-range; and no state before the end is stuck. -/
structure MatchesSequential {network : String} (node : NodeLogs network) (plan : ParallelPlan)
    (s : Parallel) : Prop where
  inOrder : resultRows s.delivered <+: node.range plan.startBlock plan.snapshotToBlock
  ownRange : ∀ i w, s.workers[i]? = some w →
    ∀ r ∈ resultRows (resultsOf s.history i ++ w.results),
      w.subRangeStart ≤ r.blockNumber ∧ r.blockNumber ≤ w.subRangeEnd
  complete : s.Complete plan → ∀ behaviour : Behaviour,
    CoversHistory node plan.startBlock plan.snapshotToBlock plan.originalMaxLimit behaviour →
      ∃ n, plan.snapshotToBlock < (Historic.after node plan.startBlock plan.snapshotToBlock
          plan.originalMaxLimit behaviour n).fromBlock ∧
        resultRows s.delivered = (Historic.after node plan.startBlock plan.snapshotToBlock
          plan.originalMaxLimit behaviour n).delivered
  progress : ¬s.Complete plan → ∃ act, (s.step node plan act).isSome

/-! ### One worker -/

/-- The range that a failed request leads to. -/
def Response.failedRange (fromBlock toBlock : Nat) (limit : Option Nat) :
    Response → Option (Nat × Nat)
  | .logs true => none
  | .logs false => some (fromBlock, halvedBlockNumber toBlock fromBlock)
  | .error e =>
    let retry := rangeAfterError e fromBlock toBlock limit
    some (retry.fromBlock, retry.toBlock)

/-- What comes back keeps the place of the worker in its sub-range, and is not the tenth failure in a
row that leads to one range. -/
def Worker.Keeps {network : String} (node : NodeLogs network) (w : Worker) (response : Response) :
    Prop :=
  w.fromBlock ≤ w.toBlock →
    response.KeepsPlace node w.subRangeEnd w.fromBlock w.toBlock w.maxBlockRangeLimitation ∧
      ∀ range, response.failedRange w.fromBlock w.toBlock w.maxBlockRangeLimitation = some range →
        w.lastRange = some range → w.stuckIterations + 1 < maxStuckIterations

/-- The worker has produced the rows up to the block that it has reached in its sub-range, and all of
them once it has left its loop. -/
structure Worker.OnCourse {network : String} (node : NodeLogs network) (w : Worker)
    (rows : List EventRow) : Prop where
  running : w.ended = false →
    (Historic.mk w.fromBlock w.toBlock w.maxBlockRangeLimitation [] rows).OnCourse node
      w.subRangeStart w.subRangeEnd
  ended : w.ended = true → DeliveredTo node w.subRangeStart (w.subRangeEnd + 1) rows

section Workers

variable {network : String} {node : NodeLogs network}

theorem Worker.OnCourse.past {w : Worker} {rows : List EventRow} (h : w.OnCourse node rows)
    (hPast : w.ended = true ∨ w.subRangeEnd < w.fromBlock) :
    DeliveredTo node w.subRangeStart (w.subRangeEnd + 1) rows := by
  cases hEnded : w.ended with
  | true => exact h.ended hEnded
  | false =>
    obtain ⟨hDelivered, -, hPlace⟩ := h.running hEnded
    have hFrom : w.subRangeEnd < w.fromBlock := by simpa [hEnded] using hPast
    simp only [Historic.reached] at hDelivered hPlace
    have hReached : min w.fromBlock w.toBlock = w.subRangeEnd + 1 := by omega
    rwa [hReached] at hDelivered

theorem Worker.OnCourse.prefix_span {w : Worker} {rows : List EventRow} (h : w.OnCourse node rows) :
    rows <+: node.span w.subRangeStart (w.subRangeEnd + 1) := by
  have hUpTo : ∀ reached, reached ≤ w.subRangeEnd + 1 →
      node.span w.subRangeStart reached <+: node.span w.subRangeStart (w.subRangeEnd + 1) := by
    intro reached hLe
    rcases Nat.lt_or_ge reached w.subRangeStart with hBefore | hBefore
    · rw [span_eq_nil_of_le node hBefore.le]
      exact List.nil_prefix
    · rw [← span_append node hBefore hLe]
      exact List.prefix_append _ _
  cases hEnded : w.ended with
  | true =>
    rw [(h.ended hEnded).logs]
  | false =>
    obtain ⟨hDelivered, -, hPlace⟩ := h.running hEnded
    simp only [Historic.reached] at hDelivered hPlace
    rw [hDelivered.logs]
    exact hUpTo _ (by omega)

theorem start_worker_onCourse {subRangeStart subRangeEnd : Nat} (limit : Option Nat)
    (hLe : subRangeStart ≤ subRangeEnd) :
    (Worker.start subRangeStart subRangeEnd limit).OnCourse node [] := by
  refine ⟨fun _ => ⟨?_, fun r hr => absurd hr List.not_mem_nil, .inl (Nat.max_le.mpr ⟨hLe, le_rfl⟩)⟩,
    fun hEnded => by cases hEnded⟩
  simp only [Historic.reached, Worker.start, Nat.min_eq_left hLe]
  exact ⟨(span_eq_nil_of_le node le_rfl).symm, fun hLess => absurd hLess (Nat.lt_irrefl _)⟩

/-- A failed request leads to the failed range. -/
theorem next_eq_failedRange (node : NodeLogs network) {fromBlock toBlock : Nat}
    (snapshotToBlock : Nat) (limit : Option Nat) {response : Response} (hLe : fromBlock ≤ toBlock) (hFailed : response.sends = false) :
    response.failedRange fromBlock toBlock limit =
      some ((fetchHistoricLogsStream node fromBlock toBlock limit snapshotToBlock response).next.fromBlock,
        (fetchHistoricLogsStream node fromBlock toBlock limit snapshotToBlock response).next.toBlock) := by
  unfold fetchHistoricLogsStream
  rw [if_neg (Nat.not_lt.mpr hLe)]
  match response, hFailed with
  | .logs false, _ => rfl
  | .error _, _ => rfl

/-- A round of a worker that keeps its place. -/
theorem worker_round {w : Worker} {rows : List EventRow} {response : Response} (limit : Option Nat)
    (reset : Bool) (results : List FetchResult) (hInv : w.OnCourse node rows)
    (hRange : w.subRangeEnd + 2 < 2 ^ 64) (hRuns : w.ended = false)
    (hGoes : w.fromBlock ≤ w.subRangeEnd) (hKeeps : w.Keeps node response) :
    let once := fetchLogsOnce node w.fromBlock w.toBlock w.maxBlockRangeLimitation w.subRangeEnd
      response
    let w' := ({ w with results := results } : Worker).proceed limit once.2.1 once.2.2 reset
    w'.OnCourse node (rows ++ (once.1.map Batch.rows).getD []) ∧ w'.results = results ∧
      w'.subRangeStart = w.subRangeStart ∧ w'.subRangeEnd = w.subRangeEnd ∧
      w'.finished = w.finished := by
  have hRound := (round_onCourse limit reset hRange (hInv.running hRuns) hGoes
    fun hLe => (hKeeps hLe).1).1
  unfold Historic.round at hRound
  rw [if_neg (Nat.not_lt.mpr hGoes)] at hRound
  have hFailedRange : w.fromBlock ≤ w.toBlock → response.sends = false → _ :=
    fun hLe hFailed => next_eq_failedRange node w.subRangeEnd w.maxBlockRangeLimitation hLe hFailed
  simp only [fetchLogsOnce]
  generalize fetchHistoricLogsStream node w.fromBlock w.toBlock w.maxBlockRangeLimitation
    w.subRangeEnd response = round at hRound hFailedRange
  split
  · rename_i hPast
    refine ⟨⟨fun hNot => Bool.noConfusion (show true = false from hNot), fun _ => ?_⟩, rfl, rfl, rfl, rfl⟩
    obtain ⟨hDelivered, -, hPlace⟩ := hRound
    simp only [Historic.reached] at hDelivered hPlace
    have hReached : min round.next.fromBlock round.next.toBlock = w.subRangeEnd + 1 := by omega
    rw [hReached] at hDelivered
    exact hDelivered
  · have hNext : (Historic.mk round.next.fromBlock round.next.toBlock
        (if reset then limit else round.next.maxBlockRangeLimitation) []
        (rows ++ (round.sent.map Batch.rows).getD [])).OnCourse node w.subRangeStart w.subRangeEnd :=
      ⟨hRound.delivered, fun r hr => absurd hr List.not_mem_nil, hRound.place⟩
    simp only [Worker.proceed]
    split
    · rename_i hAgain
      obtain ⟨hLast, hFailed⟩ := hAgain
      simp only [Bool.and_eq_true, decide_eq_true_eq, Bool.not_eq_true'] at hFailed
      obtain ⟨hLe, hFailed⟩ := hFailed
      have hFew := (hKeeps hLe).2 _ (hFailedRange hLe hFailed) hLast
      rw [if_neg (Nat.not_le.mpr hFew)]
      exact ⟨⟨fun _ => hNext, fun hEnded => absurd hEnded (by simp [hRuns])⟩, rfl, rfl, rfl, rfl⟩
    · exact ⟨⟨fun _ => hNext, fun hEnded => absurd hEnded (by simp [hRuns])⟩, rfl, rfl, rfl, rfl⟩

end Workers

/-! ### All workers -/

/-- Sub-ranges that follow each other from one block to another. -/
def Consecutive (next : Nat) : Nat → List (Nat × Nat) → Prop
  | start, [] => next = start
  | start, range :: ranges =>
    range.1 = start ∧ range.1 ≤ range.2 ∧ Consecutive next (range.2 + 1) ranges

/-- The sub-range of a worker. -/
def Worker.range (w : Worker) : Nat × Nat := (w.subRangeStart, w.subRangeEnd)

/-- The logs of sub-ranges. -/
def rangeLogs {network : String} (node : NodeLogs network) (range : Nat × Nat) : List EventRow :=
  node.span range.1 (range.2 + 1)

section Ranges

variable {network : String} (node : NodeLogs network) {next start : Nat} {ranges : List (Nat × Nat)}

theorem Consecutive.le (h : Consecutive next start ranges) : start ≤ next := by
  induction ranges generalizing start with
  | nil => exact h.ge
  | cons range ranges ih =>
    obtain ⟨hStart, hLe, hRest⟩ := h
    have := ih hRest
    omega

theorem Consecutive.append (h : Consecutive next start ranges) {last : Nat} (hLe : next ≤ last) :
    Consecutive (last + 1) start (ranges ++ [(next, last)]) := by
  induction ranges generalizing start with
  | nil => exact ⟨h, hLe, rfl⟩
  | cons range ranges ih => exact ⟨h.1, h.2.1, ih h.2.2⟩

theorem Consecutive.logs (h : Consecutive next start ranges) :
    ranges.flatMap (rangeLogs node) = node.span start next := by
  induction ranges generalizing start with
  | nil =>
    rw [show next = start from h, span_eq_nil_of_le node le_rfl]
    rfl
  | cons range ranges ih =>
    obtain ⟨rfl, hLe, hRest⟩ := h
    rw [List.flatMap_cons, ih hRest, rangeLogs,
      span_append node (show range.1 ≤ range.2 + 1 by omega) hRest.le]

theorem Consecutive.next_le (h : Consecutive next start ranges) {bound : Nat}
    (hBound : ∀ range ∈ ranges, range.2 < bound) : next = start ∨ next ≤ bound := by
  induction ranges generalizing start with
  | nil => exact .inl h
  | cons range ranges ih =>
    have hFirst := hBound range List.mem_cons_self
    rcases ih h.2.2 fun r hr => hBound r (List.mem_cons_of_mem _ hr) with hNext | hNext
    · exact .inr (by omega)
    · exact .inr hNext

/-- A list by its places. -/
theorem flatMap_range_getElem? {α β : Type} (l : List α) (f : α → List β) (count : Nat) :
    (List.range count).flatMap (fun i => l[i]?.toList.flatMap f) = (l.take count).flatMap f := by
  induction count with
  | zero => rfl
  | succ count ih =>
    rw [List.range_succ, List.flatMap_append, ih, List.flatMap_singleton, List.take_add_one,
      List.flatMap_append]

end Ranges

/-- The sub-ranges follow each other from the start on, each worker is on course, and the batches that
it has sent are in the channel or with the buffer, the final one last. -/
structure Parallel.OnCourse {network : String} (node : NodeLogs network) (plan : ParallelPlan)
    (s : Parallel) : Prop where
  ranges : Consecutive s.nextFrom plan.startBlock (s.workers.map Worker.range)
  within : ∀ w ∈ s.workers, w.subRangeEnd ≤ plan.snapshotToBlock
  workers : ∀ i (w : Worker), s.workers[i]? = some w →
    w.OnCourse node (resultRows (resultsOf s.history i ++ w.results))
  finished : ∀ i (w : Worker), s.workers[i]? = some w → finalizedIn s.history i = w.finished ∧
    (w.finished = true → w.ended = true ∧ w.results = [])
  unknown : ∀ i, s.workers.length ≤ i → streamOf s.history i = []
  finalLast : FinalLast s.history
  buffer : s.buffer.Holds s.received s.delivered

/-- What comes back keeps the place of the worker that asks. -/
def Parallel.Keeps {network : String} (node : NodeLogs network) (s : Parallel) : ParallelAct → Prop
  | .fetch i response _ => ∀ w, s.workers[i]? = some w → w.Keeps node response
  | _ => True

section Steps

variable {network : String} {node : NodeLogs network} {plan : ParallelPlan} {s s' : Parallel}

@[simp] theorem resultRows_append (results results' : List FetchResult) :
    resultRows (results ++ results') = resultRows results ++ resultRows results' :=
  List.flatMap_append

theorem resultRows_sent (sent : Option Batch) :
    resultRows (sent.map Except.ok).toList = (sent.map Batch.rows).getD [] := by
  cases sent with
  | none => rfl
  | some batch => simp [resultRows]

theorem start_parallel_onCourse : (Parallel.start plan).OnCourse node plan where
  ranges := rfl
  within _ hw := absurd hw List.not_mem_nil
  workers _ _ hw := by cases hw
  finished _ _ hw := by cases hw
  unknown _ _ := rfl
  finalLast := List.Pairwise.nil
  buffer := ReorderBuffer.new_holds

theorem chunkSize_pos (plan : ParallelPlan) : 0 < plan.params.chunkSize :=
  Nat.lt_of_lt_of_le (by decide) (Nat.le_max_left parallelMinChunk _)

theorem spawn_onCourse (hSnapshot : plan.snapshotToBlock + 2 < 2 ^ 64)
    (hInv : s.OnCourse node plan) (h : s.spawn plan = some s') : s'.OnCourse node plan := by
  unfold Parallel.spawn at h
  split at h
  swap
  · cases h
  rename_i hGuard
  simp only [Option.some.injEq] at h
  have hChunk := chunkSize_pos plan
  generalize hSubTo : min (s.nextFrom + (plan.params.chunkSize - 1)) plan.snapshotToBlock = subTo at h
  have hLe : s.nextFrom ≤ subTo := by omega
  have hTo : subTo ≤ plan.snapshotToBlock := by omega
  subst h
  have hPlace : ∀ i w, (s.workers ++ [Worker.start s.nextFrom subTo plan.originalMaxLimit])[i]? =
      some w → s.workers[i]? = some w ∨
        i = s.workers.length ∧ w = .start s.nextFrom subTo plan.originalMaxLimit := by
    intro i w hw
    rcases Nat.lt_trichotomy i s.workers.length with hLess | hSame | hMore
    · rw [List.getElem?_append_left hLess] at hw
      exact .inl hw
    · rw [hSame, List.getElem?_concat_length] at hw
      exact .inr ⟨hSame, (Option.some.inj hw).symm⟩
    · rw [List.getElem?_eq_none (by simp; omega)] at hw
      cases hw
  refine ⟨?_, fun w hw => ?_, fun i w hw => ?_, fun i w hw => ?_, fun i hi => ?_, hInv.finalLast,
    hInv.buffer⟩
  · rw [List.map_append, wrappingAdd_eq (show subTo + 1 < 2 ^ 64 by omega)]
    exact hInv.ranges.append hLe
  · rcases List.mem_append.mp hw with hOld | hNew
    · exact hInv.within w hOld
    · rw [List.mem_singleton.mp hNew]
      exact hTo
  · rcases hPlace i w hw with hOld | ⟨rfl, rfl⟩
    · exact hInv.workers i w hOld
    · have hNothing : resultsOf s.history s.workers.length = [] := by
        rw [resultsOf, hInv.unknown _ le_rfl, List.flatMap_nil]
      show Worker.OnCourse node _ (resultRows (resultsOf s.history s.workers.length ++ []))
      rw [hNothing]
      exact start_worker_onCourse plan.originalMaxLimit hLe
  · rcases hPlace i w hw with hOld | ⟨rfl, rfl⟩
    · exact hInv.finished i w hOld
    · refine ⟨?_, fun hFinished => by cases hFinished⟩
      show finalizedIn s.history s.workers.length = false
      rw [finalizedIn, hInv.unknown _ le_rfl]
      rfl
  · refine hInv.unknown i ?_
    simp only [List.length_append, List.length_singleton] at hi
    omega

theorem receive_onCourse (hInv : s.OnCourse node plan) (h : s.receive = some s') :
    s'.OnCourse node plan := by
  unfold Parallel.receive at h
  split at h
  · cases h
  rename_i batch channel hChannel
  cases h
  have hHistory : (s.received ++ [batch]) ++ channel = s.history := by
    rw [Parallel.history, hChannel, List.append_assoc]
    rfl
  have hLast := hInv.finalLast
  rw [Parallel.history, hChannel] at hLast
  refine ⟨hInv.ranges, hInv.within, ?_, ?_, ?_, ?_, ReorderBuffer.accept_holds hInv.buffer hLast.head_open⟩
  all_goals simp only [Parallel.history, hHistory]
  · exact hInv.workers
  · exact hInv.finished
  · exact hInv.unknown
  · exact hInv.finalLast

/-- A worker that has not finished moves on and may send a batch. -/
theorem worker_onCourse (hInv : s.OnCourse node plan) {i : Nat} {w w' : Worker}
    {sent : List (SequencedFetchBatch FetchResult)} (hWorker : s.workers[i]? = some w)
    (hOpen : w.finished = false) (hSent : sent = [] ∨ ∃ results isFinal, sent = [⟨i, results, isFinal⟩])
    (hRange : w'.range = w.range) (hFinalized : finalizedIn sent i = w'.finished)
    (hFinished : w'.finished = true → w'.ended = true ∧ w'.results = [])
    (hCourse : w'.OnCourse node
      (resultRows (resultsOf s.history i ++ (resultsOf sent i ++ w'.results)))) :
    ({ s with workers := s.workers.set i w', channel := s.channel ++ sent } : Parallel).OnCourse node
      plan := by
  obtain ⟨hLength, hAt⟩ := List.getElem?_eq_some_iff.mp hWorker
  have hHistory : ({ s with workers := s.workers.set i w', channel := s.channel ++ sent } :
      Parallel).history = s.history ++ sent := (List.append_assoc _ _ _).symm
  have hOther : ∀ j, j ≠ i → streamOf sent j = [] := by
    intro j hj
    rcases hSent with rfl | ⟨results, isFinal, rfl⟩
    · rfl
    · rw [streamOf_singleton, if_neg (Ne.symm hj)]
  have hKept : ∀ j, j ≠ i → streamOf (s.history ++ sent) j = streamOf s.history j := fun j hj => by
    rw [streamOf_append, hOther j hj, List.append_nil]
  have hPlace : ∀ j (v : Worker), (s.workers.set i w')[j]? = some v →
      j ≠ i ∧ s.workers[j]? = some v ∨ j = i ∧ v = w' := by
    intro j v hv
    rw [List.getElem?_set] at hv
    split at hv
    · rename_i hSame
      exact .inr ⟨hSame.symm, (Option.some.inj hv).symm⟩
    · rename_i hne
      exact .inl ⟨Ne.symm hne, hv⟩
  have hBefore : finalizedIn s.history i = false := by rw [(hInv.finished i w hWorker).1, hOpen]
  refine ⟨?_, fun v hv => ?_, fun j v hv => ?_, fun j v hv => ?_, fun j hj => ?_, ?_, hInv.buffer⟩
  · have hSame : (s.workers.set i w').map Worker.range = s.workers.map Worker.range := by
      rw [List.map_set, hRange, ← hAt, ← List.getElem_map Worker.range, List.set_getElem_self]
      simpa using hLength
    rw [hSame]
    exact hInv.ranges
  · rcases List.mem_or_eq_of_mem_set hv with hOld | rfl
    · exact hInv.within v hOld
    · have hEnd : v.subRangeEnd = w.subRangeEnd := congrArg Prod.snd hRange
      rw [hEnd]
      exact hInv.within w (List.mem_of_getElem? hWorker)
  · rw [hHistory]
    rcases hPlace j v hv with ⟨hj, hOld⟩ | ⟨rfl, rfl⟩
    · rw [resultsOf, hKept j hj]
      exact hInv.workers j v hOld
    · rw [resultsOf_append, List.append_assoc]
      exact hCourse
  · rw [hHistory]
    rcases hPlace j v hv with ⟨hj, hOld⟩ | ⟨rfl, rfl⟩
    · rw [finalizedIn, hKept j hj]
      exact hInv.finished j v hOld
    · rw [finalizedIn_append, hBefore, hFinalized, Bool.false_or]
      exact ⟨rfl, hFinished⟩
  · rw [hHistory]
    simp only [List.length_set] at hj
    rw [hKept j (by omega)]
    exact hInv.unknown j hj
  · rw [hHistory]
    rcases hSent with rfl | ⟨results, isFinal, rfl⟩
    · rw [List.append_nil]
      exact hInv.finalLast
    · exact hInv.finalLast.append hBefore

theorem fetch_onCourse (hSnapshot : plan.snapshotToBlock + 2 < 2 ^ 64)
    (hInv : s.OnCourse node plan) {i : Nat} {response : Response} {reset : Bool}
    (hKeeps : s.Keeps node (.fetch i response reset))
    (h : s.fetch node plan i response reset = some s') : s'.OnCourse node plan := by
  unfold Parallel.fetch at h
  split at h
  · cases h
  rename_i w hWorker
  split at h
  · cases h
  rename_i hRuns
  push Not at hRuns
  obtain ⟨hNotEnded, hGoes⟩ := hRuns
  have hRunning : w.ended = false := by simpa using hNotEnded
  have hOpen : w.finished = false := by
    by_contra hFinished
    have hEnded := ((hInv.finished i w hWorker).2 (by simpa using hFinished)).1
    rw [hRunning] at hEnded
    cases hEnded
  have hRange : w.subRangeEnd + 2 < 2 ^ 64 := by
    have := hInv.within w (List.mem_of_getElem? hWorker)
    omega
  have hRound := fun results => worker_round plan.originalMaxLimit reset results
    (hInv.workers i w hWorker) hRange hRunning hGoes (hKeeps w hWorker)
  simp only at h hRound
  generalize fetchLogsOnce node w.fromBlock w.toBlock w.maxBlockRangeLimitation w.subRangeEnd
    response = once at h hRound
  split at h
  · split at h
    swap
    · cases h
    obtain ⟨hCourse, hResults, hStart, hEnd, hFinished⟩ := hRound []
    cases h
    refine worker_onCourse hInv hWorker hOpen (.inr ⟨_, _, rfl⟩) (Prod.ext hStart hEnd) ?_ ?_ ?_
    · rw [hFinished, hOpen, finalizedIn_singleton, Bool.and_false]
    · rw [hFinished, hOpen]
      exact fun hNot => Bool.noConfusion hNot
    · rw [hResults, resultsOf_singleton, if_pos rfl, List.append_nil, ← List.append_assoc,
        resultRows_append, resultRows_sent]
      exact hCourse
  · obtain ⟨hCourse, hResults, hStart, hEnd, hFinished⟩ :=
      hRound (w.results ++ (once.1.map Except.ok).toList)
    cases h
    have hIdle : s.channel = s.channel ++ [] := (List.append_nil _).symm
    rw [hIdle]
    refine worker_onCourse hInv hWorker hOpen (.inl rfl) (Prod.ext hStart hEnd) ?_ ?_ ?_
    · rw [hFinished, hOpen]
      rfl
    · rw [hFinished, hOpen]
      exact fun hNot => Bool.noConfusion hNot
    · rw [hResults]
      show Worker.OnCourse node _ (resultRows (resultsOf s.history i ++ ([] ++ _)))
      rw [List.nil_append, ← List.append_assoc, resultRows_append, resultRows_sent]
      exact hCourse

theorem finish_onCourse (hInv : s.OnCourse node plan) {i : Nat} (h : s.finish plan i = some s') :
    s'.OnCourse node plan := by
  unfold Parallel.finish at h
  split at h
  · cases h
  rename_i w hWorker
  split at h
  swap
  · cases h
  rename_i hGuard
  obtain ⟨hOpen, hPast, -⟩ := hGuard
  have hAll := (hInv.workers i w hWorker).past hPast
  cases h
  refine worker_onCourse hInv hWorker (by simpa using hOpen) (.inr ⟨_, _, rfl⟩) rfl ?_ ?_ ?_
  · rw [finalizedIn_singleton]
    simp
  · exact fun _ => ⟨rfl, rfl⟩
  · rw [resultsOf_singleton, if_pos rfl, List.append_nil]
    exact ⟨fun hNot => Bool.noConfusion hNot, fun _ => hAll⟩

theorem parallel_onCourse (hSnapshot : plan.snapshotToBlock + 2 < 2 ^ 64)
    (hInv : s.OnCourse node plan) {act : ParallelAct} (hKeeps : s.Keeps node act)
    (h : s.step node plan act = some s') : s'.OnCourse node plan := by
  cases act with
  | spawn => exact spawn_onCourse hSnapshot hInv h
  | fetch i response reset => exact fetch_onCourse hSnapshot hInv hKeeps h
  | finish i => exact finish_onCourse hInv h
  | receive => exact receive_onCourse hInv h

/-! ### What is delivered -/

/-- The logs of the sub-range with a sequence id. -/
def subRangeLogs (node : NodeLogs network) (s : Parallel) (i : Nat) : List EventRow :=
  s.workers[i]?.toList.flatMap fun w => rangeLogs node w.range

theorem worker_rows_own (hInv : s.OnCourse node plan) {i : Nat} {w : Worker}
    (hWorker : s.workers[i]? = some w) :
    resultRows (resultsOf s.history i ++ w.results) <+: subRangeLogs node s i := by
  rw [subRangeLogs, hWorker, Option.toList_some, List.flatMap_singleton]
  exact (hInv.workers i w hWorker).prefix_span

theorem received_prefix (hInv : s.OnCourse node plan) (i : Nat) :
    resultRows (resultsOf s.received i) <+: subRangeLogs node s i := by
  have hReceived : resultRows (resultsOf s.received i) <+: resultRows (resultsOf s.history i) := by
    rw [Parallel.history, resultsOf_append, resultRows_append]
    exact List.prefix_append _ _
  cases hWorker : s.workers[i]? with
  | none =>
    have hNone := hInv.unknown i (List.getElem?_eq_none_iff.mp hWorker)
    refine hReceived.trans ?_
    rw [resultsOf, hNone]
    exact List.nil_prefix
  | some w =>
    refine hReceived.trans (List.IsPrefix.trans ?_ (worker_rows_own hInv hWorker))
    rw [resultRows_append]
    exact List.prefix_append _ _

/-- Of a final id, all logs of its sub-range have been received. -/
theorem received_final (hInv : s.OnCourse node plan) {i : Nat}
    (hFinal : finalizedIn s.received i = true) :
    resultRows (resultsOf s.received i) = subRangeLogs node s i := by
  have hSent : finalizedIn s.history i = true := by
    rw [Parallel.history, finalizedIn_append, hFinal, Bool.true_or]
  have hArrived := hInv.finalLast.arrived hFinal
  have hHistory : resultsOf s.history i = resultsOf s.received i := by
    rw [resultsOf, Parallel.history, streamOf_append, hArrived, List.append_nil]
    rfl
  cases hWorker : s.workers[i]? with
  | none =>
    have hNone := hInv.unknown i (List.getElem?_eq_none_iff.mp hWorker)
    rw [finalizedIn, hNone] at hSent
    cases hSent
  | some w =>
    obtain ⟨hDone, hIdle⟩ := hInv.finished i w hWorker
    obtain ⟨hEnded, hNoResults⟩ := hIdle (hDone ▸ hSent)
    have hLogs := ((hInv.workers i w hWorker).ended hEnded).logs
    rw [hNoResults, List.append_nil, hHistory] at hLogs
    rw [hLogs, subRangeLogs, hWorker, Option.toList_some, List.flatMap_singleton]
    rfl

theorem delivered_rows (hInv : s.OnCourse node plan) :
    resultRows s.delivered = (List.range s.buffer.nextExpected).flatMap (subRangeLogs node s) ++
      resultRows (resultsOf s.received s.buffer.nextExpected) := by
  rw [hInv.buffer.released, List.range_succ, List.flatMap_append, List.flatMap_singleton,
    resultRows_append]
  congr 1
  rw [resultRows, List.flatMap_assoc]
  unfold List.flatMap
  congr 1
  refine List.map_congr_left fun i hi => ?_
  exact received_final hInv (hInv.buffer.before i (List.mem_range.mp hi))

/-- The sub-ranges up to an id are the first part of the range. -/
theorem subRangeLogs_prefix (hInv : s.OnCourse node plan) (count : Nat) :
    (List.range count).flatMap (subRangeLogs node s) <+: node.span plan.startBlock s.nextFrom := by
  have hTaken : (List.range count).flatMap (subRangeLogs node s) =
      (s.workers.take count).flatMap fun w => rangeLogs node w.range :=
    flatMap_range_getElem? s.workers _ count
  have hAll : node.span plan.startBlock s.nextFrom =
      s.workers.flatMap fun w => rangeLogs node w.range := by
    rw [← hInv.ranges.logs node, List.flatMap_map]
  have hSplit := congrArg (List.flatMap fun w => rangeLogs node w.range)
    (List.take_append_drop count s.workers)
  rw [List.flatMap_append] at hSplit
  rw [hTaken, hAll, ← hSplit]
  exact List.prefix_append _ _

theorem nextFrom_span (hInv : s.OnCourse node plan) :
    node.span plan.startBlock s.nextFrom <+: node.range plan.startBlock plan.snapshotToBlock := by
  have hBound : ∀ range ∈ s.workers.map Worker.range, range.2 < plan.snapshotToBlock + 1 := by
    intro range hRange
    obtain ⟨w, hw, rfl⟩ := List.mem_map.mp hRange
    exact Nat.lt_succ_of_le (hInv.within w hw)
  rw [range_eq_span]
  rcases hInv.ranges.next_le hBound with hStart | hLe
  · rw [hStart, span_eq_nil_of_le node le_rfl]
    exact List.nil_prefix
  · rw [← span_append node hInv.ranges.le hLe]
    exact List.prefix_append _ _

theorem delivered_inOrder (hInv : s.OnCourse node plan) :
    resultRows s.delivered <+: node.range plan.startBlock plan.snapshotToBlock := by
  have hNext := received_prefix hInv s.buffer.nextExpected
  have hUpTo := subRangeLogs_prefix hInv (s.buffer.nextExpected + 1)
  rw [List.range_succ, List.flatMap_append, List.flatMap_singleton] at hUpTo
  rw [delivered_rows hInv]
  exact ((List.prefix_append_right_inj _).mpr hNext).trans (hUpTo.trans (nextFrom_span hInv))

/-- A complete fetch has delivered the logs of the whole range. -/
theorem delivered_complete (hInv : s.OnCourse node plan) (hComplete : s.Complete plan) :
    resultRows s.delivered = node.range plan.startBlock plan.snapshotToBlock := by
  obtain ⟨hPast, hFinished, hChannel⟩ := hComplete
  have hHistory : s.history = s.received := by rw [Parallel.history, hChannel, List.append_nil]
  have hAll : s.workers.length ≤ s.buffer.nextExpected := by
    by_contra hLess
    have hWorker := List.getElem?_eq_getElem (Nat.not_le.mp hLess)
    have hDone := (hInv.finished _ _ hWorker).1
    rw [hHistory, hInv.buffer.current, hFinished _ (List.getElem_mem _)] at hDone
    cases hDone
  have hNothing : resultRows (resultsOf s.received s.buffer.nextExpected) = [] := by
    rw [← hHistory, resultsOf, hInv.unknown _ hAll]
    rfl
  have hWhole : (List.range s.buffer.nextExpected).flatMap (subRangeLogs node s) =
      node.span plan.startBlock s.nextFrom := by
    rw [← hInv.ranges.logs node, List.flatMap_map]
    exact (flatMap_range_getElem? s.workers _ _).trans (by rw [List.take_of_length_le hAll])
  rw [delivered_rows hInv, hNothing, List.append_nil, hWhole, range_eq_span]
  have hBound : ∀ range ∈ s.workers.map Worker.range, range.2 < plan.snapshotToBlock + 1 := by
    intro range hRange
    obtain ⟨w, hw, rfl⟩ := List.mem_map.mp hRange
    exact Nat.lt_succ_of_le (hInv.within w hw)
  rcases hInv.ranges.next_le hBound with hStart | hLe
  · rw [hStart, span_eq_nil_of_le node le_rfl, span_eq_nil_of_le node (by omega)]
  · rw [show s.nextFrom = plan.snapshotToBlock + 1 by omega]

theorem effectiveConcurrency_pos (plan : ParallelPlan) : 0 < plan.params.effectiveConcurrency :=
  Nat.lt_min.mpr ⟨Nat.lt_of_lt_of_le Nat.one_pos (Nat.le_max_left 1 _),
    Nat.lt_of_lt_of_le Nat.one_pos (Nat.le_max_left 1 _)⟩

/-- A fetch that is not complete can go on. -/
theorem parallel_progress (hNot : ¬s.Complete plan) : ∃ act, (s.step node plan act).isSome := by
  have hRoom := effectiveConcurrency_pos plan
  cases hChannel : s.channel with
  | cons batch channel =>
    refine ⟨.receive, ?_⟩
    simp only [Parallel.step, Parallel.receive, hChannel]
    rfl
  | nil =>
    by_cases hFinished : ∀ w ∈ s.workers, w.finished = true
    · -- Every worker has finished, so that the dispatcher may start another.
      refine ⟨.spawn, ?_⟩
      have hNext : s.nextFrom ≤ plan.snapshotToBlock := by
        by_contra hPast
        exact hNot ⟨Nat.not_le.mp hPast, hFinished, hChannel⟩
      have hActive : s.workers.countP (fun w => !w.finished) = 0 :=
        List.countP_eq_zero.mpr fun w hw => by simp [hFinished w hw]
      simp only [Parallel.step, Parallel.spawn, hActive]
      rw [if_pos ⟨hNext, hRoom⟩]
      rfl
    · push Not at hFinished
      obtain ⟨w, hw, hOpen⟩ := hFinished
      obtain ⟨i, hi, hAt⟩ := List.getElem_of_mem hw
      have hWorker : s.workers[i]? = some w := by rw [List.getElem?_eq_getElem hi, hAt]
      have hFree : s.hasRoom plan = true := by
        simp only [Parallel.hasRoom, hChannel, List.length_nil, decide_eq_true_eq]
        omega
      by_cases hPast : w.ended = true ∨ w.subRangeEnd < w.fromBlock
      · refine ⟨.finish i, ?_⟩
        simp only [Parallel.step, Parallel.finish, hWorker]
        rw [if_pos ⟨by simpa using hOpen, hPast, hFree⟩]
        rfl
      · refine ⟨.fetch i (.logs true) false, ?_⟩
        simp only [Parallel.step, Parallel.fetch, hWorker]
        rw [if_neg hPast, hFree]
        split <;> rfl

end Steps

/-- In a parallel fetch whose workers all keep their place, every state matches the sequential fetch. -/
theorem workers_in_place_match_sequential {network : String} (node : NodeLogs network)
    (plan : ParallelPlan) (hSnapshot : plan.snapshotToBlock + 2 < 2 ^ 64) (acts : List ParallelAct)
    (hKeeps : Meets (Parallel.step node plan) (Parallel.Keeps node) (.start plan) acts) :
    Always (Parallel.step node plan) (MatchesSequential node plan) (.start plan) acts := by
  have hAlways : Always (Parallel.step node plan) (Parallel.OnCourse node plan) (.start plan) acts :=
    always_of_invariant (fun s act s' hInv hAct h => parallel_onCourse hSnapshot hInv hAct h)
      start_parallel_onCourse hKeeps
  refine hAlways.mono fun s hInv => ⟨delivered_inOrder hInv, fun i w hWorker r hr => ?_,
    fun hComplete behaviour hCovers => ?_, parallel_progress⟩
  · have hOwn := (worker_rows_own hInv hWorker).subset hr
    rw [subRangeLogs, hWorker, Option.toList_some, List.flatMap_singleton] at hOwn
    have hIn := mem_range node (show r ∈ node.range w.subRangeStart w.subRangeEnd from hOwn)
    exact ⟨hIn.1, hIn.2.1⟩
  · obtain ⟨-, ⟨n, hPast⟩, hAll⟩ := hCovers
    exact ⟨n, hPast, (delivered_complete hInv hComplete).trans (hAll n hPast).symm⟩

/-- One worker, which meets an error, fetches twice, and finishes. -/
def smallFetch : List ParallelAct :=
  [.spawn, .fetch 0 (.error ⟨"error decoding response body", ""⟩) false, .fetch 0 (.logs true) false,
    .fetch 0 (.logs true) false, .finish 0, .receive]

theorem workers_in_place_match_sequential_small :
    Always (Parallel.step (transferLogs "a") ⟨0, 9, none, 2⟩)
      (MatchesSequential (transferLogs "a") ⟨0, 9, none, 2⟩) (.start ⟨0, 9, none, 2⟩) smallFetch := by
  refine workers_in_place_match_sequential (transferLogs "a") ⟨0, 9, none, 2⟩ (by decide) smallFetch ?_
  refine .cons rfl trivial (.cons rfl ?_ (.cons rfl ?_ (.cons rfl ?_ (.cons rfl trivial
    (.cons rfl trivial trivial)))))
  · intro w hw _
    cases hw
    refine ⟨?_, fun range _ hLast => by cases hLast⟩
    show 0 + max ((9 - 0) / 2) 2 ≤ 9
    decide
  · intro w hw _
    cases hw
    exact ⟨fun _ l hl => (by cases hl), fun range hFailed => by cases hFailed⟩
  · intro w hw _
    cases hw
    exact ⟨fun _ l hl => (by cases hl), fun range hFailed => by cases hFailed⟩

/-- A node with one transfer, in block 1001. -/
def loneTransfer : NodeLogs transfers.network where
  logs n := if n = 1001 then [⟨"ethereum", n, "a", fun _ => .null⟩] else []
  placed n r hMem := by
    split at hMem
    · rw [List.mem_singleton.mp hMem]
      exact ⟨rfl, rfl⟩
    · cases hMem

/-- A hint that ends past the sub-range makes a worker deliver logs of the next one. -/
theorem hint_leaves_subrange :
    ¬ ∀ (network : String) (node : NodeLogs network) (plan : ParallelPlan)
        (acts : List ParallelAct),
      Always (Parallel.step node plan) (MatchesSequential node plan) (.start plan) acts := by
  intro hClaim
  have hRun := hClaim _ loneTransfer ⟨0, 1001, none, 2⟩ [.spawn,
    .fetch 0 (.error ⟨"this block range should work: [0x3e6, 0x3e9]", ""⟩) false,
    .fetch 0 (.logs true) false]
  have hOwn := (((hRun.2 _ rfl).2 _ rfl).2 _ rfl).ownRange 0 _ rfl _ List.mem_cons_self
  exact absurd hOwn.2 (by decide)

end Rindexer.Indexer
