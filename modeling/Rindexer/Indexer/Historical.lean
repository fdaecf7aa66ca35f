import Rindexer.Indexer.InFlight
import Rindexer.Indexer.Retry

/-! The sequential historical fetch: one request after another, up to the snapshot block, with the
range of the next request taken from the last answer or error. -/

namespace Rindexer.Indexer

open Rindexer.Database

/-- What comes back for a request: the logs of its range, with or without the timestamps that they
need, or an error. -/
inductive Response
  | logs (timestamped : Bool)
  | error (error : FetchError)
deriving DecidableEq, Repr

/-- Whether the logs of the request are sent on. -/
def Response.sends : Response → Bool
  | .logs timestamped => timestamped
  | .error _ => false

/-- The next range, and the limit on ranges. -/
structure ProcessHistoricLogsStreamResult where
  fromBlock : Nat
  toBlock : Nat
  maxBlockRangeLimitation : Option Nat
deriving DecidableEq, Repr

/-- One round of a fetch: the range that is requested, the batch that is sent, and what is next. -/
structure FetchRound where
  requested : Option (Nat × Nat)
  sent : Option Batch
  next : ProcessHistoricLogsStreamResult

/-- The range after the logs of a range. -/
def rangeAfterLogs (toBlock snapshotToBlock : Nat) (limit : Option Nat) (rows : List EventRow) :
    ProcessHistoricLogsStreamResult :=
  let nextFromBlock := nextBlock toBlock rows % 2 ^ 64
  ⟨nextFromBlock,
    if snapshotToBlock < nextFromBlock then nextFromBlock
    else calculateProcessHistoricLogToBlock nextFromBlock snapshotToBlock limit, limit⟩

def fetchHistoricLogsStream {network : String} (node : NodeLogs network)
    (fromBlock toBlock : Nat) (limit : Option Nat) (snapshotToBlock : Nat) (response : Response) :
    FetchRound :=
  if toBlock < fromBlock then ⟨none, none, ⟨toBlock, wrappingAdd toBlock 1, limit⟩⟩
  else
    match response with
    | .logs true =>
      let rows := node.range fromBlock toBlock
      ⟨some (fromBlock, toBlock), some ⟨fromBlock, toBlock, rows⟩,
        rangeAfterLogs toBlock snapshotToBlock limit rows⟩
    | .logs false =>
      ⟨some (fromBlock, toBlock), none, ⟨fromBlock, halvedBlockNumber toBlock fromBlock, limit⟩⟩
    | .error error =>
      let retry := rangeAfterError error fromBlock toBlock limit
      ⟨some (fromBlock, toBlock), none, ⟨retry.fromBlock, retry.toBlock, retry.maxBlockRange⟩⟩

/-- The sequential fetch of an event: the range to request next and its limit, and the requests made
and the logs sent so far. -/
structure Historic where
  fromBlock : Nat
  toBlock : Nat
  maxBlockRangeLimitation : Option Nat
  requested : List (Nat × Nat)
  delivered : List EventRow

/-- The fetch before its first request. -/
def Historic.start (startBlock snapshotToBlock : Nat) (limit : Option Nat) : Historic where
  fromBlock := startBlock
  toBlock := calculateProcessHistoricLogToBlock startBlock snapshotToBlock limit
  maxBlockRangeLimitation := limit
  requested := []
  delivered := []

/-- A round of the loop, which ends past the snapshot.  At times the limit goes back to the first. -/
def Historic.round {network : String} (node : NodeLogs network) (snapshotToBlock : Nat)
    (originalMaxLimit : Option Nat) (s : Historic) (response : Response) (reset : Bool) : Historic :=
  if snapshotToBlock < s.fromBlock then s
  else
    let result := fetchHistoricLogsStream node s.fromBlock s.toBlock s.maxBlockRangeLimitation
      snapshotToBlock response
    { fromBlock := result.next.fromBlock
      toBlock := result.next.toBlock
      maxBlockRangeLimitation :=
        if reset then originalMaxLimit else result.next.maxBlockRangeLimitation
      requested := s.requested ++ result.requested.toList
      delivered := s.delivered ++ (result.sent.map Batch.rows).getD [] }

/-- What comes back in each round, and whether the limit is reset after it. -/
abbrev Behaviour : Type := Nat → Response × Bool

/-- Only finitely many rounds bring no logs. -/
def Behaviour.Recovers (behaviour : Behaviour) : Prop :=
  ∃ last, ∀ n, last ≤ n → (behaviour n).1.sends = true

/-- The fetch after a number of rounds. -/
def Historic.after {network : String} (node : NodeLogs network) (startBlock snapshotToBlock : Nat)
    (limit : Option Nat) (behaviour : Behaviour) : Nat → Historic
  | 0 => .start startBlock snapshotToBlock limit
  | n + 1 =>
    (after node startBlock snapshotToBlock limit behaviour n).round node snapshotToBlock limit
      (behaviour n).1 (behaviour n).2

/-- No request reaches past the snapshot, and the fetch ends, with the logs of the blocks from the
start to the snapshot, each once and in order. -/
def CoversHistory {network : String} (node : NodeLogs network) (startBlock snapshotToBlock : Nat)
    (limit : Option Nat) (behaviour : Behaviour) : Prop :=
  let fetch := Historic.after node startBlock snapshotToBlock limit behaviour
  (∀ n, ∀ r ∈ (fetch n).requested, r.2 ≤ snapshotToBlock) ∧
    (∃ n, snapshotToBlock < (fetch n).fromBlock) ∧
    ∀ n, snapshotToBlock < (fetch n).fromBlock →
      (fetch n).delivered = node.range startBlock snapshotToBlock

/-! ### Logs between blocks -/

section Spans

variable {network : String} (node : NodeLogs network)

/-- The logs of the blocks from one on, below another. -/
def NodeLogs.span (fromBlock below : Nat) : List EventRow :=
  (List.range' fromBlock (below - fromBlock)).flatMap node.logs

/-- There are no logs between two blocks. -/
def NodeLogs.Quiet (a b : Nat) : Prop := ∀ n, min a b ≤ n → n < max a b → node.logs n = []

theorem range_eq_span (fromBlock toBlock : Nat) :
    node.range fromBlock toBlock = node.span fromBlock (toBlock + 1) := rfl

theorem span_append {a b c : Nat} (hab : a ≤ b) (hbc : b ≤ c) :
    node.span a b ++ node.span b c = node.span a c := by
  unfold NodeLogs.span
  have hCount : c - a = (b - a) + (c - b) := by omega
  rw [← List.flatMap_append, hCount, ← List.range'_append_1]
  rw [show a + (b - a) = b by omega]

theorem span_eq_nil_of_le {a b : Nat} (h : b ≤ a) : node.span a b = [] := by
  unfold NodeLogs.span
  rw [Nat.sub_eq_zero_of_le h]
  rfl

variable {node}

theorem NodeLogs.Quiet.span_eq_nil {a b : Nat} (h : node.Quiet a b) : node.span a b = [] := by
  rcases Nat.le_total b a with hLe | hLe
  · exact span_eq_nil_of_le node hLe
  · unfold NodeLogs.span
    rw [List.flatMap_eq_nil_iff]
    intro n hn
    rw [List.mem_range'_1] at hn
    exact h n (by omega) (by omega)

theorem NodeLogs.Quiet.symm {a b : Nat} (h : node.Quiet a b) : node.Quiet b a := by
  intro n hLow hHigh
  exact h n (by omega) (by omega)

theorem NodeLogs.Quiet.refl (a : Nat) : node.Quiet a a := by
  intro n hLow hHigh
  omega

theorem NodeLogs.Quiet.sub {a b c d : Nat} (h : node.Quiet a b) (hLow : min a b ≤ min c d)
    (hHigh : max c d ≤ max a b) : node.Quiet c d := by
  intro n hn hn'
  exact h n (by omega) (by omega)

theorem NodeLogs.Quiet.trans {a b c : Nat} (h : node.Quiet a b) (h' : node.Quiet b c) :
    node.Quiet a c := by
  intro n hLow hHigh
  by_cases hFirst : min a b ≤ n ∧ n < max a b
  · exact h n hFirst.1 hFirst.2
  · exact h' n (by omega) (by omega)

variable (node)

/-- What was delivered are the logs from the start up to a block. -/
structure DeliveredTo (start reached : Nat) (delivered : List EventRow) : Prop where
  logs : delivered = node.span start reached
  before : reached < start → node.Quiet reached start

variable {node} {start reached reached' : Nat} {delivered : List EventRow}

theorem DeliveredTo.move (h : DeliveredTo node start reached delivered)
    (hQuiet : node.Quiet reached' reached) : DeliveredTo node start reached' delivered := by
  rcases Nat.lt_or_ge reached start with hBefore | hBefore
  · have hToStart : node.Quiet reached' start := hQuiet.trans (h.before hBefore)
    refine ⟨?_, fun _ => hToStart⟩
    rw [h.logs, span_eq_nil_of_le node hBefore.le, hToStart.symm.span_eq_nil]
  · rcases Nat.lt_or_ge reached' start with hBefore' | hBefore'
    · refine ⟨?_, fun _ => hQuiet.sub (by omega) (by omega)⟩
      have hNone : node.Quiet start reached := hQuiet.sub (by omega) (by omega)
      rw [h.logs, hNone.span_eq_nil, span_eq_nil_of_le node hBefore'.le]
    · refine ⟨?_, fun hLess => absurd hLess (by omega)⟩
      rw [h.logs]
      rcases Nat.le_total reached reached' with hLe | hLe
      · rw [← span_append node hBefore hLe, hQuiet.symm.span_eq_nil, List.append_nil]
      · rw [← span_append node hBefore' hLe, hQuiet.span_eq_nil, List.append_nil]

theorem DeliveredTo.extend (h : DeliveredTo node start reached delivered)
    (hLe : reached ≤ reached') :
    DeliveredTo node start reached' (delivered ++ node.span reached reached') := by
  rcases Nat.lt_or_ge reached start with hBefore | hBefore
  · have hQuiet := h.before hBefore
    have hNone : delivered = [] := h.logs.trans (span_eq_nil_of_le node hBefore.le)
    rw [hNone, List.nil_append]
    rcases Nat.lt_or_ge reached' start with hBefore' | hBefore'
    · refine ⟨?_, fun _ => hQuiet.sub (by omega) (by omega)⟩
      have hNoLogs : node.Quiet reached reached' := hQuiet.sub (by omega) (by omega)
      rw [hNoLogs.span_eq_nil, span_eq_nil_of_le node hBefore'.le]
    · refine ⟨?_, fun hLess => absurd hLess (by omega)⟩
      rw [← span_append node hBefore.le hBefore', hQuiet.span_eq_nil, List.nil_append]
  · refine ⟨?_, fun hLess => absurd hLess (by omega)⟩
    rw [h.logs, span_append node hBefore hLe]

end Spans

/-! ### Errors that keep the place -/

/-- The range that an error leads to ends at or before the snapshot, and no logs lie between its start
and the start of the failed request. -/
def FetchError.KeepsPlace {network : String} (node : NodeLogs network)
    (snapshotToBlock fromBlock toBlock : Nat) (limit : Option Nat) (error : FetchError) : Prop :=
  match error.advice with
  | .range hintFrom hintTo =>
    max hintFrom hintTo ≤ snapshotToBlock ∧ node.Quiet (min hintFrom hintTo) fromBlock
  | .upTo hintTo => hintTo ≤ snapshotToBlock ∧ node.Quiet (min fromBlock hintTo) fromBlock
  | .atMost blocks => fromBlock + (limit.map (min · blocks)).getD blocks ≤ snapshotToBlock
  | .halve => fromBlock + max ((toBlock - fromBlock) / 2) 2 ≤ snapshotToBlock
  | .unknown => fromBlock = toBlock → fromBlock + 2 ≤ snapshotToBlock

/-- After logs, the limit does not carry the next range past 64 bits; where timestamps are missing,
half of the range ends at or before the snapshot. -/
def Response.KeepsPlace {network : String} (node : NodeLogs network)
    (snapshotToBlock fromBlock toBlock : Nat) (limit : Option Nat) : Response → Prop
  | .logs true =>
    let nextFromBlock := nextBlock toBlock (node.range fromBlock toBlock)
    nextFromBlock ≤ snapshotToBlock → ∀ l ∈ limit, nextFromBlock + l < 2 ^ 64
  | .logs false => fromBlock + max ((toBlock - fromBlock) / 2) 2 ≤ snapshotToBlock
  | .error e => e.KeepsPlace node snapshotToBlock fromBlock toBlock limit

theorem halvedBlockNumber_eq {toBlock fromBlock : Nat} (hLe : fromBlock ≤ toBlock)
    (hRange : toBlock + 2 < 2 ^ 64) :
    halvedBlockNumber toBlock fromBlock = fromBlock + max ((toBlock - fromBlock) / 2) 2 := by
  unfold halvedBlockNumber
  rw [wrappingSub_eq hLe (by omega), wrappingAdd_eq (by omega), wrappingAdd_eq (by omega)]
  omega

section Round

variable {network : String} {node : NodeLogs network} {snapshotToBlock fromBlock toBlock : Nat}
  {limit : Option Nat}

theorem suggestRange_end {blocks bound : Nat}
    (hEnd : fromBlock + (limit.map (min · blocks)).getD blocks ≤ bound) (hBound : bound < 2 ^ 64) :
    (suggestRange fromBlock blocks limit).toBlock =
      fromBlock + (limit.map (min · blocks)).getD blocks :=
  wrappingAdd_eq (Nat.lt_of_le_of_lt hEnd hBound)

/-- An error that says nothing shrinks a range of several blocks. -/
theorem fallback_shrinks (hLess : fromBlock < toBlock) (hRange : toBlock < 2 ^ 64)
    {error : FetchError} (hAdvice : error.advice = .unknown) :
    (rangeAfterError error fromBlock toBlock limit).fromBlock = fromBlock ∧
      fromBlock ≤ (rangeAfterError error fromBlock toBlock limit).toBlock ∧
      (rangeAfterError error fromBlock toBlock limit).toBlock ≤ toBlock := by
  have hDiff : wrappingSub toBlock fromBlock = toBlock - fromBlock :=
    wrappingSub_eq hLess.le hRange
  have hFirst := FallbackBlockRange.fromDiff_le (show 0 < toBlock - fromBlock by omega)
  have hLower := FallbackBlockRange.lower_le (FallbackBlockRange.fromDiff_pos (toBlock - fromBlock))
  generalize hRangeEq : FallbackBlockRange.fromDiff (toBlock - fromBlock) = range at hFirst hLower
  simp only [rangeAfterError, retryWithBlockRange, hAdvice, if_pos hLess, hDiff, hRangeEq]
  rw [wrappingAdd_eq (show fromBlock + range < 2 ^ 64 by omega)]
  obtain ⟨lowered, hLoweredEq, hLowered⟩ : ∃ lowered,
      (if fromBlock + range = toBlock then FallbackBlockRange.lower range else range) = lowered ∧
        lowered ≤ range := by
    refine ⟨_, rfl, ?_⟩
    split
    · exact hLower
    · exact le_rfl
  rw [hLoweredEq, wrappingAdd_eq (show fromBlock + lowered < 2 ^ 64 by omega),
    if_neg (by omega)]
  have hSuggested : (limit.map (min · lowered)).getD lowered ≤ lowered := by
    cases limit with
    | none => exact le_rfl
    | some l => exact Nat.min_le_right l lowered
  rw [Option.getD_some]
  rw [suggestRange_end (show fromBlock + (limit.map (min · lowered)).getD lowered ≤ toBlock by omega)
    hRange]
  exact ⟨rfl, by omega, by omega⟩

/-- After an error that keeps the place, so does the next range. -/
theorem rangeAfterError_keeps (hLe : fromBlock ≤ toBlock) (hTo : toBlock ≤ snapshotToBlock)
    (hSnapshot : snapshotToBlock + 2 < 2 ^ 64) {error : FetchError}
    (h : error.KeepsPlace node snapshotToBlock fromBlock toBlock limit) :
    max (rangeAfterError error fromBlock toBlock limit).fromBlock
        (rangeAfterError error fromBlock toBlock limit).toBlock ≤ snapshotToBlock ∧
      node.Quiet (min (rangeAfterError error fromBlock toBlock limit).fromBlock
        (rangeAfterError error fromBlock toBlock limit).toBlock) fromBlock := by
  have hHalved := halvedBlockNumber_eq hLe (show toBlock + 2 < 2 ^ 64 by omega)
  unfold FetchError.KeepsPlace at h
  cases hAdvice : error.advice with
  | range hintFrom hintTo =>
    rw [hAdvice] at h
    simpa only [rangeAfterError, retryWithBlockRange, hAdvice, Option.getD_some] using h
  | upTo hintTo =>
    rw [hAdvice] at h
    simp only [rangeAfterError, retryWithBlockRange, hAdvice, Option.getD_some]
    exact ⟨Nat.max_le.mpr ⟨by omega, h.1⟩, h.2⟩
  | atMost blocks =>
    rw [hAdvice] at h
    simp only [rangeAfterError, retryWithBlockRange, hAdvice, Option.getD_some]
    rw [suggestRange_end h (by omega)]
    have hStart : (suggestRange fromBlock blocks limit).fromBlock = fromBlock := rfl
    rw [hStart, Nat.min_eq_left (by omega)]
    exact ⟨Nat.max_le.mpr ⟨by omega, h⟩, .refl fromBlock⟩
  | halve =>
    rw [hAdvice] at h
    simp only [rangeAfterError, retryWithBlockRange, hAdvice, Option.getD_some, hHalved]
    rw [Nat.min_eq_left (by omega)]
    exact ⟨Nat.max_le.mpr ⟨by omega, h⟩, .refl fromBlock⟩
  | unknown =>
    rw [hAdvice] at h
    rcases Nat.lt_or_eq_of_le hLe with hLess | hSame
    · obtain ⟨hFrom, hLow, hHigh⟩ := fallback_shrinks hLess (by omega) hAdvice
      rw [hFrom, Nat.min_eq_left hLow]
      exact ⟨Nat.max_le.mpr ⟨by omega, by omega⟩, .refl fromBlock⟩
    · have hRoom := h hSame
      simp only [rangeAfterError, retryWithBlockRange, hAdvice, if_neg (show ¬fromBlock < toBlock by
        omega), Option.getD_none, hHalved]
      rw [Nat.min_eq_left (by omega)]
      exact ⟨Nat.max_le.mpr ⟨by omega, by omega⟩, .refl fromBlock⟩

/-- The range from a block up to the snapshot that the limit leaves is in order. -/
theorem calculateProcessHistoricLogToBlock_within {start : Nat} (hStart : start ≤ snapshotToBlock)
    (hLimit : ∀ l ∈ limit, start + l < 2 ^ 64) :
    start ≤ calculateProcessHistoricLogToBlock start snapshotToBlock limit ∧
      calculateProcessHistoricLogToBlock start snapshotToBlock limit ≤ snapshotToBlock := by
  cases limit with
  | none => exact ⟨hStart, le_rfl⟩
  | some l =>
    simp only [calculateProcessHistoricLogToBlock, wrappingAdd_eq (hLimit l rfl)]
    split
    · exact ⟨hStart, le_rfl⟩
    · exact ⟨by omega, by omega⟩

/-- After logs, the next range starts past the last of them, at most one block past the end. -/
theorem rangeAfterLogs_advances (hLe : fromBlock ≤ toBlock) (hTo : toBlock ≤ snapshotToBlock)
    (hSnapshot : snapshotToBlock + 2 < 2 ^ 64)
    (h : (Response.logs true).KeepsPlace node snapshotToBlock fromBlock toBlock limit) :
    let next := rangeAfterLogs toBlock snapshotToBlock limit (node.range fromBlock toBlock)
    fromBlock < next.fromBlock ∧ node.range fromBlock toBlock = node.span fromBlock next.fromBlock ∧
      next.fromBlock ≤ next.toBlock ∧
      (next.toBlock ≤ snapshotToBlock ∨
        next.fromBlock = snapshotToBlock + 1 ∧ next.toBlock = snapshotToBlock + 1) := by
  have hNextLe : nextBlock toBlock (node.range fromBlock toBlock) ≤ toBlock + 1 :=
    nextBlock_le fun r hr => (mem_range node hr).2.1
  have hForward : fromBlock < nextBlock toBlock (node.range fromBlock toBlock) := by
    unfold nextBlock
    cases hLast : (node.range fromBlock toBlock).getLast? with
    | none => exact Nat.lt_succ_of_le hLe
    | some last => exact Nat.lt_succ_of_le (mem_range node (List.mem_of_getLast? hLast)).1
  have hRows := range_eq_to_nextBlock node fromBlock toBlock
  simp only [Response.KeepsPlace] at h
  generalize hNext : nextBlock toBlock (node.range fromBlock toBlock) = next at *
  simp only [rangeAfterLogs, hNext, Nat.mod_eq_of_lt (show next < 2 ^ 64 by omega)]
  refine ⟨hForward, hRows, ?_⟩
  split
  · rename_i hPast
    exact ⟨le_rfl, .inr ⟨by omega, by omega⟩⟩
  · rename_i hWithin
    obtain ⟨hLow, hHigh⟩ := calculateProcessHistoricLogToBlock_within (Nat.not_lt.mp hWithin)
      (h (Nat.not_lt.mp hWithin))
    exact ⟨hLow, .inl hHigh⟩

end Round

/-! ### The whole fetch -/

section Fetch

variable {network : String} {node : NodeLogs network} {startBlock snapshotToBlock : Nat}

/-- The block that the fetch has reached: a reversed range starts over at its end. -/
def Historic.reached (s : Historic) : Nat := min s.fromBlock s.toBlock

/-- The fetch has sent the logs up to the block that it has reached, and asks for no block past the
snapshot. -/
structure Historic.OnCourse (node : NodeLogs network) (startBlock snapshotToBlock : Nat)
    (s : Historic) : Prop where
  delivered : DeliveredTo node startBlock s.reached s.delivered
  requested : ∀ r ∈ s.requested, r.2 ≤ snapshotToBlock
  place : max s.fromBlock s.toBlock ≤ snapshotToBlock ∨
    s.fromBlock = snapshotToBlock + 1 ∧ s.toBlock = snapshotToBlock + 1

/-- What comes back keeps the place of a fetch that goes on. -/
def Historic.Keeps (node : NodeLogs network) (snapshotToBlock : Nat) (s : Historic)
    (response : Response) : Prop :=
  s.fromBlock ≤ s.toBlock →
    response.KeepsPlace node snapshotToBlock s.fromBlock s.toBlock s.maxBlockRangeLimitation

/-- Blocks left, twice, and one more where the range is reversed. -/
def Historic.left (snapshotToBlock : Nat) (s : Historic) : Nat :=
  2 * (snapshotToBlock + 1 - s.reached) + if s.toBlock < s.fromBlock then 1 else 0

/-- A round keeps the fetch on course, and a round that sends logs leaves less to do. -/
theorem round_onCourse {s : Historic} (limit : Option Nat) {response : Response} (reset : Bool)
    (hSnapshot : snapshotToBlock + 2 < 2 ^ 64) (hInv : s.OnCourse node startBlock snapshotToBlock)
    (hGoes : s.fromBlock ≤ snapshotToBlock) (hKeeps : s.Keeps node snapshotToBlock response) :
    (s.round node snapshotToBlock limit response reset).OnCourse node startBlock snapshotToBlock ∧
      (response.sends = true →
        (s.round node snapshotToBlock limit response reset).left snapshotToBlock <
          s.left snapshotToBlock) := by
  have hPlace : max s.fromBlock s.toBlock ≤ snapshotToBlock := by
    rcases hInv.place with hPlace | ⟨hFrom, -⟩
    · exact hPlace
    · omega
  have hDelivered := hInv.delivered
  unfold Historic.reached at hDelivered
  by_cases hReversed : s.toBlock < s.fromBlock
  · -- A reversed range is put in order.
    simp only [Historic.round, if_neg (Nat.not_lt.mpr hGoes), fetchHistoricLogsStream,
      if_pos hReversed, wrappingAdd_eq (show s.toBlock + 1 < 2 ^ 64 by omega)]
    rw [Nat.min_eq_right hReversed.le] at hDelivered
    refine ⟨⟨?_, ?_, ?_⟩, fun _ => ?_⟩
    · simpa [Historic.reached] using hDelivered
    · simpa using hInv.requested
    · exact .inl (by simp only; omega)
    · simp only [Historic.left, Historic.reached, if_pos hReversed]
      rw [if_neg (by omega)]
      omega
  have hLe : s.fromBlock ≤ s.toBlock := Nat.not_lt.mp hReversed
  rw [Nat.min_eq_left hLe] at hDelivered
  have hTo : s.toBlock ≤ snapshotToBlock := by omega
  have hRequested : ∀ r ∈ s.requested ++ [(s.fromBlock, s.toBlock)], r.2 ≤ snapshotToBlock := by
    intro r hr
    rcases List.mem_append.mp hr with hOld | hNew
    · exact hInv.requested r hOld
    · rw [List.mem_singleton.mp hNew]
      exact hTo
  have hKept := hKeeps hLe
  unfold Historic.round fetchHistoricLogsStream
  rw [if_neg (Nat.not_lt.mpr hGoes), if_neg hReversed]
  match response, hKept with
  | .logs true, hKept =>
    obtain ⟨hForward, hRows, hOrdered, hEnd⟩ := rangeAfterLogs_advances hLe hTo hSnapshot hKept
    have hReached := hDelivered.extend hForward.le
    rw [← hRows] at hReached
    refine ⟨⟨?_, hRequested, ?_⟩, fun _ => ?_⟩
    · simpa [Historic.reached, Nat.min_eq_left hOrdered] using hReached
    · rcases hEnd with hWithin | hPast
      · exact .inl (Nat.max_le.mpr ⟨hOrdered.trans hWithin, hWithin⟩)
      · exact .inr hPast
    · simp only [Historic.left, Historic.reached, if_neg (Nat.not_lt.mpr hOrdered), if_neg hReversed,
        Nat.min_eq_left hOrdered, Nat.min_eq_left hLe]
      omega
  | .logs false, hKept =>
    have hHalved := halvedBlockNumber_eq hLe (show s.toBlock + 2 < 2 ^ 64 by omega)
    have hEnd : s.fromBlock + max ((s.toBlock - s.fromBlock) / 2) 2 ≤ snapshotToBlock := hKept
    refine ⟨⟨?_, hRequested, .inl ?_⟩, fun hSends => nomatch hSends⟩
    · simp only [Historic.reached, hHalved, Option.map_none, Option.getD_none, List.append_nil]
      rw [Nat.min_eq_left (by omega)]
      exact hDelivered
    · simp only [hHalved]
      exact Nat.max_le.mpr ⟨by omega, hEnd⟩
  | .error e, hKept =>
    obtain ⟨hEnd, hQuiet⟩ := rangeAfterError_keeps hLe hTo hSnapshot hKept
    refine ⟨⟨?_, hRequested, .inl hEnd⟩, fun hSends => nomatch hSends⟩
    simp only [Historic.reached, Option.map_none, Option.getD_none, List.append_nil]
    exact hDelivered.move hQuiet

theorem round_past {s : Historic} (limit : Option Nat) (response : Response) (reset : Bool)
    (hPast : snapshotToBlock < s.fromBlock) :
    s.round node snapshotToBlock limit response reset = s := if_pos hPast

theorem start_onCourse {limit : Option Nat} (hStart : startBlock ≤ snapshotToBlock)
    (hLimit : ∀ l ∈ limit, startBlock + l < 2 ^ 64) :
    (Historic.start startBlock snapshotToBlock limit).OnCourse node startBlock snapshotToBlock := by
  have hTo := calculateProcessHistoricLogToBlock_within hStart hLimit
  have hReached : (Historic.start startBlock snapshotToBlock limit).reached = startBlock :=
    Nat.min_eq_left hTo.1
  refine ⟨?_, fun r hr => absurd hr List.not_mem_nil, .inl (Nat.max_le.mpr ⟨hStart, hTo.2⟩)⟩
  rw [hReached]
  exact ⟨(span_eq_nil_of_le node le_rfl).symm, fun hLess => absurd hLess (Nat.lt_irrefl _)⟩

/-- The fetch is on course after any number of rounds that keep its place. -/
theorem after_onCourse {limit : Option Nat} {behaviour : Behaviour}
    (hSnapshot : snapshotToBlock + 2 < 2 ^ 64) (hStart : startBlock ≤ snapshotToBlock)
    (hLimit : ∀ l ∈ limit, startBlock + l < 2 ^ 64)
    (hKeeps : ∀ n, (Historic.after node startBlock snapshotToBlock limit behaviour n).Keeps node
      snapshotToBlock (behaviour n).1) (n : Nat) :
    (Historic.after node startBlock snapshotToBlock limit behaviour n).OnCourse node startBlock
      snapshotToBlock := by
  induction n with
  | zero => exact start_onCourse hStart hLimit
  | succ n ih =>
    rw [Historic.after]
    by_cases hPast :
        snapshotToBlock < (Historic.after node startBlock snapshotToBlock limit behaviour n).fromBlock
    · rw [round_past _ _ _ hPast]
      exact ih
    · exact (round_onCourse limit _ hSnapshot ih (Nat.not_lt.mp hPast) (hKeeps n)).1

/-- Once every round sends logs, the fetch gets past the snapshot. -/
theorem after_ends {limit : Option Nat} {behaviour : Behaviour}
    (hSnapshot : snapshotToBlock + 2 < 2 ^ 64) (hStart : startBlock ≤ snapshotToBlock)
    (hLimit : ∀ l ∈ limit, startBlock + l < 2 ^ 64)
    (hKeeps : ∀ n, (Historic.after node startBlock snapshotToBlock limit behaviour n).Keeps node
      snapshotToBlock (behaviour n).1) (left last : Nat)
    (hSends : ∀ n, last ≤ n → (behaviour n).1.sends = true)
    (hLeft : (Historic.after node startBlock snapshotToBlock limit behaviour last).left
      snapshotToBlock ≤ left) :
    ∃ n, snapshotToBlock <
      (Historic.after node startBlock snapshotToBlock limit behaviour n).fromBlock := by
  induction left generalizing last with
  | zero =>
    refine ⟨last, ?_⟩
    unfold Historic.left Historic.reached at hLeft
    omega
  | succ left ih =>
    by_cases hPast : snapshotToBlock <
        (Historic.after node startBlock snapshotToBlock limit behaviour last).fromBlock
    · exact ⟨last, hPast⟩
    · have hOn := after_onCourse hSnapshot hStart hLimit hKeeps last
      obtain ⟨-, hRound⟩ := round_onCourse limit (behaviour last).2 hSnapshot hOn
        (Nat.not_lt.mp hPast) (hKeeps last)
      have hLess := hRound (hSends last le_rfl)
      refine ih (last + 1) (fun n hn => hSends n (by omega)) ?_
      rw [Historic.after]
      omega

/-- Nothing is left of a history that starts past the snapshot. -/
theorem covers_of_past {limit : Option Nat} {behaviour : Behaviour}
    (hNone : snapshotToBlock < startBlock) :
    CoversHistory node startBlock snapshotToBlock limit behaviour := by
  have hIdle : ∀ n, Historic.after node startBlock snapshotToBlock limit behaviour n =
      .start startBlock snapshotToBlock limit := by
    intro n
    induction n with
    | zero => rfl
    | succ n ih =>
      rw [Historic.after, ih]
      exact round_past limit _ _ hNone
  refine ⟨fun n r hr => ?_, ⟨0, hNone⟩, fun n _ => ?_⟩
  · rw [hIdle] at hr
    exact absurd hr List.not_mem_nil
  · rw [hIdle, range_eq_span]
    exact (span_eq_nil_of_le node hNone).symm

/-- The logs of a fetch that is on course and past the snapshot are those of the history. -/
theorem Historic.OnCourse.covered {s : Historic} (h : s.OnCourse node startBlock snapshotToBlock)
    (hPast : snapshotToBlock < s.fromBlock) :
    s.delivered = node.range startBlock snapshotToBlock := by
  obtain ⟨hDelivered, -, hPlace⟩ := h
  have hReached : s.reached = snapshotToBlock + 1 := by
    unfold Historic.reached
    omega
  rw [hReached] at hDelivered
  exact hDelivered.logs

end Fetch

/-- A historical fetch whose errors all keep its place covers the history. -/
theorem errors_in_place_cover_history {network : String} (node : NodeLogs network)
    (startBlock snapshotToBlock : Nat) (limit : Option Nat) (behaviour : Behaviour)
    (hSnapshot : snapshotToBlock + 2 < 2 ^ 64) (hLimit : ∀ l ∈ limit, startBlock + l < 2 ^ 64)
    (hRecovers : behaviour.Recovers)
    (hKeeps : ∀ n, (Historic.after node startBlock snapshotToBlock limit behaviour n).Keeps node
      snapshotToBlock (behaviour n).1) :
    CoversHistory node startBlock snapshotToBlock limit behaviour := by
  rcases Nat.lt_or_ge snapshotToBlock startBlock with hNone | hStart
  · exact covers_of_past hNone
  have hOnCourse := after_onCourse hSnapshot hStart hLimit hKeeps
  obtain ⟨last, hSends⟩ := hRecovers
  refine ⟨fun n => (hOnCourse n).requested,
    after_ends hSnapshot hStart hLimit hKeeps _ last hSends le_rfl,
    fun n hPast => (hOnCourse n).covered hPast⟩

/-- One error, then logs. -/
def failingOnce (error : FetchError) : Behaviour :=
  fun n => (if n = 0 then .error error else .logs true, false)

theorem failingOnce_recovers (error : FetchError) : (failingOnce error).Recovers := by
  refine ⟨1, fun n hn => ?_⟩
  unfold failingOnce
  rw [if_neg (by omega)]
  rfl

/-- A range that is too large is fetched in smaller ones. -/
theorem errors_in_place_cover_history_too_large :
    CoversHistory (transferLogs "a") 1 9 none (failingOnce ⟨"limited to a 4 block range", ""⟩) := by
  refine errors_in_place_cover_history (transferLogs "a") 1 9 none _ (by decide) (by simp)
    (failingOnce_recovers _) fun n => ?_
  match n with
  | 0 =>
    intro _
    show 1 + 4 ≤ 9
    decide
  | n + 1 =>
    intro _ _ l hl
    have hAtMost : ∀ m, ∀ l ∈ (Historic.after (transferLogs "a") 1 9 none
        (failingOnce ⟨"limited to a 4 block range", ""⟩) (m + 1)).maxBlockRangeLimitation, l = 4 := by
      intro m
      induction m with
      | zero => decide
      | succ m ih =>
        intro l hl
        refine ih l ?_
        rw [Historic.after] at hl
        unfold Historic.round at hl
        split at hl
        · exact hl
        · simp only [failingOnce, if_neg (Nat.succ_ne_zero m), Bool.false_eq_true, if_false,
            fetchHistoricLogsStream] at hl
          split at hl <;> exact hl
    cases hAtMost n l hl
    omega

/-- A hint that starts past the request makes the fetch pass over blocks with logs. -/
theorem hint_skips_blocks :
    ¬ ∀ (network : String) (node : NodeLogs network) (startBlock snapshotToBlock : Nat)
        (limit : Option Nat) (behaviour : Behaviour), behaviour.Recovers →
      CoversHistory node startBlock snapshotToBlock limit behaviour := by
  intro hClaim
  obtain ⟨-, -, hCovered⟩ := hClaim _ (transferLogs "a") 1 3 none
    (failingOnce ⟨"this block range should work: [0x2, 0x3]", ""⟩) (failingOnce_recovers _)
  have hCount := congrArg List.length (hCovered 2 (by decide))
  exact absurd hCount (by decide)

end Rindexer.Indexer
