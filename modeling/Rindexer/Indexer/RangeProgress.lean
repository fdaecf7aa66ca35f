import Rindexer.Indexer.Parallel

/-! When a failed request leads to a smaller range.  The halving has a least range of three blocks, a
suggested size is not compared with the range that failed, and a hint may point anywhere; where each
failure does shrink its range, a node that answers single blocks only is enough for the fetch to end. -/

namespace Rindexer.Indexer

open Rindexer.Lib Rindexer.Database

/-! ### One retry -/

/-- The range after a failed one starts with it, holds a block, ends at or before the bound, and is
smaller unless the failed range was a single block. -/
structure Progresses (fromBlock toBlock bound : Nat) (range : Nat × Nat) : Prop where
  start : range.1 = fromBlock
  nonempty : range.1 ≤ range.2
  bounded : range.2 ≤ bound
  smaller : fromBlock < toBlock → range.2 < toBlock

/-- An end makes a range from the same start that holds a block, within the bound and smaller. -/
def EndsWithin (fromBlock toBlock bound newTo : Nat) : Prop :=
  fromBlock ≤ newTo ∧ newTo ≤ bound ∧ (fromBlock < toBlock → newTo < toBlock)

theorem progresses_iff_endsWithin {fromBlock toBlock bound newTo : Nat} :
    Progresses fromBlock toBlock bound (fromBlock, newTo) ↔
      EndsWithin fromBlock toBlock bound newTo :=
  ⟨fun h => ⟨h.nonempty, h.bounded, h.smaller⟩, fun h => ⟨rfl, h.1, h.2.1, h.2.2⟩⟩

/-- Halving ends inside a range of four blocks or more, and past every smaller one. -/
def HalvesWithin (fromBlock toBlock bound : Nat) : Prop :=
  if fromBlock + 2 < 2 ^ 64 then
    fromBlock + max ((toBlock - fromBlock) / 2) 2 ≤ bound ∧
      (fromBlock < toBlock → fromBlock + 2 < toBlock)
  else fromBlock ≤ bound

/-- The fallback for a range: the one after its own where that is the whole of it. -/
def fallbackBlocks (diff : Nat) : Nat :=
  if FallbackBlockRange.fromDiff diff = diff then
    FallbackBlockRange.lower (FallbackBlockRange.fromDiff diff)
  else FallbackBlockRange.fromDiff diff

/-- A number of blocks under the limit there is. -/
def underLimit (limit : Option Nat) (blocks : Nat) : Nat := (limit.map (min · blocks)).getD blocks

/-- An error leads to a smaller range inside the bound. -/
def FetchError.Shrinks (fromBlock toBlock bound : Nat) (limit : Option Nat) (error : FetchError) :
    Prop :=
  match error.advice with
  | .range hintFrom hintTo => hintFrom = fromBlock ∧ EndsWithin fromBlock toBlock bound hintTo
  | .upTo hintTo => EndsWithin fromBlock toBlock bound hintTo
  | .atMost blocks => EndsWithin fromBlock toBlock bound (fromBlock + underLimit limit blocks)
  | .halve => HalvesWithin fromBlock toBlock bound
  | .unknown =>
    if fromBlock < toBlock then
      fromBlock + underLimit limit (fallbackBlocks (toBlock - fromBlock)) ≤ bound ∧
        (toBlock = fromBlock + 1 → limit = some 0)
    else HalvesWithin fromBlock toBlock bound

/-- What comes back for a request that fails leads to a smaller range inside the bound. -/
def Response.Shrinks (fromBlock toBlock bound : Nat) (limit : Option Nat) : Response → Prop
  | .logs _ => HalvesWithin fromBlock toBlock bound
  | .error e => e.Shrinks fromBlock toBlock bound limit

theorem underLimit_le (limit : Option Nat) (blocks : Nat) : underLimit limit blocks ≤ blocks := by
  cases limit with
  | none => exact le_rfl
  | some l => exact Nat.min_le_right l blocks

theorem underLimit_one_eq_zero_iff (limit : Option Nat) : underLimit limit 1 = 0 ↔ limit = some 0 := by
  cases limit with
  | none => simp [underLimit]
  | some l =>
    simp only [underLimit, Option.map_some, Option.getD_some, Option.some_inj]
    omega

theorem halved_endsWithin_iff {fromBlock toBlock bound : Nat} (hLe : fromBlock ≤ toBlock)
    (hTo : toBlock < 2 ^ 64) :
    EndsWithin fromBlock toBlock bound (halvedBlockNumber toBlock fromBlock) ↔
      HalvesWithin fromBlock toBlock bound := by
  unfold EndsWithin HalvesWithin halvedBlockNumber
  rw [wrappingSub_eq hLe hTo,
    wrappingAdd_eq (show fromBlock + (toBlock - fromBlock) / 2 < 2 ^ 64 by omega)]
  split
  · rename_i hRoom
    rw [wrappingAdd_eq hRoom]
    omega
  · -- The least end wraps to a block before the range, so half of the range decides.
    have hWrapped : wrappingAdd fromBlock 2 = fromBlock + 2 - 2 ^ 64 := by
      unfold wrappingAdd
      omega
    rw [hWrapped]
    omega

theorem FallbackBlockRange.lower_lt {range : Nat} (h : 1 < range) : lower range < range := by
  unfold lower
  cases hFind : fallbackBlockRanges.find? (· < range) with
  | none => exact h
  | some lowered => simpa using List.find?_some hFind

theorem fallbackBlocks_le {diff : Nat} (h : 0 < diff) : fallbackBlocks diff ≤ diff := by
  have hFirst := FallbackBlockRange.fromDiff_le h
  unfold fallbackBlocks
  split
  · exact (FallbackBlockRange.lower_le (FallbackBlockRange.fromDiff_pos diff)).trans hFirst
  · exact hFirst

/-- A fallback is smaller than a range of three blocks or more. -/
theorem fallbackBlocks_lt {diff : Nat} (h : 1 < diff) : fallbackBlocks diff < diff := by
  have hFirst := FallbackBlockRange.fromDiff_le (show 0 < diff by omega)
  unfold fallbackBlocks
  split
  · rename_i hWhole
    rw [hWhole]
    exact FallbackBlockRange.lower_lt h
  · omega

/-- An error that says nothing leads to the fallback under the limit. -/
theorem retry_unknown {error : FetchError} {fromBlock toBlock : Nat} {limit : Option Nat}
    (hAdvice : error.advice = .unknown) (hLess : fromBlock < toBlock) (hTo : toBlock < 2 ^ 64) :
    retryWithBlockRange error fromBlock toBlock limit =
      some (suggestRange fromBlock (fallbackBlocks (toBlock - fromBlock)) limit) := by
  have hFirst := FallbackBlockRange.fromDiff_le (show 0 < toBlock - fromBlock by omega)
  have hFallback := fallbackBlocks_le (show 0 < toBlock - fromBlock by omega)
  simp only [retryWithBlockRange, hAdvice, if_pos hLess, wrappingSub_eq hLess.le hTo]
  rw [wrappingAdd_eq
    (show fromBlock + FallbackBlockRange.fromDiff (toBlock - fromBlock) < 2 ^ 64 by omega)]
  have hSame : (fromBlock + FallbackBlockRange.fromDiff (toBlock - fromBlock) = toBlock) =
      (FallbackBlockRange.fromDiff (toBlock - fromBlock) = toBlock - fromBlock) :=
    propext ⟨fun h => by omega, fun h => by omega⟩
  simp only [hSame]
  rw [show (if FallbackBlockRange.fromDiff (toBlock - fromBlock) = toBlock - fromBlock then
      FallbackBlockRange.lower (FallbackBlockRange.fromDiff (toBlock - fromBlock))
    else FallbackBlockRange.fromDiff (toBlock - fromBlock)) = fallbackBlocks (toBlock - fromBlock)
    from rfl]
  rw [wrappingAdd_eq (show fromBlock + fallbackBlocks (toBlock - fromBlock) < 2 ^ 64 by omega),
    if_neg (by omega)]

theorem parseU64_lt {radix value : Nat} {digits : List Char}
    (h : parseU64 radix digits = some value) : value < 2 ^ 64 := by
  unfold parseU64 at h
  dsimp only at h
  split at h
  · rename_i hFits
    exact Option.some.inj h ▸ hFits
  · cases h

/-- A size that an error suggests has 64 bits. -/
theorem atMost_lt {error : FetchError} {blocks : Nat} (h : error.advice = .atMost blocks) :
    blocks < 2 ^ 64 := by
  unfold FetchError.advice at h
  split at h
  · split at h <;> cases h
  · split at h
    · cases h
    · split at h
      · cases h
        decide
      · split at h
        · rename_i number hNumber
          cases h
          obtain ⟨digits, -, hParsed⟩ := Option.bind_eq_some_iff.mp hNumber
          exact parseU64_lt hParsed
        · split at h
          · cases h
            decide
          · split at h <;> cases h

/-- A size under the limit ends where it says, or wraps to before the range. -/
theorem suggested_endsWithin_iff {fromBlock toBlock bound blocks : Nat} {limit : Option Nat}
    (hFrom : fromBlock < 2 ^ 64) (hBlocks : blocks < 2 ^ 64) (hBound : bound < 2 ^ 64) :
    EndsWithin fromBlock toBlock bound (suggestRange fromBlock blocks limit).toBlock ↔
      EndsWithin fromBlock toBlock bound (fromBlock + underLimit limit blocks) := by
  have hLe := underLimit_le limit blocks
  show EndsWithin fromBlock toBlock bound (wrappingAdd fromBlock (underLimit limit blocks)) ↔ _
  unfold EndsWithin
  by_cases hFits : fromBlock + underLimit limit blocks < 2 ^ 64
  · rw [wrappingAdd_eq hFits]
  · have hWrapped : wrappingAdd fromBlock (underLimit limit blocks) =
        fromBlock + underLimit limit blocks - 2 ^ 64 := by
      unfold wrappingAdd
      omega
    rw [hWrapped]
    omega

/-- A failed request leads to progress exactly if its error shrinks the range. -/
theorem error_progresses_iff {error : FetchError} {fromBlock toBlock bound : Nat}
    {limit : Option Nat} (hLe : fromBlock ≤ toBlock) (hTo : toBlock < 2 ^ 64)
    (hBound : bound < 2 ^ 64) :
    Progresses fromBlock toBlock bound
        ((rangeAfterError error fromBlock toBlock limit).fromBlock,
          (rangeAfterError error fromBlock toBlock limit).toBlock) ↔
      error.Shrinks fromBlock toBlock bound limit := by
  have hHalved : EndsWithin fromBlock toBlock bound (halvedBlockNumber toBlock fromBlock) ↔
      HalvesWithin fromBlock toBlock bound := halved_endsWithin_iff hLe hTo
  have hFrom : fromBlock < 2 ^ 64 := by omega
  unfold FetchError.Shrinks
  cases hAdvice : error.advice with
  | range hintFrom hintTo =>
    simp only [rangeAfterError, retryWithBlockRange, hAdvice, Option.getD_some]
    constructor
    · intro h
      have hStart : hintFrom = fromBlock := h.start
      subst hStart
      exact ⟨rfl, progresses_iff_endsWithin.mp h⟩
    · rintro ⟨rfl, h⟩
      exact progresses_iff_endsWithin.mpr h
  | upTo hintTo =>
    simp only [rangeAfterError, retryWithBlockRange, hAdvice, Option.getD_some]
    exact progresses_iff_endsWithin
  | atMost blocks =>
    simp only [rangeAfterError, retryWithBlockRange, hAdvice, Option.getD_some]
    exact progresses_iff_endsWithin.trans
      (suggested_endsWithin_iff hFrom (atMost_lt hAdvice) hBound)
  | halve =>
    simp only [rangeAfterError, retryWithBlockRange, hAdvice, Option.getD_some]
    exact progresses_iff_endsWithin.trans hHalved
  | unknown =>
    dsimp only
    by_cases hLess : fromBlock < toBlock
    · rw [if_pos hLess, rangeAfterError, retry_unknown hAdvice hLess hTo, Option.getD_some]
      have hFallback := fallbackBlocks_le (show 0 < toBlock - fromBlock by omega)
      refine (progresses_iff_endsWithin.trans
        (suggested_endsWithin_iff hFrom (by omega) hBound)).trans ?_
      have hUnder := underLimit_le limit (fallbackBlocks (toBlock - fromBlock))
      unfold EndsWithin
      by_cases hTwo : toBlock = fromBlock + 1
      · -- Of two blocks the fallback is the whole range.
        subst hTwo
        have hOne : fallbackBlocks (fromBlock + 1 - fromBlock) = 1 := by
          rw [Nat.add_sub_cancel_left]
          decide
        have hZero := underLimit_one_eq_zero_iff limit
        rw [hOne] at hUnder ⊢
        rw [← hZero]
        omega
      · have := fallbackBlocks_lt (show 1 < toBlock - fromBlock by omega)
        omega
    · simp only [rangeAfterError, retryWithBlockRange, hAdvice, if_neg hLess, Option.getD_none]
      exact progresses_iff_endsWithin.trans hHalved

/-- A request that fails leads to progress exactly if what comes back shrinks its range. -/
theorem failedRange_progresses_iff {response : Response} {fromBlock toBlock bound : Nat}
    {limit : Option Nat} {range : Nat × Nat} (hLe : fromBlock ≤ toBlock) (hTo : toBlock < 2 ^ 64)
    (hBound : bound < 2 ^ 64) (hFailed : response.failedRange fromBlock toBlock limit = some range) :
    Progresses fromBlock toBlock bound range ↔ response.Shrinks fromBlock toBlock bound limit := by
  match response with
  | .logs true => cases hFailed
  | .logs false =>
    cases hFailed
    exact progresses_iff_endsWithin.trans (halved_endsWithin_iff hLe hTo)
  | .error e =>
    cases hFailed
    exact error_progresses_iff hLe hTo hBound

/-! ### Runs against a node that answers single blocks -/

/-- A round of a fetch on its way: logs come exactly for a single block, where the limit then fits 64
bits, and a request that fails leads to a smaller range. -/
def Response.Advances {network : String} (node : NodeLogs network)
    (fromBlock toBlock bound : Nat) (limit : Option Nat) (response : Response) : Prop :=
  (response.sends = true ↔ fromBlock = toBlock) ∧
    if response.sends then response.KeepsPlace node bound fromBlock toBlock limit
    else response.Shrinks fromBlock toBlock bound limit

section Rounds

variable {network : String} {node : NodeLogs network} {fromBlock toBlock bound : Nat}
  {limit : Option Nat}

theorem FetchError.Shrinks.keepsPlace {error : FetchError} (hLess : fromBlock < toBlock)
    (hTo : toBlock ≤ bound) (hBound : bound + 2 < 2 ^ 64)
    (h : error.Shrinks fromBlock toBlock bound limit) :
    error.KeepsPlace node bound fromBlock toBlock limit := by
  unfold FetchError.Shrinks at h
  unfold FetchError.KeepsPlace
  cases hAdvice : error.advice with
  | range hintFrom hintTo =>
    rw [hAdvice] at h
    obtain ⟨rfl, hLow, hHigh, -⟩ := h
    refine ⟨Nat.max_le.mpr ⟨by omega, hHigh⟩, ?_⟩
    rw [Nat.min_eq_left hLow]
    exact .refl hintFrom
  | upTo hintTo =>
    rw [hAdvice] at h
    obtain ⟨hLow, hHigh, -⟩ := h
    refine ⟨hHigh, ?_⟩
    rw [Nat.min_eq_left hLow]
    exact .refl fromBlock
  | atMost blocks =>
    rw [hAdvice] at h
    exact h.2.1
  | halve =>
    rw [hAdvice] at h
    unfold HalvesWithin at h
    rw [if_pos (by omega)] at h
    exact h.1
  | unknown => exact fun hSame => absurd hSame hLess.ne

theorem Response.Shrinks.keepsPlace {response : Response} (hFailed : response.sends = false)
    (hLess : fromBlock < toBlock) (hTo : toBlock ≤ bound) (hBound : bound + 2 < 2 ^ 64)
    (h : response.Shrinks fromBlock toBlock bound limit) :
    response.KeepsPlace node bound fromBlock toBlock limit := by
  match response with
  | .logs true => cases hFailed
  | .logs false =>
    unfold Response.Shrinks HalvesWithin at h
    rw [if_pos (by omega)] at h
    exact h.1
  | .error e => exact FetchError.Shrinks.keepsPlace hLess hTo hBound h

theorem Response.Advances.keepsPlace {response : Response} (hLe : fromBlock ≤ toBlock)
    (hTo : toBlock ≤ bound) (hBound : bound + 2 < 2 ^ 64)
    (h : response.Advances node fromBlock toBlock bound limit) :
    response.KeepsPlace node bound fromBlock toBlock limit := by
  obtain ⟨hSingle, hMeets⟩ := h
  cases hSends : response.sends with
  | true => simpa [hSends] using hMeets
  | false =>
    have hLess : fromBlock < toBlock := by
      refine lt_of_le_of_ne hLe fun hSame => ?_
      rw [hSingle.mpr hSame] at hSends
      cases hSends
    rw [hSends, if_neg Bool.false_ne_true] at hMeets
    exact hMeets.keepsPlace hSends hLess hTo hBound

/-- A failure on the way does not lead back to the range that failed. -/
theorem Response.Advances.failedRange_ne {response : Response} {range : Nat × Nat}
    (hLe : fromBlock ≤ toBlock) (hTo : toBlock ≤ bound) (hBound : bound + 2 < 2 ^ 64)
    (h : response.Advances node fromBlock toBlock bound limit)
    (hFailed : response.failedRange fromBlock toBlock limit = some range) :
    range ≠ (fromBlock, toBlock) := by
  rintro rfl
  obtain ⟨hSingle, hMeets⟩ := h
  cases hSends : response.sends with
  | true =>
    match response, hSends with
    | .logs true, _ => cases hFailed
  | false =>
    rw [hSends, if_neg Bool.false_ne_true] at hMeets
    have hLess : fromBlock < toBlock := by
      refine lt_of_le_of_ne hLe fun hSame => ?_
      rw [hSingle.mpr hSame] at hSends
      cases hSends
    have hProgress := (failedRange_progresses_iff hLe (by omega) (by omega) hFailed).mpr hMeets
    exact absurd (hProgress.smaller hLess) (Nat.lt_irrefl _)

/-- The blocks left, with the size of the range among those of one start. -/
def leftOf (bound fromBlock toBlock : Nat) : Nat :=
  (bound + 1 - fromBlock) * (bound + 1) + (toBlock - fromBlock)

/-- A round that advances goes on in order within the bound with less left, or past the bound. -/
theorem next_leftOf {response : Response} (hLe : fromBlock ≤ toBlock) (hTo : toBlock ≤ bound)
    (hBound : bound + 2 < 2 ^ 64) (h : response.Advances node fromBlock toBlock bound limit) :
    let next := (fetchHistoricLogsStream node fromBlock toBlock limit bound response).next
    bound < next.fromBlock ∨
      next.fromBlock ≤ next.toBlock ∧ next.toBlock ≤ bound ∧
        leftOf bound next.fromBlock next.toBlock < leftOf bound fromBlock toBlock := by
  have hKeeps := h.keepsPlace hLe hTo hBound
  obtain ⟨hSingle, hMeets⟩ := h
  cases hSends : response.sends with
  | true =>
    have hSame := hSingle.mp hSends
    match response, hSends with
    | .logs true, _ =>
      obtain ⟨hForward, -, hOrdered, hEnd⟩ := rangeAfterLogs_advances hLe hTo hBound hKeeps
      simp only [fetchHistoricLogsStream, if_neg (Nat.not_lt.mpr hLe)]
      rcases hEnd with hWithin | ⟨hPast, -⟩
      · refine .inr ⟨hOrdered, hWithin, ?_⟩
        generalize rangeAfterLogs toBlock bound limit (node.range fromBlock toBlock) = next at *
        unfold leftOf
        obtain ⟨k, hk⟩ : ∃ k, bound + 1 - fromBlock = (bound + 1 - next.fromBlock) + 1 + k :=
          ⟨next.fromBlock - fromBlock - 1, by omega⟩
        rw [hk, Nat.add_mul, Nat.add_mul]
        omega
      · exact .inl (by omega)
  | false =>
    rw [hSends, if_neg Bool.false_ne_true] at hMeets
    have hLess : fromBlock < toBlock := by
      refine lt_of_le_of_ne hLe fun hSame => ?_
      rw [hSingle.mpr hSame] at hSends
      cases hSends
    have hFailed := next_eq_failedRange node bound limit hLe hSends
    have hProgress := (failedRange_progresses_iff hLe (by omega) (by omega) hFailed).mpr hMeets
    obtain ⟨hStart, hNonempty, hBounded, hSmaller⟩ := hProgress
    have hSmaller := hSmaller hLess
    dsimp only at hStart hNonempty hBounded hSmaller ⊢
    refine .inr ⟨hNonempty, hBounded, ?_⟩
    unfold leftOf
    rw [hStart] at hNonempty ⊢
    omega

end Rounds

/-- Rounds that leave less until they are done come to an end. -/
theorem ends_of_less {done : Nat → Prop} (left : Nat → Nat)
    (h : ∀ n, ¬ done n → done (n + 1) ∨ left (n + 1) < left n) : ∃ n, done n := by
  by_contra hNever
  have hNot : ∀ n, ¬ done n := fun n hDone => hNever ⟨n, hDone⟩
  have hDown : ∀ n, left n + n ≤ left 0 := by
    intro n
    induction n with
    | zero => exact le_rfl
    | succ n ih =>
      rcases h n (hNot n) with hDone | hLess
      · exact absurd hDone (hNot _)
      · omega
  have := hDown (left 0 + 1)
  omega

/-! ### The sequential fetch -/

section Sequential

variable {network : String} {node : NodeLogs network} {startBlock snapshotToBlock : Nat}
  {limit : Option Nat} {behaviour : Behaviour}

/-- A fetch is on its way: on course, with its range in order while it goes on. -/
structure Historic.OnWay (node : NodeLogs network) (startBlock snapshotToBlock : Nat)
    (s : Historic) : Prop where
  onCourse : s.OnCourse node startBlock snapshotToBlock
  ordered : s.fromBlock ≤ snapshotToBlock → s.fromBlock ≤ s.toBlock ∧ s.toBlock ≤ snapshotToBlock

/-- A round that advances keeps the fetch on its way with less left, or carries it past the snapshot. -/
theorem round_onWay {s : Historic} (limit : Option Nat) {response : Response} (reset : Bool)
    (hSnapshot : snapshotToBlock + 2 < 2 ^ 64) (hInv : s.OnWay node startBlock snapshotToBlock)
    (hGoes : s.fromBlock ≤ snapshotToBlock)
    (hAdvances : response.Advances node s.fromBlock s.toBlock snapshotToBlock
      s.maxBlockRangeLimitation) :
    let s' := s.round node snapshotToBlock limit response reset
    s'.OnWay node startBlock snapshotToBlock ∧
      (snapshotToBlock < s'.fromBlock ∨
        leftOf snapshotToBlock s'.fromBlock s'.toBlock <
          leftOf snapshotToBlock s.fromBlock s.toBlock) := by
  obtain ⟨hLe, hTo⟩ := hInv.ordered hGoes
  have hOn := (round_onCourse limit reset hSnapshot hInv.onCourse hGoes
    fun _ => hAdvances.keepsPlace hLe hTo hSnapshot).1
  have hNext := next_leftOf hLe hTo hSnapshot hAdvances
  have hFrom : (s.round node snapshotToBlock limit response reset).fromBlock =
      (fetchHistoricLogsStream node s.fromBlock s.toBlock s.maxBlockRangeLimitation snapshotToBlock
        response).next.fromBlock := by
    rw [Historic.round, if_neg (Nat.not_lt.mpr hGoes)]
  have hEnd : (s.round node snapshotToBlock limit response reset).toBlock =
      (fetchHistoricLogsStream node s.fromBlock s.toBlock s.maxBlockRangeLimitation snapshotToBlock
        response).next.toBlock := by
    rw [Historic.round, if_neg (Nat.not_lt.mpr hGoes)]
  dsimp only at hNext ⊢
  rw [← hFrom, ← hEnd] at hNext
  rcases hNext with hPast | ⟨hOrdered, hWithin, hLess⟩
  · exact ⟨⟨hOn, fun hStill => absurd hPast (by omega)⟩, .inl hPast⟩
  · exact ⟨⟨hOn, fun _ => ⟨hOrdered, hWithin⟩⟩, .inr hLess⟩

/-- A fetch whose rounds advance is on its way after any number of them. -/
theorem after_onWay (hSnapshot : snapshotToBlock + 2 < 2 ^ 64) (hStart : startBlock ≤ snapshotToBlock)
    (hLimit : ∀ l ∈ limit, startBlock + l < 2 ^ 64)
    (hAdvances : ∀ n, let s := Historic.after node startBlock snapshotToBlock limit behaviour n
      s.fromBlock ≤ snapshotToBlock → (behaviour n).1.Advances node s.fromBlock s.toBlock
        snapshotToBlock s.maxBlockRangeLimitation) (n : Nat) :
    (Historic.after node startBlock snapshotToBlock limit behaviour n).OnWay node startBlock
      snapshotToBlock := by
  induction n with
  | zero =>
    exact ⟨start_onCourse hStart hLimit,
      fun _ => calculateProcessHistoricLogToBlock_within hStart hLimit⟩
  | succ n ih =>
    rw [Historic.after]
    by_cases hPast :
        snapshotToBlock < (Historic.after node startBlock snapshotToBlock limit behaviour n).fromBlock
    · rw [round_past _ _ _ hPast]
      exact ih
    · have hGoes := Nat.not_lt.mp hPast
      exact (round_onWay limit _ hSnapshot ih hGoes (hAdvances n hGoes)).1

/-- Against a node that answers single blocks only, a fetch whose failures all shrink their ranges
covers the history. -/
theorem singles_cover_history (hSnapshot : snapshotToBlock + 2 < 2 ^ 64)
    (hLimit : ∀ l ∈ limit, startBlock + l < 2 ^ 64)
    (hAdvances : ∀ n, let s := Historic.after node startBlock snapshotToBlock limit behaviour n
      s.fromBlock ≤ snapshotToBlock → (behaviour n).1.Advances node s.fromBlock s.toBlock
        snapshotToBlock s.maxBlockRangeLimitation) :
    CoversHistory node startBlock snapshotToBlock limit behaviour := by
  rcases Nat.lt_or_ge snapshotToBlock startBlock with hNone | hStart
  · exact covers_of_past hNone
  have hOnWay := after_onWay hSnapshot hStart hLimit hAdvances
  have hEnds : ∃ n, snapshotToBlock <
      (Historic.after node startBlock snapshotToBlock limit behaviour n).fromBlock := by
    refine ends_of_less (fun n => leftOf snapshotToBlock
      (Historic.after node startBlock snapshotToBlock limit behaviour n).fromBlock
      (Historic.after node startBlock snapshotToBlock limit behaviour n).toBlock) fun n hNot => ?_
    have hGoes := Nat.not_lt.mp hNot
    exact (round_onWay limit (behaviour n).2 hSnapshot (hOnWay n) hGoes (hAdvances n hGoes)).2
  exact ⟨fun n => (hOnWay n).onCourse.requested, hEnds,
    fun n hPast => (hOnWay n).onCourse.covered hPast⟩

end Sequential

/-! ### A worker -/

section Workers

variable {network : String} (node : NodeLogs network)

/-- A round of a worker by itself.  The batches that it sends in between stay among its results. -/
def Worker.round (originalMaxLimit : Option Nat) (w : Worker) (response : Response) (reset : Bool) :
    Worker :=
  if w.ended ∨ w.subRangeEnd < w.fromBlock then w
  else
    let once := fetchLogsOnce node w.fromBlock w.toBlock w.maxBlockRangeLimitation w.subRangeEnd
      response
    ({ w with results := w.results ++ (once.1.map Except.ok).toList } : Worker).proceed
      originalMaxLimit once.2.1 once.2.2 reset

/-- The worker of a sub-range after a number of rounds. -/
def Worker.after (subRangeStart subRangeEnd : Nat) (originalMaxLimit : Option Nat)
    (behaviour : Behaviour) : Nat → Worker
  | 0 => .start subRangeStart subRangeEnd originalMaxLimit
  | n + 1 =>
    (after subRangeStart subRangeEnd originalMaxLimit behaviour n).round node originalMaxLimit
      (behaviour n).1 (behaviour n).2

/-- The worker has left its loop. -/
def Worker.Left (w : Worker) : Prop := w.ended = true ∨ w.subRangeEnd < w.fromBlock

instance (w : Worker) : Decidable w.Left := inferInstanceAs (Decidable (_ ∨ _))

/-- The worker gets to its end without giving up, with the logs of the sub-range. -/
def CoversSubRange (subRangeStart subRangeEnd : Nat) (limit : Option Nat)
    (behaviour : Behaviour) : Prop :=
  let worker := Worker.after node subRangeStart subRangeEnd limit behaviour
  (∃ n, (worker n).Left) ∧
    ∀ n, (worker n).Left →
      (∀ r ∈ (worker n).results, ∃ batch, r = .ok batch) ∧
        resultRows (worker n).results = node.range subRangeStart subRangeEnd

variable {node}

/-- What a worker does with a range does not depend on its results. -/
theorem proceed_with_results (w : Worker) (results results' : List FetchResult)
    (limit : Option Nat) (next : Option ProcessHistoricLogsStreamResult) (failed reset : Bool) :
    ∃ rest, ({ w with results := results } : Worker).proceed limit next failed reset =
      { ({ w with results := results' } : Worker).proceed limit next failed reset with
        results := rest } := by
  unfold Worker.proceed
  cases next with
  | none => exact ⟨results, rfl⟩
  | some range =>
    dsimp only
    split
    · split
      · exact ⟨_, rfl⟩
      · exact ⟨results, rfl⟩
    · exact ⟨results, rfl⟩

/-- The worker of a fetch in parallel does a round of its own, and may have sent its results on. -/
theorem fetch_worker {plan : ParallelPlan} {s s' : Parallel} {sequenceId : Nat} {w : Worker}
    {response : Response} {reset : Bool} (hWorker : s.workers[sequenceId]? = some w)
    (hFetch : s.fetch node plan sequenceId response reset = some s') :
    ∃ results, s'.workers[sequenceId]? =
      some { w.round node plan.originalMaxLimit response reset with results := results } := by
  obtain ⟨hId, -⟩ := List.getElem?_eq_some_iff.mp hWorker
  unfold Parallel.fetch at hFetch
  rw [hWorker] at hFetch
  dsimp only at hFetch
  unfold Worker.round
  split at hFetch
  · cases hFetch
  · rename_i hGoes
    rw [if_neg hGoes]
    dsimp only
    split at hFetch
    · split at hFetch
      · cases hFetch
        rw [List.getElem?_set_self hId]
        obtain ⟨rest, hRest⟩ := proceed_with_results w [] (w.results ++ _) plan.originalMaxLimit _ _
          reset
        exact ⟨rest, congrArg some hRest⟩
      · cases hFetch
    · cases hFetch
      rw [List.getElem?_set_self hId]
      exact ⟨_, rfl⟩

theorem proceed_moves {w : Worker} {limit : Option Nat}
    {next : Option ProcessHistoricLogsStreamResult} {failed reset : Bool}
    (hRuns : (w.proceed limit next failed reset).ended = false) :
    ∃ range, next = some range ∧ (w.proceed limit next failed reset).fromBlock = range.fromBlock ∧
      (w.proceed limit next failed reset).toBlock = range.toBlock ∧
      (w.proceed limit next failed reset).lastRange = some (range.fromBlock, range.toBlock) := by
  unfold Worker.proceed at hRuns ⊢
  cases next with
  | none => cases hRuns
  | some range =>
    dsimp only at hRuns ⊢
    split
    · rename_i hAgain
      rw [if_pos hAgain] at hRuns
      split
      · rename_i hGivesUp
        rw [if_pos hGivesUp] at hRuns
        cases hRuns
      · exact ⟨range, rfl, rfl, rfl, hAgain.1⟩
    · exact ⟨range, rfl, rfl, rfl, rfl⟩

theorem fetchLogsOnce_next {fromBlock toBlock bound : Nat} {limit : Option Nat}
    {response : Response} {range : ProcessHistoricLogsStreamResult}
    (h : (fetchLogsOnce node fromBlock toBlock limit bound response).2.1 = some range) :
    range = (fetchHistoricLogsStream node fromBlock toBlock limit bound response).next := by
  unfold fetchLogsOnce at h
  dsimp only at h
  split at h
  · cases h
  · exact (Option.some.inj h).symm

/-- A worker that goes on after a round has the range that the round led to, and remembers it. -/
theorem worker_round_moves {w : Worker} {limit : Option Nat} {response : Response} {reset : Bool}
    (hGoes : ¬ w.Left) (hRuns : (w.round node limit response reset).ended = false) :
    let next := (fetchHistoricLogsStream node w.fromBlock w.toBlock w.maxBlockRangeLimitation
      w.subRangeEnd response).next
    (w.round node limit response reset).fromBlock = next.fromBlock ∧
      (w.round node limit response reset).toBlock = next.toBlock ∧
      (w.round node limit response reset).lastRange = some (next.fromBlock, next.toBlock) := by
  have hRound : w.round node limit response reset = _ := if_neg hGoes
  rw [hRound] at hRuns ⊢
  obtain ⟨range, hSome, hFrom, hTo, hLast⟩ := proceed_moves hRuns
  rw [fetchLogsOnce_next hSome] at hFrom hTo hLast
  exact ⟨hFrom, hTo, hLast⟩

/-- A worker on its way: on course and without errors, and while it goes on its range is in order and
the one that it remembers. -/
structure Worker.OnWay (node : NodeLogs network) (subRangeStart subRangeEnd : Nat) (w : Worker) :
    Prop where
  bounds : w.subRangeStart = subRangeStart ∧ w.subRangeEnd = subRangeEnd
  onCourse : w.OnCourse node (resultRows w.results)
  noErrors : ∀ r ∈ w.results, ∃ batch, r = .ok batch
  ordered : ¬ w.Left → w.fromBlock ≤ w.toBlock ∧ w.toBlock ≤ subRangeEnd
  remembers : ¬ w.Left → w.lastRange = none ∨ w.lastRange = some (w.fromBlock, w.toBlock)

theorem worker_round_onWay {subRangeStart subRangeEnd : Nat} {w : Worker} (limit : Option Nat)
    {response : Response} (reset : Bool) (hRange : subRangeEnd + 2 < 2 ^ 64)
    (hInv : w.OnWay node subRangeStart subRangeEnd) (hGoes : ¬ w.Left)
    (hAdvances : response.Advances node w.fromBlock w.toBlock subRangeEnd
      w.maxBlockRangeLimitation) :
    let w' := w.round node limit response reset
    w'.OnWay node subRangeStart subRangeEnd ∧
      (w'.Left ∨ leftOf subRangeEnd w'.fromBlock w'.toBlock <
        leftOf subRangeEnd w.fromBlock w.toBlock) := by
  obtain ⟨⟨rfl, rfl⟩, hOn, hErrors, hOrdered, hRemembers⟩ := hInv
  obtain ⟨hLe, hTo⟩ := hOrdered hGoes
  have hKeeps : w.Keeps node response := by
    intro _
    refine ⟨hAdvances.keepsPlace hLe hTo hRange, fun range hFailed hLast => ?_⟩
    rcases hRemembers hGoes with hNone | hSome
    · rw [hNone] at hLast
      cases hLast
    · rw [hSome] at hLast
      exact absurd (Option.some.inj hLast).symm
        (hAdvances.failedRange_ne hLe hTo hRange hFailed)
  have hRuns : w.ended = false := by
    cases hEnded : w.ended with
    | false => rfl
    | true => exact absurd (.inl hEnded) hGoes
  have hNext := next_leftOf hLe hTo hRange hAdvances
  have hRound := worker_round limit reset (w.results ++ ((fetchLogsOnce node w.fromBlock w.toBlock
    w.maxBlockRangeLimitation w.subRangeEnd response).1.map Except.ok).toList) hOn hRange hRuns
    (by omega) hKeeps
  have hMoves := @worker_round_moves network node w limit response reset hGoes
  have hRoundEq : w.round node limit response reset = _ := if_neg hGoes
  dsimp only at hRound hNext hMoves ⊢
  rw [← hRoundEq] at hRound
  generalize w.round node limit response reset = w' at hRound hMoves ⊢
  obtain ⟨hOn', hResults, hStart, hEnd, -⟩ := hRound
  have hStays (h : ¬ w'.Left) : w'.ended = false ∧ w'.fromBlock ≤ w.subRangeEnd := by
    refine ⟨Bool.eq_false_iff.mpr fun hEnded => h (.inl hEnded), Nat.not_lt.mp fun hPast => ?_⟩
    exact h (.inr (hEnd ▸ hPast))
  refine ⟨⟨⟨hStart, hEnd⟩, ?_, ?_, fun h => ?_, fun h => ?_⟩, ?_⟩
  · rw [hResults, resultRows_append, resultRows_sent]
    exact hOn'
  · intro r hr
    rw [hResults] at hr
    rcases List.mem_append.mp hr with hOld | hNew
    · exact hErrors r hOld
    · obtain ⟨batch, -, rfl⟩ := Option.map_eq_some_iff.mp (Option.mem_toList.mp hNew)
      exact ⟨batch, rfl⟩
  · obtain ⟨hFrom, hTo', -⟩ := hMoves (hStays h).1
    have := (hStays h).2
    rw [hFrom, hTo']
    omega
  · obtain ⟨hFrom, hTo', hLast⟩ := hMoves (hStays h).1
    rw [hFrom, hTo']
    exact .inr hLast
  · by_cases h : w'.Left
    · exact .inl h
    · obtain ⟨hFrom, hTo', -⟩ := hMoves (hStays h).1
      have := (hStays h).2
      rw [hFrom, hTo']
      exact .inr (by omega)

theorem worker_round_left {w : Worker} (limit : Option Nat) (response : Response) (reset : Bool)
    (hLeft : w.Left) : w.round node limit response reset = w := if_pos hLeft

/-- Against a node that answers single blocks only, a worker whose failures all shrink their ranges
gets to the end of its sub-range. -/
theorem singles_cover_subRange {subRangeStart subRangeEnd : Nat} {limit : Option Nat}
    {behaviour : Behaviour} (hStart : subRangeStart ≤ subRangeEnd)
    (hRange : subRangeEnd + 2 < 2 ^ 64)
    (hAdvances : ∀ n, let w := Worker.after node subRangeStart subRangeEnd limit behaviour n
      ¬ w.Left → (behaviour n).1.Advances node w.fromBlock w.toBlock subRangeEnd
        w.maxBlockRangeLimitation) :
    CoversSubRange node subRangeStart subRangeEnd limit behaviour := by
  have hOnWay (n : Nat) : (Worker.after node subRangeStart subRangeEnd limit behaviour n).OnWay node
      subRangeStart subRangeEnd := by
    induction n with
    | zero =>
      exact ⟨⟨rfl, rfl⟩, start_worker_onCourse limit hStart, fun r hr => absurd hr List.not_mem_nil,
        fun _ => ⟨hStart, le_rfl⟩, fun _ => .inl rfl⟩
    | succ n ih =>
      rw [Worker.after]
      by_cases hLeft : (Worker.after node subRangeStart subRangeEnd limit behaviour n).Left
      · rw [worker_round_left _ _ _ hLeft]
        exact ih
      · exact (worker_round_onWay limit _ hRange ih hLeft (hAdvances n hLeft)).1
  refine ⟨ends_of_less (fun n => leftOf subRangeEnd
      (Worker.after node subRangeStart subRangeEnd limit behaviour n).fromBlock
      (Worker.after node subRangeStart subRangeEnd limit behaviour n).toBlock) fun n hGoes =>
    (worker_round_onWay limit (behaviour n).2 hRange (hOnWay n) hGoes (hAdvances n hGoes)).2,
    fun n hLeft => ⟨(hOnWay n).noErrors, ?_⟩⟩
  obtain ⟨hFirst, hLast⟩ := (hOnWay n).bounds
  have hDelivered := (hOnWay n).onCourse.past hLeft
  rw [hFirst, hLast] at hDelivered
  exact hDelivered.logs

end Workers

/-- A failed request leads to progress exactly if what comes back shrinks its range; and runs whose
failures all do finish against a node that answers single blocks only, the sequential fetch as well as
a worker. -/
theorem retries_progress (limit : Option Nat) :
    (∀ (response : Response) (fromBlock toBlock bound : Nat) (range : Nat × Nat), fromBlock ≤ toBlock → toBlock < 2 ^ 64 → bound < 2 ^ 64 →
      response.failedRange fromBlock toBlock limit = some range →
      (Progresses fromBlock toBlock bound range ↔
        response.Shrinks fromBlock toBlock bound limit)) ∧
    (∀ (network : String) (node : NodeLogs network) (startBlock snapshotToBlock : Nat)
        (behaviour : Behaviour), snapshotToBlock + 2 < 2 ^ 64 →
      (∀ l ∈ limit, startBlock + l < 2 ^ 64) →
      (∀ n, let s := Historic.after node startBlock snapshotToBlock limit behaviour n
        s.fromBlock ≤ snapshotToBlock → (behaviour n).1.Advances node s.fromBlock s.toBlock
          snapshotToBlock s.maxBlockRangeLimitation) →
      CoversHistory node startBlock snapshotToBlock limit behaviour) ∧
    (∀ (network : String) (node : NodeLogs network) (subRangeStart subRangeEnd : Nat)
        (behaviour : Behaviour), subRangeStart ≤ subRangeEnd →
      subRangeEnd + 2 < 2 ^ 64 →
      (∀ n, let w := Worker.after node subRangeStart subRangeEnd limit behaviour n
        ¬ w.Left → (behaviour n).1.Advances node w.fromBlock w.toBlock subRangeEnd
          w.maxBlockRangeLimitation) →
      CoversSubRange node subRangeStart subRangeEnd limit behaviour) :=
  ⟨fun _ _ _ _ _ => failedRange_progresses_iff, fun _ _ _ _ _ => singles_cover_history,
    fun _ _ _ _ _ => singles_cover_subRange⟩

/-- A hint to its first block takes a node through a range of two blocks. -/
theorem retries_progress_single_block_hint :
    CoversHistory (transferLogs "a") 1 2 none
        (failingOnce ⟨"this block range should work: [0x1, 0x1]", ""⟩) ∧
      CoversSubRange (transferLogs "a") 1 2 none
        (failingOnce ⟨"this block range should work: [0x1, 0x1]", ""⟩) := by
  have hHint : Response.Shrinks 1 2 2 none
      (.error ⟨"this block range should work: [0x1, 0x1]", ""⟩) := by
    unfold Response.Shrinks FetchError.Shrinks
    dsimp only
    rw [show FetchError.advice ⟨"this block range should work: [0x1, 0x1]", ""⟩ = .range 1 1 by
      decide]
    exact ⟨rfl, by decide, by decide, fun _ => by decide⟩
  refine ⟨(retries_progress none).2.1 _ (transferLogs "a") 1 2 _ (by decide) (by simp) fun n => ?_,
    (retries_progress none).2.2 _ (transferLogs "a") 1 2 _ (by decide) (by decide) fun n => ?_⟩
  · match n with
    | 0 => exact fun _ => ⟨by decide, hHint⟩
    | 1 => exact fun _ => ⟨by decide, fun _ l hl => nomatch hl⟩
    | 2 => exact fun _ => ⟨by decide, fun _ l hl => nomatch hl⟩
    | n + 3 =>
      intro s hGoes
      have hPast : 2 < s.fromBlock := by
        clear hGoes
        induction n with
        | zero => decide
        | succ n ih => exact lt_of_lt_of_eq ih (congrArg Historic.fromBlock (round_past _ _ _ ih)).symm
      omega
  · match n with
    | 0 => exact fun _ => ⟨by decide, hHint⟩
    | 1 => exact fun _ => ⟨by decide, fun _ l hl => nomatch hl⟩
    | 2 => exact fun _ => ⟨by decide, fun _ l hl => nomatch hl⟩
    | n + 3 =>
      intro w hGoes
      refine absurd ?_ hGoes
      clear hGoes
      induction n with
      | zero => decide
      | succ n ih => exact (congrArg Worker.Left (worker_round_left _ _ _ ih)).mpr ih

/-- Halving makes a range of two blocks larger, past its bound, and then keeps it at three: against a
node that answers single blocks only the fetch does not end. -/
theorem halving_never_ends :
    ¬ Progresses 1 2 2
        ((rangeAfterError ⟨"response is too big", ""⟩ 1 2 none).fromBlock,
          (rangeAfterError ⟨"response is too big", ""⟩ 1 2 none).toBlock) ∧
      ¬ CoversHistory (transferLogs "a") 1 2 none
        fun _ => (.error ⟨"response is too big", ""⟩, false) := by
  refine ⟨fun h => absurd h.bounded (by decide), fun h => ?_⟩
  obtain ⟨n, hPast⟩ := h.2.1
  have hStays (n : Nat) : (Historic.after (transferLogs "a") 1 2 none
      (fun _ => (.error ⟨"response is too big", ""⟩, false)) (n + 1)).fromBlock = 1 ∧
      (Historic.after (transferLogs "a") 1 2 none
        (fun _ => (.error ⟨"response is too big", ""⟩, false)) (n + 1)).toBlock = 3 ∧
      (Historic.after (transferLogs "a") 1 2 none
        (fun _ => (.error ⟨"response is too big", ""⟩, false)) (n + 1)).maxBlockRangeLimitation =
        none := by
    induction n with
    | zero => decide
    | succ n ih =>
      obtain ⟨hFrom, hTo, hLimit⟩ := ih
      rw [Historic.after, Historic.round, if_neg (by omega)]
      simp only [hFrom, hTo, hLimit, fetchHistoricLogsStream]
      decide
  cases n with
  | zero => exact absurd hPast (by decide)
  | succ n =>
    rw [(hStays n).1] at hPast
    exact absurd hPast (by decide)

end Rindexer.Indexer
