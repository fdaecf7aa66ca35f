import Rindexer.Indexer.Live
import Rindexer.Indexer.Start
import Rindexer.Lib.Interval

/-! The two legs of a start: history up to a snapshot, then the live leg with a snapshot of its own
and the live loop behind it.  Each leg reads the head and the cursor anew. -/

namespace Rindexer.Indexer

open Rindexer.Lib Rindexer.Database

/-- Where the last synced block of a detail is kept, if anywhere. -/
structure CursorStorage where
  durable : Bool
  block : Nat

/-- Zero stands for no progress. -/
def CursorStorage.lastSyncedBlock (storage : CursorStorage) : Option Nat :=
  if storage.durable ∧ storage.block ≠ 0 then some storage.block else none

def CursorStorage.advance (storage : CursorStorage) (toBlock : Nat) : CursorStorage :=
  { storage with block := max storage.block toBlock }

/-- The blocks that a leg asks for, and its distance from the head. -/
structure Leg where
  startBlock : Nat
  endBlock : Nat
  indexingDistanceFromHead : Nat
deriving DecidableEq, Repr

def Leg.blocks (leg : Leg) : List Nat :=
  List.range' leg.startBlock (leg.endBlock + 1 - leg.startBlock)

/-- The last range of a fetch ends at the snapshot, if there is one. -/
def Leg.cursorAfter (leg : Leg) (storage : CursorStorage) : CursorStorage :=
  if leg.startBlock ≤ leg.endBlock then storage.advance leg.endBlock else storage

/-- `get_start_end_block` once the last synced block is known, `none` for a block above the head. -/
def startEndBlock (x : Detail) (lastSyncedBlock : Option Nat) (latestBlock : Nat) : Option Leg :=
  if x.startBlock.any (latestBlock < ·) || x.endBlock.any (latestBlock < ·) then none
  else
    let lastKnownStartBlock := if x.startBlock.isSome then lastSyncedBlock.map (· + 1) else none
    let startBlock := lastKnownStartBlock.getD (x.startBlock.getD latestBlock)
    let endBlock := min (x.endBlock.getD latestBlock) latestBlock
    let (endBlock, indexingDistanceFromHead) :=
      calculateSafeBlockNumber x.reorgSafeDistance x.chainId latestBlock endBlock
    some ⟨startBlock, endBlock, indexingDistanceFromHead⟩

/-- With a database, the last synced block is what the seeded cursor says. -/
theorem getStartEndBlock_eq (x : Detail) (latestBlock : Nat) (db : Db) {seeded : Db}
    {lastSyncedBlock : Option Nat} {blocks : Db × Nat × Nat × Nat}
    (hRead : getLastSyncedBlockNumber db x.checkpointTable x.network x.detailKey =
      .ok (seeded, lastSyncedBlock)) :
    getStartEndBlock x latestBlock db = .ok blocks ↔
      ∃ leg, startEndBlock x lastSyncedBlock latestBlock = some leg ∧
        blocks = (seeded, leg.startBlock, leg.endBlock, leg.indexingDistanceFromHead) := by
  unfold getStartEndBlock startEndBlock
  by_cases hStart : x.startBlock.any (latestBlock < ·)
  · simp [hStart]
  · by_cases hEnd : x.endBlock.any (latestBlock < ·)
    · simp [hStart, hEnd]
    · simp only [hStart, hEnd, hRead, Bool.false_eq_true, if_false, Bool.or_false,
        Option.some.injEq, exists_eq_left', Except.ok.injEq]
      exact eq_comm

structure NetworkContract extends Detail where
  id : String

structure ProcessedNetworkContract where
  id : String
  processedUpTo : Nat

/-- The details for the live leg start from what has been processed. -/
def reapplyAfterHistoric (details : List NetworkContract)
    (processedNetworkContracts : List ProcessedNetworkContract) : List NetworkContract :=
  (details.map fun d =>
    if d.endBlock.isNone then
      match processedNetworkContracts.find? (·.id = d.id) with
      | some processedBlock => { d with startBlock := some processedBlock.processedUpTo }
      | none => d
    else d).filter (·.endBlock.isNone)

/-- How an event is indexed: on its own, from several workers or one, or in a group of events that
depend on each other. -/
structure Pipeline where
  fetchConcurrency : Option Nat
  isFactoryEvent : Bool
  hasDependencies : Bool

def parallelMinBlocks : Nat := 1000

/-- The first block of the live loop: after the snapshot, or where the filter of the sequential fetch
is left. -/
def Pipeline.liveFrom (pipeline : Pipeline) (leg : Leg) : Nat :=
  let useParallel := pipeline.fetchConcurrency.any (1 < ·) && !pipeline.isFactoryEvent
  let totalBlocks := leg.endBlock - leg.startBlock + 1
  if pipeline.hasDependencies then leg.endBlock + 1
  else if useParallel ∧ parallelMinBlocks ≤ totalBlocks then leg.endBlock + 1
  else if leg.endBlock < leg.startBlock then leg.startBlock
  else leg.endBlock + 1

/-- The filter that a fetch leaves, which is on course, is at the first block of the live loop. -/
theorem fetch_leaves_liveFrom {network : String} {node : NodeLogs network} {leg : Leg}
    {limit : Option Nat} {behaviour : Behaviour} {pipeline : Pipeline}
    (hPipeline : pipeline.hasDependencies = false) {n : Nat}
    (hIdle : leg.endBlock < leg.startBlock → n = 0)
    (hOnCourse : leg.startBlock ≤ leg.endBlock →
      (Historic.after node leg.startBlock leg.endBlock limit behaviour n).OnCourse node
        leg.startBlock leg.endBlock)
    (hPast : leg.endBlock <
      (Historic.after node leg.startBlock leg.endBlock limit behaviour n).fromBlock) :
    (Historic.after node leg.startBlock leg.endBlock limit behaviour n).fromBlock =
      pipeline.liveFrom leg := by
  unfold Pipeline.liveFrom
  simp only [hPipeline, Bool.false_eq_true, if_false]
  by_cases hNone : leg.endBlock < leg.startBlock
  · rw [hIdle hNone, if_neg (by unfold parallelMinBlocks; omega), if_pos hNone]
    rfl
  · rw [if_neg hNone, ite_self]
    have hPlace := (hOnCourse (Nat.not_lt.mp hNone)).place
    omega

/-! ### Both legs of a detail -/

/-- Details with another identifier that have been processed. -/
abbrev OtherProcessed (id : String) := { c : ProcessedNetworkContract // c.id ≠ id }

structure Legs where
  historic : Option Leg
  live : Option Leg

/-- The legs of a detail, which is among others that have been processed. -/
def legs (d : NetworkContract) (storage : CursorStorage) (before after : List (OtherProcessed d.id))
    (head1 head2 : Nat) : Legs :=
  match startEndBlock d.toDetail storage.lastSyncedBlock head1 with
  | none => ⟨none, none⟩
  | some historic =>
    let processed :=
      before.map Subtype.val ++ ⟨d.id, historic.endBlock⟩ :: after.map Subtype.val
    ⟨some historic, (reapplyAfterHistoric [d] processed).head?.bind fun live =>
      startEndBlock live.toDetail (historic.cursorAfter storage).lastSyncedBlock head2⟩

/-- The blocks of both legs and of the live loop, once that has got to `next`. -/
def Legs.covered (pipeline : Pipeline) (legs : Legs) (next : Nat) : List Nat :=
  (legs.historic.elim [] Leg.blocks) ++ legs.live.elim [] fun leg =>
    leg.blocks ++ List.range' (pipeline.liveFrom leg) (next - pipeline.liveFrom leg)

def Detail.distance (x : Detail) : Nat :=
  (x.reorgSafeDistance.bind (ReorgSafeDistance.resolve x.chainId)).getD 0

/-- A leg asks for no block above the safe head, and its live loop plans no range above one. -/
def SafeLeg (x : Detail) (latestBlock : Nat) (leg : Leg) : Prop :=
  (∀ n ∈ leg.blocks, n ≤ latestBlock - x.distance) ∧
    ∀ retryHint nextFrom head limit plan, nextFrom < 2 ^ 64 →
      LiveFetchPlan.plan retryHint nextFrom (head - leg.indexingDistanceFromHead) limit = some plan →
        plan.toBlock ≤ head - x.distance

/-- The blocks of the legs and the live loop are one range, which begins after the last synced block or
else at the configured start, and none of them is above the safe head. -/
structure HandsOff (d : NetworkContract) (storage : CursorStorage) (pipeline : Pipeline)
    (head1 head2 : Nat) (legs : Legs) : Prop where
  oneRange : ∃ first, (∀ last, storage.lastSyncedBlock = some last → first = last + 1) ∧
    (storage.lastSyncedBlock = none → ∀ s, d.startBlock = some s → first = s) ∧
      ∀ next, Consecutive first (legs.covered pipeline next)
  historicSafe : ∀ leg, legs.historic = some leg → SafeLeg d.toDetail head1 leg
  liveSafe : ∀ leg, legs.live = some leg → SafeLeg d.toDetail head2 leg

section Blocks

variable {x : Detail} {lastSyncedBlock : Option Nat} {latestBlock : Nat} {leg : Leg}

/-- The manifest names no block above the head. -/
def Detail.Accepts (x : Detail) (latestBlock : Nat) : Prop :=
  (∀ s, x.startBlock = some s → s ≤ latestBlock) ∧ ∀ e, x.endBlock = some e → e ≤ latestBlock

/-- The first block: after the last synced one if a start is configured, or the head. -/
def Detail.firstBlock (x : Detail) (lastSyncedBlock : Option Nat) (latestBlock : Nat) : Nat :=
  x.startBlock.elim latestBlock fun s => lastSyncedBlock.elim s (· + 1)

/-- The snapshot. -/
def Detail.snapshot (x : Detail) (latestBlock : Nat) : Nat :=
  min (x.endBlock.getD latestBlock) (latestBlock - x.distance)

theorem calculateSafeBlockNumber_eq (x : Detail) (latestBlock : Nat) {endBlock : Nat}
    (h : endBlock ≤ latestBlock) :
    calculateSafeBlockNumber x.reorgSafeDistance x.chainId latestBlock endBlock =
      (min endBlock (latestBlock - x.distance), x.distance) := by
  unfold calculateSafeBlockNumber Detail.distance
  cases x.reorgSafeDistance.bind (ReorgSafeDistance.resolve x.chainId) with
  | none =>
    rw [Option.getD_none, Nat.sub_zero, Nat.min_eq_left h]
  | some distance => rfl

theorem startEndBlock_eq_some :
    startEndBlock x lastSyncedBlock latestBlock = some leg ↔
      x.Accepts latestBlock ∧
        leg = ⟨x.firstBlock lastSyncedBlock latestBlock, x.snapshot latestBlock, x.distance⟩ := by
  unfold startEndBlock
  split
  next hAbove =>
    constructor
    · intro h
      cases h
    · rintro ⟨⟨hStart, hEnd⟩, -⟩
      rw [Bool.or_eq_true] at hAbove
      rcases hAbove with hAny | hAny
      · cases hs : x.startBlock with
        | none => simp [hs] at hAny
        | some s => exact absurd (hStart s hs) (by simpa [hs] using hAny)
      · cases he : x.endBlock with
        | none => simp [he] at hAny
        | some e => exact absurd (hEnd e he) (by simpa [he] using hAny)
  next hBelow =>
    have hAccepts : x.Accepts latestBlock := by
      rw [Bool.or_eq_true, not_or] at hBelow
      constructor
      · intro s hs
        by_contra hLess
        exact hBelow.1 (by rw [hs]; simpa using hLess)
      · intro e he
        by_contra hLess
        exact hBelow.2 (by rw [he]; simpa using hLess)
    have hEnd : min (x.endBlock.getD latestBlock) latestBlock = x.endBlock.getD latestBlock := by
      cases he : x.endBlock with
      | none => exact Nat.min_self latestBlock
      | some e => exact Nat.min_eq_left (hAccepts.2 e he)
    have hSafe := calculateSafeBlockNumber_eq x latestBlock (Nat.min_le_right
      (x.endBlock.getD latestBlock) latestBlock)
    have hFirst : (if x.startBlock.isSome then lastSyncedBlock.map (· + 1) else none).getD
        (x.startBlock.getD latestBlock) = x.firstBlock lastSyncedBlock latestBlock := by
      unfold Detail.firstBlock
      cases x.startBlock with
      | none => rfl
      | some s =>
        cases lastSyncedBlock with
        | none => rfl
        | some last => rfl
    rw [hEnd] at hSafe
    simp only [hFirst, hEnd, hSafe, Option.some.injEq, hAccepts, true_and]
    exact eq_comm

theorem safeLeg_of_startEndBlock (h : startEndBlock x lastSyncedBlock latestBlock = some leg) :
    SafeLeg x latestBlock leg := by
  obtain ⟨-, rfl⟩ := startEndBlock_eq_some.mp h
  constructor
  · intro n hn
    rw [Leg.blocks, List.mem_range'_1] at hn
    have hSnapshot : x.snapshot latestBlock ≤ latestBlock - x.distance := Nat.min_le_right _ _
    have hLess : n < x.firstBlock lastSyncedBlock latestBlock +
      (x.snapshot latestBlock + 1 - x.firstBlock lastSyncedBlock latestBlock) := hn.2
    have hFirst : x.firstBlock lastSyncedBlock latestBlock ≤ n := hn.1
    omega
  · intro retryHint nextFrom head limit plan hNext hPlan
    exact (plan_within hNext hPlan).2.2

end Blocks

/-- The detail for the live leg starts from its own snapshot. -/
theorem reapplyAfterHistoric_head (d : NetworkContract) (before after : List (OtherProcessed d.id))
    (processedUpTo : Nat) :
    (reapplyAfterHistoric [d]
      (before.map Subtype.val ++ ⟨d.id, processedUpTo⟩ :: after.map Subtype.val)).head? =
        if d.endBlock.isNone then some { d with startBlock := some processedUpTo } else none := by
  have hFind : (before.map Subtype.val ++
      (⟨d.id, processedUpTo⟩ :: after.map Subtype.val : List ProcessedNetworkContract)).find?
        (·.id = d.id) = some ⟨d.id, processedUpTo⟩ := by
    rw [List.find?_append]
    have hBefore : (before.map Subtype.val).find? (fun c => decide (c.id = d.id)) = none := by
      rw [List.find?_eq_none]
      intro c hc
      obtain ⟨other, -, rfl⟩ := List.mem_map.mp hc
      simpa using other.2
    rw [hBefore, Option.none_or, List.find?_cons_of_pos (by simp)]
  unfold reapplyAfterHistoric
  rw [List.map_singleton, hFind]
  by_cases hEnd : d.endBlock.isNone
  · rw [if_pos hEnd, if_pos hEnd]
    simp [hEnd]
  · rw [if_neg hEnd, if_neg hEnd]
    simp [hEnd]

/-! ### When the legs join -/

section Joins

variable {d : NetworkContract} {storage : CursorStorage} {pipeline : Pipeline}
  {before after : List (OtherProcessed d.id)} {head1 head2 : Nat}

/-- The live leg of a detail that is indexed live. -/
def liveLeg (d : NetworkContract) (storage : CursorStorage) (head1 head2 : Nat) : Option Leg :=
  let historic : Leg :=
    ⟨d.firstBlock storage.lastSyncedBlock head1, d.snapshot head1, d.distance⟩
  if d.endBlock = none ∧ d.snapshot head1 ≤ head2 then
    some ⟨(historic.cursorAfter storage).lastSyncedBlock.elim (d.snapshot head1) (· + 1),
      head2 - d.distance, d.distance⟩
  else none

theorem legs_eq (h : d.Accepts head1) : legs d storage before after head1 head2 =
    ⟨some ⟨d.firstBlock storage.lastSyncedBlock head1, d.snapshot head1, d.distance⟩,
      liveLeg d storage head1 head2⟩ := by
  unfold legs
  rw [startEndBlock_eq_some.mpr ⟨h, rfl⟩]
  simp only [reapplyAfterHistoric_head, liveLeg, Legs.mk.injEq, true_and]
  by_cases hEnd : d.endBlock = none
  · simp only [hEnd, Option.isNone_none, if_true, Option.bind_some, true_and]
    split
    next hHead =>
      rw [startEndBlock_eq_some]
      constructor
      · constructor
        · intro s hs
          cases hs
          exact hHead
        · intro e he
          cases he
      · rw [Leg.mk.injEq]
        exact ⟨rfl, (Nat.min_eq_right (Nat.sub_le _ _)).symm, rfl⟩
    next hHead =>
      rw [Option.eq_none_iff_forall_ne_some]
      intro leg hLeg
      exact hHead ((startEndBlock_eq_some.mp hLeg).1.1 _ rfl)
  · have hLive : d.endBlock.isNone = false := by
      rw [Option.isNone_eq_false_iff]
      exact Option.isSome_iff_ne_none.mpr hEnd
    simp [hEnd, hLive]

/-- Ranges that follow each other are one range, however far the last one gets. -/
theorem consecutive_legs {first : Nat} {historic leg : Leg} {from_ : Nat} :
    (∀ next, Consecutive first (historic.blocks ++ (leg.blocks ++
      List.range' from_ (next - from_)))) ↔
      (historic.startBlock ≤ historic.endBlock → historic.startBlock = first) ∧
      (leg.startBlock ≤ leg.endBlock →
        leg.startBlock = first + (historic.endBlock + 1 - historic.startBlock)) ∧
      from_ = first + (historic.endBlock + 1 - historic.startBlock) +
        (leg.endBlock + 1 - leg.startBlock) := by
  simp only [consecutive_append, Leg.blocks, consecutive_range', List.length_range']
  constructor
  · intro h
    obtain ⟨h1, h2, h3⟩ := h (from_ + 1)
    omega
  · rintro ⟨h1, h2, h3⟩ next
    omega

/-- What the cursor says after the historic leg. -/
theorem lastSyncedBlock_cursorAfter (leg : Leg) :
    (leg.cursorAfter storage).lastSyncedBlock =
      if leg.startBlock ≤ leg.endBlock then
        if storage.durable ∧ max storage.block leg.endBlock ≠ 0 then
          some (max storage.block leg.endBlock)
        else none
      else storage.lastSyncedBlock := by
  unfold Leg.cursorAfter
  split
  next => rfl
  next => rfl

/-- The legs join: what the historic leg has indexed is in a durable cursor, or it indexed nothing and
the cursor or the lack of a start says where to begin.  The live loop of a group of dependent events
also takes the snapshots to be in order. -/
def Joins (d : NetworkContract) (storage : CursorStorage) (pipeline : Pipeline) (head1 head2 : Nat) :
    Prop :=
  let first := d.firstBlock storage.lastSyncedBlock head1
  let snapshot1 := d.snapshot head1
  let snapshot2 := head2 - d.distance
  (d.startBlock = none → first ≤ snapshot1 →
    ∀ last, storage.lastSyncedBlock = some last → last + 1 = head1) ∧
  (d.endBlock = none → snapshot1 ≤ head2 →
    (first ≤ snapshot1 → storage.durable ∧ snapshot1 ≠ 0 ∧
      (pipeline.hasDependencies → snapshot1 ≤ snapshot2)) ∧
    (snapshot1 < first → (storage.lastSyncedBlock = none → d.startBlock = none) ∧
      (pipeline.hasDependencies → ∀ last, storage.lastSyncedBlock = some last → last ≤ snapshot2)))

theorem liveFrom_eq (pipeline : Pipeline) (leg : Leg) : pipeline.liveFrom leg =
    if pipeline.hasDependencies then leg.endBlock + 1
    else max leg.startBlock (leg.endBlock + 1) := by
  unfold Pipeline.liveFrom parallelMinBlocks
  split
  next => rfl
  next =>
    simp only
    split
    next => omega
    next => split <;> omega

theorem lastSyncedBlock_eq_some {last : Nat} (h : storage.lastSyncedBlock = some last) :
    storage.durable ∧ storage.block = last ∧ last ≠ 0 := by
  unfold CursorStorage.lastSyncedBlock at h
  split at h
  next hRead =>
    cases h
    exact ⟨hRead.1, rfl, hRead.2⟩
  next => cases h

theorem block_eq_zero (h : storage.lastSyncedBlock = none) (hDurable : storage.durable) :
    storage.block = 0 := by
  by_contra hBlock
  rw [CursorStorage.lastSyncedBlock, if_pos ⟨hDurable, hBlock⟩] at h
  cases h

/-- The first block of the live leg. -/
theorem liveStart_eq {cursor : Option Nat}
    (hCursor : cursor = if d.firstBlock storage.lastSyncedBlock head1 ≤ d.snapshot head1 then
        if storage.durable ∧ max storage.block (d.snapshot head1) ≠ 0 then
          some (max storage.block (d.snapshot head1))
        else none
      else storage.lastSyncedBlock) :
    (d.firstBlock storage.lastSyncedBlock head1 ≤ d.snapshot head1 →
      (d.startBlock = none → ∀ last, storage.lastSyncedBlock = some last → last + 1 = head1) →
      cursor.elim (d.snapshot head1) (· + 1) =
        if storage.durable ∧ d.snapshot head1 ≠ 0 then d.snapshot head1 + 1 else d.snapshot head1) ∧
    (d.snapshot head1 < d.firstBlock storage.lastSyncedBlock head1 →
      cursor.elim (d.snapshot head1) (· + 1) =
        storage.lastSyncedBlock.elim (d.snapshot head1) (· + 1)) := by
  subst hCursor
  constructor
  · intro hIndexes hHead
    rw [if_pos hIndexes]
    by_cases hDurable : storage.durable
    · have hBlock : storage.block ≤ d.snapshot head1 := by
        cases hRead : storage.lastSyncedBlock with
        | none =>
          rw [block_eq_zero hRead hDurable]
          exact Nat.zero_le _
        | some last =>
          obtain ⟨-, rfl, -⟩ := lastSyncedBlock_eq_some hRead
          rw [hRead] at hIndexes hHead
          unfold Detail.firstBlock at hIndexes
          cases hStart : d.startBlock with
          | none =>
            have := hHead hStart _ rfl
            rw [hStart, Option.elim_none] at hIndexes
            omega
          | some s =>
            rw [hStart, Option.elim_some, Option.elim_some] at hIndexes
            omega
      rw [Nat.max_eq_right hBlock]
      split
      next => rfl
      next => rfl
    · simp [hDurable]
  · intro hNone
    rw [if_neg (Nat.not_le.mpr hNone)]

/-- Two legs and a live loop that begin at `first`, where the live leg begins at `idle` if the historic
leg indexed nothing. -/
theorem legs_join_iff {first snapshot1 snapshot2 liveStart idle : Nat} {durable dependent : Bool}
    (hIndexed : first ≤ snapshot1 → liveStart =
      if durable ∧ snapshot1 ≠ 0 then snapshot1 + 1 else snapshot1)
    (hIdle : snapshot1 < first → liveStart = idle) (hBegin : snapshot1 < first → idle ≤ first) :
    ((liveStart ≤ snapshot2 → liveStart = first + (snapshot1 + 1 - first)) ∧
      (if dependent then snapshot2 + 1 else max liveStart (snapshot2 + 1)) =
        first + (snapshot1 + 1 - first) + (snapshot2 + 1 - liveStart)) ↔
      (first ≤ snapshot1 → durable ∧ snapshot1 ≠ 0 ∧ (dependent → snapshot1 ≤ snapshot2)) ∧
      (snapshot1 < first → idle = first ∧ (dependent → first ≤ snapshot2 + 1)) := by
  rcases Nat.lt_or_ge snapshot1 first with hNone | hSome
  · obtain rfl := hIdle hNone
    have := hBegin hNone
    cases dependent
    · simp only [Bool.false_eq_true, if_false, false_implies, and_true]
      omega
    · simp only [if_true, true_implies]
      omega
  · have hStart := hIndexed hSome
    by_cases hCursor : durable ∧ snapshot1 ≠ 0
    · rw [if_pos hCursor] at hStart
      have hTotal : first + (snapshot1 + 1 - first) = snapshot1 + 1 := by omega
      rw [hTotal, hStart]
      constructor
      · rintro ⟨-, hLive⟩
        refine ⟨fun _ => ⟨hCursor.1, hCursor.2, fun hDependent => ?_⟩,
          fun hNone => absurd hNone (Nat.not_lt.mpr hSome)⟩
        rw [if_pos hDependent] at hLive
        omega
      · rintro ⟨hJoins, -⟩
        refine ⟨fun _ => rfl, ?_⟩
        split
        next hDependent =>
          have := (hJoins hSome).2.2 hDependent
          omega
        next => omega
    · rw [if_neg hCursor] at hStart
      have hFalse : ¬ (durable ∧ snapshot1 ≠ 0 ∧ (dependent → snapshot1 ≤ snapshot2)) :=
        fun h => hCursor ⟨h.1, h.2.1⟩
      simp only [hSome, hFalse, forall_const, false_and, iff_false]
      rintro ⟨hFollows, hLive⟩
      by_cases hReaches : liveStart ≤ snapshot2
      · have := hFollows hReaches
        omega
      · split at hLive
        · omega
        · omega

/-- Without a start and a last synced block the legs may begin anywhere. -/
theorem unsynced_join_iff {head snapshot1 snapshot2 liveStart : Nat} {durable dependent : Bool}
    (hIndexed : head ≤ snapshot1 → liveStart =
      if durable ∧ snapshot1 ≠ 0 then snapshot1 + 1 else snapshot1)
    (hIdle : snapshot1 < head → liveStart = snapshot1) :
    (∃ first, (head ≤ snapshot1 → head = first) ∧
      (liveStart ≤ snapshot2 → liveStart = first + (snapshot1 + 1 - head)) ∧
      (if dependent then snapshot2 + 1 else max liveStart (snapshot2 + 1)) =
        first + (snapshot1 + 1 - head) + (snapshot2 + 1 - liveStart)) ↔
      (head ≤ snapshot1 → durable ∧ snapshot1 ≠ 0 ∧ (dependent → snapshot1 ≤ snapshot2)) := by
  have hJoin := @legs_join_iff head snapshot1 snapshot2 liveStart snapshot1 durable dependent
    hIndexed hIdle fun hNone => hNone.le
  rcases Nat.lt_or_ge snapshot1 head with hNone | hSome
  · have hNotSome := Nat.not_le.mpr hNone
    simp only [hNotSome, false_implies, true_and, iff_true]
    by_cases hReaches : liveStart ≤ snapshot2
    · refine ⟨liveStart, by omega, ?_⟩
      split <;> omega
    · refine ⟨if dependent then snapshot2 + 1 else max liveStart (snapshot2 + 1), by omega, ?_⟩
      omega
  · constructor
    · rintro ⟨first, hFirst, hRest⟩
      obtain rfl := hFirst hSome
      exact (hJoin.mp hRest).1
    · intro h
      exact ⟨head, fun _ => rfl, hJoin.mpr ⟨h, fun hNone => absurd hNone (Nat.not_lt.mpr hSome)⟩⟩

/-- Without a start the historic leg begins at the head, whatever the last synced block is. -/
theorem headless_join_iff {head last snapshot1 snapshot2 liveStart : Nat} {durable dependent : Bool}
    (hSnapshot : snapshot1 ≤ head)
    (hIndexed : head ≤ snapshot1 → last + 1 = head → liveStart =
      if durable ∧ snapshot1 ≠ 0 then snapshot1 + 1 else snapshot1)
    (hIdle : snapshot1 < head → liveStart = last + 1) :
    ((head ≤ snapshot1 → head = last + 1) ∧
      (liveStart ≤ snapshot2 → liveStart = last + 1 + (snapshot1 + 1 - head)) ∧
      (if dependent then snapshot2 + 1 else max liveStart (snapshot2 + 1)) =
        last + 1 + (snapshot1 + 1 - head) + (snapshot2 + 1 - liveStart)) ↔
      (head ≤ snapshot1 → last + 1 = head) ∧
      (head ≤ snapshot1 → durable ∧ snapshot1 ≠ 0 ∧ (dependent → snapshot1 ≤ snapshot2)) ∧
      (snapshot1 < head → dependent → last ≤ snapshot2) := by
  rcases Nat.lt_or_ge snapshot1 head with hNone | hSome
  · have hNotSome := Nat.not_le.mpr hNone
    obtain rfl := hIdle hNone
    simp only [hNotSome, hNone, false_implies, true_and, forall_const]
    cases dependent
    · simp only [Bool.false_eq_true, if_false, false_implies, iff_true]
      omega
    · simp only [if_true, true_implies]
      omega
  · by_cases hHead : last + 1 = head
    · subst hHead
      have hJoin := @legs_join_iff (last + 1) snapshot1 snapshot2 liveStart (last + 1) durable dependent
        (fun h => hIndexed h rfl) (fun h => absurd h (Nat.not_lt.mpr hSome)) fun _ => le_rfl
      simp only [implies_true, true_and, hJoin, Nat.not_lt.mpr hSome, false_implies]
    · constructor
      · exact fun h => absurd (h.1 hSome).symm hHead
      · exact fun h => absurd (h.1 hSome) hHead

/-- The legs of a detail that the manifest's blocks allow are one range exactly if they join. -/
theorem oneRange_iff (h : d.Accepts head1) :
    (∃ first, (∀ last, storage.lastSyncedBlock = some last → first = last + 1) ∧
      (storage.lastSyncedBlock = none → ∀ s, d.startBlock = some s → first = s) ∧
        ∀ next, Consecutive first
          ((legs d storage before after head1 head2).covered pipeline next)) ↔
      Joins d storage pipeline head1 head2 := by
  rw [legs_eq h]
  unfold Legs.covered liveLeg Joins
  simp only [Option.elim_some]
  by_cases hLive : d.endBlock = none ∧ d.snapshot head1 ≤ head2
  · rw [if_pos hLive]
    simp only [Option.elim_some, consecutive_legs, liveFrom_eq, lastSyncedBlock_cursorAfter]
    generalize hCursor : (if d.firstBlock storage.lastSyncedBlock head1 ≤ d.snapshot head1 then
        if storage.durable ∧ max storage.block (d.snapshot head1) ≠ 0 then
          some (max storage.block (d.snapshot head1))
        else none
      else storage.lastSyncedBlock) = cursor
    obtain ⟨hIndexed, hIdle⟩ := liveStart_eq hCursor.symm
    generalize cursor.elim (d.snapshot head1) (· + 1) = liveStart at hIndexed hIdle ⊢
    have hSnapshot : d.snapshot head1 ≤ head1 :=
      (Nat.min_le_right _ _).trans (Nat.sub_le _ _)
    simp only [hLive.1, hLive.2, forall_const]
    unfold Detail.firstBlock at *
    cases hStart : d.startBlock with
    | none =>
      cases hRead : storage.lastSyncedBlock with
      | none =>
        simp only [hStart, hRead, Option.elim_none, reduceCtorEq, false_implies, implies_true,
          forall_const, true_and, and_true] at hIndexed hIdle ⊢
        exact unsynced_join_iff hIndexed hIdle
      | some last =>
        simp only [hStart, hRead, Option.elim_none, Option.elim_some, reduceCtorEq, false_implies,
          forall_const, Option.some.injEq, forall_eq', true_and, exists_eq_left] at hIndexed hIdle ⊢
        exact headless_join_iff hSnapshot hIndexed hIdle
    | some s =>
      cases hRead : storage.lastSyncedBlock with
      | none =>
        simp only [hStart, hRead, Option.elim_some, Option.elim_none, reduceCtorEq, false_implies,
          implies_true, forall_const, Option.some.injEq, forall_eq', true_and, exists_eq_left]
          at hIndexed hIdle ⊢
        rw [legs_join_iff hIndexed hIdle (fun hNone => hNone.le)]
        refine and_congr_right fun _ => forall_congr' fun hNone => ?_
        constructor
        · rintro ⟨hSame, -⟩
          omega
        · exact fun hFalse => hFalse.1.elim
      | some last =>
        simp only [hStart, hRead, Option.elim_some, reduceCtorEq, false_implies, implies_true,
          forall_const, Option.some.injEq, forall_eq', true_and, exists_eq_left] at hIndexed hIdle ⊢
        rw [legs_join_iff hIndexed hIdle (fun _ => le_rfl)]
        refine and_congr_right fun _ => forall_congr' fun hNone => ?_
        simp only [true_and, Nat.add_le_add_iff_right]
  · rw [if_neg hLive]
    simp only [Option.elim_none, List.append_nil, Leg.blocks, consecutive_range', forall_const]
    have hNotLive : ∀ P : Prop, (d.endBlock = none → d.snapshot head1 ≤ head2 → P) :=
      fun _ hEnd hHead => absurd ⟨hEnd, hHead⟩ hLive
    rw [and_iff_left (hNotLive _)]
    unfold Detail.firstBlock
    cases hStart : d.startBlock with
    | none =>
      cases hRead : storage.lastSyncedBlock with
      | none => simp
      | some last =>
        simp only [Option.elim_none, Option.some.injEq, forall_eq', reduceCtorEq, false_implies,
          true_and, exists_eq_left, forall_const]
        omega
    | some s =>
      cases hRead : storage.lastSyncedBlock with
      | none => simp
      | some last => simp

theorem handsOff_of_oneRange (hRange : ∃ first,
      (∀ last, storage.lastSyncedBlock = some last → first = last + 1) ∧
      (storage.lastSyncedBlock = none → ∀ s, d.startBlock = some s → first = s) ∧
        ∀ next, Consecutive first
          ((legs d storage before after head1 head2).covered pipeline next)) :
    HandsOff d storage pipeline head1 head2 (legs d storage before after head1 head2) := by
  refine ⟨hRange, ?_, ?_⟩
  · intro leg hLeg
    unfold legs at hLeg
    split at hLeg
    next => cases hLeg
    next historic hHistoric =>
      cases hLeg
      exact safeLeg_of_startEndBlock hHistoric
  · intro leg hLeg
    unfold legs at hLeg
    split at hLeg
    next => cases hLeg
    next historic _ =>
      simp only [reapplyAfterHistoric_head] at hLeg
      split at hLeg
      next =>
        exact @safeLeg_of_startEndBlock { d.toDetail with startBlock := some historic.endBlock } _ _ _
          hLeg
      next => cases hLeg

theorem legs_eq_none (h : ¬ d.Accepts head1) :
    legs d storage before after head1 head2 = ⟨none, none⟩ := by
  have hNone : startEndBlock d.toDetail storage.lastSyncedBlock head1 = none := by
    rw [Option.eq_none_iff_forall_ne_some]
    intro leg hLeg
    exact h (startEndBlock_eq_some.mp hLeg).1
  rw [legs, hNone]

end Joins

/-- The legs of a detail hand off without a gap or a repetition exactly if they join, or if its blocks
are not accepted at all. -/
theorem handsOff_iff (d : NetworkContract) (storage : CursorStorage) (pipeline : Pipeline)
    (before after : List (OtherProcessed d.id)) (head1 head2 : Nat) :
    HandsOff d storage pipeline head1 head2 (legs d storage before after head1 head2) ↔
      (d.Accepts head1 → Joins d storage pipeline head1 head2) := by
  constructor
  · exact fun h hAccepts => (oneRange_iff hAccepts).mp h.oneRange
  · intro h
    apply handsOff_of_oneRange
    by_cases hAccepts : d.Accepts head1
    · exact (oneRange_iff hAccepts).mpr (h hAccepts)
    · refine ⟨storage.lastSyncedBlock.elim (d.startBlock.getD 0) (· + 1), ?_, ?_, fun next => ?_⟩
      · intro last hLast
        rw [hLast, Option.elim_some]
      · intro hLast s hs
        rw [hLast, hs, Option.elim_none, Option.getD_some]
      · rw [legs_eq_none hAccepts]
        exact consecutive_nil _

/-- A live detail of a project whose handlers keep no cursor. -/
def fromBlockFive : NetworkContract where
  id := "a"
  eventName := "Transfer"
  eventTable := "project_token.transfer"
  checkpointTable := "project_token_transfer"
  network := "ethereum"
  chainId := 1
  detailKey := "__event__"
  startBlock := some 5
  endBlock := none
  reorgSafeDistance := none

/-- The live leg starts with the block that the historic leg ended with. -/
theorem last_block_again :
    ¬ HandsOff fromBlockFive ⟨false, 0⟩ ⟨none, false, false⟩ 10 12
      (legs fromBlockFive ⟨false, 0⟩ [] [] 10 12) := by
  intro h
  obtain ⟨first, -, hStart, hBlocks⟩ := h.oneRange
  obtain rfl := hStart rfl 5 rfl
  have hRange := hBlocks 13
  unfold Consecutive at hRange
  exact absurd hRange (by decide)

end Rindexer.Indexer
