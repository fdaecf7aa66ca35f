import Mathlib.Data.List.Nodup
import Rindexer.Indexer.Retry
import Rindexer.Lib.Transition

/-! The native-transfer pipeline of a network: the loop that pushes block numbers into a bounded
channel, the processor that fetches the blocks and publishes their transfers, and the rollbacks that
rewind the loop. -/

namespace Rindexer.Indexer

open Rindexer.Lib

/-- What a pipeline is started with. -/
structure NativeConfig where
  startBlock : Nat
  endBlock : Option Nat
  indexingDistanceFromHead : Nat
  channelCapacity : Nat

/-- The fetch loop, the channel, the processor, and the table.  `published` says whether the transfers
of the buffer are in the table.  No code reads the last two fields: the end of the blocks that have been
pushed since the last rewind, and the lowest block that has changed below it, until a rollback. -/
structure NativePipeline (τ : Type) where
  lastSeenBlock : Nat
  /-- The rest of the range that is being pushed. -/
  pushing : List Nat
  channel : List Nat
  buffer : List Nat
  fetched : Option (List (Nat × List τ))
  published : Bool
  /-- The transfers in the table, by block, one entry for each time a block was published. -/
  delivered : List (Nat × List τ)
  finished : Bool
  node : Nat → List τ
  pushedTo : Nat
  orphanedFrom : Option Nat

/-- The pipeline before the first poll. -/
def NativePipeline.start {τ : Type} (config : NativeConfig) (node : Nat → List τ) :
    NativePipeline τ where
  lastSeenBlock := config.startBlock
  pushing := []
  channel := []
  buffer := []
  fetched := none
  published := false
  delivered := []
  finished := false
  node := node
  pushedTo := config.startBlock
  orphanedFrom := none

inductive NativeAct (τ : Type)
  | reorg (height : Nat) (node : Nat → List τ)
  | poll (latestBlock : Nat)
  | rewind (forkPoint detectionPoint : Nat)
  | send
  | receive (count : Nat)
  | answer (answered : Nat → Bool)
  | publish
  | complete
  | fail

namespace NativePipeline

variable {τ : Type}

/-- The node's chain changes at a height and above. -/
def reorg (s : NativePipeline τ) (height : Nat) (node : Nat → List τ) : NativePipeline τ :=
  { s with
    node := fun n => if n < height then s.node n else node n
    orphanedFrom :=
      if height < s.pushedTo then some (min height (s.orphanedFrom.getD height))
      else s.orphanedFrom }

/-- The fetch loop sees a head, without a reorg, and pushes the blocks up to it. -/
def poll (config : NativeConfig) (s : NativePipeline τ) (latestBlock : Nat) :
    Option (NativePipeline τ) :=
  if s.pushing = [] ∧ s.finished = false then
    let block := wrappingSub latestBlock config.indexingDistanceFromHead
    let finished := config.endBlock.any (· < block)
    if s.lastSeenBlock < block then
      let toBlock := (config.endBlock.map (min block)).getD block
      let fromBlock := min block (wrappingAdd s.lastSeenBlock 1)
      some { s with
        pushing := List.range' fromBlock (toBlock + 1 - fromBlock)
        lastSeenBlock := toBlock
        finished := finished
        pushedTo := if fromBlock ≤ toBlock then toBlock + 1 else s.pushedTo }
    else some { s with finished := finished }
  else none

/-- The fetch loop detects a reorg, has its range rolled back, and rewinds. -/
def rewind (s : NativePipeline τ) (forkPoint detectionPoint : Nat) : Option (NativePipeline τ) :=
  if s.pushing = [] ∧ s.finished = false ∧ s.orphanedFrom.all (forkPoint ≤ ·) then
    some { s with
      delivered := s.delivered.filter fun e => !(forkPoint ≤ e.1 && e.1 ≤ detectionPoint)
      lastSeenBlock := forkPoint - 1
      pushedTo := min s.pushedTo forkPoint
      orphanedFrom := none }
  else none

/-- A block number goes into the channel. -/
def send (config : NativeConfig) (s : NativePipeline τ) : Option (NativePipeline τ) :=
  match s.pushing with
  | [] => none
  | block :: rest =>
    if s.channel.length < config.channelCapacity then
      some { s with pushing := rest, channel := s.channel ++ [block] }
    else none

/-- The processor takes block numbers when its buffer is empty. -/
def receive (s : NativePipeline τ) (count : Nat) : Option (NativePipeline τ) :=
  if s.buffer = [] ∧ s.channel ≠ [] ∧ 0 < count then
    some { s with buffer := s.channel.take count, channel := s.channel.drop count }
  else none

/-- The provider answers the blocks of the buffer.  Those that it has not are left out. -/
def answer (s : NativePipeline τ) (answered : Nat → Bool) : Option (NativePipeline τ) :=
  if s.buffer ≠ [] ∧ s.fetched.isNone then
    some { s with fetched := some ((s.buffer.filter answered).map fun n => (n, s.node n)) }
  else none

/-- The callback has the transfers. -/
def publish (s : NativePipeline τ) : Option (NativePipeline τ) :=
  match s.fetched with
  | none => none
  | some blocks =>
    if s.published then none
    else some { s with published := true, delivered := s.delivered ++ blocks }

/-- The cursor is advanced and the buffer cleared. -/
def complete (s : NativePipeline τ) : Option (NativePipeline τ) :=
  if s.published then some { s with buffer := [], fetched := none, published := false } else none

/-- A request, a callback or the cursor fails, and the buffer is kept. -/
def fail (s : NativePipeline τ) : Option (NativePipeline τ) :=
  if s.buffer ≠ [] then some { s with fetched := none, published := false } else none

def step (config : NativeConfig) (s : NativePipeline τ) : NativeAct τ → Option (NativePipeline τ)
  | .reorg height node => some (s.reorg height node)
  | .poll latestBlock => s.poll config latestBlock
  | .rewind forkPoint detectionPoint => s.rewind forkPoint detectionPoint
  | .send => s.send config
  | .receive count => s.receive count
  | .answer answered => s.answer answered
  | .publish => s.publish
  | .complete => s.complete
  | .fail => s.fail

/-- The block numbers on their way to the table. -/
def queued (s : NativePipeline τ) : List Nat :=
  (if s.published then [] else s.buffer) ++ (s.channel ++ s.pushing)

/-- How often a block is in the table. -/
def copies (s : NativePipeline τ) (n : Nat) : Nat := (s.delivered.map Prod.fst).count n

end NativePipeline

/-- Every block from the start up to the last one pushed is in the table or on its way there, once; what
is in the table is canonical, but for blocks that await a rollback; and no block before the start is on
its way. -/
structure DeliversOnce {τ : Type} (config : NativeConfig) (s : NativePipeline τ) : Prop where
  once : ∀ n, config.startBlock ≤ n → n < s.pushedTo → s.queued.count n + s.copies n = 1
  canonical : ∀ e ∈ s.delivered, s.orphanedFrom.all (e.1 < ·) → e.2 = s.node e.1
  fromStart : ∀ n ∈ s.queued, config.startBlock ≤ n

/-- The conditions under which a step keeps the blocks in step: a poll continues where the last push
ended, the first at the start block, and the head is not below the distance; a rewind goes to a block
from the start on that has been pushed, or the next, with nothing on its way from it on and nothing in
the table past the detection point; the provider has all blocks; and nothing fails after the transfers
are published. -/
def NativePipeline.InStep {τ : Type} (config : NativeConfig) (s : NativePipeline τ) :
    NativeAct τ → Prop
  | .poll latestBlock =>
    config.indexingDistanceFromHead ≤ latestBlock ∧ latestBlock < 2 ^ 64 ∧
      (s.lastSeenBlock < latestBlock - config.indexingDistanceFromHead →
        s.lastSeenBlock + 1 = s.pushedTo)
  | .rewind forkPoint detectionPoint =>
    config.startBlock ≤ forkPoint ∧ 0 < forkPoint ∧ forkPoint ≤ s.pushedTo ∧
      (∀ n ∈ s.buffer ++ s.channel, n < forkPoint) ∧ ∀ e ∈ s.delivered, e.1 ≤ detectionPoint
  | .answer answered => ∀ n ∈ s.buffer, answered n = true
  | .fail => s.published = false
  | _ => True

/-! ### Steps that keep the blocks in step -/

/-- Every block from the start up to the last one pushed is on its way or in the table, once, and no
other block is; what has been fetched are the blocks of the buffer. -/
structure NativePipeline.Aligned {τ : Type} (config : NativeConfig) (s : NativePipeline τ) :
    Prop where
  pushed : config.startBlock ≤ s.pushedTo
  once : ∀ n, config.startBlock ≤ n → n < s.pushedTo → s.queued.count n + s.copies n = 1
  others : ∀ n, n < config.startBlock ∨ s.pushedTo ≤ n → s.queued.count n + s.copies n = 0
  idle : s.buffer = [] → s.fetched = none ∧ s.published = false
  fetched : ∀ blocks, s.fetched = some blocks → s.published = false →
    blocks.map Prod.fst = s.buffer ∧
      ∀ e ∈ blocks, s.orphanedFrom.all (e.1 < ·) → e.2 = s.node e.1
  canonical : ∀ e ∈ s.delivered, s.orphanedFrom.all (e.1 < ·) → e.2 = s.node e.1

section Native

variable {τ : Type} {config : NativeConfig} {s s' : NativePipeline τ}

theorem count_range' (fromBlock count n : Nat) :
    (List.range' fromBlock count).count n =
      if fromBlock ≤ n ∧ n < fromBlock + count then 1 else 0 := by
  have hNodup : (List.range' fromBlock count).Nodup := List.nodup_range'
  rw [hNodup.count]
  simp only [List.mem_range'_1]

/-- What is on its way or in the table has been pushed. -/
theorem NativePipeline.Aligned.within (h : s.Aligned config) {n : Nat}
    (hSome : 0 < s.queued.count n + s.copies n) : config.startBlock ≤ n ∧ n < s.pushedTo := by
  by_contra hOut
  have hNone := h.others n (by omega)
  omega

theorem NativePipeline.Aligned.delivered_within (h : s.Aligned config) {e : Nat × List τ}
    (he : e ∈ s.delivered) : config.startBlock ≤ e.1 ∧ e.1 < s.pushedTo := by
  have hCount : 0 < s.copies e.1 := List.count_pos_iff.mpr (List.mem_map_of_mem he)
  exact h.within (by omega)

theorem NativePipeline.Aligned.queued_within (h : s.Aligned config) {n : Nat} (hn : n ∈ s.queued) :
    config.startBlock ≤ n ∧ n < s.pushedTo := by
  have hCount : 0 < s.queued.count n := List.count_pos_iff.mpr hn
  exact h.within (by omega)

theorem aligned_deliversOnce (h : s.Aligned config) : DeliversOnce config s :=
  ⟨h.once, h.canonical, fun _ hn => (h.queued_within hn).1⟩

theorem start_aligned (config : NativeConfig) (node : Nat → List τ) :
    (NativePipeline.start config node).Aligned config where
  pushed := le_rfl
  once n hLow hHigh := absurd hHigh (Nat.not_lt.mpr hLow)
  others _ _ := rfl
  idle _ := ⟨rfl, rfl⟩
  fetched _ h := by cases h
  canonical e he := absurd he List.not_mem_nil

theorem reorg_aligned (hInv : s.Aligned config) (height : Nat) (node : Nat → List τ) :
    (s.reorg height node).Aligned config := by
  have hKept : ∀ e : Nat × List τ, e.1 < s.pushedTo → (s.reorg height node).orphanedFrom.all (e.1 < ·) →
      s.orphanedFrom.all (e.1 < ·) ∧ (s.reorg height node).node e.1 = s.node e.1 := by
    intro e hPushed hAll
    simp only [NativePipeline.reorg] at hAll ⊢
    split at hAll
    · simp only [Option.all_some, decide_eq_true_eq] at hAll
      refine ⟨?_, if_pos (by omega)⟩
      cases hOrphaned : s.orphanedFrom with
      | none => rfl
      | some orphaned =>
        rw [hOrphaned, Option.getD_some] at hAll
        simp only [Option.all_some, decide_eq_true_eq]
        omega
    · exact ⟨hAll, if_pos (by omega)⟩
  refine ⟨hInv.pushed, hInv.once, hInv.others, hInv.idle, fun blocks hBlocks hOpen => ?_,
    fun e he hAll => ?_⟩
  · obtain ⟨hNumbers, hCanonical⟩ := hInv.fetched blocks hBlocks hOpen
    refine ⟨hNumbers, fun e he hAll => ?_⟩
    have hBuffer : e.1 ∈ s.queued := by
      have hOpen' : s.published = false := hOpen
      unfold NativePipeline.queued
      rw [hOpen', ← hNumbers]
      exact List.mem_append_left _ (List.mem_map_of_mem he)
    obtain ⟨hOld, hNode⟩ := hKept e (hInv.queued_within hBuffer).2 hAll
    rw [hNode]
    exact hCanonical e he hOld
  · obtain ⟨hOld, hNode⟩ := hKept e (hInv.delivered_within he).2 hAll
    rw [hNode]
    exact hInv.canonical e he hOld

theorem poll_aligned (hInv : s.Aligned config) {latestBlock : Nat}
    (hCond : s.InStep config (.poll latestBlock)) (h : s.poll config latestBlock = some s') :
    s'.Aligned config := by
  obtain ⟨hDistance, hSmall, hNext⟩ := hCond
  have hHead := wrappingSub_eq hDistance hSmall
  unfold NativePipeline.poll at h
  split at h
  swap
  · cases h
  rename_i hIdle
  rw [hHead] at h
  simp only at h
  split at h
  · rename_i hAhead
    have hNext := hNext hAhead
    rw [wrappingAdd_eq (show s.lastSeenBlock + 1 < 2 ^ 64 by omega), hNext,
      Nat.min_eq_right (show s.pushedTo ≤ latestBlock - config.indexingDistanceFromHead by omega)] at h
    generalize ((config.endBlock.map (min (latestBlock - config.indexingDistanceFromHead))).getD
      (latestBlock - config.indexingDistanceFromHead)) = toBlock at h
    cases h
    have hQueued : ∀ n, (s.queued ++ List.range' s.pushedTo (toBlock + 1 - s.pushedTo)).count n +
        s.copies n = s.queued.count n + s.copies n +
          if s.pushedTo ≤ n ∧ n < s.pushedTo + (toBlock + 1 - s.pushedTo) then 1 else 0 := by
      intro n
      rw [List.count_append, count_range']
      omega
    have hQueue : ((if s.published then [] else s.buffer) ++
        (s.channel ++ List.range' s.pushedTo (toBlock + 1 - s.pushedTo))) =
          s.queued ++ List.range' s.pushedTo (toBlock + 1 - s.pushedTo) := by
      unfold NativePipeline.queued
      rw [hIdle.1, List.append_nil, List.append_assoc]
    have hPushed := hInv.pushed
    refine ⟨?_, fun n hLow hHigh => ?_, fun n hOut => ?_, hInv.idle, hInv.fetched, hInv.canonical⟩
    · simp only
      split <;> omega
    · show List.count n (_ ++ (s.channel ++ _)) + s.copies n = 1
      rw [hQueue, hQueued n]
      simp only at hHigh
      by_cases hOld : n < s.pushedTo
      · rw [hInv.once n hLow hOld, if_neg (by omega)]
      · rw [hInv.others n (.inr (Nat.not_lt.mp hOld)), if_pos (by split at hHigh <;> omega)]
    · show List.count n (_ ++ (s.channel ++ _)) + s.copies n = 0
      rw [hQueue, hQueued n]
      simp only at hOut
      have hOld : n < config.startBlock ∨ s.pushedTo ≤ n := by
        split at hOut <;> omega
      rw [hInv.others n hOld, if_neg (by split at hOut <;> omega)]
  · cases h
    exact ⟨hInv.pushed, hInv.once, hInv.others, hInv.idle, hInv.fetched, hInv.canonical⟩

theorem copies_rewind {forkPoint detectionPoint n : Nat} :
    ((s.delivered.filter fun e => !(forkPoint ≤ e.1 && e.1 ≤ detectionPoint)).map Prod.fst).count n =
      if forkPoint ≤ n ∧ n ≤ detectionPoint then 0 else s.copies n := by
  unfold NativePipeline.copies
  induction s.delivered with
  | nil => simp
  | cons e delivered ih =>
    rw [List.filter_cons, List.map_cons, List.count_cons]
    split
    · rename_i hKept
      rw [List.map_cons, List.count_cons, ih]
      simp only [Bool.not_eq_true', Bool.and_eq_false_iff, decide_eq_false_iff_not] at hKept
      by_cases hSame : e.1 = n
      · have hOut : ¬(forkPoint ≤ n ∧ n ≤ detectionPoint) := by omega
        rw [if_neg hOut, if_neg hOut]
      · simp [hSame]
    · rename_i hDeleted
      rw [ih]
      simp only [Bool.not_eq_true', Bool.and_eq_false_iff, decide_eq_false_iff_not, not_or,
        not_not] at hDeleted
      by_cases hSame : e.1 = n
      · have hIn : forkPoint ≤ n ∧ n ≤ detectionPoint := by omega
        rw [if_pos hIn, if_pos hIn]
      · simp [hSame]

theorem rewind_aligned (hInv : s.Aligned config) {forkPoint detectionPoint : Nat}
    (hCond : s.InStep config (.rewind forkPoint detectionPoint))
    (h : s.rewind forkPoint detectionPoint = some s') : s'.Aligned config := by
  obtain ⟨hStart, -, hPushed, hBehind, hCovered⟩ := hCond
  unfold NativePipeline.rewind at h
  split at h
  swap
  · cases h
  rename_i hGuard
  obtain ⟨hIdle, -, hOrphaned⟩ := hGuard
  cases h
  have hNothing : ∀ n, forkPoint ≤ n → s.queued.count n = 0 := by
    intro n hn
    refine List.count_eq_zero_of_not_mem fun hMem => ?_
    have hOnWay : n ∈ s.buffer ++ s.channel := by
      unfold NativePipeline.queued at hMem
      rw [hIdle, List.append_nil] at hMem
      split at hMem
      · exact List.mem_append_right _ hMem
      · exact hMem
    have := hBehind n hOnWay
    omega
  have hGone : ∀ n, detectionPoint < n → s.copies n = 0 := by
    intro n hn
    refine List.count_eq_zero_of_not_mem fun hMem => ?_
    obtain ⟨e, he, rfl⟩ := List.mem_map.mp hMem
    have := hCovered e he
    omega
  refine ⟨Nat.le_min.mpr ⟨hInv.pushed, hStart⟩, fun n hLow hHigh => ?_, fun n hOut => ?_, hInv.idle,
    fun blocks hBlocks hOpen => ?_, fun e he _ => ?_⟩
  · show s.queued.count n + List.count n _ = 1
    simp only at hHigh
    rw [copies_rewind, if_neg (by omega)]
    exact hInv.once n hLow (by omega)
  · show s.queued.count n + List.count n _ = 0
    simp only at hOut
    rw [copies_rewind]
    by_cases hFork : forkPoint ≤ n
    · rw [hNothing n hFork]
      split
      · rfl
      · exact (Nat.zero_add _).trans (hGone n (by omega))
    · rw [if_neg (by omega)]
      exact hInv.others n (by omega)
  · obtain ⟨hNumbers, hCanonical⟩ := hInv.fetched blocks hBlocks hOpen
    refine ⟨hNumbers, fun e he _ => hCanonical e he ?_⟩
    have hBuffer : e.1 ∈ s.buffer := by
      rw [← hNumbers]
      exact List.mem_map_of_mem he
    have hBelow := hBehind e.1 (List.mem_append_left _ hBuffer)
    cases hOrphan : s.orphanedFrom with
    | none => rfl
    | some orphaned =>
      rw [hOrphan] at hOrphaned
      simp only [Option.all_some, decide_eq_true_eq] at hOrphaned ⊢
      omega
  · obtain ⟨hMem, hKept⟩ := List.mem_filter.mp he
    refine hInv.canonical e hMem ?_
    have hBelow : e.1 < forkPoint := by
      have := hCovered e hMem
      simp only [Bool.not_eq_true', Bool.and_eq_false_iff, decide_eq_false_iff_not] at hKept
      omega
    cases hOrphan : s.orphanedFrom with
    | none => rfl
    | some orphaned =>
      rw [hOrphan] at hOrphaned
      simp only [Option.all_some, decide_eq_true_eq] at hOrphaned ⊢
      omega

/-- A step that leaves what is on its way, what is in the table, and the chain. -/
theorem aligned_of_same (hInv : s.Aligned config) (hQueued : s'.queued = s.queued)
    (hDelivered : s'.delivered = s.delivered) (hPushed : s'.pushedTo = s.pushedTo)
    (hNode : s'.node = s.node) (hOrphaned : s'.orphanedFrom = s.orphanedFrom)
    (hIdle : s'.buffer = [] → s'.fetched = none ∧ s'.published = false)
    (hFetched : ∀ blocks, s'.fetched = some blocks → s'.published = false →
      blocks.map Prod.fst = s'.buffer ∧
        ∀ e ∈ blocks, s.orphanedFrom.all (e.1 < ·) → e.2 = s.node e.1) : s'.Aligned config := by
  have hCopies : ∀ n, s'.copies n = s.copies n := fun n => by
    rw [NativePipeline.copies, hDelivered, NativePipeline.copies]
  refine ⟨hPushed ▸ hInv.pushed, fun n hLow hHigh => ?_, fun n hOut => ?_, hIdle, ?_, ?_⟩
  · rw [hQueued, hCopies]
    exact hInv.once n hLow (hPushed ▸ hHigh)
  · rw [hQueued, hCopies]
    exact hInv.others n (hPushed ▸ hOut)
  · rw [hNode, hOrphaned]
    exact hFetched
  · rw [hDelivered, hNode, hOrphaned]
    exact hInv.canonical

theorem send_aligned (hInv : s.Aligned config) (h : s.send config = some s') :
    s'.Aligned config := by
  unfold NativePipeline.send at h
  split at h
  · cases h
  rename_i block rest hPushing
  split at h
  · cases h
    refine aligned_of_same hInv ?_ rfl rfl rfl rfl hInv.idle hInv.fetched
    unfold NativePipeline.queued
    simp [hPushing]
  · cases h

theorem receive_aligned (hInv : s.Aligned config) {count : Nat} (h : s.receive count = some s') :
    s'.Aligned config := by
  unfold NativePipeline.receive at h
  split at h
  swap
  · cases h
  rename_i hGuard
  obtain ⟨hEmpty, hChannel, hCount⟩ := hGuard
  cases h
  obtain ⟨hNone, hOpen⟩ := hInv.idle hEmpty
  refine aligned_of_same hInv ?_ rfl rfl rfl rfl (fun _ => ⟨hNone, hOpen⟩) fun blocks hBlocks _ => ?_
  · unfold NativePipeline.queued
    simp only [hOpen, hEmpty, Bool.false_eq_true, if_false, List.nil_append]
    rw [← List.append_assoc, List.take_append_drop]
  · rw [show s.fetched = some blocks from hBlocks] at hNone
    cases hNone

theorem answer_aligned (hInv : s.Aligned config) {answered : Nat → Bool}
    (hCond : s.InStep config (.answer answered)) (h : s.answer answered = some s') :
    s'.Aligned config := by
  unfold NativePipeline.answer at h
  split at h
  swap
  · cases h
  rename_i hGuard
  cases h
  have hAll : s.buffer.filter answered = s.buffer := List.filter_eq_self.mpr hCond
  refine aligned_of_same hInv rfl rfl rfl rfl rfl (fun hEmpty => absurd hEmpty hGuard.1)
    fun blocks hBlocks _ => ?_
  cases hBlocks
  rw [hAll]
  refine ⟨by simp [Function.comp_def], fun e he _ => ?_⟩
  obtain ⟨n, _, rfl⟩ := List.mem_map.mp he
  rfl

theorem publish_aligned (hInv : s.Aligned config) (h : s.publish = some s') :
    s'.Aligned config := by
  unfold NativePipeline.publish at h
  split at h
  · cases h
  rename_i blocks hFetched
  split at h
  · cases h
  rename_i hNot
  have hOpen : s.published = false := by simpa using hNot
  cases h
  obtain ⟨hNumbers, hCanonical⟩ := hInv.fetched blocks hFetched hOpen
  -- The blocks of the buffer move from the way into the table.
  have hMoved : ∀ n, List.count n ((if true then [] else s.buffer) ++ (s.channel ++ s.pushing)) +
      ((s.delivered ++ blocks).map Prod.fst).count n = s.queued.count n + s.copies n := by
    intro n
    unfold NativePipeline.queued NativePipeline.copies
    rw [hOpen, List.map_append, hNumbers]
    simp only [if_true, Bool.false_eq_true, if_false, List.nil_append, List.count_append]
    omega
  refine ⟨hInv.pushed, fun n hLow hHigh => ?_, fun n hOut => ?_, fun hEmpty => ?_,
    fun _ _ hPublished => (by cases hPublished), fun e he hAll => ?_⟩
  · exact (hMoved n).trans (hInv.once n hLow hHigh)
  · exact (hMoved n).trans (hInv.others n hOut)
  · have hNone := (hInv.idle hEmpty).1
    rw [hFetched] at hNone
    cases hNone
  · rcases List.mem_append.mp he with hOld | hNew
    · exact hInv.canonical e hOld hAll
    · exact hCanonical e hNew hAll

theorem complete_aligned (hInv : s.Aligned config) (h : s.complete = some s') :
    s'.Aligned config := by
  unfold NativePipeline.complete at h
  split at h
  swap
  · cases h
  rename_i hPublished
  cases h
  refine aligned_of_same hInv ?_ rfl rfl rfl rfl (fun _ => ⟨rfl, rfl⟩) fun _ hNone => by cases hNone
  unfold NativePipeline.queued
  rw [hPublished]
  rfl

theorem fail_aligned (hInv : s.Aligned config) (hCond : s.InStep config .fail)
    (h : s.fail = some s') : s'.Aligned config := by
  unfold NativePipeline.fail at h
  split at h
  swap
  · cases h
  rename_i hBuffer
  cases h
  have hOpen : s.published = false := hCond
  refine aligned_of_same hInv ?_ rfl rfl rfl rfl (fun hEmpty => absurd hEmpty hBuffer)
    fun _ hNone => by cases hNone
  unfold NativePipeline.queued
  rw [hOpen]

theorem native_aligned (hInv : s.Aligned config) {act : NativeAct τ} (hCond : s.InStep config act)
    (h : s.step config act = some s') : s'.Aligned config := by
  cases act with
  | reorg height node =>
    cases h
    exact reorg_aligned hInv height node
  | poll latestBlock => exact poll_aligned hInv hCond h
  | rewind forkPoint detectionPoint => exact rewind_aligned hInv hCond h
  | send => exact send_aligned hInv h
  | receive count => exact receive_aligned hInv h
  | answer answered => exact answer_aligned hInv hCond h
  | publish => exact publish_aligned hInv h
  | complete => exact complete_aligned hInv h
  | fail => exact fail_aligned hInv hCond h

end Native

def historicConfig : NativeConfig where
  startBlock := 100
  endBlock := some 102
  indexingDistanceFromHead := 0
  channelCapacity := 4096

/-- A reorg at the tip rewinds to the start block before anything is pushed; block 101 is then delivered
after a failed request. -/
def rewoundFirst : List (NativeAct String) :=
  [.rewind 100 105, .poll 101, .send, .send, .receive 2, .fail, .answer fun _ => true, .publish,
    .complete]

end Rindexer.Indexer
