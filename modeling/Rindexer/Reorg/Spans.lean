import Rindexer.Indexer.Live
import Rindexer.Reorg.Coordinator
import Rindexer.Streams.Buffering

/-! The span of a reorg on its way through the live loop: as a notification of the node names it, as
first block and depth, as purged blocks, as a task, as discarded events, and as recorded depth. -/

namespace Rindexer.Reorg

open Rindexer.Lib Rindexer.Indexer Rindexer.Streams

inductive ChainStateNotification
  | committed (fromBlock toBlock : UInt64) (tipHash : B256)
  | reorged (revertFromBlock revertToBlock newFromBlock newToBlock : UInt64) (newTipHash : B256)
  | reverted (fromBlock toBlock : UInt64)

/-- The blocks that a notification reverts, first and last. -/
def ChainStateNotification.revertRange : ChainStateNotification → Option (UInt64 × UInt64)
  | .committed _ _ _ => none
  | .reorged revertFromBlock revertToBlock _ _ _ => some (revertFromBlock, revertToBlock)
  | .reverted fromBlock toBlock => some (fromBlock, toBlock)

structure ReorgInfo where
  forkBlock : UInt64
  depth : UInt64
  affectedTxHashes : List B256

def saturatingSub (a b : UInt64) : UInt64 := if b ≤ a then a - b else 0

def handleChainNotification : ChainStateNotification → Option ReorgInfo
  | .reorged revertFromBlock revertToBlock _ _ _ =>
    some ⟨revertFromBlock, saturatingSub revertToBlock revertFromBlock + 1, []⟩
  | .reverted fromBlock toBlock => some ⟨fromBlock, saturatingSub toBlock fromBlock + 1, []⟩
  | .committed _ _ _ => none

/-- What a live loop does about a reorg: the depths that it records, the blocks that leave its cache,
the task that its coordinator, if it has one, handles, and what it sends. -/
structure Handling where
  recorded : List UInt64
  purged : Nat → Bool
  task : Option (Except String ReorgTask)
  sent : Option ReorgInfo

/-- A notification of the node, handled. -/
def handleRethReorg (coordinator : Option ReorgCoordinator) (info : ReorgInfo) : Handling :=
  let lastReverted := info.forkBlock + saturatingSub info.depth 1
  { recorded := info.depth :: match coordinator with
      | some _ => if info.forkBlock ≤ lastReverted then [lastReverted - info.forkBlock + 1] else []
      | none => []
    purged := fun b =>
      info.forkBlock.toNat ≤ b && b < (info.forkBlock + info.depth).toNat
    task := coordinator.map fun c => c.onExexReorg info.forkBlock.toNat lastReverted.toNat
    sent := some info }

structure FetchedLog where
  blockNumber : Option UInt64
  removed : Bool
deriving DecidableEq, Repr

def minRemovedBlock (fromBlock : UInt64) (logs : List FetchedLog) : UInt64 :=
  (((logs.filter (·.removed)).filterMap (·.blockNumber)).min?).getD fromBlock

/-- A fetch of a range that answers removed logs.  What it sends is for loops without a coordinator. -/
def handleRemovedLogs (coordinator : Option ReorgCoordinator) (fromBlock toBlock : UInt64)
    (logs : List FetchedLog) : Option Handling :=
  if logs.any (·.removed) then
    let minRemoved := minRemovedBlock fromBlock logs
    let depth := saturatingSub fromBlock minRemoved
    some
      { recorded := [depth]
        purged := fun b => minRemoved.toNat ≤ b && b ≤ toBlock.toNat
        task := coordinator.map fun c =>
          c.tryCreateReorgTaskForBlockRange minRemoved.toNat toBlock.toNat
        sent := if coordinator.isSome then none else some ⟨minRemoved, depth, []⟩ }
  else none

/-- The depth that the streams are told. -/
def ReorgTask.depth (task : ReorgTask) : Nat := task.detectionPoint - task.forkPoint + 1

/-- A task is about the blocks from `first` to `last`: its range, the events that it takes out of the
finalized buffers of its network, and the depth that it tells. -/
structure TaskDenotes (task : ReorgTask) (first last : Nat) : Prop where
  forkPoint : task.forkPoint = first
  detectionPoint : task.detectionPoint = last
  discarded : ∀ (V : Type) (buffers : Buffers V) (key : BufferKey) (k : Nat),
    key.network = task.network.toList →
      ((discardFinalized task.network.toList task.forkPoint task.detectionPoint buffers).buffer
        key).eventsOf k = if first ≤ k ∧ k ≤ last then [] else (buffers.buffer key).eventsOf k
  depth : task.depth = last + 1 - first

/-- Everything that the loop does is about the blocks from `first` to `last`. -/
structure Handling.Denotes (handling : Handling) (first last : Nat) : Prop where
  recorded : ∀ depth ∈ handling.recorded, depth.toNat = last + 1 - first
  purged : ∀ n, handling.purged n = true ↔ first ≤ n ∧ n ≤ last
  task : ∀ result, handling.task = some result → ∃ task, result = .ok task ∧
    TaskDenotes task first last
  sent : ∀ info, handling.sent = some info → ∀ n,
    info.forkBlock.toNat ≤ n ∧ n < info.forkBlock.toNat + info.depth.toNat ↔ first ≤ n ∧ n ≤ last

section Arithmetic

variable {a b : UInt64}

theorem toNat_saturatingSub (a b : UInt64) : (saturatingSub a b).toNat = a.toNat - b.toNat := by
  rw [saturatingSub]
  split
  · next h => exact UInt64.toNat_sub_of_le a b h
  · next h =>
    rw [UInt64.le_iff_toNat_le] at h
    rw [UInt64.toNat_zero]
    omega

theorem toNat_add_one (h : a.toNat + 1 < 2 ^ 64) : (a + 1).toNat = a.toNat + 1 := by
  rw [UInt64.toNat_add, UInt64.toNat_one, Nat.mod_eq_of_lt h]

/-- The depth of a span counts its blocks. -/
theorem toNat_depth (h : a ≤ b) (hLast : b.toNat + 1 < 2 ^ 64) :
    (saturatingSub b a + 1).toNat = b.toNat + 1 - a.toNat := by
  rw [UInt64.le_iff_toNat_le] at h
  have hSub := toNat_saturatingSub b a
  rw [toNat_add_one (by omega), hSub]
  omega

theorem toNat_stop (h : a ≤ b) (hLast : b.toNat + 1 < 2 ^ 64) :
    (a + (saturatingSub b a + 1)).toNat = b.toNat + 1 := by
  have hDepth := toNat_depth h hLast
  rw [UInt64.le_iff_toNat_le] at h
  rw [UInt64.toNat_add, hDepth, Nat.mod_eq_of_lt (by omega)]
  omega

theorem lastReverted_eq (h : a ≤ b) (hLast : b.toNat + 1 < 2 ^ 64) :
    a + saturatingSub (saturatingSub b a + 1) 1 = b := by
  apply UInt64.toNat_inj.mp
  have hDepth := toNat_depth h hLast
  rw [UInt64.le_iff_toNat_le] at h
  rw [UInt64.toNat_add, toNat_saturatingSub, hDepth, UInt64.toNat_one, Nat.mod_eq_of_lt (by omega)]
  omega

/-- Past the last number of 64 bits the stop of a span is at its start or before. -/
theorem toNat_stop_of_last (hLast : 2 ^ 64 ≤ b.toNat + 1) :
    (a + (saturatingSub b a + 1)).toNat ≤ b.toNat := by
  have := (a + (saturatingSub b a + 1)).toNat_lt
  omega

end Arithmetic

theorem rangeTask_denotes (c : ReorgCoordinator) {first last : Nat} (h : first ≤ last) :
    TaskDenotes (c.rangeTask first last) first last where
  forkPoint := rfl
  detectionPoint := rfl
  discarded V buffers key k hKey := by
    rw [← FinalizedBuffer.eventsOf_discardRange]
    exact congrArg (fun buffer => FinalizedBuffer.eventsOf buffer k) (if_pos hKey)
  depth := by
    change last - first + 1 = last + 1 - first
    omega

/-- What is done about reverted blocks is about exactly these blocks. -/
theorem handleRethReorg_denotes_iff {coordinator : Option ReorgCoordinator} {first last : UInt64} :
    (handleRethReorg coordinator ⟨first, saturatingSub last first + 1, []⟩).Denotes first.toNat
        last.toNat ↔ first ≤ last ∧ last.toNat + 1 < 2 ^ 64 := by
  constructor
  · intro h
    have hLast : last.toNat + 1 < 2 ^ 64 := by
      by_contra hOver
      have hPurged := h.purged last.toNat
      simp only [handleRethReorg, Bool.and_eq_true, decide_eq_true_eq] at hPurged
      have hStop := toNat_stop_of_last (a := first) (not_lt.mp hOver)
      have hFirst := first.toNat_lt
      have := hPurged.mpr ⟨by omega, le_rfl⟩
      omega
    refine ⟨?_, hLast⟩
    by_contra hNot
    have hCount := h.recorded (saturatingSub last first + 1) List.mem_cons_self
    rw [UInt64.le_iff_toNat_le] at hNot
    have hSub := toNat_saturatingSub last first
    rw [toNat_add_one (by omega), hSub] at hCount
    omega
  · rintro ⟨hLe, hLast⟩
    have hDepth := toNat_depth hLe hLast
    have hNat := UInt64.le_iff_toNat_le.mp hLe
    constructor
    · intro depth hMem
      simp only [handleRethReorg, lastReverted_eq hLe hLast, if_pos hLe] at hMem
      rcases List.mem_cons.mp hMem with rfl | hMem
      · exact hDepth
      · cases coordinator with
        | none => cases hMem
        | some c =>
          rw [List.mem_singleton.mp hMem]
          rw [saturatingSub, if_pos hLe] at hDepth
          exact hDepth
    · intro n
      simp only [handleRethReorg, toNat_stop hLe hLast, Bool.and_eq_true, decide_eq_true_eq,
        Nat.lt_succ_iff]
    · intro result hTask
      simp only [handleRethReorg, lastReverted_eq hLe hLast] at hTask
      obtain ⟨c, -, rfl⟩ := Option.map_eq_some_iff.mp hTask
      refine ⟨c.rangeTask first.toNat last.toNat, ?_, rangeTask_denotes c hNat⟩
      rw [ReorgCoordinator.onExexReorg, if_pos hNat]
    · intro info hSent n
      cases hSent
      simp only [hDepth]
      omega

/-- Of removed logs, what is recorded or sent is about other blocks than what is purged. -/
theorem handleRemovedLogs_not_denotes {coordinator : Option ReorgCoordinator}
    {fromBlock toBlock : UInt64} {logs : List FetchedLog} {handling : Handling} {highest : Nat}
    (hRange : fromBlock ≤ toBlock)
    (hHandled : handleRemovedLogs coordinator fromBlock toBlock logs = some handling)
    (hHighest : (minRemovedBlock fromBlock logs).toNat ≤ highest) :
    ¬ handling.Denotes (minRemovedBlock fromBlock logs).toNat highest := by
  intro h
  rw [handleRemovedLogs] at hHandled
  split at hHandled
  · cases hHandled
    have hFirst := h.purged (minRemovedBlock fromBlock logs).toNat
    have hLast := h.purged toBlock.toNat
    have hTop := h.purged highest
    have hDepth := h.recorded _ List.mem_cons_self
    rw [toNat_saturatingSub] at hDepth
    rw [UInt64.le_iff_toNat_le] at hRange
    simp only [Bool.and_eq_true, decide_eq_true_eq] at hFirst hLast hTop
    have := hFirst.mpr ⟨le_rfl, hHighest⟩
    have := hLast.mp ⟨this.2, le_rfl⟩
    have := hTop.mpr ⟨hHighest, le_rfl⟩
    omega
  · cases hHandled

/-- A notification of the node is handled as the blocks that it reverts, exactly if it reverts any and
the last has a next block number of 64 bits.  Removed logs in a planned range never are handled as
one span. -/
theorem spans_agree_iff (coordinator : Option ReorgCoordinator) :
    (∀ (notification : ChainStateNotification) (first last : UInt64), notification.revertRange = some (first, last) →
      ((∃ info, handleChainNotification notification = some info ∧
          (handleRethReorg coordinator info).Denotes first.toNat last.toNat) ↔
        first ≤ last ∧ last.toNat + 1 < 2 ^ 64)) ∧
    ∀ (retryHint : Option LiveFetchRetryHint) (nextFrom safeHead : UInt64) (maxBlockRange : Option Nat) (fromBlock toBlock : UInt64)
        (logs : List FetchedLog) (handling : Handling) (highest : Nat),
      LiveFetchPlan.plan retryHint nextFrom.toNat safeHead.toNat maxBlockRange =
          some ⟨fromBlock.toNat, toBlock.toNat⟩ →
        handleRemovedLogs coordinator fromBlock toBlock logs = some handling →
        (minRemovedBlock fromBlock logs).toNat ≤ highest →
        ¬ handling.Denotes (minRemovedBlock fromBlock logs).toNat highest := by
  constructor
  · intro notification first last hRange
    rw [← @handleRethReorg_denotes_iff coordinator first last]
    cases notification with
    | committed fromBlock toBlock tipHash => cases hRange
    | reorged revertFromBlock revertToBlock newFromBlock newToBlock newTipHash =>
      cases hRange
      simp only [handleChainNotification, Option.some.injEq, exists_eq_left']
    | reverted fromBlock toBlock =>
      cases hRange
      simp only [handleChainNotification, Option.some.injEq, exists_eq_left']
  · intro retryHint nextFrom safeHead maxBlockRange fromBlock toBlock logs handling
      highest hPlan hHandled hHighest
    obtain ⟨hFrom, hLe, -⟩ := plan_within nextFrom.toNat_lt hPlan
    simp only at hFrom hLe
    exact handleRemovedLogs_not_denotes (UInt64.le_iff_toNat_le.mpr (by omega)) hHandled hHighest

/-- A fetch of block 10 alone that answers a removed log of it. -/
def removedAtTen : Handling where
  recorded := [0]
  purged b := 10 ≤ b && b ≤ 10
  task := none
  sent := some ⟨10, 0, []⟩

theorem spans_agree_iff_small :
    ((∃ info, handleChainNotification (.reverted 101 110) = some info ∧
        (handleRethReorg none info).Denotes 101 110) ↔ (101 : UInt64) ≤ 110 ∧ 110 + 1 < 2 ^ 64) ∧
      ¬ removedAtTen.Denotes 10 10 :=
  ⟨(spans_agree_iff none).1 (.reverted 101 110) 101 110 rfl,
    (spans_agree_iff none).2 none 10 10 none 10 10 [⟨some 10, true⟩] removedAtTen 10 (by decide) rfl
      (by decide)⟩

/-- The depth of a reorg of one removed block is recorded as 0, whatever was delivered before. -/
theorem removed_block_of_depth_zero :
    ¬ ∀ (coordinator : Option ReorgCoordinator) (fromBlock toBlock : UInt64)
      (logs : List FetchedLog) (handling : Handling), fromBlock ≤ toBlock →
        handleRemovedLogs coordinator fromBlock toBlock logs = some handling →
        ∃ highest, (minRemovedBlock fromBlock logs).toNat ≤ highest ∧
          handling.Denotes (minRemovedBlock fromBlock logs).toNat highest := by
  intro h
  obtain ⟨highest, hHighest, hDenotes⟩ :=
    h none 10 10 [⟨some 10, true⟩] removedAtTen (by decide) rfl
  have hDepth := hDenotes.recorded 0 (by decide)
  have hTen : (minRemovedBlock 10 [⟨some 10, true⟩]).toNat = 10 := by decide
  rw [hTen] at hHighest hDepth
  rw [UInt64.toNat_zero] at hDepth
  omega

end Rindexer.Reorg
