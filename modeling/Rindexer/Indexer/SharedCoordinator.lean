import Rindexer.Indexer.Delivery
import Rindexer.Reorg.Detection

/-! Pipelines of one network that share a `ReorgCoordinator` behind a mutex.  The mutex makes a poll
one step: detection and rollback are done before another pipeline looks at the window. -/

namespace Rindexer.Indexer

open Rindexer.Lib Rindexer.Database Rindexer.Reorg

/-- What a pipeline runs: an event stream, a group of dependent events, each with a position of its
own, or the fetcher of native transfers. -/
inductive PipelineKind
  | stream
  | dependency
  | nativeTransfer
deriving DecidableEq, Repr

/-- The next block after a reorg that the pipeline has handled.  The fetcher of native transfers
keeps the last block seen. -/
def PipelineKind.rewind : PipelineKind → Nat → Nat
  | .nativeTransfer, forkPoint => forkPoint - 1 + 1
  | _, forkPoint => forkPoint

/-- The next block after a delivery. -/
def PipelineKind.nextBlock : PipelineKind → Nat → List EventRow → Nat
  | .nativeTransfer, toBlock, _ => toBlock + 1
  | _, toBlock, rows => Indexer.nextBlock toBlock rows

/-- The pipelines that share a coordinator: what each runs, and the event table of each position. -/
structure Pipelines (π : Type) where
  kind : π → PipelineKind
  table : π → Nat → String

/-- The coordinator, with the database, and the positions of the pipelines.  `delivered` and
`rolledBack` record the blocks whose rows a position has inserted, and those whose rows a rollback
has deleted since; `polled` records who polled since the last rollback.  No code reads them. -/
structure SharedNetwork (π : Type) where
  coordinator : ReorgCoordinator
  next : π → Nat → Nat
  delivered : π → Nat → Nat → Bool
  rolledBack : π → Nat → Nat → Bool
  polled : π → Bool

inductive Turn (π : Type)
  | poll (p : π) (env : Surroundings) (number : Nat) (hash parentHash : B256)
  | deliver (p : π) (position toBlock : Nat) (rows : List EventRow)

/-- Whether a committed task deletes the rows of a block from a table. -/
def deletesFrom (task : ReorgTask) (table : String) (blockNumber : Nat) : Bool :=
  (task.eventTables.map EventTableInfo.fullName).contains table && task.forkPoint ≤ blockNumber &&
    blockNumber ≤ task.detectionPoint

namespace SharedNetwork

variable {π : Type} [DecidableEq π]

/-- A poll hands the head to the coordinator.  The pipeline rewinds when a reorg has been handled. -/
def poll (pipelines : Pipelines π) (s : SharedNetwork π) (p : π) (env : Surroundings) (number : Nat)
    (hash parentHash : B256) : SharedNetwork π :=
  let done := s.coordinator.detectAndHandleReorg env number hash parentHash
  let deleted := fun q i n =>
    (s.coordinator.committedTask env number hash parentHash).any fun task =>
      deletesFrom task (pipelines.table q i) n
  { coordinator := done.1
    next := fun q i => match done.2 with
      | .ok (some forkPoint) => if q = p then (pipelines.kind p).rewind forkPoint else s.next q i
      | _ => s.next q i
    delivered := fun q i n => s.delivered q i n && !deleted q i n
    rolledBack := fun q i n => s.rolledBack q i n || s.delivered q i n && deleted q i n
    polled := fun q =>
      (q = p && done.2.toOption.isSome) ||
        s.polled q && (s.coordinator.committedTask env number hash parentHash).isNone }

/-- A position fetches the blocks from its next one on and inserts their rows. -/
def deliver (pipelines : Pipelines π) (s : SharedNetwork π) (p : π) (position toBlock : Nat)
    (rows : List EventRow) : Option (SharedNetwork π) :=
  let fromBlock := s.next p position
  if fromBlock ≤ toBlock ∧ ∀ r ∈ rows, fromBlock ≤ r.blockNumber ∧ r.blockNumber ≤ toBlock then
    let store := s.coordinator.store
    some { s with
      coordinator := { s.coordinator with
        store := { store with
          db := store.db.insertRows (pipelines.table p position) rows } }
      next := fun q i =>
        if q = p ∧ i = position then (pipelines.kind p).nextBlock toBlock rows else s.next q i
      delivered := fun q i n =>
        s.delivered q i n || (q = p && i == position && fromBlock ≤ n && n ≤ toBlock)
      rolledBack := fun q i n =>
        s.rolledBack q i n && !(q = p && i == position && fromBlock ≤ n && n ≤ toBlock) }
  else none

def step (pipelines : Pipelines π) (s : SharedNetwork π) : Turn π → Option (SharedNetwork π)
  | .poll p env number hash parentHash => some (s.poll pipelines p env number hash parentHash)
  | .deliver p position toBlock rows => s.deliver pipelines p position toBlock rows

end SharedNetwork

/-! ### Polls -/

theorem PipelineKind.nextBlock_le (kind : PipelineKind) {toBlock : Nat} {rows : List EventRow}
    (h : ∀ r ∈ rows, r.blockNumber ≤ toBlock) : kind.nextBlock toBlock rows ≤ toBlock + 1 := by
  cases kind with
  | nativeTransfer => exact le_rfl
  | _ => exact Indexer.nextBlock_le h

/-! ### What a rollback leaves behind -/

/-- No position is above a block whose rows were rolled back and not delivered again. -/
def RewoundAll {π : Type} (s : SharedNetwork π) : Prop :=
  ∀ p i n, s.rolledBack p i n → s.next p i ≤ n

/-- Once every pipeline has polled since the last rollback, no position is above a block whose rows
were rolled back and not delivered again. -/
def NothingMissing {π : Type} (s : SharedNetwork π) : Prop := (∀ p, s.polled p) → RewoundAll s

section Reach

variable {π : Type} [DecidableEq π] {pipelines : Pipelines π} {s s' : SharedNetwork π}

/-- What has to hold where a poll of `p` commits a rollback: no position but those that it rewinds is
above a block that it has delivered and that the rollback deletes, and those are not moved above a
block that they owe. -/
structure InReach (pipelines : Pipelines π) (s : SharedNetwork π) (p : π)
    (outcome : Except String (Option Nat)) (task : ReorgTask) : Prop where
  others : ∀ q i n, (q = p → outcome ≠ .ok (some task.forkPoint)) → s.delivered q i n →
    deletesFrom task (pipelines.table q i) n → s.next q i ≤ n
  owed : outcome = .ok (some task.forkPoint) → ∀ i n, s.rolledBack p i n →
    (pipelines.kind p).rewind task.forkPoint ≤ n
  genesis : outcome = .ok (some task.forkPoint) → pipelines.kind p = .nativeTransfer →
    task.forkPoint = 0 → ∀ i, s.delivered p i 0 → deletesFrom task (pipelines.table p i) 0 = false

/-- Every rollback that a poll commits is in the reach of the polling pipeline. -/
def RollbackInReach (pipelines : Pipelines π) (s : SharedNetwork π) : Turn π → Prop
  | .poll p env number hash parentHash =>
    ∀ task, s.coordinator.committedTask env number hash parentHash = some task →
      InReach pipelines s p (s.coordinator.detectAndHandleReorg env number hash parentHash).2 task
  | .deliver .. => True

theorem deliver_rewoundAll (hInv : RewoundAll s) {p : π} {position toBlock : Nat}
    {rows : List EventRow} (h : s.deliver pipelines p position toBlock rows = some s') :
    RewoundAll s' := by
  simp only [SharedNetwork.deliver] at h
  split at h
  · rename_i hRange
    cases h
    intro q i n hOwed
    simp only [Bool.and_eq_true, Bool.not_eq_true', Bool.and_eq_false_iff,
      decide_eq_false_iff_not, beq_eq_false_iff_ne] at hOwed
    have hBefore := hInv q i n hOwed.1
    simp only
    split
    · rename_i hSelf
      obtain ⟨rfl, rfl⟩ := hSelf
      have hNext := (pipelines.kind q).nextBlock_le fun r hr => (hRange.2 r hr).2
      have hAbove : toBlock < n := by
        by_contra hNot
        simp only [not_true_eq_false, ne_eq, false_or] at hOwed
        omega
      omega
    · exact hBefore
  · cases h

theorem rewind_le {kind : PipelineKind} {forkPoint n : Nat} (hFork : forkPoint ≤ n)
    (hGenesis : ¬(kind = .nativeTransfer ∧ n = 0)) : kind.rewind forkPoint ≤ n := by
  cases kind with
  | nativeTransfer =>
    have hPositive : n ≠ 0 := fun hZero => hGenesis ⟨rfl, hZero⟩
    simp only [PipelineKind.rewind]
    omega
  | _ => exact hFork

theorem deletesFrom_range {task : ReorgTask} {table : String} {n : Nat}
    (h : deletesFrom task table n = true) : task.forkPoint ≤ n ∧ n ≤ task.detectionPoint := by
  simp only [deletesFrom, Bool.and_eq_true, decide_eq_true_eq] at h
  exact ⟨h.1.2, h.2⟩

/-- A poll from a state in which no position is too high keeps it so exactly when its rollback is in
reach. -/
theorem poll_rewoundAll_iff (hInv : RewoundAll s) {p : π} {env : Surroundings} {number : Nat}
    {hash parentHash : B256} :
    RewoundAll (s.poll pipelines p env number hash parentHash) ↔
      RollbackInReach pipelines s (.poll p env number hash parentHash) := by
  cases hTask : s.coordinator.committedTask env number hash parentHash with
  | none =>
    refine iff_of_true (fun q i n hOwed => ?_) fun task h => by rw [hTask] at h; cases h
    simp only [SharedNetwork.poll, hTask, Option.any_none, Bool.and_false, Bool.or_false] at hOwed ⊢
    split
    · rename_i forkPoint hHandled
      obtain ⟨task, hCommitted, -⟩ := committedTask_of_handled hHandled
      rw [hTask] at hCommitted
      cases hCommitted
    · exact hInv q i n hOwed
  | some task =>
    have hReach : RollbackInReach pipelines s (.poll p env number hash parentHash) ↔
        InReach pipelines s p
          (s.coordinator.detectAndHandleReorg env number hash parentHash).2 task := by
      simp [RollbackInReach, hTask]
    rw [hReach]
    rcases handled_of_committedTask hTask with hHandled | ⟨e, hFailed⟩
    · rw [hHandled]
      simp only [RewoundAll, SharedNetwork.poll, hTask, hHandled, Option.any_some, Bool.or_eq_true,
        Bool.and_eq_true]
      constructor
      · intro h
        refine ⟨fun q i n hNotSelf hDelivered hDeleted => ?_, fun _ i n hOwed => ?_,
          fun _ hNative hZero i hDelivered => ?_⟩
        · have hOther : q ≠ p := fun hSelf => hNotSelf hSelf rfl
          simpa [hOther] using h q i n (.inr ⟨hDelivered, hDeleted⟩)
        · simpa using h p i n (.inl hOwed)
        · by_contra hDeleted
          have hLow := h p i 0 (.inr ⟨hDelivered, by simpa using hDeleted⟩)
          simp [hNative, PipelineKind.rewind] at hLow
      · intro h q i n hOwed
        by_cases hSelf : q = p
        · subst hSelf
          rw [if_pos rfl]
          rcases hOwed with hOld | ⟨hDelivered, hDeleted⟩
          · exact h.owed rfl i n hOld
          · refine rewind_le (deletesFrom_range hDeleted).1 ?_
            rintro ⟨hNative, rfl⟩
            have hZero : task.forkPoint = 0 := Nat.le_zero.mp (deletesFrom_range hDeleted).1
            rw [h.genesis rfl hNative hZero i hDelivered] at hDeleted
            cases hDeleted
        · rw [if_neg hSelf]
          rcases hOwed with hOld | ⟨hDelivered, hDeleted⟩
          · exact hInv q i n hOld
          · exact h.others q i n (fun hEq => absurd hEq hSelf) hDelivered hDeleted
    · rw [hFailed]
      simp only [RewoundAll, SharedNetwork.poll, hTask, hFailed, Option.any_some, Bool.or_eq_true,
        Bool.and_eq_true]
      constructor
      · intro h
        refine ⟨fun q i n _ hDelivered hDeleted => h q i n (.inr ⟨hDelivered, hDeleted⟩),
          fun hOk => ?_, fun hOk => ?_⟩
        · cases hOk
        · cases hOk
      · rintro h q i n (hOld | ⟨hDelivered, hDeleted⟩)
        · exact hInv q i n hOld
        · exact h.others q i n (fun _ hOk => by cases hOk) hDelivered hDeleted

theorem step_rewoundAll_iff {turn : Turn π} (hInv : RewoundAll s)
    (h : s.step pipelines turn = some s') :
    RewoundAll s' ↔ RollbackInReach pipelines s turn := by
  cases turn with
  | poll p env number hash parentHash =>
    cases h
    exact poll_rewoundAll_iff hInv
  | deliver p position toBlock rows => exact iff_of_true (deliver_rewoundAll hInv h) trivial

end Reach

/-- Along every run of polls and deliveries of pipelines that share a coordinator, no position is ever
above a block that was rolled back and not delivered again, exactly when every rollback is in the
reach of the pipeline that polls; and then nothing is missing once all have polled. -/
theorem shared_rollbacks_redelivered {π : Type} [DecidableEq π] (pipelines : Pipelines π)
    (s : SharedNetwork π) (hStart : ∀ p i n, s.rolledBack p i n = false) (turns : List (Turn π)) :
    (Always (SharedNetwork.step pipelines) RewoundAll s turns ↔
      Meets (SharedNetwork.step pipelines) (RollbackInReach pipelines) s turns) ∧
    (Meets (SharedNetwork.step pipelines) (RollbackInReach pipelines) s turns →
      Always (SharedNetwork.step pipelines) NothingMissing s turns) := by
  have hInit : RewoundAll s := by
    intro p i n hOwed
    rw [hStart] at hOwed
    cases hOwed
  have hIff : Always (SharedNetwork.step pipelines) RewoundAll s turns ↔
      Meets (SharedNetwork.step pipelines) (RollbackInReach pipelines) s turns :=
    always_iff_meets (fun s turn s' hInv h => step_rewoundAll_iff hInv h) hInit
  exact ⟨hIff, fun hMeets => (hIff.mpr hMeets).mono fun s hAll _ => hAll⟩

/-- The event streams of a token contract. -/
inductive TokenStream
  | transfer
  | approval
deriving DecidableEq, Repr

def TokenStream.tableInfo : TokenStream → EventTableInfo
  | .transfer => ⟨"app_token", "transfer", "app_token_transfer"⟩
  | .approval => ⟨"app_token", "approval", "app_token_approval"⟩

def tokenStreams : Pipelines TokenStream where
  kind _ := .stream
  table stream _ := stream.tableInfo.fullName

/-- Both streams are about to index block 10, the first of their window. -/
def tokenNetwork : SharedNetwork TokenStream where
  coordinator :=
    { ReorgCoordinator.fresh "ethereum" with
      eventTables := [TokenStream.transfer.tableInfo, TokenStream.approval.tableInfo] }
  next _ _ := 10
  delivered _ _ _ := false
  rolledBack _ _ _ := false
  polled _ := false

/-- The node after a reorg of block 11. -/
def afterReorg : Surroundings where
  provider := some (.ofChain (fun n => if n < 11 then (n, n - 1) else (n + 10, n + 9)) 13)
  persistFails _ := false
  postgres := .plain
  sessions := some

/-- Transfers are indexed up to block 11, and approvals not at all. -/
def transfersAhead : SharedNetwork TokenStream where
  coordinator := { tokenNetwork.coordinator with
    window := (tokenNetwork.coordinator.window.insert 10 10 9).insert 11 11 10 }
  next stream _ := if stream = .transfer then 12 else 10
  delivered stream _ n := stream = .transfer && n ≤ 11
  rolledBack _ _ _ := false
  polled _ := false

/-- Both streams index blocks 10 and 11, and both see block 12 of another chain. -/
def twoStreamReorg : List (Turn TokenStream) :=
  [.poll .transfer .calm 10 10 9, .deliver .transfer 0 10 [],
    .poll .approval .calm 10 10 9, .deliver .approval 0 10 [],
    .poll .transfer .calm 11 11 10, .deliver .transfer 0 11 [],
    .poll .approval .calm 11 11 10, .deliver .approval 0 11 [],
    .poll .transfer afterReorg 12 22 21, .poll .approval afterReorg 12 22 21]

/-- Transfers are rolled back and delivered again; approvals were behind the fork point. -/
theorem shared_rollbacks_redelivered_ahead :
    Always (SharedNetwork.step tokenStreams) NothingMissing transfersAhead
      [.poll .transfer afterReorg 12 22 21, .deliver .transfer 0 12 []] := by
  refine (shared_rollbacks_redelivered tokenStreams transfersAhead (fun _ _ _ => rfl) _).2 ?_
  intro s1 h1
  cases h1
  refine ⟨fun task hTask => ?_, ?_⟩
  · cases hTask
    refine ⟨fun q i n hOther hDelivered => ?_, fun _ i n hOwed => ?_, fun _ hNative => ?_⟩
    · cases q with
      | transfer => exact absurd rfl (hOther rfl)
      | approval => cases hDelivered
    · cases hOwed
    · cases hNative
  · intro s2 h2
    cases h2
    exact ⟨trivial, trivial⟩

/-- The stream that polls after the window has been repaired sees no reorg and stays above the block
whose rows the other stream's rollback has deleted. -/
theorem second_stream_misses_rollback :
    ¬ ∀ (π : Type) (_ : DecidableEq π) (pipelines : Pipelines π) (s : SharedNetwork π),
        (∀ p i n, s.rolledBack p i n = false) → ∀ turns : List (Turn π),
      Always (SharedNetwork.step pipelines) NothingMissing s turns := by
  intro hClaim
  have hLast := (hClaim TokenStream inferInstance tokenStreams tokenNetwork (fun _ _ _ => rfl)
    twoStreamReorg).last rfl
  have hReached := hLast (fun stream => match stream with
    | .transfer => rfl
    | .approval => rfl) .approval 0 11 rfl
  exact absurd hReached (by decide)

end Rindexer.Indexer
