import Rindexer.Indexer.SharedCoordinator

/-! The paths on which a fetch loop learns of a reorg: the poll of the head, a notification, removed
logs, and the validation at startup.  Each handles the result of a rollback in its own way. -/

namespace Rindexer.Indexer

open Rindexer.Lib Rindexer.Database Rindexer.Reorg

/-- A fetch loop.  `mayFetch` says that the poll of this iteration has reported no reorg, and
`signals` are the notifications that wait, each a fork block with a depth.  `unsettled` records the
reorged ranges that the loop has learnt of and no rollback has covered; no code reads it. -/
structure FetchLoop where
  coordinator : Option ReorgCoordinator
  next : Nat
  live : Bool
  mayFetch : Bool
  signals : List (Nat × Nat)
  unsettled : List (Nat × Nat)

inductive LoopAct
  | startup (env : Surroundings)
  | goLive
  | signal (forkBlock depth : Nat)
  | takeSignal (env : Surroundings)
  | poll (env : Surroundings) (number : Nat) (hash parentHash : B256)
  | deliver (toBlock : Nat) (rows : List EventRow)
  | removedLogs (env : Surroundings) (toBlock minRemovedBlock : Nat)

/-- The inclusive range that a notification names. -/
def signalRange (s : Nat × Nat) : Nat × Nat := (s.1, s.1 + (s.2 - 1))

/-- What a rollback of a range leaves unsettled. -/
def settle (forkPoint detectionPoint : Nat) (unsettled : List (Nat × Nat)) : List (Nat × Nat) :=
  unsettled.filter fun r => !(forkPoint ≤ r.1 && r.2 ≤ detectionPoint)

namespace FetchLoop

/-- The rollback of a named range.  A failure is logged. -/
def rollBack (env : Surroundings) (s : FetchLoop) (c : ReorgCoordinator) (task : ReorgTask) :
    FetchLoop :=
  match c.handleReorg env task with
  | (c', none) =>
    { s with
      coordinator := some c'
      unsettled := settle task.forkPoint task.detectionPoint s.unsettled }
  | (c', some _) =>
    { s with
      coordinator := some c'
      unsettled := s.unsettled ++ [(task.forkPoint, task.detectionPoint)] }

/-- The validation at startup, before the historical blocks.  A failure is logged. -/
def startup (env : Surroundings) (s : FetchLoop) : FetchLoop :=
  match s.coordinator with
  | none => s
  | some c =>
    match c.validateOnStartup env with
    | .ok (some task) => s.rollBack env c task
    | _ => s

/-- The loop takes a notification, and goes back to its fork block whatever the rollback has done.
Without a coordinator it only passes a marker on, which the consumer drops. -/
def takeSignal (env : Surroundings) (s : FetchLoop) : Option FetchLoop :=
  match s.signals with
  | [] => none
  | signal :: signals =>
    let range := signalRange signal
    let handled := match s.coordinator with
      | none => { s with unsettled := s.unsettled ++ [range] }
      | some c =>
        match c.onExexReorg range.1 range.2 with
        | .ok task => s.rollBack env c task
        | .error _ => { s with unsettled := s.unsettled ++ [range] }
    some { handled with next := signal.1, mayFetch := false, signals := signals }

/-- The loop polls the head.  An error makes it pause and poll again. -/
def poll (kind : PipelineKind) (env : Surroundings) (s : FetchLoop) (number : Nat)
    (hash parentHash : B256) : FetchLoop :=
  match s.coordinator with
  | none => { s with mayFetch := true }
  | some c =>
    match c.detectAndHandleReorg env number hash parentHash with
    | (c', .ok (some forkPoint)) =>
      { s with
        coordinator := some c'
        next := kind.rewind forkPoint
        mayFetch := false
        unsettled := settle forkPoint number s.unsettled }
    | (c', .ok none) => { s with coordinator := some c', mayFetch := true }
    | (c', .error _) =>
      { s with
        coordinator := some c'
        mayFetch := false
        unsettled := s.unsettled ++
          match (c.onNewBlock env number hash parentHash).2 with
          | .ok (some task) => [(task.forkPoint, number)]
          | _ => [] }

/-- The loop fetches up to a block and sends what it got. -/
def deliver (kind : PipelineKind) (s : FetchLoop) (toBlock : Nat) (rows : List EventRow) :
    Option FetchLoop :=
  if s.next ≤ toBlock ∧ (s.live = true → s.mayFetch = true) then
    some { s with next := kind.nextBlock toBlock rows, mayFetch := false }
  else none

/-- The loop fetches up to a block and gets removed logs.  It goes back to the lowest of their
blocks whatever the rollback has done, and drops the notifications that wait. -/
def removedLogs (env : Surroundings) (s : FetchLoop) (toBlock minRemovedBlock : Nat) :
    Option FetchLoop :=
  if s.next ≤ toBlock ∧ s.live = true ∧ s.mayFetch = true then
    let drained := { s with
      signals := []
      unsettled := s.unsettled ++ s.signals.map signalRange }
    let handled := match s.coordinator with
      | none => { drained with unsettled := drained.unsettled ++ [(minRemovedBlock, toBlock)] }
      | some c =>
        match c.tryCreateReorgTaskForBlockRange minRemovedBlock toBlock with
        | .ok task => drained.rollBack env c task
        | .error _ =>
          { drained with unsettled := drained.unsettled ++ [(minRemovedBlock, toBlock)] }
    some { handled with next := minRemovedBlock, mayFetch := false }
  else none

/-- Only an event stream subscribes to notifications and looks for removed logs. -/
def step (kind : PipelineKind) (s : FetchLoop) : LoopAct → Option FetchLoop
  | .startup env => if s.live then none else some (s.startup env)
  | .goLive => if s.live then none else some { s with live := true, mayFetch := false }
  | .signal forkBlock depth =>
    if s.live ∧ kind = .stream then some { s with signals := s.signals ++ [(forkBlock, depth)] }
    else none
  | .takeSignal env => s.takeSignal env
  | .poll env number hash parentHash =>
    if s.live then some (s.poll kind env number hash parentHash) else none
  | .deliver toBlock rows => s.deliver kind toBlock rows
  | .removedLogs env toBlock minRemovedBlock =>
    if kind = .stream then s.removedLogs env toBlock minRemovedBlock else none

end FetchLoop

/-! ### What a loop delivers -/

/-- A loop delivers no block of an unsettled range, and none above it. -/
def SettledDelivery (s : FetchLoop) : LoopAct → Prop
  | .deliver toBlock _ => ∀ r ∈ s.unsettled, toBlock < r.1
  | _ => True

/-- A range that gets settled is within one whose rows are gone from the tables. -/
def SettledByRollback (s s' : FetchLoop) : Prop :=
  ∀ r ∈ s.unsettled, r ∉ s'.unsettled → ∃ c ∈ s'.coordinator, ∃ forkPoint detectionPoint,
    forkPoint ≤ r.1 ∧ r.2 ≤ detectionPoint ∧ c.Cleared forkPoint detectionPoint

/-- The rollback at startup, if any, is done; and a poll with an unsettled range finds the break
between its head, or the gap below it, and the window. -/
def RollbackRetried (s : FetchLoop) : LoopAct → Prop
  | .startup env => ∀ c ∈ s.coordinator, ∀ task, c.validateOnStartup env = .ok (some task) →
      (c.handleReorg env task).2 = none
  | .poll env number _ parentHash =>
    s.unsettled = [] ∨ ∃ c ∈ s.coordinator, c.SeesBreak env number parentHash
  | _ => True

/-- A loop that may fetch has no unsettled range. -/
structure Settled (s : FetchLoop) : Prop where
  historical : s.live = false → s.unsettled = [] ∧ s.signals = []
  fetching : s.mayFetch = true → s.unsettled = []

theorem mem_settle {forkPoint detectionPoint : Nat} {unsettled : List (Nat × Nat)} {r : Nat × Nat} :
    r ∈ settle forkPoint detectionPoint unsettled ↔
      r ∈ unsettled ∧ ¬(forkPoint ≤ r.1 ∧ r.2 ≤ detectionPoint) := by
  simp only [settle, List.mem_filter, Bool.not_eq_true', Bool.and_eq_false_iff,
    decide_eq_false_iff_not]
  tauto

theorem onExexReorg_task {c : ReorgCoordinator} {forkPoint detectionPoint : Nat} {task : ReorgTask}
    (h : c.onExexReorg forkPoint detectionPoint = .ok task) :
    task.eventTables = c.eventTables ∧ task.network = c.network := by
  unfold ReorgCoordinator.onExexReorg at h
  split at h
  · cases h
    exact ⟨rfl, rfl⟩
  · cases h

theorem rollBack_settled {env : Surroundings} {s : FetchLoop} {c : ReorgCoordinator}
    {task : ReorgTask} (hTables : task.eventTables = c.eventTables)
    (hNetwork : task.network = c.network) : SettledByRollback s (s.rollBack env c task) := by
  intro r hr hGone
  unfold FetchLoop.rollBack at hGone ⊢
  split at hGone
  · rename_i c' hHandled
    have hWithin : task.forkPoint ≤ r.1 ∧ r.2 ≤ task.detectionPoint := by
      by_contra hOutside
      exact hGone (mem_settle.mpr ⟨hr, hOutside⟩)
    exact ⟨c', rfl, task.forkPoint, task.detectionPoint, hWithin.1, hWithin.2,
      handleReorg_cleared hHandled hTables hNetwork⟩
  · exact absurd (List.mem_append_left _ hr) hGone

@[simp] theorem rollBack_live (env : Surroundings) (s : FetchLoop) (c : ReorgCoordinator)
    (task : ReorgTask) : (s.rollBack env c task).live = s.live := by
  unfold FetchLoop.rollBack
  split <;> rfl

/-- Adding ranges settles none. -/
theorem settledByRollback_of_append {s s' : FetchLoop} {added : List (Nat × Nat)}
    (h : s'.unsettled = s.unsettled ++ added) : SettledByRollback s s' := by
  intro r hr hGone
  rw [h] at hGone
  exact absurd (List.mem_append_left _ hr) hGone

theorem settledByRollback_of_eq {s s' : FetchLoop} (h : s'.unsettled = s.unsettled) :
    SettledByRollback s s' := by
  intro r hr hGone
  rw [h] at hGone
  exact absurd hr hGone

section Steps

variable {kind : PipelineKind} {s s' : FetchLoop}

theorem startup_step (hInv : Settled s) (hLive : s.live = false) {env : Surroundings}
    (hRetried : RollbackRetried s (.startup env)) :
    Settled (s.startup env) ∧ SettledByRollback s (s.startup env) := by
  unfold FetchLoop.startup
  split
  · exact ⟨hInv, settledByRollback_of_eq rfl⟩
  rename_i c hCoordinator
  split
  · rename_i task hTask
    obtain ⟨hTables, hNetwork⟩ := validateOnStartup_task hTask
    refine ⟨?_, rollBack_settled hTables hNetwork⟩
    have hHandled := hRetried c hCoordinator task hTask
    unfold FetchLoop.rollBack
    split
    · have hEmpty : settle task.forkPoint task.detectionPoint s.unsettled = [] := by
        rw [(hInv.historical hLive).1]
        rfl
      exact ⟨fun _ => ⟨hEmpty, (hInv.historical hLive).2⟩, fun _ => hEmpty⟩
    · rename_i hFailed
      rw [hFailed] at hHandled
      cases hHandled
  · exact ⟨hInv, settledByRollback_of_eq rfl⟩

theorem takeSignal_step (hInv : Settled s) {env : Surroundings}
    (h : s.takeSignal env = some s') : Settled s' ∧ SettledByRollback s s' := by
  unfold FetchLoop.takeSignal at h
  split at h
  · cases h
  rename_i signal signals hSignals
  have hLive : s.live ≠ false := by
    intro hNot
    have hNone := (hInv.historical hNot).2
    rw [hSignals] at hNone
    cases hNone
  cases hCoordinator : s.coordinator with
  | none =>
    simp only [hCoordinator] at h
    cases h
    refine ⟨⟨fun hNot => absurd hNot hLive, fun hMay => ?_⟩, settledByRollback_of_append rfl⟩
    cases hMay
  | some c =>
    simp only [hCoordinator] at h
    split at h
    · rename_i task hTask
      cases h
      obtain ⟨hTables, hNetwork⟩ := onExexReorg_task hTask
      refine ⟨⟨fun hNot => absurd ?_ hLive, fun hMay => ?_⟩, rollBack_settled hTables hNetwork⟩
      · simpa using hNot
      · cases hMay
    · cases h
      refine ⟨⟨fun hNot => absurd hNot hLive, fun hMay => ?_⟩, settledByRollback_of_append rfl⟩
      cases hMay

theorem poll_step (hLive : s.live = true) {env : Surroundings} {number : Nat}
    {hash parentHash : B256} (hRetried : RollbackRetried s (.poll env number hash parentHash)) :
    Settled (s.poll kind env number hash parentHash) ∧
      SettledByRollback s (s.poll kind env number hash parentHash) := by
  unfold FetchLoop.poll
  split
  · rename_i hNone
    refine ⟨⟨fun hNot => absurd (hLive.symm.trans hNot) (by simp), fun _ => ?_⟩,
      settledByRollback_of_eq rfl⟩
    rcases hRetried with hSettled | ⟨c, hSome, -⟩
    · exact hSettled
    · rw [hNone] at hSome
      cases hSome
  rename_i c hCoordinator
  split
  · rename_i c' forkPoint hHandled
    refine ⟨⟨fun hNot => absurd (hLive.symm.trans hNot) (by simp), fun hMay => ?_⟩,
      fun r hr hGone => ?_⟩
    · cases hMay
    · have hWithin : forkPoint ≤ r.1 ∧ r.2 ≤ number := by
        by_contra hOutside
        exact hGone (mem_settle.mpr ⟨hr, hOutside⟩)
      exact ⟨c', rfl, forkPoint, number, hWithin.1, hWithin.2,
        detectAndHandleReorg_cleared hHandled⟩
  · rename_i c' hClear
    refine ⟨⟨fun hNot => absurd (hLive.symm.trans hNot) (by simp), fun _ => ?_⟩,
      settledByRollback_of_eq rfl⟩
    rcases hRetried with hSettled | ⟨c1, hSome, hBreak⟩
    · exact hSettled
    · rw [hCoordinator] at hSome
      cases hSome
      exact absurd (onNewBlock_none_of_clear hClear)
        (onNewBlock_ne_none_of_seesBreak hBreak hash)
  · refine ⟨⟨fun hNot => absurd (hLive.symm.trans hNot) (by simp), fun hMay => ?_⟩,
      settledByRollback_of_append rfl⟩
    cases hMay

theorem removedLogs_step (hInv : Settled s) {env : Surroundings} {toBlock minRemovedBlock : Nat}
    (h : s.removedLogs env toBlock minRemovedBlock = some s') :
    Settled s' ∧ SettledByRollback s s' := by
  unfold FetchLoop.removedLogs at h
  split at h
  · rename_i hGuard
    simp only at h
    have hNone := hInv.fetching hGuard.2.2
    have hFrom : SettledByRollback s s' := by
      intro r hr
      rw [hNone] at hr
      cases hr
    refine ⟨?_, hFrom⟩
    cases h
    refine ⟨fun hNot => ?_, fun hMay => ?_⟩
    · have hStill : s.live = false := by
        split at hNot
        · exact hNot
        · split at hNot
          · simpa using hNot
          · exact hNot
      rw [hStill] at hGuard
      cases hGuard.2.1
    · cases hMay
  · cases h

theorem step_settled {act : LoopAct} (hInv : Settled s) (hRetried : RollbackRetried s act)
    (h : s.step kind act = some s') :
    Settled s' ∧ SettledDelivery s act ∧ SettledByRollback s s' := by
  cases act with
  | startup env =>
    simp only [FetchLoop.step] at h
    split at h
    · cases h
    rename_i hLive
    cases h
    obtain ⟨hNext, hBy⟩ := startup_step hInv (by simpa using hLive) hRetried
    exact ⟨hNext, trivial, hBy⟩
  | goLive =>
    simp only [FetchLoop.step] at h
    split at h
    · cases h
    rename_i hLive
    cases h
    refine ⟨⟨fun hNot => ?_, fun hMay => ?_⟩, trivial, settledByRollback_of_eq rfl⟩
    · cases hNot
    · cases hMay
  | signal forkBlock depth =>
    obtain ⟨hLive, hSame⟩ := Option.ite_none_right_eq_some.mp h
    cases hSame
    refine ⟨⟨fun hNot => ?_, hInv.fetching⟩, trivial, settledByRollback_of_eq rfl⟩
    rw [show s.live = false from hNot] at hLive
    cases hLive.1
  | takeSignal env =>
    obtain ⟨hNext, hBy⟩ := takeSignal_step hInv h
    exact ⟨hNext, trivial, hBy⟩
  | poll env number hash parentHash =>
    obtain ⟨hLive, hSame⟩ := Option.ite_none_right_eq_some.mp h
    cases hSame
    obtain ⟨hNext, hBy⟩ := poll_step hLive hRetried
    exact ⟨hNext, trivial, hBy⟩
  | deliver toBlock rows =>
    obtain ⟨hGuard, hSame⟩ := Option.ite_none_right_eq_some.mp h
    cases hSame
    have hNone : s.unsettled = [] := by
      cases hLive : s.live with
      | false => exact (hInv.historical hLive).1
      | true => exact hInv.fetching (hGuard.2 hLive)
    refine ⟨⟨hInv.historical, fun hMay => ?_⟩, fun r hr => ?_, settledByRollback_of_eq rfl⟩
    · cases hMay
    · rw [hNone] at hr
      cases hr
  | removedLogs env toBlock minRemovedBlock =>
    obtain ⟨-, hStep⟩ := Option.ite_none_right_eq_some.mp h
    obtain ⟨hNext, hBy⟩ := removedLogs_step hInv hStep
    exact ⟨hNext, trivial, hBy⟩

end Steps

/-- The node after a reorg of block 11, with a database that cannot be reached. -/
def unreachable : Surroundings := { afterReorg with sessions := fun _ => none }

/-- The stream of transfers, with a coordinator on its network. -/
def coordinatedLoop : FetchLoop :=
  ⟨some { ReorgCoordinator.fresh "ethereum" with eventTables := [TokenStream.transfer.tableInfo] },
    10, false, false, [], []⟩

end Rindexer.Indexer
