import Mathlib.Algebra.BigOperators.Ring.List
import Mathlib.Algebra.Order.BigOperators.Group.List
import Rindexer.Indexer.Parallel
import Rindexer.Lib.Admission
import Rindexer.Lib.Atomics
import Rindexer.Lib.Transition

/-! How the parallel historical fetch starts and ends its workers.  The dispatcher admits a worker when
fewer are active than the adaptive limit allows, and otherwise waits for a worker's notice; a worker
that panics has its guard report the sub-range; a full or closed channel makes the guard cancel the
fetch.  What a worker fetches is part of the labels here. -/

namespace Rindexer.Indexer

open Rindexer.Lib

/-- The steps of a worker: its loop and final send, the guard's report when it panicked, and the
guard's release of the counter and notice. -/
inductive FetchWorkerPhase
  | working
  | dropping
  | releasing
  | notifying
  | ended
deriving DecidableEq, Repr

/-- The dispatcher, its workers by sequence id, the channel of their batches, and the reorder task.
`sent` and `received` are the batches that entered and left the channel; no code reads them. -/
structure FetchPool where
  nextFrom : Nat
  dispatching : Bool
  admission : Admission
  workers : List FetchWorkerPhase
  channel : List (SequencedFetchBatch FetchResult)
  closed : Bool
  cancelled : Bool
  buffer : ReorderBuffer FetchResult
  delivered : List FetchResult
  sent : List (SequencedFetchBatch FetchResult)
  received : List (SequencedFetchBatch FetchResult)

inductive FetchPoolEvent
  | cancel
  | enter
  | load (stale : Nat)
  | compare (current : Nat)
  | await
  | spawn
  | send (sequenceId : Nat) (results : List FetchResult)
  | finish (sequenceId : Nat) (results : List FetchResult)
  | panic (sequenceId : Nat)
  | report (sequenceId : Nat)
  | release (sequenceId : Nat)
  | notify (sequenceId : Nat)
  | receive
  | close (taken : Nat)

def workerPanicked : FetchResult :=
  .error "worker panicked or was cancelled without sending results"

namespace FetchPool

def start (plan : ParallelPlan) : FetchPool where
  nextFrom := plan.startBlock
  dispatching := true
  admission := .empty
  workers := []
  channel := []
  closed := false
  cancelled := false
  buffer := .new
  delivered := []
  sent := []
  received := []

def hasRoom (plan : ParallelPlan) (s : FetchPool) : Bool :=
  s.channel.length < 2 * plan.params.effectiveConcurrency

def push (batch : SequencedFetchBatch FetchResult) (s : FetchPool) : FetchPool :=
  { s with channel := s.channel ++ [batch], sent := s.sent ++ [batch] }

def setWorker (sequenceId : Nat) (phase : FetchWorkerPhase) (s : FetchPool) : FetchPool :=
  { s with workers := s.workers.set sequenceId phase }

/-- The head of the dispatcher's loop.  Past it the dispatcher gives up its sender. -/
def enter (plan : ParallelPlan) (s : FetchPool) : Option FetchPool :=
  if s.dispatching then
    if s.nextFrom ≤ plan.snapshotToBlock ∧ s.cancelled = false then
      s.admission.enter.map fun admission => { s with admission := admission }
    else if s.admission.phase = .outside then some { s with dispatching := false }
    else none
  else none

def advance (admission : Option Admission) (s : FetchPool) : Option FetchPool :=
  if s.dispatching then admission.map fun admission => { s with admission := admission } else none

/-- The limit is the shared controller's, between one worker and the plan's. -/
def compare (plan : ParallelPlan) (current : Nat) (s : FetchPool) : Option FetchPool :=
  s.advance (s.admission.compare (max 1 (min current plan.params.effectiveConcurrency)))

def spawn (plan : ParallelPlan) (s : FetchPool) : Option FetchPool :=
  (s.advance s.admission.fetchAdd).map fun s =>
    { s with
      nextFrom := wrappingAdd (min (s.nextFrom + (plan.params.chunkSize - 1)) plan.snapshotToBlock) 1
      workers := s.workers ++ [.working] }

/-- A partial batch.  On a closed channel the worker goes on to its final one. -/
def send (plan : ParallelPlan) (sequenceId : Nat) (results : List FetchResult) (s : FetchPool) :
    Option FetchPool :=
  if s.workers[sequenceId]? = some .working ∧ s.closed = false ∧ s.hasRoom plan then
    some (s.push ⟨sequenceId, results, false⟩)
  else none

/-- The final batch, which a closed channel drops. -/
def finish (plan : ParallelPlan) (sequenceId : Nat) (results : List FetchResult) (s : FetchPool) :
    Option FetchPool :=
  if s.workers[sequenceId]? = some .working then
    if s.closed then some (s.setWorker sequenceId .releasing)
    else if s.hasRoom plan then
      some ((s.push ⟨sequenceId, results, true⟩).setWorker sequenceId .releasing)
    else none
  else none

def panic (sequenceId : Nat) (s : FetchPool) : Option FetchPool :=
  if s.workers[sequenceId]? = some .working then some (s.setWorker sequenceId .dropping) else none

/-- The guard's report of a panic: it does not wait for room, and cancels when there is none. -/
def report (plan : ParallelPlan) (sequenceId : Nat) (s : FetchPool) : Option FetchPool :=
  if s.workers[sequenceId]? = some .dropping then
    if s.closed = false ∧ s.hasRoom plan then
      some ((s.push ⟨sequenceId, [workerPanicked], true⟩).setWorker sequenceId .releasing)
    else some { s.setWorker sequenceId .releasing with cancelled := true }
  else none

def release (sequenceId : Nat) (s : FetchPool) : Option FetchPool :=
  if s.workers[sequenceId]? = some .releasing then
    s.admission.leave.map fun admission =>
      { s.setWorker sequenceId .notifying with admission := admission }
  else none

def notify (sequenceId : Nat) (s : FetchPool) : Option FetchPool :=
  if s.workers[sequenceId]? = some .notifying then
    s.admission.notifyOne.map fun admission =>
      { s.setWorker sequenceId .ended with admission := admission }
  else none

def receive (s : FetchPool) : Option FetchPool :=
  match s.channel with
  | [] => none
  | batch :: channel =>
    some { s with
      channel := channel
      buffer := (s.buffer.accept batch).1
      delivered := s.delivered ++ (s.buffer.accept batch).2
      received := s.received ++ [batch] }

/-- The consumer goes away while the reorder task passes results on; the task ends and its end of the
channel with it. -/
def close (taken : Nat) (s : FetchPool) : Option FetchPool :=
  match s.channel with
  | [] => none
  | batch :: _ =>
    if taken < (s.buffer.accept batch).2.length then
      some { s with
        channel := []
        closed := true
        buffer := (s.buffer.accept batch).1
        delivered := s.delivered ++ (s.buffer.accept batch).2.take taken
        received := s.received ++ [batch] }
    else none

def step (plan : ParallelPlan) (s : FetchPool) : FetchPoolEvent → Option FetchPool
  | .cancel => if s.cancelled then none else some { s with cancelled := true }
  | .enter => s.enter plan
  | .load stale => s.advance (s.admission.load stale)
  | .compare current => s.compare plan current
  | .await => s.advance s.admission.await
  | .spawn => s.spawn plan
  | .send sequenceId results => s.send plan sequenceId results
  | .finish sequenceId results => s.finish plan sequenceId results
  | .panic sequenceId => s.panic sequenceId
  | .report sequenceId => s.report plan sequenceId
  | .release sequenceId => s.release sequenceId
  | .notify sequenceId => s.notify sequenceId
  | .receive => s.receive
  | .close taken => s.close taken

/-- The dispatcher and every worker have ended, and the reorder task has nothing left to take in. -/
structure Finished (s : FetchPool) : Prop where
  dispatched : s.dispatching = false
  workers : ∀ phase ∈ s.workers, phase = .ended
  channel : s.channel = []

end FetchPool

/-! ### Counting -/

def FetchWorkerPhase.counted : FetchWorkerPhase → Nat
  | .working => 1
  | .dropping => 1
  | .releasing => 1
  | .notifying => 0
  | .ended => 0

def FetchWorkerPhase.noticesDue : FetchWorkerPhase → Nat
  | .notifying => 1
  | _ => 0

/-- The steps that a worker may still take and cause, its partial batches apart. -/
def FetchWorkerPhase.weight : FetchWorkerPhase → Nat
  | .working => 8
  | .dropping => 7
  | .releasing => 5
  | .notifying => 4
  | .ended => 0

/-- The number of sub-ranges from a block on. -/
def ParallelPlan.subRanges (plan : ParallelPlan) (nextFrom : Nat) : Nat :=
  (plan.snapshotToBlock + 1 - nextFrom + (plan.params.chunkSize - 1)) / plan.params.chunkSize

/-- Partial batches are the steps that a worker may take as often as it fetches. -/
def FetchPoolEvent.partials : FetchPoolEvent → Nat
  | .send _ _ => 1
  | _ => 0

namespace FetchPool

def measure (plan : ParallelPlan) (s : FetchPool) : Nat :=
  12 * plan.subRanges s.nextFrom + (if s.dispatching then s.admission.work + 1 else 0) +
    (s.workers.map FetchWorkerPhase.weight).sum + s.channel.length + (if s.cancelled then 0 else 1)

/-- The counter counts the workers that have not left it, and the dispatcher is inside its loop only
while sub-ranges are left. -/
structure Counted (plan : ParallelPlan) (s : FetchPool) : Prop where
  admission : s.admission.Sound plan.params.effectiveConcurrency
  active : s.admission.active = (s.workers.map FetchWorkerPhase.counted).sum
  notifying : s.admission.notifying = (s.workers.map FetchWorkerPhase.noticesDue).sum
  inside : s.admission.phase ≠ .outside → s.dispatching = true ∧ s.nextFrom ≤ plan.snapshotToBlock
  ended : s.dispatching = false → s.cancelled = true ∨ plan.snapshotToBlock < s.nextFrom
  dispatched : s.workers.length + plan.subRanges s.nextFrom = plan.subRanges plan.startBlock

section Counting

variable {plan : ParallelPlan} {s s' : FetchPool}

theorem subRanges_next {nextFrom : Nat} (h : nextFrom ≤ plan.snapshotToBlock) :
    plan.subRanges (min (nextFrom + (plan.params.chunkSize - 1)) plan.snapshotToBlock + 1) + 1 =
      plan.subRanges nextFrom := by
  have hChunk := chunkSize_pos plan
  unfold ParallelPlan.subRanges
  by_cases hMore : nextFrom + plan.params.chunkSize ≤ plan.snapshotToBlock + 1
  · have hBlocks : plan.snapshotToBlock + 1 - nextFrom + (plan.params.chunkSize - 1) =
        (plan.snapshotToBlock + 1 - (nextFrom + plan.params.chunkSize) +
          (plan.params.chunkSize - 1)) + plan.params.chunkSize := by omega
    have hNext : min (nextFrom + (plan.params.chunkSize - 1)) plan.snapshotToBlock + 1 =
        nextFrom + plan.params.chunkSize := by omega
    rw [hNext, hBlocks, Nat.add_div_right _ hChunk]
  · have hNext : min (nextFrom + (plan.params.chunkSize - 1)) plan.snapshotToBlock + 1 =
        plan.snapshotToBlock + 1 := by omega
    rw [hNext, Nat.sub_self, Nat.zero_add, Nat.div_eq_of_lt (by omega)]
    have hOne : plan.snapshotToBlock + 1 - nextFrom + (plan.params.chunkSize - 1) =
        (plan.snapshotToBlock - nextFrom) + plan.params.chunkSize := by omega
    rw [hOne, Nat.add_div_right _ hChunk, Nat.div_eq_of_lt (by omega)]

theorem start_counted (plan : ParallelPlan) : (start plan).Counted plan where
  admission := Admission.empty_sound _
  active := rfl
  notifying := rfl
  inside hInside := absurd rfl hInside
  ended hEnded := by cases hEnded
  dispatched := Nat.zero_add _

theorem advance_some {admission : Option Admission} (h : s.advance admission = some s') :
    s.dispatching = true ∧ ∃ a, admission = some a ∧ s' = { s with admission := a } := by
  unfold advance at h
  split at h
  · rename_i hDispatching
    obtain ⟨a, hAdmission, hNew⟩ := Option.map_eq_some_iff.mp h
    exact ⟨hDispatching, a, hAdmission, hNew.symm⟩
  · cases h

theorem weights_setWorker {f : FetchWorkerPhase → Nat} {i : Nat} {old : FetchWorkerPhase}
    (new : FetchWorkerPhase) (h : s.workers[i]? = some old) :
    ((s.setWorker i new).workers.map f).sum + f old = (s.workers.map f).sum + f new := by
  have hOld : (s.workers.map f)[i]? = some (f old) := by rw [List.getElem?_map, h, Option.map_some]
  have hSum := sum_set_of_getElem? (f new) hOld
  rw [← List.map_set] at hSum
  exact hSum

/-- One step keeps the account, and all steps but partial batches use up the measure. -/
structure Counts (plan : ParallelPlan) (s : FetchPool) (partials : Nat) (s' : FetchPool) : Prop where
  counted : s'.Counted plan
  measure : s'.measure plan + 1 ≤ s.measure plan + 2 * partials

/-- A step of a worker counts when the counter and the notices follow it. -/
theorem Counted.worker (h : s.Counted plan) {i : Nat} {old : FetchWorkerPhase}
    (new : FetchWorkerPhase) (hWorker : s.workers[i]? = some old)
    (hWorkers : s'.workers = (s.setWorker i new).workers)
    (hFrom : s'.nextFrom = s.nextFrom) (hDispatching : s'.dispatching = s.dispatching)
    (hCancelled : s.cancelled = true → s'.cancelled = true)
    (hSound : s'.admission.Sound plan.params.effectiveConcurrency)
    (hActive : s'.admission.active + old.counted = s.admission.active + new.counted)
    (hNotifying : s'.admission.notifying + old.noticesDue = s.admission.notifying + new.noticesDue)
    (hInside : s'.admission.phase ≠ .outside → s.admission.phase ≠ .outside)
    (hWeight : new.weight + s'.channel.length + 1 ≤ old.weight + s.channel.length)
    (hWork : s'.admission.work + new.weight + s'.channel.length + 1 ≤
      s.admission.work + old.weight + s.channel.length) : s.Counts plan 0 s' := by
  have hCounted := weights_setWorker (f := FetchWorkerPhase.counted) new hWorker
  have hDue := weights_setWorker (f := FetchWorkerPhase.noticesDue) new hWorker
  have hWeights := weights_setWorker (f := FetchWorkerPhase.weight) new hWorker
  have hActiveNow := h.active
  have hNotifyingNow := h.notifying
  rw [← hWorkers] at hCounted hDue hWeights
  refine ⟨⟨hSound, by omega, by omega, fun hNow => ?_, fun hEnded => ?_, ?_⟩, ?_⟩
  · rw [hDispatching, hFrom]
    exact h.inside (hInside hNow)
  · rw [hFrom]
    exact (h.ended (hDispatching ▸ hEnded)).imp_left hCancelled
  · rw [hFrom, hWorkers, setWorker, List.length_set]
    exact h.dispatched
  · have hLess : (if s'.cancelled then 0 else 1) ≤ if s.cancelled then 0 else 1 := by
      cases hNow : s.cancelled with
      | true => rw [hCancelled hNow]
      | false =>
        split
        · exact Nat.zero_le _
        · exact le_refl 1
    unfold measure
    rw [hFrom, hDispatching]
    split
    · omega
    · omega

/-- A step of a worker that stays counted, and leaves the dispatcher alone. -/
theorem Counted.worker_counted (h : s.Counted plan) {i : Nat} {old : FetchWorkerPhase}
    (new : FetchWorkerPhase) (hWorker : s.workers[i]? = some old)
    (hWorkers : s'.workers = (s.setWorker i new).workers) (hFrom : s'.nextFrom = s.nextFrom)
    (hDispatching : s'.dispatching = s.dispatching)
    (hCancelled : s.cancelled = true → s'.cancelled = true) (hAdmission : s'.admission = s.admission)
    (hActive : old.counted = new.counted) (hNotifying : old.noticesDue = new.noticesDue)
    (hWeight : new.weight + s'.channel.length + 1 ≤ old.weight + s.channel.length) :
    s.Counts plan 0 s' := by
  apply h.worker new hWorker hWorkers hFrom hDispatching hCancelled
  · rw [hAdmission]
    exact h.admission
  · rw [hAdmission, hActive]
  · rw [hAdmission, hNotifying]
  · rw [hAdmission]
    exact id
  · exact hWeight
  · rw [hAdmission]
    omega

/-- The steps of the dispatcher between two workers. -/
theorem Counted.advances (h : s.Counted plan) {o : Option Admission} (hStep : s.advance o = some s')
    (hSpec : ∀ a, o = some a → a.Sound plan.params.effectiveConcurrency ∧ s.admission.Advances a) :
    s.Counts plan 0 s' := by
  obtain ⟨hDispatching, a, hSome, rfl⟩ := advance_some hStep
  obtain ⟨hSound, hAdvances⟩ := hSpec a hSome
  refine ⟨⟨hSound, hAdvances.active.trans h.active, hAdvances.notifying.trans h.notifying,
    fun _ => h.inside hAdvances.inside, h.ended, h.dispatched⟩, ?_⟩
  have hWork := hAdvances.work
  simp only [measure, hDispatching, if_true]
  omega

theorem enter_counts (h : s.Counted plan) (hStep : s.enter plan = some s') : s.Counts plan 0 s' := by
  unfold enter at hStep
  split at hStep
  · rename_i hDispatching
    split at hStep
    · rename_i hNext
      obtain ⟨a, hEnter, rfl⟩ := Option.map_eq_some_iff.mp hStep
      obtain ⟨-, hActive, hNotifying, hWork⟩ := Admission.enter_spec hEnter
      refine ⟨⟨h.admission.enter hEnter, hActive.trans h.active, hNotifying.trans h.notifying,
        fun _ => ⟨hDispatching, hNext.1⟩, h.ended, h.dispatched⟩, ?_⟩
      simp only [measure, hDispatching, if_true]
      omega
    · rename_i hStop
      split at hStep
      · rename_i hOutside
        cases hStep
        refine ⟨⟨h.admission, h.active, h.notifying, fun hInside => absurd hOutside hInside,
          fun _ => ?_, h.dispatched⟩, ?_⟩
        · rw [not_and_or] at hStop
          exact hStop.symm.imp (Bool.eq_true_of_not_eq_false) Nat.not_le.mp
        · simp only [measure, hDispatching, if_true, Bool.false_eq_true, if_false]
          omega
      · cases hStep
  · cases hStep

theorem spawn_counts (hBound : plan.snapshotToBlock + 1 < 2 ^ 64) (h : s.Counted plan)
    (hStep : s.spawn plan = some s') : s.Counts plan 0 s' := by
  obtain ⟨mid, hAdmit, rfl⟩ := Option.map_eq_some_iff.mp hStep
  obtain ⟨hDispatching, a, hSome, rfl⟩ := advance_some hAdmit
  obtain ⟨hAdmitted, hOutside, hActive, hNotifying, hWork⟩ := Admission.fetchAdd_spec hSome
  obtain ⟨-, hFrom⟩ := h.inside (by rw [hAdmitted]; exact fun hPhase => by cases hPhase)
  have hRanges := subRanges_next hFrom
  have hNext : wrappingAdd (min (s.nextFrom + (plan.params.chunkSize - 1)) plan.snapshotToBlock) 1 =
      min (s.nextFrom + (plan.params.chunkSize - 1)) plan.snapshotToBlock + 1 :=
    wrappingAdd_eq (by omega)
  rw [← hNext] at hRanges
  have hActiveNow := h.active
  have hDispatched := h.dispatched
  refine ⟨⟨h.admission.fetchAdd hSome, ?_, ?_, fun hInside => absurd hOutside hInside,
    fun hEnded => ?_, ?_⟩, ?_⟩
  · simp only [List.map_append, List.sum_append, List.map_cons, List.map_nil, List.sum_cons,
      List.sum_nil, FetchWorkerPhase.counted]
    omega
  · simp only [List.map_append, List.sum_append, List.map_cons, List.map_nil, List.sum_cons,
      List.sum_nil, FetchWorkerPhase.noticesDue]
    exact hNotifying.trans h.notifying
  · rw [hDispatching] at hEnded
    cases hEnded
  · simp only [List.length_append, List.length_cons, List.length_nil]
    omega
  · unfold measure
    simp only [List.map_append, List.sum_append, List.map_cons, List.map_nil, List.sum_cons,
      List.sum_nil, FetchWorkerPhase.weight, if_pos hDispatching]
    omega

theorem finish_counts {i : Nat} {results : List FetchResult} (h : s.Counted plan)
    (hStep : s.finish plan i results = some s') : s.Counts plan 0 s' := by
  unfold finish at hStep
  split at hStep
  · rename_i hWorker
    split at hStep
    · cases hStep
      refine h.worker_counted .releasing hWorker rfl rfl rfl id rfl rfl rfl ?_
      dsimp only [FetchWorkerPhase.weight, setWorker]
      omega
    · split at hStep
      · cases hStep
        refine h.worker_counted .releasing hWorker rfl rfl rfl id rfl rfl rfl ?_
        simp only [FetchWorkerPhase.weight, setWorker, push, List.length_append,
          List.length_singleton]
        omega
      · cases hStep
  · cases hStep

theorem report_counts {i : Nat} (h : s.Counted plan) (hStep : s.report plan i = some s') :
    s.Counts plan 0 s' := by
  unfold report at hStep
  split at hStep
  · rename_i hWorker
    split at hStep
    · cases hStep
      refine h.worker_counted .releasing hWorker rfl rfl rfl id rfl rfl rfl ?_
      simp only [FetchWorkerPhase.weight, setWorker, push, List.length_append,
        List.length_singleton]
      omega
    · cases hStep
      refine h.worker_counted .releasing hWorker rfl rfl rfl (fun _ => rfl) rfl rfl rfl ?_
      dsimp only [FetchWorkerPhase.weight, setWorker]
      omega
  · cases hStep

theorem release_counts {i : Nat} (h : s.Counted plan) (hStep : s.release i = some s') :
    s.Counts plan 0 s' := by
  unfold release at hStep
  split at hStep
  · rename_i hWorker
    obtain ⟨a, hLeave, rfl⟩ := Option.map_eq_some_iff.mp hStep
    obtain ⟨hPhase, hActive, hNotifying, hWork⟩ := Admission.leave_spec hLeave
    refine h.worker .notifying hWorker rfl rfl rfl id (h.admission.leave hLeave) ?_ ?_ ?_ ?_ ?_
    · exact hActive
    · exact hNotifying
    · exact fun hInside => hPhase ▸ hInside
    · dsimp only [FetchWorkerPhase.weight, setWorker]
      omega
    · dsimp only [FetchWorkerPhase.weight, setWorker]
      omega
  · cases hStep

theorem notify_counts {i : Nat} (h : s.Counted plan) (hStep : s.notify i = some s') :
    s.Counts plan 0 s' := by
  unfold notify at hStep
  split at hStep
  · rename_i hWorker
    obtain ⟨a, hNotify, rfl⟩ := Option.map_eq_some_iff.mp hStep
    obtain ⟨hInside, hActive, hNotifying, hWork⟩ := Admission.notifyOne_spec hNotify
    refine h.worker .ended hWorker rfl rfl rfl id (h.admission.notifyOne hNotify) ?_ ?_ hInside ?_ ?_
    · exact hActive
    · exact hNotifying
    · dsimp only [FetchWorkerPhase.weight, setWorker]
      omega
    · dsimp only [FetchWorkerPhase.weight, setWorker]
      omega
  · cases hStep

theorem step_counts (hBound : plan.snapshotToBlock + 1 < 2 ^ 64) {event : FetchPoolEvent}
    (h : s.Counted plan) (hStep : s.step plan event = some s') : s.Counts plan event.partials s' := by
  have hLimit (current : Nat) : 1 ≤ max 1 (min current plan.params.effectiveConcurrency) ∧
      max 1 (min current plan.params.effectiveConcurrency) ≤ plan.params.effectiveConcurrency := by
    have := effectiveConcurrency_pos plan
    omega
  cases event with
  | cancel =>
    unfold step at hStep
    dsimp only at hStep
    split at hStep
    · cases hStep
    · rename_i hOpen
      cases hStep
      refine ⟨⟨h.admission, h.active, h.notifying, h.inside, fun _ => .inl rfl, h.dispatched⟩, ?_⟩
      unfold measure
      dsimp only
      rw [if_neg hOpen, if_pos rfl]
      omega
  | enter => exact enter_counts h hStep
  | load stale =>
    exact h.advances hStep fun a hLoad => ⟨h.admission.load hLoad, Admission.load_advances hLoad⟩
  | compare current =>
    exact h.advances hStep fun a hCompare =>
      ⟨h.admission.compare (hLimit current) hCompare, Admission.compare_advances hCompare⟩
  | await =>
    exact h.advances hStep fun a hAwait => ⟨h.admission.await hAwait, Admission.await_advances hAwait⟩
  | spawn => exact spawn_counts hBound h hStep
  | send i results =>
    unfold step send at hStep
    dsimp only at hStep
    split at hStep
    · cases hStep
      refine ⟨⟨h.admission, h.active, h.notifying, h.inside, h.ended, h.dispatched⟩, ?_⟩
      unfold measure push
      simp only [List.length_append, List.length_cons, List.length_nil, FetchPoolEvent.partials]
      omega
    · cases hStep
  | finish i results => exact finish_counts h hStep
  | panic i =>
    unfold step panic at hStep
    dsimp only at hStep
    split at hStep
    · rename_i hWorker
      cases hStep
      refine h.worker_counted .dropping hWorker rfl rfl rfl id rfl rfl rfl ?_
      dsimp only [FetchWorkerPhase.weight, setWorker]
      omega
    · cases hStep
  | report i => exact report_counts h hStep
  | release i => exact release_counts h hStep
  | notify i => exact notify_counts h hStep
  | receive =>
    unfold step receive at hStep
    dsimp only at hStep
    split at hStep
    · cases hStep
    · rename_i batch channel hChannel
      cases hStep
      refine ⟨⟨h.admission, h.active, h.notifying, h.inside, h.ended, h.dispatched⟩, ?_⟩
      simp only [measure, hChannel, List.length_cons]
      omega
  | close taken =>
    unfold step close at hStep
    dsimp only at hStep
    split at hStep
    · cases hStep
    · rename_i batch channel hChannel
      split at hStep
      · cases hStep
        refine ⟨⟨h.admission, h.active, h.notifying, h.inside, h.ended, h.dispatched⟩, ?_⟩
        simp only [measure, hChannel, List.length_cons, List.length_nil]
        omega
      · cases hStep

end Counting

end FetchPool

/-- The steps that are not a cancellation, a panic or the end of the consumer. -/
def FetchPoolEvent.ordinary : FetchPoolEvent → Bool
  | .cancel => false
  | .panic _ => false
  | .close _ => false
  | _ => true

namespace FetchPool

section Progress

variable {plan : ParallelPlan} {s s' : FetchPool}

theorem le_sum_of_getElem? {f : FetchWorkerPhase → Nat} {workers : List FetchWorkerPhase} {i : Nat}
    {phase : FetchWorkerPhase} (h : workers[i]? = some phase) : f phase ≤ (workers.map f).sum := by
  apply List.single_le_sum (fun _ _ => Nat.zero_le _)
  exact List.mem_map_of_mem (List.mem_of_getElem? h)

/-- A worker that has not ended can take its next step when the channel is empty. -/
theorem worker_progress (h : s.Counted plan) (hChannel : s.channel = []) {i : Nat}
    {phase : FetchWorkerPhase} (hWorker : s.workers[i]? = some phase) (hOpen : phase ≠ .ended) :
    ∃ event, event.ordinary = true ∧ (s.step plan event).isSome := by
  have hRoom : s.hasRoom plan = true := by
    have := effectiveConcurrency_pos plan
    simp only [hasRoom, hChannel, List.length_nil, decide_eq_true_eq]
    omega
  have hActive := h.active
  have hNotifying := h.notifying
  cases phase with
  | working =>
    refine ⟨.finish i [], rfl, ?_⟩
    simp only [step, finish, hWorker, hRoom, if_true]
    split
    · rfl
    · rfl
  | dropping =>
    refine ⟨.report i, rfl, ?_⟩
    simp only [step, report, hWorker, if_true]
    split
    · rfl
    · rfl
  | releasing =>
    refine ⟨.release i, rfl, ?_⟩
    have hSome : 1 ≤ _ := le_sum_of_getElem? (f := FetchWorkerPhase.counted) hWorker
    simp only [step, release, hWorker, if_true, Admission.leave]
    rw [if_pos (by omega)]
    rfl
  | notifying =>
    refine ⟨.notify i, rfl, ?_⟩
    have hSome : 1 ≤ _ := le_sum_of_getElem? (f := FetchWorkerPhase.noticesDue) hWorker
    simp only [step, notify, hWorker, if_true, Admission.notifyOne]
    rw [if_pos (by omega)]
    split
    · rfl
    · rfl
  | ended => exact absurd rfl hOpen

/-- The dispatcher can take its next step when no worker is left: it is not waiting for one. -/
theorem dispatcher_progress (h : s.Counted plan) (hDispatching : s.dispatching = true)
    (hNone : s.admission.active + s.admission.notifying = 0) :
    ∃ event, event.ordinary = true ∧ (s.step plan event).isSome := by
  have hSound := h.admission.phase
  unfold Admission.PhaseSound at hSound
  cases hPhase : s.admission.phase with
  | outside =>
    refine ⟨.enter, rfl, ?_⟩
    simp only [step, enter, hDispatching, if_true, Admission.enter, hPhase]
    split
    · rfl
    · rfl
  | looking =>
    refine ⟨.load 0, rfl, ?_⟩
    simp only [step, advance, hDispatching, if_true, Admission.load, hPhase]
    rfl
  | loaded seen =>
    refine ⟨.compare 0, rfl, ?_⟩
    simp only [step, compare, advance, hDispatching, if_true, Admission.compare, hPhase]
    rfl
  | admitted =>
    refine ⟨.spawn, rfl, ?_⟩
    simp only [step, spawn, advance, hDispatching, if_true, Admission.fetchAdd, hPhase]
    rfl
  | awaiting =>
    refine ⟨.await, rfl, ?_⟩
    simp only [step, advance, hDispatching, if_true, Admission.await, hPhase]
    split
    · rfl
    · rfl
  | parked =>
    rw [hPhase] at hSound
    have hDue := hSound.2
    omega

/-- A pool that is not finished can go on, without a cancellation or a failure. -/
theorem pool_progress (h : s.Counted plan) (hNot : ¬s.Finished) :
    ∃ event, event.ordinary = true ∧ (s.step plan event).isSome := by
  cases hChannel : s.channel with
  | cons batch channel =>
    refine ⟨.receive, rfl, ?_⟩
    simp only [step, receive, hChannel]
    rfl
  | nil =>
    by_cases hEnded : ∀ phase ∈ s.workers, phase = .ended
    · -- No worker is left, so that the dispatcher is the one to go on.
      have hSum {f : FetchWorkerPhase → Nat} (hf : f .ended = 0) : (s.workers.map f).sum = 0 := by
        apply List.sum_eq_zero
        intro n hn
        obtain ⟨phase, hMem, rfl⟩ := List.mem_map.mp hn
        rw [hEnded phase hMem, hf]
      have hActive : s.admission.active = 0 := h.active.trans (hSum rfl)
      have hNotifying : s.admission.notifying = 0 := h.notifying.trans (hSum rfl)
      apply dispatcher_progress h
      · by_contra hDone
        exact hNot ⟨Bool.eq_false_iff.mpr hDone, hEnded, hChannel⟩
      · omega
    · push Not at hEnded
      obtain ⟨phase, hMem, hOpen⟩ := hEnded
      obtain ⟨i, hWorker⟩ := List.getElem?_of_mem hMem
      exact worker_progress h hChannel hWorker hOpen

end Progress

/-- The workers that have not left the counter. -/
def active (s : FetchPool) : Nat := s.workers.countP fun phase => phase.counted = 1

theorem active_eq_sum (s : FetchPool) :
    s.active = (s.workers.map FetchWorkerPhase.counted).sum := by
  unfold active
  induction s.workers with
  | nil => rfl
  | cons phase workers ih =>
    rw [List.countP_cons, List.map_cons, List.sum_cons, ih]
    cases phase <;> simp [FetchWorkerPhase.counted, Nat.add_comm]

def onlyBlock : ParallelPlan where
  startBlock := 7
  snapshotToBlock := 7
  originalMaxLimit := none
  concurrency := 2

/-- A worker that sends a partial batch and then panics. -/
def onlyBlockRun : List FetchPoolEvent :=
  [.enter, .load 0, .compare 1, .spawn, .send 0 [.error "timeout"], .panic 0, .enter, .receive,
    .report 0, .receive, .release 0, .notify 0]

/-- In every state of every run, no more workers are active than the plan allows, and the fetch is
finished or can go on without a cancellation or a failure: no notice is lost. -/
theorem pool_never_stuck (plan : ParallelPlan) (hBound : plan.snapshotToBlock + 1 < 2 ^ 64)
    (events : List FetchPoolEvent) :
    Always (step plan) (fun s =>
      s.active ≤ plan.params.effectiveConcurrency ∧
        (s.Finished ∨ ∃ event, event.ordinary = true ∧ (s.step plan event).isSome))
      (start plan) events := by
  have hAlways : Always (step plan) (Counted plan) (start plan) events :=
    always_of_kept (fun s event s' h hStep => (step_counts hBound h hStep).counted)
      (start_counted plan)
  refine hAlways.mono fun s h => ⟨?_, ?_⟩
  · rw [active_eq_sum, ← h.active]
    exact h.admission.within
  · by_cases hFinished : s.Finished
    · exact .inl hFinished
    · exact .inr (pool_progress h hFinished)

theorem pool_never_stuck_onlyBlock :
    Always (step onlyBlock) (fun s =>
      s.active ≤ onlyBlock.params.effectiveConcurrency ∧
        (s.Finished ∨ ∃ event, event.ordinary = true ∧ (s.step onlyBlock event).isSome))
      (start onlyBlock) onlyBlockRun :=
  pool_never_stuck onlyBlock (by decide) onlyBlockRun

end FetchPool

end Rindexer.Indexer
