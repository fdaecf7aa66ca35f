import Rindexer.Indexer.Dispatcher

/-! What the parallel historical fetch delivers, over the runs of its dispatcher and workers: the
results come from the sub-ranges in their order, whatever the workers do, and none is missing from a
fetch that went to its end. -/

namespace Rindexer.Indexer

open Rindexer.Lib

/-- Whether the final batch of a worker is still to be sent. -/
def FetchWorkerPhase.isOpen : FetchWorkerPhase → Bool
  | .working => true
  | .dropping => true
  | .releasing => false
  | .notifying => false
  | .ended => false

namespace FetchPool

/-- The final batch of a worker comes when it ends its sending, unless the fetch was cancelled or its
consumer is gone. -/
def WorkerAccounted (s : FetchPool) (i : Nat) (phase : FetchWorkerPhase) : Prop :=
  if phase.isOpen then finalizedIn s.sent i = false
  else finalizedIn s.sent i = true ∨ s.cancelled = true ∨ s.closed = true

/-- No batch of a sub-range comes after its final one.  The channel is first in, first out, and the
buffer keeps the account of the batches that it took in. -/
structure Accounted (s : FetchPool) : Prop where
  workers : ∀ i phase, s.workers[i]? = some phase → s.WorkerAccounted i phase
  unknown : ∀ i, s.workers.length ≤ i → streamOf s.sent i = []
  finalLast : FinalLast s.sent
  inChannel : ∃ lost, s.sent = s.received ++ s.channel ++ lost ∧ (s.closed = false → lost = [])
  emptied : s.closed = true → s.channel = []
  buffer : ∃ released, s.buffer.Holds s.received released ∧ s.delivered <+: released ∧
    (s.closed = false → s.delivered = released)

/-- The step leaves the batches, the channel and the reorder task as they are. -/
structure Quiet (s s' : FetchPool) : Prop where
  sent : s'.sent = s.sent
  received : s'.received = s.received
  channel : s'.channel = s.channel
  closed : s'.closed = s.closed
  buffer : s'.buffer = s.buffer
  delivered : s'.delivered = s.delivered

/-- What is delivered comes from the sub-ranges in their order, and nothing of a sub-range comes before
the final batch of each earlier one. -/
def InOrder (s : FetchPool) : Prop :=
  ∃ k, (∀ i < k, finalizedIn s.sent i = true) ∧
    s.delivered <+: (List.range (k + 1)).flatMap (resultsOf s.sent)

/-- Every sub-range has sent its final batch, and all that was sent is delivered. -/
structure DeliveredAll (plan : ParallelPlan) (s : FetchPool) : Prop where
  subRanges : s.workers.length = plan.subRanges plan.startBlock
  final : ∀ i < s.workers.length, finalizedIn s.sent i = true
  delivered : s.delivered = (List.range s.workers.length).flatMap (resultsOf s.sent)

section Delivery

variable {plan : ParallelPlan} {s s' : FetchPool}

theorem start_accounted (plan : ParallelPlan) : (start plan).Accounted where
  workers i phase h := by cases h
  unknown _ _ := rfl
  finalLast := List.Pairwise.nil
  inChannel := ⟨[], rfl, fun _ => rfl⟩
  emptied h := by cases h
  buffer := ⟨[], ReorderBuffer.new_holds, List.prefix_refl _, fun _ => rfl⟩

theorem Accounted.quiet (h : s.Accounted) (hQuiet : Quiet s s')
    (hWorkers : ∀ i phase, s'.workers[i]? = some phase → s'.WorkerAccounted i phase)
    (hLength : s.workers.length ≤ s'.workers.length) : s'.Accounted where
  workers := hWorkers
  unknown i hi := by
    rw [hQuiet.sent]
    exact h.unknown i (hLength.trans hi)
  finalLast := hQuiet.sent ▸ h.finalLast
  inChannel := by
    rw [hQuiet.sent, hQuiet.received, hQuiet.channel, hQuiet.closed]
    exact h.inChannel
  emptied := by
    rw [hQuiet.closed, hQuiet.channel]
    exact h.emptied
  buffer := by
    rw [hQuiet.buffer, hQuiet.received, hQuiet.delivered, hQuiet.closed]
    exact h.buffer

theorem WorkerAccounted.quiet {i : Nat} {phase : FetchWorkerPhase} (h : s.WorkerAccounted i phase)
    (hQuiet : Quiet s s') (hCancelled : s.cancelled = true → s'.cancelled = true) :
    s'.WorkerAccounted i phase := by
  unfold WorkerAccounted at h ⊢
  rw [hQuiet.sent, hQuiet.closed]
  split at h
  · rename_i hOpen
    rw [if_pos hOpen]
    exact h
  · rename_i hOpen
    rw [if_neg hOpen]
    exact h.imp_right (Or.imp_left hCancelled)

/-- The steps of the dispatcher, and a cancellation, leave the account as it is. -/
theorem Accounted.same (h : s.Accounted) (hQuiet : Quiet s s') (hWorkers : s'.workers = s.workers)
    (hCancelled : s.cancelled = true → s'.cancelled = true) : s'.Accounted := by
  apply h.quiet hQuiet
  · intro i phase hWorker
    rw [hWorkers] at hWorker
    exact (h.workers i phase hWorker).quiet hQuiet hCancelled
  · exact hWorkers ▸ le_refl _

/-- A worker that is started is still to send. -/
theorem Accounted.spawned (h : s.Accounted) (hQuiet : Quiet s s')
    (hWorkers : s'.workers = s.workers ++ [.working]) (hCancelled : s'.cancelled = s.cancelled) :
    s'.Accounted := by
  apply h.quiet hQuiet
  · intro i phase hWorker
    rw [hWorkers] at hWorker
    rcases Nat.lt_or_ge i s.workers.length with hOld | hNew
    · rw [List.getElem?_append_left hOld] at hWorker
      exact (h.workers i phase hWorker).quiet hQuiet (fun hNow => hCancelled.trans hNow)
    · rw [List.getElem?_append_right hNew, List.getElem?_singleton] at hWorker
      split at hWorker
      · cases hWorker
        change finalizedIn s'.sent i = false
        rw [hQuiet.sent, finalizedIn, h.unknown i hNew]
        rfl
      · cases hWorker
  · rw [hWorkers, List.length_append]
    omega

theorem getElem?_setWorker {i j : Nat} {new phase : FetchWorkerPhase}
    (h : (s.workers.set i new)[j]? = some phase) :
    i = j ∧ phase = new ∨ j ≠ i ∧ s.workers[j]? = some phase := by
  rw [List.getElem?_set] at h
  split at h
  · rename_i hSame
    split at h
    · cases h
      exact .inl ⟨hSame, rfl⟩
    · cases h
  · rename_i hOther
    exact .inr ⟨Ne.symm hOther, h⟩

theorem setWorker_self {i : Nat} {phase : FetchWorkerPhase} (h : s.workers[i]? = some phase) :
    (s.setWorker i phase).workers = s.workers := by
  obtain ⟨hi, hPhase⟩ := List.getElem?_eq_some_iff.mp h
  rw [setWorker, ← hPhase]
  exact List.set_getElem_self hi

/-- A worker goes on without sending. -/
theorem Accounted.move (h : s.Accounted) {i : Nat} {old new : FetchWorkerPhase}
    (hWorker : s.workers[i]? = some old)
    (hNew : new.isOpen = old.isOpen ∨ new.isOpen = false ∧ (s.cancelled = true ∨ s.closed = true)) :
    (s.setWorker i new).Accounted := by
  have hQuiet : Quiet s (s.setWorker i new) := ⟨rfl, rfl, rfl, rfl, rfl, rfl⟩
  apply h.quiet hQuiet
  · intro j phase hNow
    rcases getElem?_setWorker hNow with ⟨rfl, rfl⟩ | ⟨-, hOther⟩
    · unfold WorkerAccounted
      rcases hNew with hKept | ⟨hEnded, hExcused⟩
      · rw [hKept]
        exact h.workers i old hWorker
      · rw [hEnded]
        exact .inr hExcused
    · exact h.workers j phase hOther
  · rw [setWorker, List.length_set]

/-- A worker sends a batch, its final one when it goes on to leave. -/
theorem Accounted.send (h : s.Accounted) {i : Nat} {old new : FetchWorkerPhase}
    {batch : SequencedFetchBatch FetchResult} (hWorker : s.workers[i]? = some old)
    (hOpen : old.isOpen = true) (hClosed : s.closed = false) (hId : batch.sequenceId = i)
    (hFinal : batch.isFinal = !new.isOpen) : ((s.push batch).setWorker i new).Accounted := by
  have hUnfinished : finalizedIn s.sent i = false := by
    have hNow := h.workers i old hWorker
    rw [WorkerAccounted, hOpen] at hNow
    exact hNow
  have hBelow : i < s.workers.length := (List.getElem?_eq_some_iff.mp hWorker).1
  have hOthers : ∀ j, j ≠ i → streamOf (s.sent ++ [batch]) j = streamOf s.sent j := by
    intro j hj
    rw [streamOf_append, streamOf_singleton, if_neg (by omega), List.append_nil]
  refine ⟨fun j phase hNow => ?_, fun j hj => ?_, ?_, ?_, fun hNow => ?_, h.buffer⟩
  · rcases getElem?_setWorker hNow with ⟨rfl, rfl⟩ | ⟨hOther, hKept⟩
    · change if phase.isOpen = true then finalizedIn (s.sent ++ [batch]) i = false else
        finalizedIn (s.sent ++ [batch]) i = true ∨ _
      rw [finalizedIn_append, hUnfinished, finalizedIn_singleton, hId, hFinal]
      cases phase.isOpen <;> simp
    · have hFinalized : finalizedIn (s.sent ++ [batch]) j = finalizedIn s.sent j := by
        rw [finalizedIn, hOthers j hOther, finalizedIn]
      change if phase.isOpen = true then finalizedIn (s.sent ++ [batch]) j = false else
        finalizedIn (s.sent ++ [batch]) j = true ∨ _
      rw [hFinalized]
      exact h.workers j phase hKept
  · change streamOf (s.sent ++ [batch]) j = []
    rw [setWorker, List.length_set] at hj
    change s.workers.length ≤ j at hj
    rw [hOthers j (by omega)]
    exact h.unknown j hj
  · apply h.finalLast.append
    rw [hId]
    exact hUnfinished
  · obtain ⟨lost, hSent, hNone⟩ := h.inChannel
    refine ⟨[], ?_, fun _ => rfl⟩
    change s.sent ++ [batch] = s.received ++ (s.channel ++ [batch]) ++ []
    rw [hSent, hNone hClosed, List.append_nil, List.append_nil, List.append_assoc]
  · change s.closed = true at hNow
    rw [hClosed] at hNow
    cases hNow

theorem report_accounted {i : Nat} (h : s.Accounted) (hStep : s.report plan i = some s') :
    s'.Accounted := by
  unfold report at hStep
  split at hStep
  · rename_i hWorker
    split at hStep
    · rename_i hRoom
      cases hStep
      exact h.send hWorker rfl hRoom.1 rfl rfl
    · cases hStep
      have hCancelled : ({ s with cancelled := true } : FetchPool).Accounted :=
        h.same ⟨rfl, rfl, rfl, rfl, rfl, rfl⟩ rfl (fun _ => rfl)
      exact hCancelled.move hWorker (.inr ⟨rfl, .inl rfl⟩)
  · cases hStep

theorem finish_accounted {i : Nat} {results : List FetchResult} (h : s.Accounted)
    (hStep : s.finish plan i results = some s') : s'.Accounted := by
  unfold finish at hStep
  split at hStep
  · rename_i hWorker
    split at hStep
    · rename_i hClosed
      cases hStep
      exact h.move hWorker (.inr ⟨rfl, .inr hClosed⟩)
    · rename_i hOpen
      split at hStep
      · cases hStep
        exact h.send hWorker rfl (Bool.eq_false_of_not_eq_true hOpen) rfl rfl
      · cases hStep
  · cases hStep

/-- The channel is empty once it is closed. -/
theorem Accounted.open_of_channel (h : s.Accounted) {batch : SequencedFetchBatch FetchResult}
    {channel : List (SequencedFetchBatch FetchResult)} (hChannel : s.channel = batch :: channel) :
    s.closed = false := by
  by_contra hClosed
  have hNone := h.emptied (Bool.eq_true_of_not_eq_false hClosed)
  rw [hChannel] at hNone
  cases hNone

/-- The batch that leaves the channel is not of a sub-range whose final batch has left it. -/
theorem Accounted.accept (h : s.Accounted) {batch : SequencedFetchBatch FetchResult}
    {channel : List (SequencedFetchBatch FetchResult)} (hChannel : s.channel = batch :: channel) :
    s.sent = s.received ++ [batch] ++ channel ∧
      (s.buffer.accept batch).1.Holds (s.received ++ [batch])
        (s.delivered ++ (s.buffer.accept batch).2) := by
  have hOpen := h.open_of_channel hChannel
  obtain ⟨lost, hSent, hNone⟩ := h.inChannel
  obtain ⟨released, hHolds, -, hReleased⟩ := h.buffer
  have hLast := h.finalLast
  rw [hNone hOpen, hChannel, List.append_nil] at hSent
  rw [hSent] at hLast
  rw [← hReleased hOpen] at hHolds
  refine ⟨?_, ReorderBuffer.accept_holds hHolds hLast.head_open⟩
  rw [hSent, List.append_assoc, List.singleton_append]

theorem receive_accounted (h : s.Accounted) (hStep : s.receive = some s') : s'.Accounted := by
  unfold receive at hStep
  split at hStep
  · cases hStep
  · rename_i batch channel hChannel
    have hOpen := h.open_of_channel hChannel
    obtain ⟨hSent, hHolds⟩ := h.accept hChannel
    cases hStep
    refine ⟨h.workers, h.unknown, h.finalLast, ⟨[], ?_, fun _ => rfl⟩, fun hClosed => ?_,
      ⟨_, hHolds, List.prefix_refl _, fun _ => rfl⟩⟩
    · rw [List.append_nil]
      exact hSent
    · change s.closed = true at hClosed
      rw [hOpen] at hClosed
      cases hClosed

theorem close_accounted {taken : Nat} (h : s.Accounted) (hStep : s.close taken = some s') :
    s'.Accounted := by
  unfold close at hStep
  split at hStep
  · cases hStep
  · rename_i batch channel hChannel
    obtain ⟨hSent, hHolds⟩ := h.accept hChannel
    split at hStep
    · cases hStep
      refine ⟨fun i phase hWorker => ?_, h.unknown, h.finalLast, ⟨channel, ?_, fun hOpen => ?_⟩,
        fun _ => rfl, ⟨_, hHolds, ?_, fun hOpen => ?_⟩⟩
      · have hNow := h.workers i phase hWorker
        unfold WorkerAccounted at hNow ⊢
        split at hNow
        · rename_i hPhase
          rw [if_pos hPhase]
          exact hNow
        · rename_i hPhase
          rw [if_neg hPhase]
          exact .inr (.inr rfl)
      · rw [List.append_nil]
        exact hSent
      · cases hOpen
      · exact (List.prefix_append_right_inj _).mpr (List.take_prefix _ _)
      · cases hOpen
    · cases hStep

theorem step_accounted {event : FetchPoolEvent} (h : s.Accounted)
    (hStep : s.step plan event = some s') : s'.Accounted := by
  cases event with
  | cancel =>
    unfold step at hStep
    dsimp only at hStep
    split at hStep
    · cases hStep
    · cases hStep
      exact h.same ⟨rfl, rfl, rfl, rfl, rfl, rfl⟩ rfl (fun _ => rfl)
  | enter =>
    unfold step enter at hStep
    dsimp only at hStep
    split at hStep
    · split at hStep
      · obtain ⟨a, -, rfl⟩ := Option.map_eq_some_iff.mp hStep
        exact h.same ⟨rfl, rfl, rfl, rfl, rfl, rfl⟩ rfl id
      · split at hStep
        · cases hStep
          exact h.same ⟨rfl, rfl, rfl, rfl, rfl, rfl⟩ rfl id
        · cases hStep
    · cases hStep
  | load stale =>
    obtain ⟨-, a, -, rfl⟩ := advance_some hStep
    exact h.same ⟨rfl, rfl, rfl, rfl, rfl, rfl⟩ rfl id
  | compare current =>
    obtain ⟨-, a, -, rfl⟩ := advance_some hStep
    exact h.same ⟨rfl, rfl, rfl, rfl, rfl, rfl⟩ rfl id
  | await =>
    obtain ⟨-, a, -, rfl⟩ := advance_some hStep
    exact h.same ⟨rfl, rfl, rfl, rfl, rfl, rfl⟩ rfl id
  | spawn =>
    obtain ⟨mid, hAdvance, rfl⟩ := Option.map_eq_some_iff.mp hStep
    obtain ⟨-, a, -, rfl⟩ := advance_some hAdvance
    exact h.spawned ⟨rfl, rfl, rfl, rfl, rfl, rfl⟩ rfl rfl
  | send i results =>
    unfold step send at hStep
    dsimp only at hStep
    split at hStep
    · rename_i hSends
      cases hStep
      have hSent : ((s.push ⟨i, results, false⟩).setWorker i .working).Accounted :=
        h.send hSends.1 rfl hSends.2.1 rfl rfl
      exact hSent.same ⟨rfl, rfl, rfl, rfl, rfl, rfl⟩
        (setWorker_self (s := s.push ⟨i, results, false⟩) hSends.1).symm id
    · cases hStep
  | finish i results => exact finish_accounted h hStep
  | panic i =>
    unfold step panic at hStep
    dsimp only at hStep
    split at hStep
    · rename_i hWorker
      cases hStep
      exact h.move hWorker (.inl rfl)
    · cases hStep
  | report i => exact report_accounted h hStep
  | release i =>
    unfold step release at hStep
    dsimp only at hStep
    split at hStep
    · rename_i hWorker
      obtain ⟨a, -, rfl⟩ := Option.map_eq_some_iff.mp hStep
      have hMoved : (s.setWorker i .notifying).Accounted := h.move hWorker (.inl rfl)
      exact hMoved.same ⟨rfl, rfl, rfl, rfl, rfl, rfl⟩ rfl id
    · cases hStep
  | notify i =>
    unfold step notify at hStep
    dsimp only at hStep
    split at hStep
    · rename_i hWorker
      obtain ⟨a, -, rfl⟩ := Option.map_eq_some_iff.mp hStep
      have hMoved : (s.setWorker i .ended).Accounted := h.move hWorker (.inl rfl)
      exact hMoved.same ⟨rfl, rfl, rfl, rfl, rfl, rfl⟩ rfl id
    · cases hStep
  | receive => exact receive_accounted h hStep
  | close taken => exact close_accounted h hStep

theorem Accounted.finalized_sent (h : s.Accounted) {i : Nat}
    (hFinal : finalizedIn s.received i = true) :
    finalizedIn s.sent i = true ∧ resultsOf s.sent i = resultsOf s.received i := by
  obtain ⟨lost, hSent, -⟩ := h.inChannel
  have hLast := h.finalLast
  rw [List.append_assoc] at hSent
  rw [hSent] at hLast
  constructor
  · rw [hSent, finalizedIn_append, hFinal, Bool.true_or]
  · rw [hSent, resultsOf, streamOf_append, hLast.arrived hFinal, List.append_nil, resultsOf]

/-- The buffer's account, in terms of what was sent. -/
theorem Accounted.released_sent (h : s.Accounted) {released : List FetchResult}
    (hHolds : s.buffer.Holds s.received released) :
    ∃ current, current <+: resultsOf s.sent s.buffer.nextExpected ∧
      current = resultsOf s.received s.buffer.nextExpected ∧
      released = (List.range s.buffer.nextExpected).flatMap (resultsOf s.sent) ++ current := by
  obtain ⟨lost, hSent, -⟩ := h.inChannel
  refine ⟨_, ?_, rfl, ?_⟩
  · rw [hSent, List.append_assoc, resultsOf_append]
    exact List.prefix_append _ _
  · rw [hHolds.released, List.range_succ, List.flatMap_append, List.flatMap_singleton]
    congr 1
    unfold List.flatMap
    congr 1
    apply List.map_congr_left
    intro i hi
    exact (h.finalized_sent (hHolds.before i (List.mem_range.mp hi))).2.symm

theorem Accounted.inOrder (h : s.Accounted) : s.InOrder := by
  obtain ⟨released, hHolds, hDelivered, -⟩ := h.buffer
  obtain ⟨current, hCurrent, -, hReleased⟩ := h.released_sent hHolds
  refine ⟨s.buffer.nextExpected, fun i hi => (h.finalized_sent (hHolds.before i hi)).1, ?_⟩
  apply hDelivered.trans
  rw [hReleased, List.range_succ, List.flatMap_append, List.flatMap_singleton]
  exact (List.prefix_append_right_inj _).mpr hCurrent

/-- A fetch that finished, neither cancelled nor without its consumer, has taken in each final batch. -/
theorem Accounted.all_final (h : s.Accounted) (hFinished : s.Finished) (hCancelled : s.cancelled = false)
    (hClosed : s.closed = false) :
    s.sent = s.received ∧ ∀ i < s.workers.length, finalizedIn s.sent i = true := by
  obtain ⟨lost, hSent, hNone⟩ := h.inChannel
  constructor
  · rw [hSent, hNone hClosed, hFinished.channel, List.append_nil, List.append_nil]
  · intro i hi
    have hNow := h.workers i _ (List.getElem?_eq_getElem hi)
    rw [hFinished.workers _ (List.getElem_mem hi), WorkerAccounted, hCancelled, hClosed] at hNow
    rcases hNow with hFinal | hExcused
    · exact hFinal
    · simp at hExcused

theorem Accounted.complete (h : s.Accounted) (hFinished : s.Finished) (hCancelled : s.cancelled = false)
    (hClosed : s.closed = false) :
    s.delivered = (List.range s.workers.length).flatMap (resultsOf s.sent) := by
  obtain ⟨hSent, hEach⟩ := h.all_final hFinished hCancelled hClosed
  obtain ⟨released, hHolds, -, hReleased⟩ := h.buffer
  obtain ⟨current, -, hCurrent, hAll⟩ := h.released_sent hHolds
  rw [← hSent] at hHolds hCurrent
  have hCursor : s.buffer.nextExpected = s.workers.length := by
    apply Nat.le_antisymm
    · by_contra hMore
      have hBeyond := hHolds.before s.workers.length (by omega)
      rw [finalizedIn, h.unknown _ (le_refl _)] at hBeyond
      cases hBeyond
    · by_contra hLess
      have hFinal := hEach s.buffer.nextExpected (by omega)
      rw [hHolds.current] at hFinal
      cases hFinal
  have hNothing : current = [] := by
    rw [hCurrent, resultsOf, h.unknown _ hCursor.ge, List.flatMap_nil]
  rw [hReleased hClosed, hAll, hNothing, List.append_nil, hCursor]

/-- A fetch that stopped without being cancelled has started a worker for each sub-range. -/
theorem Counted.all_started (h : s.Counted plan) (hFinished : s.Finished)
    (hCancelled : s.cancelled = false) : s.workers.length = plan.subRanges plan.startBlock := by
  have hPast : plan.snapshotToBlock < s.nextFrom := by
    apply (h.ended hFinished.dispatched).resolve_left
    rw [hCancelled]
    exact Bool.false_ne_true
  have hChunk := chunkSize_pos plan
  have hNone : plan.subRanges s.nextFrom = 0 := by
    apply Nat.div_eq_of_lt
    omega
  have hAll := h.dispatched
  omega

/-- The workers that are still to send are counted. -/
theorem open_le_active (h : s.Counted plan) :
    s.workers.countP FetchWorkerPhase.isOpen ≤ s.admission.active := by
  rw [h.active, ← active_eq_sum, active]
  apply List.countP_mono_left
  intro phase _ hOpen
  cases phase with
  | working => rfl
  | dropping => rfl
  | releasing => cases hOpen
  | notifying => cases hOpen
  | ended => cases hOpen

/-- The dispatcher is admitted to start a worker only while fewer than may be active are still to
send, and a sub-range is left. -/
theorem spawn_within (h : s.Counted plan) (hStep : s.spawn plan = some s') :
    s.nextFrom ≤ plan.snapshotToBlock ∧
      s.workers.countP FetchWorkerPhase.isOpen < plan.params.effectiveConcurrency := by
  obtain ⟨mid, hAdvance, -⟩ := Option.map_eq_some_iff.mp hStep
  obtain ⟨-, a, hAdd, -⟩ := advance_some hAdvance
  obtain ⟨hAdmitted, -⟩ := Admission.fetchAdd_spec hAdd
  obtain ⟨-, hNext⟩ := h.inside (by rw [hAdmitted]; exact fun hPhase => by cases hPhase)
  have hRoom := h.admission.phase
  rw [Admission.PhaseSound, hAdmitted] at hRoom
  have hOpen := open_le_active h
  exact ⟨hNext, Nat.lt_of_le_of_lt hOpen hRoom⟩

end Delivery

/-- In every state of every run, the results come from the sub-ranges in their order, and a fetch that
finished, neither cancelled nor without its consumer, has delivered all that the workers of all
sub-ranges sent. -/
theorem pool_delivers (plan : ParallelPlan) (hBound : plan.snapshotToBlock + 1 < 2 ^ 64)
    (events : List FetchPoolEvent) :
    Always (step plan) (fun s => s.InOrder ∧
      (s.Finished → s.cancelled = false → s.closed = false → s.DeliveredAll plan))
      (start plan) events := by
  have hAlways : Always (step plan) (fun s => s.Counted plan ∧ s.Accounted) (start plan) events :=
    always_of_kept
      (fun s event s' h hStep => ⟨(step_counts hBound h.1 hStep).counted, step_accounted h.2 hStep⟩)
      ⟨start_counted plan, start_accounted plan⟩
  refine hAlways.mono fun s h => ⟨h.2.inOrder, fun hFinished hCancelled hClosed => ⟨?_, ?_, ?_⟩⟩
  · exact h.1.all_started hFinished hCancelled
  · exact (h.2.all_final hFinished hCancelled hClosed).2
  · exact h.2.complete hFinished hCancelled hClosed

theorem pool_delivers_onlyBlock :
    Always (step onlyBlock) (fun s => s.InOrder ∧
      (s.Finished → s.cancelled = false → s.closed = false → s.DeliveredAll onlyBlock))
      (start onlyBlock) onlyBlockRun :=
  pool_delivers onlyBlock (by decide) onlyBlockRun

example : (run (step onlyBlock) (start onlyBlock) onlyBlockRun).map
    (fun s => (s.dispatching, s.workers, s.channel, s.delivered)) =
    some (false, [.ended], [], [.error "timeout", workerPanicked]) := rfl

/-- Whenever the dispatcher starts a worker, so can the fetch that only counts the workers which have
not finished. -/
theorem pool_spawns_allowed (plan : ParallelPlan) (hBound : plan.snapshotToBlock + 1 < 2 ^ 64)
    (events : List FetchPoolEvent) :
    EveryStep (step plan) (fun s event _ => event = .spawn → ∀ fetch : Parallel,
      fetch.nextFrom = s.nextFrom →
      fetch.workers.map (fun w => !w.finished) = s.workers.map FetchWorkerPhase.isOpen →
        (fetch.spawn plan).isSome)
      (start plan) events := by
  refine everyStep_of_kept (I := Counted plan) (fun s event s' h hStep => ?_) (start_counted plan)
  refine ⟨(step_counts hBound h hStep).counted, fun hSpawn fetch hFrom hWorkers => ?_⟩
  subst hSpawn
  obtain ⟨hNext, hOpen⟩ := spawn_within h hStep
  have hCount := congrArg (List.countP id) hWorkers
  rw [List.countP_map, List.countP_map] at hCount
  have hUnfinished : fetch.workers.countP (fun w => !w.finished) =
      s.workers.countP FetchWorkerPhase.isOpen := hCount
  have hGuard : fetch.nextFrom ≤ plan.snapshotToBlock ∧
      fetch.workers.countP (fun w => !w.finished) < plan.params.effectiveConcurrency := by
    rw [hFrom, hUnfinished]
    exact ⟨hNext, hOpen⟩
  rw [Parallel.spawn, if_pos hGuard]
  rfl

theorem pool_spawns_allowed_onlyBlock :
    EveryStep (step onlyBlock) (fun s event _ => event = .spawn → ∀ fetch : Parallel,
      fetch.nextFrom = s.nextFrom →
      fetch.workers.map (fun w => !w.finished) = s.workers.map FetchWorkerPhase.isOpen →
        (fetch.spawn onlyBlock).isSome)
      (start onlyBlock) onlyBlockRun :=
  pool_spawns_allowed onlyBlock (by decide) onlyBlockRun

end FetchPool

end Rindexer.Indexer
