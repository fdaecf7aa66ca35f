import Rindexer.Indexer.LayerOrder

/-! What the callbacks of a dependency group have had in an undisturbed run, and the order of the
callbacks in every run of a group whose tasks are in order. -/

namespace Rindexer.Indexer.Layers

open Rindexer.Lib Rindexer.Database

variable {ι γ : Type} [DecidableEq ι] {task : ι → EventTask γ}

open GroupRun

/-! ### Logs up to the last -/

section Ranges

variable {network : String} (node : NodeLogs network)

theorem quiet_of_span_eq_nil {a b : Nat} (h : node.span a b = []) (hLe : a ≤ b) :
    node.Quiet a b := by
  intro n hLow hHigh
  rw [Nat.min_eq_left hLe] at hLow
  rw [Nat.max_eq_right hLe] at hHigh
  exact List.eq_nil_iff_forall_not_mem.mpr fun r hr => by
    have hIn : r ∈ node.span a b := mem_span.mpr ⟨n, hLow, hHigh, hr⟩
    rw [h] at hIn
    cases hIn

theorem quiet_after_last {fromBlock toBlock : Nat} {last : EventRow}
    (h : (node.range fromBlock toBlock).getLast? = some last) :
    node.Quiet (last.blockNumber + 1) (toBlock + 1) := by
  obtain ⟨hFrom, hTo, -⟩ := mem_range node (List.mem_of_getLast? h)
  have hShort : node.span fromBlock (toBlock + 1) = node.span fromBlock (last.blockNumber + 1) :=
    flatMap_logs_to_last node h
  apply quiet_of_span_eq_nil
  · rw [← span_append node (show fromBlock ≤ last.blockNumber + 1 by omega)
      (show last.blockNumber + 1 ≤ toBlock + 1 by omega)] at hShort
    exact List.append_right_eq_self.mp hShort
  · omega

/-- A range that starts where the logs from one block on have been delivered goes on with the rest. -/
theorem span_extend {base reached fromBlock below : Nat} (hBase : base ≤ reached)
    (hReached : reached ≤ below) (hFrom : fromBlock ≤ reached)
    (hQuiet : node.Quiet fromBlock reached) :
    node.span base reached ++ node.span fromBlock below = node.span base below := by
  rw [← span_append node hFrom hReached, hQuiet.span_eq_nil, List.nil_append,
    span_append node hBase hReached]

end Ranges

/-! ### The polls -/

/-- A live event has been given its logs below a block, in order, and goes on from there. -/
structure DeliveredBelow (s : GroupRun task) (i : ι) (reached : Nat) : Prop where
  rows : s.completedRows i = (s.node i).span (task i).base reached
  history : (task i).toBlock < reached
  details : ∃ details, s.details (task i).network (task i).processorId = some details ∧
    details.fromBlock ≤ reached ∧ details.lastSeenBlockNumber < reached ∧
    (s.node i).Quiet details.fromBlock reached

section Polls

variable {s s' : GroupRun task} {i j : ι} {latestBlockNumber reached : Nat}

theorem DeliveredBelow.base_le (h : DeliveredBelow s i reached) : (task i).base ≤ reached :=
  (Nat.min_le_right _ _).trans h.history

/-- A poll without failures delivers the logs up to the safe head. -/
theorem pollEvent_delivered (h : DeliveredBelow s i reached) :
    let safe := latestBlockNumber - (task i).indexingDistanceFromHead
    let result := s.pollEvent latestBlockNumber .good i
    result.2 = true ∧ DeliveredBelow result.1 i (max reached (safe + 1)) := by
  intro safe result
  obtain ⟨details, hDetails, hFrom, hSeen, hQuiet⟩ := h.details
  have hResult : s.pollEvent latestBlockNumber .good i = result := rfl
  have hCases := @pollEvent_cases ι γ task s i details .good latestBlockNumber hDetails
  rw [hResult] at hCases
  rcases hCases with ⟨hEq, hDone⟩ | ⟨-, hBad⟩ | ⟨hEq, hLe, hNone⟩ |
    ⟨last, hLast, hLe, ⟨-, hBad⟩ | ⟨-, hEq⟩⟩
  · have hHere : max reached (safe + 1) = reached := by
      apply Nat.max_eq_left
      have hSafe : safe ≤ latestBlockNumber := Nat.sub_le _ _
      rcases hDone with hSame | hAhead
      · omega
      · exact (Nat.succ_le_of_lt hAhead).trans hFrom
    rw [hEq, hHere]
    exact ⟨rfl, h⟩
  · exact absurd rfl hBad
  · -- the blocks up to the safe head have no logs
    have hEmpty : (s.node i).Quiet details.fromBlock (safe + 1) := by
      apply quiet_of_span_eq_nil
      · rw [← range_eq_span]
        exact hNone
      · exact hLe.trans (Nat.le_succ _)
    have hMore : (s.node i).Quiet reached (max reached (safe + 1)) := by
      rcases Nat.le_total (safe + 1) reached with hPast | hPast
      · rw [Nat.max_eq_left hPast]
        exact NodeLogs.Quiet.refl _
      · rw [Nat.max_eq_right hPast]
        exact hQuiet.symm.trans hEmpty
    rw [hEq]
    refine ⟨rfl, ?_, h.history.trans_le (Nat.le_max_left _ _), ?_⟩
    · show s.completedRows i = (s.node i).span (task i).base (max reached (safe + 1))
      rw [← span_append (s.node i).toNodeLogs h.base_le (Nat.le_max_left _ _), hMore.span_eq_nil,
        List.append_nil, h.rows]
    · refine ⟨⟨safe + 1, safe⟩, by simp [setDetails, safe], Nat.le_max_right _ _,
        Nat.le_max_right _ _, ?_⟩
      exact hEmpty.symm.trans (hQuiet.trans hMore)
  · exact absurd rfl hBad
  · obtain ⟨hLastFrom, hLastTo, -⟩ := mem_range _ (List.mem_of_getLast? hLast)
    -- a log below the next block to deliver would have been delivered
    have hNew : reached ≤ last.blockNumber := by
      refine Nat.not_lt.mp fun hOld => ?_
      obtain ⟨n, -, -, hLog⟩ := mem_span.mp (List.mem_of_getLast? hLast)
      have hPlaced := ((s.node i).placed n last hLog).1
      have hSilent := hQuiet n (by omega) (by omega)
      rw [hSilent] at hLog
      cases hLog
    have hMax : max reached (safe + 1) = safe + 1 := Nat.max_eq_right (by omega)
    rw [hEq, hMax]
    refine ⟨rfl, ?_, h.history.trans_le (by omega), ?_⟩
    · show (called s i safe true details.fromBlock).completedRows i =
        (s.node i).span (task i).base (safe + 1)
      rw [completedRows_append ⟨i, (s.node i).range details.fromBlock safe, true⟩ rfl,
        if_pos ⟨rfl, rfl⟩, h.rows]
      exact span_extend _ h.base_le (by omega) hFrom hQuiet
    · refine ⟨⟨last.blockNumber + 1, safe⟩, by simp [setDetails, Answer.good, safe], ?_,
        Nat.lt_succ_self _, quiet_after_last _ hLast⟩
      show last.blockNumber + 1 ≤ safe + 1
      omega

/-- A poll of one event calls back for no other. -/
theorem pollEvent_rows (hne : j ≠ i) {answer : Answer} :
    (s.pollEvent latestBlockNumber answer i).1.completedRows j = s.completedRows j := by
  have hCalled : ∀ toBlock completed fromBlock,
      (called s i toBlock completed fromBlock).completedRows j = s.completedRows j := by
    intro toBlock completed fromBlock
    rw [completedRows_append ⟨i, (s.node i).range fromBlock toBlock, completed⟩ rfl,
      if_neg (by simp [Ne.symm hne]), List.append_nil]
  cases hDetails : s.details (task i).network (task i).processorId with
  | none =>
    unfold pollEvent
    rw [hDetails]
  | some details =>
    rcases @pollEvent_cases ι γ task s i details answer latestBlockNumber hDetails with
      ⟨hEq, -⟩ | ⟨hEq, -⟩ | ⟨hEq, -⟩ | ⟨last, -, -, ⟨hEq, -⟩ | ⟨-, hEq⟩⟩
    · rw [hEq]
    · rw [hEq]
    · rw [hEq]
      rfl
    · rw [hEq]
      exact hCalled _ _ _
    · rw [hEq]
      exact hCalled _ _ _

theorem pollEvents_rows {answers : ι → Answer} {events : List ι} (h : j ∉ events) :
    (GroupRun.pollEvents latestBlockNumber answers s events).completedRows j = s.completedRows j := by
  induction events generalizing s with
  | nil => rfl
  | cons i rest ih =>
    rw [List.mem_cons, not_or] at h
    have hRows := @pollEvent_rows ι γ _ task s i j latestBlockNumber h.1 (answers i)
    unfold GroupRun.pollEvents
    split
    · rename_i s' hEq
      rw [hEq] at hRows
      exact (ih h.2).trans hRows
    · rename_i s' hEq
      rw [hEq] at hRows
      exact hRows

omit [DecidableEq ι] in
/-- A poll of one event keeps the details under every other processor id. -/
theorem pollEvent_details {answer : Answer} {network : String} {processorId : B256}
    (hKey : ¬(network = (task i).network ∧ processorId = (task i).processorId)) :
    (s.pollEvent latestBlockNumber answer i).1.details network processorId =
      s.details network processorId := by
  cases hDetails : s.details (task i).network (task i).processorId with
  | none =>
    unfold pollEvent
    rw [hDetails]
  | some details =>
    rcases @pollEvent_cases ι γ task s i details answer latestBlockNumber hDetails with
      ⟨hEq, -⟩ | ⟨hEq, -⟩ | ⟨hEq, -⟩ | ⟨last, -, -, ⟨hEq, -⟩ | ⟨-, hEq⟩⟩
    · rw [hEq]
    · rw [hEq]
    · rw [hEq]
      simp [setDetails, hKey]
    · rw [hEq]
      rfl
    · rw [hEq]
      simp [setDetails, called, hKey]

/-- A poll of one event leaves the others as they are. -/
theorem pollEvent_others (hTasks : TasksInOrder task) (hi : (task i).liveIndexing = true)
    (hj : (task j).liveIndexing = true) (hne : j ≠ i) {answer : Answer}
    (h : DeliveredBelow s j reached) :
    DeliveredBelow (s.pollEvent latestBlockNumber answer i).1 j reached := by
  have hKey : ¬((task j).network = (task i).network ∧
      (task j).processorId = (task i).processorId) :=
    fun hSame => hne (hTasks.ids j i hj hi hSame.1 hSame.2)
  have hNode := (pollEvent_same s latestBlockNumber answer i).node
  refine ⟨?_, h.history, ?_⟩
  · rw [pollEvent_rows hne, hNode]
    exact h.rows
  · rw [pollEvent_details hKey, hNode]
    exact h.details

/-- In a poll without failures every event has its turn. -/
theorem pollEvents_delivered (hTasks : TasksInOrder task) {answers : ι → Answer}
    (hGood : ∀ i, answers i = .good) (events : List ι)
    (hIndex : ∀ i ∈ events, (task i).liveIndexing = true) (reached : ι → Nat)
    (h : ∀ j, (task j).liveIndexing = true → DeliveredBelow s j (reached j)) :
    ∃ reached' : ι → Nat, (∀ j, reached j ≤ reached' j) ∧
      (∀ j, (task j).liveIndexing = true →
        DeliveredBelow (GroupRun.pollEvents latestBlockNumber answers s events) j (reached' j)) ∧
      ∀ j ∈ events, latestBlockNumber - (task j).indexingDistanceFromHead < reached' j := by
  induction events generalizing s reached with
  | nil => exact ⟨reached, fun _ => Nat.le_refl _, h, fun j hj => nomatch hj⟩
  | cons i rest ih =>
    have hi := hIndex i (List.mem_cons_self ..)
    let next := Function.update reached i
      (max (reached i) (latestBlockNumber - (task i).indexingDistanceFromHead + 1))
    have hGrow : ∀ j, reached j ≤ next j := by
      intro j
      by_cases hj : j = i
      · subst hj
        simp [next]
      · simp [next, hj]
    obtain ⟨hGoes, hHere⟩ := @pollEvent_delivered ι γ _ task s i latestBlockNumber _ (h i hi)
    have hNext : ∀ j, (task j).liveIndexing = true →
        DeliveredBelow (s.pollEvent latestBlockNumber .good i).1 j (next j) := by
      intro j hj
      by_cases hji : j = i
      · subst hji
        simpa only [next, Function.update_self] using hHere
      · simpa only [next, Function.update_of_ne hji] using
          pollEvent_others hTasks hi hj hji (h j hj)
    unfold GroupRun.pollEvents
    rw [hGood i]
    split
    · rename_i s' hEq
      rw [hEq] at hNext
      obtain ⟨reached', hMore, hDelivered, hSafe⟩ :=
        ih (fun j hj => hIndex j (List.mem_cons_of_mem _ hj)) next hNext
      refine ⟨reached', fun j => (hGrow j).trans (hMore j), hDelivered, fun j hj => ?_⟩
      rcases List.mem_cons.mp hj with rfl | hj
      · have hUpdated : latestBlockNumber - (task j).indexingDistanceFromHead < next j := by
          simp [next]
        exact hUpdated.trans_le (hMore j)
      · exact hSafe j hj
    · rename_i s' hEq
      rw [hEq] at hGoes
      cases hGoes

end Polls

/-! ### Undisturbed runs -/

/-- Nothing fails in a poll, and there is no reorg.  A failure in the history leaves the delivery as it
is. -/
def GroupAct.Undisturbed : GroupAct task → Prop
  | .poll _ _ answers => ∀ i, answers i = .good
  | .reorg .. => False
  | _ => True

/-- What the completed callbacks have had, live. -/
structure DeliveryInv (s : GroupRun task) : Prop where
  group : GroupInv s
  unpolled : s.live = false → s.polled = []
  ended : s.live = true → ∀ i, (task i).liveIndexing = false →
    s.completedRows i = (s.node i).span (task i).base ((task i).toBlock + 1)
  followed : s.live = true → ∃ reached : ι → Nat, ∀ i, (task i).liveIndexing = true →
    DeliveredBelow s i (reached i) ∧ ∀ head, ((task i).network, head) ∈ s.polled →
      head - (task i).indexingDistanceFromHead < reached i

section Undisturbed

variable {s s' : GroupRun task}

/-- As long as no event is live, nothing is polled. -/
theorem deliveryInv_of_history (hGroup : GroupInv s') (hLive : s'.live = false)
    (hPolled : s'.polled = []) : DeliveryInv s' := by
  have hNot : ∀ {P : Prop}, s'.live = true → P := fun hNow =>
    absurd (hLive.symm.trans hNow) Bool.false_ne_true
  exact ⟨hGroup, fun _ => hPolled, fun hNow => hNot hNow, fun hNow => hNot hNow⟩

theorem goLive_delivery [Fintype ι] (hTasks : TasksInOrder task) (hInv : DeliveryInv s)
    (h : s.goLive = some s') : DeliveryInv s' := by
  have hGroup := goLive_inv hTasks hInv.group h
  have hDetails := fun i => @goLive_details ι γ _ task s s' i _ hTasks hInv.group h
  unfold GroupRun.goLive at h
  split at h
  case isFalse => cases h
  case isTrue hGuard =>
    obtain ⟨hLive, hAll⟩ := hGuard
    have hRows : ∀ i, s.completedRows i =
        (s.node i).span (task i).base ((task i).toBlock + 1) :=
      fun i => (hInv.group.history hLive i).rows_of_finished (hAll i)
    cases h
    refine ⟨hGroup, ?_, fun _ i _ => hRows i, fun _ =>
      ⟨fun i => (task i).toBlock + 1, fun i hi => ⟨⟨hRows i, Nat.lt_succ_self _, ?_⟩, ?_⟩⟩⟩
    · intro hNow
      cases hNow
    · exact ⟨_, hDetails i hi, Nat.le_refl _, Nat.lt_succ_self _, NodeLogs.Quiet.refl _⟩
    · intro head hHead
      rw [show s.polled = [] from hInv.unpolled hLive] at hHead
      cases hHead

theorem poll_delivery (hTasks : TasksInOrder task) (hInv : DeliveryInv s) {network : String}
    {latestBlockNumber : Nat} {answers : ι → Answer} (hGood : ∀ i, answers i = .good)
    (h : s.poll network latestBlockNumber answers = some s') : DeliveryInv s' := by
  have hGroup := poll_inv hTasks hInv.group h
  unfold GroupRun.poll at h
  split at h
  case isFalse => cases h
  case isTrue hLive =>
    generalize hEvents : s.events.filter (fun i => (task i).network = network) = events at h
    have hIndex : ∀ i ∈ events, (task i).liveIndexing = true := by
      intro i hi
      rw [← hEvents] at hi
      exact ((hInv.group.events_mem i).mp (List.mem_of_mem_filter hi)).2
    have hSame := @pollEvents_same ι γ task s latestBlockNumber answers events
    obtain ⟨reached, hFollowed⟩ := hInv.followed hLive
    obtain ⟨reached', hMore, hDelivered, hSafe⟩ := @pollEvents_delivered ι γ _ task s
      latestBlockNumber hTasks answers hGood events hIndex reached fun j hj => (hFollowed j hj).1
    cases h
    refine ⟨hGroup, fun hNow => ?_, fun _ i hi => ?_, fun _ => ⟨reached', fun i hi => ⟨?_, ?_⟩⟩⟩
    · rw [hSame.live, hLive] at hNow
      cases hNow
    · -- only live events are polled
      have hNot : i ∉ events := fun hIn => by
        rw [hIndex i hIn] at hi
        cases hi
      show (GroupRun.pollEvents latestBlockNumber answers s events).completedRows i =
        ((GroupRun.pollEvents latestBlockNumber answers s events).node i).span _ _
      rw [pollEvents_rows hNot, hSame.node]
      exact hInv.ended hLive i hi
    · obtain ⟨hRows, hHistory, hDetails⟩ := hDelivered i hi
      exact ⟨hRows, hHistory, hDetails⟩
    · intro head hHead
      rw [List.mem_append, List.mem_singleton, Prod.mk.injEq] at hHead
      rcases hHead with hOld | ⟨hNetwork, rfl⟩
      · exact ((hFollowed i hi).2 head hOld).trans_le (hMore i)
      · refine hSafe i ?_
        rw [← hEvents]
        refine List.mem_filter.mpr ⟨?_, by simpa using hNetwork⟩
        exact (hInv.group.events_mem i).mpr ⟨hInv.group.all_finished hLive i, hi⟩

theorem step_delivery [Fintype ι] (hTasks : TasksInOrder task) {act : GroupAct task}
    (hInv : DeliveryInv s) (hStep : StepInOrder s act) (hUndisturbed : act.Undisturbed)
    (h : s.step act = some s') : DeliveryInv s' := by
  have hGroup := step_inv hTasks hInv.group hStep h
  cases act with
  | round i response reset =>
    replace h : s.round i response reset = some s' := h
    unfold GroupRun.round at h
    split at h
    case isFalse => cases h
    case isTrue hActive =>
      obtain ⟨hLive, -⟩ := active_iff.mp hActive
      cases h
      exact deliveryInv_of_history hGroup hLive (hInv.unpolled hLive)
  | callback i count completed cursor =>
    replace h : s.callback i count completed cursor = some s' := h
    unfold GroupRun.callback at h
    dsimp only at h
    split at h
    case isFalse => cases h
    case isTrue hGuard =>
      obtain ⟨hLive, -⟩ := active_iff.mp hGuard.1
      cases h
      exact deliveryInv_of_history hGroup hLive (hInv.unpolled hLive)
  | finish i =>
    replace h : s.finish i = some s' := h
    unfold GroupRun.finish at h
    dsimp only at h
    split at h
    case isFalse => cases h
    case isTrue hGuard =>
      obtain ⟨hLive, -⟩ := active_iff.mp hGuard.1
      cases h
      exact deliveryInv_of_history hGroup hLive (hInv.unpolled hLive)
  | nextLayer =>
    replace h : s.nextLayer = some s' := h
    unfold GroupRun.nextLayer at h
    split at h
    case isFalse => cases h
    case isTrue hGuard =>
      cases h
      exact deliveryInv_of_history hGroup hGuard.1 (hInv.unpolled hGuard.1)
  | goLive => exact goLive_delivery hTasks hInv h
  | poll network latestBlockNumber answers => exact poll_delivery hTasks hInv hUndisturbed h
  | reorg network forkPoint node => exact absurd hUndisturbed id

/-- The history of a task gives the callback a beginning of its logs. -/
theorem HistoryInv.prefix {i : ι} (h : HistoryInv s i) : ∃ below,
    s.completedRows i <+: (s.node i).span (task i).base below := by
  obtain ⟨below, -, hSpan⟩ := h.delivered_span
  refine ⟨below, ?_⟩
  rw [h.rows, ← hSpan]
  exact List.take_prefix _ _

omit [DecidableEq ι] in
theorem span_prefix {network : String} (node : NodeLogs network) {base below below' : Nat}
    (h : below ≤ below') : node.span base below <+: node.span base below' := by
  rcases Nat.le_total base below with hBase | hBase
  · rw [← span_append node hBase h]
    exact List.prefix_append _ _
  · rw [span_eq_nil_of_le node hBase]
    exact List.nil_prefix

/-- The invariant says what the callbacks of a configuration have had, since one node selects it. -/
theorem deliveredOnce_of_inv [DecidableEq γ] (hTasks : TasksInOrder task) (hInv : DeliveryInv s)
    (i : ι) : DeliveredOnce task s i := by
  have hRows : (s.calls.filter fun call =>
      (task call.task).config = (task i).config ∧ call.completed).flatMap Call.rows =
        s.completedRows i := by
    unfold completedRows
    congr 1
    refine List.filter_congr fun call _ => ?_
    rw [decide_eq_decide]
    exact and_congr_left fun _ => ⟨hTasks.configs _ _, fun hSame => hSame ▸ rfl⟩
  cases hLive : s.live with
  | false =>
    have hHistory := hInv.group.history hLive i
    refine ⟨?_, fun hFinished => ?_, fun _ head hHead => ?_⟩
    · rw [hRows]
      exact hHistory.prefix
    · rw [hRows, hHistory.rows_of_finished hFinished]
    · rw [hInv.unpolled hLive] at hHead
      cases hHead
  | true =>
    cases hIndex : (task i).liveIndexing with
    | false =>
      have hAll := hInv.ended hLive i hIndex
      refine ⟨⟨(task i).toBlock + 1, ?_⟩, fun _ => ?_, fun hNow => ?_⟩
      · rw [hRows, hAll]
      · rw [hRows, hAll]
      · cases hIndex.symm.trans hNow
    | true =>
      obtain ⟨reached, hFollowed⟩ := hInv.followed hLive
      obtain ⟨hDelivered, hPolled⟩ := hFollowed i hIndex
      refine ⟨⟨reached i, ?_⟩, fun _ => ?_, fun _ head hHead => ?_⟩
      · rw [hRows, hDelivered.rows]
      · rw [hRows, hDelivered.rows]
        exact span_prefix _ hDelivered.history
      · rw [hRows, hDelivered.rows]
        exact span_prefix _ (hPolled head hHead)

end Undisturbed

/-- With the tasks in order, in a run that replaces no block that was indexed, the callbacks keep the
order of the tree; and when nothing fails and nothing is replaced, they have each log once. -/
theorem dependencies_first [Fintype ι] [DecidableEq γ] (hTasks : TasksInOrder task)
    (node : ∀ i, BloomedLogs (task i).network) (acts : List (GroupAct task))
    (hActs : Meets step StepInOrder (start task node) acts) :
    Always step (DependenciesFirst task) (start task node) acts ∧
      ((∀ act ∈ acts, act.Undisturbed) →
        Always step (fun s => ∀ i, DeliveredOnce task s i) (start task node) acts) := by
  have hStart := start_inv hTasks node
  constructor
  · exact (always_of_invariant (fun s act s' hInv hStep => step_inv hTasks hInv hStep)
      hStart hActs).mono fun s hInv => hInv.first
  · intro hUndisturbed
    have hInit : DeliveryInv (start task node) := deliveryInv_of_history hStart rfl rfl
    exact (always_of_invariant
      (fun s act s' hInv hStep => step_delivery hTasks hInv hStep.1 hStep.2) hInit
      (hActs.and_labels hUndisturbed)).mono
        fun s hInv => deliveredOnce_of_inv hTasks hInv

/-! ### A group of two events -/

/-- The pools that a factory creates, and what happens in them. -/
inductive PoolEvent
  | created
  | swap
deriving DecidableEq

instance : Fintype PoolEvent where
  elems := {.created, .swap}
  complete i := by cases i <;> decide

/-- The two tasks, with the snapshots at which their histories end. -/
def poolTask (created swap : Nat) : PoolEvent → EventTask PoolEvent
  | .created => ⟨.created, 0, transfers.network, 1, 10, created, none, 0, none, false⟩
  | .swap => ⟨.swap, 1, transfers.network, 2, 10, swap, none, 0, none, false⟩

def poolNode (created swap : Nat) :
    ∀ i, BloomedLogs (poolTask created swap i).network
  | .created => bloomedTransfers
  | .swap => bloomedTransfers

def steadyPools : List (GroupAct (poolTask 11 10)) :=
  [.round .created (.logs true) false, .callback .created 2 true true, .finish .created, .nextLayer,
    .round .swap (.logs true) false, .callback .swap 1 true true, .finish .swap, .goLive,
    .poll transfers.network 12 fun _ => .good]

theorem poolTasks_inOrder : TasksInOrder (poolTask 11 10) where
  live_parent child parent hDepends _ := by
    cases child with
    | created => exact absurd hDepends.1 (Nat.not_lt_zero _)
    | swap =>
      cases parent with
      | created => exact ⟨by decide, fun _ => Nat.le_refl _⟩
      | swap => exact absurd hDepends.1 (Nat.lt_irrefl _)
  ended_parent child parent _ hNot := by
    cases parent <;> cases hNot
  configs i j h := by
    cases i <;> cases j <;> first | rfl | cases h
  ids i j _ _ _ h := by
    cases i <;> cases j <;> first | rfl | exact absurd h (by decide)
  fits i := by
    cases i <;> exact ⟨by decide, fun l hl => nomatch hl⟩

theorem dependencies_first_pools :
    Always step (DependenciesFirst (poolTask 11 10)) (start (poolTask 11 10) (poolNode 11 10))
        steadyPools ∧
      Always step (fun s => ∀ i, DeliveredOnce (poolTask 11 10) s i)
        (start (poolTask 11 10) (poolNode 11 10)) steadyPools := by
  obtain ⟨hOrder, hDelivery⟩ :=
    dependencies_first poolTasks_inOrder (poolNode 11 10) steadyPools <| by
      refine .cons rfl ?_ (.cons rfl trivial (.cons rfl trivial (.cons rfl trivial (.cons rfl ?_
        (.cons rfl trivial (.cons rfl trivial (.cons rfl trivial (.cons rfl trivial trivial))))))))
      all_goals exact fun _ _ l hl => nomatch hl
  refine ⟨hOrder, hDelivery fun act hAct => ?_⟩
  simp only [steadyPools, List.mem_cons, List.not_mem_nil, or_false] at hAct
  rcases hAct with rfl | rfl | rfl | rfl | rfl | rfl | rfl | rfl | rfl
  case inr.inr.inr.inr.inr.inr.inr.inr => exact fun _ => rfl
  all_goals trivial

/-- The parent's snapshot is of one head, the child's of the next: the child's history calls back for a
block that the parent has not had. -/
theorem child_ahead_of_parent :
    ¬ ∀ (task : PoolEvent → EventTask PoolEvent) (node : ∀ i, BloomedLogs (task i).network)
        (acts : List (GroupAct task)),
      Always step (DependenciesFirst task) (start task node) acts := by
  intro hClaim
  have hRun := hClaim (poolTask 10 11) (poolNode 10 11)
    [.round .created (.logs true) false, .callback .created 1 true true, .finish .created, .nextLayer,
      .round .swap (.logs true) false, .callback .swap 2 true true]
  have hFirst := ((((((hRun.2 _ rfl).2 _ rfl).2 _ rfl).2 _ rfl).2 _ rfl).2 _ rfl)
  let row : EventRow := ⟨"ethereum", 11, "a11", fun _ => .null⟩
  have hRow : row ∈ (transferLogs "a").logs 11 := List.mem_singleton.mpr rfl
  have hSpan : row ∈ (transferLogs "a").span 10 12 := mem_span.mpr ⟨11, by decide, by decide, hRow⟩
  obtain ⟨earlier, hEarlier, -, -, hIn⟩ := hFirst [_] _ [] rfl row hSpan .created ⟨by decide, rfl⟩
    11 (Nat.le_refl _) ⟨by decide, fun _ h => nomatch h⟩ row hRow
  cases List.mem_singleton.mp hEarlier
  -- the only earlier callback had block 10
  have hBlock : 11 ∈ [10] := List.mem_map_of_mem (f := EventRow.blockNumber) hIn
  exact absurd hBlock (by decide)

end Rindexer.Indexer.Layers
