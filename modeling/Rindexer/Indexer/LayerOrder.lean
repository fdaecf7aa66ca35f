import Rindexer.Indexer.Layers

/-! The order of the callbacks in the run of a dependency group: what one event of a poll does, what a
round of the history does, and the invariant that puts the events that others depend on first. -/

namespace Rindexer.Indexer.Layers

open Rindexer.Lib Rindexer.Database

variable {ι γ : Type} [DecidableEq ι] {task : ι → EventTask γ}

/-! ### Completed rows -/

namespace GroupRun

variable {s s' : GroupRun task} {i j : ι}

theorem mem_completedRows {r : EventRow} :
    r ∈ s.completedRows i ↔
      ∃ call ∈ s.calls, call.task = i ∧ call.completed = true ∧ r ∈ call.rows := by
  simp [completedRows, and_assoc]

theorem completedRows_append (call : Call ι) (h : s'.calls = s.calls ++ [call]) (i : ι) :
    s'.completedRows i = s.completedRows i ++
      if call.task = i ∧ call.completed = true then call.rows else [] := by
  unfold completedRows
  rw [h, List.filter_append, List.flatMap_append]
  by_cases hCall : call.task = i ∧ call.completed = true
  · simp [hCall]
  · rw [if_neg hCall, List.filter_cons, if_neg (by simpa using hCall)]
    simp

/-- The logs of a task below a block are in completed callbacks. -/
def CompleteBelow (s : GroupRun task) (i : ι) (below : Nat) : Prop :=
  ∀ n, (task i).base ≤ n → n < below → ∀ r ∈ (s.node i).logs n, r ∈ s.completedRows i

theorem CompleteBelow.mono {below below' : Nat} (h : s.CompleteBelow i below)
    (hLe : below' ≤ below) : s.CompleteBelow i below' :=
  fun n hBase hn => h n hBase (hn.trans_le hLe)

/-- Calls are only added, and the nodes stay. -/
def Grows (s s' : GroupRun task) : Prop :=
  s'.node = s.node ∧ ∃ more, s'.calls = s.calls ++ more

omit [DecidableEq ι] in
theorem Grows.refl (s : GroupRun task) : s.Grows s := ⟨rfl, [], (List.append_nil _).symm⟩

omit [DecidableEq ι] in
theorem Grows.trans {s'' : GroupRun task} (h : s.Grows s') (h' : s'.Grows s'') : s.Grows s'' := by
  obtain ⟨hNode, more, hCalls⟩ := h
  obtain ⟨hNode', more', hCalls'⟩ := h'
  exact ⟨hNode'.trans hNode, more ++ more', by rw [hCalls', hCalls, List.append_assoc]⟩

theorem Grows.completeBelow {below : Nat} (h : s.Grows s') (hBelow : s.CompleteBelow i below) :
    s'.CompleteBelow i below := by
  obtain ⟨hNode, more, hCalls⟩ := h
  intro n hBase hn r hr
  rw [hNode] at hr
  obtain ⟨call, hIn, hCall⟩ := mem_completedRows.mp (hBelow n hBase hn r hr)
  exact mem_completedRows.mpr ⟨call, hCalls ▸ List.mem_append_left _ hIn, hCall⟩

end GroupRun

open GroupRun

/-- A further call keeps the order when the events it depends on have completed. -/
theorem dependenciesFirst_append {s s' : GroupRun task} (call : Call ι)
    (hFirst : DependenciesFirst task s) (hNode : s'.node = s.node)
    (hCalls : s'.calls = s.calls ++ [call])
    (h : ∀ row ∈ call.rows, ∀ parent, DependsOn task call.task parent →
      ∀ n ≤ row.blockNumber, (task parent).Due n → ∀ r ∈ (s.node parent).logs n,
        r ∈ s.completedRows parent) : DependenciesFirst task s' := by
  intro before c after hSplit row hRow parent hDepends n hn hDue r hr
  rw [hNode] at hr
  rw [hCalls] at hSplit
  rcases List.eq_nil_or_concat after with rfl | ⟨after, last, rfl⟩
  · obtain ⟨rfl, hSame⟩ := List.append_inj' hSplit rfl
    cases hSame
    exact mem_completedRows.mp (h row hRow parent hDepends n hn hDue r hr)
  · rw [List.concat_eq_append, ← List.cons_append, ← List.append_assoc] at hSplit
    obtain ⟨hOld, -⟩ := List.append_inj' hSplit rfl
    exact hFirst before c after hOld row hRow parent hDepends n hn hDue r hr

omit [DecidableEq ι] in
theorem dependenciesFirst_congr {s s' : GroupRun task} (hFirst : DependenciesFirst task s)
    (hNode : s'.node = s.node) (hCalls : s'.calls = s.calls) : DependenciesFirst task s' := by
  intro before call after hSplit
  rw [hNode]
  exact hFirst before call after (hCalls ▸ hSplit)

/-! ### One event of a poll -/

section PollEvent

variable {s : GroupRun task} {i : ι} {details : OrderedLiveIndexingDetails} {answer : Answer}
  {latestBlockNumber : Nat}

/-- The state after a callback of a poll. -/
def called (s : GroupRun task) (i : ι) (toBlock : Nat) (completed : Bool)
    (fromBlock : Nat) : GroupRun task :=
  { s with calls := s.calls ++ [⟨i, (s.node i).range fromBlock toBlock, completed⟩] }

omit [DecidableEq ι] in
/-- What a poll does with an event: nothing, since there is nothing to do or something fails; pass over
blocks without logs; or call back, after which the loop goes on if all went well. -/
theorem pollEvent_cases (hDetails : s.details (task i).network (task i).processorId = some details) :
    let safe := latestBlockNumber - (task i).indexingDistanceFromHead
    let rows := (s.node i).range details.fromBlock safe
    (s.pollEvent latestBlockNumber answer i = (s, true) ∧
        (details.lastSeenBlockNumber = latestBlockNumber ∨ safe < details.fromBlock)) ∨
      (s.pollEvent latestBlockNumber answer i = (s, false) ∧ answer ≠ .good) ∨
      (s.pollEvent latestBlockNumber answer i = (s.setDetails i ⟨safe + 1, safe⟩, true) ∧
        details.fromBlock ≤ safe ∧ rows = []) ∨
      ∃ last, rows.getLast? = some last ∧ details.fromBlock ≤ safe ∧
        ((s.pollEvent latestBlockNumber answer i =
            (called s i safe answer.callback details.fromBlock, false) ∧ answer ≠ .good) ∨
          answer.callback = true ∧ s.pollEvent latestBlockNumber answer i =
            ((called s i safe answer.callback details.fromBlock).setDetails i
              ⟨if answer.numbered then last.blockNumber + 1 else details.fromBlock, safe⟩, true)) := by
  intro safe rows
  unfold pollEvent
  rw [hDetails]
  dsimp only
  by_cases hSeen : details.lastSeenBlockNumber = latestBlockNumber
  · rw [if_pos hSeen]
    exact Or.inl ⟨rfl, Or.inl hSeen⟩
  rw [if_neg hSeen]
  by_cases hSafe : safe < details.fromBlock
  · rw [if_pos hSafe]
    exact Or.inl ⟨rfl, Or.inr hSafe⟩
  rw [if_neg hSafe]
  have hLe : details.fromBlock ≤ safe := Nat.not_lt.mp hSafe
  split
  case isTrue hBloom =>
    obtain ⟨⟨hHead, hSingle, -⟩, hIrrelevant⟩ := hBloom
    have hNone : rows = [] := by
      show (s.node i).range details.fromBlock safe = []
      rw [← show details.fromBlock = safe from hSingle, hHead]
      simp [NodeLogs.range, (s.node i).bloom latestBlockNumber hIrrelevant]
    by_cases hCursor : answer.cursor
    · rw [if_pos hCursor]
      exact Or.inr (Or.inr (Or.inl ⟨rfl, hLe, hNone⟩))
    · rw [if_neg hCursor]
      exact Or.inr (Or.inl ⟨rfl, fun hGood => hCursor (hGood ▸ rfl)⟩)
  case isFalse =>
    by_cases hFetched : answer.fetched
    · rw [if_neg (by simp [hFetched])]
      cases hLast : ((s.node i).range details.fromBlock safe).getLast? with
      | none =>
        have hNone : rows = [] := List.getLast?_eq_none_iff.mp hLast
        dsimp only
        by_cases hCursor : answer.cursor
        · rw [if_pos hCursor]
          exact Or.inr (Or.inr (Or.inl ⟨rfl, hLe, hNone⟩))
        · rw [if_neg hCursor]
          exact Or.inr (Or.inl ⟨rfl, fun hGood => hCursor (hGood ▸ rfl)⟩)
      | some last =>
        dsimp only
        refine Or.inr (Or.inr (Or.inr ⟨last, rfl, hLe, ?_⟩))
        by_cases hWell : answer.callback && answer.cursor
        · rw [if_pos hWell]
          rw [Bool.and_eq_true] at hWell
          exact Or.inr ⟨hWell.1, rfl⟩
        · rw [if_neg hWell]
          exact Or.inl ⟨rfl, fun hGood => hWell (hGood ▸ rfl)⟩
    · rw [if_pos (by simp [hFetched])]
      exact Or.inr (Or.inl ⟨rfl, fun hGood => hFetched (hGood ▸ rfl)⟩)

end PollEvent

/-! ### The condition -/

/-- The events that others depend on are ahead of them: their history goes at least as far, and live
they come at least as near to the head.  An event that is not live goes as far as its end block, or as
far as an event that is not live either.  No configuration is selected twice, and no two live events
of a network share a processor id. -/
structure TasksInOrder (task : ι → EventTask γ) : Prop where
  live_parent : ∀ child parent, DependsOn task child parent → (task parent).liveIndexing = true →
    (task child).toBlock ≤ (task parent).toBlock ∧ ((task child).liveIndexing = true →
      (task parent).indexingDistanceFromHead ≤ (task child).indexingDistanceFromHead)
  ended_parent : ∀ child parent, DependsOn task child parent → (task parent).liveIndexing = false →
    (∀ endBlock ∈ (task parent).endBlock, endBlock ≤ (task parent).toBlock) ∨
      (task child).liveIndexing = false ∧ (task child).toBlock ≤ (task parent).toBlock
  configs : ∀ i j, (task i).config = (task j).config → i = j
  ids : ∀ i j, (task i).liveIndexing = true → (task j).liveIndexing = true →
    (task i).network = (task j).network → (task i).processorId = (task j).processorId → i = j
  /-- The blocks and the limits have 64 bits. -/
  fits : ∀ i, (task i).toBlock + 2 < 2 ^ 64 ∧
    ∀ l ∈ (task i).originalMaxLimit, (task i).startBlock + l < 2 ^ 64

/-- An error in the history keeps the place of the fetch; and a reorg replaces nothing below its fork
point, which is no block that a live event has not reached, and none of the history of an event that
has ended. -/
def StepInOrder (s : GroupRun task) : GroupAct task → Prop
  | .round i response _ => (s.history i).fetch.Keeps (s.node i).toNodeLogs (task i).toBlock response
  | .reorg network forkPoint node => 0 < forkPoint ∧ ∀ i, (task i).network = network →
      (∀ n < forkPoint, (node i).logs n = (s.node i).logs n) ∧
      ((task i).liveIndexing = false → (task i).toBlock < forkPoint) ∧
      ((task i).liveIndexing = true →
        ∀ details ∈ s.details (task i).network (task i).processorId,
          forkPoint ≤ max details.fromBlock (details.lastSeenBlockNumber + 1))
  | _ => True

/-! ### The history -/

theorem mem_span {network : String} {node : NodeLogs network} {fromBlock below : Nat} {r : EventRow} :
    r ∈ node.span fromBlock below ↔
      ∃ n, fromBlock ≤ n ∧ n < below ∧ r ∈ node.logs n := by
  unfold NodeLogs.span
  rw [List.mem_flatMap]
  constructor
  · rintro ⟨n, hn, hr⟩
    rw [List.mem_range'_1] at hn
    exact ⟨n, hn.1, by omega, hr⟩
  · rintro ⟨n, hFrom, hBelow, hr⟩
    exact ⟨n, List.mem_range'_1.mpr (by omega), hr⟩

/-- The history of a task as long as no event is live. -/
structure HistoryInv (s : GroupRun task) (i : ι) : Prop where
  rows : s.completedRows i = (s.history i).fetch.delivered.take (s.history i).handled
  within : (s.history i).handled ≤ (s.history i).fetch.delivered.length
  course : (task i).startBlock ≤ (task i).toBlock → (s.history i).fetch.OnCourse
    (s.node i).toNodeLogs (task i).startBlock (task i).toBlock
  idle : (task i).toBlock < (task i).startBlock → (s.history i).fetch =
    .start (task i).startBlock (task i).toBlock (task i).originalMaxLimit
  finished : (s.history i).finished = true → (task i).toBlock < (s.history i).fetch.fromBlock ∧
    (s.history i).handled = (s.history i).fetch.delivered.length

namespace HistoryInv

variable {s s' : GroupRun task} {i : ι}

/-- The fetch has delivered the logs up to a block, at most one past the snapshot. -/
theorem delivered_span (h : HistoryInv s i) : ∃ below ≤ (task i).toBlock + 1,
    (s.history i).fetch.delivered = (s.node i).span (task i).base below := by
  rcases Nat.lt_or_ge (task i).toBlock (task i).startBlock with hIdle | hStart
  · refine ⟨0, Nat.zero_le _, ?_⟩
    rw [h.idle hIdle, span_eq_nil_of_le _ (Nat.zero_le _)]
    rfl
  · have hCourse := h.course hStart
    have hBase : (task i).base = (task i).startBlock := Nat.min_eq_left (by omega)
    refine ⟨(s.history i).fetch.reached, ?_, ?_⟩
    · have hPlace := hCourse.place
      unfold Historic.reached
      omega
    · rw [hCourse.delivered.logs, hBase]

theorem block_le (h : HistoryInv s i) {r : EventRow} (hr : r ∈ (s.history i).fetch.delivered) :
    r.blockNumber ≤ (task i).toBlock := by
  obtain ⟨below, hBelow, hSpan⟩ := h.delivered_span
  rw [hSpan] at hr
  obtain ⟨n, -, hn, hLog⟩ := mem_span.mp hr
  rw [((s.node i).placed n r hLog).1]
  omega

/-- A history that is through has had all the logs up to the snapshot. -/
theorem rows_of_finished (h : HistoryInv s i) (hFinished : (s.history i).finished = true) :
    s.completedRows i = (s.node i).span (task i).base ((task i).toBlock + 1) := by
  obtain ⟨hPast, hAll⟩ := h.finished hFinished
  rw [h.rows, hAll, List.take_length]
  rcases Nat.lt_or_ge (task i).toBlock (task i).startBlock with hIdle | hStart
  · have hBase : (task i).base = (task i).toBlock + 1 := Nat.min_eq_right (by omega)
    rw [h.idle hIdle, hBase, span_eq_nil_of_le _ (Nat.le_refl _)]
    rfl
  · have hCourse := h.course hStart
    have hBase : (task i).base = (task i).startBlock := Nat.min_eq_left (by omega)
    have hReached : (s.history i).fetch.reached = (task i).toBlock + 1 := by
      have hPlace := hCourse.place
      unfold Historic.reached
      omega
    rw [hCourse.delivered.logs, hBase, hReached]

theorem completeBelow (h : HistoryInv s i) (hFinished : (s.history i).finished = true) :
    s.CompleteBelow i ((task i).toBlock + 1) := by
  intro n hBase hn r hr
  rw [h.rows_of_finished hFinished]
  exact mem_span.mpr ⟨n, hBase, hn, hr⟩

theorem congr (h : HistoryInv s i) (hHistory : s'.history i = s.history i)
    (hNode : s'.node = s.node) (hRows : s'.completedRows i = s.completedRows i) :
    HistoryInv s' i where
  rows := by rw [hRows, hHistory, h.rows]
  within := by rw [hHistory]; exact h.within
  course := by rw [hHistory, hNode]; exact h.course
  idle := by rw [hHistory]; exact h.idle
  finished := by rw [hHistory]; exact h.finished

end HistoryInv

/-! ### The invariant -/

/-- The order, and how far each event has come. -/
structure GroupInv (s : GroupRun task) : Prop where
  first : DependenciesFirst task s
  joined : ∀ i, (task i).level < s.layer → (s.history i).finished = true
  reached : ∀ i, (s.history i).finished = true → (task i).level ≤ s.layer
  events_mem : ∀ i, i ∈ s.events ↔
    (s.history i).finished = true ∧ (task i).liveIndexing = true
  events_sorted : s.events.Pairwise fun i j => (task i).level ≤ (task j).level
  history : s.live = false → ∀ i, HistoryInv s i
  all_finished : s.live = true → ∀ i, (s.history i).finished = true
  ended : s.live = true → ∀ i, (task i).liveIndexing = false →
    s.CompleteBelow i ((task i).toBlock + 1)
  followed : s.live = true → ∀ i, (task i).liveIndexing = true →
    ∃ details, s.details (task i).network (task i).processorId = some details ∧
      s.CompleteBelow i (max details.fromBlock (details.lastSeenBlockNumber + 1))

/-- What an event depends on has completed all the blocks up to one that its history reaches. -/
theorem parents_complete (hTasks : TasksInOrder task) {s : GroupRun task} {child parent : ι}
    (hDepends : DependsOn task child parent) {block n : Nat} (hBlock : block ≤ (task child).toBlock)
    (hn : n ≤ block) (hDue : (task parent).Due n)
    (hParent : s.CompleteBelow parent ((task parent).toBlock + 1)) {r : EventRow}
    (hr : r ∈ (s.node parent).logs n) : r ∈ s.completedRows parent := by
  refine hParent n hDue.1 ?_ r hr
  cases hLive : (task parent).liveIndexing with
  | true =>
    have hAhead := (hTasks.live_parent child parent hDepends hLive).1
    omega
  | false =>
    rcases hTasks.ended_parent child parent hDepends hLive with hEnd | ⟨-, hAhead⟩
    · cases hBound : (task parent).endBlock with
      | none => simp [EventTask.liveIndexing, hBound] at hLive
      | some endBlock =>
        have hDueEnd := hDue.2 endBlock hBound
        have hEndReached := hEnd endBlock hBound
        omega
    · omega

/-! ### Steps of the history -/

section History

variable {s s' : GroupRun task} {i : ι}

omit [DecidableEq ι] in
theorem active_iff : s.active i = true ↔ s.live = false ∧ (task i).level = s.layer ∧
    (s.history i).failed = false ∧ (s.history i).finished = false := by
  simp [active, and_assoc]

theorem start_inv (hTasks : TasksInOrder task) (node : ∀ i, BloomedLogs (task i).network) :
    GroupInv (start task node) where
  first := by
    intro before call after hSplit
    simp [start] at hSplit
  joined := fun i hLevel => absurd hLevel (Nat.not_lt_zero _)
  reached := by
    intro i hFinished
    simp [start] at hFinished
  events_mem := by simp [start]
  events_sorted := List.Pairwise.nil
  history := fun _ i =>
    { rows := rfl
      within := Nat.zero_le _
      course := fun hStart => start_onCourse hStart (hTasks.fits i).2
      idle := fun _ => rfl
      finished := by simp [start] }
  all_finished := by simp [start]
  ended := by simp [start]
  followed := by simp [start]

/-- A step of one task of the current level. -/
structure HistoryStep (s s' : GroupRun task) (i : ι) : Prop where
  live : s'.live = s.live
  layer : s'.layer = s.layer
  node : s'.node = s.node
  others : ∀ j, j ≠ i → s'.history j = s.history j ∧ s'.completedRows j = s.completedRows j
  events : s'.events = s.events ++
    if (s'.history i).finished = true ∧ (task i).liveIndexing = true then [i] else []
  first : DependenciesFirst task s'
  history : HistoryInv s' i

theorem historyStep_inv (hInv : GroupInv s) (hActive : s.active i = true)
    (h : HistoryStep s s' i) : GroupInv s' := by
  obtain ⟨hLive, hLevel, -, hGoes⟩ := active_iff.mp hActive
  have hNotLive : ∀ {P : Prop}, s'.live = true → P := fun hNow =>
    absurd ((h.live.trans hLive).symm.trans hNow) Bool.false_ne_true
  refine ⟨h.first, ?_, ?_, ?_, ?_, ?_, fun hNow => hNotLive hNow, fun hNow => hNotLive hNow,
    fun hNow => hNotLive hNow⟩
  · intro j hj
    have hne : j ≠ i := by
      rintro rfl
      rw [h.layer, hLevel] at hj
      exact Nat.lt_irrefl _ hj
    rw [(h.others j hne).1]
    exact hInv.joined j (h.layer ▸ hj)
  · intro j hj
    rw [h.layer]
    by_cases hne : j = i
    · rw [hne, hLevel]
    · rw [(h.others j hne).1] at hj
      exact hInv.reached j hj
  · intro j
    rw [h.events, List.mem_append, hInv.events_mem]
    by_cases hne : j = i
    · subst hne
      simp only [hGoes, Bool.false_eq_true, false_and, false_or]
      split
      · simp_all
      · simp_all
    · rw [(h.others j hne).1]
      constructor
      · rintro (hOld | hNew)
        · exact hOld
        · split at hNew
          · exact absurd (List.mem_singleton.mp hNew) hne
          · cases hNew
      · exact Or.inl
  · rw [h.events, List.pairwise_append]
    refine ⟨hInv.events_sorted, ?_, ?_⟩
    · split
      · exact List.pairwise_singleton _ _
      · exact List.Pairwise.nil
    · intro a ha b hb
      split at hb
      · rw [List.mem_singleton.mp hb, hLevel]
        exact hInv.reached a ((hInv.events_mem a).mp ha).1
      · cases hb
  · intro _ j
    by_cases hne : j = i
    · rw [hne]
      exact h.history
    · exact (hInv.history hLive j).congr (h.others j hne).1 h.node (h.others j hne).2

theorem round_inv (hTasks : TasksInOrder task) (hInv : GroupInv s) {response : Response}
    {reset : Bool} (hKeeps : StepInOrder s (.round i response reset))
    (h : s.round i response reset = some s') : GroupInv s' := by
  unfold GroupRun.round at h
  split at h
  case isFalse => cases h
  case isTrue hActive =>
    cases h
    obtain ⟨hLive, -, -, hGoes⟩ := active_iff.mp hActive
    have hOld := hInv.history hLive i
    -- a round adds to what was delivered, and the callback has had a part of that
    obtain ⟨more, hMore⟩ : ∃ more, ((s.history i).fetch.round (s.node i).toNodeLogs (task i).toBlock
        (task i).originalMaxLimit response reset).delivered =
          (s.history i).fetch.delivered ++ more := by
      unfold Historic.round
      split
      · exact ⟨[], (List.append_nil _).symm⟩
      · exact ⟨_, rfl⟩
    apply historyStep_inv hInv hActive
    refine ⟨rfl, rfl, rfl, fun j hj => ⟨by simp [setHistory, hj], rfl⟩, ?_,
      dependenciesFirst_congr hInv.first rfl rfl, ?_, ?_, ?_, ?_, ?_⟩
    · simp [setHistory, hGoes]
    · show s.completedRows i = _
      simp only [setHistory, Function.update_self, hMore]
      rw [List.take_append_of_le_length hOld.within, hOld.rows]
    · simp only [setHistory, Function.update_self, hMore, List.length_append]
      exact hOld.within.trans (Nat.le_add_right _ _)
    · intro hStart
      simp only [setHistory, Function.update_self]
      by_cases hPast : (task i).toBlock < (s.history i).fetch.fromBlock
      · rw [round_past _ _ _ hPast]
        exact hOld.course hStart
      · exact (round_onCourse _ _ (hTasks.fits i).1 (hOld.course hStart)
          (Nat.not_lt.mp hPast) hKeeps).1
    · intro hIdle
      simp only [setHistory, Function.update_self]
      rw [round_past _ _ _ (by rw [hOld.idle hIdle]; exact hIdle), hOld.idle hIdle]
    · intro hFinished
      simp [setHistory, hGoes] at hFinished

/-- The callback of a historical batch runs when the earlier levels are joined. -/
theorem callback_inv (hTasks : TasksInOrder task) (hInv : GroupInv s) {count : Nat}
    {completed cursor : Bool} (h : s.callback i count completed cursor = some s') :
    GroupInv s' := by
  unfold GroupRun.callback at h
  dsimp only at h
  split at h
  case isFalse => cases h
  case isTrue hGuard =>
    obtain ⟨hActive, -⟩ := hGuard
    cases h
    obtain ⟨hLive, hLevel, -, hGoes⟩ := active_iff.mp hActive
    have hOld := hInv.history hLive i
    generalize hRows : ((s.history i).fetch.delivered.drop (s.history i).handled).take count = rows
    have hSub : ∀ r ∈ rows, r ∈ (s.history i).fetch.delivered := by
      intro r hr
      rw [← hRows] at hr
      exact List.mem_of_mem_drop (List.mem_of_mem_take hr)
    have hTaken : (s.history i).fetch.delivered.take ((s.history i).handled + rows.length) =
        (s.history i).fetch.delivered.take (s.history i).handled ++ rows := by
      rw [List.take_add]
      congr 1
      rw [← hRows, List.length_take, List.take_eq_take_iff]
      simp
    apply historyStep_inv hInv hActive
    refine ⟨rfl, rfl, rfl, ?_, ?_, ?_, ?_, ?_, ?_, ?_, ?_⟩
    · intro j hj
      refine ⟨by simp [setHistory, hj], ?_⟩
      rw [completedRows_append ⟨i, rows, completed⟩ rfl, if_neg (by simp [Ne.symm hj]),
        List.append_nil]
    · simp [setHistory, hGoes]
    · refine dependenciesFirst_append ⟨i, rows, completed⟩ hInv.first rfl rfl ?_
      intro row hRow parent hDepends n hn hDue r hr
      have hJoined := hInv.joined parent (hLevel ▸ hDepends.1)
      exact parents_complete hTasks hDepends (hOld.block_le (hSub row hRow)) hn hDue
        ((hInv.history hLive parent).completeBelow hJoined) hr
    · rw [completedRows_append ⟨i, rows, completed⟩ rfl, hOld.rows]
      simp only [setHistory, Function.update_self]
      cases completed with
      | true => simp [hTaken]
      | false => simp
    · simp only [setHistory, Function.update_self]
      cases completed with
      | true =>
        have hLength := congrArg List.length hTaken
        simp only [List.length_take, List.length_append, if_true] at hLength ⊢
        have hWithin := hOld.within
        omega
      | false => exact hOld.within
    · intro hStart
      simpa [setHistory] using hOld.course hStart
    · intro hIdle
      simpa [setHistory] using hOld.idle hIdle
    · intro hFinished
      simp [setHistory, hGoes] at hFinished

theorem finish_inv (hInv : GroupInv s) (h : s.finish i = some s') : GroupInv s' := by
  unfold GroupRun.finish at h
  dsimp only at h
  split at h
  case isFalse => cases h
  case isTrue hGuard =>
    obtain ⟨hActive, hPast, hAll⟩ := hGuard
    cases h
    obtain ⟨hLive, -, -, -⟩ := active_iff.mp hActive
    have hOld := hInv.history hLive i
    apply historyStep_inv hInv hActive
    refine ⟨rfl, rfl, rfl, fun j hj => ⟨by simp [setHistory, hj], rfl⟩, ?_,
      dependenciesFirst_congr hInv.first rfl rfl, ?_, ?_, ?_, ?_, ?_⟩
    · by_cases hIndex : (task i).liveIndexing = true
      · simp [setHistory, hIndex]
      · simp [setHistory, hIndex]
    · show s.completedRows i = _
      simpa [setHistory] using hOld.rows
    · simpa [setHistory] using hOld.within
    · intro hStart
      simpa [setHistory] using hOld.course hStart
    · intro hIdle
      simpa [setHistory] using hOld.idle hIdle
    · intro _
      simpa [setHistory] using ⟨hPast, hAll⟩

theorem nextLayer_inv [Fintype ι] (hInv : GroupInv s) (h : s.nextLayer = some s') :
    GroupInv s' := by
  unfold GroupRun.nextLayer at h
  split at h
  case isFalse => cases h
  case isTrue hGuard =>
    obtain ⟨hLive, hAll⟩ := hGuard
    cases h
    refine ⟨dependenciesFirst_congr hInv.first rfl rfl, ?_, ?_, hInv.events_mem,
      hInv.events_sorted, ?_, ?_, ?_, ?_⟩
    · intro i hi
      rcases Nat.lt_succ_iff_lt_or_eq.mp hi with hEarlier | hHere
      · exact hInv.joined i hEarlier
      · exact hAll i hHere
    · exact fun i hi => (hInv.reached i hi).trans (Nat.le_succ _)
    · exact fun hNow i => (hInv.history hNow i).congr rfl rfl rfl
    · exact hInv.all_finished
    · exact hInv.ended
    · exact hInv.followed

/-- When the loops start, each live event has its own details. -/
theorem goLive_details [Fintype ι] (hTasks : TasksInOrder task) (hInv : GroupInv s)
    (h : s.goLive = some s') (hIndex : (task i).liveIndexing = true) :
    s'.details (task i).network (task i).processorId = some (initialDetails (task i)) := by
  unfold GroupRun.goLive at h
  split at h
  case isFalse => cases h
  case isTrue hGuard =>
    obtain ⟨hLive, hAll⟩ := hGuard
    cases h
    have hIn : i ∈ s.events := (hInv.events_mem i).mpr ⟨hAll i, hIndex⟩
    have hFind : s.events.reverse.find? (fun j => (task j).network = (task i).network ∧
        (task j).processorId = (task i).processorId) = some i := by
      cases hFound : s.events.reverse.find? (fun j => (task j).network = (task i).network ∧
          (task j).processorId = (task i).processorId) with
      | none =>
        have hNot := List.find?_eq_none.mp hFound i (List.mem_reverse.mpr hIn)
        simp at hNot
      | some j =>
        have hMatch := List.find?_some hFound
        rw [decide_eq_true_eq] at hMatch
        have hj := (hInv.events_mem j).mp (List.mem_reverse.mp (List.mem_of_find?_eq_some hFound))
        rw [hTasks.ids j i hj.2 hIndex hMatch.1 hMatch.2]
    simp only [hFind, Option.map_some]

theorem goLive_inv [Fintype ι] (hTasks : TasksInOrder task) (hInv : GroupInv s)
    (h : s.goLive = some s') : GroupInv s' := by
  have hDetails := fun i => @goLive_details ι γ _ task s s' i _ hTasks hInv h
  unfold GroupRun.goLive at h
  split at h
  case isFalse => cases h
  case isTrue hGuard =>
    obtain ⟨hLive, hAll⟩ := hGuard
    cases h
    have hComplete : ∀ i, s.CompleteBelow i ((task i).toBlock + 1) :=
      fun i => (hInv.history hLive i).completeBelow (hAll i)
    refine ⟨dependenciesFirst_congr hInv.first rfl rfl, hInv.joined, hInv.reached, hInv.events_mem,
      hInv.events_sorted, ?_, fun _ => hAll, fun _ i _ => hComplete i, ?_⟩
    · intro hNow
      cases hNow
    · intro _ i hIndex
      refine ⟨_, hDetails i hIndex, ?_⟩
      show s.CompleteBelow i (max ((task i).toBlock + 1) ((task i).toBlock + 1))
      rw [max_self]
      exact hComplete i

end History

/-! ### Polls -/

section Polls

variable {s s' : GroupRun task} {i : ι} {latestBlockNumber : Nat} {answer : Answer}

/-- What stays in a poll. -/
structure SameGroup (s s' : GroupRun task) : Prop where
  layer : s'.layer = s.layer
  history : s'.history = s.history
  events : s'.events = s.events
  live : s'.live = s.live
  node : s'.node = s.node
  polled : s'.polled = s.polled

omit [DecidableEq ι] in
theorem pollEvent_same (s : GroupRun task) (latestBlockNumber : Nat) (answer : Answer) (i : ι) :
    SameGroup s (s.pollEvent latestBlockNumber answer i).1 := by
  cases hDetails : s.details (task i).network (task i).processorId with
  | none =>
    unfold pollEvent
    rw [hDetails]
    exact ⟨rfl, rfl, rfl, rfl, rfl, rfl⟩
  | some details =>
    rcases @pollEvent_cases ι γ task s i details answer latestBlockNumber hDetails with
      ⟨hEq, -⟩ | ⟨hEq, -⟩ | ⟨hEq, -⟩ | ⟨last, -, -, ⟨hEq, -⟩ | ⟨-, hEq⟩⟩
    all_goals
      rw [hEq]
      exact ⟨rfl, rfl, rfl, rfl, rfl, rfl⟩

/-- Every live event has completed the blocks below the next one to fetch and up to the last seen. -/
def Followed (s : GroupRun task) : Prop :=
  ∀ i, (task i).liveIndexing = true →
    ∃ details, s.details (task i).network (task i).processorId = some details ∧
      s.CompleteBelow i (max details.fromBlock (details.lastSeenBlockNumber + 1))

/-- The details of the other events stay, and theirs are complete where the calls only grow. -/
theorem followed_setDetails (hTasks : TasksInOrder task) (hFollowed : Followed s)
    (hGrows : s.Grows s') (hDetails : s'.details = s.details)
    (hIndex : (task i).liveIndexing = true) {details : OrderedLiveIndexingDetails}
    (h : s'.CompleteBelow i (max details.fromBlock (details.lastSeenBlockNumber + 1))) :
    Followed (s'.setDetails i details) := by
  intro j hj
  by_cases hSame : (task j).network = (task i).network ∧ (task j).processorId = (task i).processorId
  · have hji : j = i := hTasks.ids j i hj hIndex hSame.1 hSame.2
    subst hji
    exact ⟨details, by simp [setDetails], h⟩
  · obtain ⟨old, hOld, hBelow⟩ := hFollowed j hj
    refine ⟨old, ?_, hGrows.completeBelow hBelow⟩
    simp only [setDetails, if_neg hSame, hDetails]
    exact hOld

theorem followed_grows (hFollowed : Followed s) (hGrows : s.Grows s')
    (hDetails : s'.details = s.details) : Followed s' := by
  intro j hj
  obtain ⟨old, hOld, hBelow⟩ := hFollowed j hj
  exact ⟨old, hDetails ▸ hOld, hGrows.completeBelow hBelow⟩

/-- The blocks that an event depends on are complete up to its safe head when its turn comes. -/
def ParentsReady (s : GroupRun task) (latestBlockNumber : Nat) (i : ι) : Prop :=
  ∀ parent, DependsOn task i parent → (task parent).liveIndexing = true →
    s.CompleteBelow parent (latestBlockNumber - (task parent).indexingDistanceFromHead + 1)

theorem pollEvent_inv (hTasks : TasksInOrder task) (hFirst : DependenciesFirst task s)
    (hFollowed : Followed s)
    (hEnded : ∀ j, (task j).liveIndexing = false → s.CompleteBelow j ((task j).toBlock + 1))
    (hIndex : (task i).liveIndexing = true) (hReady : ParentsReady s latestBlockNumber i) :
    let result := s.pollEvent latestBlockNumber answer i
    s.Grows result.1 ∧ DependenciesFirst task result.1 ∧ Followed result.1 ∧
      (result.2 = true → result.1.CompleteBelow i
        (latestBlockNumber - (task i).indexingDistanceFromHead + 1)) := by
  intro result
  obtain ⟨details, hDetails, hBelow⟩ := hFollowed i hIndex
  generalize hSafe : latestBlockNumber - (task i).indexingDistanceFromHead = safe
  have hCases := @pollEvent_cases ι γ task s i details answer latestBlockNumber hDetails
  simp only [hSafe] at hCases
  have hResult : s.pollEvent latestBlockNumber answer i = result := rfl
  rw [hResult] at hCases
  rcases hCases with ⟨hEq, hDone⟩ | ⟨hEq, -⟩ | ⟨hEq, hLe, hNone⟩ | ⟨last, hLast, hLe, hCall⟩
  · rw [hEq]
    refine ⟨GroupRun.Grows.refl s, hFirst, hFollowed, fun _ => hBelow.mono ?_⟩
    rcases hDone with hSeen | hAhead
    · omega
    · omega
  · rw [hEq]
    exact ⟨GroupRun.Grows.refl s, hFirst, hFollowed, fun h => absurd h Bool.false_ne_true⟩
  · -- no logs up to the safe head
    have hComplete : s.CompleteBelow i (safe + 1) := by
      intro n hBase hn r hr
      by_cases hOld : n < details.fromBlock
      · exact hBelow n hBase (by omega) r hr
      · have hIn : r ∈ (s.node i).range details.fromBlock safe := by
          rw [range_eq_span]
          exact mem_span.mpr ⟨n, by omega, hn, hr⟩
        rw [hNone] at hIn
        cases hIn
    rw [hEq]
    refine ⟨⟨rfl, [], (List.append_nil _).symm⟩, dependenciesFirst_congr hFirst rfl rfl,
      followed_setDetails hTasks hFollowed (GroupRun.Grows.refl s) rfl hIndex ?_, fun _ => ?_⟩
    · simpa using hComplete
    · exact hComplete
  · have hGrows : ∀ completed, s.Grows (called s i safe completed details.fromBlock) :=
      fun completed => ⟨rfl, _, rfl⟩
    have hCalled : ∀ completed,
        DependenciesFirst task (called s i safe completed details.fromBlock) := by
      intro completed
      refine dependenciesFirst_append ⟨i, (s.node i).range details.fromBlock safe, completed⟩ hFirst
        rfl rfl ?_
      intro row hRow parent hDepends n hn hDue r hr
      have hRowLe : row.blockNumber ≤ safe := (mem_range _ hRow).2.1
      cases hLive : (task parent).liveIndexing with
      | true =>
        have hDistance := (hTasks.live_parent i parent hDepends hLive).2 hIndex
        exact hReady parent hDepends hLive n hDue.1 (by omega) r hr
      | false =>
        rcases hTasks.ended_parent i parent hDepends hLive with hEnd | ⟨hNot, -⟩
        · cases hBound : (task parent).endBlock with
          | none => simp [EventTask.liveIndexing, hBound] at hLive
          | some endBlock =>
            have hDueEnd := hDue.2 endBlock hBound
            have hEndReached := hEnd endBlock hBound
            exact hEnded parent hLive n hDue.1 (by omega) r hr
        · cases hIndex.symm.trans hNot
    rcases hCall with ⟨hEq, -⟩ | ⟨hCompleted, hEq⟩
    · rw [hEq]
      exact ⟨hGrows _, hCalled _, followed_grows hFollowed (hGrows _) rfl,
        fun h => absurd h Bool.false_ne_true⟩
    · rw [hCompleted] at hEq
      have hComplete : (called s i safe true details.fromBlock).CompleteBelow i (safe + 1) := by
        intro n hBase hn r hr
        by_cases hOld : n < details.fromBlock
        · exact (hGrows true).completeBelow hBelow n hBase (by omega) r hr
        · have hIn : r ∈ (s.node i).range details.fromBlock safe := by
            rw [range_eq_span]
            exact mem_span.mpr ⟨n, by omega, hn, hr⟩
          rw [completedRows_append ⟨i, (s.node i).range details.fromBlock safe, true⟩ rfl]
          simp [hIn]
      have hNext : (if answer.numbered then last.blockNumber + 1 else details.fromBlock) ≤ safe + 1 := by
        have hLastLe : last.blockNumber ≤ safe := (mem_range _ (List.mem_of_getLast? hLast)).2.1
        split
        · omega
        · omega
      rw [hEq]
      refine ⟨hGrows true, hCalled true, followed_setDetails hTasks hFollowed (hGrows true) rfl hIndex
        (hComplete.mono (Nat.max_le.mpr ⟨hNext, Nat.le_refl _⟩)), fun _ => hComplete⟩

omit [DecidableEq ι] in
theorem SameGroup.trans {s'' : GroupRun task} (h : SameGroup s s') (h' : SameGroup s' s'') :
    SameGroup s s'' :=
  ⟨h'.layer.trans h.layer, h'.history.trans h.history, h'.events.trans h.events,
    h'.live.trans h.live, h'.node.trans h.node, h'.polled.trans h.polled⟩

omit [DecidableEq ι] in
theorem pollEvents_same (answers : ι → Answer) (events : List ι) :
    SameGroup s (GroupRun.pollEvents latestBlockNumber answers s events) := by
  induction events generalizing s with
  | nil => exact ⟨rfl, rfl, rfl, rfl, rfl, rfl⟩
  | cons i rest ih =>
    have hFirst := pollEvent_same s latestBlockNumber (answers i) i
    unfold GroupRun.pollEvents
    split
    · rename_i s' hEq
      rw [hEq] at hFirst
      exact hFirst.trans ih
    · rename_i s' hEq
      rw [hEq] at hFirst
      exact hFirst

/-- The events of a poll come in the order of their levels, so that all that an event depends on has
had its turn, unless the poll has stopped before it. -/
theorem pollEvents_inv (hTasks : TasksInOrder task) (answers : ι → Answer) (events : List ι)
    (hFirst : DependenciesFirst task s) (hFollowed : Followed s)
    (hEnded : ∀ j, (task j).liveIndexing = false → s.CompleteBelow j ((task j).toBlock + 1))
    (hIndex : ∀ i ∈ events, (task i).liveIndexing = true)
    (hSorted : events.Pairwise fun i j => (task i).level ≤ (task j).level)
    (hReady : ∀ i ∈ events, ∀ parent, DependsOn task i parent →
      (task parent).liveIndexing = true → parent ∉ events →
      s.CompleteBelow parent (latestBlockNumber - (task parent).indexingDistanceFromHead + 1)) :
    let s' := GroupRun.pollEvents latestBlockNumber answers s events
    s.Grows s' ∧ DependenciesFirst task s' ∧ Followed s' := by
  induction events generalizing s with
  | nil => exact ⟨GroupRun.Grows.refl s, hFirst, hFollowed⟩
  | cons i rest ih =>
    rw [List.pairwise_cons] at hSorted
    have hParents : ParentsReady s latestBlockNumber i := by
      intro parent hDepends hLive
      refine hReady i (List.mem_cons_self ..) parent hDepends hLive fun hIn => ?_
      have hLater : (task i).level ≤ (task parent).level := by
        rcases List.mem_cons.mp hIn with rfl | hIn
        · exact Nat.le_refl _
        · exact hSorted.1 parent hIn
      exact absurd hDepends.1 (Nat.not_lt.mpr hLater)
    obtain ⟨hGrows, hFirst', hFollowed', hDone⟩ := @pollEvent_inv ι γ _ task s i
      latestBlockNumber (answers i) hTasks hFirst hFollowed hEnded
      (hIndex i (List.mem_cons_self ..)) hParents
    unfold GroupRun.pollEvents
    split
    · rename_i s' hEq
      rw [hEq] at hGrows hFirst' hFollowed' hDone
      have hReady' : ∀ j ∈ rest, ∀ parent, DependsOn task j parent →
          (task parent).liveIndexing = true → parent ∉ rest → s'.CompleteBelow parent
            (latestBlockNumber - (task parent).indexingDistanceFromHead + 1) := by
        intro j hj parent hDepends hLive hNot
        by_cases hSame : parent = i
        · rw [hSame]
          exact hDone rfl
        · refine hGrows.completeBelow (hReady j (List.mem_cons_of_mem _ hj) parent hDepends hLive ?_)
          intro hIn
          rcases List.mem_cons.mp hIn with hHere | hIn
          · exact hSame hHere
          · exact hNot hIn
      obtain ⟨hGrows', hRest⟩ := ih hFirst' hFollowed'
        (fun j hj => hGrows.completeBelow (hEnded j hj))
        (fun j hj => hIndex j (List.mem_cons_of_mem _ hj)) hSorted.2 hReady'
      exact ⟨hGrows.trans hGrows', hRest⟩
    · rename_i s' hEq
      rw [hEq] at hGrows hFirst' hFollowed'
      exact ⟨hGrows, hFirst', hFollowed'⟩

theorem poll_inv (hTasks : TasksInOrder task) (hInv : GroupInv s) {network : String}
    {answers : ι → Answer} (h : s.poll network latestBlockNumber answers = some s') :
    GroupInv s' := by
  unfold GroupRun.poll at h
  split at h
  case isFalse => cases h
  case isTrue hLive =>
    cases h
    generalize hEvents : s.events.filter (fun i => (task i).network = network) = events
    have hIndex : ∀ i ∈ events, (task i).liveIndexing = true := by
      intro i hi
      rw [← hEvents] at hi
      exact ((hInv.events_mem i).mp (List.mem_of_mem_filter hi)).2
    have hReady : ∀ i ∈ events, ∀ parent, DependsOn task i parent →
        (task parent).liveIndexing = true → parent ∉ events → s.CompleteBelow parent
          (latestBlockNumber - (task parent).indexingDistanceFromHead + 1) := by
      -- what an event depends on follows the same network
      intro i hi parent hDepends hLiveParent hNot
      rw [← hEvents] at hi hNot
      refine absurd (List.mem_filter.mpr ⟨?_, ?_⟩) hNot
      · exact (hInv.events_mem parent).mpr ⟨hInv.all_finished hLive parent, hLiveParent⟩
      · have hNetwork := (List.mem_filter.mp hi).2
        rw [decide_eq_true_eq] at hNetwork ⊢
        exact hDepends.2.trans hNetwork
    have hSame := @pollEvents_same ι γ task s latestBlockNumber answers events
    obtain ⟨hGrows, hFirst, hFollowed⟩ := @pollEvents_inv ι γ _ task s latestBlockNumber hTasks
      answers events hInv.first (hInv.followed hLive) (hInv.ended hLive) hIndex
      (hEvents ▸ hInv.events_sorted.filter _) hReady
    refine ⟨dependenciesFirst_congr hFirst rfl rfl, ?_, ?_, ?_, ?_, ?_, ?_, ?_, ?_⟩
    · intro i hi
      rw [hSame.history]
      exact hInv.joined i (hSame.layer ▸ hi)
    · intro i hi
      rw [hSame.history] at hi
      rw [hSame.layer]
      exact hInv.reached i hi
    · intro i
      rw [hSame.events, hSame.history]
      exact hInv.events_mem i
    · rw [hSame.events]
      exact hInv.events_sorted
    · intro hNow
      rw [hSame.live, hLive] at hNow
      cases hNow
    · intro _ i
      rw [hSame.history]
      exact hInv.all_finished hLive i
    · exact fun _ i hi => hGrows.completeBelow (hInv.ended hLive i hi)
    · exact fun _ => hFollowed

end Polls

/-! ### Reorgs -/

section Reorgs

variable {s s' : GroupRun task} {network : String} {forkPoint : Nat}
  {node : ∀ i, BloomedLogs (task i).network}

omit [DecidableEq ι] in
/-- A rollback keeps the rows below the fork point, and all rows of other networks. -/
theorem mem_rollbackCall {call : Call ι} {r : EventRow}
    (hr : r ∈ call.rows) (hKept : (task call.task).network = network → r.blockNumber < forkPoint) :
    r ∈ (rollbackCall task network forkPoint call).rows := by
  unfold rollbackCall
  split
  case isTrue hNetwork => exact List.mem_filter.mpr ⟨hr, by simpa using hKept hNetwork⟩
  case isFalse => exact hr

omit [DecidableEq ι] in
theorem rollbackCall_rows {call : Call ι} {r : EventRow}
    (hr : r ∈ (rollbackCall task network forkPoint call).rows) :
    r ∈ call.rows ∧ ((task call.task).network = network → r.blockNumber < forkPoint) := by
  unfold rollbackCall at hr
  split at hr
  case isTrue =>
    obtain ⟨hIn, hBelow⟩ := List.mem_filter.mp hr
    exact ⟨hIn, fun _ => by simpa using hBelow⟩
  case isFalse hNetwork => exact ⟨hr, fun h => absurd h hNetwork⟩

omit [DecidableEq ι] in
@[simp] theorem rollbackCall_task (call : Call ι) :
    (rollbackCall task network forkPoint call).task = call.task := by
  unfold rollbackCall
  split <;> rfl

omit [DecidableEq ι] in
@[simp] theorem rollbackCall_completed (call : Call ι) :
    (rollbackCall task network forkPoint call).completed = call.completed := by
  unfold rollbackCall
  split <;> rfl

theorem reorg_inv (hInv : GroupInv s) (hStep : StepInOrder s (.reorg network forkPoint node))
    (h : s.reorg network forkPoint node = some s') : GroupInv s' := by
  obtain ⟨hPositive, hTasks⟩ := hStep
  unfold GroupRun.reorg at h
  split at h
  case isFalse => cases h
  case isTrue hLive =>
    generalize hAfter : ({ s with
      node := fun i => if (task i).network = network then node i else s.node i
      calls := s.calls.map (rollbackCall task network forkPoint)
      details := fun network' id =>
        if network' = network then
          (s.details network' id).map fun _ => ⟨forkPoint, forkPoint - 1⟩
        else s.details network' id } : GroupRun task) = after at h
    cases h
    have hNode : ∀ i n, ((task i).network = network → n < forkPoint) →
        (s'.node i).logs n = (s.node i).logs n := by
      intro i n hBelow
      rw [← hAfter]
      dsimp only
      split
      case isTrue hNetwork => exact (hTasks i hNetwork).1 n (hBelow hNetwork)
      case isFalse => rfl
    have hCalls : s'.calls = s.calls.map (rollbackCall task network forkPoint) := by rw [← hAfter]
    have hComplete : ∀ i below, s.CompleteBelow i below →
        ((task i).network = network → below ≤ forkPoint) → s'.CompleteBelow i below := by
      intro i below hBelow hFork n hBase hn r hr
      have hLow : (task i).network = network → n < forkPoint := fun hNetwork =>
        hn.trans_le (hFork hNetwork)
      rw [hNode i n hLow] at hr
      obtain ⟨call, hIn, rfl, hCompleted, hRow⟩ := mem_completedRows.mp (hBelow n hBase hn r hr)
      refine mem_completedRows.mpr ⟨rollbackCall task network forkPoint call, ?_, by simp,
        by simpa using hCompleted, mem_rollbackCall hRow fun hNetwork => ?_⟩
      · rw [hCalls]
        exact List.mem_map_of_mem hIn
      · rw [((s.node call.task).placed n r hr).1]
        exact hLow hNetwork
    refine ⟨?_, ?_, ?_, ?_, ?_, ?_, ?_, ?_, ?_⟩
    · intro before call after hSplit row hRow parent hDepends n hn hDue r hr
      rw [hCalls, List.map_eq_append_iff] at hSplit
      obtain ⟨before0, rest0, hSplit, rfl, hRest⟩ := hSplit
      obtain ⟨call0, after0, rfl, rfl, rfl⟩ := List.map_eq_cons_iff.mp hRest
      rw [rollbackCall_task] at hDepends
      obtain ⟨hRow0, hRowBelow⟩ := rollbackCall_rows hRow
      have hLow : (task parent).network = network → n < forkPoint := fun hNetwork =>
        hn.trans_lt (hRowBelow (hDepends.2 ▸ hNetwork))
      rw [hNode parent n hLow] at hr
      obtain ⟨earlier, hEarlier, rfl, hCompleted, hIn⟩ :=
        hInv.first before0 call0 after0 hSplit row hRow0 parent hDepends n hn hDue r hr
      refine ⟨_, List.mem_map_of_mem hEarlier, by simp, by simpa using hCompleted,
        mem_rollbackCall hIn fun hNetwork => ?_⟩
      rw [((s.node earlier.task).placed n r hr).1]
      exact hLow hNetwork
    · intro i hi
      rw [← hAfter] at hi ⊢
      exact hInv.joined i hi
    · intro i hi
      rw [← hAfter] at hi ⊢
      exact hInv.reached i hi
    · intro i
      rw [← hAfter]
      exact hInv.events_mem i
    · rw [← hAfter]
      exact hInv.events_sorted
    · intro hNow
      rw [← hAfter] at hNow
      cases hLive.symm.trans hNow
    · intro _ i
      rw [← hAfter]
      exact hInv.all_finished hLive i
    · intro _ i hi
      exact hComplete i _ (hInv.ended hLive i hi) fun hNetwork => (hTasks i hNetwork).2.1 hi
    · intro _ i hi
      obtain ⟨details, hDetails, hBelow⟩ := hInv.followed hLive i hi
      by_cases hNetwork : (task i).network = network
      · refine ⟨⟨forkPoint, forkPoint - 1⟩, ?_, ?_⟩
        · rw [← hAfter]
          dsimp only
          rw [if_pos hNetwork, hDetails]
          rfl
        · have hReached := (hTasks i hNetwork).2.2 hi details hDetails
          refine hComplete i _ (hBelow.mono ?_) fun _ => ?_
          · dsimp only
            omega
          · dsimp only
            omega
      · refine ⟨details, ?_, hComplete i _ hBelow fun h => absurd h hNetwork⟩
        rw [← hAfter]
        dsimp only
        rw [if_neg hNetwork, hDetails]

end Reorgs

theorem step_inv [Fintype ι] (hTasks : TasksInOrder task) {s s' : GroupRun task}
    {act : GroupAct task} (hInv : GroupInv s) (hStep : StepInOrder s act)
    (h : s.step act = some s') : GroupInv s' := by
  cases act with
  | round i response reset => exact round_inv hTasks hInv hStep h
  | callback i count callback cursor => exact callback_inv hTasks hInv h
  | finish i => exact finish_inv hInv h
  | nextLayer => exact nextLayer_inv hInv h
  | goLive => exact goLive_inv hTasks hInv h
  | poll network latestBlockNumber answers => exact poll_inv hTasks hInv h
  | reorg network forkPoint node => exact reorg_inv hInv hStep h

end Rindexer.Indexer.Layers
