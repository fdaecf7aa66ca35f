import Rindexer.Indexer.Stream

/-! Rollbacks and the batches that are in flight.  Where a rollback finds nothing on the way that
reaches its fork point, and nothing above its detection point in the table, no later write undoes it
and the table has the rows of the node's chain, each once. -/

namespace Rindexer.Indexer

open Rindexer.Lib Rindexer.Database

/-- The batches on their way to the cursor. -/
def Stream.onWay {network : String} (s : Stream network) : List Sent :=
  s.running ++ (s.buffer ++ s.channel)

/-- The batches whose rows are not in the table yet. -/
def Stream.pending {network : String} (s : Stream network) : List Sent :=
  (if s.inserted then [] else s.running) ++ (s.buffer ++ s.channel)

/-- The rows that an event table has of a network. -/
def tableRows (x : Detail) (db : Db) : List EventRow :=
  (db.events x.eventTable).rows.filter fun r => r.network = x.network

/-- No callback inserts a row that a rollback since the fetch has deleted, or raises the cursor to
its fork point. -/
def NoStaleWrite {network : String} (s : Stream network) (act : StreamAct network)
    (_ : Stream network) : Prop :=
  ∀ b ∈ s.running, ∀ r ∈ s.rollbacks.drop b.fetchedAt,
    match act with
    | .insert atomic =>
      (∀ row ∈ b.batch.rows, ¬(r.1 ≤ row.blockNumber ∧ row.blockNumber ≤ r.2)) ∧
        (atomic = true → b.batch.toBlock < r.1)
    | .advance => b.batch.toBlock < r.1
    | _ => True

/-- Where nothing is on the way and no orphaned block awaits a rollback, the table has the rows of
the node's chain up to the next block, each once. -/
def Exact (x : Detail) (s : Stream x.network) : Prop :=
  s.onWay = [] → s.orphanedFrom = none →
    (tableRows x s.db).Perm ((List.range' s.base (s.next - s.base)).flatMap s.node.logs)

/-- A rollback finds no batch on the way that reaches its fork point, no row above its detection
point, and the fetch task not behind its fork point. -/
def Quiet (x : Detail) (s : Stream x.network) : StreamAct x.network → Prop
  | .rollback forkPoint detectionPoint _ =>
    (∀ b ∈ s.onWay, b.batch.toBlock < forkPoint) ∧
      (∀ r ∈ tableRows x s.db, r.blockNumber ≤ detectionPoint) ∧ forkPoint ≤ s.next
  | _ => True

/-! ### Rows of batches and of ranges -/

@[simp] theorem sentRows_append (sent sent' : List Sent) :
    sentRows (sent ++ sent') = sentRows sent ++ sentRows sent' := List.flatMap_append

theorem coalesce_rows (b : Batch) (ready : List Batch) :
    (coalesce b ready).rows = b.rows ++ ready.flatMap Batch.rows := by
  induction ready generalizing b with
  | nil => simp [coalesce]
  | cons next ready ih =>
    have hRest := ih (b.merge next)
    rw [coalesce] at hRest ⊢
    rw [List.foldl_cons, hRest]
    simp [Batch.merge]

theorem coalesceSent_rows {sent : List Sent} {batch : Batch} (h : coalesceSent sent = some batch) :
    batch.rows = sentRows sent := by
  cases sent with
  | nil => cases h
  | cons b ready =>
    cases h
    rw [coalesce_rows, sentRows, List.flatMap_cons, List.flatMap_map]

section Ranges

variable {network : String} (node : NodeLogs network)

theorem mem_flatMap_logs {blocks : List Nat} {r : EventRow} (h : r ∈ blocks.flatMap node.logs) :
    r.blockNumber ∈ blocks ∧ r.network = network := by
  obtain ⟨n, hn, hr⟩ := List.mem_flatMap.mp h
  obtain ⟨rfl, hNetwork⟩ := node.placed n r hr
  exact ⟨hn, hNetwork⟩

theorem mem_range {fromBlock toBlock : Nat} {r : EventRow} (h : r ∈ node.range fromBlock toBlock) :
    fromBlock ≤ r.blockNumber ∧ r.blockNumber ≤ toBlock ∧ r.network = network := by
  obtain ⟨hIn, hNetwork⟩ := mem_flatMap_logs node h
  rw [List.mem_range'_1] at hIn
  exact ⟨hIn.1, by omega, hNetwork⟩

theorem flatMap_logs_to_last {fromBlock count : Nat} {last : EventRow}
    (h : ((List.range' fromBlock count).flatMap node.logs).getLast? = some last) :
    (List.range' fromBlock count).flatMap node.logs =
      (List.range' fromBlock (last.blockNumber + 1 - fromBlock)).flatMap node.logs := by
  induction count with
  | zero => cases h
  | succ count ih =>
    rw [List.range'_1_concat, List.flatMap_append, List.flatMap_singleton] at h ⊢
    cases hTop : node.logs (fromBlock + count) with
    | nil =>
      rw [hTop, List.append_nil] at h
      rw [List.append_nil]
      exact ih h
    | cons r rows =>
      have hLast : last ∈ node.logs (fromBlock + count) := by
        rw [hTop, List.getLast?_append] at h
        rw [hTop]
        apply List.mem_of_getLast?
        simpa using h
      have hCount : last.blockNumber + 1 - fromBlock = count + 1 := by
        have hNumber := (node.placed _ last hLast).1
        omega
      rw [hCount, List.range'_1_concat, List.flatMap_append, List.flatMap_singleton, hTop]

/-- The blocks past the last log of a range have no logs. -/
theorem range_eq_to_nextBlock (fromBlock toBlock : Nat) :
    node.range fromBlock toBlock =
      (List.range' fromBlock
        (nextBlock toBlock (node.range fromBlock toBlock) - fromBlock)).flatMap node.logs := by
  cases hLast : (node.range fromBlock toBlock).getLast? with
  | none =>
    rw [nextBlock, hLast]
    rfl
  | some last =>
    rw [nextBlock, hLast]
    exact flatMap_logs_to_last node hLast

theorem le_nextBlock {fromBlock toBlock : Nat} (h : fromBlock ≤ toBlock) :
    fromBlock ≤ nextBlock toBlock (node.range fromBlock toBlock) := by
  unfold nextBlock
  cases hLast : (node.range fromBlock toBlock).getLast? with
  | none =>
    simp only [Option.map_none, Option.getD_none]
    omega
  | some last =>
    have hFrom := (mem_range node (List.mem_of_getLast? hLast)).1
    simp only [Option.map_some, Option.getD_some]
    omega

theorem filter_flatMap_below {base count forkPoint : Nat} (h : forkPoint ≤ base + count) :
    ((List.range' base count).flatMap node.logs).filter (fun r => r.blockNumber < forkPoint) =
      (List.range' base (forkPoint - base)).flatMap node.logs := by
  have hCount : count = (forkPoint - base) + (count - (forkPoint - base)) := by omega
  rw [hCount, ← List.range'_append_1, List.flatMap_append, List.filter_append]
  have hLow : ∀ r ∈ (List.range' base (forkPoint - base)).flatMap node.logs,
      decide (r.blockNumber < forkPoint) = true := by
    intro r hr
    have hIn := (mem_flatMap_logs node hr).1
    rw [List.mem_range'_1] at hIn
    simp only [decide_eq_true_eq]
    omega
  have hHigh : ∀ r ∈ (List.range' (base + (forkPoint - base))
      (count - (forkPoint - base))).flatMap node.logs, ¬decide (r.blockNumber < forkPoint) = true := by
    intro r hr
    have hIn := (mem_flatMap_logs node hr).1
    rw [List.mem_range'_1] at hIn
    simp only [decide_eq_true_eq]
    omega
  rw [List.filter_eq_self.mpr hLow, List.filter_eq_nil_iff.mpr hHigh, List.append_nil]

end Ranges

/-! ### The table -/

theorem events_of_advance {db db' : Db} {table network detailKey : String} {toBlock : Nat}
    (h : advanceDetailCursor db table network detailKey toBlock = .ok db') :
    db'.events = db.events := by
  unfold advanceDetailCursor at h
  split at h
  · cases h
    rfl
  · cases h

/-- The inserted rows stand behind the others. -/
theorem tableRows_of_insert {x : Detail} {db db' : Db} {batch : Batch} {atomic : Bool}
    (h : (if atomic then
        insertBulkWithCursor db x.eventTable batch.rows x.checkpointTable x.network x.detailKey
          batch.toBlock
      else .ok (db.insertRows x.eventTable batch.rows)) = .ok db')
    (hNetwork : ∀ r ∈ batch.rows, r.network = x.network) :
    tableRows x db' = tableRows x db ++ batch.rows := by
  have hRows : (db'.events x.eventTable).rows = (db.events x.eventTable).rows ++ batch.rows := by
    cases atomic with
    | true =>
      rw [if_pos rfl, insertBulkWithCursor] at h
      split at h
      · rename_i hNil
        cases h
        rw [hNil, List.append_nil]
      · rw [events_of_advance h]
        simp [Db.insertRows]
    | false =>
      cases h
      simp [Db.insertRows]
  have hAll : batch.rows.filter (fun r => decide (r.network = x.network)) = batch.rows :=
    List.filter_eq_self.mpr fun r hr => by simpa using hNetwork r hr
  rw [tableRows, hRows, List.filter_append, hAll, tableRows]

/-- A rollback leaves the rows outside its range. -/
theorem tableRows_of_committed {x : Detail} {db db' : Db} {forkPoint detectionPoint : Nat}
    {correctedBlocks : List Header}
    (h : Committed db db' [x.eventTable] x.network forkPoint detectionPoint correctedBlocks
      [x.checkpointTable]) :
    tableRows x db' = (tableRows x db).filter fun r =>
      !(forkPoint ≤ r.blockNumber && r.blockNumber ≤ detectionPoint) := by
  unfold tableRows
  rw [h.events, if_pos (List.mem_singleton.mpr rfl), deleteStaleEvents, List.filter_filter,
    List.filter_filter]
  refine List.filter_congr fun r _ => ?_
  by_cases hNetwork : r.network = x.network
  · simp [hNetwork]
  · simp [hNetwork]

/-! ### The invariant -/

/-- Of a stream: batches end below the fork points of later rollbacks; their rows are within them; and
the table and the pending batches have the logs that were fetched for each block, which are those of
the node below the orphaned blocks. -/
structure Intact (x : Detail) (s : Stream x.network) : Prop where
  fresh : ∀ b ∈ s.onWay, b.fetchedAt ≤ s.rollbacks.length ∧
    ∀ r ∈ s.rollbacks.drop b.fetchedAt, b.batch.toBlock < r.1
  within : ∀ b ∈ s.onWay, ∀ row ∈ b.batch.rows,
    row.blockNumber ≤ b.batch.toBlock ∧ row.network = x.network
  started : s.base ≤ s.next
  logged : ∃ logged : NodeLogs x.network,
    (tableRows x s.db ++ sentRows s.pending).Perm
      ((List.range' s.base (s.next - s.base)).flatMap logged.logs) ∧
    ∀ n, s.base ≤ n → n < s.next → (∀ height ∈ s.orphanedFrom, n < height) →
      logged.logs n = s.node.logs n

theorem exact_of_intact {x : Detail} {s : Stream x.network} (h : Intact x s) : Exact x s := by
  intro hIdle hSettled
  obtain ⟨logged, hPerm, hSame⟩ := h.logged
  have hPending : s.pending = [] := by
    rw [Stream.onWay, List.append_eq_nil_iff] at hIdle
    simp [Stream.pending, hIdle.1, hIdle.2]
  rw [hPending, sentRows, List.flatMap_nil, List.append_nil] at hPerm
  have hLogs : (List.range' s.base (s.next - s.base)).flatMap logged.logs =
      (List.range' s.base (s.next - s.base)).flatMap s.node.logs := by
    refine List.flatMap_congr fun n hn => ?_
    rw [List.mem_range'_1] at hn
    refine hSame n hn.1 (by omega) fun height hHeight => ?_
    rw [hSettled] at hHeight
    cases hHeight
  exact hLogs ▸ hPerm

section Steps

variable {x : Detail} {s s' : Stream x.network}

theorem reorg_intact (hInv : Intact x s) (height : Nat) (node : NodeLogs x.network) :
    Intact x (s.reorg height node) := by
  obtain ⟨logged, hPerm, hSame⟩ := hInv.logged
  refine ⟨hInv.fresh, hInv.within, hInv.started, logged, hPerm, fun n hBase hNext hBelow => ?_⟩
  have hUnder : n < height ∧ ∀ orphan ∈ s.orphanedFrom, n < orphan := by
    simp only [Stream.reorg] at hBelow hNext
    split at hBelow
    · have hMin := hBelow _ rfl
      refine ⟨by omega, fun orphan hOrphan => ?_⟩
      rw [hOrphan, Option.getD_some] at hMin
      omega
    · exact ⟨by omega, hBelow⟩
  simp only [Stream.reorg, if_pos hUnder.1]
  exact hSame n hBase hNext hUnder.2

/-- The logs fetched so far, and those of the node from the next block on. -/
def NodeLogs.extend {network : String} (logged node : NodeLogs network) (next : Nat) :
    NodeLogs network where
  logs n := if n < next then logged.logs n else node.logs n
  placed n r hMem := by
    split at hMem
    · exact logged.placed n r hMem
    · exact node.placed n r hMem

theorem fetch_intact (hInv : Intact x s) {capacity toBlock : Nat}
    (h : s.fetch capacity toBlock = some s') : Intact x s' := by
  simp only [Stream.fetch] at h
  split at h
  · rename_i hGuard
    cases h
    obtain ⟨logged, hPerm, hSame⟩ := hInv.logged
    have hStarted := hInv.started
    have hForward := le_nextBlock s.node hGuard.1
    refine ⟨fun b hb => ?_, fun b hb => ?_, hStarted.trans hForward, logged.extend s.node s.next,
      ?_, fun n hBase hNext hBelow => ?_⟩
    · simp only [Stream.onWay, ← List.append_assoc, List.mem_append, List.mem_singleton] at hb
      rcases hb with hOld | rfl
      · exact hInv.fresh b (by simpa [Stream.onWay, List.append_assoc, or_assoc] using hOld)
      · refine ⟨le_rfl, fun r hr => ?_⟩
        simp at hr
    · simp only [Stream.onWay, ← List.append_assoc, List.mem_append, List.mem_singleton] at hb
      rcases hb with hOld | rfl
      · exact hInv.within b (by simpa [Stream.onWay, List.append_assoc, or_assoc] using hOld)
      · intro row hRow
        exact (mem_range s.node hRow).2
    · have hOldLogs : (List.range' s.base (s.next - s.base)).flatMap
          (logged.extend s.node s.next).logs =
          (List.range' s.base (s.next - s.base)).flatMap logged.logs := by
        refine List.flatMap_congr fun n hn => ?_
        rw [List.mem_range'_1] at hn
        exact if_pos (by omega)
      have hNewLogs : (List.range' s.next
          (nextBlock toBlock (s.node.range s.next toBlock) - s.next)).flatMap
            (logged.extend s.node s.next).logs = s.node.range s.next toBlock := by
        refine Eq.trans (List.flatMap_congr fun n hn => ?_)
          (range_eq_to_nextBlock s.node s.next toBlock).symm
        rw [List.mem_range'_1] at hn
        exact if_neg (by omega)
      have hCount : nextBlock toBlock (s.node.range s.next toBlock) - s.base =
          (s.next - s.base) +
            (nextBlock toBlock (s.node.range s.next toBlock) - s.next) := by omega
      have hAt : s.base + (s.next - s.base) = s.next := by omega
      simp only [Stream.pending] at hPerm ⊢
      rw [hCount, ← List.range'_append_1, hAt, List.flatMap_append, hOldLogs, hNewLogs]
      simp only [← List.append_assoc, sentRows_append] at hPerm ⊢
      exact hPerm.append (by simp [sentRows])
    · simp only [NodeLogs.extend]
      split
      · rename_i hOld
        exact hSame n hBase hOld hBelow
      · rfl
  · cases h

/-- A step of the consumer that only hands batches on. -/
theorem intact_of_handed (hInv : Intact x s) (hDb : s'.db = s.db) (hNext : s'.next = s.next)
    (hNode : s'.node = s.node) (hRollbacks : s'.rollbacks = s.rollbacks)
    (hOrphaned : s'.orphanedFrom = s.orphanedFrom) (hBase : s'.base = s.base)
    (hOnWay : s'.onWay = s.onWay) (hPending : s'.pending = s.pending) : Intact x s' := by
  obtain ⟨logged, hPerm, hSame⟩ := hInv.logged
  refine ⟨?_, ?_, ?_, logged, ?_, ?_⟩
  · rw [hOnWay, hRollbacks]
    exact hInv.fresh
  · rw [hOnWay]
    exact hInv.within
  · rw [hBase, hNext]
    exact hInv.started
  · rw [hDb, hPending, hBase, hNext]
    exact hPerm
  · rw [hBase, hNext, hOrphaned, hNode]
    exact hSame

theorem receive_intact (hInv : Intact x s) (h : s.receive = some s') : Intact x s' := by
  unfold Stream.receive at h
  split at h
  · rename_i b channel hBuffer hChannel
    cases h
    refine intact_of_handed hInv rfl rfl rfl rfl rfl rfl ?_ ?_
    · simp [Stream.onWay, hBuffer, hChannel]
    · simp [Stream.pending, hBuffer, hChannel]
  · cases h

theorem coalesce_intact (hInv : Intact x s) (h : s.coalesce = some s') : Intact x s' := by
  unfold Stream.coalesce at h
  split at h
  · cases h
  rename_i b channel hChannel
  split at h
  · cases h
    refine intact_of_handed hInv rfl rfl rfl rfl rfl rfl ?_ ?_
    · simp [Stream.onWay, hChannel]
    · simp [Stream.pending, hChannel]
  · cases h

theorem dispatch_intact (hInv : Intact x s) (h : s.dispatch = some s') : Intact x s' := by
  unfold Stream.dispatch at h
  split at h
  · rename_i hFree
    cases h
    refine intact_of_handed hInv rfl rfl rfl rfl rfl rfl ?_ ?_
    · simp [Stream.onWay, hFree.2]
    · simp [Stream.pending, hFree.2]
  · cases h

theorem insert_intact (hInv : Intact x s) {atomic : Bool} (h : s.insert x atomic = some s') :
    Intact x s' := by
  unfold Stream.insert at h
  split at h
  · rename_i batch hBatch hWaiting
    simp only at h
    split at h
    · cases h
    rename_i db hInserted
    cases h
    obtain ⟨logged, hPerm, hSame⟩ := hInv.logged
    have hRows := coalesceSent_rows hBatch
    have hNetwork : ∀ r ∈ batch.rows, r.network = x.network := by
      intro r hr
      rw [hRows, sentRows] at hr
      obtain ⟨b, hb, hrow⟩ := List.mem_flatMap.mp hr
      exact (hInv.within b (List.mem_append_left _ hb) r hrow).2
    refine ⟨hInv.fresh, hInv.within, hInv.started, logged, ?_, hSame⟩
    have hTable := tableRows_of_insert hInserted hNetwork
    simp only [Stream.pending, hWaiting, Bool.false_eq_true, if_false, if_true, List.nil_append,
      sentRows_append] at hPerm ⊢
    rw [hTable, hRows]
    simpa only [List.append_assoc] using hPerm
  · cases h

theorem advance_intact (hInv : Intact x s) (h : s.advance x = some s') : Intact x s' := by
  unfold Stream.advance at h
  split at h
  · rename_i batch hBatch hInserted
    split at h
    · cases h
    rename_i db hAdvance
    cases h
    obtain ⟨logged, hPerm, hSame⟩ := hInv.logged
    have hLater : ∀ b ∈ ([] ++ (s.buffer ++ s.channel) : List Sent), b ∈ s.onWay := fun b hb =>
      List.mem_append_right _ hb
    refine ⟨fun b hb => hInv.fresh b (hLater b hb), fun b hb => hInv.within b (hLater b hb),
      hInv.started, logged, ?_, hSame⟩
    have hTable : tableRows x db = tableRows x s.db := by
      unfold tableRows
      rw [events_of_advance hAdvance]
    simp only [Stream.pending, hInserted, if_true] at hPerm ⊢
    rw [hTable]
    exact hPerm
  · cases h

theorem rollback_intact (hInv : Intact x s) {forkPoint detectionPoint : Nat}
    {correctedBlocks : List Header}
    (hQuiet : Quiet x s (.rollback forkPoint detectionPoint correctedBlocks))
    (h : s.rollback x forkPoint detectionPoint correctedBlocks = some s') : Intact x s' := by
  obtain ⟨hNoBatch, hNoneAbove, hBehind⟩ := hQuiet
  unfold Stream.rollback at h
  split at h
  · cases h
  rename_i hOrphans
  split at h
  · cases h
  rename_i db result hCommit
  cases h
  obtain ⟨logged, hPerm, hSame⟩ := hInv.logged
  have hStarted := hInv.started
  have hTable : tableRows x db = (tableRows x s.db).filter fun r => r.blockNumber < forkPoint := by
    rw [tableRows_of_committed (reorgRollbackTransaction_ok hCommit)]
    refine List.filter_congr fun r hr => ?_
    have hBelow := hNoneAbove r hr
    simp only [hBelow, decide_true, Bool.and_true]
    by_cases hLow : r.blockNumber < forkPoint
    · simp [hLow]
    · simp [hLow, Nat.not_lt.mp hLow]
  have hPendingOnWay : ∀ b ∈ s.pending, b ∈ s.onWay := by
    intro b hb
    simp only [Stream.pending, Stream.onWay, List.mem_append] at hb ⊢
    refine hb.imp_left fun hRunning => ?_
    split at hRunning
    · cases hRunning
    · exact hRunning
  have hPending : (sentRows s.pending).filter (fun r => r.blockNumber < forkPoint) =
      sentRows s.pending := by
    refine List.filter_eq_self.mpr fun r hr => ?_
    obtain ⟨b, hb, hrow⟩ := List.mem_flatMap.mp hr
    have hIn := (hInv.within b (hPendingOnWay b hb) r hrow).1
    have hLow := hNoBatch b (hPendingOnWay b hb)
    simp only [decide_eq_true_eq]
    omega
  refine ⟨fun b hb => ?_, hInv.within, Nat.min_le_right _ _, logged, ?_,
    fun n hBase hNext _ => ?_⟩
  · obtain ⟨hAge, hFresh⟩ := hInv.fresh b hb
    refine ⟨by simp only [List.length_append]; omega, fun r hr => ?_⟩
    rw [List.drop_append_of_le_length hAge, List.mem_append, List.mem_singleton] at hr
    rcases hr with hOld | rfl
    · exact hFresh r hOld
    · exact hNoBatch b hb
  · have hFiltered := hPerm.filter fun r => r.blockNumber < forkPoint
    rw [List.filter_append, hPending, filter_flatMap_below logged (by omega)] at hFiltered
    have hEmptyBase : forkPoint - min s.base forkPoint = forkPoint - s.base := by omega
    have hLogs : (List.range' (min s.base forkPoint) (forkPoint - min s.base forkPoint)).flatMap
        logged.logs = (List.range' s.base (forkPoint - s.base)).flatMap logged.logs := by
      rcases le_total s.base forkPoint with hLe | hLe
      · rw [Nat.min_eq_left hLe]
      · rw [hEmptyBase, Nat.sub_eq_zero_of_le hLe]
        rfl
    show (tableRows x db ++ sentRows s.pending).Perm _
    rw [hTable, hLogs]
    exact hFiltered
  · have hBelow : n < forkPoint := hNext
    refine hSame n ?_ (by omega) fun height hHeight => ?_
    · have hMin : min s.base forkPoint ≤ n := hBase
      omega
    · have hAt : ¬height < forkPoint := by
        intro hUnder
        exact hOrphans (by rw [hHeight]; simpa using hUnder)
      omega

end Steps

theorem step_intact {x : Detail} {capacity : Nat} {s s' : Stream x.network}
    {act : StreamAct x.network} (hInv : Intact x s) (hQuiet : Quiet x s act)
    (h : s.step x capacity act = some s') : Intact x s' ∧ NoStaleWrite s act s' := by
  refine ⟨?_, fun b hb r hr => ?_⟩
  · cases act with
    | reorg height node =>
      cases h
      exact reorg_intact hInv height node
    | fetch toBlock => exact fetch_intact hInv h
    | receive => exact receive_intact hInv h
    | coalesce => exact coalesce_intact hInv h
    | dispatch => exact dispatch_intact hInv h
    | insert atomic => exact insert_intact hInv h
    | advance => exact advance_intact hInv h
    | rollback forkPoint detectionPoint correctedBlocks => exact rollback_intact hInv hQuiet h
  · have hMem : b ∈ s.onWay := List.mem_append_left _ hb
    have hBelow := (hInv.fresh b hMem).2 r hr
    cases act with
    | insert atomic =>
      refine ⟨fun row hRow hIn => ?_, fun _ => hBelow⟩
      have hTo := (hInv.within b hMem row hRow).1
      omega
    | advance => exact hBelow
    | _ => trivial

theorem idle_intact {x : Detail} {db : Db} (hEmpty : tableRows x db = []) (next : Nat)
    (node : NodeLogs x.network) : Intact x (.idle db next node) := by
  refine ⟨fun b hb => absurd hb List.not_mem_nil, fun b hb => absurd hb List.not_mem_nil, le_rfl,
    node, ?_, fun _ _ _ _ => rfl⟩
  simp [Stream.idle, Stream.pending, hEmpty, sentRows]

/-- A node with one transfer in each block up to 12, in the transactions of one chain. -/
def transferLogs (chain : String) : NodeLogs transfers.network where
  logs n := if n ≤ 12 then [⟨"ethereum", n, s!"{chain}{n}", fun _ => .null⟩] else []
  placed n r hMem := by
    split at hMem
    · rw [List.mem_singleton.mp hMem]
      exact ⟨rfl, rfl⟩
    · cases hMem

/-- A database in which the cursor of the transfers is seeded. -/
def seededDb : Db := Db.empty.setCursors "app_token_transfer" [⟨"ethereum", legacyDetailKey, 10⟩]

/-- The stream has delivered blocks 11 and 12 when they are rolled back, and delivers them again. -/
def deliveredBeforeRollback : List (StreamAct transfers.network) :=
  [.fetch 12, .receive, .dispatch, .insert true, .advance, .reorg 11 (transferLogs "b"),
    .rollback 11 12 [], .fetch 12, .receive, .dispatch, .insert true, .advance]

end Rindexer.Indexer
