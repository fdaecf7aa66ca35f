import Rindexer.Indexer.Delivery

/-! What a durable cursor promises: every block up to it that a detail owes is in the detail's table.
The invariant goes through start, fetch, delivery, advance and crash, and through a rollback where no
cursor of the network is behind the fork point. -/

namespace Rindexer.Indexer

open Rindexer.Lib Rindexer.Database

/-! ### Batches in order -/

/-- Each batch ends below the first block that neither it, nor an earlier batch, nor the table has. -/
def InOrder (startBlock : Nat) : (Nat → Prop) → List Batch → Prop
  | _, [] => True
  | delivered, b :: batches =>
    (∀ n, startBlock ≤ n → n ≤ b.toBlock → delivered n ∨ b.covers n) ∧
      InOrder startBlock (fun n => delivered n ∨ b.covers n) batches

section InOrder

variable {startBlock : Nat} {delivered delivered' : Nat → Prop} {batches ready : List Batch}

theorem InOrder.mono (h : InOrder startBlock delivered batches)
    (hSub : ∀ b ∈ batches, ∀ n, n ≤ b.toBlock → delivered n → delivered' n) :
    InOrder startBlock delivered' batches := by
  induction batches generalizing delivered delivered' with
  | nil => trivial
  | cons b batches ih =>
    refine ⟨fun n hStart hTo => ?_, ih h.2 fun b' hMem n hTo => ?_⟩
    · exact (h.1 n hStart hTo).imp_left (hSub b List.mem_cons_self n hTo)
    · exact Or.imp_left (hSub b' (List.mem_cons_of_mem _ hMem) n hTo)

theorem InOrder.append (h : InOrder startBlock delivered batches) {b : Batch}
    (hLast : ∀ n, startBlock ≤ n → n ≤ b.toBlock →
      delivered n ∨ (∃ b' ∈ batches, b'.covers n) ∨ b.covers n) :
    InOrder startBlock delivered (batches ++ [b]) := by
  induction batches generalizing delivered with
  | nil => exact ⟨fun n hStart hTo => by simpa using hLast n hStart hTo, trivial⟩
  | cons first batches ih =>
    refine ⟨h.1, ih h.2 fun n hStart hTo => ?_⟩
    rcases hLast n hStart hTo with hIn | ⟨b', hMem, hCovers⟩ | hCovers
    · exact .inl (.inl hIn)
    · rcases List.mem_cons.mp hMem with rfl | hRest
      · exact .inl (.inr hCovers)
      · exact .inr (.inl ⟨b', hRest, hCovers⟩)
    · exact .inr (.inr hCovers)

/-- Once the first batches are in, the others are in order, and nothing is missing up to the end of
any of the first. -/
theorem InOrder.deliver (h : InOrder startBlock delivered (ready ++ batches)) :
    InOrder startBlock (fun n => delivered n ∨ ready.any (Batch.covers · n)) batches ∧
      ∀ b ∈ ready, ∀ n, startBlock ≤ n → n ≤ b.toBlock →
        delivered n ∨ ready.any (Batch.covers · n) := by
  induction ready generalizing delivered with
  | nil => exact ⟨by simpa using h, fun b hMem => absurd hMem List.not_mem_nil⟩
  | cons first ready ih =>
    obtain ⟨hRest, hReady⟩ := ih h.2
    have hSame : ∀ n, (delivered n ∨ first.covers n) ∨ ready.any (Batch.covers · n) ↔
        delivered n ∨ (first :: ready).any (Batch.covers · n) := by
      intro n
      rw [List.any_cons, Bool.or_eq_true, or_assoc]
    refine ⟨hRest.mono fun b _ n _ => (hSame n).mp, fun b hMem n hStart hTo => ?_⟩
    rcases List.mem_cons.mp hMem with rfl | hLater
    · exact (hSame n).mp (.inl (h.1 n hStart hTo))
    · exact (hSame n).mp (hReady b hLater n hStart hTo)

end InOrder

/-! ### The invariant -/

/-- The cursor of a detail, the block that it is about to be advanced to, the batches in flight and
the position of the fetch loop are all within what has been delivered or fetched. -/
structure Covers (s : Indexing) (x : Detail) (startBlock : Nat) : Prop where
  cursor : ∀ lastSynced, x.cursor s.db = some lastSynced → lastSynced ≠ 0 →
    ∀ n, startBlock ≤ n → n ≤ lastSynced → s.delivered x n
  progress : ∀ toBlock, s.progress x = some toBlock →
    ∀ n, startBlock ≤ n → n ≤ toBlock → s.delivered x n
  inFlight : InOrder startBlock (fun n => s.delivered x n) (s.inFlight x)
  next : ∀ nextBlock, s.next x = some nextBlock →
    ∀ n, startBlock ≤ n → n < nextBlock → s.delivered x n ∨ ∃ b ∈ s.inFlight x, b.covers n

def AllCovered (details : List Detail) (s : Indexing) : Prop :=
  ∀ x ∈ details, ∀ startBlock, x.startBlock = some startBlock → Covers s x startBlock

/-- No two details share a row of a cursor table. -/
def DistinctCursors (details : List Detail) : Prop :=
  ∀ x ∈ details, ∀ y ∈ details, x.checkpointTable = y.checkpointTable → x.network = y.network →
    x.detailKey = y.detailKey → x = y

/-- Every block that a detail owes and that is not in its table is at or above the block that
`get_start_end_block` would resume from. -/
def Resumable (details : List Detail) (s : Indexing) : Prop :=
  ∀ x ∈ details, ∀ latestBlock db' blocks, getStartEndBlock x latestBlock s.db = .ok (db', blocks) →
    ∀ startBlock, x.startBlock = some startBlock →
      ∀ n, startBlock ≤ n → s.delivered x n = false → blocks.1 ≤ n

/-! ### Rollbacks -/

/-- A rollback leaves each cursor of its network at the smaller of its value and the block before the
fork point. -/
def RewindsToMin (details : List Detail) (s : Indexing) (act : Act) (s' : Indexing) : Prop :=
  match act with
  | .rollback network forkPoint _ _ _ =>
    ∀ x ∈ registered details network,
      s'.db.cursors x.checkpointTable = (s.db.cursors x.checkpointTable).map fun r =>
        if r.network = network then { r with lastSyncedBlock := min r.lastSyncedBlock (forkPoint - 1) }
        else r
  | _ => True

/-- No cursor that a rollback sets is behind the block before the fork point. -/
def CursorsReachFork (details : List Detail) (s : Indexing) (act : Act) : Prop :=
  match act with
  | .rollback network forkPoint _ _ _ =>
    ∀ x ∈ registered details network, ∀ r ∈ s.db.cursors x.checkpointTable,
      r.network = network → forkPoint - 1 ≤ r.lastSyncedBlock
  | _ => True

/-- A rollback rewinds every fetch loop of its network that is past the fork point, and moves none
over blocks that it has not delivered. -/
def LoopsRewind (details : List Detail) (s : Indexing) (act : Act) : Prop :=
  match act with
  | .rollback network forkPoint _ _ rewound =>
    ∀ x ∈ registered details network, ∀ nextBlock, s.next x = some nextBlock →
      (forkPoint < nextBlock → x ∈ rewound) ∧
        (x ∈ rewound → ∀ n, nextBlock ≤ n → n < forkPoint → s.delivered x n)
  | _ => True

/-- A rollback meets no batch and no advance that reaches its fork point. -/
def NothingInFlight (details : List Detail) (s : Indexing) (act : Act) : Prop :=
  match act with
  | .rollback network forkPoint _ _ _ =>
    ∀ x ∈ registered details network, (∀ b ∈ s.inFlight x, b.toBlock < forkPoint) ∧
      ∀ toBlock, s.progress x = some toBlock → toBlock < forkPoint
  | _ => True

/-! ### Starting -/

theorem resumable_of_covered {details : List Detail} {s : Indexing} (h : AllCovered details s) :
    Resumable details s := by
  intro x hMem latestBlock db' blocks hOk startBlock hStart n hOwed hMissing
  obtain ⟨hSeed, hResume⟩ := getStartEndBlock_ok hOk
  have hCursor : x.cursor db' = some ((x.cursor s.db).getD 0) := by
    rw [Detail.cursor, cursor_ensureDetailCursor hSeed, if_pos ⟨rfl, rfl, rfl⟩]
    rfl
  rw [hResume startBlock hStart, hCursor]
  cases hHeld : (x.cursor s.db).getD 0 with
  | zero => exact hOwed
  | succ lastSynced =>
    have hValue : x.cursor s.db = some (lastSynced + 1) := by
      cases hSome : x.cursor s.db with
      | none => simp [hSome] at hHeld
      | some v => simpa [hSome] using hHeld
    by_contra hBelow
    have hIn := (h x hMem startBlock hStart).cursor _ hValue (Nat.succ_ne_zero _) n hOwed
      (by simp only at hBelow; omega)
    rw [hMissing] at hIn
    cases hIn

section Steps

variable {details : List Detail} {s s' : Indexing}

/-- A state that differs from another only where one detail is concerned. -/
structure SameElsewhere (x : Detail) (s s' : Indexing) : Prop where
  cursor : ∀ y : Detail, ¬(y.checkpointTable = x.checkpointTable ∧ y.network = x.network ∧
    y.detailKey = x.detailKey) → y.cursor s'.db = y.cursor s.db
  progress : ∀ y, y ≠ x → s'.progress y = s.progress y
  inFlight : ∀ y, y ≠ x → s'.inFlight y = s.inFlight y
  next : ∀ y, y ≠ x → s'.next y = s.next y
  delivered : ∀ y, y ≠ x → s'.delivered y = s.delivered y

theorem allCovered_of_sameElsewhere (hDistinct : DistinctCursors details)
    (hInv : AllCovered details s) {x : Detail} (hMem : x ∈ details) (hSame : SameElsewhere x s s')
    (hSelf : ∀ startBlock, x.startBlock = some startBlock → Covers s x startBlock →
      Covers s' x startBlock) : AllCovered details s' := by
  intro y hy startBlock hStart
  by_cases hEq : y = x
  · subst hEq
    exact hSelf startBlock hStart (hInv y hy startBlock hStart)
  · have hOther := hInv y hy startBlock hStart
    have hCursor := hSame.cursor y fun hKey =>
      hEq (hDistinct y hy x hMem hKey.1 hKey.2.1 hKey.2.2)
    refine ⟨fun lastSynced hHeld => ?_, fun toBlock hHeld => ?_, ?_, fun nextBlock hHeld => ?_⟩
    · rw [hSame.delivered y hEq]
      exact hOther.cursor lastSynced (hCursor ▸ hHeld)
    · rw [hSame.delivered y hEq]
      exact hOther.progress toBlock (hSame.progress y hEq ▸ hHeld)
    · rw [hSame.delivered y hEq, hSame.inFlight y hEq]
      exact hOther.inFlight
    · rw [hSame.delivered y hEq, hSame.inFlight y hEq]
      exact hOther.next nextBlock (hSame.next y hEq ▸ hHeld)

theorem start_covered (hDistinct : DistinctCursors details) (hInv : AllCovered details s)
    {x : Detail} (hMem : x ∈ details) {latestBlock : Nat} (h : s.start x latestBlock = some s') :
    AllCovered details s' := by
  unfold Indexing.start at h
  split at h
  · rename_i db startBlock blocks hNext hOk
    cases h
    obtain ⟨hSeed, hResume⟩ := getStartEndBlock_ok hOk
    refine allCovered_of_sameElsewhere hDistinct hInv hMem
      ⟨fun y hKey => ?_, fun _ _ => rfl, fun _ _ => rfl, fun y hne => ?_, fun _ _ => rfl⟩
      fun st hStart hCov => ?_
    · rw [Detail.cursor, cursor_ensureDetailCursor hSeed, if_neg hKey]
      rfl
    · exact Function.update_of_ne hne _ _
    · refine ⟨fun lastSynced hHeld hNonzero => ?_, hCov.progress, hCov.inFlight,
        fun nextBlock hHeld n hOwed hBelow => ?_⟩
      · have hCursor : x.cursor db = some ((x.cursor s.db).getD 0) := by
          rw [Detail.cursor, cursor_ensureDetailCursor hSeed, if_pos ⟨rfl, rfl, rfl⟩]
          rfl
        refine hCov.cursor lastSynced ?_ hNonzero
        rw [hCursor] at hHeld
        cases hSome : x.cursor s.db with
        | none =>
          rw [hSome] at hHeld
          cases hHeld
          exact absurd rfl hNonzero
        | some v =>
          rw [hSome] at hHeld
          exact hHeld
      · have hAt : startBlock = nextBlock := by
          simpa using hHeld
        left
        by_contra hMissing
        have hResumes := resumable_of_covered hInv x hMem latestBlock db (startBlock, blocks) hOk st
          hStart n hOwed (by simpa using hMissing)
        simp only at hResumes
        omega
  · cases h

theorem fetch_covered (hDistinct : DistinctCursors details) (hInv : AllCovered details s)
    {x : Detail} (hMem : x ∈ details) {toBlock : Nat} {rows : List EventRow}
    (h : s.fetch x toBlock rows = some s') : AllCovered details s' := by
  unfold Indexing.fetch at h
  split at h
  · cases h
  rename_i fromBlock hNext
  split at h
  · rename_i hRange
    cases h
    have hNextBlock : nextBlock toBlock rows ≤ toBlock + 1 :=
      nextBlock_le fun r hr => (hRange.2 r hr).2
    refine allCovered_of_sameElsewhere hDistinct hInv hMem
      ⟨fun _ _ => rfl, fun _ _ => rfl, fun y hne => ?_, fun y hne => ?_, fun _ _ => rfl⟩
      fun st hStart hCov => ⟨hCov.cursor, hCov.progress, ?_, fun nextAt hHeld n hOwed hBelow => ?_⟩
    · exact Function.update_of_ne hne _ _
    · exact Function.update_of_ne hne _ _
    · simp only [Function.update_self]
      refine hCov.inFlight.append fun n hOwed hTo => ?_
      by_cases hFrom : n < fromBlock
      · rcases hCov.next fromBlock hNext n hOwed hFrom with hIn | hFlight
        · exact .inl hIn
        · exact .inr (.inl hFlight)
      · right
        right
        have hLow : fromBlock ≤ n := Nat.not_lt.mp hFrom
        have hHigh : n ≤ toBlock := hTo
        simp [Batch.covers, hLow, hHigh]
    · simp only [Function.update_self, Option.some.injEq] at hHeld ⊢
      by_cases hFrom : n < fromBlock
      · rcases hCov.next fromBlock hNext n hOwed hFrom with hIn | ⟨b, hb, hCovers⟩
        · exact .inl hIn
        · exact .inr ⟨b, List.mem_append_left _ hb, hCovers⟩
      · refine .inr ⟨⟨fromBlock, toBlock, rows⟩, by simp, ?_⟩
        simp only [Batch.covers, Bool.and_eq_true, decide_eq_true_eq]
        omega
  · cases h

/-- The cursors after an insert: that of the detail may have moved to the end of the batch. -/
theorem deliver_cursor {db db' : Db} {x : Detail} {batch : Batch} {atomic : Bool}
    (h : (if atomic then
        insertBulkWithCursor db x.eventTable batch.rows x.checkpointTable x.network x.detailKey
          batch.toBlock
      else .ok (db.insertRows x.eventTable batch.rows)) = .ok db') :
    (∀ y : Detail, ¬(y.checkpointTable = x.checkpointTable ∧ y.network = x.network ∧
      y.detailKey = x.detailKey) → y.cursor db' = y.cursor db) ∧
    (x.cursor db' = x.cursor db ∨ x.cursor db' = (x.cursor db).map (max batch.toBlock)) := by
  cases atomic with
  | true =>
    rw [if_pos rfl] at h
    have hCursor := cursor_insertBulkWithCursor h
    refine ⟨fun y hKey => ?_, ?_⟩
    · rw [Detail.cursor, hCursor, if_neg fun hBoth => hKey ⟨hBoth.1, hBoth.2.1, hBoth.2.2.1⟩]
      rfl
    · rw [Detail.cursor, hCursor]
      split
      · exact .inr rfl
      · exact .inl rfl
  | false =>
    cases h
    exact ⟨fun _ _ => rfl, .inl rfl⟩

theorem deliver_covered (hDistinct : DistinctCursors details) (hInv : AllCovered details s)
    {x : Detail} (hMem : x ∈ details) {coalesced : Nat} {atomic : Bool}
    (h : s.deliver x coalesced atomic = some s') : AllCovered details s' := by
  unfold Indexing.deliver at h
  split at h
  · rename_i b waiting hIdle hFlight
    simp only at h
    split at h
    · cases h
    rename_i db hInserted
    cases h
    obtain ⟨hOthers, hOwn⟩ := deliver_cursor hInserted
    refine allCovered_of_sameElsewhere hDistinct hInv hMem
      ⟨hOthers, fun y hne => ?_, fun y hne => ?_, fun _ _ => rfl, fun y hne => ?_⟩
      fun st hStart hCov => ?_
    · exact Function.update_of_ne hne _ _
    · exact Function.update_of_ne hne _ _
    · exact Function.update_of_ne hne _ _
    · have hOrder := hCov.inFlight
      rw [hFlight, ← List.take_append_drop coalesced waiting, ← List.cons_append] at hOrder
      obtain ⟨hRest, hReady⟩ := hOrder.deliver
      obtain ⟨last, hLast, hTo⟩ := coalesce_toBlock b (waiting.take coalesced)
      have hBatch : ∀ n, st ≤ n → n ≤ (coalesce b (waiting.take coalesced)).toBlock →
          s.delivered x n = true ∨ (b :: waiting.take coalesced).any (Batch.covers · n) = true := by
        intro n hOwed hLe
        exact hReady last hLast n hOwed (hTo ▸ hLe)
      refine ⟨fun lastSynced hHeld hNonzero n hOwed hLe => ?_, fun toBlock hHeld n hOwed hLe => ?_,
        ?_, fun nextBlock hHeld n hOwed hBelow => ?_⟩
      · simp only [Function.update_self, Bool.or_eq_true]
        rcases hOwn with hKept | hMoved
        · exact .inl (hCov.cursor lastSynced (hKept ▸ hHeld) hNonzero n hOwed hLe)
        · rw [hMoved] at hHeld
          obtain ⟨v, hv, rfl⟩ := Option.map_eq_some_iff.mp hHeld
          by_cases hBatchEnd : n ≤ (coalesce b (waiting.take coalesced)).toBlock
          · exact hBatch n hOwed hBatchEnd
          · have hLeValue : n ≤ v := by omega
            exact .inl (hCov.cursor v hv (by omega) n hOwed hLeValue)
      · simp only [Function.update_self, Option.some.injEq, Bool.or_eq_true] at hHeld ⊢
        exact hBatch n hOwed (hHeld ▸ hLe)
      · simp only [Function.update_self, Bool.or_eq_true]
        exact hRest
      · simp only [Function.update_self, Bool.or_eq_true]
        rcases hCov.next nextBlock hHeld n hOwed hBelow with hIn | ⟨c, hc, hCovers⟩
        · exact .inl (.inl hIn)
        · rw [hFlight, ← List.take_append_drop coalesced waiting, ← List.cons_append,
            List.mem_append] at hc
          rcases hc with hFirst | hLater
          · exact .inl (.inr (List.any_eq_true.mpr ⟨c, hFirst, hCovers⟩))
          · exact .inr ⟨c, hLater, hCovers⟩
  · cases h

theorem advance_covered (hDistinct : DistinctCursors details) (hInv : AllCovered details s)
    {x : Detail} (hMem : x ∈ details) (h : s.advance x = some s') : AllCovered details s' := by
  unfold Indexing.advance at h
  split at h
  · cases h
  rename_i toBlock hProgress
  split at h
  · cases h
  rename_i db hAdvance
  cases h
  refine allCovered_of_sameElsewhere hDistinct hInv hMem
    ⟨fun y hKey => cursor_advanceDetailCursor_ne hAdvance hKey, fun y hne => ?_, fun _ _ => rfl,
      fun _ _ => rfl, fun _ _ => rfl⟩
    fun st hStart hCov => ⟨fun lastSynced hHeld hNonzero n hOwed hLe => ?_, fun v hHeld => ?_,
      hCov.inFlight, hCov.next⟩
  · exact Function.update_of_ne hne _ _
  · rw [Detail.cursor, cursor_advanceDetailCursor hAdvance] at hHeld
    obtain ⟨v, hv, rfl⟩ := Option.map_eq_some_iff.mp hHeld
    by_cases hEnd : n ≤ toBlock
    · exact hCov.progress toBlock hProgress n hOwed hEnd
    · have hLeValue : n ≤ v := by omega
      exact hCov.cursor v hv (by omega) n hOwed hLeValue
  · simp at hHeld

theorem crash_covered (hInv : AllCovered details s) : AllCovered details s.crash := by
  intro x hMem startBlock hStart
  have hCov := hInv x hMem startBlock hStart
  refine ⟨hCov.cursor, fun toBlock hHeld => ?_, trivial, fun nextBlock hHeld => ?_⟩
  · cases hHeld
  · cases hHeld

end Steps

/-! ### Rolling back -/

theorem exists_row_of_cursor {x : Detail} {db : Db} {lastSynced : Nat}
    (h : x.cursor db = some lastSynced) :
    ∃ r ∈ db.cursors x.checkpointTable, r.network = x.network ∧ r.lastSyncedBlock = lastSynced := by
  obtain ⟨r, hFind, hValue⟩ := Option.map_eq_some_iff.mp h
  have hIs := List.find?_some hFind
  simp only [CursorRow.isFor, Bool.and_eq_true, beq_iff_eq] at hIs
  exact ⟨r, List.mem_of_find?_eq_some hFind, hIs.1, hValue⟩

section Rollback

variable {details : List Detail} {s s' : Indexing} {network : String}
  {forkPoint detectionPoint : Nat} {correctedBlocks : List Header} {rewound : List Detail}

theorem mem_registered {x : Detail} :
    x ∈ registered details network ↔ x ∈ details ∧ x.network = network := by
  simp [registered]

/-- What a rollback does to the indexer: it commits its transaction, rewinds loops, and takes events
away. -/
theorem rollback_some
    (h : s.rollback details network forkPoint detectionPoint correctedBlocks rewound = some s') :
    Committed s.db s'.db ((registered details network).map Detail.eventTable) network forkPoint
        detectionPoint correctedBlocks ((registered details network).map Detail.checkpointTable) ∧
      s'.inFlight = s.inFlight ∧ s'.progress = s.progress ∧
      (∀ x, s'.next x = if x ∈ rewound ∧ x.network = network then (s.next x).map fun _ => forkPoint
        else s.next x) ∧
      ∀ x n, s'.delivered x n =
        (s.delivered x n && !(x.network == network && forkPoint ≤ n && n ≤ detectionPoint)) := by
  unfold Indexing.rollback at h
  simp only at h
  split at h
  · cases h
  rename_i db result hOk
  cases h
  exact ⟨reorgRollbackTransaction_ok hOk, rfl, rfl, fun _ => rfl, fun _ _ => rfl⟩

/-- The update of a rollback sets the minimum exactly when no cursor is behind the fork point. -/
theorem rewindsToMin_iff
    (h : s.rollback details network forkPoint detectionPoint correctedBlocks rewound = some s') :
    RewindsToMin details s (.rollback network forkPoint detectionPoint correctedBlocks rewound) s' ↔
      CursorsReachFork details s
        (.rollback network forkPoint detectionPoint correctedBlocks rewound) := by
  obtain ⟨hCommit, -⟩ := rollback_some h
  refine forall₂_congr fun x hMem => ?_
  have hListed : x.checkpointTable ∈ (registered details network).map Detail.checkpointTable :=
    List.mem_map_of_mem hMem
  rw [hCommit.cursors, rewindAll, if_pos hListed, rewindCursors, List.map_inj_left]
  refine forall₂_congr fun r _ => ?_
  by_cases hNetwork : r.network = network
  · simp only [hNetwork, if_true, forall_const, CursorRow.mk.injEq, true_and]
    omega
  · simp [hNetwork]

theorem rollback_covered (hInv : AllCovered details s)
    (hReach : CursorsReachFork details s
      (.rollback network forkPoint detectionPoint correctedBlocks rewound))
    (hLoops : LoopsRewind details s
      (.rollback network forkPoint detectionPoint correctedBlocks rewound))
    (hIdle : NothingInFlight details s
      (.rollback network forkPoint detectionPoint correctedBlocks rewound))
    (h : s.rollback details network forkPoint detectionPoint correctedBlocks rewound = some s') :
    AllCovered details s' := by
  obtain ⟨hCommit, hFlight, hProgress, hNext, hDelivered⟩ := rollback_some h
  intro x hMem st hStart
  have hCov := hInv x hMem st hStart
  have hCursor : x.cursor s'.db =
      if x.checkpointTable ∈ (registered details network).map Detail.checkpointTable ∧
        x.network = network then (x.cursor s.db).map fun _ => forkPoint - 1
      else x.cursor s.db := cursor_rewindAll hCommit.cursors _ _ _
  by_cases hNetwork : x.network = network
  · have hRegistered : x ∈ registered details network := mem_registered.mpr ⟨hMem, hNetwork⟩
    rw [if_pos ⟨List.mem_map_of_mem hRegistered, hNetwork⟩] at hCursor
    have hKept : ∀ n, n < forkPoint → (s'.delivered x n = true ↔ s.delivered x n = true) := by
      intro n hBelow
      rw [hDelivered, Bool.and_eq_true]
      simp [Nat.not_le.mpr hBelow]
    obtain ⟨hNoBatch, hNoAdvance⟩ := hIdle x hRegistered
    refine ⟨fun lastSynced hHeld hNonzero n hOwed hLe => ?_, fun toBlock hHeld n hOwed hLe => ?_,
      ?_, fun nextBlock hHeld n hOwed hBelow => ?_⟩
    · rw [hCursor] at hHeld
      obtain ⟨v, hv, rfl⟩ := Option.map_eq_some_iff.mp hHeld
      obtain ⟨r, hr, hrNetwork, hrValue⟩ := exists_row_of_cursor hv
      have hAhead := hReach x hRegistered r hr (hrNetwork.trans hNetwork)
      rw [hrValue] at hAhead
      exact (hKept n (by omega)).mpr (hCov.cursor v hv (by omega) n hOwed (by omega))
    · rw [hProgress] at hHeld
      have hLow := hNoAdvance toBlock hHeld
      exact (hKept n (by omega)).mpr (hCov.progress toBlock hHeld n hOwed hLe)
    · rw [hFlight]
      refine hCov.inFlight.mono fun b hb n hTo hIn => ?_
      have hLow := hNoBatch b hb
      exact (hKept n (by omega)).mpr hIn
    · rw [hFlight]
      rw [hNext] at hHeld
      -- The loop is at the fork point now, or it was not past it.
      obtain ⟨old, hOld, hCases⟩ : ∃ old, s.next x = some old ∧
          (x ∈ rewound ∧ nextBlock = forkPoint ∨ x ∉ rewound ∧ nextBlock = old) := by
        by_cases hRewound : x ∈ rewound
        · rw [if_pos ⟨hRewound, hNetwork⟩] at hHeld
          obtain ⟨old, hOld, rfl⟩ := Option.map_eq_some_iff.mp hHeld
          exact ⟨old, hOld, .inl ⟨hRewound, rfl⟩⟩
        · rw [if_neg fun hBoth => hRewound hBoth.1] at hHeld
          exact ⟨nextBlock, hHeld, .inr ⟨hRewound, rfl⟩⟩
      obtain ⟨hMust, hNoSkip⟩ := hLoops x hRegistered old hOld
      have hFork : n < forkPoint := by
        rcases hCases with ⟨-, rfl⟩ | ⟨hNot, rfl⟩
        · exact hBelow
        · by_contra hPast
          exact hNot (hMust (by omega))
      have hHad : s.delivered x n = true ∨ ∃ b ∈ s.inFlight x, b.covers n = true := by
        by_cases hOldNext : n < old
        · exact hCov.next old hOld n hOwed hOldNext
        · rcases hCases with ⟨hIn, -⟩ | ⟨-, rfl⟩
          · exact .inl (hNoSkip hIn n (Nat.not_lt.mp hOldNext) hFork)
          · exact absurd hBelow hOldNext
      exact hHad.imp_left (hKept n hFork).mpr
  · rw [if_neg fun hBoth => hNetwork hBoth.2] at hCursor
    have hSame : s'.delivered x = s.delivered x := by
      funext n
      rw [hDelivered]
      simp [hNetwork]
    have hNextSame : s'.next x = s.next x := by
      rw [hNext, if_neg fun hBoth => hNetwork hBoth.2]
    refine ⟨?_, ?_, ?_, ?_⟩
    · rw [hCursor, hSame]
      exact hCov.cursor
    · rw [hProgress, hSame]
      exact hCov.progress
    · rw [hFlight, hSame]
      exact hCov.inFlight
    · rw [hNextSame, hFlight, hSame]
      exact hCov.next

end Rollback

/-- A rollback that meets the condition: no cursor is behind the fork point, every fetch loop past it
is rewound, and nothing that reaches it is in flight. -/
def SafeRollback (details : List Detail) (s : Indexing) (act : Act) : Prop :=
  CursorsReachFork details s act ∧ LoopsRewind details s act ∧ NothingInFlight details s act

theorem step_covered {details : List Detail} {s s' : Indexing} {act : Act}
    (hDistinct : DistinctCursors details) (hInv : AllCovered details s)
    (hSafe : SafeRollback details s act) (h : s.step details act = some s') :
    AllCovered details s' := by
  cases act with
  | start x latestBlock =>
    obtain ⟨hMem, hStep⟩ := Option.ite_none_right_eq_some.mp h
    exact start_covered hDistinct hInv hMem hStep
  | fetch x toBlock rows =>
    obtain ⟨hMem, hStep⟩ := Option.ite_none_right_eq_some.mp h
    exact fetch_covered hDistinct hInv hMem hStep
  | deliver x coalesced atomic =>
    obtain ⟨hMem, hStep⟩ := Option.ite_none_right_eq_some.mp h
    exact deliver_covered hDistinct hInv hMem hStep
  | advance x =>
    obtain ⟨hMem, hStep⟩ := Option.ite_none_right_eq_some.mp h
    exact advance_covered hDistinct hInv hMem hStep
  | rollback network forkPoint detectionPoint correctedBlocks rewound =>
    exact rollback_covered hInv hSafe.1 hSafe.2.1 hSafe.2.2 h
  | crash =>
    cases h
    exact crash_covered hInv

theorem step_rewindsToMin_iff {details : List Detail} {s s' : Indexing} {act : Act}
    (h : s.step details act = some s') :
    RewindsToMin details s act s' ↔ CursorsReachFork details s act := by
  cases act with
  | rollback network forkPoint detectionPoint correctedBlocks rewound => exact rewindsToMin_iff h
  | _ => exact Iff.rfl

theorem stopped_covered {details : List Detail} {db : Db} (hEmpty : ∀ table, db.cursors table = []) :
    AllCovered details (.stopped db) := by
  intro x _ startBlock _
  refine ⟨fun lastSynced hHeld => ?_, fun toBlock hHeld => ?_, trivial, fun nextBlock hHeld => ?_⟩
  · have hNone : x.cursor (Indexing.stopped db).db = none := by
      simp [Detail.cursor, Db.cursor, Indexing.stopped, hEmpty]
    rw [hNone] at hHeld
    cases hHeld
  · cases hHeld
  · cases hHeld

/-- Transfers up to block 100 are in, blocks 99 and 100 are rolled back, and the process restarts. -/
def rollbackAtHead : List Act :=
  [.start transfers 100, .fetch transfers 100 [], .deliver transfers 0 true, .advance transfers,
    .rollback "ethereum" 99 100 [] [transfers], .crash, .start transfers 101]

/-- Transfers up to block 5 are in when blocks 99 and 100 are rolled back. -/
def rollbackDuringBackfill : List Act :=
  [.start transfers 100, .fetch transfers 5 [], .deliver transfers 0 true, .advance transfers,
    .rollback "ethereum" 99 100 [] []]

theorem distinctCursors_singleton (x : Detail) : DistinctCursors [x] := by
  intro y hy z hz _ _ _
  rw [List.mem_singleton.mp hy, List.mem_singleton.mp hz]

end Rindexer.Indexer
