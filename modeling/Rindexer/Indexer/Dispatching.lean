import Mathlib.Data.List.Chain
import Mathlib.Data.List.ReduceOption
import Mathlib.Tactic.Common
import Mathlib.Tactic.NormNum

/-! The loop that takes the results of a fetch from their stream and hands them to the callback.
Results that are ready together are merged into one batch. -/

namespace Rindexer.Indexer.Dispatching

variable {L R : Type}

/-- The logs of a range of blocks, or the notice of a reorg. -/
structure FetchLogsResult (L R : Type) where
  logs : List L
  fromBlock : Nat
  toBlock : Nat
  reorg : Option R
deriving DecidableEq, Repr

/-- An item of the stream, `none` for an error, and whether it is there when the loop asks for it
without waiting. -/
structure Arrival (L R : Type) where
  item : Option (FetchLogsResult L R)
  ready : Bool
deriving DecidableEq, Repr

inductive Outcome
  | ended
  | failed
deriving DecidableEq, Repr

structure Run (L R : Type) where
  dispatched : List (FetchLogsResult L R)
  outcome : Outcome
deriving DecidableEq, Repr

def maxCoalesceLogs : Nat := 5000

/-- A ready result is added to what has been coalesced. -/
def merge (coalesced next : FetchLogsResult L R) : FetchLogsResult L R where
  logs := coalesced.logs ++ next.logs
  fromBlock := min coalesced.fromBlock next.fromBlock
  toBlock := max coalesced.toBlock next.toBlock
  reorg := none

section Loop

/- Whether the dispatch of the last of some batches succeeds. -/
variable (accepts : List (FetchLogsResult L R) → Bool)

def dispatchBatch (dispatched : List (FetchLogsResult L R)) (result : FetchLogsResult L R)
    (next : List (FetchLogsResult L R) → Run L R) : Run L R :=
  if accepts (dispatched ++ [result]) then next (dispatched ++ [result])
  else ⟨dispatched ++ [result], .failed⟩

/-- The loop takes an item that it has waited for. -/
def awaited (dispatched : List (FetchLogsResult L R)) (item : Option (FetchLogsResult L R))
    (next : List (FetchLogsResult L R) → Option (FetchLogsResult L R) → Run L R) : Run L R :=
  match item with
  | none => ⟨dispatched, .failed⟩
  | some result =>
    if result.reorg.isSome then dispatchBatch accepts dispatched result fun d => next d none
    else next dispatched (some result)

/-- The run over a stream.  With nothing coalesced the loop waits for the next item; with something it
drains what is ready.  The error after a drain is returned when the next item comes or the stream
ends. -/
def processEventLogs (dispatched : List (FetchLogsResult L R)) :
    Option (FetchLogsResult L R) → List (Arrival L R) → Run L R
  | none, [] => ⟨dispatched, .ended⟩
  | none, arrival :: rest =>
    awaited accepts dispatched arrival.item fun d c => processEventLogs d c rest
  | some coalesced, [] => dispatchBatch accepts dispatched coalesced fun d => ⟨d, .ended⟩
  | some coalesced, arrival :: rest =>
    if coalesced.logs.length < maxCoalesceLogs ∧ arrival.ready then
      match arrival.item with
      | none => dispatchBatch accepts dispatched coalesced fun d => ⟨d, .failed⟩
      | some result =>
        if result.reorg.isSome then
          dispatchBatch accepts dispatched coalesced fun d =>
            dispatchBatch accepts d result fun d => processEventLogs d none rest
        else processEventLogs dispatched (some (merge coalesced result)) rest
    else
      dispatchBatch accepts dispatched coalesced fun d =>
        awaited accepts d arrival.item fun d c => processEventLogs d c rest

end Loop

/-! ### What the batches are made of -/

/-- The results before the first error. -/
def received (stream : List (Arrival L R)) : List (FetchLogsResult L R) :=
  (stream.map Arrival.item).takeWhile Option.isSome |>.reduceOption

/-- A result with those that were ready after it. -/
def merged (first : FetchLogsResult L R) (rest : List (FetchLogsResult L R)) : FetchLogsResult L R :=
  rest.foldl merge first

/-- Batches made of results in order: each reorg by itself, and between reorgs results merged in
groups. -/
inductive Coalesced : List (FetchLogsResult L R) → List (FetchLogsResult L R) → Prop
  | nil : Coalesced [] []
  | reorg {r : FetchLogsResult L R} {results batches : List (FetchLogsResult L R)}
      (h : r.reorg.isSome = true) (hRest : Coalesced results batches) :
      Coalesced (r :: results) (r :: batches)
  | batch {first : FetchLogsResult L R} {group results batches : List (FetchLogsResult L R)}
      (h : ∀ r ∈ first :: group, r.reorg = none) (hRest : Coalesced results batches) :
      Coalesced (first :: group ++ results) (merged first group :: batches)

@[simp] theorem received_nil : received ([] : List (Arrival L R)) = [] := rfl

theorem received_error {arrival : Arrival L R} (h : arrival.item = none) (rest : List (Arrival L R)) :
    received (arrival :: rest) = [] := by
  simp [received, h, List.reduceOption]

theorem received_result {arrival : Arrival L R} {r : FetchLogsResult L R} (h : arrival.item = some r)
    (rest : List (Arrival L R)) : received (arrival :: rest) = r :: received rest := by
  simp [received, h, List.reduceOption]

theorem merge_merged (first : FetchLogsResult L R) (group : List (FetchLogsResult L R))
    (r : FetchLogsResult L R) : merge (merged first group) r = merged first (group ++ [r]) := by
  rw [merged, merged, List.foldl_append]
  rfl

/-- A run hands on the results up to some point, and all of them if no dispatch fails. -/
structure Delivers (accepts : List (FetchLogsResult L R) → Bool) (run : Run L R)
    (dispatched results : List (FetchLogsResult L R)) : Prop where
  batches : ∃ taken batches, run.dispatched = dispatched ++ batches ∧ Coalesced taken batches ∧
    taken <+: results ∧ ((∀ d, accepts d = true) → taken = results)

section Delivery

variable {accepts : List (FetchLogsResult L R) → Bool} {run : Run L R}
  {dispatched results : List (FetchLogsResult L R)}

theorem delivers_nothing (o : Outcome) : Delivers accepts ⟨dispatched, o⟩ dispatched [] :=
  ⟨[], [], (List.append_nil _).symm, .nil, List.prefix_refl _, fun _ => rfl⟩

/-- A reorg is handed on by itself. -/
theorem delivers_reorg {r : FetchLogsResult L R} {next : List (FetchLogsResult L R) → Run L R}
    (h : r.reorg.isSome = true)
    (hNext : Delivers accepts (next (dispatched ++ [r])) (dispatched ++ [r]) results) :
    Delivers accepts (dispatchBatch accepts dispatched r next) dispatched (r :: results) := by
  rw [dispatchBatch]
  split
  · obtain ⟨taken, batches, hRun, hCoalesced, hPrefix, hAll⟩ := hNext.batches
    refine ⟨r :: taken, r :: batches, ?_, .reorg h hCoalesced, ?_, fun hAccepts => ?_⟩
    · rw [hRun, List.append_assoc, List.singleton_append]
    · exact List.cons_prefix_cons.mpr ⟨rfl, hPrefix⟩
    · rw [hAll hAccepts]
  · refine ⟨[r], [r], rfl, .reorg h .nil, ?_, fun hAccepts => ?_⟩
    · exact List.cons_prefix_cons.mpr ⟨rfl, List.nil_prefix⟩
    · rename_i hFails
      exact absurd (hAccepts _) hFails

/-- What has been coalesced is handed on before the rest. -/
theorem delivers_batch {first : FetchLogsResult L R} {group : List (FetchLogsResult L R)}
    {next : List (FetchLogsResult L R) → Run L R} (h : ∀ r ∈ first :: group, r.reorg = none)
    (hNext : Delivers accepts (next (dispatched ++ [merged first group]))
      (dispatched ++ [merged first group]) results) :
    Delivers accepts (dispatchBatch accepts dispatched (merged first group) next) dispatched
      (first :: group ++ results) := by
  rw [dispatchBatch]
  split
  · obtain ⟨taken, batches, hRun, hCoalesced, hPrefix, hAll⟩ := hNext.batches
    refine ⟨first :: group ++ taken, merged first group :: batches, ?_, .batch h hCoalesced, ?_,
      fun hAccepts => ?_⟩
    · rw [hRun, List.append_assoc, List.singleton_append]
    · exact (List.prefix_append_right_inj _).mpr hPrefix
    · rw [hAll hAccepts]
  · have hOne : Coalesced (first :: group ++ []) [merged first group] := .batch h .nil
    rw [List.append_nil] at hOne
    refine ⟨first :: group, [merged first group], rfl, hOne, List.prefix_append _ _,
      fun hAccepts => ?_⟩
    rename_i hFails
    exact absurd (hAccepts _) hFails

end Delivery

/-- The induction is on the stream, with what has been coalesced as the merge of a group. -/
theorem processEventLogs_delivers (accepts : List (FetchLogsResult L R) → Bool)
    (stream : List (Arrival L R)) (dispatched : List (FetchLogsResult L R)) :
    Delivers accepts (processEventLogs accepts dispatched none stream) dispatched (received stream) ∧
      ∀ (first : FetchLogsResult L R) (group : List (FetchLogsResult L R)),
        (∀ r ∈ first :: group, r.reorg = none) →
          Delivers accepts (processEventLogs accepts dispatched (some (merged first group)) stream)
            dispatched (first :: group ++ received stream) := by
  induction stream generalizing dispatched with
  | nil =>
    refine ⟨delivers_nothing .ended, fun first group h => ?_⟩
    exact delivers_batch h (delivers_nothing .ended)
  | cons arrival rest ih =>
    -- an item that the loop waits for
    have hAwaited : ∀ d, Delivers accepts
        (awaited accepts d arrival.item fun d c => processEventLogs accepts d c rest) d
        (received (arrival :: rest)) := by
      intro d
      cases hItem : arrival.item with
      | none =>
        rw [received_error hItem]
        exact delivers_nothing .failed
      | some r =>
        rw [received_result hItem, awaited]
        split
        · next hReorg => exact delivers_reorg hReorg (ih _).1
        · next hReorg =>
          have hNone : r.reorg = none := by simpa using hReorg
          exact (ih d).2 r [] (by simpa using hNone)
    refine ⟨hAwaited dispatched, fun first group h => ?_⟩
    rw [processEventLogs]
    split
    · cases hItem : arrival.item with
      | none =>
        rw [received_error hItem]
        exact delivers_batch h (delivers_nothing .failed)
      | some r =>
        rw [received_result hItem]
        simp only
        split
        · next hReorg => exact delivers_batch h (delivers_reorg hReorg (ih _).1)
        · next hReorg =>
          have hNone : r.reorg = none := by simpa using hReorg
          have hGroup : ∀ x ∈ first :: (group ++ [r]), x.reorg = none := by
            intro x hx
            rcases List.mem_append.mp (show x ∈ (first :: group) ++ [r] from hx) with hx | hx
            · exact h x hx
            · rw [List.mem_singleton.mp hx, hNone]
          have hMerged := (ih dispatched).2 first (group ++ [r]) hGroup
          rw [← merge_merged] at hMerged
          simpa using hMerged
    · exact delivers_batch h (hAwaited _)

/-! ### What holds of the batches -/

/-- The logs are in the range. -/
def FetchLogsResult.Covers (blockNumber : L → Nat) (r : FetchLogsResult L R) : Prop :=
  ∀ l ∈ r.logs, r.fromBlock ≤ blockNumber l ∧ blockNumber l ≤ r.toBlock

/-- Between two reorgs the last blocks do not go down. -/
def Steady (results : List (FetchLogsResult L R)) : Prop :=
  results.IsChain fun a b => a.reorg = none → b.reorg = none → a.toBlock ≤ b.toBlock

theorem logs_merged (first : FetchLogsResult L R) (group : List (FetchLogsResult L R)) :
    (merged first group).logs = (first :: group).flatMap FetchLogsResult.logs := by
  induction group generalizing first with
  | nil => simp [merged]
  | cons r group ih =>
    rw [show merged first (r :: group) = merged (merge first r) group from rfl, ih]
    simp [merge]

theorem fromBlock_merged_le {first : FetchLogsResult L R} {group : List (FetchLogsResult L R)}
    {r : FetchLogsResult L R} (h : r ∈ first :: group) : (merged first group).fromBlock ≤ r.fromBlock := by
  induction group generalizing first r with
  | nil =>
    rw [List.mem_singleton.mp h]
    exact Nat.le_refl _
  | cons next group ih =>
    have hFirst := @ih (merge first next) (merge first next) List.mem_cons_self
    show (merged (merge first next) group).fromBlock ≤ _
    rw [merge] at hFirst ⊢
    rcases List.mem_cons.mp h with rfl | h
    · exact Nat.le_trans hFirst (Nat.min_le_left _ _)
    · rcases List.mem_cons.mp h with rfl | h
      · exact Nat.le_trans hFirst (Nat.min_le_right _ _)
      · exact ih (List.mem_cons_of_mem _ h)

theorem le_toBlock_merged {first : FetchLogsResult L R} {group : List (FetchLogsResult L R)}
    {r : FetchLogsResult L R} (h : r ∈ first :: group) : r.toBlock ≤ (merged first group).toBlock := by
  induction group generalizing first r with
  | nil =>
    rw [List.mem_singleton.mp h]
    exact Nat.le_refl _
  | cons next group ih =>
    have hFirst := @ih (merge first next) (merge first next) List.mem_cons_self
    show _ ≤ (merged (merge first next) group).toBlock
    rw [merge] at hFirst ⊢
    rcases List.mem_cons.mp h with rfl | h
    · exact Nat.le_trans (Nat.le_max_left _ _) hFirst
    · rcases List.mem_cons.mp h with rfl | h
      · exact Nat.le_trans (Nat.le_max_right _ _) hFirst
      · exact ih (List.mem_cons_of_mem _ h)

theorem toBlock_merged_le {first : FetchLogsResult L R} {group : List (FetchLogsResult L R)} {n : Nat}
    (h : ∀ r ∈ first :: group, r.toBlock ≤ n) : (merged first group).toBlock ≤ n := by
  induction group generalizing first with
  | nil => exact h first List.mem_cons_self
  | cons next group ih =>
    refine @ih (merge first next) fun r hr => ?_
    rcases List.mem_cons.mp hr with rfl | hr
    · exact Nat.max_le.mpr ⟨h first (by simp), h next (by simp)⟩
    · exact h r (by simp [hr])

theorem reorg_merged {first : FetchLogsResult L R} {group : List (FetchLogsResult L R)}
    (h : first.reorg = none) : (merged first group).reorg = none := by
  induction group generalizing first with
  | nil => exact h
  | cons next group ih => exact @ih (merge first next) rfl

namespace Coalesced

variable {results batches : List (FetchLogsResult L R)}

theorem logs (h : Coalesced results batches) :
    batches.flatMap FetchLogsResult.logs = results.flatMap FetchLogsResult.logs := by
  induction h with
  | nil => rfl
  | reorg h hRest ih => rw [List.flatMap_cons, List.flatMap_cons, ih]
  | batch h hRest ih => rw [List.flatMap_cons, List.flatMap_append, ih, logs_merged]

theorem covers (h : Coalesced results batches) {blockNumber : L → Nat}
    (hResults : ∀ r ∈ results, r.Covers blockNumber) : ∀ b ∈ batches, b.Covers blockNumber := by
  induction h with
  | nil => simp
  | @reorg r results batches h hRest ih =>
    intro b hb
    rcases List.mem_cons.mp hb with rfl | hb
    · exact hResults b List.mem_cons_self
    · exact ih (fun r hr => hResults r (List.mem_cons_of_mem _ hr)) b hb
  | @batch first group results batches h hRest ih =>
    intro b hb
    rcases List.mem_cons.mp hb with rfl | hb
    · intro l hl
      rw [logs_merged] at hl
      obtain ⟨r, hr, hl⟩ := List.mem_flatMap.mp hl
      have hRange := hResults r (List.mem_append_left _ hr) l hl
      exact ⟨Nat.le_trans (fromBlock_merged_le hr) hRange.1,
        Nat.le_trans hRange.2 (le_toBlock_merged hr)⟩
    · exact ih (fun r hr => hResults r (List.mem_append_right _ hr)) b hb

/-- The first batch is about the first result. -/
theorem head (h : Coalesced results batches) {b : FetchLogsResult L R} (hb : b ∈ batches.head?) :
    ∃ r ∈ results.head?, r.reorg = b.reorg ∧ r.toBlock ≤ b.toBlock := by
  cases h with
  | nil => cases hb
  | @reorg r results batches h hRest =>
    cases hb
    exact ⟨_, rfl, rfl, Nat.le_refl _⟩
  | @batch first group results batches h hRest =>
    cases hb
    have hNone := h first List.mem_cons_self
    exact ⟨first, rfl, hNone.trans (reorg_merged hNone).symm, le_toBlock_merged List.mem_cons_self⟩

/-- The results of a group end no later than a result that follows them. -/
theorem le_next {first r : FetchLogsResult L R} {group rest : List (FetchLogsResult L R)}
    (hSteady : Steady (first :: group ++ r :: rest)) (h : ∀ x ∈ first :: group, x.reorg = none)
    (hr : r.reorg = none) : ∀ x ∈ first :: group, x.toBlock ≤ r.toBlock := by
  induction group generalizing first with
  | nil =>
    intro x hx
    rw [List.mem_singleton.mp hx]
    exact (List.isChain_cons_cons.mp hSteady).1 (h first List.mem_cons_self) hr
  | cons next group ih =>
    obtain ⟨hFirst, hTail⟩ := List.isChain_cons_cons.mp hSteady
    have hRest := ih hTail fun x hx => h x (List.mem_cons_of_mem _ hx)
    intro x hx
    rcases List.mem_cons.mp hx with rfl | hx
    · exact Nat.le_trans (hFirst (h _ List.mem_cons_self) (h next (by simp)))
        (hRest next List.mem_cons_self)
    · exact hRest x hx

theorem steady (h : Coalesced results batches) (hSteady : Steady results) : Steady batches := by
  induction h with
  | nil => exact hSteady
  | @reorg r results batches h hRest ih =>
    refine List.isChain_cons.mpr ⟨fun b _ hNone => ?_, ih (List.isChain_cons.mp hSteady).2⟩
    rw [hNone] at h
    cases h
  | @batch first group results batches h hRest ih =>
    refine List.isChain_cons.mpr ⟨fun b hb _ hNone => ?_, ih hSteady.right_of_append⟩
    obtain ⟨r, hr, hReorg, hLe⟩ := hRest.head hb
    cases results with
    | nil => cases hr
    | cons r' results =>
      cases hr
      exact toBlock_merged_le fun x hx =>
        Nat.le_trans (le_next hSteady h (hReorg.trans hNone) x hx) hLe

/-- A reorg is a batch by itself, and what comes before it is in the batches before it. -/
theorem split_reorg (h : Coalesced results batches) {before after : List (FetchLogsResult L R)}
    {r : FetchLogsResult L R} (hResults : results = before ++ r :: after) (hReorg : r.reorg.isSome = true) :
    ∃ batchesBefore batchesAfter, batches = batchesBefore ++ r :: batchesAfter ∧
      Coalesced before batchesBefore ∧ Coalesced after batchesAfter := by
  induction h generalizing before with
  | nil => simp at hResults
  | @reorg r' results batches h hRest ih =>
    cases before with
    | nil =>
      obtain ⟨rfl, rfl⟩ := List.cons.inj hResults
      exact ⟨[], batches, rfl, .nil, hRest⟩
    | cons x before =>
      obtain ⟨rfl, hTail⟩ := List.cons.inj hResults
      obtain ⟨b, b', rfl, hBefore, hAfter⟩ := ih hTail
      exact ⟨r' :: b, b', rfl, .reorg h hBefore, hAfter⟩
  | @batch first group results batches h hRest ih =>
    rcases List.append_eq_append_iff.mp hResults with ⟨t, rfl, hTail⟩ | ⟨t, hGroup, hTail⟩
    · obtain ⟨b, b', rfl, hBefore, hAfter⟩ := ih hTail
      exact ⟨merged first group :: b, b', rfl, .batch h hBefore, hAfter⟩
    · cases t with
      | nil =>
        rw [List.append_nil] at hGroup
        obtain ⟨b, b', rfl, hBefore, hAfter⟩ := @ih [] hTail.symm
        refine ⟨merged first group :: b, b', rfl, ?_, hAfter⟩
        have := Coalesced.batch h hBefore
        rwa [List.append_nil, hGroup] at this
      | cons x t =>
        obtain ⟨rfl, -⟩ := List.cons.inj hTail
        have hNone := h r (by rw [hGroup]; simp)
        rw [hNone] at hReorg
        cases hReorg

end Coalesced

/-- A fetch of the blocks up to 1000 and, after errors, one of the blocks from 11 to 511. -/
def shrunkFetches : List (Arrival Unit Unit) :=
  [⟨some ⟨[], 0, 1000, none⟩, false⟩, ⟨some ⟨[], 11, 511, none⟩, false⟩]

end Rindexer.Indexer.Dispatching
