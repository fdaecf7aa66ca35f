import Mathlib.Data.Nat.Basic
import Rindexer.Lib.OrderedMap

/-! The buffer that puts the batches of parallel workers back in the order of their sequence ids.
Batches of one id arrive in order, the last of them marked as final; those of different ids arrive in
any order. -/

namespace Rindexer.Indexer

open Rindexer.Lib

structure SequencedFetchBatch (α : Type) where
  sequenceId : Nat
  results : List α
  isFinal : Bool
deriving DecidableEq, Repr

structure PendingSlot (α : Type) where
  batches : List (SequencedFetchBatch α)
  finalized : Bool

structure ReorderBuffer (α : Type) where
  nextExpected : Nat
  pending : OrderedMap Nat (PendingSlot α)

namespace ReorderBuffer

variable {α : Type}

def new : ReorderBuffer α := ⟨0, ∅⟩

/-- The slots from the expected id on, as long as they are there and final.  Every round removes a
slot, so that there are no more rounds than slots. -/
def drain : Nat → ReorderBuffer α → ReorderBuffer α × List α
  | 0, buffer => (buffer, [])
  | rounds + 1, buffer =>
    match buffer.pending.get? buffer.nextExpected with
    | none => (buffer, [])
    | some slot =>
      let rest := buffer.pending.restrict (· ≠ buffer.nextExpected)
      let out := slot.batches.flatMap SequencedFetchBatch.results
      if slot.finalized then
        let drained := drain rounds ⟨buffer.nextExpected + 1, rest⟩
        (drained.1, out ++ drained.2)
      else (⟨buffer.nextExpected, rest⟩, out)

/-- Takes in a batch and releases the results that are next. -/
def accept (buffer : ReorderBuffer α) (batch : SequencedFetchBatch α) : ReorderBuffer α × List α :=
  if batch.sequenceId = buffer.nextExpected then
    if batch.isFinal then
      let drained := drain buffer.pending.size ⟨buffer.nextExpected + 1, buffer.pending⟩
      (drained.1, batch.results ++ drained.2)
    else (buffer, batch.results)
  else
    let slot := (buffer.pending.get? batch.sequenceId).getD ⟨[], false⟩
    (⟨buffer.nextExpected, buffer.pending.insert batch.sequenceId
      ⟨slot.batches ++ [batch], slot.finalized || batch.isFinal⟩⟩, [])

end ReorderBuffer

/-! ### What the buffer has released -/

section Streams

variable {α : Type}

/-- The batches of one id, in the order in which they arrived. -/
def streamOf (received : List (SequencedFetchBatch α)) (sequenceId : Nat) :
    List (SequencedFetchBatch α) :=
  received.filter fun b => b.sequenceId = sequenceId

def resultsOf (received : List (SequencedFetchBatch α)) (sequenceId : Nat) : List α :=
  (streamOf received sequenceId).flatMap SequencedFetchBatch.results

def finalizedIn (received : List (SequencedFetchBatch α)) (sequenceId : Nat) : Bool :=
  (streamOf received sequenceId).any SequencedFetchBatch.isFinal

/-- The slot of an id that is not released yet. -/
def slotOf (received : List (SequencedFetchBatch α)) (sequenceId : Nat) : Option (PendingSlot α) :=
  if streamOf received sequenceId = [] then none
  else some ⟨streamOf received sequenceId, finalizedIn received sequenceId⟩

variable {received : List (SequencedFetchBatch α)} {batch : SequencedFetchBatch α}

theorem streamOf_append (received received' : List (SequencedFetchBatch α)) (sequenceId : Nat) :
    streamOf (received ++ received') sequenceId =
      streamOf received sequenceId ++ streamOf received' sequenceId := List.filter_append _ _

theorem resultsOf_append (received received' : List (SequencedFetchBatch α)) (sequenceId : Nat) :
    resultsOf (received ++ received') sequenceId =
      resultsOf received sequenceId ++ resultsOf received' sequenceId := by
  rw [resultsOf, streamOf_append, List.flatMap_append]
  rfl

theorem finalizedIn_append (received received' : List (SequencedFetchBatch α)) (sequenceId : Nat) :
    finalizedIn (received ++ received') sequenceId =
      (finalizedIn received sequenceId || finalizedIn received' sequenceId) := by
  rw [finalizedIn, streamOf_append, List.any_append]
  rfl

theorem streamOf_singleton (batch : SequencedFetchBatch α) (sequenceId : Nat) :
    streamOf [batch] sequenceId = if batch.sequenceId = sequenceId then [batch] else [] := by
  unfold streamOf
  by_cases h : batch.sequenceId = sequenceId <;> simp [h]

theorem resultsOf_singleton (batch : SequencedFetchBatch α) (sequenceId : Nat) :
    resultsOf [batch] sequenceId =
      if batch.sequenceId = sequenceId then batch.results else [] := by
  rw [resultsOf, streamOf_singleton]
  split <;> simp

theorem finalizedIn_singleton (batch : SequencedFetchBatch α) (sequenceId : Nat) :
    finalizedIn [batch] sequenceId = (batch.sequenceId == sequenceId && batch.isFinal) := by
  rw [finalizedIn, streamOf_singleton]
  split <;> simp [*]

/-- What a buffer has released are the results of the ids before the expected one, which are final,
and what has arrived of the expected one; what has arrived of later ids is pending. -/
structure ReorderBuffer.Holds (received : List (SequencedFetchBatch α)) (buffer : ReorderBuffer α)
    (released : List α) : Prop where
  released : released = (List.range (buffer.nextExpected + 1)).flatMap (resultsOf received)
  before : ∀ i < buffer.nextExpected, finalizedIn received i = true
  current : finalizedIn received buffer.nextExpected = false
  pending : ∀ i, buffer.pending.get? i =
    if buffer.nextExpected < i then slotOf received i else none

theorem size_restrict_ne_lt {κ β : Type} [LinearOrder κ] {m : OrderedMap κ β} {k : κ} {v : β}
    (h : m.get? k = some v) : (m.restrict (· ≠ k)).size < m.size := by
  have hMem := OrderedMap.get?_eq_some_iff.mp h
  refine List.length_filter_lt_length_iff_exists.mpr ⟨(k, v), hMem, ?_⟩
  simp

/-- Nothing has arrived of an id without a slot. -/
theorem ReorderBuffer.holds_of_none {k : Nat} {pending : OrderedMap Nat (PendingSlot α)}
    (hBefore : ∀ i < k, finalizedIn received i = true)
    (hPending : ∀ i, pending.get? i = if k ≤ i then slotOf received i else none)
    (hNone : pending.get? k = none) :
    ReorderBuffer.Holds received ⟨k, pending⟩
      ((List.range k).flatMap (resultsOf received) ++ []) := by
  have hEmpty : streamOf received k = [] := by
    rw [hPending, if_pos le_rfl, slotOf] at hNone
    by_contra hSome
    rw [if_neg hSome] at hNone
    cases hNone
  have hResults : resultsOf received k = [] := by rw [resultsOf, hEmpty, List.flatMap_nil]
  refine ⟨?_, hBefore, ?_, fun i => ?_⟩
  · simp [List.range_succ, hResults]
  · rw [finalizedIn, hEmpty]
    rfl
  · rcases Nat.lt_trichotomy i k with hLess | rfl | hMore
    · rw [hPending, if_neg (by omega), if_neg (by simp only; omega)]
    · rw [hNone, if_neg (Nat.lt_irrefl _)]
    · rw [hPending, if_pos hMore.le, if_pos hMore]

/-- A drain that starts at an id before which all is released ends at the first id that is not
final. -/
theorem ReorderBuffer.drain_holds (received : List (SequencedFetchBatch α)) (rounds k : Nat) (pending : OrderedMap Nat (PendingSlot α))
    (hRounds : pending.size ≤ rounds) (hBefore : ∀ i < k, finalizedIn received i = true)
    (hPending : ∀ i, pending.get? i = if k ≤ i then slotOf received i else none) :
    ReorderBuffer.Holds received (drain rounds ⟨k, pending⟩).1
      ((List.range k).flatMap (resultsOf received) ++ (drain rounds ⟨k, pending⟩).2) := by
  induction rounds generalizing k pending with
  | zero =>
    have hNone : pending.get? k = none := by
      cases hGet : pending.get? k with
      | none => rfl
      | some slot =>
        have := size_restrict_ne_lt hGet
        omega
    exact holds_of_none hBefore hPending hNone
  | succ rounds ih =>
    cases hGet : pending.get? k with
    | none =>
      simp only [drain, hGet]
      exact holds_of_none hBefore hPending hGet
    | some slot =>
      have hSlot : slotOf received k = some slot := by
        rw [← hGet, hPending, if_pos le_rfl]
      obtain ⟨hBatches, hFinal⟩ : slot.batches = streamOf received k ∧
          slot.finalized = finalizedIn received k := by
        unfold slotOf at hSlot
        split at hSlot
        · cases hSlot
        · cases hSlot
          exact ⟨rfl, rfl⟩
      have hOut : slot.batches.flatMap SequencedFetchBatch.results = resultsOf received k := by
        rw [hBatches]
        rfl
      have hRest : ∀ i, (pending.restrict (· ≠ k)).get? i =
          if k < i then slotOf received i else none := by
        intro i
        rw [OrderedMap.get?_restrict, hPending]
        rcases Nat.lt_trichotomy i k with hLess | rfl | hMore
        · simp [hLess.ne, Nat.not_le.mpr hLess, Nat.not_lt.mpr hLess.le]
        · simp
        · simp [hMore.ne', hMore.le, hMore]
      simp only [drain, hGet, hFinal, hOut]
      cases hDone : finalizedIn received k with
      | true =>
        have hSize := size_restrict_ne_lt hGet
        have hNext := ih (k + 1) (pending.restrict (· ≠ k)) (by omega)
          (fun i hi => by
            rcases Nat.lt_or_eq_of_le (Nat.lt_succ_iff.mp hi) with hLess | rfl
            · exact hBefore i hLess
            · exact hDone)
          (fun i => hRest i)
        rw [List.range_succ, List.flatMap_append, List.flatMap_singleton, List.append_assoc]
          at hNext
        exact hNext
      | false =>
        refine ⟨?_, hBefore, hDone, hRest⟩
        simp [List.range_succ]

theorem ReorderBuffer.new_holds : ReorderBuffer.Holds ([] : List (SequencedFetchBatch α)) .new [] :=
  ⟨rfl, fun _ hi => absurd hi (Nat.not_lt_zero _), rfl, fun i => by
    rw [show slotOf ([] : List (SequencedFetchBatch α)) i = none from rfl, ite_self]
    rfl⟩

/-- A batch of an id that is not final yet keeps the buffer's account. -/
theorem ReorderBuffer.accept_holds {buffer : ReorderBuffer α} {released : List α}
    (h : ReorderBuffer.Holds received buffer released)
    (hOpen : finalizedIn received batch.sequenceId = false) :
    ReorderBuffer.Holds (received ++ [batch]) (buffer.accept batch).1
      (released ++ (buffer.accept batch).2) := by
  have hStream : ∀ i, i ≠ batch.sequenceId →
      streamOf (received ++ [batch]) i = streamOf received i := by
    intro i hi
    rw [streamOf_append, streamOf_singleton, if_neg (Ne.symm hi), List.append_nil]
  have hResults : ∀ i, i ≠ batch.sequenceId →
      resultsOf (received ++ [batch]) i = resultsOf received i := fun i hi => by
    rw [resultsOf, hStream i hi, resultsOf]
  have hFinalized : ∀ i, i ≠ batch.sequenceId →
      finalizedIn (received ++ [batch]) i = finalizedIn received i := fun i hi => by
    rw [finalizedIn, hStream i hi, finalizedIn]
  have hSlot : ∀ i, i ≠ batch.sequenceId →
      slotOf (received ++ [batch]) i = slotOf received i := fun i hi => by
    rw [slotOf, hStream i hi, hFinalized i hi, slotOf]
  have hNotBefore : buffer.nextExpected ≤ batch.sequenceId := by
    by_contra hLess
    have := h.before batch.sequenceId (by omega)
    rw [hOpen] at this
    cases this
  have hEarlier : (List.range buffer.nextExpected).flatMap (resultsOf (received ++ [batch])) =
      (List.range buffer.nextExpected).flatMap (resultsOf received) := by
    unfold List.flatMap
    congr 1
    refine List.map_congr_left fun i hi => hResults i ?_
    have hBelow := List.mem_range.mp hi
    omega
  have hReleased := h.released
  rw [List.range_succ, List.flatMap_append, List.flatMap_singleton] at hReleased
  unfold ReorderBuffer.accept
  by_cases hExpected : batch.sequenceId = buffer.nextExpected
  · have hNow : resultsOf (received ++ [batch]) buffer.nextExpected =
        resultsOf received buffer.nextExpected ++ batch.results := by
      rw [resultsOf_append, resultsOf_singleton, if_pos hExpected]
    have hKept : ∀ i, buffer.nextExpected < i →
        slotOf (received ++ [batch]) i = slotOf received i := fun i hi => hSlot i (by omega)
    rw [if_pos hExpected]
    cases hFinal : batch.isFinal with
    | false =>
      simp only [Bool.false_eq_true, if_false]
      refine ⟨?_, fun i hi => ?_, ?_, fun i => ?_⟩
      · rw [hReleased, List.range_succ, List.flatMap_append, List.flatMap_singleton, hEarlier, hNow,
          List.append_assoc]
      · rw [hFinalized i (by omega)]
        exact h.before i hi
      · rw [finalizedIn_append, finalizedIn_singleton, h.current, hFinal]
        simp
      · rw [h.pending]
        split
        · rw [hKept i ‹_›]
        · rfl
    | true =>
      simp only [if_true]
      have hDrained := drain_holds (received ++ [batch]) _ (buffer.nextExpected + 1) buffer.pending le_rfl
        (fun i hi => by
          rcases Nat.lt_or_eq_of_le (Nat.lt_succ_iff.mp hi) with hLess | rfl
          · rw [hFinalized i (by omega)]
            exact h.before i hLess
          · rw [finalizedIn_append, finalizedIn_singleton, hFinal, hExpected]
            simp)
        (fun i => by
          rw [h.pending]
          by_cases hLater : buffer.nextExpected < i
          · rw [if_pos hLater, if_pos (Nat.succ_le_of_lt hLater), hKept i hLater]
          · rw [if_neg hLater, if_neg (by omega)])
      rw [List.range_succ, List.flatMap_append, List.flatMap_singleton, hEarlier, hNow] at hDrained
      rw [hReleased]
      simpa only [List.append_assoc] using hDrained
  · have hLater : buffer.nextExpected < batch.sequenceId := by omega
    rw [if_neg hExpected]
    refine ⟨?_, fun i hi => ?_, ?_, fun i => ?_⟩
    · rw [List.append_nil, hReleased, List.range_succ, List.flatMap_append, List.flatMap_singleton,
        hEarlier, hResults _ (Ne.symm hExpected)]
    · rw [hFinalized i (by simp only at hi; omega)]
      exact h.before i hi
    · rw [hFinalized _ (Ne.symm hExpected)]
      exact h.current
    · rw [OrderedMap.get?_insert]
      by_cases hSame : i = batch.sequenceId
      · subst hSame
        have hArrived : streamOf (received ++ [batch]) batch.sequenceId =
            streamOf received batch.sequenceId ++ [batch] := by
          rw [streamOf_append, streamOf_singleton, if_pos rfl]
        have hMarked : finalizedIn (received ++ [batch]) batch.sequenceId = batch.isFinal := by
          rw [finalizedIn_append, finalizedIn_singleton, hOpen]
          simp
        have hNew : slotOf (received ++ [batch]) batch.sequenceId =
            some ⟨streamOf received batch.sequenceId ++ [batch], batch.isFinal⟩ := by
          rw [slotOf, hArrived, hMarked, if_neg (by simp)]
        rw [if_pos rfl, if_pos hLater, hNew, h.pending, if_pos hLater, slotOf]
        split
        · rename_i hNone
          simp [hNone]
        · simp [hOpen]
      · rw [if_neg hSame, h.pending]
        split
        · rw [hSlot i hSame]
        · rfl

/-! ### Final batches -/

/-- No batch of an id comes after its final one. -/
def FinalLast (batches : List (SequencedFetchBatch α)) : Prop :=
  batches.Pairwise fun a b => a.isFinal = true → b.sequenceId ≠ a.sequenceId

theorem finalizedIn_iff {batches : List (SequencedFetchBatch α)} {sequenceId : Nat} :
    finalizedIn batches sequenceId = true ↔
      ∃ b ∈ batches, b.sequenceId = sequenceId ∧ b.isFinal = true := by
  simp only [finalizedIn, streamOf, List.any_eq_true, List.mem_filter, decide_eq_true_eq]
  constructor
  · rintro ⟨b, ⟨hMem, hId⟩, hFinal⟩
    exact ⟨b, hMem, hId, hFinal⟩
  · rintro ⟨b, hMem, hId, hFinal⟩
    exact ⟨b, ⟨hMem, hId⟩, hFinal⟩

theorem FinalLast.append {batches : List (SequencedFetchBatch α)} (h : FinalLast batches)
    (hOpen : finalizedIn batches batch.sequenceId = false) : FinalLast (batches ++ [batch]) := by
  refine List.pairwise_append.mpr ⟨h, List.pairwise_singleton _ _, fun a ha b hb hFinal hSame => ?_⟩
  rw [List.mem_singleton.mp hb] at hSame
  have hDone := finalizedIn_iff.mpr ⟨a, ha, hSame.symm, hFinal⟩
  rw [hOpen] at hDone
  cases hDone

theorem FinalLast.head_open {waiting : List (SequencedFetchBatch α)}
    (h : FinalLast (received ++ batch :: waiting)) :
    finalizedIn received batch.sequenceId = false := by
  by_contra hDone
  obtain ⟨a, ha, hId, hFinal⟩ := finalizedIn_iff.mp (by simpa using hDone)
  have hApart := (List.pairwise_append.mp h).2.2 a ha batch List.mem_cons_self hFinal
  exact hApart hId.symm

/-- Nothing of a final id is still to arrive. -/
theorem FinalLast.arrived {waiting : List (SequencedFetchBatch α)}
    (h : FinalLast (received ++ waiting)) {sequenceId : Nat}
    (hDone : finalizedIn received sequenceId = true) : streamOf waiting sequenceId = [] := by
  obtain ⟨a, ha, hId, hFinal⟩ := finalizedIn_iff.mp hDone
  refine List.filter_eq_nil_iff.mpr fun b hb => ?_
  have hApart := (List.pairwise_append.mp h).2.2 a ha b hb hFinal
  rw [hId] at hApart
  simpa using hApart

/-! ### Interleavings -/

/-- Feeds batches into the buffer, one after the other. -/
def ReorderBuffer.acceptAll : ReorderBuffer α → List (SequencedFetchBatch α) → ReorderBuffer α × List α
  | buffer, [] => (buffer, [])
  | buffer, batch :: batches =>
    let accepted := buffer.accept batch
    let rest := accepted.1.acceptAll batches
    (rest.1, accepted.2 ++ rest.2)

/-- The batches of `n` sub-ranges in some order, of each sub-range any number of partial ones and then a
final one. -/
structure Interleaving (n : Nat) (batches : List (SequencedFetchBatch α)) : Prop where
  ids : ∀ b ∈ batches, b.sequenceId < n
  streams : ∀ i < n, ∃ partials last, streamOf batches i = partials ++ [last] ∧
    (∀ b ∈ partials, b.isFinal = false) ∧ last.isFinal = true

/-- The batches of a run of pushes keep the buffer's account. -/
theorem ReorderBuffer.acceptAll_holds {buffer : ReorderBuffer α} {released : List α}
    {batches : List (SequencedFetchBatch α)} (h : ReorderBuffer.Holds received buffer released)
    (hLast : FinalLast (received ++ batches)) :
    ReorderBuffer.Holds (received ++ batches) (buffer.acceptAll batches).1
      (released ++ (buffer.acceptAll batches).2) := by
  induction batches generalizing buffer released received with
  | nil =>
    rw [List.append_nil, acceptAll, List.append_nil]
    exact h
  | cons batch batches ih =>
    have hAccepted := accept_holds h (FinalLast.head_open hLast)
    have hSplit : received ++ batch :: batches = (received ++ [batch]) ++ batches := by
      rw [List.append_assoc, List.singleton_append]
    rw [hSplit] at hLast ⊢
    rw [acceptAll, ← List.append_assoc]
    exact ih hAccepted hLast

/-- In an interleaving no batch of a sub-range comes after its final one. -/
theorem Interleaving.finalLast {n : Nat} {batches : List (SequencedFetchBatch α)}
    (h : Interleaving n batches) : FinalLast batches := by
  refine List.pairwise_iff_forall_sublist.mpr fun {a b} hSublist hFinal hSame => ?_
  have ha : a ∈ batches := hSublist.subset List.mem_cons_self
  obtain ⟨partials, last, hStream, hPartial, -⟩ := h.streams a.sequenceId (h.ids a ha)
  have hBoth : [a, b].Sublist (partials ++ [last]) := by
    rw [← hStream, streamOf]
    have hKept : [a, b].filter (fun b => b.sequenceId = a.sequenceId) = [a, b] := by
      simp [hSame]
    rw [← hKept]
    exact hSublist.filter _
  -- the first of two batches is a partial one
  have hBefore : (partials ++ [last]).Pairwise fun x _ => x.isFinal = false := by
    refine List.pairwise_append.mpr ⟨?_, List.pairwise_singleton _ _, fun x hx _ _ => hPartial x hx⟩
    exact List.pairwise_of_forall_mem_list fun x hx _ _ => hPartial x hx
  have hOpen := List.pairwise_iff_forall_sublist.mp hBefore hBoth
  rw [hFinal] at hOpen
  exact nomatch hOpen

theorem FinalLast.initial {pre batches : List (SequencedFetchBatch α)} (h : FinalLast batches)
    (hPrefix : pre <+: batches) : FinalLast pre := List.Pairwise.sublist hPrefix.sublist h

/-- However the batches of the sub-ranges are interleaved, the buffer releases the results of the
sub-ranges in their order, each as its batches were pushed, and its cursor is always at the first
sub-range that has not finished. -/
theorem ReorderBuffer.releases_in_order {n : Nat} {batches : List (SequencedFetchBatch α)}
    (h : Interleaving n batches) :
    (new.acceptAll batches).2 = (List.range n).flatMap (resultsOf batches) ∧
      (new.acceptAll batches).1.nextExpected = n ∧
      ∀ pre, pre <+: batches →
        (∀ i < (new.acceptAll pre).1.nextExpected, finalizedIn pre i = true) ∧
          finalizedIn pre (new.acceptAll pre).1.nextExpected = false := by
  have hHolds : ∀ {pre : List (SequencedFetchBatch α)}, FinalLast pre →
      ReorderBuffer.Holds pre (new.acceptAll pre).1 (new.acceptAll pre).2 :=
    fun hLast => acceptAll_holds new_holds hLast
  have hAll := hHolds h.finalLast
  -- the sub-ranges that have finished at the end are all of them
  have hDone : ∀ i, finalizedIn batches i = true ↔ i < n := by
    intro i
    constructor
    · intro hFinal
      obtain ⟨b, hb, rfl, -⟩ := finalizedIn_iff.mp hFinal
      exact h.ids b hb
    · intro hi
      obtain ⟨partials, last, hStream, -, hFinal⟩ := h.streams i hi
      rw [finalizedIn, hStream, List.any_append, List.any_cons, hFinal, Bool.true_or, Bool.or_true]
  have hCursor : (new.acceptAll batches).1.nextExpected = n := by
    refine Nat.le_antisymm ?_ ?_
    · by_contra hMore
      have hBeyond := (hDone n).mp (hAll.before n (by omega))
      omega
    · by_contra hLess
      have hFinal := (hDone (new.acceptAll batches).1.nextExpected).mpr (by omega)
      rw [hAll.current] at hFinal
      exact nomatch hFinal
  have hNone : resultsOf batches n = [] := by
    have hStream : streamOf batches n = [] := by
      refine List.filter_eq_nil_iff.mpr fun b hb hSame => ?_
      have hId := h.ids b hb
      have hEq : b.sequenceId = n := by simpa using hSame
      omega
    rw [resultsOf, hStream, List.flatMap_nil]
  refine ⟨?_, hCursor, fun pre hPrefix => ?_⟩
  · rw [hAll.released, hCursor, List.range_succ, List.flatMap_append, List.flatMap_singleton, hNone,
      List.append_nil]
  · have hPre := hHolds (h.finalLast.initial hPrefix)
    exact ⟨hPre.before, hPre.current⟩

/-- Two sub-ranges, the second of which finishes first. -/
theorem ReorderBuffer.releases_in_order_two :
    (new.acceptAll [⟨1, [30], false⟩, ⟨0, [10], false⟩, ⟨1, [40], true⟩, ⟨0, [20], true⟩]).2 =
      [10, 20, 30, 40] := by
  refine (releases_in_order (n := 2) ⟨by decide, fun i hi => ?_⟩).1
  have hCases : i = 0 ∨ i = 1 := by omega
  rcases hCases with rfl | rfl
  · exact ⟨[⟨0, [10], false⟩], ⟨0, [20], true⟩, rfl, by decide, rfl⟩
  · exact ⟨[⟨1, [30], false⟩], ⟨1, [40], true⟩, rfl, by decide, rfl⟩

end Streams

end Rindexer.Indexer
