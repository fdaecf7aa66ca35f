import Rindexer.Tables.Accumulate
import Rindexer.Tables.Rows

/-! Sequence ids and the order of events: when the id of an event is below that of a later one, and
what the guards on sequence ids then keep. -/

namespace Rindexer.Tables

open Rindexer.Database Rindexer.Manifest

/-- The place of an event, within the documented limits. -/
structure EventPosition where
  blockNumber : Nat
  txIndex : Nat
  logIndex : Nat
  txIndex_lt : txIndex < 100000
  logIndex_lt : logIndex < 100000

namespace EventPosition

variable {p q : EventPosition}

def sequenceId (p : EventPosition) : Nat := computeSequenceId p.blockNumber p.txIndex p.logIndex

/-- Earlier by block, transaction index and log index. -/
def Before (p q : EventPosition) : Prop :=
  p.blockNumber < q.blockNumber ∨ p.blockNumber = q.blockNumber ∧
    (p.txIndex < q.txIndex ∨ p.txIndex = q.txIndex ∧ p.logIndex < q.logIndex)

theorem eq_of_indexes (hBlock : p.blockNumber = q.blockNumber) (hTx : p.txIndex = q.txIndex)
    (hLog : p.logIndex = q.logIndex) : p = q := by
  cases p
  cases q
  subst hBlock hTx hLog
  rfl

theorem before_or (p q : EventPosition) : p = q ∨ p.Before q ∨ q.Before p := by
  by_cases hSame : p.blockNumber = q.blockNumber ∧ p.txIndex = q.txIndex ∧ p.logIndex = q.logIndex
  · exact Or.inl (eq_of_indexes hSame.1 hSame.2.1 hSame.2.2)
  · right
    unfold Before
    omega

/-- The transaction index of the earlier event is below that of the later one, a block counting as
1000 transactions, or it is the same and its log index is below. -/
def Room (p q : EventPosition) : Prop :=
  p.txIndex < 1000 * (q.blockNumber - p.blockNumber) + q.txIndex ∨
    p.txIndex = 1000 * (q.blockNumber - p.blockNumber) + q.txIndex ∧ p.logIndex < q.logIndex

theorem sequenceId_lt_iff (h : p.Before q) : p.sequenceId < q.sequenceId ↔ p.Room q := by
  have hp := p.logIndex_lt
  have hq := q.logIndex_lt
  have hBlock : p.blockNumber ≤ q.blockNumber := by
    unfold Before at h
    omega
  obtain ⟨gap, hGap⟩ := Nat.exists_eq_add_of_le hBlock
  unfold sequenceId computeSequenceId Room
  rw [hGap, Nat.add_sub_cancel_left]
  omega

/-- The ids of two events are in the order of the events, and are the same only for the same event. -/
structure Ordered (p q : EventPosition) : Prop where
  before : p.Before q → p.sequenceId < q.sequenceId
  after : q.Before p → q.sequenceId < p.sequenceId
  same : p.sequenceId = q.sequenceId → p = q

theorem ordered_iff : p.Ordered q ↔ (p.Before q → p.Room q) ∧ (q.Before p → q.Room p) := by
  constructor
  · intro h
    exact ⟨fun hBefore => (sequenceId_lt_iff hBefore).mp (h.before hBefore),
      fun hAfter => (sequenceId_lt_iff hAfter).mp (h.after hAfter)⟩
  · rintro ⟨hBefore, hAfter⟩
    have hLess : p.Before q → p.sequenceId < q.sequenceId :=
      fun h => (sequenceId_lt_iff h).mpr (hBefore h)
    have hGreater : q.Before p → q.sequenceId < p.sequenceId :=
      fun h => (sequenceId_lt_iff h).mpr (hAfter h)
    refine ⟨hLess, hGreater, fun hSame => ?_⟩
    rcases before_or p q with hEq | h | h
    · exact hEq
    · exact absurd hSame (hLess h).ne
    · exact absurd hSame (hGreater h).ne'

/-- Events of one block are in order. -/
theorem room_of_same_block (hBlock : p.blockNumber = q.blockNumber) (h : p.Before q) : p.Room q := by
  unfold Before at h
  unfold Room
  omega

/-- An event is in order with every later one exactly if its transaction is among the first 1000 of its
block. -/
theorem below_later_iff (p : EventPosition) :
    (∀ q, p.Before q → p.sequenceId < q.sequenceId) ↔ p.txIndex < 1000 := by
  constructor
  · intro h
    have hNext := h ⟨p.blockNumber + 1, 0, 0, by decide, by decide⟩ (Or.inl (Nat.lt_succ_self _))
    simp only [sequenceId, computeSequenceId] at hNext
    omega
  · intro h q hBefore
    rw [sequenceId_lt_iff hBefore]
    by_cases hBlock : p.blockNumber = q.blockNumber
    · exact room_of_same_block hBlock hBefore
    · unfold Before at hBefore
      unfold Room
      omega

end EventPosition

namespace BatchOperation

variable {sv : Server} {b : BatchOperation}

/-- The row of a key after calls that have succeeded, whatever their order. -/
theorem executeCalls_accumulated (hType : b.type = .upsert) (hWhere : b.customWhere = none)
    {contents contents' : Contents} {calls : List (List TableRow)}
    (hNonNull : ∀ row ∈ calls.flatten, b.NonNull row) {key : List SqlValue}
    (hNew : contents.keyed key = none)
    (hRun : b.executeCalls sv calls contents = (contents', true)) :
    Accumulates sv b (b.ofKey calls.flatten key) (contents'.keyed key) := by
  rw [executeCalls_eq] at hRun
  have hFlatten := @flatten_statements b calls
  have hStart : Accumulates sv b (b.ofKey [] key) (contents.keyed key) := by
    rw [hNew]
    rfl
  rw [← hFlatten] at hNonNull
  have hEnd := executeBatches_accumulates hType hWhere hStart (by simp) hNonNull hRun
  rwa [List.nil_append, hFlatten] at hEnd

/-- A row comes from an event: it has the id of the event's place. -/
def FromEvents (position : TableRow → EventPosition) (rows : List TableRow) : Prop :=
  ∀ row ∈ rows, row.sequenceId = (position row).sequenceId

/-- Where the ids are in order, a set column keeps the value of the latest event. -/
theorem latest_kept (hType : b.type = .upsert) (hWhere : b.customWhere = none)
    {contents contents' : Contents} {calls : List (List TableRow)}
    (hNonNull : ∀ row ∈ calls.flatten, b.NonNull row) {position : TableRow → EventPosition}
    (hEvents : FromEvents position calls.flatten)
    (hOrdered : ∀ r ∈ calls.flatten, ∀ r' ∈ calls.flatten,
      (position r).Before (position r') → (position r).Room (position r'))
    {row : TableRow} (hRow : row ∈ calls.flatten) (hNew : contents.keyed (b.key row) = none)
    (hRun : b.executeCalls sv calls contents = (contents', true)) :
    ∃ new, contents'.keyed (b.key row) = some new ∧
      ∀ c ∈ b.columns, c.action = .set → c.columnType.isArray = false →
        ∃ last ∈ b.ofKey calls.flatten (b.key row), new.fields c.name = last.fields c.name ∧
          ∀ r ∈ b.ofKey calls.flatten (b.key row),
            position r = position last ∨ (position r).Before (position last) := by
  have hEnd := executeCalls_accumulated hType hWhere hNonNull hNew hRun
  have hMem : row ∈ b.ofKey calls.flatten (b.key row) :=
    List.mem_filter.mpr ⟨hRow, by simp⟩
  cases hValue : contents'.keyed (b.key row) with
  | none =>
    rw [hValue] at hEnd
    rw [show b.ofKey calls.flatten (b.key row) = [] from hEnd] at hMem
    cases hMem
  | some new =>
    rw [hValue] at hEnd
    have hAccumulated : Accumulated sv b (b.ofKey calls.flatten (b.key row)) new := hEnd
    refine ⟨new, rfl, fun c hc hSet hArray => ?_⟩
    obtain ⟨last, hLast, hId, hField⟩ := hAccumulated.set c hc hSet hArray
    refine ⟨last, hLast, hField, fun r hr => ?_⟩
    have hIn := (List.mem_filter.mp hr).1
    have hLastIn := (List.mem_filter.mp hLast).1
    have hLe := hAccumulated.sequence.2 r hr
    rw [← hId, hEvents r hIn, hEvents last hLastIn] at hLe
    rcases EventPosition.before_or (position r) (position last) with hEq | hBefore | hAfter
    · exact Or.inl hEq
    · exact Or.inr hBefore
    · have := (EventPosition.sequenceId_lt_iff hAfter).mpr (hOrdered last hLastIn r hIn hAfter)
      omega

end BatchOperation

/-- The last owner of a token. -/
def owners : BatchOperation where
  type := .upsert
  insertOnly := false
  keys := ["token"]
  columns := [⟨"token", .string, .whereColumn, none, false⟩, ⟨"owner", .string, .set, none, false⟩]
  customWhere := none
  nodup := by simp
  keys_where _ name := by simp [eq_comm]

def inBlock (blockNumber : Nat) : EventPosition := ⟨blockNumber, 0, 0, by decide, by decide⟩

/-- A transfer of the token in a block. -/
def transferTo (blockNumber : Nat) (owner : String) : TableRow where
  sequenceId := (inBlock blockNumber).sequenceId
  fields name := if name = "token" then .text "one" else .text owner

end Rindexer.Tables
