import Mathlib.Logic.Function.Basic
import Mathlib.Order.Defs.LinearOrder
import Mathlib.Data.Nat.Basic
import Rindexer.Lib.Transition

/-! Callbacks and the cursor that follows them.  Each event stream hands its batches to a callback, one
at a time, and advances the durable cursor of its key after it; streams run side by side and may share
a key. -/

namespace Rindexer.Indexer

open Rindexer.Lib

structure LogId where
  blockNumber : Nat
  logIndex : Nat
deriving DecidableEq, Repr

structure LogBatch where
  logs : List LogId
  toBlock : Nat
deriving DecidableEq, Repr

/-- What decides who writes a cursor: the event, network and detail key of its row; whether the callback
commits it together with the rows; and whether it runs operations of custom tables. -/
structure CallbackConfig (κ : Type) where
  key : κ
  atomicPgCursor : Bool
  runTableOps : Bool

/-- The task of a batch, before its callback has completed and after. -/
structure CallbackTask where
  batch : LogBatch
  completed : Bool
deriving DecidableEq, Repr

/-- `undelivered` has the logs of the batches handed to a callback of the key, as long as no callback that
had them has completed. -/
structure Callbacks (ι κ : Type) where
  isRunning : Bool
  lastSyncedBlock : κ → Nat
  task : ι → Option CallbackTask
  undelivered : κ → List LogId

/-- Streams that start from certain cursors. -/
def Callbacks.start {ι κ : Type} (lastSyncedBlock : κ → Nat) : Callbacks ι κ where
  isRunning := true
  lastSyncedBlock := lastSyncedBlock
  task _ := none
  undelivered _ := []

inductive CallbackAct (ι : Type)
  | dispatch (stream : ι) (batch : LogBatch)
  | skip (stream : ι) (toBlock : Nat)
  | commitWithCursor (stream : ι)
  | complete (stream : ι)
  | fail (stream : ι)
  | checkpoint (stream : ι) (block : Nat)
  | advance (stream : ι)
  | advanceFails (stream : ι)
  | shutdown
  | restart

namespace Callbacks

variable {ι κ : Type} [DecidableEq ι] [DecidableEq κ]

/-- The monotone cursor update. -/
def advanceCursor (s : Callbacks ι κ) (key : κ) (toBlock : Nat) : κ → Nat :=
  Function.update s.lastSyncedBlock key (max (s.lastSyncedBlock key) toBlock)

def deliver (s : Callbacks ι κ) (key : κ) (batch : LogBatch) : κ → List LogId :=
  Function.update s.undelivered key ((s.undelivered key).filter fun l => !batch.logs.contains l)

/-- A batch gets the permit of its stream.  Without logs it has no callback to wait for.  When the indexer
shuts down, a callback is not called any more, and the cursor is left. -/
def dispatch (config : ι → CallbackConfig κ) (s : Callbacks ι κ) (stream : ι) (batch : LogBatch) :
    Option (Callbacks ι κ) :=
  if s.task stream = none then
    let key := (config stream).key
    let undelivered := Function.update s.undelivered key (s.undelivered key ++ batch.logs)
    if s.isRunning then
      some { s with
        task := Function.update s.task stream (some ⟨batch, batch.logs.isEmpty⟩)
        undelivered := undelivered }
    else some { s with undelivered := undelivered }
  else none

/-- The dependency loop passes a block whose bloom filter has none of the logs. -/
def skip (s : Callbacks ι κ) (stream : ι) (toBlock : Nat) : Option (Callbacks ι κ) :=
  if s.task stream = none then
    some { s with task := Function.update s.task stream (some ⟨⟨[], toBlock⟩, true⟩) }
  else none

/-- The transaction of a batch and its cursor. -/
def commitWithCursor (config : ι → CallbackConfig κ) (s : Callbacks ι κ) (stream : ι) :
    Option (Callbacks ι κ) :=
  match s.task stream with
  | some ⟨batch, false⟩ =>
    if (config stream).atomicPgCursor then
      some { s with
        lastSyncedBlock := s.advanceCursor (config stream).key batch.toBlock
        task := Function.update s.task stream (some ⟨batch, true⟩)
        undelivered := s.deliver (config stream).key batch }
    else none
  | _ => none

def complete (config : ι → CallbackConfig κ) (s : Callbacks ι κ) (stream : ι) :
    Option (Callbacks ι κ) :=
  match s.task stream with
  | some ⟨batch, false⟩ =>
    some { s with
      task := Function.update s.task stream (some ⟨batch, true⟩)
      undelivered := s.deliver (config stream).key batch }
  | _ => none

/-- A callback fails for good: it panics, what follows it fails, or the indexer shuts down. -/
def fail (s : Callbacks ι κ) (stream : ι) : Option (Callbacks ι κ) :=
  match s.task stream with
  | some ⟨_, false⟩ => some { s with task := Function.update s.task stream none }
  | _ => none

/-- The table operations see the shutdown and save a block that they have written. -/
def checkpoint (config : ι → CallbackConfig κ) (s : Callbacks ι κ) (stream : ι) (block : Nat) :
    Option (Callbacks ι κ) :=
  match s.task stream with
  | some ⟨batch, false⟩ =>
    if s.isRunning = false ∧ (config stream).atomicPgCursor = false ∧
        (config stream).runTableOps = true ∧ block ∈ batch.logs.map LogId.blockNumber then
      some { s with lastSyncedBlock := s.advanceCursor (config stream).key block }
    else none
  | _ => none

/-- The cursor update after a completed callback. -/
def advance (config : ι → CallbackConfig κ) (s : Callbacks ι κ) (stream : ι) :
    Option (Callbacks ι κ) :=
  match s.task stream with
  | some ⟨batch, true⟩ =>
    some { s with
      lastSyncedBlock := s.advanceCursor (config stream).key batch.toBlock
      task := Function.update s.task stream none }
  | _ => none

def advanceFails (s : Callbacks ι κ) (stream : ι) : Option (Callbacks ι κ) :=
  match s.task stream with
  | some ⟨_, true⟩ => some { s with task := Function.update s.task stream none }
  | _ => none

def step (config : ι → CallbackConfig κ) (s : Callbacks ι κ) :
    CallbackAct ι → Option (Callbacks ι κ)
  | .dispatch stream batch => s.dispatch config stream batch
  | .skip stream toBlock => s.skip stream toBlock
  | .commitWithCursor stream => s.commitWithCursor config stream
  | .complete stream => s.complete config stream
  | .fail stream => s.fail stream
  | .checkpoint stream block => s.checkpoint config stream block
  | .advance stream => s.advance config stream
  | .advanceFails stream => s.advanceFails stream
  | .shutdown => some { s with isRunning := false }
  | .restart => some { s with isRunning := true, task := fun _ => none }

/-- No cursor has passed an undelivered log. -/
def NotPassed (s : Callbacks ι κ) : Prop :=
  ∀ key, ∀ log ∈ s.undelivered key, s.lastSyncedBlock key < log.blockNumber

/-- A batch comes in its turn.  Its logs are above the cursor and above what the other streams of its key
are working on; and as long as the indexer runs, an undelivered log of its key is in it or above it.  A
block that is skipped is below the undelivered logs, and a shutdown saves no block from within a
callback. -/
def InTurn (config : ι → CallbackConfig κ) (s : Callbacks ι κ) : CallbackAct ι → Prop
  | .dispatch stream batch =>
    (∀ log ∈ batch.logs, s.lastSyncedBlock (config stream).key < log.blockNumber) ∧
      (∀ other t, (config other).key = (config stream).key → s.task other = some t →
        ∀ log ∈ batch.logs, t.batch.toBlock < log.blockNumber) ∧
      (s.isRunning = true → ∀ log ∈ s.undelivered (config stream).key,
        log ∈ batch.logs ∨ batch.toBlock < log.blockNumber)
  | .skip stream toBlock =>
    ∀ log ∈ s.undelivered (config stream).key, toBlock < log.blockNumber
  | .checkpoint _ _ => False
  | _ => True

/-- A task moves the cursor only past logs that are delivered, or are its own to deliver. -/
structure Ordered (config : ι → CallbackConfig κ) (s : Callbacks ι κ) : Prop where
  notPassed : s.NotPassed
  tasks : ∀ stream t, s.task stream = some t →
    ∀ log ∈ s.undelivered (config stream).key,
      t.completed = false ∧ log ∈ t.batch.logs ∨ t.batch.toBlock < log.blockNumber

omit [DecidableEq κ] in
theorem task_update {task : ι → Option CallbackTask} {stream other : ι}
    {new : Option CallbackTask} {t : CallbackTask}
    (h : Function.update task stream new other = some t) :
    other = stream ∧ new = some t ∨ task other = some t := by
  by_cases hSame : other = stream
  · subst hSame
    rw [Function.update_self] at h
    exact .inl ⟨rfl, h⟩
  · rw [Function.update_of_ne hSame] at h
    exact .inr h

omit [DecidableEq ι] in
theorem mem_deliver {s : Callbacks ι κ} {key k : κ} {batch : LogBatch} {log : LogId}
    (h : log ∈ s.deliver key batch k) : log ∈ s.undelivered k ∧ (k = key → log ∉ batch.logs) := by
  unfold deliver at h
  by_cases hKey : k = key
  · subst hKey
    rw [Function.update_self] at h
    obtain ⟨hMem, hNot⟩ := List.mem_filter.mp h
    exact ⟨hMem, fun _ => by simpa using hNot⟩
  · rw [Function.update_of_ne hKey] at h
    exact ⟨h, fun hSame => absurd hSame hKey⟩

omit [DecidableEq ι] in
theorem advanceCursor_lt {s : Callbacks ι κ} {key k : κ} {toBlock n : Nat}
    (h : s.lastSyncedBlock k < n) (hKey : k = key → toBlock < n) :
    s.advanceCursor key toBlock k < n := by
  unfold advanceCursor
  by_cases hSame : k = key
  · subst hSame
    rw [Function.update_self]
    exact Nat.max_lt.mpr ⟨h, hKey rfl⟩
  · rwa [Function.update_of_ne hSame]

variable {config : ι → CallbackConfig κ} {s s' : Callbacks ι κ}

theorem Ordered.dispatch {stream : ι} {batch : LogBatch} (h : s.Ordered config)
    (hTurn : InTurn config s (.dispatch stream batch))
    (hStep : s.dispatch config stream batch = some s') : s'.Ordered config := by
  obtain ⟨hAbove, hOthers, hBelow⟩ := hTurn
  have hMem : ∀ k, ∀ log ∈ Function.update s.undelivered (config stream).key
      (s.undelivered (config stream).key ++ batch.logs) k,
      log ∈ s.undelivered k ∨ k = (config stream).key ∧ log ∈ batch.logs := by
    intro k log hLog
    by_cases hKey : k = (config stream).key
    · subst hKey
      rw [Function.update_self] at hLog
      exact (List.mem_append.mp hLog).imp_right fun hNew => ⟨rfl, hNew⟩
    · rw [Function.update_of_ne hKey] at hLog
      exact .inl hLog
  have hNotPassed : ∀ k, ∀ log ∈ Function.update s.undelivered (config stream).key
      (s.undelivered (config stream).key ++ batch.logs) k, s.lastSyncedBlock k < log.blockNumber := by
    intro k log hLog
    rcases hMem k log hLog with hOld | ⟨rfl, hNew⟩
    · exact h.notPassed k log hOld
    · exact hAbove log hNew
  have hTasks : ∀ other t, s.task other = some t →
      ∀ log ∈ Function.update s.undelivered (config stream).key
        (s.undelivered (config stream).key ++ batch.logs) (config other).key,
        t.completed = false ∧ log ∈ t.batch.logs ∨ t.batch.toBlock < log.blockNumber := by
    intro other t hTask log hLog
    rcases hMem _ log hLog with hOld | ⟨hKey, hNew⟩
    · exact h.tasks other t hTask log hOld
    · exact .inr (hOthers other t hKey hTask log hNew)
  unfold Callbacks.dispatch at hStep
  split at hStep
  · split at hStep
    · rename_i hRunning
      cases hStep
      refine ⟨hNotPassed, fun other t hTask log hLog => ?_⟩
      rcases task_update hTask with ⟨rfl, hNewTask⟩ | hOldTask
      · cases hNewTask
        rcases hMem _ log hLog with hOld | ⟨-, hNew⟩
        · rcases hBelow hRunning log hOld with hIn | hAboveTo
          · exact .inl ⟨by simpa using List.ne_nil_of_mem hIn, hIn⟩
          · exact .inr hAboveTo
        · exact .inl ⟨by simpa using List.ne_nil_of_mem hNew, hNew⟩
      · exact hTasks other t hOldTask log hLog
    · cases hStep
      exact ⟨hNotPassed, hTasks⟩
  · cases hStep

/-- A callback delivers its batch, whether or not the cursor moves with it. -/
theorem Ordered.delivered {stream : ι} {batch : LogBatch} (h : s.Ordered config)
    (hTask : s.task stream = some ⟨batch, false⟩) {lastSyncedBlock : κ → Nat}
    (hCursor : lastSyncedBlock = s.lastSyncedBlock ∨
      lastSyncedBlock = s.advanceCursor (config stream).key batch.toBlock) :
    Ordered config { s with
      lastSyncedBlock := lastSyncedBlock
      task := Function.update s.task stream (some ⟨batch, true⟩)
      undelivered := s.deliver (config stream).key batch } := by
  have hAboveTo : ∀ log ∈ s.deliver (config stream).key batch (config stream).key,
      batch.toBlock < log.blockNumber := by
    intro log hLog
    obtain ⟨hOld, hNot⟩ := mem_deliver hLog
    rcases h.tasks stream _ hTask log hOld with ⟨-, hIn⟩ | hAboveTo
    · exact absurd hIn (hNot rfl)
    · exact hAboveTo
  constructor
  · intro k log hLog
    have hOld := h.notPassed k log (mem_deliver hLog).1
    rcases hCursor with rfl | rfl
    · exact hOld
    · refine advanceCursor_lt hOld ?_
      rintro rfl
      exact hAboveTo log hLog
  · intro other t hOther log hLog
    rcases task_update hOther with ⟨rfl, hNewTask⟩ | hOldTask
    · cases hNewTask
      exact .inr (hAboveTo log hLog)
    · exact h.tasks other t hOldTask log (mem_deliver hLog).1

omit [DecidableEq κ] in
/-- A task that ends leaves the others in order. -/
theorem Ordered.ended (h : s.Ordered config) (stream : ι) :
    Ordered config { s with task := Function.update s.task stream none } := by
  refine ⟨h.notPassed, fun other t hOther => ?_⟩
  rcases task_update hOther with ⟨-, hNone⟩ | hOldTask
  · cases hNone
  · exact h.tasks other t hOldTask

theorem Ordered.step {act : CallbackAct ι} (h : s.Ordered config) (hTurn : InTurn config s act)
    (hStep : step config s act = some s') : s'.Ordered config := by
  cases act with
  | dispatch stream batch => exact h.dispatch hTurn hStep
  | skip stream toBlock =>
    simp only [Callbacks.step, Callbacks.skip] at hStep
    split at hStep
    · cases hStep
      refine ⟨h.notPassed, fun other t hOther log hLog => ?_⟩
      rcases task_update hOther with ⟨rfl, hNewTask⟩ | hOldTask
      · cases hNewTask
        exact .inr (hTurn log hLog)
      · exact h.tasks other t hOldTask log hLog
    · cases hStep
  | commitWithCursor stream =>
    simp only [Callbacks.step, Callbacks.commitWithCursor] at hStep
    split at hStep
    · split at hStep
      · cases hStep
        exact h.delivered (by assumption) (.inr rfl)
      · cases hStep
    · cases hStep
  | complete stream =>
    simp only [Callbacks.step, Callbacks.complete] at hStep
    split at hStep
    · cases hStep
      exact h.delivered (by assumption) (.inl rfl)
    · cases hStep
  | fail stream =>
    simp only [Callbacks.step, Callbacks.fail] at hStep
    split at hStep
    · cases hStep
      exact h.ended stream
    · cases hStep
  | checkpoint stream block => exact hTurn.elim
  | advance stream =>
    simp only [Callbacks.step, Callbacks.advance] at hStep
    split at hStep
    · rename_i batch hTask
      cases hStep
      have hEnded := h.ended stream
      refine ⟨fun k log hLog => advanceCursor_lt (h.notPassed k log hLog) ?_, hEnded.tasks⟩
      rintro rfl
      rcases h.tasks stream _ hTask log hLog with ⟨hFalse, -⟩ | hAboveTo
      · cases hFalse
      · exact hAboveTo
    · cases hStep
  | advanceFails stream =>
    simp only [Callbacks.step, Callbacks.advanceFails] at hStep
    split at hStep
    · cases hStep
      exact h.ended stream
    · cases hStep
  | shutdown =>
    cases hStep
    exact ⟨h.notPassed, h.tasks⟩
  | restart =>
    cases hStep
    exact ⟨h.notPassed, fun _ _ hTask => (nomatch hTask)⟩

/-- In every run whose batches come in their turn and whose shutdowns save no block from within a
callback, no cursor passes an undelivered log. -/
theorem cursor_below_undelivered (config : ι → CallbackConfig κ) (lastSyncedBlock : κ → Nat)
    (acts : List (CallbackAct ι))
    (h : Meets (step config) (InTurn config) (start lastSyncedBlock) acts) :
    Always (step config) NotPassed (start lastSyncedBlock) acts := by
  have hStart : Ordered config (start (ι := ι) lastSyncedBlock) :=
    ⟨fun _ _ hLog => (nomatch hLog), fun _ _ hTask => (nomatch hTask)⟩
  exact (always_of_invariant (fun _ _ _ hI hCond hStep => hI.step hCond hStep) hStart h).mono
    fun _ hOrdered => hOrdered.notPassed

/-- A stream whose second batch fails, is fetched again and committed with its cursor. -/
theorem cursor_below_undelivered_retried :
    Always (step fun _ : Unit => (⟨(), true, false⟩ : CallbackConfig Unit)) NotPassed
      (start fun _ => 0)
      [.dispatch () ⟨[⟨5, 0⟩], 9⟩, .complete (), .advance (), .dispatch () ⟨[⟨12, 0⟩], 15⟩, .fail (),
        .dispatch () ⟨[⟨12, 0⟩], 20⟩, .commitWithCursor (), .advance (), .skip () 21, .shutdown,
        .advance ()] := by
  refine cursor_below_undelivered _ _ _ ?_
  refine .cons rfl ⟨by decide, fun _ _ _ hTask => (nomatch hTask), fun _ => by decide⟩ ?_
  refine .cons rfl trivial (.cons rfl trivial ?_)
  refine .cons rfl ⟨by decide, fun _ _ _ hTask => (nomatch hTask), fun _ => by decide⟩ ?_
  refine .cons rfl trivial ?_
  refine .cons rfl ⟨by decide, fun _ _ _ hTask => (nomatch hTask), fun _ => by decide⟩ ?_
  refine .cons rfl trivial (.cons rfl trivial ?_)
  refine .cons rfl (fun log hLog => (nomatch hLog)) ?_
  exact .cons rfl trivial (.cons rfl trivial trivial)

/-- A callback that stops in its table operations has saved the block of a log that it has not
delivered. -/
theorem checkpoint_passes_log :
    ¬Always (step fun _ : Unit => (⟨(), false, true⟩ : CallbackConfig Unit)) NotPassed
      (start fun _ => 0)
      [.dispatch () ⟨[⟨5, 0⟩], 9⟩, .shutdown, .checkpoint () 5, .fail ()] := by
  intro h
  have hLast := (((h.2 _ rfl).2 _ rfl).2 _ rfl).start
  exact absurd (hLast () ⟨5, 0⟩ (by decide)) (by decide)

end Callbacks

end Rindexer.Indexer
