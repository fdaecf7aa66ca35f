import Mathlib.Data.List.Basic
import Mathlib.Tactic.Ring
import Rindexer.Lib.Transition

/-! The historical sync of a cron entry: batches of scheduled blocks, their rows, and the cursor that is
saved after each batch, over shutdowns and restarts. -/

namespace Rindexer.Indexer.Cron

open Rindexer.Lib

/-- An operation, with the columns of its where clause and of its set list. -/
structure CronOperation where
  name : String
  columns : List String
deriving DecidableEq, Repr

structure CronTask (Address : Type) where
  startBlock : Nat
  endBlock : Option Nat
  blockInterval : Nat
  /-- The addresses, with the blocks in which they were created. -/
  addresses : List (Address × Nat)
  operations : List CronOperation

/-- An operation that was applied for an address at a block. -/
structure Applied (Address : Type) where
  block : Nat
  address : Address
  operation : CronOperation
deriving DecidableEq

/-- What the surroundings do during a batch. -/
structure BatchEnv (Address : Type) where
  running : Bool
  batchSize : Nat
  provider : Bool
  /-- A shutdown is seen while the calls are awaited. -/
  callsInterrupted : Bool
  /-- Whether the value of a column is there. -/
  resolves : Nat → Address → CronOperation → String → Bool
  /-- The blocks whose rows are built before a shutdown is seen. -/
  built : Nat
  /-- The rows are written to every database. -/
  written : Bool
  cursorSaved : Bool

section Sync

variable {Address : Type}

/-- The saved cursor, 0 when there is none, and the sync that is going on: the next block and the end.
No code reads `applied` and `complete`: what was applied so far, and whether the batches of this sync have
applied all that they should. -/
structure CronSync (Address : Type) where
  cursor : Nat
  sync : Option (Nat × Nat)
  shutdown : Bool
  applied : List (Applied Address)
  complete : Bool

inductive CronAct (Address : Type)
  /-- The sync starts: whether the cursor can be read, and the latest block. -/
  | begin (readable : Bool) (latest : Option Nat)
  | batch (env : BatchEnv Address)
  /-- The sync ends, or the process dies, and may be started again. -/
  | stop

/-- `block += block_interval`. -/
def CronTask.next (task : CronTask Address) (block : Nat) : Nat :=
  (block + task.blockInterval) % 2 ^ 64

/-- The blocks of a batch. -/
def CronTask.batchBlocks (task : CronTask Address) (endBlock : Nat) : Nat → Nat → List Nat
  | 0, _ => []
  | size + 1, block =>
    if block ≤ endBlock then block :: task.batchBlocks endBlock size (task.next block) else []

/-- The operations for which a block has rows: those of the addresses that exist by then. -/
def CronTask.due (task : CronTask Address) (block : Nat) : List (Applied Address) :=
  (task.addresses.filter fun a => a.2 ≤ block).flatMap fun a =>
    task.operations.map fun operation => ⟨block, a.1, operation⟩

/-- A row without columns, or with a column missing, is skipped. -/
def BatchEnv.hasRow (env : BatchEnv Address) (x : Applied Address) : Bool :=
  x.operation.columns ≠ [] && x.operation.columns.all (env.resolves x.block x.address x.operation)

def CronTask.rows (task : CronTask Address) (env : BatchEnv Address) (blocks : List Nat) :
    List (Applied Address) :=
  ((blocks.take env.built).flatMap task.due).filter env.hasRow

/-- `execute_cron_operations_batch`: the last block whose rows were built, and what was applied.  All rows
are written with the first operation. -/
def CronTask.executeBatch (task : CronTask Address) (env : BatchEnv Address) (blocks : List Nat) :
    Except String (Option Nat × List (Applied Address)) :=
  if blocks = [] ∨ task.addresses = [] then .ok (none, [])
  else if !env.provider then .error "No provider"
  else if env.callsInterrupted then .ok (none, [])
  else
    let lastSuccessfulBlock := (blocks.take env.built).getLast?
    let allRows := task.rows env blocks
    match task.operations with
    | [] => .ok (lastSuccessfulBlock, [])
    | operation :: _ =>
      if allRows = [] then .ok (lastSuccessfulBlock, [])
      else if env.written then
        .ok (lastSuccessfulBlock, allRows.map fun x => { x with operation := operation })
      else .error "write failed"

namespace CronSync

def start : CronSync Address := ⟨0, none, false, [], true⟩

/-- The databases keep the cursor from going back, or take the new one. -/
def saveCursor (monotonic : Bool) (cursor block : Nat) : Nat :=
  if monotonic then max cursor block else block

def begin (task : CronTask Address) (s : CronSync Address) (readable : Bool) (latest : Option Nat) :
    Option (CronSync Address) :=
  if s.sync ≠ none ∨ task.addresses = [] then none
  else
    let endBlock := task.endBlock.getD (latest.getD task.startBlock)
    let currentBlock :=
      if s.cursor ≠ 0 ∧ readable then task.next s.cursor else task.startBlock
    if endBlock < currentBlock then none
    else some { s with sync := some (currentBlock, endBlock), shutdown := false, complete := true }

/-- Whether a batch applies all that is due in its blocks. -/
def appliesAll [DecidableEq Address] (task : CronTask Address) (blocks : List Nat)
    (applied : List (Applied Address)) : Bool :=
  (blocks.flatMap task.due).all fun x => x ∈ applied

/-- A batch of the loop.  An error is logged, and the loop goes on with the next blocks. -/
def batch [DecidableEq Address] (task : CronTask Address) (monotonic : Bool) (s : CronSync Address)
    (env : BatchEnv Address) : Option (CronSync Address) :=
  match s.sync with
  | none => none
  | some (currentBlock, endBlock) =>
    if endBlock < currentBlock then some { s with sync := none }
    else if !env.running || s.shutdown then some { s with sync := none }
    else
      let blocks := task.batchBlocks endBlock env.batchSize currentBlock
      match blocks.getLast? with
      | none => some { s with sync := none }
      | some batchEnd =>
        let s' := { s with
          sync := some (task.next batchEnd, endBlock)
          shutdown := env.callsInterrupted || decide (env.built < blocks.length) }
        match task.executeBatch env blocks with
        | .error _ => some { s' with complete := false }
        | .ok (lastBlock, applied) => some { s' with
            cursor := match lastBlock with
              | some b => if env.cursorSaved then saveCursor monotonic s.cursor b else s.cursor
              | none => s.cursor
            applied := s.applied ++ applied
            complete := s.complete && appliesAll task blocks (s.applied ++ applied) }

def step [DecidableEq Address] (task : CronTask Address) (monotonic : Bool) (s : CronSync Address) :
    CronAct Address → Option (CronSync Address)
  | .begin readable latest => s.begin task readable latest
  | .batch env => s.batch task monotonic env
  | .stop => some { s with sync := none }

/-- The loop of `run_historical_sync`, for a number of batches at most. -/
def run [DecidableEq Address] (task : CronTask Address) (monotonic : Bool) :
    Nat → (Nat → BatchEnv Address) → CronSync Address → Option (CronSync Address)
  | 0, _, s => if s.sync = none then some s else none
  | fuel + 1, env, s =>
    if s.sync = none then some s
    else (s.batch task monotonic (env 0)).bind (run task monotonic fuel fun i => env (i + 1))

end CronSync

/-! ### What is promised -/

/-- The scheduled blocks up to the saved cursor are done: every operation of every address that existed
by then has been applied. -/
def CursorCovered (task : CronTask Address) (s : CronSync Address) : Prop :=
  s.cursor ≠ 0 → ∀ k, task.startBlock + k * task.blockInterval ≤ s.cursor →
    ∀ x ∈ task.due (task.startBlock + k * task.blockInterval), x ∈ s.applied

/-- The sync ends, whatever the surroundings do. -/
def Terminates [DecidableEq Address] (task : CronTask Address) (monotonic : Bool)
    (s : CronSync Address) : Prop :=
  ∀ env, ∃ fuel, (s.run task monotonic fuel env).isSome

/-- The interval is positive, and all the operations are one, which has columns: the first is the one that
writes the rows. -/
structure CronTask.InOrder (task : CronTask Address) : Prop where
  interval : 0 < task.blockInterval
  operations : ∃ operation : CronOperation, operation.columns ≠ [] ∧
    ∀ o ∈ task.operations, o = operation

/-- A sync that starts has blocks of 64 bits; and a batch whose cursor is saved finds all the columns of
its rows, after batches of the same sync that have left nothing out. -/
def CoversSchedule (task : CronTask Address) (s : CronSync Address) : CronAct Address → Prop
  | .begin _ latest => task.endBlock.getD (latest.getD task.startBlock) + task.blockInterval < 2 ^ 64 ∧
      s.cursor + task.blockInterval < 2 ^ 64
  | .batch env => ∀ currentBlock endBlock, s.sync = some (currentBlock, endBlock) →
      let blocks := task.batchBlocks endBlock env.batchSize currentBlock
      env.cursorSaved = true → (∃ b applied, task.executeBatch env blocks = .ok (some b, applied)) →
        s.complete = true ∧ ∀ x ∈ (blocks.take env.built).flatMap task.due, env.hasRow x = true
  | .stop => True

/-! ### Batches -/

section Batches

variable {task : CronTask Address} {endBlock : Nat}

/-- The blocks of a batch follow the schedule. -/
theorem batchBlocks_eq (hFits : endBlock + task.blockInterval < 2 ^ 64) (size block : Nat) :
    ∃ n, task.batchBlocks endBlock size block =
        (List.range n).map (fun j => block + j * task.blockInterval) ∧
      ∀ j < n, block + j * task.blockInterval ≤ endBlock := by
  induction size generalizing block with
  | zero => exact ⟨0, rfl, fun j hj => absurd hj (Nat.not_lt_zero _)⟩
  | succ size ih =>
    unfold CronTask.batchBlocks
    split
    case isFalse => exact ⟨0, rfl, fun j hj => absurd hj (Nat.not_lt_zero _)⟩
    case isTrue hLe =>
      have hNext : task.next block = block + task.blockInterval := Nat.mod_eq_of_lt (by omega)
      obtain ⟨n, hBlocks, hEnd⟩ := ih (block + task.blockInterval)
      refine ⟨n + 1, ?_, fun j hj => ?_⟩
      · rw [hNext, hBlocks, List.range_succ_eq_map, List.map_cons, List.map_map, Nat.zero_mul,
          Nat.add_zero]
        congr 1
        refine List.map_congr_left fun j _ => ?_
        show block + task.blockInterval + j * task.blockInterval =
          block + (j + 1) * task.blockInterval
        ring
      · cases j with
        | zero => simpa using hLe
        | succ j =>
          have hLater := hEnd j (Nat.lt_of_succ_lt_succ hj)
          have hShift : block + (j + 1) * task.blockInterval =
              block + task.blockInterval + j * task.blockInterval := by ring
          rw [hShift]
          exact hLater

theorem mem_due {block : Nat} {x : Applied Address} :
    x ∈ task.due block ↔ x.block = block ∧ (∃ a ∈ task.addresses, a.2 ≤ block ∧ a.1 = x.address) ∧
      x.operation ∈ task.operations := by
  unfold CronTask.due
  simp only [List.mem_flatMap, List.mem_filter, List.mem_map, decide_eq_true_eq]
  constructor
  · rintro ⟨a, ⟨ha, hBirth⟩, operation, hOperation, rfl⟩
    exact ⟨rfl, ⟨a, ha, hBirth, rfl⟩, hOperation⟩
  · rintro ⟨rfl, ⟨a, ha, hBirth, hAddress⟩, hOperation⟩
    exact ⟨a, ⟨ha, hBirth⟩, x.operation, hOperation, by rw [hAddress]⟩

/-- A batch that is `Ok` with a block has applied what is due in the blocks that were built. -/
theorem applied_of_executeBatch (hTask : task.InOrder) {env : BatchEnv Address} {blocks : List Nat}
    {b : Nat} {applied : List (Applied Address)}
    (h : task.executeBatch env blocks = .ok (some b, applied))
    (hRows : ∀ x ∈ (blocks.take env.built).flatMap task.due, env.hasRow x = true) :
    (blocks.take env.built).getLast? = some b ∧
      ∀ x ∈ (blocks.take env.built).flatMap task.due, x ∈ applied := by
  obtain ⟨operation, -, hOperations⟩ := hTask.operations
  have hAll : task.rows env blocks = (blocks.take env.built).flatMap task.due := by
    unfold CronTask.rows
    exact List.filter_eq_self.mpr hRows
  unfold CronTask.executeBatch at h
  rw [hAll] at h
  split at h
  · cases h
  split at h
  · cases h
  split at h
  · cases h
  dsimp only at h
  split at h
  case h_1 hNoOperations =>
    refine ⟨(Prod.mk.inj (Except.ok.inj h)).1, fun x hx => ?_⟩
    obtain ⟨block, -, hDue⟩ := List.mem_flatMap.mp hx
    have hIn := (mem_due.mp hDue).2.2
    rw [hNoOperations] at hIn
    cases hIn
  case h_2 first rest hFirst =>
    split at h
    case isTrue hNone =>
      rw [hNone]
      exact ⟨(Prod.mk.inj (Except.ok.inj h)).1, fun x hx => nomatch hx⟩
    case isFalse =>
      split at h
      case isFalse => cases h
      case isTrue =>
        obtain ⟨hLast, hApplied⟩ := Prod.mk.inj (Except.ok.inj h)
        refine ⟨hLast, fun x hx => hApplied ▸ List.mem_map.mpr ⟨x, hx, ?_⟩⟩
        obtain ⟨block, -, hDue⟩ := List.mem_flatMap.mp hx
        have hSame := hOperations x.operation (mem_due.mp hDue).2.2
        rw [hOperations first (hFirst ▸ List.mem_cons_self ..), ← hSame]

/-- The last of the first blocks of a batch, and all the scheduled blocks up to it. -/
theorem last_of_take {n built block b : Nat} {blocks : List Nat}
    (hInterval : 0 < task.blockInterval)
    (hBlocks : blocks = (List.range n).map fun j => block + j * task.blockInterval)
    (hLast : (blocks.take built).getLast? = some b) :
    (∃ j < n, b = block + j * task.blockInterval) ∧
      ∀ j, block + j * task.blockInterval ≤ b →
        block + j * task.blockInterval ∈ blocks.take built := by
  rw [hBlocks, ← List.map_take, List.take_range] at hLast ⊢
  rw [List.getLast?_map, Option.map_eq_some_iff] at hLast
  obtain ⟨last, hRange, rfl⟩ := hLast
  rw [List.getLast?_range] at hRange
  split at hRange
  case isTrue => cases hRange
  case isFalse hSome =>
    cases hRange
    refine ⟨⟨min built n - 1, by omega, rfl⟩, fun j hj => ?_⟩
    refine List.mem_map.mpr ⟨j, List.mem_range.mpr ?_, rfl⟩
    have hLe : j * task.blockInterval ≤ (min built n - 1) * task.blockInterval := by omega
    have hIndex : j ≤ min built n - 1 := Nat.le_of_mul_le_mul_right hLe hInterval
    omega

end Batches

/-! ### The sync -/

/-- The cursor and the sync are on the schedule, and a sync that has left nothing out is ahead of the
blocks that are done. -/
structure SyncInv (task : CronTask Address) (s : CronSync Address) : Prop where
  covered : CursorCovered task s
  scheduled : s.cursor ≠ 0 → ∃ k, s.cursor = task.startBlock + k * task.blockInterval
  fits : ∀ currentBlock endBlock, s.sync = some (currentBlock, endBlock) →
    endBlock + task.blockInterval < 2 ^ 64
  current : ∀ currentBlock endBlock, s.sync = some (currentBlock, endBlock) →
    ∃ k, currentBlock = task.startBlock + k * task.blockInterval
  complete : ∀ currentBlock endBlock, s.sync = some (currentBlock, endBlock) → s.complete = true →
    ∀ k, task.startBlock + k * task.blockInterval < currentBlock →
      ∀ x ∈ task.due (task.startBlock + k * task.blockInterval), x ∈ s.applied

open CronSync

section Steps

variable [DecidableEq Address] {task : CronTask Address} {monotonic : Bool}
  {s s' : CronSync Address}

omit [DecidableEq Address] in
theorem SyncInv.stop (hInv : SyncInv task s) : SyncInv task { s with sync := none } :=
  ⟨hInv.covered, hInv.scheduled, fun _ _ h => (nomatch h), fun _ _ h => (nomatch h),
    fun _ _ h => (nomatch h)⟩

omit [DecidableEq Address] in
theorem begin_inv (hInv : SyncInv task s) {readable : Bool}
    {latest : Option Nat} (hFits : CoversSchedule task s (.begin readable latest))
    (h : s.begin task readable latest = some s') : SyncInv task s' := by
  obtain ⟨hEnd, hCursor⟩ := hFits
  unfold CronSync.begin at h
  split at h
  · cases h
  generalize hNext : (if s.cursor ≠ 0 ∧ readable = true then task.next s.cursor
    else task.startBlock) = next at h
  dsimp only at h
  split at h
  · cases h
  cases h
  refine ⟨hInv.covered, hInv.scheduled, ?_, ?_, ?_⟩
  · intro currentBlock endBlock hSync
    cases hSync
    exact hEnd
  · intro currentBlock endBlock hSync
    cases hSync
    rw [← hNext]
    split
    case isTrue hResume =>
      obtain ⟨k, hk⟩ := hInv.scheduled hResume.1
      refine ⟨k + 1, ?_⟩
      rw [CronTask.next, Nat.mod_eq_of_lt hCursor, hk]
      ring
    case isFalse => exact ⟨0, by simp⟩
  · intro currentBlock endBlock hSync _ k hk
    cases hSync
    rw [← hNext] at hk
    split at hk
    case isTrue hResume =>
      -- a scheduled block before the next one after the cursor is at most the cursor
      obtain ⟨c, hc⟩ := hInv.scheduled hResume.1
      rw [CronTask.next, Nat.mod_eq_of_lt hCursor, hc] at hk
      refine hInv.covered hResume.1 k ?_
      have hLess : k * task.blockInterval < (c + 1) * task.blockInterval := by
        have hShift : (c + 1) * task.blockInterval = c * task.blockInterval + task.blockInterval := by
          ring
        omega
      have hIndex : k < c + 1 := Nat.lt_of_mul_lt_mul_right hLess
      rw [hc]
      exact Nat.add_le_add_left (Nat.mul_le_mul_right _ (Nat.le_of_lt_succ hIndex)) _
    case isFalse => exact absurd hk (Nat.not_lt.mpr (Nat.le_add_right _ _))

omit [DecidableEq Address] in
/-- A scheduled block is before the current one, or some intervals after it. -/
theorem before_or_from (hInterval : 0 < task.blockInterval) {currentBlock : Nat}
    (hCurrent : ∃ k, currentBlock = task.startBlock + k * task.blockInterval) (k : Nat) :
    task.startBlock + k * task.blockInterval < currentBlock ∨
      ∃ j, task.startBlock + k * task.blockInterval = currentBlock + j * task.blockInterval := by
  obtain ⟨c, rfl⟩ := hCurrent
  rcases Nat.lt_or_ge k c with hBefore | hFrom
  · exact Or.inl (Nat.add_lt_add_left (Nat.mul_lt_mul_of_pos_right hBefore hInterval) _)
  · refine Or.inr ⟨k - c, ?_⟩
    rw [Nat.add_assoc, ← Nat.add_mul, Nat.add_sub_cancel' hFrom]

theorem appliesAll_iff {blocks : List Nat} {applied : List (Applied Address)} :
    appliesAll task blocks applied = true ↔ ∀ x ∈ blocks.flatMap task.due, x ∈ applied := by
  simp only [appliesAll, List.all_eq_true, decide_eq_true_eq]

omit [DecidableEq Address] in
/-- The cursor stays, or it is the last block of the batch. -/
theorem cursor_after (monotonic saved : Bool) (cursor : Nat) (lastBlock : Option Nat) :
    (match lastBlock with
      | some b => if saved then saveCursor monotonic cursor b else cursor
      | none => cursor) = cursor ∨
    ∃ b, lastBlock = some b ∧ saved = true ∧ (match lastBlock with
      | some b => if saved then saveCursor monotonic cursor b else cursor
      | none => cursor) = b := by
  cases lastBlock with
  | none => exact Or.inl rfl
  | some b =>
    cases saved with
    | false => exact Or.inl rfl
    | true =>
      cases monotonic with
      | false => exact Or.inr ⟨b, rfl, rfl, rfl⟩
      | true =>
        rcases Nat.le_total b cursor with hLe | hLe
        · exact Or.inl (Nat.max_eq_left hLe)
        · exact Or.inr ⟨b, rfl, rfl, Nat.max_eq_right hLe⟩

theorem batch_inv (hTask : task.InOrder) (hInv : SyncInv task s) {env : BatchEnv Address}
    (hCovers : CoversSchedule task s (.batch env)) (h : s.batch task monotonic env = some s') :
    SyncInv task s' := by
  unfold CronSync.batch at h
  split at h
  case h_1 => cases h
  case h_2 currentBlock endBlock hSync =>
    split at h
    case isTrue =>
      cases h
      exact hInv.stop
    case isFalse hGoes =>
      split at h
      case isTrue =>
        cases h
        exact hInv.stop
      case isFalse =>
        dsimp only at h
        split at h
        case h_1 =>
          cases h
          exact hInv.stop
        case h_2 batchEnd hBatchEnd =>
          have hInterval := hTask.interval
          have hFits := hInv.fits _ _ hSync
          have hCurrent := hInv.current _ _ hSync
          obtain ⟨n, hBlocks, hEnd⟩ := batchBlocks_eq hFits env.batchSize currentBlock
          generalize hAll : task.batchBlocks endBlock env.batchSize currentBlock = blocks
            at h hBlocks hBatchEnd
          -- the sync goes on one interval after the last block of the batch
          have hLast := hBatchEnd
          rw [← List.take_length (l := blocks)] at hLast
          obtain ⟨⟨j, hj, hBatchEq⟩, hUpToEnd⟩ := last_of_take hInterval hBlocks hLast
          rw [List.take_length] at hUpToEnd
          have hNext : task.next batchEnd = batchEnd + task.blockInterval := by
            have hLe := hEnd j hj
            exact Nat.mod_eq_of_lt (by omega)
          have hNextCurrent : ∃ k, task.next batchEnd =
              task.startBlock + k * task.blockInterval := by
            obtain ⟨c, hc⟩ := hCurrent
            refine ⟨c + j + 1, ?_⟩
            rw [hNext, hBatchEq, hc]
            ring
          split at h
          case h_1 =>
            cases h
            refine ⟨hInv.covered, hInv.scheduled, ?_, ?_, fun _ _ _ hNot => nomatch hNot⟩
            · intro _ _ hSync'
              cases hSync'
              exact hFits
            · intro _ _ hSync'
              cases hSync'
              exact hNextCurrent
          case h_2 lastBlock applied hExecuted =>
            cases h
            have hCursor := cursor_after monotonic env.cursorSaved s.cursor lastBlock
            generalize (match lastBlock with
              | some b => if env.cursorSaved then saveCursor monotonic s.cursor b else s.cursor
              | none => s.cursor) = cursor at hCursor
            have hSaved : ∀ b, lastBlock = some b → env.cursorSaved = true →
                s.complete = true ∧ (blocks.take env.built).getLast? = some b ∧
                  ∀ x ∈ (blocks.take env.built).flatMap task.due, x ∈ applied := by
              rintro b rfl hSave
              have hRows := hCovers _ _ hSync
              rw [hAll] at hRows
              obtain ⟨hComplete, hFound⟩ := hRows hSave ⟨b, applied, hExecuted⟩
              exact ⟨hComplete, applied_of_executeBatch hTask hExecuted hFound⟩
            refine ⟨?_, ?_, ?_, ?_, ?_⟩
            · rcases hCursor with rfl | ⟨b, hb, hSave, rfl⟩
              · exact fun hPositive k hk x hx =>
                  List.mem_append_left _ (hInv.covered hPositive k hk x hx)
              · intro _ k hk x hx
                obtain ⟨hComplete, hTaken, hApplied⟩ := hSaved cursor hb hSave
                obtain ⟨-, hUpTo⟩ := last_of_take hInterval hBlocks hTaken
                rcases before_or_from hInterval hCurrent k with hBefore | ⟨i, hFrom⟩
                · exact List.mem_append_left _ (hInv.complete _ _ hSync hComplete k hBefore x hx)
                · refine List.mem_append_right _ (hApplied x (List.mem_flatMap.mpr ⟨_, ?_, hx⟩))
                  rw [hFrom] at hk ⊢
                  exact hUpTo i hk
            · rcases hCursor with rfl | ⟨b, hb, hSave, rfl⟩
              · exact hInv.scheduled
              · intro _
                obtain ⟨-, hTaken, -⟩ := hSaved cursor hb hSave
                obtain ⟨⟨i, -, hEq⟩, -⟩ := last_of_take hInterval hBlocks hTaken
                obtain ⟨c, hc⟩ := hCurrent
                refine ⟨c + i, ?_⟩
                show cursor = _
                rw [hEq, hc]
                ring
            · intro _ _ hSync'
              cases hSync'
              exact hFits
            · intro _ _ hSync'
              cases hSync'
              exact hNextCurrent
            · intro _ _ hSync' hComplete k hk x hx
              cases hSync'
              rw [Bool.and_eq_true, appliesAll_iff] at hComplete
              rcases before_or_from hInterval hCurrent k with hBefore | ⟨i, hFrom⟩
              · exact List.mem_append_left _ (hInv.complete _ _ hSync hComplete.1 k hBefore x hx)
              · refine hComplete.2 x (List.mem_flatMap.mpr ⟨_, ?_, hx⟩)
                rw [hFrom]
                refine hUpToEnd i ?_
                rw [hNext, hFrom, hBatchEq] at hk
                have hLess : i * task.blockInterval < (j + 1) * task.blockInterval := by
                  rw [Nat.add_mul, Nat.one_mul]
                  omega
                have hIndex := Nat.lt_of_mul_lt_mul_right hLess
                rw [hBatchEq]
                exact Nat.add_le_add_left
                  (Nat.mul_le_mul_right _ (Nat.le_of_lt_succ hIndex)) _

theorem step_inv (hTask : task.InOrder) {act : CronAct Address} (hInv : SyncInv task s)
    (hCovers : CoversSchedule task s act) (h : s.step task monotonic act = some s') :
    SyncInv task s' := by
  cases act with
  | begin readable latest => exact begin_inv hInv hCovers h
  | batch env => exact batch_inv hTask hInv hCovers h
  | stop =>
    cases h
    exact hInv.stop

/-- A batch ends the sync, or the sync goes on with a later block. -/
theorem batch_progress (hTask : task.InOrder) {currentBlock endBlock : Nat}
    (hSync : s.sync = some (currentBlock, endBlock))
    (hFits : endBlock + task.blockInterval < 2 ^ 64) (env : BatchEnv Address) :
    ∃ s', s.batch task monotonic env = some s' ∧ (s'.sync = none ∨
      currentBlock ≤ endBlock ∧ ∃ next > currentBlock, s'.sync = some (next, endBlock)) := by
  unfold CronSync.batch
  rw [hSync]
  dsimp only
  split
  case isTrue => exact ⟨_, rfl, Or.inl rfl⟩
  case isFalse hGoes =>
    split
    case isTrue => exact ⟨_, rfl, Or.inl rfl⟩
    case isFalse =>
      split
      case h_1 => exact ⟨_, rfl, Or.inl rfl⟩
      case h_2 batchEnd hBatchEnd =>
        obtain ⟨n, hBlocks, hEnd⟩ := batchBlocks_eq hFits env.batchSize currentBlock
        rw [← List.take_length (l := task.batchBlocks endBlock env.batchSize currentBlock)]
          at hBatchEnd
        obtain ⟨⟨j, hj, rfl⟩, -⟩ := last_of_take hTask.interval hBlocks hBatchEnd
        have hLe := hEnd j hj
        have hNext : task.next (currentBlock + j * task.blockInterval) =
            currentBlock + j * task.blockInterval + task.blockInterval :=
          Nat.mod_eq_of_lt (by omega)
        have hLater : currentBlock < task.next (currentBlock + j * task.blockInterval) := by
          have hPositive := hTask.interval
          omega
        split
        · exact ⟨_, rfl, Or.inr ⟨Nat.not_lt.mp hGoes, _, hLater, rfl⟩⟩
        · exact ⟨_, rfl, Or.inr ⟨Nat.not_lt.mp hGoes, _, hLater, rfl⟩⟩

theorem run_ends (hTask : task.InOrder) {endBlock left : Nat}
    (hFits : endBlock + task.blockInterval < 2 ^ 64) (env : Nat → BatchEnv Address)
    (hLeft : ∀ currentBlock finish, s.sync = some (currentBlock, finish) →
      finish = endBlock ∧ endBlock + 1 - currentBlock ≤ left) :
    (s.run task monotonic (left + 1) env).isSome := by
  induction left generalizing s env with
  | zero =>
    unfold CronSync.run
    split
    case isTrue => rfl
    case isFalse hGoing =>
      obtain ⟨⟨currentBlock, finish⟩, hSync⟩ := Option.ne_none_iff_exists'.mp hGoing
      obtain ⟨rfl, hNone⟩ := hLeft _ _ hSync
      obtain ⟨s', hBatch, hEnds | ⟨hLe, -⟩⟩ := batch_progress hTask hSync hFits (env 0)
      · rw [hBatch, Option.bind_some, CronSync.run, if_pos hEnds]
        rfl
      · omega
  | succ left ih =>
    unfold CronSync.run
    split
    case isTrue => rfl
    case isFalse hGoing =>
      obtain ⟨⟨currentBlock, finish⟩, hSync⟩ := Option.ne_none_iff_exists'.mp hGoing
      obtain ⟨rfl, hMore⟩ := hLeft _ _ hSync
      obtain ⟨s', hBatch, hNext⟩ := batch_progress hTask hSync hFits (env 0)
      rw [hBatch, Option.bind_some]
      apply ih
      intro currentBlock' endBlock' hSync'
      rcases hNext with hNone | ⟨hLe, next, hLater, hSome⟩
      · cases hNone.symm.trans hSync'
      · cases hSome.symm.trans hSync'
        exact ⟨rfl, by omega⟩

theorem terminates_of_inv (hTask : task.InOrder) (hInv : SyncInv task s) :
    Terminates task monotonic s := by
  intro env
  cases hSync : s.sync with
  | none =>
    refine ⟨0, ?_⟩
    rw [CronSync.run, if_pos hSync]
    rfl
  | some place =>
    obtain ⟨currentBlock, endBlock⟩ := place
    refine ⟨endBlock + 1 - currentBlock + 1, run_ends hTask (hInv.fits _ _ hSync) env ?_⟩
    intro currentBlock' endBlock' hSync'
    cases hSync.symm.trans hSync'
    exact ⟨rfl, Nat.le_refl _⟩

end Steps

/-- Where the operations are one and the interval is positive, in a run that leaves nothing out the saved
cursor covers the schedule, and from every state reached the sync terminates. -/
theorem cron_cursor_covered [DecidableEq Address] (task : CronTask Address) (monotonic : Bool)
    (hTask : task.InOrder) (acts : List (CronAct Address))
    (hActs : Meets (CronSync.step task monotonic) (CoversSchedule task) CronSync.start acts) :
    Always (CronSync.step task monotonic)
      (fun s => CursorCovered task s ∧ Terminates task monotonic s) CronSync.start acts := by
  have hStart : SyncInv task CronSync.start :=
    ⟨fun h => absurd rfl h, fun h => absurd rfl h, fun _ _ h => (nomatch h),
      fun _ _ h => (nomatch h), fun _ _ h => (nomatch h)⟩
  exact (always_of_invariant (fun s act s' hInv hCovers h => step_inv hTask hInv hCovers h) hStart
    hActs).mono fun s hInv => ⟨hInv.covered, terminates_of_inv hTask hInv⟩

/-! ### A table of balances -/

/-- Every fifth block of 10 to 20, for a contract that exists from block 0 and one from block 12. -/
def balances : CronTask Nat where
  startBlock := 10
  endBlock := some 20
  blockInterval := 5
  addresses := [(1, 0), (2, 12)]
  operations := [⟨"upsert", ["balance"]⟩]

/-- A batch of two blocks in which nothing fails but, possibly, the write. -/
def balanceBatch (written : Bool) : BatchEnv Nat where
  running := true
  batchSize := 2
  provider := true
  callsInterrupted := false
  resolves _ _ _ _ := true
  built := 2
  written := written
  cursorSaved := true

theorem cron_cursor_covered_balances :
    Always (CronSync.step balances true)
      (fun s => CursorCovered balances s ∧ Terminates balances true s) CronSync.start
      [.begin true none, .batch (balanceBatch true), .stop, .begin true none,
        .batch (balanceBatch true)] := by
  refine cron_cursor_covered balances true ⟨by decide,
    ⟨⟨"upsert", ["balance"]⟩, by decide, by decide⟩⟩ _ ?_
  refine .cons rfl ⟨by decide, by decide⟩ (.cons rfl ?_ (.cons rfl trivial
    (.cons rfl ⟨by decide, by decide⟩ (.cons rfl ?_ trivial))))
  · intro currentBlock endBlock hSync _ _ _
    cases hSync
    have hRows : ∀ x ∈ [10, 15].flatMap balances.due, (balanceBatch true).hasRow x = true := by decide
    exact ⟨rfl, hRows⟩
  · intro currentBlock endBlock hSync _ _ _
    cases hSync
    have hRows : ∀ x ∈ [20].flatMap balances.due, (balanceBatch true).hasRow x = true := by decide
    exact ⟨rfl, hRows⟩

/-- The write of a batch fails, and the next batch saves a cursor past its blocks. -/
theorem failed_batch_passed :
    ¬ ∀ (task : CronTask Nat) (monotonic : Bool) (acts : List (CronAct Nat)),
      Always (CronSync.step task monotonic)
        (fun s => CursorCovered task s ∧ Terminates task monotonic s) CronSync.start acts := by
  intro hClaim
  have hRun := hClaim balances true
    [.begin true none, .batch (balanceBatch false), .batch (balanceBatch true)]
  obtain ⟨hCovered, -⟩ := ((hRun.2 _ rfl).2 _ rfl).2 _ rfl
  have hApplied := hCovered (by decide) 0 (by decide) ⟨10, 1, ⟨"upsert", ["balance"]⟩⟩ (by decide)
  exact absurd hApplied (by decide)

end Sync

end Rindexer.Indexer.Cron
