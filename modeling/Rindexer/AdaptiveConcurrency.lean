import Mathlib.Logic.Function.Iterate
import Mathlib.Order.Iterate
import Rindexer.Lib.Atomics

/-! How many requests go out at once, how many calls a batch has and how long a request waits: numbers
that all tasks share, and that the outcome of each request moves up or down. -/

namespace Rindexer

open Lib

/-- The atomics of `AdaptiveConcurrency`. -/
inductive AdaptiveLocation
  | current
  | consecutiveSuccesses
  | backoffMs
  | batchSize
  | rateLimitCount
deriving DecidableEq, Repr

/-- Its fields that never change. -/
structure AdaptiveConcurrency where
  min : Nat
  max : Nat
  scaleUpThreshold : Nat
  maxBackoffMs : Nat
  minBatchSize : Nat
  maxBatchSize : Nat
deriving DecidableEq, Repr

/-- What a task reports of a request. -/
inductive RequestOutcome
  | success
  | rateLimit
  | error
deriving DecidableEq, Repr

namespace AdaptiveConcurrency

def new (min max : Nat) : AdaptiveConcurrency where
  min := min
  max := max
  scaleUpThreshold := 10
  maxBackoffMs := 30000
  minBatchSize := 5
  maxBatchSize := 100

def initialMemory (initial : Nat) : AdaptiveLocation → AtomicCell
  | .current => ⟨initial, []⟩
  | .consecutiveSuccesses => ⟨0, []⟩
  | .backoffMs => ⟨0, []⟩
  | .batchSize => ⟨50, []⟩
  | .rateLimitCount => ⟨0, []⟩

def initialSystem (initial : Nat) : AtomicSystem AdaptiveLocation := ⟨initialMemory initial, []⟩

variable (a : AdaptiveConcurrency)

/-- The batch size goes up by 20%, and by at least 5. -/
def scaleUpBatch : AtomicProgram AdaptiveLocation :=
  .load .batchSize fun currentBatch =>
    if currentBatch < a.maxBatchSize then
      let increase := Max.max 5 (currentBatch / 5)
      let newBatch := Min.min a.maxBatchSize ((currentBatch + increase) % 2 ^ 64)
      .compareExchange .batchSize currentBatch newBatch fun _ => .done
    else .done

/-- The concurrency goes up by 20%, and by at least 1. -/
def scaleUp : AtomicProgram AdaptiveLocation :=
  .load .current fun current =>
    if current < a.max then
      let increase := Max.max 1 (current / 5)
      let newVal := Min.min a.max ((current + increase) % 2 ^ 64)
      .compareExchange .current current newVal fun _ => a.scaleUpBatch
    else a.scaleUpBatch

def countSuccess : AtomicProgram AdaptiveLocation :=
  .fetchAdd .consecutiveSuccesses 1 fun old =>
    if a.scaleUpThreshold ≤ (old + 1) % 2 ^ 64 then .store .consecutiveSuccesses 0 a.scaleUp
    else .done

/-- The delay goes down by 25%, and the success is counted. -/
def recordSuccess : AtomicProgram AdaptiveLocation :=
  .load .backoffMs fun currentBackoff =>
    if 0 < currentBackoff then
      .compareExchange .backoffMs currentBackoff (currentBackoff * 3 % 2 ^ 64 / 4) fun _ =>
        a.countSuccess
    else a.countSuccess

def scaleDown : AtomicProgram AdaptiveLocation :=
  .load .current fun current =>
    if a.min < current then
      .compareExchange .current current (Max.max a.min (current / 2)) fun _ => .done
    else .done

/-- The delay doubles, and the batch size and the concurrency are halved. -/
def recordRateLimit : AtomicProgram AdaptiveLocation :=
  .store .consecutiveSuccesses 0 <|
    .fetchAdd .rateLimitCount 1 fun _ =>
      .load .backoffMs fun currentBackoff =>
        let newBackoff :=
          if currentBackoff = 0 then 500
          else Min.min a.maxBackoffMs (currentBackoff * 2 % 2 ^ 64)
        .compareExchange .backoffMs currentBackoff newBackoff fun _ =>
          .load .batchSize fun currentBatch =>
            .compareExchange .batchSize currentBatch (Max.max a.minBatchSize (currentBatch / 2))
              fun _ => a.scaleDown

/-- The concurrency goes down by 10%, and by at least 1. -/
def recordError : AtomicProgram AdaptiveLocation :=
  .store .consecutiveSuccesses 0 <|
    .load .current fun current =>
      if a.min < current then
        let decrease := Max.max 1 (current / 10)
        .compareExchange .current current (Max.max a.min (current - decrease)) fun _ => .done
      else .done

def code : RequestOutcome → AtomicProgram AdaptiveLocation
  | .success => a.recordSuccess
  | .rateLimit => a.recordRateLimit
  | .error => a.recordError

/-! ### The bounds -/

/-- The values that an atomic may have. -/
def Bounded : AdaptiveLocation → Nat → Prop
  | .current, value => a.min ≤ value ∧ value ≤ a.max
  | .batchSize, value => a.minBatchSize ≤ value ∧ value ≤ a.maxBatchSize
  | .backoffMs, value => value ≤ a.maxBackoffMs
  | .consecutiveSuccesses, _ => True
  | .rateLimitCount, _ => True

/-- Bounds that the sums of the code do not run past. -/
structure Sound : Prop where
  max_le : a.max ≤ 2 ^ 63
  min_le : a.min ≤ a.max
  maxBatchSize_le : a.maxBatchSize ≤ 2 ^ 62
  minBatchSize_le : a.minBatchSize ≤ a.maxBatchSize
  maxBackoffMs_le : a.maxBackoffMs ≤ 2 ^ 62
  first_le : 500 ≤ a.maxBackoffMs

variable {a}

theorem new_sound {min max : Nat} (hMin : min ≤ max) (hMax : max ≤ 2 ^ 63) : (new min max).Sound :=
  ⟨hMax, hMin, by norm_num [new], by norm_num [new], by norm_num [new], by norm_num [new]⟩

theorem scaleUpBatch_keeps (h : a.Sound) : a.scaleUpBatch.Keeps a.Bounded := by
  intro currentBatch hBatch
  dsimp only
  split
  · rename_i hBelow
    refine ⟨fun _ => ?_, fun _ => trivial⟩
    have hMax := h.maxBatchSize_le
    have hMin := h.minBatchSize_le
    have hLow : a.minBatchSize ≤ currentBatch := hBatch.1
    have hSum : (currentBatch + Max.max 5 (currentBatch / 5)) % 2 ^ 64 =
        currentBatch + Max.max 5 (currentBatch / 5) := Nat.mod_eq_of_lt (by omega)
    change _ ≤ Min.min _ _ ∧ Min.min _ _ ≤ _
    rw [hSum]
    omega
  · trivial

theorem scaleUp_keeps (h : a.Sound) : a.scaleUp.Keeps a.Bounded := by
  intro current hCurrent
  dsimp only
  split
  · rename_i hBelow
    refine ⟨fun _ => ?_, fun _ => scaleUpBatch_keeps h⟩
    have hMax := h.max_le
    have hLow : a.min ≤ current := hCurrent.1
    have hSum : (current + Max.max 1 (current / 5)) % 2 ^ 64 = current + Max.max 1 (current / 5) :=
      Nat.mod_eq_of_lt (by omega)
    change _ ≤ Min.min _ _ ∧ Min.min _ _ ≤ _
    rw [hSum]
    omega
  · exact scaleUpBatch_keeps h

theorem countSuccess_keeps (h : a.Sound) : a.countSuccess.Keeps a.Bounded := by
  intro old _
  refine ⟨trivial, ?_⟩
  dsimp only
  split
  · exact ⟨trivial, scaleUp_keeps h⟩
  · trivial

theorem recordSuccess_keeps (h : a.Sound) : a.recordSuccess.Keeps a.Bounded := by
  intro currentBackoff hBackoff
  dsimp only
  split
  · refine ⟨fun _ => ?_, fun _ => countSuccess_keeps h⟩
    have hMax := h.maxBackoffMs_le
    have hLe : currentBackoff ≤ a.maxBackoffMs := hBackoff
    have hProduct : currentBackoff * 3 % 2 ^ 64 = currentBackoff * 3 := Nat.mod_eq_of_lt (by omega)
    change currentBackoff * 3 % 2 ^ 64 / 4 ≤ a.maxBackoffMs
    omega
  · exact countSuccess_keeps h

theorem scaleDown_keeps : a.scaleDown.Keeps a.Bounded := by
  intro current hCurrent
  have hBounds : a.min ≤ current ∧ current ≤ a.max := hCurrent
  dsimp only
  split
  · refine ⟨fun _ => ?_, fun _ => trivial⟩
    change _ ≤ Max.max _ _ ∧ Max.max _ _ ≤ _
    omega
  · trivial

theorem recordRateLimit_keeps (h : a.Sound) : a.recordRateLimit.Keeps a.Bounded := by
  refine ⟨trivial, fun _ _ => ⟨trivial, fun currentBackoff hBackoff => ⟨fun _ => ?_, fun _ => ?_⟩⟩⟩
  · have hFirst := h.first_le
    change (if currentBackoff = 0 then 500 else Min.min _ _) ≤ a.maxBackoffMs
    split
    · exact hFirst
    · exact Nat.min_le_left _ _
  · intro currentBatch hBatch
    refine ⟨fun _ => ?_, fun _ => scaleDown_keeps⟩
    have hBounds : a.minBatchSize ≤ currentBatch ∧ currentBatch ≤ a.maxBatchSize := hBatch
    change _ ≤ Max.max _ _ ∧ Max.max _ _ ≤ _
    omega

theorem recordError_keeps : a.recordError.Keeps a.Bounded := by
  refine ⟨trivial, fun current hCurrent => ?_⟩
  have hBounds : a.min ≤ current ∧ current ≤ a.max := hCurrent
  dsimp only
  split
  · refine ⟨fun _ => ?_, fun _ => trivial⟩
    change _ ≤ Max.max _ _ ∧ Max.max _ _ ≤ _
    omega
  · trivial

theorem code_keeps (h : a.Sound) (outcome : RequestOutcome) : (a.code outcome).Keeps a.Bounded := by
  cases outcome with
  | success => exact recordSuccess_keeps h
  | rateLimit => exact recordRateLimit_keeps h
  | error => exact recordError_keeps

section New

variable {initial min max : Nat}

theorem initial_within (hMin : min ≤ initial) (hMax : initial ≤ max) :
    (initialSystem initial).Within (new min max).Bounded where
  values location value hValue := by
    cases location <;> obtain rfl := List.mem_singleton.mp hValue
    · exact ⟨hMin, hMax⟩
    · trivial
    · exact Nat.zero_le _
    · exact ⟨(by decide : 5 ≤ 50), (by decide : 50 ≤ 100)⟩
    · trivial
  threads _ hProgram := absurd hProgram (List.not_mem_nil)

/-- However the steps of the reporting tasks interleave, no task ever reads a concurrency, a batch size
or a delay outside their bounds. -/
theorem adaptive_values_bounded (hMin : min ≤ initial) (hMax : initial ≤ max) (hWord : max ≤ 2 ^ 63)
    (events : List (AtomicEvent RequestOutcome)) :
    Always (AtomicSystem.step (new min max).code)
      (fun s => (∀ v ∈ (s.memory .current).values, min ≤ v ∧ v ≤ max) ∧
        (∀ v ∈ (s.memory .batchSize).values, 5 ≤ v ∧ v ≤ 100) ∧
        ∀ v ∈ (s.memory .backoffMs).values, v ≤ 30000)
      (initialSystem initial) events := by
  have hSound : (new min max).Sound := new_sound (hMin.trans hMax) hWord
  apply Always.mono _ (AtomicSystem.always_within (code_keeps hSound) (initial_within hMin hMax))
  intro s hWithin
  exact ⟨hWithin.values .current, hWithin.values .batchSize, hWithin.values .backoffMs⟩

/-- Two tasks that report at once.  Both read a concurrency of 20, and the rate limit's exchange fails
because the error's comes before it. -/
def twoReports : List (AtomicEvent RequestOutcome) :=
  [.call .rateLimit, .call .error, .step 1 0, .step 1 0, .step 0 0, .step 0 0, .step 0 0, .step 0 0,
    .step 0 0, .step 0 0, .step 0 0, .step 1 0, .step 0 0]

/-- What they leave. -/
def afterTwoReports : AtomicSystem AdaptiveLocation :=
  ((run (AtomicSystem.step (new 2 200).code) (initialSystem 20) twoReports).getD
    (initialSystem 20))

theorem run_twoReports :
    run (AtomicSystem.step (new 2 200).code) (initialSystem 20) twoReports =
      some afterTwoReports :=
  rfl

theorem adaptive_values_bounded_program :
    (2 ≤ 20 ∧ 20 ≤ 200 ∧ 200 ≤ 2 ^ 63) ∧
    Always (AtomicSystem.step (new 2 200).code)
      (fun s => (∀ v ∈ (s.memory .current).values, 2 ≤ v ∧ v ≤ 200) ∧
        (∀ v ∈ (s.memory .batchSize).values, 5 ≤ v ∧ v ≤ 100) ∧
        ∀ v ∈ (s.memory .backoffMs).values, v ≤ 30000)
      (initialSystem 20) twoReports :=
  ⟨by norm_num, adaptive_values_bounded (by norm_num) (by norm_num) (by norm_num) twoReports⟩

/-! ### The count of the rate limits -/

/-- What a report adds to `rate_limit_count`. -/
def rateLimits : RequestOutcome → Nat
  | .rateLimit => 1
  | _ => 0

theorem scaleUpBatch_adds : a.scaleUpBatch.Adds .rateLimitCount 0 := by
  intro currentBatch
  dsimp only
  split
  · exact ⟨by decide, fun _ => rfl⟩
  · rfl

theorem scaleUp_adds : a.scaleUp.Adds .rateLimitCount 0 := by
  intro current
  dsimp only
  split
  · exact ⟨by decide, fun _ => scaleUpBatch_adds⟩
  · exact scaleUpBatch_adds

theorem countSuccess_adds : a.countSuccess.Adds .rateLimitCount 0 := by
  rw [countSuccess, AtomicProgram.Adds, if_neg (by decide)]
  intro old
  split
  · exact ⟨by decide, scaleUp_adds⟩
  · rfl

theorem scaleDown_adds : a.scaleDown.Adds .rateLimitCount 0 := by
  intro current
  dsimp only
  split
  · exact ⟨by decide, fun _ => rfl⟩
  · rfl

theorem code_adds (outcome : RequestOutcome) :
    (a.code outcome).Adds .rateLimitCount (rateLimits outcome) := by
  cases outcome with
  | success =>
    intro currentBackoff
    dsimp only
    split
    · exact ⟨by decide, fun _ => countSuccess_adds⟩
    · exact countSuccess_adds
  | rateLimit =>
    refine ⟨by decide, ?_⟩
    rw [AtomicProgram.Adds, if_pos rfl]
    exact ⟨0, rfl, fun _ _ => ⟨by decide, fun _ _ => ⟨by decide, fun _ => scaleDown_adds⟩⟩⟩
  | error =>
    refine ⟨by decide, fun current => ?_⟩
    dsimp only
    split
    · exact ⟨by decide, fun _ => rfl⟩
    · rfl

theorem sum_rateLimits (outcomes : List RequestOutcome) :
    (outcomes.map rateLimits).sum = outcomes.count .rateLimit := by
  induction outcomes with
  | nil => rfl
  | cons outcome outcomes ih =>
    rw [List.map_cons, List.sum_cons, ih, List.count_cons]
    cases outcome <;> simp [rateLimits, Nat.add_comm]

/-- When all reports have returned, every rate limit among them is counted. -/
theorem rate_limits_counted {events : List (AtomicEvent RequestOutcome)} {s : AtomicSystem AdaptiveLocation}
    (hRun : run (AtomicSystem.step (new min max).code) (initialSystem initial) events = some s)
    (hQuiet : s.Quiet) :
    (s.memory .rateLimitCount).latest = (calls events).count .rateLimit % 2 ^ 64 := by
  have hStart : (initialSystem initial).Owes .rateLimitCount 0 :=
    ⟨by norm_num [initialSystem, initialMemory], [], .nil, rfl⟩
  have hOwes := AtomicSystem.run_owes code_adds hStart hRun
  rw [Nat.zero_add, sum_rateLimits] at hOwes
  exact hQuiet.latest hOwes

theorem afterTwoReports_quiet : afterTwoReports.Quiet := by
  intro program hProgram
  have hThreads : afterTwoReports.threads = [.done, .done] := rfl
  rw [hThreads] at hProgram
  simpa using hProgram

theorem rate_limits_counted_two :
    (afterTwoReports.memory .rateLimitCount).latest = (calls twoReports).count .rateLimit % 2 ^ 64 :=
  rate_limits_counted run_twoReports afterTwoReports_quiet

end New

/-! ### Reports that no other task interrupts -/

section Alone

/-- The memory after reports that are made one after the other, with no step of another task among
them. -/
def perform (a : AdaptiveConcurrency) (memory : AdaptiveLocation → AtomicCell)
    (outcomes : List RequestOutcome) : AdaptiveLocation → AtomicCell :=
  outcomes.foldl (fun m outcome => (a.code outcome).alone m) memory

theorem perform_append (memory : AdaptiveLocation → AtomicCell) (outcomes : List RequestOutcome)
    (outcome : RequestOutcome) :
    a.perform memory (outcomes ++ [outcome]) = (a.code outcome).alone (a.perform memory outcomes) := by
  rw [perform, perform, List.foldl_append]
  rfl

/-- Such reports are a run of the system. -/
theorem perform_run (memory : AdaptiveLocation → AtomicCell)
    (threads : List (AtomicProgram AdaptiveLocation)) (outcomes : List RequestOutcome) :
    ∃ events, run (AtomicSystem.step a.code) ⟨memory, threads⟩ events =
      some ⟨a.perform memory outcomes, threads ++ List.replicate outcomes.length .done⟩ := by
  induction outcomes generalizing memory threads with
  | nil => exact ⟨[], by rw [List.length_nil, List.replicate_zero, List.append_nil]; rfl⟩
  | cons outcome outcomes ih =>
    obtain ⟨first, hFirst⟩ : ∃ first, run (AtomicSystem.step a.code)
        ⟨memory, threads ++ [a.code outcome]⟩ first =
          some ⟨(a.code outcome).alone memory, threads ++ [.done]⟩ :=
      (a.code outcome).alone_run memory threads
    obtain ⟨rest, hRest⟩ := ih ((a.code outcome).alone memory) (threads ++ [.done])
    refine ⟨.call outcome :: (first ++ rest), ?_⟩
    rw [run_cons _ rfl, AtomicSystem.run_append rest hFirst, hRest, List.length_cons,
      List.replicate_succ, List.append_assoc]
    rfl

/-- The latest values of the atomics. -/
structure Levels where
  current : Nat
  consecutiveSuccesses : Nat
  backoffMs : Nat
  batchSize : Nat
deriving DecidableEq, Repr

def levels (memory : AdaptiveLocation → AtomicCell) : Levels where
  current := (memory .current).latest
  consecutiveSuccesses := (memory .consecutiveSuccesses).latest
  backoffMs := (memory .backoffMs).latest
  batchSize := (memory .batchSize).latest

section Pushed

variable (memory : AdaptiveLocation → AtomicCell) (value : Nat)

@[simp] theorem levels_current :
    levels (pushAt memory .current value) = { levels memory with current := value } := rfl

@[simp] theorem levels_consecutiveSuccesses :
    levels (pushAt memory .consecutiveSuccesses value) =
      { levels memory with consecutiveSuccesses := value } := rfl

@[simp] theorem levels_backoffMs :
    levels (pushAt memory .backoffMs value) = { levels memory with backoffMs := value } := rfl

@[simp] theorem levels_batchSize :
    levels (pushAt memory .batchSize value) = { levels memory with batchSize := value } := rfl

@[simp] theorem levels_rateLimitCount :
    levels (pushAt memory .rateLimitCount value) = levels memory := rfl

end Pushed

namespace Levels

variable (a : AdaptiveConcurrency) (x : Levels)

def raiseBatch : Levels :=
  if x.batchSize < a.maxBatchSize then
    { x with
      batchSize := Min.min a.maxBatchSize ((x.batchSize + Max.max 5 (x.batchSize / 5)) % 2 ^ 64) }
  else x

def raise : Levels :=
  if x.current < a.max then
    { x with current := Min.min a.max ((x.current + Max.max 1 (x.current / 5)) % 2 ^ 64) }
  else x

def count : Levels :=
  if a.scaleUpThreshold ≤ (x.consecutiveSuccesses + 1) % 2 ^ 64 then
    ({ x with consecutiveSuccesses := 0 }.raise a).raiseBatch a
  else { x with consecutiveSuccesses := (x.consecutiveSuccesses + 1) % 2 ^ 64 }

/-- The levels after a success that nothing interrupts. -/
def success : Levels := { x with backoffMs := x.backoffMs * 3 % 2 ^ 64 / 4 }.count a

/-- The levels after a rate limit that nothing interrupts. -/
def rateLimit : Levels where
  current := if a.min < x.current then Max.max a.min (x.current / 2) else x.current
  consecutiveSuccesses := 0
  backoffMs := if x.backoffMs = 0 then 500 else Min.min a.maxBackoffMs (x.backoffMs * 2 % 2 ^ 64)
  batchSize := Max.max a.minBatchSize (x.batchSize / 2)

end Levels

variable (memory : AdaptiveLocation → AtomicCell)

theorem levels_scaleUpBatch : levels (a.scaleUpBatch.alone memory) = (levels memory).raiseBatch a := by
  rw [scaleUpBatch, AtomicProgram.alone, Levels.raiseBatch]
  change levels (AtomicProgram.alone memory (if (memory .batchSize).latest < _ then _ else _)) =
    if (memory .batchSize).latest < _ then _ else _
  split
  · rw [AtomicProgram.alone, if_pos rfl]
    rfl
  · rfl

theorem levels_scaleUp :
    levels (a.scaleUp.alone memory) = ((levels memory).raise a).raiseBatch a := by
  rw [scaleUp, AtomicProgram.alone, Levels.raise]
  change levels (AtomicProgram.alone memory (if (memory .current).latest < _ then _ else _)) =
    Levels.raiseBatch a (if (memory .current).latest < _ then _ else _)
  split
  · rw [AtomicProgram.alone, if_pos rfl, levels_scaleUpBatch]
    rfl
  · exact levels_scaleUpBatch memory

theorem levels_countSuccess : levels (a.countSuccess.alone memory) = (levels memory).count a := by
  rw [countSuccess, AtomicProgram.alone, Levels.count]
  change levels (AtomicProgram.alone _
      (if _ ≤ ((memory .consecutiveSuccesses).latest + 1) % 2 ^ 64 then _ else _)) =
    if _ ≤ ((memory .consecutiveSuccesses).latest + 1) % 2 ^ 64 then _ else _
  split
  · rw [AtomicProgram.alone, levels_scaleUp]
    rfl
  · rfl

theorem levels_recordSuccess : levels (a.recordSuccess.alone memory) = (levels memory).success a := by
  rw [recordSuccess, AtomicProgram.alone, Levels.success]
  by_cases hBackoff : 0 < (memory .backoffMs).latest
  · rw [if_pos hBackoff, AtomicProgram.alone, if_pos rfl, levels_countSuccess]
    rfl
  · have hNone : (levels memory).backoffMs = 0 := Nat.le_zero.mp (not_lt.mp hBackoff)
    have hSame : levels memory = { levels memory with backoffMs := 0 * 3 % 2 ^ 64 / 4 } :=
      congrArg (fun backoff => { levels memory with backoffMs := backoff }) hNone
    rw [if_neg hBackoff, levels_countSuccess, hNone, ← hSame]

theorem levels_scaleDown :
    levels (a.scaleDown.alone memory) =
      { levels memory with
        current := if a.min < (memory .current).latest then Max.max a.min ((memory .current).latest / 2)
          else (memory .current).latest } := by
  rw [scaleDown, AtomicProgram.alone]
  split
  · rw [AtomicProgram.alone, if_pos rfl]
    rfl
  · rfl

theorem levels_recordRateLimit :
    levels (a.recordRateLimit.alone memory) = (levels memory).rateLimit a := by
  rw [recordRateLimit, AtomicProgram.alone, AtomicProgram.alone, AtomicProgram.alone,
    AtomicProgram.alone, if_pos rfl, AtomicProgram.alone, AtomicProgram.alone, if_pos rfl,
    levels_scaleDown]
  rfl

/-! ### How far a row of reports leads -/

section Rows

variable {min max : Nat} {x : Levels}

/-- A delay that only successes follow. -/
def decayed (backoff : Nat) : Nat := backoff * 3 / 4

theorem decayed_mono : Monotone decayed := fun _ _ h => by
  unfold decayed
  omega

theorem decayed_all {n : Nat} (h : 40 ≤ n) : decayed^[n] 30000 = 0 := by
  obtain ⟨rest, rfl⟩ := Nat.exists_eq_add_of_le h
  have hNone : decayed^[40] 30000 = 0 := by decide
  rw [Nat.add_comm, Function.iterate_add_apply, hNone]
  exact Function.iterate_fixed rfl rest

/-- Where `n` successes in a row lead at least. -/
structure Levels.Recovered (min max n : Nat) (x : Levels) : Prop where
  successes : x.consecutiveSuccesses < 10
  backoff : x.backoffMs ≤ decayed^[n] 30000
  current : min ≤ x.current ∧ x.current ≤ max ∧
    (x.current = max ∨ n ≤ 10 * (x.current - min) + x.consecutiveSuccesses + 1)
  batch : 5 ≤ x.batchSize ∧ x.batchSize ≤ 100 ∧
    (x.batchSize = 100 ∨ n ≤ 2 * (x.batchSize - 5) + x.consecutiveSuccesses + 1)

/-- What the atomics can hold in a run. -/
structure Levels.Bounded (min max : Nat) (x : Levels) : Prop where
  backoff : x.backoffMs ≤ 30000
  current : min ≤ x.current ∧ x.current ≤ max
  batch : 5 ≤ x.batchSize ∧ x.batchSize ≤ 100

theorem decayed_iterate_le (n : Nat) : decayed^[n] 30000 ≤ 30000 := by
  induction n with
  | zero => exact le_refl _
  | succ n ih =>
    rw [Function.iterate_succ_apply']
    unfold decayed at ih ⊢
    omega

theorem Levels.Recovered.bounded {n : Nat} (h : x.Recovered min max n) : x.Bounded min max :=
  ⟨h.backoff.trans (decayed_iterate_le n), ⟨h.current.1, h.current.2.1⟩, ⟨h.batch.1, h.batch.2.1⟩⟩

theorem Levels.raise_spec (hMax : max ≤ 2 ^ 63) (h : min ≤ x.current ∧ x.current ≤ max) :
    ∃ current, x.raise (new min max) = { x with current := current } ∧
      min ≤ current ∧ current ≤ max ∧ (current = max ∨ x.current + 1 ≤ current) := by
  rw [Levels.raise]
  split
  · rename_i hBelow
    have hLt : x.current < max := hBelow
    have hSum : (x.current + Max.max 1 (x.current / 5)) % 2 ^ 64 =
        x.current + Max.max 1 (x.current / 5) := Nat.mod_eq_of_lt (by omega)
    refine ⟨_, rfl, ?_⟩
    change min ≤ Min.min max _ ∧ Min.min max _ ≤ max ∧ (Min.min max _ = max ∨ _ ≤ Min.min max _)
    rw [hSum]
    omega
  · rename_i hBelow
    have hLe : ¬x.current < max := hBelow
    refine ⟨x.current, rfl, ?_⟩
    omega

theorem Levels.raiseBatch_spec (h : 5 ≤ x.batchSize ∧ x.batchSize ≤ 100) :
    ∃ batch, x.raiseBatch (new min max) = { x with batchSize := batch } ∧
      5 ≤ batch ∧ batch ≤ 100 ∧ (batch = 100 ∨ x.batchSize + 5 ≤ batch) := by
  rw [Levels.raiseBatch]
  split
  · have hSum : (x.batchSize + Max.max 5 (x.batchSize / 5)) % 2 ^ 64 =
        x.batchSize + Max.max 5 (x.batchSize / 5) := Nat.mod_eq_of_lt (by omega)
    refine ⟨_, rfl, ?_⟩
    change 5 ≤ Min.min 100 _ ∧ Min.min 100 _ ≤ 100 ∧ (Min.min 100 _ = 100 ∨ _ ≤ Min.min 100 _)
    rw [hSum]
    omega
  · rename_i hBelow
    have hLe : ¬x.batchSize < 100 := hBelow
    refine ⟨x.batchSize, rfl, ?_⟩
    omega

/-- A success counts, or it makes the concurrency and the batch size go up and the count start again. -/
theorem Levels.success_cases (hMax : max ≤ 2 ^ 63) (h : x.Bounded min max) :
    ∃ successes current batch,
      x.success (new min max) = ⟨current, successes, decayed x.backoffMs, batch⟩ ∧
      successes < 10 ∧ (min ≤ current ∧ current ≤ max) ∧ (5 ≤ batch ∧ batch ≤ 100) ∧
      ((successes = (x.consecutiveSuccesses + 1) % 2 ^ 64 ∧ current = x.current ∧
          batch = x.batchSize) ∨
        (10 ≤ (x.consecutiveSuccesses + 1) % 2 ^ 64 ∧ successes = 0 ∧
          (current = max ∨ x.current + 1 ≤ current) ∧
          (batch = 100 ∨ x.batchSize + 5 ≤ batch))) := by
  have hBackoff : x.backoffMs * 3 % 2 ^ 64 / 4 = decayed x.backoffMs := by
    rw [Nat.mod_eq_of_lt]
    · rfl
    · have := h.backoff
      omega
  rw [Levels.success, Levels.count, hBackoff]
  change ∃ successes current batch,
    (if 10 ≤ (x.consecutiveSuccesses + 1) % 2 ^ 64 then _ else _) = _ ∧ _
  split
  · rename_i hEnough
    obtain ⟨current, hRaise, hLow, hHigh, hCurrent⟩ :=
      Levels.raise_spec (x := ⟨x.current, 0, decayed x.backoffMs, x.batchSize⟩) hMax h.current
    obtain ⟨batch, hRaiseBatch, hBatchLow, hBatchHigh, hBatch⟩ :=
      @Levels.raiseBatch_spec min max ⟨current, 0, decayed x.backoffMs, x.batchSize⟩ h.batch
    refine ⟨0, current, batch, ?_, by omega, ⟨hLow, hHigh⟩, ⟨hBatchLow, hBatchHigh⟩,
      .inr ⟨hEnough, rfl, hCurrent, hBatch⟩⟩
    rw [hRaise]
    exact hRaiseBatch
  · rename_i hFew
    exact ⟨_, x.current, x.batchSize, rfl, not_le.mp hFew, h.current, h.batch, .inl ⟨rfl, rfl, rfl⟩⟩

theorem Levels.Bounded.recovered (hMax : max ≤ 2 ^ 63) (h : x.Bounded min max) :
    (x.success (new min max)).Recovered min max 1 := by
  obtain ⟨successes, current, batch, hEq, hFew, hCurrent, hBatch, -⟩ := Levels.success_cases hMax h
  rw [hEq]
  refine ⟨hFew, decayed_mono h.backoff, ⟨hCurrent.1, hCurrent.2, .inr ?_⟩,
    ⟨hBatch.1, hBatch.2, .inr ?_⟩⟩
  · change 1 ≤ 10 * (current - min) + successes + 1
    omega
  · change 1 ≤ 2 * (batch - 5) + successes + 1
    omega

theorem Levels.Recovered.success {n : Nat} (hMax : max ≤ 2 ^ 63) (h : x.Recovered min max n) :
    (x.success (new min max)).Recovered min max (n + 1) := by
  obtain ⟨successes, current, batch, hEq, hFew, hCurrent, hBatch, hCases⟩ :=
    Levels.success_cases hMax h.bounded
  have hCount := h.successes
  have hSum : (x.consecutiveSuccesses + 1) % 2 ^ 64 = x.consecutiveSuccesses + 1 :=
    Nat.mod_eq_of_lt (by omega)
  obtain ⟨hLow, hHigh, hUp⟩ := h.current
  obtain ⟨hBatchLow, hBatchHigh, hBatchUp⟩ := h.batch
  rw [hSum] at hCases
  rw [hEq]
  refine ⟨hFew, ?_, ⟨hCurrent.1, hCurrent.2, ?_⟩, ⟨hBatch.1, hBatch.2, ?_⟩⟩
  · rw [Function.iterate_succ_apply']
    exact decayed_mono h.backoff
  · change current = max ∨ n + 1 ≤ 10 * (current - min) + successes + 1
    omega
  · change batch = 100 ∨ n + 1 ≤ 2 * (batch - 5) + successes + 1
    omega

/-- Where `n` rate limits in a row lead at least. -/
structure Levels.BackedOff (min max n : Nat) (x : Levels) : Prop where
  backoff : Min.min 30000 (2 ^ n) ≤ x.backoffMs ∧ x.backoffMs ≤ 30000
  current : min ≤ x.current ∧ x.current ≤ Max.max min (max / 2 ^ n)
  batch : 5 ≤ x.batchSize ∧ x.batchSize ≤ Max.max 5 (100 / 2 ^ n)

theorem Levels.rateLimit_new :
    x.rateLimit (new min max) = ⟨if min < x.current then Max.max min (x.current / 2) else x.current, 0,
      if x.backoffMs = 0 then 500 else Min.min 30000 (x.backoffMs * 2 % 2 ^ 64),
      Max.max 5 (x.batchSize / 2)⟩ :=
  rfl

theorem Levels.Bounded.backedOff (h : x.Bounded min max) :
    (x.rateLimit (new min max)).BackedOff min max 1 := by
  obtain ⟨hBackoff, hCurrent, hBatch⟩ := h
  rw [Levels.rateLimit_new]
  refine ⟨?_, ?_, ?_⟩
  · dsimp only
    split <;> omega
  · dsimp only
    split <;> omega
  · dsimp only
    omega

theorem Levels.BackedOff.rateLimit {n : Nat} (h : x.BackedOff min max n) :
    (x.rateLimit (new min max)).BackedOff min max (n + 1) := by
  obtain ⟨hBackoff, hCurrent, hBatch⟩ := h
  have hPos : 0 < 2 ^ n := by positivity
  have hHalf : max / 2 ^ n / 2 = max / 2 ^ (n + 1) := by rw [Nat.div_div_eq_div_mul, ← pow_succ]
  have hHalfBatch : 100 / 2 ^ n / 2 = 100 / 2 ^ (n + 1) := by
    rw [Nat.div_div_eq_div_mul, ← pow_succ]
  have hDouble : 2 ^ (n + 1) = 2 ^ n * 2 := pow_succ 2 n
  rw [Levels.rateLimit_new]
  refine ⟨?_, ?_, ?_⟩
  · dsimp only
    split <;> omega
  · dsimp only
    rw [← hHalf]
    split <;> omega
  · dsimp only
    rw [← hHalfBatch]
    omega

theorem recovered_of_successes (hMax : max ≤ 2 ^ 63) (h : (levels memory).Bounded min max) (n : Nat) :
    (levels ((new min max).perform memory (List.replicate (n + 1) .success))).Recovered min max
      (n + 1) := by
  induction n with
  | zero =>
    have hFirst := h.recovered hMax
    rw [← levels_recordSuccess] at hFirst
    exact hFirst
  | succ n ih =>
    rw [List.replicate_succ', perform_append, code, levels_recordSuccess]
    exact ih.success hMax

theorem backedOff_of_rateLimits (h : (levels memory).Bounded min max) (n : Nat) :
    (levels ((new min max).perform memory (List.replicate (n + 1) .rateLimit))).BackedOff min max
      (n + 1) := by
  induction n with
  | zero =>
    have hFirst := h.backedOff
    rw [← levels_recordRateLimit] at hFirst
    exact hFirst
  | succ n ih =>
    rw [List.replicate_succ', perform_append, code, levels_recordRateLimit]
    exact ih.rateLimit

theorem levels_of_run {initial : Nat} (hMin : min ≤ initial) (hMax : initial ≤ max)
    (hWord : max ≤ 2 ^ 63) {events : List (AtomicEvent RequestOutcome)}
    {s : AtomicSystem AdaptiveLocation}
    (hRun : run (AtomicSystem.step (new min max).code) (initialSystem initial) events = some s) :
    (levels s.memory).Bounded min max := by
  have hSound : (new min max).Sound := new_sound (hMin.trans hMax) hWord
  have hWithin := (AtomicSystem.always_within (code_keeps hSound)
    (initial_within hMin hMax)).last hRun
  exact ⟨hWithin.values .backoffMs _ (s.memory .backoffMs).latest_mem,
    hWithin.values .current _ (s.memory .current).latest_mem,
    hWithin.values .batchSize _ (s.memory .batchSize).latest_mem⟩

/-- From every state that reports in any order lead to, successes in a row lead back to the greatest
concurrency, the greatest batches and no delay. -/
theorem successes_recover {initial : Nat} (hMin : min ≤ initial) (hMax : initial ≤ max)
    (hWord : max ≤ 2 ^ 63) {events : List (AtomicEvent RequestOutcome)}
    {s : AtomicSystem AdaptiveLocation}
    (hRun : run (AtomicSystem.step (new min max).code) (initialSystem initial) events = some s)
    {n : Nat} (hEnough : 10 * (max - min) < n) (hBatches : 199 ≤ n) :
    let x := levels ((new min max).perform s.memory (List.replicate n .success))
    x.current = max ∧ x.batchSize = 100 ∧ x.backoffMs = 0 := by
  obtain ⟨n, rfl⟩ : ∃ m, n = m + 1 := ⟨n - 1, by omega⟩
  have h := recovered_of_successes s.memory hWord (levels_of_run hMin hMax hWord hRun) n
  obtain ⟨hLow, hHigh, hCurrent⟩ := h.current
  obtain ⟨hBatchLow, hBatchHigh, hBatch⟩ := h.batch
  have hCount := h.successes
  have hBackoff := h.backoff
  rw [decayed_all (by omega)] at hBackoff
  refine ⟨?_, ?_, ?_⟩
  · omega
  · omega
  · omega

/-- From every such state, rate limits in a row lead to the least concurrency, the least batches and the
longest delay. -/
theorem rate_limits_back_off {initial : Nat} (hMin : min ≤ initial) (hMax : initial ≤ max)
    (hWord : max ≤ 2 ^ 63) {events : List (AtomicEvent RequestOutcome)}
    {s : AtomicSystem AdaptiveLocation}
    (hRun : run (AtomicSystem.step (new min max).code) (initialSystem initial) events = some s)
    {n : Nat} (hEnough : max / 2 ^ n ≤ min) (hDelays : 15 ≤ n) :
    let x := levels ((new min max).perform s.memory (List.replicate n .rateLimit))
    x.current = min ∧ x.batchSize = 5 ∧ x.backoffMs = 30000 := by
  have hPow : 2 ^ 15 ≤ 2 ^ n := Nat.pow_le_pow_right (by norm_num) hDelays
  have hBatches : 100 / 2 ^ n ≤ 100 / 2 ^ 15 := Nat.div_le_div_left hPow (by norm_num)
  obtain ⟨n, rfl⟩ : ∃ m, n = m + 1 := ⟨n - 1, by omega⟩
  have h := backedOff_of_rateLimits s.memory (levels_of_run hMin hMax hWord hRun) n
  obtain ⟨hBackoff, hCurrent, hBatch⟩ := h
  refine ⟨?_, ?_, ?_⟩
  · omega
  · omega
  · omega

theorem successes_recover_program :
    (10 * (200 - 2) < 1981 ∧ 199 ≤ 1981) ∧
    (let x := levels ((new 2 200).perform afterTwoReports.memory (List.replicate 1981 .success))
    x.current = 200 ∧ x.batchSize = 100 ∧ x.backoffMs = 0) :=
  ⟨by norm_num, successes_recover (show 2 ≤ 20 by norm_num) (show 20 ≤ 200 by norm_num) (by norm_num)
    run_twoReports (by norm_num) (by norm_num)⟩

theorem rate_limits_back_off_program :
    (200 / 2 ^ 15 ≤ 2 ∧ 15 ≤ 15) ∧
    (let x := levels ((new 2 200).perform afterTwoReports.memory (List.replicate 15 .rateLimit))
    x.current = 2 ∧ x.batchSize = 5 ∧ x.backoffMs = 30000) :=
  ⟨by norm_num, rate_limits_back_off (show 2 ≤ 20 by norm_num) (show 20 ≤ 200 by norm_num) (by norm_num)
    run_twoReports (by norm_num) (by norm_num)⟩

end Rows

end Alone

end AdaptiveConcurrency

end Rindexer
