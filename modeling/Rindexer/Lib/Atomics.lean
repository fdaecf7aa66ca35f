import Mathlib.Algebra.BigOperators.Group.List.Basic
import Mathlib.Data.List.Forall2
import Mathlib.Tactic.NormNum
import Rindexer.Lib.Transition

/-! Threads that share locations of 64 bits and go through them by atomic steps.  The steps of all
threads come in any order.  A load, or a comparison that fails, may return any value that the location
has had; the operations that change a location see its latest value. -/

namespace Rindexer.Lib

/-- The values that a location has had. -/
structure AtomicCell where
  latest : Nat
  earlier : List Nat

namespace AtomicCell

def values (cell : AtomicCell) : List Nat := cell.latest :: cell.earlier

def push (cell : AtomicCell) (value : Nat) : AtomicCell := ⟨value, cell.latest :: cell.earlier⟩

@[simp] theorem push_latest (cell : AtomicCell) (value : Nat) : (cell.push value).latest = value := rfl

@[simp] theorem values_push (cell : AtomicCell) (value : Nat) :
    (cell.push value).values = value :: cell.values := rfl

theorem latest_mem (cell : AtomicCell) : cell.latest ∈ cell.values := List.mem_cons_self ..

end AtomicCell

/-- What a thread still does. -/
inductive AtomicProgram (L : Type)
  | done
  | load (location : L) (next : Nat → AtomicProgram L)
  | store (location : L) (value : Nat) (next : AtomicProgram L)
  | fetchAdd (location : L) (value : Nat) (next : Nat → AtomicProgram L)
  | compareExchange (location : L) (current new : Nat) (next : Bool → AtomicProgram L)

/-- A call of the shared object, or a step of a thread, where `choice` says how far back a read
reaches. -/
inductive AtomicEvent (C : Type)
  | call (c : C)
  | step (thread choice : Nat)

section Steps

variable {L C : Type} [DecidableEq L]

def pushAt (memory : L → AtomicCell) (location : L) (value : Nat) : L → AtomicCell :=
  fun l => if l = location then (memory l).push value else memory l

@[simp] theorem pushAt_same (memory : L → AtomicCell) (location : L) (value : Nat) :
    pushAt memory location value location = (memory location).push value :=
  if_pos rfl

theorem pushAt_ne {memory : L → AtomicCell} {l location : L} {value : Nat} (h : l ≠ location) :
    pushAt memory location value l = memory l :=
  if_neg h

namespace AtomicProgram

def step (memory : L → AtomicCell) :
    AtomicProgram L → Nat → Option ((L → AtomicCell) × AtomicProgram L)
  | done, _ => none
  | load location next, choice =>
    (memory location).values[choice]?.map fun value => (memory, next value)
  | store location value next, _ => some (pushAt memory location value, next)
  | fetchAdd location value next, _ =>
    let old := (memory location).latest
    some (pushAt memory location ((old + value) % 2 ^ 64), next old)
  | compareExchange location current new next, choice =>
    (memory location).values[choice]?.bind fun value =>
      if value ≠ current then some (memory, next false)
      else if choice = 0 then some (pushAt memory location new, next true)
      else none

/-- The memory after the program when no other thread takes a step meanwhile. -/
def alone (memory : L → AtomicCell) : AtomicProgram L → L → AtomicCell
  | done => memory
  | load location next => (next (memory location).latest).alone memory
  | store location value next => next.alone (pushAt memory location value)
  | fetchAdd location value next =>
    (next (memory location).latest).alone
      (pushAt memory location (((memory location).latest + value) % 2 ^ 64))
  | compareExchange location current new next =>
    if (memory location).latest = current then (next true).alone (pushAt memory location new)
    else (next false).alone memory

/-- Whatever values with `P` the program reads, the values that it writes have `P`. -/
def Keeps (P : L → Nat → Prop) : AtomicProgram L → Prop
  | done => True
  | load location next => ∀ value, P location value → (next value).Keeps P
  | store location value next => P location value ∧ next.Keeps P
  | fetchAdd location value next =>
    ∀ old, P location old → P location ((old + value) % 2 ^ 64) ∧ (next old).Keeps P
  | compareExchange location current new next =>
    (P location current → P location new) ∧ ∀ exchanged, (next exchanged).Keeps P

/-- Whatever it reads, the program adds `amount` to the location in all and never changes it in another
way. -/
def Adds (location : L) : AtomicProgram L → Nat → Prop
  | done, amount => amount = 0
  | load _ next, amount => ∀ value, (next value).Adds location amount
  | store l _ next, amount => l ≠ location ∧ next.Adds location amount
  | fetchAdd l value next, amount =>
    if l = location then ∃ rest, amount = value + rest ∧ ∀ old, (next old).Adds location rest
    else ∀ old, (next old).Adds location amount
  | compareExchange l _ _ next, amount =>
    l ≠ location ∧ ∀ exchanged, (next exchanged).Adds location amount

end AtomicProgram

/-- The shared locations and the threads with what each still does. -/
structure AtomicSystem (L : Type) where
  memory : L → AtomicCell
  threads : List (AtomicProgram L)

namespace AtomicSystem

variable (code : C → AtomicProgram L)

def step (s : AtomicSystem L) : AtomicEvent C → Option (AtomicSystem L)
  | .call c => some { s with threads := s.threads ++ [code c] }
  | .step thread choice =>
    s.threads[thread]?.bind fun program =>
      (program.step s.memory choice).map fun next => ⟨next.1, s.threads.set thread next.2⟩

/-- Every value that a thread can read has `P`, and the threads keep that. -/
structure Within (P : L → Nat → Prop) (s : AtomicSystem L) : Prop where
  values : ∀ location, ∀ value ∈ (s.memory location).values, P location value
  threads : ∀ program ∈ s.threads, program.Keeps P

/-- All calls have returned. -/
def Quiet (s : AtomicSystem L) : Prop := ∀ program ∈ s.threads, program = .done

end AtomicSystem

end Steps

/-! ### What every value of a location has -/

section Values

variable {L C : Type} [DecidableEq L] {P : L → Nat → Prop}

theorem forall_values_pushAt {memory : L → AtomicCell} {location : L} {value : Nat}
    (hMemory : ∀ l, ∀ v ∈ (memory l).values, P l v) (hValue : P location value) :
    ∀ l, ∀ v ∈ (pushAt memory location value l).values, P l v := by
  intro l v hv
  by_cases hl : l = location
  · subst hl
    rw [pushAt_same, AtomicCell.values_push, List.mem_cons] at hv
    rcases hv with rfl | hv
    · exact hValue
    · exact hMemory _ v hv
  · rw [pushAt_ne hl] at hv
    exact hMemory l v hv

theorem AtomicProgram.Keeps.step {program : AtomicProgram L} {memory : L → AtomicCell} {choice : Nat}
    {next : (L → AtomicCell) × AtomicProgram L} (h : program.Keeps P)
    (hMemory : ∀ l, ∀ v ∈ (memory l).values, P l v) (hStep : program.step memory choice = some next) :
    next.2.Keeps P ∧ ∀ l, ∀ v ∈ (next.1 l).values, P l v := by
  cases program with
  | done => cases hStep
  | load location k =>
    obtain ⟨value, hValue, rfl⟩ := Option.map_eq_some_iff.mp hStep
    exact ⟨h value (hMemory location value (List.mem_of_getElem? hValue)), hMemory⟩
  | store location value k =>
    cases hStep
    exact ⟨h.2, forall_values_pushAt hMemory h.1⟩
  | fetchAdd location value k =>
    cases hStep
    obtain ⟨hNew, hKeeps⟩ := h _ (hMemory location _ (memory location).latest_mem)
    exact ⟨hKeeps, forall_values_pushAt hMemory hNew⟩
  | compareExchange location current new k =>
    obtain ⟨value, hValue, hTaken⟩ := Option.bind_eq_some_iff.mp hStep
    split at hTaken
    · cases hTaken
      exact ⟨h.2 false, hMemory⟩
    · rename_i hCurrent
      split at hTaken
      · cases hTaken
        have hRead : P location current := by
          rw [← not_not.mp hCurrent]
          exact hMemory location value (List.mem_of_getElem? hValue)
        exact ⟨h.2 true, forall_values_pushAt hMemory (h.1 hRead)⟩
      · cases hTaken

variable {code : C → AtomicProgram L}

theorem AtomicSystem.Within.step (hCode : ∀ c, (code c).Keeps P) {s s' : AtomicSystem L}
    {event : AtomicEvent C} (h : s.Within P) (hStep : s.step code event = some s') : s'.Within P := by
  cases event with
  | call c =>
    cases hStep
    refine ⟨h.values, fun program hProgram => ?_⟩
    rcases List.mem_append.mp hProgram with hOld | hNew
    · exact h.threads program hOld
    · rw [List.mem_singleton.mp hNew]
      exact hCode c
  | step thread choice =>
    obtain ⟨program, hProgram, hTaken⟩ := Option.bind_eq_some_iff.mp hStep
    obtain ⟨next, hNext, rfl⟩ := Option.map_eq_some_iff.mp hTaken
    obtain ⟨hKeeps, hValues⟩ :=
      (h.threads program (List.mem_of_getElem? hProgram)).step h.values hNext
    refine ⟨hValues, fun program' hProgram' => ?_⟩
    rcases List.mem_or_eq_of_mem_set hProgram' with hOld | rfl
    · exact h.threads program' hOld
    · exact hKeeps

/-- When the code of every call keeps `P`, every value that is read in a run has `P`. -/
theorem AtomicSystem.always_within (hCode : ∀ c, (code c).Keeps P) {s : AtomicSystem L}
    {events : List (AtomicEvent C)} (hStart : s.Within P) :
    Always (AtomicSystem.step code) (AtomicSystem.Within P) s events :=
  always_of_kept (fun _ _ _ h hStep => h.step hCode hStep) hStart

end Values

/-! ### What is added to a location -/

section Additions

variable {L C : Type} [DecidableEq L] {location : L}

/-- The calls of a run. -/
def calls : List (AtomicEvent C) → List C
  | [] => []
  | .call c :: events => c :: calls events
  | .step _ _ :: events => calls events

theorem AtomicProgram.Adds.step {program : AtomicProgram L} {memory : L → AtomicCell} {choice amount : Nat}
    {next : (L → AtomicCell) × AtomicProgram L} (h : program.Adds location amount)
    (hStep : program.step memory choice = some next) :
    ∃ rest, next.2.Adds location rest ∧
      ((next.1 location).latest + rest) % 2 ^ 64 = ((memory location).latest + amount) % 2 ^ 64 ∧
      ((memory location).latest < 2 ^ 64 → (next.1 location).latest < 2 ^ 64) := by
  cases program with
  | done => cases hStep
  | load l k =>
    obtain ⟨value, -, rfl⟩ := Option.map_eq_some_iff.mp hStep
    exact ⟨amount, h value, rfl, id⟩
  | store l value k =>
    cases hStep
    refine ⟨amount, h.2, ?_⟩
    simp only [pushAt_ne (Ne.symm h.1), true_and, imp_self]
  | fetchAdd l value k =>
    cases hStep
    rw [AtomicProgram.Adds] at h
    split at h
    · rename_i hl
      subst hl
      obtain ⟨rest, rfl, hRest⟩ := h
      refine ⟨rest, hRest _, ?_, fun _ => ?_⟩
      · simp only [pushAt_same, AtomicCell.push_latest, Nat.mod_add_mod, Nat.add_assoc]
      · simp only [pushAt_same, AtomicCell.push_latest]
        exact Nat.mod_lt _ (by norm_num)
    · rename_i hl
      refine ⟨amount, h _, ?_⟩
      simp only [pushAt_ne (Ne.symm hl), true_and, imp_self]
  | compareExchange l current new k =>
    obtain ⟨value, -, hTaken⟩ := Option.bind_eq_some_iff.mp hStep
    split at hTaken
    · cases hTaken
      exact ⟨amount, h.2 false, rfl, id⟩
    · split at hTaken
      · cases hTaken
        refine ⟨amount, h.2 true, ?_⟩
        simp only [pushAt_ne (Ne.symm h.1), true_and, imp_self]
      · cases hTaken

variable {code : C → AtomicProgram L} {amount : C → Nat}

/-- What the location holds, with what the threads still add to it. -/
def AtomicSystem.Owes (location : L) (s : AtomicSystem L) (total : Nat) : Prop :=
  (s.memory location).latest < 2 ^ 64 ∧
    ∃ rest, List.Forall₂ (AtomicProgram.Adds location) s.threads rest ∧
      ((s.memory location).latest + rest.sum) % 2 ^ 64 = total % 2 ^ 64

theorem sum_set_of_getElem? {rest : List Nat} {i old : Nat} (new : Nat) (h : rest[i]? = some old) :
    (rest.set i new).sum + old = rest.sum + new := by
  induction rest generalizing i with
  | nil => cases h
  | cons a rest ih =>
    cases i with
    | zero =>
      cases h
      simp only [List.set_cons_zero, List.sum_cons]
      omega
    | succ i =>
      have := ih h
      simp only [List.set_cons_succ, List.sum_cons]
      omega

theorem forall₂_set {α β : Type} {R : α → β → Prop} {as : List α} {bs : List β} (h : List.Forall₂ R as bs)
    {i : Nat} {a : α} {b : β} (hab : R a b) : List.Forall₂ R (as.set i a) (bs.set i b) := by
  induction h generalizing i with
  | nil => exact .nil
  | cons hHead hTail ih =>
    cases i with
    | zero => exact .cons hab hTail
    | succ i => exact .cons hHead ih

theorem forall₂_getElem? {α β : Type} {R : α → β → Prop} {as : List α} {bs : List β}
    (h : List.Forall₂ R as bs) {i : Nat} {a : α} (ha : as[i]? = some a) :
    ∃ b, bs[i]? = some b ∧ R a b := by
  induction h generalizing i with
  | nil => cases ha
  | cons hHead hTail ih =>
    cases i with
    | zero =>
      cases ha
      exact ⟨_, rfl, hHead⟩
    | succ i => exact ih ha

theorem AtomicSystem.Owes.call (hCode : ∀ c, (code c).Adds location (amount c)) {s : AtomicSystem L}
    {total : Nat} (h : s.Owes location total) (c : C) :
    AtomicSystem.Owes location { s with threads := s.threads ++ [code c] } (total + amount c) := by
  obtain ⟨hLt, rest, hThreads, hSum⟩ := h
  refine ⟨hLt, rest ++ [amount c], List.rel_append hThreads (.cons (hCode c) .nil), ?_⟩
  rw [List.sum_append, List.sum_singleton, ← Nat.add_assoc, Nat.add_mod, hSum, ← Nat.add_mod]

theorem AtomicSystem.Owes.step {s s' : AtomicSystem L} {total thread choice : Nat}
    (h : s.Owes location total) (hStep : s.step code (.step thread choice) = some s') :
    s'.Owes location total := by
  obtain ⟨hLt, rest, hThreads, hSum⟩ := h
  obtain ⟨program, hProgram, hTaken⟩ := Option.bind_eq_some_iff.mp hStep
  obtain ⟨next, hNext, rfl⟩ := Option.map_eq_some_iff.mp hTaken
  obtain ⟨old, hOld, hAdds⟩ := forall₂_getElem? hThreads hProgram
  obtain ⟨new, hNew, hLatest, hWord⟩ := hAdds.step hNext
  refine ⟨hWord hLt, rest.set thread new, forall₂_set hThreads hNew, ?_⟩
  have hSet := sum_set_of_getElem? new hOld
  change ((next.1 location).latest + (rest.set thread new).sum) % 2 ^ 64 = _
  rw [← hSum]
  omega

/-- In a run, a location holds what it held and what the calls add, less what the threads still owe. -/
theorem AtomicSystem.run_owes (hCode : ∀ c, (code c).Adds location (amount c)) {s s' : AtomicSystem L}
    {events : List (AtomicEvent C)} {total : Nat} (h : s.Owes location total)
    (hRun : run (AtomicSystem.step code) s events = some s') :
    s'.Owes location (total + ((calls events).map amount).sum) := by
  induction events generalizing s total with
  | nil =>
    cases hRun
    exact h
  | cons event events ih =>
    obtain ⟨mid, hStep, hRest⟩ := Option.bind_eq_some_iff.mp hRun
    cases event with
    | call c =>
      cases hStep
      have hCall := ih (h.call hCode c) hRest
      rw [calls, List.map_cons, List.sum_cons, ← Nat.add_assoc]
      exact hCall
    | step thread choice => exact ih (h.step hStep) hRest

theorem sum_of_quiet {threads : List (AtomicProgram L)} {rest : List Nat}
    (h : List.Forall₂ (AtomicProgram.Adds location) threads rest)
    (hDone : ∀ program ∈ threads, program = .done) : rest.sum = 0 := by
  induction h with
  | nil => rfl
  | cons hHead hTail ih =>
    obtain ⟨hFirst, hRest⟩ := List.forall_mem_cons.mp hDone
    rw [hFirst] at hHead
    rw [List.sum_cons, ih hRest, show _ = 0 from hHead]

theorem AtomicSystem.Quiet.latest {s : AtomicSystem L} {total : Nat} (hQuiet : s.Quiet)
    (h : s.Owes location total) : (s.memory location).latest = total % 2 ^ 64 := by
  obtain ⟨hLt, rest, hThreads, hSum⟩ := h
  rw [← hSum, sum_of_quiet hThreads hQuiet, Nat.add_zero, Nat.mod_eq_of_lt hLt]

end Additions

/-! ### Calls that nothing interrupts -/

section Alone

variable {L C : Type} [DecidableEq L] {code : C → AtomicProgram L}

theorem AtomicSystem.run_append {s s' : AtomicSystem L} {first : List (AtomicEvent C)}
    (rest : List (AtomicEvent C)) (h : run (AtomicSystem.step code) s first = some s') :
    run (AtomicSystem.step code) s (first ++ rest) = run (AtomicSystem.step code) s' rest := by
  induction first generalizing s with
  | nil =>
    cases h
    rfl
  | cons event first ih =>
    obtain ⟨mid, hStep, hRest⟩ := Option.bind_eq_some_iff.mp h
    rw [List.cons_append, run_cons _ hStep]
    exact ih hRest

theorem AtomicProgram.alone_run (program : AtomicProgram L) (memory : L → AtomicCell)
    (threads : List (AtomicProgram L)) :
    ∃ events, run (AtomicSystem.step code) ⟨memory, threads ++ [program]⟩ events =
      some ⟨program.alone memory, threads ++ [.done]⟩ := by
  -- The thread is the last one, so its steps are those of index `threads.length`.
  have hFirst : ∀ {memory' : L → AtomicCell} {p p' : AtomicProgram L} {m : L → AtomicCell},
      p.step m 0 = some (memory', p') → AtomicSystem.step code ⟨m, threads ++ [p]⟩
        (.step threads.length 0) = some ⟨memory', threads ++ [p']⟩ := by
    intro memory' p p' m h
    simp [AtomicSystem.step, h]
  induction program generalizing memory with
  | done => exact ⟨[], rfl⟩
  | load l next ih =>
    obtain ⟨events, hRun⟩ := ih (memory l).latest memory
    refine ⟨.step threads.length 0 :: events, ?_⟩
    rw [run_cons _ (hFirst rfl)]
    exact hRun
  | store l value next ih =>
    obtain ⟨events, hRun⟩ := ih (pushAt memory l value)
    refine ⟨.step threads.length 0 :: events, ?_⟩
    rw [run_cons _ (hFirst rfl)]
    exact hRun
  | fetchAdd l value next ih =>
    obtain ⟨events, hRun⟩ := ih (memory l).latest
      (pushAt memory l (((memory l).latest + value) % 2 ^ 64))
    refine ⟨.step threads.length 0 :: events, ?_⟩
    rw [run_cons _ (hFirst rfl)]
    exact hRun
  | compareExchange l current new next ih =>
    by_cases hCurrent : (memory l).latest = current
    · obtain ⟨events, hRun⟩ := ih true (pushAt memory l new)
      refine ⟨.step threads.length 0 :: events, ?_⟩
      have hStep : (compareExchange l current new next).step memory 0 =
          some (pushAt memory l new, next true) := by
        simp [AtomicProgram.step, AtomicCell.values, hCurrent]
      rw [run_cons _ (hFirst hStep), alone, if_pos hCurrent]
      exact hRun
    · obtain ⟨events, hRun⟩ := ih false memory
      refine ⟨.step threads.length 0 :: events, ?_⟩
      have hStep : (compareExchange l current new next).step memory 0 = some (memory, next false) := by
        simp [AtomicProgram.step, AtomicCell.values, hCurrent]
      rw [run_cons _ (hFirst hStep), alone, if_neg hCurrent]
      exact hRun

end Alone

end Rindexer.Lib
