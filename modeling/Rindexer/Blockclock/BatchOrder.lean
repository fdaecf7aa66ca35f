import Rindexer.Blockclock.Attaching

/-! When attaching timestamps keeps the batch.  The fetcher puts the logs that an answer leaves out in
front of the others, asks until it has an answer for each of them, and enters what it got also into
logs that had a timestamp; so the batch comes back as it was if each answer leaves out logs at its
head only and agrees with the timestamps that are there. -/

namespace Rindexer.Blockclock

open Rindexer.Lib

variable {ε Data : Type}

/-- The log without its timestamp. -/
def Log.bare (log : Log Data) : Data × Option Nat := (log.rest, log.blockNumber)

/-- The log has a timestamp, and it is the one wanted if one is. -/
def Log.Given (wanted : Option UInt64) (log : Log Data) : Prop :=
  ∃ timestamp, log.blockTimestamp = some timestamp ∧ ∀ w, wanted = some w → timestamp = w

/-- The timestamp that a log came with, in seconds. -/
def BlockClock.wanted (log : Log Data) : Option UInt64 :=
  log.blockTimestamp.map BlockClock.normalized

/-- What should come back for a log. -/
def Log.Preserved (log attached : Log Data) : Prop :=
  attached.bare = log.bare ∧ attached.Given (BlockClock.wanted log)

/-- An error comes back, or the same logs in the same order, each with its timestamp. -/
def BlockClock.Preserves (clock : BlockClock ε) (logs : List (Log Data)) : Prop :=
  ∃ fuel result, clock.attachLogTimestamps fuel logs = some result ∧
    match result with
    | .error stop => stop.IsError
    | .ok attached => List.Forall₂ Log.Preserved logs attached

/-- One of the calls fails. -/
inductive BlockFetcher.Refused (fetcher : BlockFetcher ε) : Nat → List (Log Data) → Prop
  | now {call : Nat} {logs : List (Log Data)} {stop : Stop ε} (hMissing : blocksWithoutTs logs ≠ [])
      (hStop : fetcher.getBlocks call (blocksWithoutTs logs) = .error stop) (hError : stop.IsError) :
      Refused fetcher call logs
  | later {call : Nat} {logs : List (Log Data)} {timestamps : OrderedMap Nat UInt64}
      (hMissing : blocksWithoutTs logs ≠ [])
      (hAnswer : fetcher.getBlocks call (blocksWithoutTs logs) = .ok timestamps)
      (hLeft : Refused fetcher (call + 1)
        ((logs.map (attach timestamps)).filter fun log => !log.blockTimestamp.isSome)) :
      Refused fetcher call logs

/-- The answers complete the logs, each with the timestamp that is wanted for it: a call leaves out
logs at the head only, and the next calls complete these. -/
inductive BlockFetcher.Orderly (fetcher : BlockFetcher ε) :
    Nat → List (Option UInt64 × Log Data) → Prop
  | complete {call : Nat} {logs : List (Option UInt64 × Log Data)}
      (hGiven : ∀ log ∈ logs, log.2.Given log.1) : Orderly fetcher call logs
  | answered {call : Nat} {waiting answered : List (Option UInt64 × Log Data)}
      {timestamps : OrderedMap Nat UInt64}
      (hMissing : blocksWithoutTs ((waiting ++ answered).map Prod.snd) ≠ [])
      (hAnswer : fetcher.getBlocks call (blocksWithoutTs ((waiting ++ answered).map Prod.snd)) =
        .ok timestamps)
      (hWaiting : ∀ log ∈ waiting, (attach timestamps log.2).blockTimestamp = none)
      (hAnswered : ∀ log ∈ answered, (attach timestamps log.2).Given log.1)
      (hRest : Orderly fetcher (call + 1) waiting) : Orderly fetcher call (waiting ++ answered)

/-- What is found without the node keeps the batch, or the node's answers do. -/
def BlockClock.Orderly (clock : BlockClock ε) (logs : List (Log Data)) : Prop :=
  (∀ log ∈ logs, log.blockTimestamp ≠ none) ∨
    ∃ located, BlockClock.spaced clock.fetcher.chain (logs.map BlockClock.normalize) = some located ∧
      (clock.fetcher.Refused 0 (clock.encoded located) ∨
        clock.fetcher.Orderly 0 ((logs.map BlockClock.wanted).zip (clock.encoded located)))

/-! ### One answer -/

section Attach

variable (timestamps : OrderedMap Nat UInt64)

@[simp] theorem attach_bare (log : Log Data) : (attach timestamps log).bare = log.bare := by
  rw [attach]
  split <;> rfl

/-- A log that is left without a timestamp is as it was. -/
theorem attach_eq_self {log : Log Data} (h : (attach timestamps log).blockTimestamp = none) :
    attach timestamps log = log := by
  rw [attach] at h ⊢
  split
  · rename_i timestamp hSome
    rw [hSome] at h
    cases h
  · rfl

theorem map_attach_bare (logs : List (Log Data)) :
    (logs.map (attach timestamps)).map Log.bare = logs.map Log.bare := by
  rw [List.map_map]
  exact List.map_congr_left fun log _ => attach_bare timestamps log

end Attach

theorem Log.Given.isSome {wanted : Option UInt64} {log : Log Data} (h : log.Given wanted) :
    log.blockTimestamp.isSome = true := by
  obtain ⟨timestamp, hSome, -⟩ := h
  rw [hSome]
  rfl

namespace BlockFetcher

variable {fetcher : BlockFetcher ε} {call fuel : Nat}

theorem blocksWithoutTs_eq_nil {logs : List (Log Data)}
    (h : ∀ log ∈ logs, log.blockTimestamp.isSome = true) : blocksWithoutTs logs = [] := by
  rw [blocksWithoutTs, List.filterMap_eq_nil_iff]
  intro log hMem
  have hSome := h log hMem
  cases hTs : log.blockTimestamp with
  | none =>
    rw [hTs] at hSome
    cases hSome
  | some timestamp => rfl

/-- The logs of a round, apart from their timestamps, are those it returns. -/
theorem attachLogTimestamps_perm {logs attached : List (Log Data)}
    (h : fetcher.attachLogTimestamps fuel call logs = some (.ok attached)) :
    (attached.map Log.bare).Perm (logs.map Log.bare) := by
  induction fuel generalizing call logs attached with
  | zero => cases h
  | succ fuel ih =>
    rw [attachLogTimestamps] at h
    split at h
    · cases h
      exact List.Perm.refl _
    · split at h
      · cases h
      · rename_i timestamps _
        simp only at h
        rw [← map_attach_bare timestamps logs]
        have hSplit := List.filter_append_perm (fun log => log.blockTimestamp.isSome)
          (logs.map (attach timestamps))
        split at h
        · obtain ⟨result, hResult, hEq⟩ := Option.map_eq_some_iff.mp h
          cases result with
          | error stop => cases hEq
          | ok completed =>
            cases hEq
            rw [List.map_append]
            refine (List.Perm.append_right _ (ih hResult)).trans ?_
            rw [← List.map_append]
            exact (List.perm_append_comm.trans hSplit).map Log.bare
        · rename_i hNone
          cases h
          rw [not_not.mp hNone, List.append_nil] at hSplit
          exact hSplit.map Log.bare

/-- What comes back for a log that was found with `log.1` wanted. -/
def Fills (log : Option UInt64 × Log Data) (attached : Log Data) : Prop :=
  attached.bare = log.2.bare ∧ attached.Given log.1

/-- An answer that leaves out the logs at the head sets these apart as they are. -/
theorem filter_attached {timestamps : OrderedMap Nat UInt64}
    {waiting answered : List (Option UInt64 × Log Data)}
    (hWaiting : ∀ log ∈ waiting, (attach timestamps log.2).blockTimestamp = none)
    (hAnswered : ∀ log ∈ answered, (attach timestamps log.2).blockTimestamp.isSome = true) :
    ((((waiting ++ answered).map Prod.snd).map (attach timestamps)).filter fun log =>
        log.blockTimestamp.isSome) = answered.map (fun log => attach timestamps log.2) ∧
    ((((waiting ++ answered).map Prod.snd).map (attach timestamps)).filter fun log =>
        !log.blockTimestamp.isSome) = waiting.map Prod.snd := by
  have hLeft : waiting.map (fun log => attach timestamps log.2) = waiting.map Prod.snd :=
    List.map_congr_left fun log hMem => attach_eq_self timestamps (hWaiting log hMem)
  have hNone : ∀ log ∈ waiting.map Prod.snd, log.blockTimestamp = none := by
    intro log hMem
    obtain ⟨pair, hPair, rfl⟩ := List.mem_map.mp hMem
    have hAttached := hWaiting pair hPair
    rwa [attach_eq_self timestamps hAttached] at hAttached
  have hSome : ∀ log ∈ answered.map (fun log => attach timestamps log.2),
      log.blockTimestamp.isSome = true := by
    intro log hMem
    obtain ⟨pair, hPair, rfl⟩ := List.mem_map.mp hMem
    exact hAnswered pair hPair
  have hAll : ((waiting ++ answered).map Prod.snd).map (attach timestamps) =
      waiting.map Prod.snd ++ answered.map (fun log => attach timestamps log.2) := by
    rw [← hLeft, List.map_map, ← List.map_append]
    rfl
  rw [hAll, List.filter_append, List.filter_append]
  constructor
  · rw [List.filter_eq_nil_iff.mpr fun log hMem => by simp [hNone log hMem], List.nil_append,
      List.filter_eq_self.mpr hSome]
  · rw [List.filter_eq_self.mpr fun log hMem => by simp [hNone log hMem],
      List.filter_eq_nil_iff.mpr fun log hMem => by simp [hSome log hMem], List.append_nil]

theorem forall₂_map_right {R : Option UInt64 × Log Data → Log Data → Prop}
    {f : Option UInt64 × Log Data → Log Data} {logs : List (Option UInt64 × Log Data)} :
    List.Forall₂ R logs (logs.map f) ↔ ∀ log ∈ logs, R log (f log) := by
  rw [List.forall₂_map_right_iff, List.forall₂_same]

/-- Orderly answers bring the logs back in their order. -/
theorem attachLogTimestamps_of_orderly {logs : List (Option UInt64 × Log Data)}
    (h : fetcher.Orderly call logs) :
    ∃ fuel attached, fetcher.attachLogTimestamps fuel call (logs.map Prod.snd) = some (.ok attached) ∧
      List.Forall₂ Fills logs attached := by
  induction h with
  | @complete call logs hGiven =>
    refine ⟨1, logs.map Prod.snd, ?_, forall₂_map_right.mpr fun log hMem => ⟨rfl, hGiven log hMem⟩⟩
    rw [attachLogTimestamps, if_pos]
    apply blocksWithoutTs_eq_nil
    intro log hMem
    obtain ⟨pair, hPair, rfl⟩ := List.mem_map.mp hMem
    exact (hGiven pair hPair).isSome
  | @answered call waiting answered timestamps hMissing hAnswer hWaiting hAnswered _ ih =>
    obtain ⟨fuel, completed, hRest, hFills⟩ := ih
    obtain ⟨hWith, hWithout⟩ := filter_attached hWaiting fun log hMem => (hAnswered log hMem).isSome
    have hTail : List.Forall₂ Fills answered (answered.map fun log => attach timestamps log.2) :=
      forall₂_map_right.mpr fun log hMem => ⟨attach_bare timestamps log.2, hAnswered log hMem⟩
    refine ⟨fuel + 1, completed ++ answered.map fun log => attach timestamps log.2, ?_,
      List.rel_append hFills hTail⟩
    rw [attachLogTimestamps, if_neg hMissing, hAnswer]
    simp only
    rw [hWith, hWithout]
    by_cases hNone : waiting = []
    · subst hNone
      cases hFills
      simp
    · rw [if_pos (by simpa using hNone), hRest]
      rfl

theorem attachLogTimestamps_of_refused {logs : List (Log Data)} (h : fetcher.Refused call logs) :
    ∃ fuel stop, fetcher.attachLogTimestamps fuel call logs = some (.error stop) ∧ stop.IsError := by
  induction h with
  | @now call logs stop hMissing hStop hError =>
    exact ⟨1, stop, by rw [attachLogTimestamps, if_neg hMissing, hStop], hError⟩
  | @later call logs timestamps hMissing hAnswer hLeft ih =>
    obtain ⟨fuel, stop, hRest, hError⟩ := ih
    have hSome : (logs.map (attach timestamps)).filter (fun log => !log.blockTimestamp.isSome) ≠ [] := by
      intro hNil
      rw [hNil] at hLeft
      cases hLeft <;> contradiction
    refine ⟨fuel + 1, stop, ?_, hError⟩
    rw [attachLogTimestamps, if_neg hMissing, hAnswer]
    simp only
    rw [if_pos hSome, hRest]
    rfl

/-- An error that comes back is that of a call. -/
theorem refused_of_error {logs : List (Log Data)} {stop : Stop ε}
    (h : fetcher.attachLogTimestamps fuel call logs = some (.error stop)) (hError : stop.IsError) :
    fetcher.Refused call logs := by
  induction fuel generalizing call logs with
  | zero => cases h
  | succ fuel ih =>
    rw [attachLogTimestamps] at h
    split at h
    · cases h
    · rename_i hMissing
      split at h
      · rename_i hStop
        cases h
        exact .now hMissing hStop hError
      · rename_i timestamps hAnswer
        simp only at h
        split at h
        · obtain ⟨result, hResult, hEq⟩ := Option.map_eq_some_iff.mp h
          cases result with
          | error stop' =>
            cases hEq
            exact .later hMissing hAnswer (ih hResult)
          | ok completed => cases hEq
        · cases h

/-- Where a batch is cut into the logs that are waiting and those that are answered. -/
theorem split_of_fills {timestamps : OrderedMap Nat UInt64}
    {logs : List (Option UInt64 × Log Data)} {completed : List (Log Data)}
    (hNodup : (logs.map fun log => log.2.bare).Nodup)
    (hPerm : (completed.map Log.bare).Perm ((((logs.map Prod.snd).map (attach timestamps)).filter
      fun log => !log.blockTimestamp.isSome).map Log.bare))
    (hFills : List.Forall₂ Fills logs (completed ++ ((logs.map Prod.snd).map (attach timestamps)).filter
      fun log => log.blockTimestamp.isSome)) :
    ∃ waiting answered, logs = waiting ++ answered ∧
      (∀ log ∈ waiting, (attach timestamps log.2).blockTimestamp = none) ∧
      (∀ log ∈ answered, (attach timestamps log.2).blockTimestamp.isSome = true) ∧
      List.Forall₂ Fills waiting completed ∧
      List.Forall₂ Fills answered (((logs.map Prod.snd).map (attach timestamps)).filter
        fun log => log.blockTimestamp.isSome) := by
  have hWaiting := List.forall₂_take_append logs _ _ hFills
  have hAnswered := List.forall₂_drop_append logs _ _ hFills
  -- logs of one content are one log, so it is waiting exactly where its content is
  have hOnce : ∀ log ∈ logs, ∀ other ∈ (logs.map Prod.snd).map (attach timestamps),
      other.bare = log.2.bare → other = attach timestamps log.2 := by
    intro log hLog other hOther hBare
    obtain ⟨source, hSource, rfl⟩ := List.mem_map.mp hOther
    obtain ⟨pair, hPair, rfl⟩ := List.mem_map.mp hSource
    rw [attach_bare] at hBare
    rw [List.inj_on_of_nodup_map hNodup hPair hLog hBare]
  have hBares : ∀ {front : List (Option UInt64 × Log Data)} {back : List (Log Data)},
      List.Forall₂ Fills front back → ∀ log ∈ front, log.2.bare ∈ back.map Log.bare := by
    intro front back hBoth
    induction hBoth with
    | nil => exact fun log hMem => nomatch hMem
    | @cons log attached front back hFill _ ih =>
      intro other hOther
      rcases List.mem_cons.mp hOther with rfl | hOther
      · exact List.mem_cons.mpr (.inl hFill.1.symm)
      · exact List.mem_cons_of_mem _ (ih other hOther)
  refine ⟨_, _, (List.take_append_drop completed.length logs).symm, ?_, ?_, hWaiting, hAnswered⟩
  · intro log hMem
    have hBare := hPerm.mem_iff.mp (hBares hWaiting log hMem)
    obtain ⟨other, hOther, hSame⟩ := List.mem_map.mp hBare
    obtain ⟨hOther, hNone⟩ := List.mem_filter.mp hOther
    rw [hOnce log (List.mem_of_mem_take hMem) other hOther hSame] at hNone
    simpa using hNone
  · intro log hMem
    obtain ⟨other, hOther, hSame⟩ := List.mem_map.mp (hBares hAnswered log hMem)
    obtain ⟨hOther, hSome⟩ := List.mem_filter.mp hOther
    rwa [hOnce log (List.mem_of_mem_drop hMem) other hOther hSame] at hSome

/-- Logs that come back in their order, and can be told apart, were answered in it. -/
theorem orderly_of_attached {logs : List (Option UInt64 × Log Data)} {attached : List (Log Data)}
    (hNodup : (logs.map fun log => log.2.bare).Nodup)
    (h : fetcher.attachLogTimestamps fuel call (logs.map Prod.snd) = some (.ok attached))
    (hFills : List.Forall₂ Fills logs attached) : fetcher.Orderly call logs := by
  induction fuel generalizing call logs attached with
  | zero => cases h
  | succ fuel ih =>
    rw [attachLogTimestamps] at h
    split at h
    · cases h
      exact .complete fun log hMem => (forall₂_map_right.mp hFills log hMem).2
    · rename_i hMissing
      split at h
      · cases h
      · rename_i timestamps hAnswer
        simp only at h
        -- the logs completed by the next calls, if any
        obtain ⟨completed, rfl, hRest⟩ : ∃ completed, attached = completed ++
            ((logs.map Prod.snd).map (attach timestamps)).filter (fun log => log.blockTimestamp.isSome) ∧
            (completed = [] ∧ ((logs.map Prod.snd).map (attach timestamps)).filter
                (fun log => !log.blockTimestamp.isSome) = [] ∨
              fetcher.attachLogTimestamps fuel (call + 1) (((logs.map Prod.snd).map
                (attach timestamps)).filter fun log => !log.blockTimestamp.isSome) =
                some (.ok completed)) := by
          split at h
          · obtain ⟨result, hResult, hEq⟩ := Option.map_eq_some_iff.mp h
            cases result with
            | error stop => cases hEq
            | ok completed =>
              cases hEq
              exact ⟨completed, rfl, .inr hResult⟩
          · rename_i hNone
            cases h
            exact ⟨[], rfl, .inl ⟨rfl, not_not.mp hNone⟩⟩
        have hPerm : (completed.map Log.bare).Perm ((((logs.map Prod.snd).map
            (attach timestamps)).filter fun log => !log.blockTimestamp.isSome).map Log.bare) := by
          rcases hRest with ⟨rfl, hNone⟩ | hResult
          · rw [hNone]
          · exact attachLogTimestamps_perm hResult
        obtain ⟨waiting, answered, rfl, hWaiting, hAnswered, hFront, hBack⟩ :=
          split_of_fills hNodup hPerm hFills
        obtain ⟨hWith, hWithout⟩ := filter_attached hWaiting hAnswered
        rw [hWith] at hBack
        rw [hWithout] at hRest
        refine .answered hMissing hAnswer hWaiting
          (fun log hMem => (forall₂_map_right.mp hBack log hMem).2) ?_
        rcases hRest with ⟨-, hNone⟩ | hResult
        · rw [List.map_eq_nil_iff.mp hNone]
          exact .complete fun log hMem => nomatch hMem
        · rw [List.map_append] at hNodup
          exact ih hNodup.of_append_left hResult hFront

end BlockFetcher

/-! ### The batch -/

namespace BlockClock

variable {clock : BlockClock ε} {logs : List (Log Data)}

theorem spaced_bare {chain : Chain} {located : List (Log Data)} (h : spaced chain logs = some located) :
    located.map Log.bare = logs.map Log.bare := by
  rw [spaced] at h
  split at h
  · rename_i network _
    induction logs generalizing located with
    | nil =>
      cases h
      rfl
    | cons log logs ih =>
      rw [List.mapM_cons] at h
      obtain ⟨first, hFirst, h⟩ := Option.bind_eq_some_iff.mp h
      obtain ⟨rest, hRest, h⟩ := Option.bind_eq_some_iff.mp h
      obtain ⟨block, -, rfl⟩ := Option.map_eq_some_iff.mp hFirst
      cases h
      rw [List.map_cons, List.map_cons, ih hRest]
      rfl
  · cases h
    rfl

theorem encoded_bare (clock : BlockClock ε) (logs : List (Log Data)) :
    (clock.encoded logs).map Log.bare = logs.map Log.bare := by
  rw [encoded]
  split
  · rw [tryAttachLogTimestamps]
    split
    · rfl
    · exact map_attach_bare _ logs
  · rfl

theorem zip_wanted {located : List (Log Data)} (hBare : located.map Log.bare = logs.map Log.bare) :
    ((logs.map wanted).zip located).map Prod.snd = located := by
  have hLength := congrArg List.length hBare
  rw [List.length_map, List.length_map] at hLength
  exact List.map_snd_zip (by rw [List.length_map, hLength])

theorem forall₂_fills_iff {located attached : List (Log Data)}
    (hBare : located.map Log.bare = logs.map Log.bare) :
    List.Forall₂ BlockFetcher.Fills ((logs.map wanted).zip located) attached ↔
      List.Forall₂ Log.Preserved logs attached := by
  induction logs generalizing located attached with
  | nil =>
    rw [List.map_nil, List.map_eq_nil_iff] at hBare
    subst hBare
    simp
  | cons log logs ih =>
    cases located with
    | nil => cases hBare
    | cons first located =>
      rw [List.map_cons, List.map_cons, List.cons.injEq] at hBare
      cases attached with
      | nil => simp
      | cons result attached =>
        rw [List.map_cons, List.zip_cons_cons, List.forall₂_cons, List.forall₂_cons, ih hBare.2,
          BlockFetcher.Fills, Log.Preserved, hBare.1]

/-- A clock of Ethereum over a node with these answers. -/
def mainnet (answer : Nat → List (Nat × UInt64)) : BlockClock String where
  fetcher :=
    { chain := ⟨1, some .other, some 12⟩
      sampled := fun _ _ => []
      estimate := fun _ _ => none
      getBlockByNumberBatch := fun call _ => .ok (answer call) }
  runlencoder := none

def threeLogs : List (Log Nat) := [⟨0, some 100, some 1000⟩, ⟨1, some 101, none⟩, ⟨2, some 102, none⟩]

end BlockClock

end Rindexer.Blockclock
