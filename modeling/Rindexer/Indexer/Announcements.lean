import Mathlib.Data.List.Induction
import Rindexer.Indexer.Progress

/-! The blocks that are announced for a chain: they increase, and none is further than what each detail
with an entry of its own has reported, unless the detail is done or starts there. -/

namespace Rindexer.Indexer.Progress

open Rindexer.Lib

/-! ### Runs -/

/-- A call of `update_last_synced_block`. -/
structure Report where
  chainId : Nat
  id : String
  block : Nat
deriving DecidableEq, Repr

def Report.key (c : Report) : String := progressKey c.chainId c.id

/-- The state with the reports that were accepted and the blocks that were announced, the last of each
first. -/
structure Tracker where
  state : IndexingEventsProgressState
  reports : List Report
  emitted : List (Nat × Nat)

namespace Tracker

def start (regs : List Registration) : Tracker := ⟨regs.foldl registerEvent ⟨∅, ∅⟩, [], []⟩

def outcome (t : Tracker) (c : Report) :
    Except Failure (IndexingEventsProgressState × Option (Nat × Nat)) :=
  updateLastSyncedBlock t.state c.chainId c.id c.block

def accept (t : Tracker) (c : Report) (s : IndexingEventsProgressState)
    (emitted : Option (Nat × Nat)) : Tracker :=
  ⟨s, c :: t.reports, emitted.toList ++ t.emitted⟩

def step (t : Tracker) (c : Report) : Option Tracker :=
  match t.outcome c with
  | .error _ => some t
  | .ok (s, emitted) => some (t.accept c s emitted)

/-- The block that was reported last for a detail, or its start. -/
def lastBlock (t : Tracker) (r : Registration) : Nat :=
  ((t.reports.find? fun c => c.key = r.key).map Report.block).getD r.start

/-- The block that was announced last for a chain. -/
def lastEmitted (t : Tracker) (chainId : Nat) : Nat :=
  ((t.state.blockNetworks.get? chainId).map NetworkBlockProgress.lastEmittedMin).getD 0

def announced (t : Tracker) (chainId : Nat) : List Nat :=
  (t.emitted.filter fun e => e.1 = chainId).map Prod.snd

end Tracker

/-! ### Keys -/

theorem progressKey_inj {chainId chainId' : Nat} {id id' : String}
    (h : progressKey chainId id = progressKey chainId' id') : chainId = chainId' ∧ id = id' := by
  have hColon : ∀ n : Nat, ':' ∉ (toString n).toList :=
    fun n hMem => absurd (isDigit_of_mem_toString hMem) (by decide)
  have hList : (toString chainId).toList ++ ':' :: (':' :: id.toList) =
      (toString chainId').toList ++ ':' :: (':' :: id'.toList) := by
    have hToList := congrArg String.toList h
    simpa [progressKey, String.toList_append] using hToList
  obtain ⟨hChain, hRest⟩ := append_separator_inj (hColon _) (hColon _) hList
  exact ⟨toString_nat_inj hChain, String.toList_inj.mp (List.cons_injective hRest)⟩

/-! ### What a report does -/

/-- A report of a block is accepted: while the event syncs towards a block that it has not reached,
that block and the reported one are not below its start, and it has something to sync. -/
def Accepts (event : IndexingEventProgress) (block : Nat) : Prop :=
  ∀ progress syncingTo, event.status = .syncing progress syncingTo →
    event.lastSyncedBlock < syncingTo → event.startingBlock ≤ block ∧ event.startingBlock < syncingTo

/-- The progress of an event that still syncs has not come to its end. -/
def Unfinished (event : IndexingEventProgress) : Prop :=
  ∀ progress syncingTo, event.status = .syncing progress syncingTo → progress < 10000

/-- The status of an event that synced towards a block, after a report. -/
def StatusAfter (event : IndexingEventProgress) (block : Nat)
    (status : IndexingEventProgressStatus) : Prop :=
  match event.status with
  | .syncing _ syncingTo =>
    if syncingTo ≤ block then status = if event.liveIndexing then .live else .completed
    else ∃ progress < 10000, status = .syncing progress syncingTo
  | earlier => status = earlier

theorem progress_lt {synced total : Nat} (h : synced < total) :
    min (min (synced * 10000) (2 ^ 64 - 1) / total) 10000 < 10000 := by
  refine lt_of_le_of_lt (Nat.min_le_left _ _) (Nat.div_lt_of_lt_mul ?_)
  refine lt_of_le_of_lt (Nat.min_le_left _ _) ?_
  omega

theorem advance_spec {event : IndexingEventProgress} (hUnfinished : Unfinished event) (block : Nat) :
    (Accepts event block ∧ ∃ status, event.advance block = .ok status ∧
        StatusAfter event block status) ∨
      (¬ Accepts event block ∧ ∃ failure, event.advance block = .error failure) := by
  cases hStatus : event.status with
  | live =>
    have hAccepts : Accepts event block := by
      intro _ _ hEq
      rw [hStatus] at hEq
      exact nomatch hEq
    refine Or.inl ⟨hAccepts, .live, ?_, ?_⟩
    · rw [IndexingEventProgress.advance, hStatus]
    · rw [StatusAfter, hStatus]
  | completed =>
    have hAccepts : Accepts event block := by
      intro _ _ hEq
      rw [hStatus] at hEq
      exact nomatch hEq
    refine Or.inl ⟨hAccepts, .completed, ?_, ?_⟩
    · rw [IndexingEventProgress.advance, hStatus]
    · rw [StatusAfter, hStatus]
  | syncing progress syncingTo =>
    have hProgress := hUnfinished progress syncingTo hStatus
    have hAccepts : Accepts event block ↔ (event.lastSyncedBlock < syncingTo →
        event.startingBlock ≤ block ∧ event.startingBlock < syncingTo) := by
      constructor
      · exact fun h => h progress syncingTo hStatus
      · intro h _ _ hEq
        rw [hStatus] at hEq
        cases hEq
        exact h
    simp only [hAccepts, IndexingEventProgress.advance, StatusAfter, hStatus, hProgress, if_true]
    -- the status once the progress is known
    have hFinish : ∀ {p' : Nat}, (block < syncingTo → p' < 10000) →
        ∃ status, (if syncingTo ≤ block then
            (pure (if event.liveIndexing = true then IndexingEventProgressStatus.live
              else .completed) : Except Failure IndexingEventProgressStatus)
          else pure (.syncing p' syncingTo)) = .ok status ∧
          if syncingTo ≤ block then status = if event.liveIndexing = true then .live else .completed
          else ∃ progress < 10000, status = .syncing progress syncingTo := by
      intro p' hLess
      by_cases hReached : syncingTo ≤ block
      · simp only [hReached, if_true]
        exact ⟨_, rfl, rfl⟩
      · simp only [hReached, if_false]
        exact ⟨_, rfl, p', hLess (by omega), rfl⟩
    by_cases hBehind : event.lastSyncedBlock < syncingTo
    · simp only [hBehind, if_true, forall_const]
      by_cases hTotal : syncingTo < event.startingBlock
      · simp only [hTotal, if_true]
        exact Or.inr ⟨by omega, _, rfl⟩
      · simp only [hTotal, if_false]
        by_cases hBefore : block < event.startingBlock
        · simp only [hBefore, if_true]
          exact Or.inr ⟨by omega, _, rfl⟩
        · simp only [hBefore, if_false]
          by_cases hZero : syncingTo - event.startingBlock = 0
          · simp only [hZero, if_true]
            exact Or.inr ⟨by omega, _, rfl⟩
          · simp only [hZero, if_false]
            refine Or.inl ⟨by omega, ?_⟩
            exact hFinish fun hLess => progress_lt (by omega)
    · simp only [hBehind, if_false, false_implies, true_and]
      exact Or.inl (hFinish fun _ => hProgress)

/-! ### The invariant -/

/-- A registered detail whose entry no other has. -/
def Alone (regs : List Registration) (r : Registration) : Prop :=
  (regs.filter fun r' => r'.key = r.key) = [r]

/-- What the entry of a detail of its own holds. -/
structure Entry (t : Tracker) (r : Registration) (event : IndexingEventProgress) : Prop where
  startingBlock : event.startingBlock = r.start
  liveIndexing : event.liveIndexing = r.endBlock.isNone
  lastSyncedBlock : event.lastSyncedBlock = t.lastBlock r
  syncing : ∀ progress syncingTo, event.status = .syncing progress syncingTo →
    progress < 10000 ∧ syncingTo = r.syncingTo
  completed : event.status = .completed → r.endBlock.isSome = true ∧
    ∃ c ∈ t.reports, c.key = r.key ∧ r.syncingTo ≤ c.block

structure Tracks (regs : List Registration) (t : Tracker) : Prop where
  entry : ∀ r, Alone regs r → ∃ event, t.state.events.get? r.key = some event ∧ Entry t r event
  block : ∀ r ∈ regs, ∃ np block, t.state.blockNetworks.get? r.chainId = some np ∧
    np.events.get? r.id = some block ∧ (Alone regs r → block = t.lastBlock r)
  known : ∀ chainId np id block, t.state.blockNetworks.get? chainId = some np →
    np.events.get? id = some block → ∃ r ∈ regs, r.chainId = chainId ∧ r.id = id
  named : ∀ key event, t.state.events.get? key = some event →
    ∃ r ∈ regs, r.key = key ∧ event.chainId = r.chainId ∧ event.id = r.id

theorem key_eq_iff {r r' : Registration} : r.key = r'.key ↔ r.chainId = r'.chainId ∧ r.id = r'.id := by
  refine ⟨progressKey_inj, fun h => ?_⟩
  rw [Registration.key, Registration.key, h.1, h.2]

theorem Alone.mem {regs : List Registration} {r : Registration} (h : Alone regs r) : r ∈ regs := by
  have hMem : r ∈ regs.filter fun r' => r'.key = r.key := by
    rw [h]
    exact List.mem_singleton_self r
  exact List.mem_of_mem_filter hMem

/-- With one more detail, a detail is alone when it is the new one under a new key, or was alone under
another key. -/
theorem alone_append {regs : List Registration} {r x : Registration} (h : Alone (regs ++ [x]) r) :
    (r = x ∧ ∀ r' ∈ regs, r'.key ≠ x.key) ∨ (r.key ≠ x.key ∧ Alone regs r) := by
  rw [Alone, List.filter_append] at h
  by_cases hKey : x.key = r.key
  · rw [List.filter_cons_of_pos (by simpa using hKey), List.filter_nil] at h
    have hSingle : regs.filter (fun r' => r'.key = r.key) ++ [x] = [] ++ [r] := h
    obtain ⟨hNone, hSame⟩ := List.append_inj' hSingle rfl
    obtain rfl : x = r := List.singleton_inj.mp hSame
    refine Or.inl ⟨rfl, fun r' hr' => ?_⟩
    simpa using List.filter_eq_nil_iff.mp hNone r' hr'
  · rw [List.filter_cons_of_neg (by simpa using hKey), List.filter_nil, List.append_nil] at h
    exact Or.inr ⟨Ne.symm hKey, h⟩

theorem lastBlock_start (regs : List Registration) (r : Registration) :
    (Tracker.start regs).lastBlock r = r.start := rfl

/-- Each detail is registered, one that is alone with its start. -/
theorem tracks_start (regs : List Registration) : Tracks regs (.start regs) := by
  induction regs using List.reverseRecOn with
  | nil => exact ⟨fun r h => absurd h.mem List.not_mem_nil, nofun, nofun, nofun⟩
  | append_singleton regs x ih =>
    obtain ⟨hEntry, hBlock, hKnown, hNamed⟩ := ih
    have hState : (Tracker.start (regs ++ [x])).state = registerEvent (Tracker.start regs).state x := by
      rw [Tracker.start, List.foldl_append]
      rfl
    let np := ((Tracker.start regs).state.blockNetworks.get? x.chainId).getD ⟨∅, 0⟩
    let start := if x.isTrace then (np.events.get? x.id).getD x.start else x.start
    have hOld : ∀ id block, np.events.get? id = some block →
        ∃ r ∈ regs, r.chainId = x.chainId ∧ r.id = id := by
      intro id block hId
      simp only [np] at hId
      cases hNp : (Tracker.start regs).state.blockNetworks.get? x.chainId with
      | none =>
        rw [hNp] at hId
        cases hId
      | some np' =>
        rw [hNp] at hId
        exact hKnown _ _ _ _ hNp hId
    -- under a new key, a trace does not find an entry either
    have hStart : (∀ r ∈ regs, r.key ≠ x.key) → start = x.start := by
      intro hNew
      have hNone : np.events.get? x.id = none := by
        refine Option.eq_none_iff_forall_ne_some.mpr fun block hId => ?_
        obtain ⟨r, hr, hSame⟩ := hOld x.id block hId
        exact hNew r hr (key_eq_iff.mpr hSame)
      simp only [start]
      rw [hNone]
      exact ite_self _
    have hNetworks : (Tracker.start (regs ++ [x])).state.blockNetworks =
        (Tracker.start regs).state.blockNetworks.insert x.chainId
          { np with events := np.events.insert x.id start } := by
      rw [hState]
      rfl
    have hEvents : (Tracker.start (regs ++ [x])).state.events =
        (Tracker.start regs).state.events.insert x.key x.running := by
      rw [hState]
      rfl
    refine ⟨fun r hr => ?_, fun r hr => ?_, fun chainId np' id block hNp hId => ?_,
      fun key event hGet => ?_⟩
    · rw [hEvents]
      rcases alone_append hr with ⟨rfl, -⟩ | ⟨hKey, hAlone⟩
      · refine ⟨r.running, OrderedMap.get?_insert_self _ _ _, rfl, rfl, rfl, ?_, nofun⟩
        intro progress syncingTo hStatus
        cases hStatus
        exact ⟨by omega, rfl⟩
      · obtain ⟨event, hGet, hSpec⟩ := hEntry r hAlone
        rw [OrderedMap.get?_insert_ne hKey]
        exact ⟨event, hGet, hSpec.startingBlock, hSpec.liveIndexing, hSpec.lastSyncedBlock, hSpec.syncing,
          hSpec.completed⟩
    · rw [hNetworks, lastBlock_start]
      by_cases hChain : r.chainId = x.chainId
      · rw [hChain]
        by_cases hId : r.id = x.id
        · refine ⟨_, start, OrderedMap.get?_insert_self _ _ _, ?_, fun hAlone => ?_⟩
          · rw [hId]
            exact OrderedMap.get?_insert_self _ _ _
          · rcases alone_append hAlone with ⟨rfl, hNew⟩ | ⟨hKey, -⟩
            · exact hStart hNew
            · exact absurd (key_eq_iff.mpr ⟨hChain, hId⟩) hKey
        · have hMem : r ∈ regs := by
            refine (List.mem_append.mp hr).resolve_right fun hr => hId ?_
            rw [List.mem_singleton.mp hr]
          obtain ⟨np', block, hNp, hGet, hSpec⟩ := hBlock r hMem
          refine ⟨_, block, OrderedMap.get?_insert_self _ _ _, ?_, fun hAlone => ?_⟩
          · rw [OrderedMap.get?_insert_ne hId]
            rw [hChain] at hNp
            simp only [np, hNp, Option.getD_some]
            exact hGet
          · rcases alone_append hAlone with ⟨rfl, -⟩ | ⟨-, hAlone⟩
            · exact absurd rfl hId
            · exact hSpec hAlone
      · have hMem : r ∈ regs := by
          refine (List.mem_append.mp hr).resolve_right fun hr => hChain ?_
          rw [List.mem_singleton.mp hr]
        obtain ⟨np', block, hNp, hGet, hSpec⟩ := hBlock r hMem
        refine ⟨np', block, ?_, hGet, fun hAlone => ?_⟩
        · rw [OrderedMap.get?_insert_ne hChain]
          exact hNp
        · rcases alone_append hAlone with ⟨rfl, -⟩ | ⟨-, hAlone⟩
          · exact absurd rfl hChain
          · exact hSpec hAlone
    · rw [hNetworks] at hNp
      by_cases hChain : chainId = x.chainId
      · subst hChain
        rw [OrderedMap.get?_insert_self] at hNp
        obtain rfl := Option.some.inj hNp
        by_cases hSame : id = x.id
        · exact ⟨x, List.mem_append_right _ (List.mem_singleton_self x), rfl, hSame.symm⟩
        · rw [OrderedMap.get?_insert_ne hSame] at hId
          obtain ⟨r, hr, hSpec⟩ := hOld id block hId
          exact ⟨r, List.mem_append_left _ hr, hSpec⟩
      · rw [OrderedMap.get?_insert_ne hChain] at hNp
        obtain ⟨r, hr, hSpec⟩ := hKnown _ _ _ _ hNp hId
        exact ⟨r, List.mem_append_left _ hr, hSpec⟩
    · rw [hEvents] at hGet
      by_cases hSame : key = x.key
      · subst hSame
        rw [OrderedMap.get?_insert_self] at hGet
        obtain rfl := Option.some.inj hGet
        exact ⟨x, List.mem_append_right _ (List.mem_singleton_self x), rfl, rfl, rfl⟩
      · rw [OrderedMap.get?_insert_ne hSame] at hGet
        obtain ⟨r, hr, hSpec⟩ := hNamed key event hGet
        exact ⟨r, List.mem_append_left _ hr, hSpec⟩

/-! ### A report that is accepted -/

/-- What is announced when the least block of a chain is found. -/
def announcement (chainId lastEmittedMin : Nat) : Option Nat → Option (Nat × Nat)
  | some block => if lastEmittedMin < block then some (chainId, block) else none
  | none => none

/-- The outcome of a report that is accepted. -/
structure Accepted (t : Tracker) (c : Report) (s : IndexingEventsProgressState)
    (emitted : Option (Nat × Nat)) : Prop where
  events : ∃ event status, t.state.events.get? c.key = some event ∧ event.advance c.block = .ok status ∧
    s.events = t.state.events.insert c.key { event with status, lastSyncedBlock := c.block }
  networks : ∃ np np', t.state.blockNetworks.get? c.chainId = some np ∧
    s.blockNetworks = t.state.blockNetworks.insert c.chainId np' ∧
    np'.events = np.events.insert c.id c.block ∧
    emitted = announcement c.chainId np.lastEmittedMin (minBlock s.events c.chainId np')

/-- A report under a key that is registered is accepted when the status of its event can advance. -/
theorem outcome_of_advance {regs : List Registration} {t : Tracker} (hTracks : Tracks regs t) {c : Report}
    {event : IndexingEventProgress} (hEvent : t.state.events.get? c.key = some event)
    {status : IndexingEventProgressStatus} (hAdvance : event.advance c.block = .ok status) :
    ∃ s emitted, t.outcome c = .ok (s, emitted) ∧ Accepted t c s emitted := by
  obtain ⟨r, hr, hKey, hChain, hId⟩ := hTracks.named _ _ hEvent
  obtain ⟨hChainC, hIdC⟩ : r.chainId = c.chainId ∧ r.id = c.id := progressKey_inj hKey
  obtain ⟨np, block, hNp, hBlock, -⟩ := hTracks.block r hr
  rw [hChainC] at hNp hChain
  rw [hIdC] at hBlock hId
  have hGet : t.state.events.get? (progressKey c.chainId c.id) = some event := hEvent
  let events := t.state.events.insert c.key { event with status, lastSyncedBlock := c.block }
  let np' : NetworkBlockProgress := { np with events := np.events.insert c.id c.block }
  have hUpdate : updateEvent t.state.events c.chainId c.id c.block =
      .ok (events, ⟨c.chainId, c.id, c.block⟩) := by
    rw [updateEvent, hGet]
    show (event.advance c.block >>= fun status => _) = _
    have hReport : (⟨event.chainId, event.id, c.block⟩ : BlockReport) =
        ⟨c.chainId, c.id, c.block⟩ := by
      rw [hChain, hId]
    rw [hAdvance, ← hReport]
    rfl
  have hOutcome : t.outcome c =
      (minBlock events c.chainId np').elim
        (.ok (⟨events, t.state.blockNetworks.insert c.chainId np'⟩, none))
        fun block => if np.lastEmittedMin < block then
          .ok (⟨events, t.state.blockNetworks.insert c.chainId
            { np' with lastEmittedMin := block }⟩, some (c.chainId, block))
        else .ok (⟨events, t.state.blockNetworks.insert c.chainId np'⟩, none) := by
    rw [Tracker.outcome, updateLastSyncedBlock, hUpdate]
    simp only [hNp, hBlock, np']
    generalize minBlock events c.chainId _ = least
    cases least <;> rfl
  have hEvents : ∃ event status, t.state.events.get? c.key = some event ∧
      event.advance c.block = .ok status ∧
      events = t.state.events.insert c.key { event with status, lastSyncedBlock := c.block } :=
    ⟨event, status, hEvent, hAdvance, rfl⟩
  rw [hOutcome]
  cases hMin : minBlock events c.chainId np' with
  | none =>
    refine ⟨_, _, rfl, hEvents, np, np', hNp, rfl, rfl, ?_⟩
    rw [hMin]
    rfl
  | some least =>
    rw [Option.elim_some]
    by_cases hLess : np.lastEmittedMin < least
    · simp only [hLess, if_true]
      refine ⟨_, _, rfl, hEvents, np, { np' with lastEmittedMin := least }, hNp, rfl, rfl, ?_⟩
      show _ = announcement _ _ (minBlock events c.chainId np')
      rw [hMin, announcement, if_pos hLess]
    · simp only [hLess, if_false]
      refine ⟨_, _, rfl, hEvents, np, np', hNp, rfl, rfl, ?_⟩
      rw [hMin, announcement, if_neg hLess]

theorem accepted_of_outcome {regs : List Registration} {t : Tracker} (hTracks : Tracks regs t) {c : Report}
    {s : IndexingEventsProgressState} {emitted : Option (Nat × Nat)}
    (h : t.outcome c = .ok (s, emitted)) : Accepted t c s emitted := by
  cases hEvent : t.state.events.get? c.key with
  | none =>
    have hGet : t.state.events.get? (progressKey c.chainId c.id) = none := hEvent
    rw [Tracker.outcome, updateLastSyncedBlock, updateEvent, hGet] at h
    exact nomatch h
  | some event =>
    cases hAdvance : event.advance c.block with
    | error failure =>
      have hGet : t.state.events.get? (progressKey c.chainId c.id) = some event := hEvent
      have hUpdate : updateEvent t.state.events c.chainId c.id c.block = .error failure := by
        rw [updateEvent, hGet]
        show (event.advance c.block >>= fun status => _) = _
        rw [hAdvance]
        rfl
      rw [Tracker.outcome, updateLastSyncedBlock, hUpdate] at h
      exact nomatch h
    | ok status =>
      obtain ⟨s', emitted', hOk, hAccepted⟩ := outcome_of_advance hTracks hEvent hAdvance
      obtain ⟨rfl, rfl⟩ := Prod.mk.inj (Except.ok.inj (h.symm.trans hOk))
      exact hAccepted

section Accept

variable {regs : List Registration} {t : Tracker} {c : Report} {s : IndexingEventsProgressState}
  {emitted : Option (Nat × Nat)} {event : IndexingEventProgress} {r : Registration}

theorem lastBlock_accept (r : Registration) : (t.accept c s emitted).lastBlock r =
    if c.key = r.key then c.block else t.lastBlock r := by
  rw [Tracker.lastBlock, Tracker.accept]
  by_cases h : c.key = r.key
  · rw [List.find?_cons_of_pos (by simpa using h), if_pos h]
    rfl
  · rw [List.find?_cons_of_neg (by simpa using h), if_neg h]
    rfl

theorem Entry.unfinished (h : Entry t r event) : Unfinished event :=
  fun progress syncingTo hStatus => (h.syncing progress syncingTo hStatus).1

/-- The entry of the detail that reports. -/
theorem entry_accept (hKey : c.key = r.key) (hEntry : Entry t r event)
    {status : IndexingEventProgressStatus} (hAfter : StatusAfter event c.block status) :
    Entry (t.accept c s emitted) r { event with status, lastSyncedBlock := c.block } := by
  have hOlder : ∀ {c' : Report}, c' ∈ t.reports → c' ∈ (t.accept c s emitted).reports :=
    fun h => List.mem_cons_of_mem c h
  refine ⟨hEntry.startingBlock, hEntry.liveIndexing, ?_, ?_, ?_⟩
  · rw [lastBlock_accept, if_pos hKey]
  · intro progress syncingTo hStatus
    cases hBefore : event.status with
    | live => rw [StatusAfter, hBefore] at hAfter; exact nomatch hAfter.symm.trans hStatus
    | completed => rw [StatusAfter, hBefore] at hAfter; exact nomatch hAfter.symm.trans hStatus
    | syncing p upTo =>
      simp only [StatusAfter, hBefore] at hAfter
      split at hAfter
      · split at hAfter
        · exact nomatch hAfter.symm.trans hStatus
        · exact nomatch hAfter.symm.trans hStatus
      · obtain ⟨p', hLess, hEq⟩ := hAfter
        cases hEq.symm.trans hStatus
        exact ⟨hLess, (hEntry.syncing p _ hBefore).2⟩
  · intro hStatus
    cases hBefore : event.status with
    | live => rw [StatusAfter, hBefore] at hAfter; exact nomatch hAfter.symm.trans hStatus
    | completed =>
      obtain ⟨hEnd, c', hc', hSpec⟩ := hEntry.completed hBefore
      exact ⟨hEnd, c', hOlder hc', hSpec⟩
    | syncing p upTo =>
      simp only [StatusAfter, hBefore] at hAfter
      split at hAfter
      case isTrue hReached =>
        split at hAfter
        case isTrue => exact nomatch hAfter.symm.trans hStatus
        case isFalse hLive =>
          rw [hEntry.liveIndexing] at hLive
          refine ⟨by simpa [Option.isSome_iff_ne_none] using hLive, c, List.mem_cons_self, hKey, ?_⟩
          rw [← (hEntry.syncing p upTo hBefore).2]
          exact hReached
      case isFalse =>
        obtain ⟨p', -, hEq⟩ := hAfter
        exact nomatch hEq.symm.trans hStatus

/-- The entry of another detail. -/
theorem entry_accept_of_ne (hNe : c.key ≠ r.key) (h : Entry t r event) :
    Entry (t.accept c s emitted) r event where
  startingBlock := h.startingBlock
  liveIndexing := h.liveIndexing
  lastSyncedBlock := by
    rw [lastBlock_accept, if_neg hNe]
    exact h.lastSyncedBlock
  syncing := h.syncing
  completed := by
    intro hStatus
    obtain ⟨hEnd, c', hc', hSpec⟩ := h.completed hStatus
    exact ⟨hEnd, c', List.mem_cons_of_mem c hc', hSpec⟩

/-- The invariant is kept by a report that is accepted. -/
theorem tracks_accept (hTracks : Tracks regs t) (hAccepted : Accepted t c s emitted) :
    Tracks regs (t.accept c s emitted) := by
  obtain ⟨⟨event, status, hEvent, hAdvance, hEvents⟩, np, np', hNp, hNetworks, hNpEvents, -⟩ := hAccepted
  have hState : (t.accept c s emitted).state = s := rfl
  refine ⟨fun r hr => ?_, fun r hr => ?_, fun chainId np₁ id block hGet hId => ?_,
    fun key event' hGet => ?_⟩
  · rw [hState, hEvents]
    obtain ⟨event', hGet, hSpec⟩ := hTracks.entry r hr
    by_cases hSame : c.key = r.key
    · rw [← hSame] at hGet ⊢
      obtain rfl : event = event' := Option.some.inj (hEvent.symm.trans hGet)
      refine ⟨_, OrderedMap.get?_insert_self _ _ _, entry_accept hSame hSpec ?_⟩
      rcases advance_spec hSpec.unfinished c.block with ⟨-, status', hOk, hAfter⟩ | ⟨-, failure, hError⟩
      · rw [hAdvance] at hOk
        obtain rfl := Except.ok.inj hOk
        exact hAfter
      · exact nomatch hAdvance.symm.trans hError
    · refine ⟨event', ?_, entry_accept_of_ne hSame hSpec⟩
      rw [OrderedMap.get?_insert_ne (Ne.symm hSame)]
      exact hGet
  · rw [hState, hNetworks, lastBlock_accept]
    obtain ⟨np₁, block, hNp₁, hGet, hBlock⟩ := hTracks.block r hr
    by_cases hChain : r.chainId = c.chainId
    · rw [hChain]
      rw [hChain, hNp] at hNp₁
      obtain rfl := Option.some.inj hNp₁
      by_cases hId : r.id = c.id
      · have hKey : c.key = r.key := by rw [Report.key, Registration.key, hChain, hId]
        refine ⟨np', c.block, OrderedMap.get?_insert_self _ _ _, ?_, fun _ => (if_pos hKey).symm⟩
        rw [hNpEvents, hId]
        exact OrderedMap.get?_insert_self _ _ _
      · have hKey : c.key ≠ r.key := fun hKey => hId (progressKey_inj hKey).2.symm
        refine ⟨np', block, OrderedMap.get?_insert_self _ _ _, ?_, ?_⟩
        · rw [hNpEvents, OrderedMap.get?_insert_ne hId]
          exact hGet
        · rw [if_neg hKey]
          exact hBlock
    · have hKey : c.key ≠ r.key := fun hKey => hChain (progressKey_inj hKey).1.symm
      rw [OrderedMap.get?_insert_ne hChain, if_neg hKey]
      exact ⟨np₁, block, hNp₁, hGet, hBlock⟩
  · rw [hState, hNetworks] at hGet
    by_cases hChain : chainId = c.chainId
    · subst hChain
      rw [OrderedMap.get?_insert_self] at hGet
      obtain rfl := Option.some.inj hGet
      rw [hNpEvents] at hId
      by_cases hSame : id = c.id
      · subst hSame
        obtain ⟨r, hr, hKey, -⟩ := hTracks.named _ _ hEvent
        exact ⟨r, hr, progressKey_inj hKey⟩
      · rw [OrderedMap.get?_insert_ne hSame] at hId
        exact hTracks.known _ _ _ _ hNp hId
    · rw [OrderedMap.get?_insert_ne hChain] at hGet
      exact hTracks.known _ _ _ _ hGet hId
  · rw [hState, hEvents] at hGet
    by_cases hSame : key = c.key
    · subst hSame
      rw [OrderedMap.get?_insert_self] at hGet
      obtain rfl := Option.some.inj hGet
      exact hTracks.named c.key event hEvent
    · rw [OrderedMap.get?_insert_ne hSame] at hGet
      exact hTracks.named key event' hGet

end Accept

/-! ### Soundness -/

/-- A detail was reported synced up to a block, or up to the block where it ends (the head when it was
registered, if its end is above that), or it starts at the block or above and was not reported. -/
def SyncedTo (reports : List Report) (r : Registration) (block : Nat) : Prop :=
  (∃ c ∈ reports, c.key = r.key ∧
      (block ≤ c.block ∨ r.endBlock.isSome = true ∧ r.syncingTo ≤ c.block)) ∨
    (∀ c ∈ reports, c.key ≠ r.key) ∧ block ≤ r.start

/-- A report of a detail from its start on is accepted, unless the detail fell behind a target at or
below its start, and a block that is announced has been reached by each detail of the chain. -/
structure SoundStep (regs : List Registration) (t : Tracker) (c : Report) (t' : Tracker) : Prop where
  accepted : ∀ r, Alone regs r → c.key = r.key → r.start ≤ c.block →
    r.syncingTo ≤ t.lastBlock r ∨ r.start < r.syncingTo → ∃ result, t.outcome c = .ok result
  announced : ∀ s chainId block, t.outcome c = .ok (s, some (chainId, block)) →
    ∀ r, Alone regs r → r.chainId = chainId → SyncedTo t'.reports r block

section Sound

variable {regs : List Registration} {t t' : Tracker} {c : Report}

/-- No detail of its own that is not completed is behind the least block of its chain. -/
theorem minBlock_le (hTracks : Tracks regs t) {r : Registration} (hr : Alone regs r)
    {event : IndexingEventProgress} (hEvent : t.state.events.get? r.key = some event)
    (hStatus : event.status ≠ .completed) {np : NetworkBlockProgress}
    (hNp : t.state.blockNetworks.get? r.chainId = some np) {block : Nat}
    (h : minBlock t.state.events r.chainId np = some block) : block ≤ t.lastBlock r := by
  obtain ⟨np', own, hNp', hOwn, hLast⟩ := hTracks.block r hr.mem
  rw [hNp] at hNp'
  obtain rfl := Option.some.inj hNp'
  rw [hLast hr] at hOwn
  have hActive : isActive t.state.events r.chainId r.id = true := by
    have hGet : t.state.events.get? (progressKey r.chainId r.id) = some event := hEvent
    rw [isActive, hGet]
    exact bne_iff_ne.mpr hStatus
  rw [minBlock, List.min?_eq_some_iff] at h
  refine h.2 _ (List.mem_map.mpr ⟨(r.id, t.lastBlock r), ?_, rfl⟩)
  exact List.mem_filter.mpr ⟨OrderedMap.get?_eq_some_iff.mp hOwn, hActive⟩

/-- The block that is announced after a report is the least of its chain. -/
theorem minBlock_of_announced {s : IndexingEventsProgressState} {chainId block : Nat}
    (hAccepted : Accepted t c s (some (chainId, block))) : chainId = c.chainId ∧
      ∃ np, s.blockNetworks.get? chainId = some np ∧ minBlock s.events chainId np = some block := by
  obtain ⟨-, np, np', hNp, hNetworks, -, hEmitted⟩ := hAccepted
  cases hMin : minBlock s.events c.chainId np' with
  | none =>
    rw [hMin] at hEmitted
    exact nomatch hEmitted
  | some least =>
    rw [hMin, announcement] at hEmitted
    split at hEmitted
    · obtain ⟨rfl, rfl⟩ := Prod.mk.inj (Option.some.inj hEmitted)
      refine ⟨rfl, np', ?_, hMin⟩
      rw [hNetworks]
      exact OrderedMap.get?_insert_self _ _ _
    · exact nomatch hEmitted

theorem syncedTo_of_le {r : Registration} {block : Nat} (h : block ≤ t.lastBlock r) :
    SyncedTo t.reports r block := by
  rw [Tracker.lastBlock] at h
  cases hFind : t.reports.find? fun c => c.key = r.key with
  | none =>
    rw [hFind] at h
    refine Or.inr ⟨fun c hc => ?_, h⟩
    simpa using List.find?_eq_none.mp hFind c hc
  | some c =>
    rw [hFind] at h
    have hKey : c.key = r.key := by simpa using List.find?_some hFind
    exact Or.inl ⟨c, List.mem_of_find?_eq_some hFind, hKey, Or.inl h⟩

/-- What a step does: a report is accepted, or the tracker stays as it is. -/
theorem step_cases (hStep : t.step c = some t') :
    (∃ s emitted, t.outcome c = .ok (s, emitted) ∧ t' = t.accept c s emitted) ∨
      (∃ failure, t.outcome c = .error failure) ∧ t' = t := by
  rw [Tracker.step] at hStep
  split at hStep
  case h_1 failure hOutcome => exact Or.inr ⟨⟨failure, hOutcome⟩, (Option.some.inj hStep).symm⟩
  case h_2 s emitted hOutcome =>
    exact Or.inl ⟨s, emitted, hOutcome, (Option.some.inj hStep).symm⟩

theorem tracks_step (hTracks : Tracks regs t) (hStep : t.step c = some t') : Tracks regs t' := by
  rcases step_cases hStep with ⟨s, emitted, hOutcome, rfl⟩ | ⟨-, rfl⟩
  · exact tracks_accept hTracks (accepted_of_outcome hTracks hOutcome)
  · exact hTracks

theorem soundStep (hTracks : Tracks regs t) (hStep : t.step c = some t') : SoundStep regs t c t' := by
  constructor
  · intro r hr hKey hStart hTarget
    obtain ⟨event, hEvent, hEntry⟩ := hTracks.entry r hr
    have hAccepts : Accepts event c.block := by
      intro progress syncingTo hStatus hBehind
      obtain ⟨-, rfl⟩ := hEntry.syncing progress syncingTo hStatus
      rw [hEntry.lastSyncedBlock] at hBehind
      rw [hEntry.startingBlock]
      exact ⟨hStart, hTarget.resolve_left (by omega)⟩
    rcases advance_spec hEntry.unfinished c.block with ⟨-, status, hAdvance, -⟩ | ⟨hNot, -⟩
    · rw [← hKey] at hEvent
      obtain ⟨s, emitted, hOutcome, -⟩ := outcome_of_advance hTracks hEvent hAdvance
      exact ⟨_, hOutcome⟩
    · exact absurd hAccepts hNot
  · intro s chainId block hOutcome r hr hChain
    have hTracks' := tracks_step hTracks hStep
    obtain ⟨-, np, hNp, hMin⟩ := minBlock_of_announced (accepted_of_outcome hTracks hOutcome)
    have hState : t'.state = s := by
      rcases step_cases hStep with ⟨s', emitted', hEq, rfl⟩ | ⟨⟨failure, hEq⟩, -⟩
      · exact (Prod.mk.inj (Except.ok.inj (hEq.symm.trans hOutcome))).1
      · exact nomatch hOutcome.symm.trans hEq
    rw [← hState, ← hChain] at hNp hMin
    obtain ⟨event, hEvent, hEntry⟩ := hTracks'.entry r hr
    by_cases hStatus : event.status = .completed
    · obtain ⟨hEnd, c', hc', hKey, hReached⟩ := hEntry.completed hStatus
      exact Or.inl ⟨c', hc', hKey, Or.inr ⟨hEnd, hReached⟩⟩
    · exact syncedTo_of_le (minBlock_le hTracks' hr hEvent hStatus hNp hMin)

end Sound

/-! ### The announced blocks increase -/

/-- The announced blocks of each chain increase, and none is above the last one that the chain knows. -/
def Increasing (t : Tracker) : Prop :=
  ∀ chainId, (t.announced chainId).Pairwise (· > ·) ∧
    ∀ block ∈ t.announced chainId, block ≤ t.lastEmitted chainId

theorem lastEmitted_insert {t : Tracker} {events : OrderedMap String IndexingEventProgress}
    {reports : List Report} {emitted : List (Nat × Nat)} {chainId : Nat} {np : NetworkBlockProgress}
    (chainId' : Nat) : Tracker.lastEmitted
        ⟨⟨events, t.state.blockNetworks.insert chainId np⟩, reports, emitted⟩ chainId' =
      if chainId' = chainId then np.lastEmittedMin else t.lastEmitted chainId' := by
  rw [Tracker.lastEmitted]
  by_cases h : chainId' = chainId
  · rw [if_pos h, h, OrderedMap.get?_insert_self]
    rfl
  · rw [if_neg h, OrderedMap.get?_insert_ne h]
    rfl

/-- What an outcome does to the block that was announced last for a chain. -/
theorem lastEmitted_of_outcome {t : Tracker} {c : Report} {s : IndexingEventsProgressState}
    {emitted : Option (Nat × Nat)} (h : t.outcome c = .ok (s, emitted)) (chainId : Nat) :
    (∃ block, emitted = some (chainId, block) ∧ t.lastEmitted chainId < block ∧
        (t.accept c s emitted).lastEmitted chainId = block) ∨
      (∀ block, emitted ≠ some (chainId, block)) ∧
        (t.accept c s emitted).lastEmitted chainId = t.lastEmitted chainId := by
  rw [Tracker.outcome, updateLastSyncedBlock] at h
  split at h
  · exact nomatch h
  case h_2 events report _ =>
    cases hNp : t.state.blockNetworks.get? report.chainId with
    | none =>
      rw [hNp] at h
      cases h
      exact Or.inr ⟨nofun, rfl⟩
    | some np =>
      have hLast : t.lastEmitted report.chainId = np.lastEmittedMin := by
        rw [Tracker.lastEmitted, hNp]
        rfl
      -- an entry of the chain that keeps what was announced last
      have hSame : ∀ np' : NetworkBlockProgress, np'.lastEmittedMin = np.lastEmittedMin →
          (t.accept c ⟨events, t.state.blockNetworks.insert report.chainId np'⟩ none).lastEmitted
            chainId = t.lastEmitted chainId := by
        intro np' hEq
        rw [Tracker.accept, lastEmitted_insert]
        split
        case isTrue hChain => rw [hChain, hLast, hEq]
        case isFalse => rfl
      rw [hNp] at h
      dsimp only at h
      split at h
      · cases h
        exact Or.inr ⟨nofun, rfl⟩
      · split at h
        · cases h
          exact Or.inr ⟨nofun, hSame _ rfl⟩
        case h_2 block _ =>
          split at h
          case isTrue hLess =>
            cases h
            by_cases hChain : chainId = report.chainId
            · subst hChain
              refine Or.inl ⟨block, rfl, ?_, ?_⟩
              · rw [hLast]
                exact hLess
              · rw [Tracker.accept, lastEmitted_insert, if_pos rfl]
            · refine Or.inr ⟨fun block' hEq => hChain ?_, ?_⟩
              · exact (Prod.mk.inj (Option.some.inj hEq)).1.symm
              · rw [Tracker.accept, lastEmitted_insert, if_neg hChain]
          case isFalse =>
            cases h
            exact Or.inr ⟨nofun, hSame _ rfl⟩

theorem announced_accept {t : Tracker} {c : Report} {s : IndexingEventsProgressState}
    {emitted : Option (Nat × Nat)} (chainId : Nat) :
    (t.accept c s emitted).announced chainId =
      (emitted.toList.filter fun e => e.1 = chainId).map Prod.snd ++ t.announced chainId := by
  rw [Tracker.announced, Tracker.accept, List.filter_append, List.map_append]
  rfl

/-- A report keeps the announced blocks increasing, whatever is registered. -/
theorem increasing_step {t t' : Tracker} {c : Report} (h : Increasing t) (hStep : t.step c = some t') :
    Increasing t' := by
  rcases step_cases hStep with ⟨s, emitted, hOutcome, rfl⟩ | ⟨-, rfl⟩
  case inr => exact h
  case inl =>
    intro chainId
    obtain ⟨hPairwise, hBelow⟩ := h chainId
    rw [announced_accept]
    rcases lastEmitted_of_outcome hOutcome chainId with ⟨block, rfl, hAbove, hLast⟩ | ⟨hNone, hLast⟩
    · have hNew : ((some (chainId, block)).toList.filter fun e => e.1 = chainId).map Prod.snd =
          [block] := by
        simp
      rw [hNew, hLast, List.singleton_append]
      refine ⟨List.pairwise_cons.mpr ⟨fun b hb => ?_, hPairwise⟩, fun b hb => ?_⟩
      · have hLe := hBelow b hb
        omega
      · rcases List.mem_cons.mp hb with rfl | hb
        · exact le_refl b
        · have hLe := hBelow b hb
          omega
    · have hOld : (emitted.toList.filter fun e => e.1 = chainId).map Prod.snd = [] := by
        rw [List.map_eq_nil_iff, List.filter_eq_nil_iff]
        rintro ⟨chain, block⟩ he hEq
        have hChain : chain = chainId := by simpa using hEq
        exact hNone block (by rw [← hChain]; exact Option.mem_toList.mp he)
      rw [hOld, hLast, List.nil_append]
      exact ⟨hPairwise, hBelow⟩

theorem increasing_start (regs : List Registration) : Increasing (.start regs) :=
  fun _ => ⟨List.Pairwise.nil, nofun⟩

/-- Along every run of reports, whatever was registered, the announced blocks of each chain increase, and
every step is sound. -/
theorem announcements_sound (eventInformation traceInformation : List EventInformation)
    (answers : List (Option Nat)) (calls : List Report) :
    let regs := registrations eventInformation traceInformation answers
    Always Tracker.step Increasing (.start regs) calls ∧
      EveryStep Tracker.step (SoundStep regs) (.start regs) calls := by
  intro regs
  constructor
  · exact always_of_kept (fun _ _ _ => increasing_step) (increasing_start regs)
  · exact everyStep_of_kept
      (fun _ _ _ hTracks hStep => ⟨tracks_step hTracks hStep, soundStep hTracks hStep⟩)
      (tracks_start regs)

/-- A detail was reported synced up to a block, or up to its own end. -/
def ReportedTo (reports : List Report) (r : Registration) (block : Nat) : Prop :=
  ∃ c ∈ reports, c.key = r.key ∧ (block ≤ c.block ∨ ∃ endBlock ∈ r.endBlock, endBlock ≤ c.block)

/-- An event that starts at block 5000 has not been reported when block 1000 is announced. -/
theorem announced_before_start :
    let regs := registrations [⟨"event_a", [⟨"mainnet", 1, some 0, some 10000⟩]⟩,
      ⟨"event_b", [⟨"mainnet", 1, some 5000, some 10000⟩]⟩] [] [some 10000]
    ¬ EveryStep Tracker.step (fun t c t' => ∀ s chainId block,
        t.outcome c = .ok (s, some (chainId, block)) →
          ∀ r ∈ regs, r.chainId = chainId → ReportedTo t'.reports r block)
      (.start regs) [⟨1, "event_a", 1000⟩] := by
  intro regs hSound
  have hEmitted : (Tracker.outcome (.start regs) ⟨1, "event_a", 1000⟩).toOption.map Prod.snd =
      some (some (1, 1000)) := by
    decide
  cases hOutcome : Tracker.outcome (.start regs) ⟨1, "event_a", 1000⟩ with
  | error failure =>
    rw [hOutcome] at hEmitted
    exact nomatch hEmitted
  | ok result =>
    obtain ⟨s, emitted⟩ := result
    rw [hOutcome] at hEmitted
    obtain rfl : emitted = some (1, 1000) := Option.some.inj hEmitted
    have hStep : Tracker.step (.start regs) ⟨1, "event_a", 1000⟩ =
        some ((Tracker.start regs).accept ⟨1, "event_a", 1000⟩ s (some (1, 1000))) := by
      rw [Tracker.step, hOutcome]
    obtain ⟨c, hc, hKey, -⟩ := (hSound _ hStep).1 s 1 1000 hOutcome
      ⟨"event_b", 1, some 5000, some 10000, 10000, false⟩ (by decide) rfl
    rw [List.mem_singleton.mp hc] at hKey
    exact absurd (progressKey_inj hKey).2 (by decide)

end Rindexer.Indexer.Progress
