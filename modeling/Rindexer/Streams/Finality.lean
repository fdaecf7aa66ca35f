import Rindexer.Lib.Transition
import Rindexer.Streams.Buffering

/-! Finalized delivery to one target over runs of the indexer: batches, new blocks, reorgs, publish
failures and crashes.  The buffer is in memory, the last synced block is not. -/

namespace Rindexer.Streams

open Rindexer.Lib

variable {V : Type}

/-- The events that reach the target, out of those that are sent to it. -/
def FinalizedTarget.arrived (t : FinalizedTarget V) (reaches : Publication V → Bool)
    (dispatched : List (Dispatch V)) : List (Nat × V) :=
  (((dispatched.filter t.isTo).flatMap Dispatch.publications).filter reaches).flatMap
    Publication.events

/-- Every publication to the target is successful. -/
def FinalizedTarget.AllReach (t : FinalizedTarget V) (reaches : Publication V → Bool)
    (dispatched : List (Dispatch V)) : Prop :=
  ∀ p ∈ (dispatched.filter t.isTo).flatMap Dispatch.publications, reaches p

/-- `next` and `stored` are the first blocks that are not delivered, in memory and according to the
last synced block.  The fields from `delivered` on record the run: the content that was delivered for a
block since it was last rolled back, and what the target has. -/
structure DeliveryState (V : Type) where
  chain : Nat → List V
  head : Nat
  unhandled : Option Nat
  next : Nat
  stored : Nat
  buffers : Buffers V
  delivered : Nat → List V
  standing : List (Nat × V)
  published : List (Nat × V)

inductive DeliveryLabel (V : Type)
  /-- The chain continues from `forkPoint`, above its head or below. -/
  | chain (forkPoint : Nat) (blocks : Nat → List V) (head : Nat)
  | deliver (fromBlock toBlock : Nat) (events : List (Nat × V)) (reaches : Publication V → Bool)
  | store
  | newBlock (headBlock : Nat) (reaches : Publication V → Bool)
  | reorg (forkPoint detectionPoint : Nat)
  | crash

namespace DeliveryState

/-- Nothing is delivered before `startBlock`. -/
def start (startBlock head : Nat) (chain : Nat → List V) : DeliveryState V where
  chain := chain
  head := head
  unhandled := none
  next := startBlock
  stored := startBlock
  buffers := Buffers.empty
  delivered _ := []
  standing := []
  published := []

/-- No reorg that replaced the block waits to be handled. -/
def Settled (state : DeliveryState V) (blockNumber : Nat) : Prop :=
  ∀ forkPoint, state.unhandled = some forkPoint → blockNumber < forkPoint

end DeliveryState

section Machine

variable (t : FinalizedTarget V)

def batchOf (fromBlock toBlock : Nat) (events : List (Nat × V)) : StreamBatch V :=
  ⟨t.network, fromBlock, toBlock, events⟩

/-- The client after a step and the publications that the step tries. -/
def clientStep (state : DeliveryState V) : DeliveryLabel V → Buffers V × List (Dispatch V)
  | .chain .. | .store => (state.buffers, [])
  | .deliver fromBlock toBlock events _ =>
    noCodeCallback t.size t.config t.event (batchOf t fromBlock toBlock events) state.buffers
  | .newBlock headBlock _ =>
    flushFinalized t.size t.config t.reorgSafeDistance t.network headBlock state.buffers
  | .reorg forkPoint detectionPoint =>
    (discardFinalized t.network forkPoint detectionPoint state.buffers, [])
  | .crash => (Buffers.empty, [])

/-- The events that reach the target in a step. -/
def arrivedIn (state : DeliveryState V) (label : DeliveryLabel V) : List (Nat × V) :=
  let dispatched := (clientStep t state label).2
  match label with
  | .deliver _ _ _ reaches | .newBlock _ reaches => t.arrived reaches dispatched
  | _ => []

def deliveryStep (state : DeliveryState V) (label : DeliveryLabel V) : Option (DeliveryState V) :=
  let arrived := arrivedIn t state label
  let after :=
    { state with
      buffers := (clientStep t state label).1
      standing := state.standing ++ arrived
      published := state.published ++ arrived }
  match label with
  | .chain forkPoint blocks head =>
    if forkPoint ≤ state.head + 1 ∧ forkPoint ≤ head + 1 then
      some
        { after with
          chain := fun k => if k < forkPoint then state.chain k else blocks k
          head := head
          unhandled :=
            if forkPoint ≤ state.head then
              some (state.unhandled.elim forkPoint (min forkPoint))
            else state.unhandled }
    else none
  | .deliver fromBlock toBlock events _ =>
    if fromBlock ≤ state.next ∧ toBlock ≤ state.head ∧
        ∀ e ∈ events, fromBlock ≤ e.1 ∧ e.1 ≤ toBlock then
      some
        { after with
          next := max state.next (toBlock + 1)
          delivered := fun k =>
            if fromBlock ≤ k ∧ k ≤ toBlock then eventsAt k events else state.delivered k }
    else none
  | .store => some { after with stored := state.next }
  | .newBlock headBlock _ => if headBlock ≤ state.head then some after else none
  | .reorg forkPoint _ =>
    some
      { after with
        unhandled := state.unhandled.filter (decide <| · < forkPoint)
        next := min state.next forkPoint
        stored := min state.stored forkPoint
        delivered := fun k => if forkPoint ≤ k then [] else state.delivered k
        standing := state.standing.filter (·.1 < forkPoint) }
  | .crash => some { after with next := state.stored }

/-- What finalized delivery promises of a step, `startBlock` being the first block that is indexed. -/
structure Promised (startBlock : Nat) (state : DeliveryState V) (label : DeliveryLabel V)
    (state' : DeliveryState V) : Prop where
  /-- An event is published at the safe depth. -/
  final : ∀ k v, (k, v) ∈ arrivedIn t state label → k + t.reorgSafeDistance ≤ state.head
  /-- Its block was delivered since it was last rolled back. -/
  delivered : ∀ k v, (k, v) ∈ arrivedIn t state label → v ∈ state'.delivered k
  /-- Of a block no more is published than one delivery of it has. -/
  once : ∀ k, (eventsAt k state'.standing).Sublist (state'.delivered k)
  /-- A new block leaves no delivered block at the safe depth unpublished. -/
  complete : ∀ headBlock reaches, label = .newBlock headBlock reaches → ∀ k, startBlock ≤ k →
    k < state.next → state.Settled k → k + t.reorgSafeDistance ≤ headBlock →
      ∀ v ∈ t.taken (state.chain k), (k, v) ∈ state'.published

/-- The steps that keep the promise. -/
def Careful (state : DeliveryState V) (label : DeliveryLabel V) : Prop :=
  let kept (k : Nat) := (state.buffers.buffer t.key).eventsOf k
  match label with
  | .chain .. | .store => True
  | .deliver fromBlock toBlock events reaches =>
    -- nothing of a delivered block is still kept, or published and not rolled back
    (∀ k, fromBlock ≤ k → k ≤ toBlock → kept k = [] ∧ eventsAt k state.standing = []) ∧
    (∀ k, fromBlock ≤ k → k ≤ toBlock → state.Settled k → eventsAt k events = state.chain k) ∧
    (eventsAt 0 events ≠ [] → t.reorgSafeDistance ≤ state.head) ∧
    t.AllReach reaches (clientStep t state label).2
  | .newBlock _ reaches => t.AllReach reaches (clientStep t state label).2
  | .reorg forkPoint detectionPoint => ∀ k, forkPoint ≤ k → detectionPoint < k → kept k = []
  | .crash => ∀ k, k < state.stored → kept k = []

end Machine

/-! ### The invariant -/

section Invariant

variable (t : FinalizedTarget V) (startBlock : Nat)

structure Accounted (state : DeliveryState V) : Prop where
  registered : state.buffers.Registered t.event
  stored_le : state.stored ≤ state.next
  zero : (state.buffers.buffer t.key).eventsOf 0 = []
  /-- What is published and what is kept of a block are in order in what was delivered. -/
  kept : ∀ k, (eventsAt k state.standing ++ t.taken ((state.buffers.buffer t.key).eventsOf k)).Sublist
    (t.taken (state.delivered k))
  /-- Of a block before the next one nothing is missing. -/
  whole : ∀ k, startBlock ≤ k → k < state.next → state.Settled k →
    k ≤ state.head ∧ state.delivered k = state.chain k ∧
      eventsAt k state.standing ++ t.taken ((state.buffers.buffer t.key).eventsOf k) =
        t.taken (state.delivered k)
  published : ∀ e ∈ state.standing, e ∈ state.published

variable {t startBlock}

theorem accounted_start (head : Nat) (chain : Nat → List V) :
    Accounted t startBlock (DeliveryState.start startBlock head chain) where
  registered := registered_empty
  stored_le := Nat.le_refl _
  zero := rfl
  kept k := by
    change List.Sublist ([] ++ t.taken []) (t.taken [])
    rw [List.nil_append]
  whole k hStart hNext := absurd hNext (Nat.not_lt.mpr hStart)
  published _ h := nomatch h

theorem taken_sublist (t : FinalizedTarget V) (events : List V) :
    (t.taken events).Sublist events := by
  obtain ⟨p, hp⟩ := t.taken_eq_filter
  rw [hp]
  exact List.filter_sublist

theorem arrived_eq_sent (t : FinalizedTarget V) {reaches : Publication V → Bool}
    {dispatched : List (Dispatch V)} (h : t.AllReach reaches dispatched) :
    t.arrived reaches dispatched = t.sent dispatched := by
  rw [FinalizedTarget.arrived, List.filter_eq_self.mpr h, List.flatMap_assoc]
  rfl

theorem Accounted.once {state : DeliveryState V} (h : Accounted t startBlock state) (k : Nat) :
    (eventsAt k state.standing).Sublist (state.delivered k) :=
  ((List.sublist_append_left _ _).trans (h.kept k)).trans (taken_sublist t _)

/-- A step that publishes nothing and keeps the invariant keeps the promise. -/
theorem promised_of_arrived_nil {state state' : DeliveryState V} {label : DeliveryLabel V}
    (hArrived : arrivedIn t state label = []) (hNew : ∀ headBlock reaches,
      label ≠ .newBlock headBlock reaches) (h : Accounted t startBlock state') :
    Promised t startBlock state label state' where
  final k v hMem := by
    rw [hArrived] at hMem
    cases hMem
  delivered k v hMem := by
    rw [hArrived] at hMem
    cases hMem
  once := h.once
  complete headBlock reaches hLabel := absurd hLabel (hNew headBlock reaches)

theorem accounted_chain {state state' : DeliveryState V} (h : Accounted t startBlock state)
    {forkPoint head : Nat} {blocks : Nat → List V}
    (hStep : deliveryStep t state (.chain forkPoint blocks head) = some state') :
    Accounted t startBlock state' := by
  simp only [deliveryStep, arrivedIn, List.append_nil] at hStep
  split at hStep
  next hGuard =>
    cases hStep
    refine ⟨h.registered, h.stored_le, h.zero, h.kept, ?_, h.published⟩
    intro k hStart hNext hSettled
    have hBelow : state.Settled k ∧ k < forkPoint ∧ k ≤ head := by
      by_cases hFork : forkPoint ≤ state.head
      · have hMin := hSettled _ (if_pos hFork)
        cases hUnhandled : state.unhandled with
        | none =>
          rw [hUnhandled] at hMin
          change k < forkPoint at hMin
          refine ⟨fun f hf => ?_, hMin, by omega⟩
          rw [hUnhandled] at hf
          cases hf
        | some fork =>
          rw [hUnhandled] at hMin
          change k < min forkPoint fork at hMin
          refine ⟨fun f hf => ?_, by omega, by omega⟩
          rw [hUnhandled] at hf
          cases hf
          omega
      · have hSame : state.Settled k := fun f hf => hSettled f ((if_neg hFork).trans hf)
        have hHead := (h.whole k hStart hNext hSame).1
        exact ⟨hSame, by omega, by omega⟩
    obtain ⟨-, hDelivered, hWhole⟩ := h.whole k hStart hNext hBelow.1
    exact ⟨hBelow.2.2, hDelivered.trans (if_pos hBelow.2.1).symm, hWhole⟩
  next => cases hStep

theorem accounted_reorg {state state' : DeliveryState V} (h : Accounted t startBlock state)
    {forkPoint detectionPoint : Nat} (hCareful : Careful t state (.reorg forkPoint detectionPoint))
    (hStep : deliveryStep t state (.reorg forkPoint detectionPoint) = some state') :
    Accounted t startBlock state' := by
  simp only [deliveryStep, arrivedIn, List.append_nil] at hStep
  cases hStep
  have hStanding : ∀ k, eventsAt k (state.standing.filter (·.1 < forkPoint)) =
      if forkPoint ≤ k then [] else eventsAt k state.standing := by
    intro k
    rw [eventsAt, List.filter_filter]
    split
    next hFork =>
      rw [List.filter_eq_nil_iff.mpr]
      · rfl
      · intro e _
        simp
        omega
    next hFork =>
      rw [eventsAt]
      congr 2
      funext e
      by_cases hk : e.1 = k
      · simp [hk]
        omega
      · simp [hk]
  have hKept : ∀ k, ((discardFinalized t.network forkPoint detectionPoint
      state.buffers).buffer t.key).eventsOf k =
        if forkPoint ≤ k then [] else (state.buffers.buffer t.key).eventsOf k := by
    intro k
    rw [t.discardFinalized_spec]
    by_cases hFork : forkPoint ≤ k
    · rw [if_pos hFork]
      split
      next => rfl
      next hRange => exact hCareful k hFork (by omega)
    · rw [if_neg hFork, if_neg (fun hRange => hFork hRange.1)]
  constructor
  · exact h.registered.discardFinalized _ _ _
  · have := h.stored_le
    change min state.stored forkPoint ≤ min state.next forkPoint
    omega
  · refine (hKept 0).trans ?_
    split
    next => rfl
    next => exact h.zero
  · intro k
    change (eventsAt k (state.standing.filter (·.1 < forkPoint)) ++ t.taken (((discardFinalized t.network
      forkPoint detectionPoint state.buffers).buffer t.key).eventsOf k)).Sublist
        (t.taken (if forkPoint ≤ k then [] else state.delivered k))
    rw [hStanding, hKept]
    split
    next => simp
    next => exact h.kept k
  · intro k hStart hNext hSettled
    have hBelow : k < state.next ∧ k < forkPoint := by
      change k < min state.next forkPoint at hNext
      omega
    have hSame : state.Settled k := by
      intro f hf
      by_cases hf' : f < forkPoint
      · refine hSettled f ?_
        change state.unhandled.filter (decide <| · < forkPoint) = some f
        rw [hf]
        exact Option.filter_some_pos (decide_eq_true hf')
      · omega
    obtain ⟨hHead, hDelivered, hWhole⟩ := h.whole k hStart hBelow.1 hSame
    have hFork : ¬ forkPoint ≤ k := by omega
    refine ⟨hHead, (if_neg hFork).trans hDelivered, ?_⟩
    change eventsAt k (state.standing.filter (·.1 < forkPoint)) ++ t.taken (((discardFinalized t.network
      forkPoint detectionPoint state.buffers).buffer t.key).eventsOf k) =
        t.taken (if forkPoint ≤ k then [] else state.delivered k)
    rw [hStanding, hKept, if_neg hFork, if_neg hFork, if_neg hFork, hWhole]
  · intro e he
    exact h.published e (List.mem_filter.mp he).1

theorem accounted_crash {state state' : DeliveryState V} (h : Accounted t startBlock state)
    (hCareful : Careful t state .crash) (hStep : deliveryStep t state .crash = some state') :
    Accounted t startBlock state' := by
  simp only [deliveryStep, arrivedIn, List.append_nil] at hStep
  cases hStep
  refine ⟨registered_empty, Nat.le_refl _, rfl, ?_, ?_, h.published⟩
  · intro k
    change (eventsAt k state.standing ++ t.taken []).Sublist _
    rw [t.taken_nil, List.append_nil]
    exact (List.sublist_append_left _ _).trans (h.kept k)
  · intro k hStart hNext hSettled
    have hStored : k < state.stored := hNext
    obtain ⟨hHead, hDelivered, hWhole⟩ := h.whole k hStart (Nat.lt_of_lt_of_le hStored h.stored_le)
      hSettled
    refine ⟨hHead, hDelivered, ?_⟩
    have hLost : (state.buffers.buffer t.key).eventsOf k = [] := hCareful k hStored
    rw [hLost] at hWhole
    exact hWhole

theorem accounted_store {state state' : DeliveryState V} (h : Accounted t startBlock state)
    (hStep : deliveryStep t state .store = some state') : Accounted t startBlock state' := by
  simp only [deliveryStep, arrivedIn, List.append_nil] at hStep
  cases hStep
  exact ⟨h.registered, Nat.le_refl _, h.zero, h.kept, h.whole, h.published⟩

theorem eventsAt_eq_nil {events : List (Nat × V)} {fromBlock toBlock k : Nat}
    (h : ∀ e ∈ events, fromBlock ≤ e.1 ∧ e.1 ≤ toBlock) (hk : ¬ (fromBlock ≤ k ∧ k ≤ toBlock)) :
    eventsAt k events = [] := by
  rw [eventsAt, List.filter_eq_nil_iff.mpr, List.map_nil]
  intro e he hEq
  exact hk (of_decide_eq_true hEq ▸ h e he)

/-- What a batch leaves published and kept of a block. -/
theorem deliver_view {state : DeliveryState V} {fromBlock toBlock : Nat} {events : List (Nat × V)}
    {reaches : Publication V → Bool}
    (hEvents : ∀ e ∈ events, fromBlock ≤ e.1 ∧ e.1 ≤ toBlock)
    (hCareful : Careful t state (.deliver fromBlock toBlock events reaches)) (k : Nat) :
    eventsAt k (state.standing ++ arrivedIn t state (.deliver fromBlock toBlock events reaches)) ++
        t.taken (((clientStep t state (.deliver fromBlock toBlock events reaches)).1.buffer
          t.key).eventsOf k) =
      if fromBlock ≤ k ∧ k ≤ toBlock then t.taken (eventsAt k events)
      else eventsAt k state.standing ++ t.taken ((state.buffers.buffer t.key).eventsOf k) := by
  obtain ⟨hFresh, -, -, hReach⟩ := hCareful
  have hArrived : arrivedIn t state (.deliver fromBlock toBlock events reaches) =
      (t.taken (eventsAt 0 events)).map (0, ·) :=
    (arrived_eq_sent t hReach).trans
      (t.noCodeCallback_spec (batchOf t fromBlock toBlock events) rfl state.buffers).2
  have hKept : ((clientStep t state (.deliver fromBlock toBlock events reaches)).1.buffer
      t.key).eventsOf k = (state.buffers.buffer t.key).eventsOf k ++
        if k = 0 then [] else eventsAt k events :=
    (t.noCodeCallback_spec (batchOf t fromBlock toBlock events) rfl state.buffers).1 k
  rw [hArrived, hKept, eventsAt_append, eventsAt_map]
  by_cases hRange : fromBlock ≤ k ∧ k ≤ toBlock
  · obtain ⟨hNoneKept, hNoneStanding⟩ := hFresh k hRange.1 hRange.2
    dsimp only at hNoneKept
    rw [if_pos hRange, hNoneKept, hNoneStanding]
    by_cases hZero : k = 0
    · subst hZero
      simp
    · simp [hZero, Ne.symm hZero]
  · rw [if_neg hRange]
    have hNone := eventsAt_eq_nil hEvents hRange
    by_cases hZero : k = 0
    · subst hZero
      simp [hNone]
    · simp [hZero, Ne.symm hZero, hNone]

theorem accounted_deliver {state state' : DeliveryState V} (h : Accounted t startBlock state)
    {fromBlock toBlock : Nat} {events : List (Nat × V)} {reaches : Publication V → Bool}
    (hCareful : Careful t state (.deliver fromBlock toBlock events reaches))
    (hStep : deliveryStep t state (.deliver fromBlock toBlock events reaches) = some state') :
    Accounted t startBlock state' := by
  simp only [deliveryStep] at hStep
  split at hStep
  next hGuard =>
    obtain ⟨hFrom, hTo, hEvents⟩ := hGuard
    cases hStep
    have hView := deliver_view hEvents hCareful
    constructor
    case registered => exact h.registered.noCodeCallback _ _ _
    case stored_le => exact h.stored_le.trans (Nat.le_max_left _ _)
    case zero =>
      refine ((t.noCodeCallback_spec (batchOf t fromBlock toBlock events) rfl
        state.buffers).1 0).trans ?_
      rw [if_pos rfl, List.append_nil, h.zero]
    case kept =>
      intro k
      change List.Sublist (eventsAt k (state.standing ++ arrivedIn t state _) ++ _)
        (t.taken (if fromBlock ≤ k ∧ k ≤ toBlock then eventsAt k events else state.delivered k))
      rw [hView k]
      split
      next => exact List.Sublist.refl _
      next => exact h.kept k
    case whole =>
      intro k hStart hNext hSettled
      change k < max state.next (toBlock + 1) at hNext
      by_cases hRange : fromBlock ≤ k ∧ k ≤ toBlock
      · exact ⟨hRange.2.trans hTo, (if_pos hRange).trans (hCareful.2.1 k hRange.1 hRange.2 hSettled),
          (hView k).trans ((if_pos hRange).trans (congrArg _ (if_pos hRange).symm))⟩
      · obtain ⟨hHead, hDelivered, hWhole⟩ := h.whole k hStart (by omega) hSettled
        exact ⟨hHead, (if_neg hRange).trans hDelivered,
          (hView k).trans ((if_neg hRange).trans (hWhole.trans (congrArg _ (if_neg hRange).symm)))⟩
    case published =>
      intro e he
      rcases List.mem_append.mp he with hOld | hNew
      · exact List.mem_append_left _ (h.published e hOld)
      · exact List.mem_append_right _ hNew
  next => cases hStep

theorem promised_deliver {state state' : DeliveryState V} {fromBlock toBlock : Nat}
    {events : List (Nat × V)} {reaches : Publication V → Bool}
    (hCareful : Careful t state (.deliver fromBlock toBlock events reaches))
    (hStep : deliveryStep t state (.deliver fromBlock toBlock events reaches) = some state')
    (h : Accounted t startBlock state') :
    Promised t startBlock state (.deliver fromBlock toBlock events reaches) state' := by
  simp only [deliveryStep] at hStep
  split at hStep
  next =>
    cases hStep
    constructor
    case final =>
      intro k v hMem
      have hArrived : arrivedIn t state (.deliver fromBlock toBlock events reaches) =
          (t.taken (eventsAt 0 events)).map (0, ·) :=
        (arrived_eq_sent t hCareful.2.2.2).trans
          (t.noCodeCallback_spec (batchOf t fromBlock toBlock events) rfl state.buffers).2
      rw [hArrived] at hMem
      obtain ⟨v, hv, hEq⟩ := List.mem_map.mp hMem
      obtain ⟨rfl, rfl⟩ := Prod.mk.inj hEq
      have hGenesis : eventsAt 0 events ≠ [] :=
        List.ne_nil_of_mem ((taken_sublist t _).subset hv)
      have := hCareful.2.2.1 hGenesis
      omega
    case delivered =>
      intro k v hMem
      exact (h.once k).subset ((mem_eventsAt k).mpr (List.mem_append_right _ hMem))
    case once => exact h.once
    case complete => exact fun _ _ hLabel => nomatch hLabel
  next => cases hStep

/-- A new block moves what is kept to what is published. -/
theorem newBlock_view {state : DeliveryState V} (h : Accounted t startBlock state) {headBlock : Nat}
    {reaches : Publication V → Bool} (hCareful : Careful t state (.newBlock headBlock reaches))
    (k : Nat) :
    (((clientStep t state (.newBlock headBlock reaches)).1.buffer t.key).eventsOf k =
      if k ≤ headBlock - t.reorgSafeDistance then []
      else (state.buffers.buffer t.key).eventsOf k) ∧
    eventsAt k (arrivedIn t state (.newBlock headBlock reaches)) =
      if k ≤ headBlock - t.reorgSafeDistance then
        t.taken ((state.buffers.buffer t.key).eventsOf k)
      else [] := by
  obtain ⟨hKept, hSent⟩ := t.flushFinalized_spec h.registered headBlock
  exact ⟨hKept k, (congrArg (eventsAt k) (arrived_eq_sent t hCareful)).trans (hSent k)⟩

theorem newBlock_standing {state : DeliveryState V} (h : Accounted t startBlock state)
    {headBlock : Nat} {reaches : Publication V → Bool}
    (hCareful : Careful t state (.newBlock headBlock reaches)) (k : Nat) :
    eventsAt k (state.standing ++ arrivedIn t state (.newBlock headBlock reaches)) ++
        t.taken (((clientStep t state (.newBlock headBlock reaches)).1.buffer t.key).eventsOf k) =
      eventsAt k state.standing ++ t.taken ((state.buffers.buffer t.key).eventsOf k) := by
  obtain ⟨hKept, hArrived⟩ := newBlock_view h hCareful k
  rw [eventsAt_append, hKept, hArrived]
  split
  next => simp
  next => simp

theorem accounted_newBlock {state state' : DeliveryState V} (h : Accounted t startBlock state)
    {headBlock : Nat} {reaches : Publication V → Bool}
    (hCareful : Careful t state (.newBlock headBlock reaches))
    (hStep : deliveryStep t state (.newBlock headBlock reaches) = some state') :
    Accounted t startBlock state' := by
  simp only [deliveryStep] at hStep
  split at hStep
  next =>
    cases hStep
    have hStanding := newBlock_standing h hCareful
    constructor
    case registered => exact h.registered.flushFinalized t.size t.config _ _ _
    case stored_le => exact h.stored_le
    case zero =>
      refine (newBlock_view h hCareful 0).1.trans ?_
      split
      next => rfl
      next => exact h.zero
    case kept =>
      intro k
      have hKept := h.kept k
      rw [← hStanding k] at hKept
      exact hKept
    case whole =>
      intro k hStart hNext hSettled
      obtain ⟨hHead, hDelivered, hWhole⟩ := h.whole k hStart hNext hSettled
      exact ⟨hHead, hDelivered, (hStanding k).trans hWhole⟩
    case published =>
      intro e he
      rcases List.mem_append.mp he with hOld | hNew
      · exact List.mem_append_left _ (h.published e hOld)
      · exact List.mem_append_right _ hNew
  next => cases hStep

theorem promised_newBlock {state state' : DeliveryState V} (h : Accounted t startBlock state)
    {headBlock : Nat} {reaches : Publication V → Bool}
    (hCareful : Careful t state (.newBlock headBlock reaches))
    (hStep : deliveryStep t state (.newBlock headBlock reaches) = some state')
    (hNext : Accounted t startBlock state') :
    Promised t startBlock state (.newBlock headBlock reaches) state' := by
  simp only [deliveryStep] at hStep
  split at hStep
  next hHead =>
    cases hStep
    constructor
    case final =>
      intro k v hMem
      have hv := (mem_eventsAt k).mpr hMem
      rw [(newBlock_view h hCareful k).2] at hv
      split at hv
      next hDeep =>
        -- a kept block is not block 0, so that the difference was not cut off at 0
        have hNotZero : k ≠ 0 := by
          rintro rfl
          rw [h.zero, t.taken_nil] at hv
          cases hv
        omega
      next => cases hv
    case delivered =>
      intro k v hMem
      exact (hNext.once k).subset ((mem_eventsAt k).mpr (List.mem_append_right _ hMem))
    case once => exact hNext.once
    case complete =>
      intro headBlock' _ hLabel k hStart hBelow hSettled hDeep v hv
      cases hLabel
      obtain ⟨-, hDelivered, hWhole⟩ := h.whole k hStart hBelow hSettled
      have hStanding := (newBlock_standing h hCareful k).trans hWhole
      rw [(newBlock_view h hCareful k).1, if_pos (by omega), t.taken_nil, List.append_nil,
        hDelivered] at hStanding
      exact hNext.published (k, v) ((mem_eventsAt k).mp (hStanding ▸ hv))
  next => cases hStep

theorem careful_step {state state' : DeliveryState V} {label : DeliveryLabel V}
    (h : Accounted t startBlock state) (hCareful : Careful t state label)
    (hStep : deliveryStep t state label = some state') :
    Accounted t startBlock state' ∧ Promised t startBlock state label state' := by
  cases label with
  | chain forkPoint blocks head =>
    have hNext := accounted_chain h hStep
    exact ⟨hNext, promised_of_arrived_nil rfl (fun _ _ hEq => nomatch hEq) hNext⟩
  | deliver fromBlock toBlock events reaches =>
    have hNext := accounted_deliver h hCareful hStep
    exact ⟨hNext, promised_deliver hCareful hStep hNext⟩
  | store =>
    have hNext := accounted_store h hStep
    exact ⟨hNext, promised_of_arrived_nil rfl (fun _ _ hEq => nomatch hEq) hNext⟩
  | newBlock headBlock reaches =>
    have hNext := accounted_newBlock h hCareful hStep
    exact ⟨hNext, promised_newBlock h hCareful hStep hNext⟩
  | reorg forkPoint detectionPoint =>
    have hNext := accounted_reorg h hCareful hStep
    exact ⟨hNext, promised_of_arrived_nil rfl (fun _ _ hEq => nomatch hEq) hNext⟩
  | crash =>
    have hNext := accounted_crash h hCareful hStep
    exact ⟨hNext, promised_of_arrived_nil rfl (fun _ _ hEq => nomatch hEq) hNext⟩

end Invariant

/-- A webhook that takes the transfers of a network three blocks below its head. -/
def transferWebhook : FinalizedTarget Nat where
  size _ := 100
  config streamType := if streamType = .webhook then
    [⟨"https://example.org/transfers", none, ["ethereum".toList], [⟨"Transfer".toList, none, none⟩],
      some .finalized⟩]
    else []
  event := ⟨"Token".toList, "Transfer".toList, 1, false⟩
  network := "ethereum".toList
  reorgSafeDistance := 3
  streamType := .webhook
  configIndex := 0
  target := ⟨"https://example.org/transfers", none, ["ethereum".toList],
    [⟨"Transfer".toList, none, none⟩], some .finalized⟩
  configured := rfl
  isFinalized := rfl
  onNetwork := by decide
  takesEvent := by decide

/-- Block 1 has an event, which is final at block 4. -/
def oneEvent (blockNumber : Nat) : List Nat := if blockNumber = 1 then [7] else []

end Rindexer.Streams
