import Mathlib.Data.List.Nodup
import Mathlib.Data.List.Count
import Rindexer.Streams.MessageId

/-! The buffer of one target, and what the target is sent: each operation of a client in terms of the
events that the buffer holds for a block. -/

namespace Rindexer.Streams

open Rindexer.Lib

namespace FinalizedBuffer

variable {V : Type} (buffer : FinalizedBuffer V)

def eventsOf (blockNumber : Nat) : List V := (buffer.get? blockNumber).getD []

@[simp] theorem eventsOf_empty (k : Nat) : eventsOf (∅ : FinalizedBuffer V) k = [] := rfl

theorem eventsOf_add (blockNumber : Nat) (events : List V) (k : Nat) :
    (buffer.add blockNumber events).eventsOf k =
      buffer.eventsOf k ++ if k = blockNumber then events else [] := by
  rw [eventsOf, add, OrderedMap.get?_insert]
  split
  next h => rw [Option.getD_some, eventsOf, h]
  next => rw [List.append_nil, eventsOf]

theorem eventsOf_restrict (p : Nat → Bool) (k : Nat) :
    eventsOf (buffer.restrict p) k = if p k then buffer.eventsOf k else [] := by
  rw [eventsOf, OrderedMap.get?_restrict]
  split
  next => rfl
  next => rfl

theorem eventsOf_flush (currentHead reorgSafeDistance k : Nat) :
    eventsOf (buffer.flush currentHead reorgSafeDistance).2 k =
      if k ≤ currentHead - reorgSafeDistance then [] else buffer.eventsOf k := by
  rw [flush, eventsOf_restrict]
  by_cases h : k ≤ currentHead - reorgSafeDistance
  · rw [if_pos h, if_neg (by simp; omega)]
  · rw [if_neg h, if_pos (by simp; omega)]

theorem eventsOf_discardRange (forkPoint detectionPoint k : Nat) :
    (buffer.discardRange forkPoint detectionPoint).eventsOf k =
      if forkPoint ≤ k ∧ k ≤ detectionPoint then [] else buffer.eventsOf k := by
  rw [discardRange, eventsOf_restrict]
  by_cases h : forkPoint ≤ k ∧ k ≤ detectionPoint
  · rw [if_pos h, if_neg (by simp [h])]
  · rw [if_neg h, if_pos (by simp; omega)]

/-- The entries for a block are those that the map has for it. -/
theorem flatMap_entries (k : Nat) :
    (buffer.entries.filter (·.1 = k)).flatMap Prod.snd = buffer.eventsOf k := by
  obtain ⟨entries, hAscending⟩ := buffer
  change (entries.filter (·.1 = k)).flatMap Prod.snd = (entries.lookup k).getD []
  induction entries with
  | nil => rfl
  | cons entry entries ih =>
    obtain ⟨hFirst, hRest⟩ := List.pairwise_cons.mp hAscending
    rw [OrderedMap.lookup_cons_eq_ite]
    by_cases h : k = entry.1
    · have hNone : entries.filter (·.1 = k) = [] := by
        rw [List.filter_eq_nil_iff]
        intro e he
        have := hFirst e he
        simp only [decide_eq_true_eq]
        omega
      rw [if_pos h, List.filter_cons_of_pos (by simp [h]), List.flatMap_cons, hNone]
      simp
    · rw [if_neg h, List.filter_cons_of_neg (by simpa using fun hEq => h hEq.symm)]
      exact ih hRest

/-- What a run of additions leaves for a block. -/
theorem eventsOf_foldl_add (entries : List (Nat × List V)) (k : Nat) :
    eventsOf (entries.foldl (fun buffer (entry : Nat × List V) => buffer.add entry.1 entry.2) buffer) k =
      buffer.eventsOf k ++ (entries.filter (·.1 = k)).flatMap Prod.snd := by
  induction entries generalizing buffer with
  | nil => simp
  | cons entry entries ih =>
    rw [List.foldl_cons, ih, eventsOf_add, List.append_assoc]
    by_cases h : entry.1 = k
    · simp [h]
    · simp [h, Ne.symm h]

end FinalizedBuffer

/-- The events of a list in a block. -/
def eventsAt {V : Type} (blockNumber : Nat) (events : List (Nat × V)) : List V :=
  (events.filter (·.1 = blockNumber)).map Prod.snd

section EventsAt

variable {V : Type} (k : Nat)

@[simp] theorem eventsAt_nil : eventsAt k ([] : List (Nat × V)) = [] := rfl

@[simp] theorem eventsAt_append (events1 events2 : List (Nat × V)) :
    eventsAt k (events1 ++ events2) = eventsAt k events1 ++ eventsAt k events2 := by
  rw [eventsAt, List.filter_append, List.map_append, eventsAt, eventsAt]

theorem eventsAt_map (blockNumber : Nat) (events : List V) :
    eventsAt k (events.map (blockNumber, ·)) = if blockNumber = k then events else [] := by
  induction events with
  | nil => simp
  | cons event events ih =>
    rw [List.map_cons, eventsAt]
    by_cases h : blockNumber = k
    · rw [List.filter_cons_of_pos (by simpa using h), List.map_cons]
      exact (congrArg (event :: ·) ih).trans (by simp [h])
    · rw [List.filter_cons_of_neg (by simpa using h)]
      exact ih.trans (by simp [h])

theorem mem_eventsAt {v : V} {events : List (Nat × V)} :
    v ∈ eventsAt k events ↔ (k, v) ∈ events := by
  rw [eventsAt, List.mem_map]
  constructor
  · rintro ⟨⟨_, _⟩, h, rfl⟩
    obtain ⟨hMem, hBlock⟩ := List.mem_filter.mp h
    obtain rfl := of_decide_eq_true hBlock
    exact hMem
  · exact fun h => ⟨(k, v), List.mem_filter.mpr ⟨h, decide_eq_true rfl⟩, rfl⟩

end EventsAt

theorem eventsOf_eventsByBlock {V : Type} (events : List (Nat × V)) (k : Nat) :
    FinalizedBuffer.eventsOf (eventsByBlock events) k = eventsAt k events := by
  have hFold : eventsByBlock events =
      (events.map fun entry => (entry.1, [entry.2])).foldl
        (fun buffer (entry : Nat × List V) => FinalizedBuffer.add buffer entry.1 entry.2) ∅ := by
    rw [List.foldl_map]
    rfl
  rw [hFold, FinalizedBuffer.eventsOf_foldl_add, FinalizedBuffer.eventsOf_empty, List.nil_append,
    eventsAt]
  clear hFold
  induction events with
  | nil => rfl
  | cons entry events ih =>
    by_cases h : entry.1 = k
    · simp [h, ← ih]
    · simp [h, ← ih]

/-! ### Chunks -/

section Chunks

variable {V : Type}

theorem flatten_foldl_chunks (size : V → Nat) (dataArray : List V)
    (state : List (List V) × List V × Nat) :
    let final := dataArray.foldl
      (fun (chunks, currentChunk, currentSize) item =>
        if maxChunkSize < currentSize + size item then
          (chunks ++ [currentChunk], [item], size item)
        else (chunks, currentChunk ++ [item], currentSize + size item)) state
    final.1.flatten ++ final.2.1 = state.1.flatten ++ state.2.1 ++ dataArray := by
  induction dataArray generalizing state with
  | nil => simp
  | cons item dataArray ih =>
    simp only [List.foldl_cons]
    rw [ih]
    split
    next => simp
    next => simp

/-- Chunks lose nothing. -/
theorem flatten_chunkData (size : V → Nat) (dataArray : List V) :
    (chunkData size dataArray).flatten = dataArray := by
  have h := flatten_foldl_chunks size dataArray ([], [], 0)
  simp only [List.flatten_nil, List.nil_append] at h
  simp only [chunkData]
  split
  next hEmpty =>
    rw [List.isEmpty_iff] at hEmpty
    rw [hEmpty, List.append_nil] at h
    exact h
  next =>
    rw [List.flatten_append, List.flatten_singleton]
    exact h

end Chunks

/-! ### One target -/

/-- The events of a publication with their block. -/
def Publication.events {V : Type} (publication : Publication V) : List (Nat × V) :=
  publication.message.eventData.map (publication.message.blockNumber, ·)

/-- A target with finalized delivery that takes the event of a client on a network. -/
structure FinalizedTarget (V : Type) where
  size : V → Nat
  config : StreamsConfig V
  event : StreamedEvent
  network : List Char
  reorgSafeDistance : Nat
  streamType : StreamType
  configIndex : Nat
  target : StreamTarget V
  configured : (config streamType)[configIndex]? = some target
  isFinalized : target.delivery = some .finalized
  onNetwork : target.networks.contains network
  takesEvent : shouldSendForConfig target.events event.eventName event.isTraceEvent false

namespace FinalizedTarget

variable {V : Type} (t : FinalizedTarget V)

def key : BufferKey :=
  ⟨t.streamType, t.configIndex, t.network, t.event.eventName, t.event.eventSignatureHash⟩

def message (blockNumber : Nat) (events : List V) : EventMessage V :=
  ⟨t.event.eventName, events, t.event.eventSignatureHash, t.network, blockNumber⟩

/-- The events that meet the conditions of the target. -/
def taken (events : List V) : List V :=
  filterChunkEventDataByConditions t.target.events (t.message 0 []) events false

theorem taken_eq_filter : ∃ p : V → Bool, ∀ events, t.taken events = events.filter p := by
  unfold taken filterChunkEventDataByConditions
  simp only [Bool.false_eq_true, if_false]
  split
  next => exact ⟨fun _ => true, fun events => (List.filter_true events).symm⟩
  next event _ =>
    split
    next => exact ⟨fun _ => true, fun events => (List.filter_true events).symm⟩
    next conditions _ => exact ⟨conditions, fun _ => rfl⟩

theorem taken_flatten (chunks : List (List V)) :
    t.taken chunks.flatten = (chunks.map t.taken).flatten := by
  obtain ⟨p, hp⟩ := t.taken_eq_filter
  rw [hp, List.filter_flatten]
  exact congrArg _ (List.map_congr_left fun chunk _ => (hp chunk).symm)

@[simp] theorem taken_nil : t.taken [] = [] := by
  obtain ⟨p, hp⟩ := t.taken_eq_filter
  exact hp []

@[simp] theorem taken_append (events1 events2 : List V) :
    t.taken (events1 ++ events2) = t.taken events1 ++ t.taken events2 := by
  obtain ⟨p, hp⟩ := t.taken_eq_filter
  rw [hp, hp, hp, List.filter_append]

/-- Whether a publication is for the target. -/
def isTo (dispatch : Dispatch V) : Bool :=
  dispatch.streamType = t.streamType && dispatch.configIndex = t.configIndex

/-- The publications of a block to the target. -/
def dispatchOf (source : Source) (blockNumber : Nat) (events : List V) : Dispatch V :=
  streamTasks t.streamType t.configIndex t.target source (t.message blockNumber events)
    (chunkData t.size events) false

theorem events_dispatchOf (source : Source) (blockNumber : Nat) (events : List V) :
    (t.dispatchOf source blockNumber events).publications.flatMap Publication.events =
      (t.taken events).map (blockNumber, ·) := by
  have hChunk : ∀ chunk, filterChunkEventDataByConditions t.target.events
      (t.message blockNumber events) chunk false = t.taken chunk := fun _ => rfl
  rw [Dispatch.publications, List.flatMap_map]
  change ((t.dispatchOf source blockNumber events).messages.zipIdx).flatMap
    (fun entry => entry.1.eventData.map (entry.1.blockNumber, ·)) = _
  rw [← @List.flatMap_map _ _ _ (fun entry : EventMessage V × Nat => entry.1)
    (fun m : EventMessage V => m.eventData.map (m.blockNumber, ·)), List.zipIdx_map_fst]
  simp only [dispatchOf, streamTasks, List.flatMap_map, hChunk, createChunkMessage]
  rw [← flatten_chunkData t.size events, taken_flatten, List.map_flatten, List.map_map,
    flatten_chunkData, List.flatMap_def]
  rfl

/-- What of a client and its publications belongs to the target. -/
def view (state : Buffers V × List (Dispatch V)) : FinalizedBuffer V × List (Dispatch V) :=
  (state.1.buffer t.key, state.2.filter t.isTo)

/-- What a message means for the target: it is kept, unless its block is 0. -/
def receive (source : Source) (blockNumber : Nat) (events : List V)
    (view : FinalizedBuffer V × List (Dispatch V)) : FinalizedBuffer V × List (Dispatch V) :=
  if blockNumber = 0 then (view.1, view.2 ++ [t.dispatchOf source blockNumber events])
  else (view.1.add blockNumber events, view.2)

/-- Another target changes nothing for this one. -/
theorem view_streamTo_of_ne (source : Source) (blockNumber : Nat) (events : List V)
    {entry : StreamType × Nat × StreamTarget V} (h : (entry.1, entry.2.1) ≠ (t.streamType, t.configIndex))
    (state : Buffers V × List (Dispatch V)) :
    t.view (streamTo t.size source (t.message blockNumber events) t.event.isTraceEvent false state
      entry) = t.view state := by
  obtain ⟨streamType, configIndex, target⟩ := entry
  unfold streamTo
  simp only
  split
  next =>
    split
    next =>
      have hKey : t.key ≠ ⟨streamType, configIndex, t.network, t.event.eventName,
          t.event.eventSignatureHash⟩ := by
        intro hEq
        rw [key, BufferKey.mk.injEq] at hEq
        exact h (Prod.ext hEq.1.symm hEq.2.1.symm)
      rw [view, view, bufferEvent]
      exact Prod.ext (Function.update_of_ne hKey _ _) rfl
    next =>
      have hTo : ¬ t.isTo (streamTasks streamType configIndex target source
          (t.message blockNumber events) (chunkData t.size events) false) := by
        simp only [isTo, streamTasks, Bool.and_eq_true]
        exact fun hEq => h (Prod.ext (of_decide_eq_true hEq.1) (of_decide_eq_true hEq.2))
      rw [view, view, List.filter_append]
      apply congrArg (Prod.mk (state.1.buffer t.key))
      change _ ++ List.filter t.isTo [streamTasks streamType configIndex target source
        (t.message blockNumber events) (chunkData t.size events) false] = _
      rw [List.filter_cons_of_neg hTo, List.filter_nil, List.append_nil]
  next => rfl

theorem view_streamTo_self (source : Source) (blockNumber : Nat) (events : List V)
    (state : Buffers V × List (Dispatch V)) :
    t.view (streamTo t.size source (t.message blockNumber events) t.event.isTraceEvent false state
      (t.streamType, t.configIndex, t.target)) = t.receive source blockNumber events (t.view state) := by
  have hSend : (shouldSendForConfig t.target.events (t.message blockNumber events).eventName
      t.event.isTraceEvent false && t.target.networks.contains (t.message blockNumber events).network) =
        true := by
    rw [Bool.and_eq_true]
    exact ⟨t.takesEvent, t.onNetwork⟩
  unfold streamTo receive
  simp only [hSend, if_true, shouldBuffer, Bool.false_eq_true, if_false, t.isFinalized]
  by_cases hBlock : blockNumber = 0
  · have hTo : t.isTo (t.dispatchOf source blockNumber events) := by
      simp [isTo, dispatchOf, streamTasks]
    simp only [message, hBlock, if_true, Bool.false_eq_true, if_false, view, List.filter_append]
    rw [hBlock] at hTo
    apply congrArg (Prod.mk (state.1.buffer t.key))
    exact congrArg _ (List.filter_cons_of_pos hTo)
  · simp only [message, hBlock, if_false, decide_true, if_true, view]
    apply congrArg (Prod.mk · (List.filter t.isTo state.2))
    exact Function.update_self _ _ _

theorem nodup_positions (config : StreamsConfig V) :
    (config.targets.map fun entry => (entry.1, entry.2.1)).Nodup := by
  rw [StreamsConfig.targets, List.map_flatMap]
  apply List.nodup_flatMap.mpr
  constructor
  · intro streamType _
    rw [List.map_map]
    have hPositions : ((config streamType).zipIdx.map
        ((fun entry : StreamType × Nat × StreamTarget V => (entry.1, entry.2.1)) ∘
          fun entry => (streamType, entry.2, entry.1))) =
        ((config streamType).zipIdx.map Prod.snd).map (streamType, ·) := by
      rw [List.map_map]
      rfl
    rw [hPositions, List.zipIdx_map_snd]
    exact List.Nodup.map (fun _ _ hEq => (Prod.mk.inj hEq).2) List.nodup_range'
  · have hTypes : StreamType.all.Nodup := by decide
    apply hTypes.imp
    intro streamType1 streamType2 hNe position h1 h2
    obtain ⟨_, hEntry1, rfl⟩ := List.mem_map.mp h1
    obtain ⟨_, -, rfl⟩ := List.mem_map.mp hEntry1
    obtain ⟨_, hEntry2, hEq⟩ := List.mem_map.mp h2
    obtain ⟨_, -, rfl⟩ := List.mem_map.mp hEntry2
    exact hNe (Prod.mk.inj hEq).1.symm

theorem mem_targets : (t.streamType, t.configIndex, t.target) ∈ t.config.targets := by
  rw [StreamsConfig.targets, List.mem_flatMap]
  refine ⟨t.streamType, ?_, List.mem_map.mpr ⟨(t.target, t.configIndex), ?_, rfl⟩⟩
  · cases t.streamType <;> decide
  · exact List.mem_zipIdx_iff_getElem?.mpr t.configured

end FinalizedTarget

/-- A fold in which one element alone changes what is looked at. -/
theorem foldl_view {σ π α κ : Type} {f : σ → α → σ} {view : σ → π} {position : α → κ} {g : π → π}
    {l : List α} {x : α} (hNodup : (l.map position).Nodup) (hx : x ∈ l)
    (hOther : ∀ s y, position y ≠ position x → view (f s y) = view s)
    (hSelf : ∀ s, view (f s x) = g (view s)) (s : σ) : view (l.foldl f s) = g (view s) := by
  have hRest : ∀ (l : List α) (s : σ), position x ∉ l.map position →
      view (l.foldl f s) = view s := by
    intro l
    induction l with
    | nil => exact fun _ _ => rfl
    | cons y l ih =>
      intro s hNot
      rw [List.map_cons, List.mem_cons, not_or] at hNot
      rw [List.foldl_cons, ih _ hNot.2, hOther s y (Ne.symm hNot.1)]
  induction l generalizing s with
  | nil => cases hx
  | cons y l ih =>
    rw [List.map_cons, List.nodup_cons] at hNodup
    rw [List.foldl_cons]
    rcases List.mem_cons.mp hx with rfl | hx
    · rw [hRest l _ hNodup.1, hSelf]
    · have hNe : position y ≠ position x := fun hEq =>
        hNodup.1 (hEq ▸ List.mem_map_of_mem hx)
      rw [ih hNodup.2 hx, hOther s y hNe]

namespace FinalizedTarget

variable {V : Type} (t : FinalizedTarget V)

theorem view_streamWithMode (source : Source) (blockNumber : Nat) (events : List V)
    (buffers : Buffers V) :
    t.view (streamWithMode t.size t.config source (t.message blockNumber events)
      t.event.isTraceEvent false buffers) =
        t.receive source blockNumber events (buffers.buffer t.key, []) :=
  foldl_view (nodup_positions t.config) t.mem_targets
    (fun state _ h => t.view_streamTo_of_ne source blockNumber events h state)
    (t.view_streamTo_self source blockNumber events) (buffers, [])

/-! ### The operations of a client -/

/-- The events that are sent to the target. -/
def sent (dispatched : List (Dispatch V)) : List (Nat × V) :=
  (dispatched.filter t.isTo).flatMap fun dispatch => dispatch.publications.flatMap Publication.events

theorem receive_append (source : Source) (blockNumber : Nat) (events : List V)
    (buffer : FinalizedBuffer V) (dispatched : List (Dispatch V)) :
    t.receive source blockNumber events (buffer, dispatched) =
      ((t.receive source blockNumber events (buffer, [])).1,
        dispatched ++ (t.receive source blockNumber events (buffer, [])).2) := by
  unfold receive
  split
  next => rfl
  next => rw [List.append_nil]

theorem view_noCodeCallback (batch : StreamBatch V) (hNetwork : batch.network = t.network)
    (buffers : Buffers V) :
    ∃ source : Nat → Source, t.view (noCodeCallback t.size t.config t.event batch buffers) =
      (eventsByBlock batch.events).entries.foldl
        (fun view (entry : Nat × List V) => t.receive (source entry.1) entry.1 entry.2 view)
        (buffers.buffer t.key, []) := by
  refine ⟨fun blockNumber => .instant t.event.contractName t.event.eventName batch.network
    batch.fromBlock batch.toBlock blockNumber, ?_⟩
  rw [noCodeCallback]
  refine (List.foldl_hom t.view ?_).symm
  rintro ⟨buffers, dispatched⟩ ⟨blockNumber, events⟩
  rw [hNetwork]
  refine (t.receive_append _ _ _ _ _).trans ?_
  rw [← view_streamWithMode]
  simp only [view, List.filter_append]
  rfl

theorem foldl_receive (source : Nat → Source) (entries : List (Nat × List V))
    (view : FinalizedBuffer V × List (Dispatch V)) :
    let final := entries.foldl
      (fun view (entry : Nat × List V) => t.receive (source entry.1) entry.1 entry.2 view) view
    (∀ k, final.1.eventsOf k = view.1.eventsOf k ++
      if k = 0 then [] else (entries.filter (·.1 = k)).flatMap Prod.snd) ∧
    final.2.flatMap (fun dispatch => dispatch.publications.flatMap Publication.events) =
      view.2.flatMap (fun dispatch => dispatch.publications.flatMap Publication.events) ++
        (t.taken ((entries.filter (·.1 = 0)).flatMap Prod.snd)).map (0, ·) := by
  induction entries generalizing view with
  | nil => simp
  | cons entry entries ih =>
    obtain ⟨blockNumber, events⟩ := entry
    obtain ⟨hBuffer, hSent⟩ := ih (t.receive (source blockNumber) blockNumber events view)
    simp only [List.foldl_cons]
    refine ⟨fun k => (hBuffer k).trans ?_, hSent.trans ?_⟩
    · unfold receive
      by_cases hZero : blockNumber = 0
      · by_cases hk : k = 0
        · simp [hZero, hk]
        · simp [hZero, hk, Ne.symm hk]
      · by_cases hk : k = 0
        · simp [hZero, hk, FinalizedBuffer.eventsOf_add, Ne.symm hZero]
        · by_cases hSame : k = blockNumber
          · simp [hSame, hZero, FinalizedBuffer.eventsOf_add]
          · simp [hk, hZero, hSame, Ne.symm hSame, FinalizedBuffer.eventsOf_add]
    · unfold receive
      by_cases hZero : blockNumber = 0
      · simp [hZero, events_dispatchOf]
      · simp [hZero]

/-- A batch is kept, except for events of block 0, which are sent. -/
theorem noCodeCallback_spec (batch : StreamBatch V) (hNetwork : batch.network = t.network)
    (buffers : Buffers V) :
    let after := noCodeCallback t.size t.config t.event batch buffers
    (∀ k, (after.1.buffer t.key).eventsOf k = (buffers.buffer t.key).eventsOf k ++
      if k = 0 then [] else eventsAt k batch.events) ∧
    t.sent after.2 = (t.taken (eventsAt 0 batch.events)).map (0, ·) := by
  obtain ⟨source, hView⟩ := t.view_noCodeCallback batch hNetwork buffers
  obtain ⟨hBuffer, hSent⟩ := t.foldl_receive source (eventsByBlock batch.events).entries
    (buffers.buffer t.key, [])
  rw [← hView] at hBuffer hSent
  constructor
  · intro k
    refine (hBuffer k).trans ?_
    rw [FinalizedBuffer.flatMap_entries, eventsOf_eventsByBlock]
  · refine hSent.trans ?_
    rw [FinalizedBuffer.flatMap_entries, eventsOf_eventsByBlock]
    rfl

end FinalizedTarget

/-! ### Flushes and discards -/

/-- The keys of a client that streams one event: each has a buffer once it has been used. -/
structure Buffers.Registered {V : Type} (event : StreamedEvent) (buffers : Buffers V) : Prop where
  nodup : buffers.keys.Nodup
  named : ∀ key ∈ buffers.keys,
    key.eventName = event.eventName ∧ key.eventSignatureHash = event.eventSignatureHash
  unused : ∀ key, key ∉ buffers.keys → buffers.buffer key = ∅

section Registered

variable {V : Type} {event : StreamedEvent} {buffers : Buffers V}

theorem registered_empty : (Buffers.empty : Buffers V).Registered event where
  nodup := List.nodup_nil
  named _ h := nomatch h
  unused _ _ := rfl

theorem Buffers.Registered.bufferEvent (h : buffers.Registered event) (streamType : StreamType)
    (configIndex : Nat) {message : EventMessage V} (hName : message.eventName = event.eventName)
    (hHash : message.eventSignatureHash = event.eventSignatureHash) :
    (bufferEvent buffers streamType configIndex message).Registered event := by
  unfold Streams.bufferEvent
  refine ⟨?_, ?_, ?_⟩
  · dsimp only
    split
    next => exact h.nodup
    next hNew => exact List.nodup_append.mpr ⟨h.nodup, List.nodup_singleton _, by
      intro key hKey key' hKey' hEq
      obtain rfl := List.mem_singleton.mp hKey'
      exact hNew (hEq ▸ hKey)⟩
  · intro key hKey
    dsimp only at hKey
    split at hKey
    next => exact h.named key hKey
    next =>
      rcases List.mem_append.mp hKey with hOld | hNew
      · exact h.named key hOld
      · obtain rfl := List.mem_singleton.mp hNew
        exact ⟨hName, hHash⟩
  · intro key hKey
    dsimp only at hKey ⊢
    have hNot : key ∉ buffers.keys ∧ key ≠ ⟨streamType, configIndex, message.network,
        message.eventName, message.eventSignatureHash⟩ := by
      split at hKey
      next hSeen => exact ⟨hKey, fun hEq => hKey (hEq ▸ hSeen)⟩
      next => simpa using hKey
    rw [Function.update_of_ne hNot.2]
    exact h.unused key hNot.1

theorem Buffers.Registered.streamWithMode (h : buffers.Registered event) (size : V → Nat)
    (config : StreamsConfig V) (source : Source) {message : EventMessage V}
    (isTraceEvent forceSendNetworkWide : Bool) (hName : message.eventName = event.eventName)
    (hHash : message.eventSignatureHash = event.eventSignatureHash) :
    (streamWithMode size config source message isTraceEvent forceSendNetworkWide buffers).1.Registered
      event := by
  unfold Streams.streamWithMode
  have hAll : ∀ (entries : List (StreamType × Nat × StreamTarget V))
      (state : Buffers V × List (Dispatch V)), state.1.Registered event →
        (entries.foldl (streamTo size source message isTraceEvent forceSendNetworkWide)
          state).1.Registered event := by
    intro entries
    induction entries with
    | nil => exact fun _ h => h
    | cons entry entries ih =>
      intro state hState
      apply ih
      unfold streamTo
      dsimp only
      split
      next =>
        split
        next => exact hState.bufferEvent _ _ hName hHash
        next => exact hState
      next => exact hState
  exact hAll _ _ h

theorem Buffers.Registered.noCodeCallback (h : buffers.Registered event) (size : V → Nat)
    (config : StreamsConfig V) (batch : StreamBatch V) :
    (noCodeCallback size config event batch buffers).1.Registered event := by
  unfold Streams.noCodeCallback
  have hAll : ∀ (entries : List (Nat × List V)) (state : Buffers V × List (Dispatch V)),
      state.1.Registered event →
        (entries.foldl (fun acc entry =>
          let result := Streams.streamWithMode size config
            (.instant event.contractName event.eventName batch.network batch.fromBlock batch.toBlock
              entry.1)
            ⟨event.eventName, entry.2, event.eventSignatureHash, batch.network, entry.1⟩
            event.isTraceEvent false acc.1
          (result.1, acc.2 ++ result.2)) state).1.Registered event := by
    intro entries
    induction entries with
    | nil => exact fun _ h => h
    | cons entry entries ih =>
      intro state hState
      exact ih _ (hState.streamWithMode size config _ _ _ rfl rfl)
  exact hAll _ _ h

theorem Buffers.Registered.flushFinalized (h : buffers.Registered event) (size : V → Nat)
    (config : StreamsConfig V) (reorgSafeDistance : Nat) (network : List Char) (headBlock : Nat) :
    (flushFinalized size config reorgSafeDistance network headBlock buffers).1.Registered event := by
  refine ⟨h.nodup, h.named, fun key hKey => ?_⟩
  unfold Streams.flushFinalized
  dsimp only
  split
  next =>
    rw [h.unused key hKey]
    rfl
  next => exact h.unused key hKey

theorem Buffers.Registered.discardFinalized (h : buffers.Registered event) (network : List Char)
    (forkPoint detectionPoint : Nat) :
    (discardFinalized network forkPoint detectionPoint buffers).Registered event := by
  refine ⟨h.nodup, h.named, fun key hKey => ?_⟩
  unfold Streams.discardFinalized
  dsimp only
  split
  next =>
    rw [h.unused key hKey]
    rfl
  next => exact h.unused key hKey

end Registered

namespace FinalizedTarget

variable {V : Type} (t : FinalizedTarget V)

theorem events_map_dispatchOf (source : Nat → Source) (entries : List (Nat × List V)) (k : Nat) :
    eventsAt k ((entries.map fun entry => t.dispatchOf (source entry.1) entry.1 entry.2).flatMap
      fun dispatch => dispatch.publications.flatMap Publication.events) =
        t.taken ((entries.filter (·.1 = k)).flatMap Prod.snd) := by
  induction entries with
  | nil => simp
  | cons entry entries ih =>
    rw [List.map_cons, List.flatMap_cons, eventsAt_append, ih, events_dispatchOf, eventsAt_map]
    by_cases h : entry.1 = k
    · simp [h]
    · simp [h]

theorem isTo_dispatchOf (source : Source) (blockNumber : Nat) (events : List V) :
    t.isTo (t.dispatchOf source blockNumber events) := by
  simp [isTo, dispatchOf, streamTasks]

theorem dispatchFlushed_self (ready : List (Nat × List V)) :
    dispatchFlushed t.size t.config t.key ready = ready.map fun entry =>
      t.dispatchOf (.finalized t.streamType t.configIndex t.network entry.1) entry.1 entry.2 := by
  have hTarget : (t.config t.key.streamType)[t.key.configIndex]? = some t.target := t.configured
  simp only [dispatchFlushed, hTarget]
  rfl

/-- What is flushed from a buffer of another key is not for the target. -/
theorem filter_dispatchFlushed_of_ne {key : BufferKey}
    (h : ¬ (key.streamType = t.streamType ∧ key.configIndex = t.configIndex))
    (ready : List (Nat × List V)) :
    (dispatchFlushed t.size t.config key ready).filter t.isTo = [] := by
  apply List.filter_eq_nil_iff.mpr
  intro dispatch hDispatch hTo
  rw [isTo, Bool.and_eq_true] at hTo
  unfold dispatchFlushed at hDispatch
  split at hDispatch
  next => cases hDispatch
  next =>
    obtain ⟨entry, -, rfl⟩ := List.mem_map.mp hDispatch
    exact h ⟨of_decide_eq_true hTo.1, of_decide_eq_true hTo.2⟩

theorem eq_key_iff {key : BufferKey} (hName : key.eventName = t.event.eventName)
    (hHash : key.eventSignatureHash = t.event.eventSignatureHash) (hNetwork : key.network = t.network) :
    key = t.key ↔ key.streamType = t.streamType ∧ key.configIndex = t.configIndex := by
  obtain ⟨streamType, configIndex, network, eventName, eventSignatureHash⟩ := key
  simp only at hName hHash hNetwork
  simp [FinalizedTarget.key, hName, hHash, hNetwork]

theorem flatMap_of_unique {α β : Type} [DecidableEq α] {f : α → List β} {l : List α} {a : α}
    (hNodup : l.Nodup) (h : ∀ x ∈ l, x ≠ a → f x = []) :
    l.flatMap f = if a ∈ l then f a else [] := by
  induction l with
  | nil => rfl
  | cons x l ih =>
    obtain ⟨hNew, hNodup⟩ := List.nodup_cons.mp hNodup
    rw [List.flatMap_cons, ih hNodup fun y hy => h y (List.mem_cons_of_mem _ hy)]
    by_cases hx : x = a
    · subst hx
      simp [hNew]
    · rw [h x List.mem_cons_self hx]
      simp [Ne.symm hx]

/-- A flush sends the blocks up to the head minus the distance and keeps the others. -/
theorem flushFinalized_spec {buffers : Buffers V} (hBuffers : buffers.Registered t.event)
    (headBlock : Nat) :
    let after := flushFinalized t.size t.config t.reorgSafeDistance t.network headBlock buffers
    (∀ k, (after.1.buffer t.key).eventsOf k = if k ≤ headBlock - t.reorgSafeDistance then []
      else (buffers.buffer t.key).eventsOf k) ∧
    ∀ k, eventsAt k (t.sent after.2) = if k ≤ headBlock - t.reorgSafeDistance then
      t.taken ((buffers.buffer t.key).eventsOf k) else [] := by
  constructor
  · intro k
    rw [← FinalizedBuffer.eventsOf_flush]
    exact congrArg (fun buffer => FinalizedBuffer.eventsOf buffer k) (if_pos rfl)
  · intro k
    let ready (key : BufferKey) :=
      ((buffers.buffer key).flush headBlock t.reorgSafeDistance).1
    have hOther : ∀ key ∈ buffers.keys.filter (·.network = t.network), key ≠ t.key →
        (dispatchFlushed t.size t.config key (ready key)).filter t.isTo = [] := by
      intro key hKey hNe
      obtain ⟨hMem, hNetwork⟩ := List.mem_filter.mp hKey
      obtain ⟨hName, hHash⟩ := hBuffers.named key hMem
      apply t.filter_dispatchFlushed_of_ne
      rwa [← t.eq_key_iff hName hHash (of_decide_eq_true hNetwork)]
    have hSelf : (dispatchFlushed t.size t.config t.key (ready t.key)).filter t.isTo =
        dispatchFlushed t.size t.config t.key (ready t.key) := by
      rw [dispatchFlushed_self]
      apply List.filter_eq_self.mpr
      intro dispatch hDispatch
      obtain ⟨entry, -, rfl⟩ := List.mem_map.mp hDispatch
      exact t.isTo_dispatchOf _ _ _
    have hReady : (((ready t.key).filter (·.1 = k)).flatMap Prod.snd) =
        if k ≤ headBlock - t.reorgSafeDistance then (buffers.buffer t.key).eventsOf k else [] := by
      refine (FinalizedBuffer.flatMap_entries ((buffers.buffer t.key).restrict
        (decide <| · < headBlock - t.reorgSafeDistance + 1)) k).trans ?_
      rw [FinalizedBuffer.eventsOf_restrict]
      simp [Nat.lt_succ_iff]
    have hSent : t.sent (flushFinalized t.size t.config t.reorgSafeDistance t.network headBlock
        buffers).2 = (if t.key ∈ buffers.keys.filter (·.network = t.network) then
          (ready t.key).map fun entry => t.dispatchOf
            (.finalized t.streamType t.configIndex t.network entry.1) entry.1 entry.2
          else []).flatMap fun dispatch => dispatch.publications.flatMap Publication.events := by
      rw [sent, flushFinalized, List.filter_flatMap, flatMap_of_unique (hBuffers.nodup.filter _) hOther,
        hSelf, dispatchFlushed_self]
    rw [hSent]
    split
    next =>
      refine (t.events_map_dispatchOf (fun k => .finalized t.streamType t.configIndex t.network k)
        (ready t.key) k).trans ?_
      rw [hReady]
      split
      next => rfl
      next => exact t.taken_nil
    next hKey =>
      have hUnused : buffers.buffer t.key = ∅ := by
        apply hBuffers.unused
        intro hMem
        exact hKey (List.mem_filter.mpr ⟨hMem, decide_eq_true rfl⟩)
      simp [hUnused]

theorem discardFinalized_spec (buffers : Buffers V) (forkPoint detectionPoint k : Nat) :
    ((discardFinalized t.network forkPoint detectionPoint buffers).buffer t.key).eventsOf k =
      if forkPoint ≤ k ∧ k ≤ detectionPoint then [] else (buffers.buffer t.key).eventsOf k := by
  rw [← FinalizedBuffer.eventsOf_discardRange]
  exact congrArg (fun buffer => FinalizedBuffer.eventsOf buffer k) (if_pos rfl)

end FinalizedTarget

end Rindexer.Streams
