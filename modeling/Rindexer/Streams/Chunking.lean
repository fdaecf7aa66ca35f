import Rindexer.Lib.Grouping
import Rindexer.Streams.Buffering

/-! Chunks are a greedy cut of the events, with an empty one in front if the first event is oversized.
A message is published for each of them, whether or not an event of it matches. -/

namespace Rindexer.Streams

open Rindexer.Lib

section Chunking

variable {V : Type} (size : V → Nat)

/-- The event passes the conditions under which a target takes it. -/
def matchesConditions (events : List (StreamEvent V)) (eventMessage : EventMessage V)
    (forceSendNetworkWide : Bool) (item : V) : Bool :=
  forceSendNetworkWide ||
    match (events.find? (·.eventName = eventMessage.eventName)).bind StreamEvent.conditions with
    | none => true
    | some conditions => conditions item

theorem filterChunk_eq (events : List (StreamEvent V)) (eventMessage : EventMessage V)
    (chunk : List V) (forceSendNetworkWide : Bool) :
    filterChunkEventDataByConditions events eventMessage chunk forceSendNetworkWide =
      chunk.filter (matchesConditions events eventMessage forceSendNetworkWide) := by
  unfold filterChunkEventDataByConditions matchesConditions
  cases forceSendNetworkWide with
  | true => simp
  | false =>
    cases events.find? (·.eventName = eventMessage.eventName) with
    | none => simp
    | some event =>
      cases hConditions : event.conditions with
      | none => simp [hConditions]
      | some conditions => simp [hConditions]

/-- Without chunks that are done, the events of the current chunk and the next ones are cut greedily. -/
theorem foldl_chunks_cut (front : List (List V)) (dataArray : List V)
    {groups : List (List V)} {current : List V}
    (h : CutGreedily size maxChunkSize (groups ++ [current])) :
    ∃ groups' current',
      (dataArray.foldl
        (fun (chunks, currentChunk, currentSize) item =>
          if maxChunkSize < currentSize + size item then
            (chunks ++ [currentChunk], [item], size item)
          else (chunks, currentChunk ++ [item], currentSize + size item))
        ((front ++ groups, current, totalSize size current) : List (List V) × List V × Nat)) =
          (front ++ groups', current', totalSize size current') ∧
        CutGreedily size maxChunkSize (groups' ++ [current']) := by
  induction dataArray generalizing groups current with
  | nil => exact ⟨groups, current, rfl, h⟩
  | cons item dataArray ih =>
    rw [List.foldl_cons]
    by_cases hFull : maxChunkSize < totalSize size current + size item
    · simp only [if_pos hFull]
      rw [List.append_assoc, ← totalSize_singleton size item]
      exact ih (h.push hFull)
    · simp only [if_neg hFull]
      rw [← totalSize_singleton size item, ← totalSize_append]
      exact ih (h.grow (Nat.le_of_not_lt hFull))

/-- The first event fits a chunk. -/
def FirstFits (dataArray : List V) : Prop := ∀ item ∈ dataArray.head?, size item ≤ maxChunkSize

instance (dataArray : List V) : Decidable (FirstFits size dataArray) :=
  inferInstanceAs (Decidable (∀ item ∈ dataArray.head?, size item ≤ maxChunkSize))

theorem chunkData_cut (dataArray : List V) : ∃ groups, CutGreedily size maxChunkSize groups ∧
    chunkData size dataArray = if FirstFits size dataArray then groups else [] :: groups := by
  cases dataArray with
  | nil => exact ⟨[], .nil, by simp [chunkData, FirstFits]⟩
  | cons item dataArray =>
    obtain ⟨groups, current, hFold, hCut⟩ := foldl_chunks_cut size
      (if FirstFits size (item :: dataArray) then [] else [[]]) dataArray
      (show CutGreedily size maxChunkSize ([] ++ [[item]]) from .singleton item)
    refine ⟨groups ++ [current], hCut, ?_⟩
    have hCurrent : current ≠ [] := hCut.nonempty current (by simp)
    rw [List.append_nil, totalSize_singleton] at hFold
    rw [chunkData, List.foldl_cons]
    by_cases hFits : size item ≤ maxChunkSize
    · have hFirst : FirstFits size (item :: dataArray) := by simpa [FirstFits] using hFits
      simp only [if_pos hFirst, List.nil_append] at hFold ⊢
      simp only [Nat.zero_add, if_neg (Nat.not_lt.mpr hFits), hFold]
      simp [hCurrent]
    · have hFirst : ¬ FirstFits size (item :: dataArray) := by simpa [FirstFits] using hFits
      simp only [if_neg hFirst] at hFold ⊢
      simp only [Nat.zero_add, if_pos (Nat.lt_of_not_le hFits), List.nil_append, hFold]
      simp [hCurrent]

theorem chunkData_oversized {item : V} (h : maxChunkSize < size item) :
    chunkData size [item] = [[], [item]] := by
  simp [chunkData, h]

/-! ### Messages -/

section Target

variable (streamType : StreamType) (configIndex : Nat) (target : StreamTarget V) (source : Source)
  (eventMessage : EventMessage V) (forceSendNetworkWide : Bool)

/-- The messages that a target gets of the events of a message. -/
def publishedMessages : List (EventMessage V) :=
  (streamTasks streamType configIndex target source eventMessage
    (chunkData size eventMessage.eventData) forceSendNetworkWide).messages

/-- The chunks are a partition, and the messages have the matching events, each once, and at least one
each. -/
structure PublishesPartition : Prop where
  in_order : (chunkData size eventMessage.eventData).flatten = eventMessage.eventData
  nonempty : ∀ chunk ∈ chunkData size eventMessage.eventData, chunk ≠ []
  bounded : ∀ chunk ∈ chunkData size eventMessage.eventData,
    (chunk.map size).sum ≤ maxChunkSize ∨ ∃ item, chunk = [item]
  once : (publishedMessages size streamType configIndex target source eventMessage
    forceSendNetworkWide).flatMap EventMessage.eventData =
      eventMessage.eventData.filter
        (matchesConditions target.events eventMessage forceSendNetworkWide)
  quiet : ∀ entry ∈ (chunkData size eventMessage.eventData).zip (publishedMessages size streamType
    configIndex target source eventMessage forceSendNetworkWide),
      ∃ item ∈ entry.1, matchesConditions target.events eventMessage forceSendNetworkWide item = true

/-- The events, cut greedily, have one in each group that matches. -/
def EachGroupMatches : Prop :=
  ∃ groups, CutGreedily size maxChunkSize groups ∧ groups.flatten = eventMessage.eventData ∧
    ∀ group ∈ groups, ∃ item ∈ group,
      matchesConditions target.events eventMessage forceSendNetworkWide item = true

variable {streamType configIndex target source eventMessage forceSendNetworkWide}

theorem publishedMessages_eq :
    publishedMessages size streamType configIndex target source eventMessage forceSendNetworkWide =
      (chunkData size eventMessage.eventData).map fun chunk =>
        createChunkMessage target.events eventMessage
          (chunk.filter (matchesConditions target.events eventMessage forceSendNetworkWide)) := by
  simp only [publishedMessages, streamTasks, filterChunk_eq]

theorem published_data :
    (publishedMessages size streamType configIndex target source eventMessage
      forceSendNetworkWide).flatMap EventMessage.eventData =
        eventMessage.eventData.filter
          (matchesConditions target.events eventMessage forceSendNetworkWide) := by
  rw [publishedMessages_eq, List.flatMap_map]
  calc (chunkData size eventMessage.eventData).flatMap (fun chunk => chunk.filter
          (matchesConditions target.events eventMessage forceSendNetworkWide))
      = (chunkData size eventMessage.eventData).flatten.filter
          (matchesConditions target.events eventMessage forceSendNetworkWide) := by
        rw [List.filter_flatten, List.flatMap_def]
    _ = _ := by rw [flatten_chunkData]

/-- Each chunk has its message. -/
theorem forall_published (p : List V → Prop) :
    (∀ entry ∈ (chunkData size eventMessage.eventData).zip (publishedMessages size streamType
      configIndex target source eventMessage forceSendNetworkWide), p entry.1) ↔
        ∀ chunk ∈ chunkData size eventMessage.eventData, p chunk := by
  rw [publishedMessages_eq, ← List.map_prod_left_eq_zip, List.forall_mem_map]

theorem publishes_partition_iff :
    PublishesPartition size streamType configIndex target source eventMessage forceSendNetworkWide ↔
      FirstFits size eventMessage.eventData ∧
        EachGroupMatches size target eventMessage forceSendNetworkWide := by
  obtain ⟨groups, hCut, hChunks⟩ := chunkData_cut size eventMessage.eventData
  have hFlat := flatten_chunkData size eventMessage.eventData
  have hQuiet := @forall_published _ size streamType configIndex target source eventMessage
    forceSendNetworkWide fun chunk => ∃ item ∈ chunk,
      matchesConditions target.events eventMessage forceSendNetworkWide item = true
  constructor
  · intro h
    have hFits : FirstFits size eventMessage.eventData := by
      by_contra hNot
      rw [if_neg hNot] at hChunks
      exact h.nonempty [] (by rw [hChunks]; exact List.mem_cons_self) rfl
    rw [if_pos hFits] at hChunks
    have hEach := hQuiet.mp h.quiet
    rw [hChunks] at hEach
    exact ⟨hFits, groups, hCut, by rw [← hChunks, hFlat], hEach⟩
  · rintro ⟨hFits, groups', hCut', hSame, hMatches⟩
    rw [if_pos hFits] at hChunks
    have hGroups : groups' = groups := hCut'.unique hCut (by rw [hSame, ← hChunks, hFlat])
    subst hGroups
    refine ⟨hFlat, ?_, ?_, published_data size, hQuiet.mpr ?_⟩
    · rw [hChunks]
      exact hCut.nonempty
    · rw [hChunks]
      exact hCut.fits
    · rw [hChunks]
      exact hMatches

end Target

/-- A webhook that takes every transfer. -/
def transferHook : StreamTarget (List Char) where
  endpoint := "https://example.com"
  prefixId := none
  networks := ["ethereum".toList]
  events := [⟨"Transfer".toList, none, none⟩]
  delivery := none

/-- In front of an oversized first event stands an empty chunk. -/
theorem oversized_not_partition :
    ¬ PublishesPartition List.length .webhook 0 transferHook (.instant [] [] [] 1 1 1)
      ⟨"Transfer".toList, [List.replicate 76801 'x'], 0, "ethereum".toList, 1⟩ false := by
  intro h
  refine h.nonempty [] ?_ rfl
  rw [chunkData_oversized List.length (by rw [List.length_replicate]; decide)]
  exact List.mem_cons_self

/-- A target that takes the short events gets a message without events for a long one. -/
example :
    ¬ PublishesPartition List.length .webhook 0
      { transferHook with events := [⟨"Transfer".toList, some (·.length < 3), none⟩] }
      (.instant [] [] [] 1 1 1)
      ⟨"Transfer".toList, ["abc".toList], 0, "ethereum".toList, 1⟩ false := by
  intro h
  obtain ⟨item, hMem, hMatches⟩ := h.quiet (["abc".toList],
    ⟨"Transfer".toList, [], 0, "ethereum".toList, 1⟩) (by decide)
  cases List.mem_singleton.mp hMem
  cases hMatches

end Chunking

end Rindexer.Streams
