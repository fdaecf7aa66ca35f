import Mathlib.Data.Set.Basic
import Rindexer.Chain
import Rindexer.Indexer.DetailKey

/-! The logs that a manifest detail selects, and when details with one key select the same logs. -/

namespace Rindexer.Indexer

open Rindexer.Lib

/-! ### The selected logs -/

/-- The library functions that read a topic value: an address as a word, a number, and the hash. -/
structure TopicWords where
  addressFromStr : List Char → Option B256
  u256FromStr : List Char → Option B256
  keccak256 : List Char → B256

def parseTopic (words : TopicWords) (input : List Char) : B256 :=
  if asciiLower input = "true".toList then 1
  else if asciiLower input = "false".toList then 0
  else
    match words.addressFromStr input with
    | some word => word
    | none =>
      match words.u256FromStr input with
      | some number => number
      | none => words.keccak256 input

/-- The admitted topics of the three indexed positions.  None at a position admits any. -/
def topicsOf (words : TopicWords) (filter : EventInputIndexedFilters) :
    List B256 × List B256 × List B256 :=
  ((filter.indexed1.getD []).map (parseTopic words), (filter.indexed2.getD []).map (parseTopic words),
    (filter.indexed3.getD []).map (parseTopic words))

/-- A log: the address of its contract and its topics, the first of which names the event. -/
structure LogEntry (Address : Type) where
  address : Address
  topics : List B256

def admits (allowed : List B256) (topic : Option B256) : Prop :=
  allowed = [] ∨ ∃ word ∈ allowed, topic = some word

section Selection

variable {Address : Type}

def LogEntry.matchesTopics (log : LogEntry Address) (topics : List B256 × List B256 × List B256) :
    Prop :=
  admits topics.1 log.topics[1]? ∧ admits topics.2.1 log.topics[2]? ∧
    admits topics.2.2 log.topics[3]?

/-- The logs that a detail selects for the event of topic `topicId`, `known` holding the children of
each factory.  Contracts and factories use the first filter of the event only. -/
def selects (words : TopicWords) (known : String → String → List String → Set Address)
    (setup : IndexingContractSetup Address) (eventName : List Char) (topicId : B256)
    (log : LogEntry Address) : Prop :=
  log.topics[0]? = some topicId ∧
    match setup with
    | .address address _ =>
      log.address ∈ address.toList ∧
        ∀ topics ∈ ((setup.filtersFor eventName).map (topicsOf words)).head?,
          log.matchesTopics topics
    | .filter _ =>
      (setup.filtersFor eventName).map (topicsOf words) = [] ∨
        ∃ topics ∈ (setup.filtersFor eventName).map (topicsOf words), log.matchesTopics topics
    | .factory details =>
      log.address ∈ known details.contractName details.eventName details.inputName.toList ∧
        ∀ topics ∈ ((setup.filtersFor eventName).map (topicsOf words)).head?,
          log.matchesTopics topics

/-- Two details that select the same logs, whatever the factories have deployed. -/
def SameLogs (words : TopicWords) (eventName : List Char)
    (setup1 setup2 : IndexingContractSetup Address) : Prop :=
  ∀ known topicId log, selects words known setup1 eventName topicId log ↔
    selects words known setup2 eventName topicId log

end Selection

/-! ### Filters that a key tells apart -/

theorem flatMap_pair_inj {α : Type} {pairs1 pairs2 : List (α × α)}
    (h : (pairs1.flatMap fun p => [p.1, p.2]) = pairs2.flatMap fun p => [p.1, p.2]) :
    pairs1 = pairs2 := by
  induction pairs1 generalizing pairs2 with
  | nil =>
    cases pairs2 with
    | nil => rfl
    | cons q pairs2 => cases h
  | cons p pairs1 ih =>
    cases pairs2 with
    | nil => cases h
    | cons q pairs2 =>
      obtain ⟨hFirst, hRest⟩ := List.cons.inj h
      obtain ⟨hSecond, hRest⟩ := List.cons.inj hRest
      rw [ih hRest, Prod.ext hFirst hSecond]

/-- The values of a position, joined and lowered. -/
def positionEntry (position : Char) (values : Option (List (List Char))) :
    List (List Char × List Char) :=
  if values.getD [] = [] then []
  else [(['i', position], joinWith ',' ((values.getD []).map asciiLower))]

def entries (filter : EventInputIndexedFilters) : List (List Char × List Char) :=
  positionEntry '1' filter.indexed1 ++ positionEntry '2' filter.indexed2 ++
    positionEntry '3' filter.indexed3

theorem indexedPositions_entries (filter : EventInputIndexedFilters) :
    (indexedPositions filter).map asciiLower =
      (entries filter).map fun p => p.1 ++ ':' :: p.2 := by
  let positionText (entry : Char × Option (List (List Char))) : Option (List Char) :=
    entry.2.elim none fun values =>
      if values = [] then none else some ('i' :: entry.1 :: ':' :: joinWith ',' values)
  have hPositions : indexedPositions filter =
      [('1', filter.indexed1), ('2', filter.indexed2), ('3', filter.indexed3)].filterMap
        positionText := by
    rw [indexedPositions]
    congr 1
    funext entry
    obtain ⟨position, values⟩ := entry
    cases values <;> rfl
  have hPosition : ∀ n : Char, n.toLower = n → ∀ values : Option (List (List Char)),
      ([(n, values)].filterMap positionText).map asciiLower =
        (positionEntry n values).map fun p => p.1 ++ ':' :: p.2 := by
    intro n hn values
    rw [positionEntry]
    cases values with
    | none => rfl
    | some values =>
      cases values with
      | nil => rfl
      | cons v vs =>
        simp only [positionText, Option.elim_some, List.filterMap_cons, List.filterMap_nil, List.map_cons, List.map_nil, asciiLower,
          hn, map_joinWith, reduceCtorEq, if_false, Option.getD_some]
        rfl
  have h1 := hPosition '1' (by decide) filter.indexed1
  have h2 := hPosition '2' (by decide) filter.indexed2
  have h3 := hPosition '3' (by decide) filter.indexed3
  rw [hPositions, entries, List.map_append, List.map_append, ← h1, ← h2, ← h3, ← List.map_append,
    ← List.map_append, ← List.filterMap_append, ← List.filterMap_append]
  rfl

/-- An entry of a position is the only one with its name. -/
theorem filter_entries (filter : EventInputIndexedFilters) :
    (entries filter).filter (·.1 = ['i', '1']) = positionEntry '1' filter.indexed1 ∧
    (entries filter).filter (·.1 = ['i', '2']) = positionEntry '2' filter.indexed2 ∧
    (entries filter).filter (·.1 = ['i', '3']) = positionEntry '3' filter.indexed3 := by
  have hSame : ∀ n values, (positionEntry n values).filter (·.1 = ['i', n]) =
      positionEntry n values := by
    intro n values
    rw [positionEntry]
    split <;> simp
  have hOther : ∀ n m values, m ≠ n →
      (positionEntry m values).filter (·.1 = ['i', n]) = [] := by
    intro n m values hNe
    rw [positionEntry]
    split
    · rfl
    · simp [hNe]
  simp only [entries, List.filter_append, hSame]
  refine ⟨?_, ?_, ?_⟩
  · rw [hOther '1' '2' _ (by decide), hOther '1' '3' _ (by decide), List.append_nil, List.append_nil]
  · rw [hOther '2' '1' _ (by decide), hOther '2' '3' _ (by decide), List.nil_append, List.append_nil]
  · rw [hOther '3' '1' _ (by decide), hOther '3' '2' _ (by decide), List.nil_append, List.nil_append]

section Plain

variable (words : TopicWords)

/-- A value that the key writes unambiguously: it has none of the separators, and its topic does not
depend on its case. -/
def PlainValue (value : List Char) : Prop :=
  ',' ∉ value ∧ ':' ∉ value ∧ '|' ∉ value ∧
    parseTopic words (asciiLower value) = parseTopic words value

def EventInputIndexedFilters.Plain (filter : EventInputIndexedFilters) : Prop :=
  (∀ value ∈ filter.indexed1.getD [], PlainValue words value) ∧
  (∀ value ∈ filter.indexed2.getD [], PlainValue words value) ∧
  (∀ value ∈ filter.indexed3.getD [], PlainValue words value)

variable {words}

/-- The topics of a position follow from its entry. -/
theorem positionEntry_inj {n : Char} {values1 values2 : Option (List (List Char))}
    (h1 : ∀ value ∈ values1.getD [], PlainValue words value)
    (h2 : ∀ value ∈ values2.getD [], PlainValue words value)
    (h : positionEntry n values1 = positionEntry n values2) :
    (values1.getD []).map (parseTopic words) = (values2.getD []).map (parseTopic words) := by
  rw [positionEntry, positionEntry] at h
  by_cases hEmpty1 : values1.getD [] = []
  · by_cases hEmpty2 : values2.getD [] = []
    · rw [hEmpty1, hEmpty2]
    · rw [if_pos hEmpty1, if_neg hEmpty2] at h
      cases h
  · by_cases hEmpty2 : values2.getD [] = []
    · rw [if_neg hEmpty1, if_pos hEmpty2] at h
      cases h
    · rw [if_neg hEmpty1, if_neg hEmpty2] at h
      have hJoined := congrArg Prod.snd (List.head_eq_of_cons_eq h)
      have hFree : ∀ values : List (List Char), (∀ value ∈ values, PlainValue words value) →
          ∀ part ∈ values.map asciiLower, ',' ∉ part := by
        intro values hPlain part hPart
        obtain ⟨value, hValue, rfl⟩ := List.mem_map.mp hPart
        exact not_mem_asciiLower (by decide) (hPlain value hValue).1
      have hLowered := joinWith_inj (by simpa using hEmpty1) (by simpa using hEmpty2)
        (hFree _ h1) (hFree _ h2) hJoined
      apply map_eq_of_map_eq _ hLowered
      intro a ha b hb hEq
      rw [← (h1 a ha).2.2.2, hEq, (h2 b hb).2.2.2]

theorem entries_free {c : Char} (hc : c.isLower = false) (hSep : c ≠ ',')
    {filter : EventInputIndexedFilters}
    (h1 : ∀ value ∈ filter.indexed1.getD [], c ∉ value)
    (h2 : ∀ value ∈ filter.indexed2.getD [], c ∉ value)
    (h3 : ∀ value ∈ filter.indexed3.getD [], c ∉ value) (hPositions : c ∉ ['i', '1', '2', '3']) :
    ∀ p ∈ entries filter, c ∉ p.1 ∧ c ∉ p.2 := by
  have hEntry : ∀ n ∈ ['1', '2', '3'], ∀ values : Option (List (List Char)),
      (∀ value ∈ values.getD [], c ∉ value) → ∀ p ∈ positionEntry n values, c ∉ p.1 ∧ c ∉ p.2 := by
    intro n hn values hValues p hp
    rw [positionEntry] at hp
    split at hp
    · cases hp
    · obtain rfl := List.mem_singleton.mp hp
      refine ⟨fun hMem => hPositions ?_, fun hMem => ?_⟩
      · rcases List.mem_cons.mp hMem with rfl | hMem
        · exact List.mem_cons_self
        · rw [List.mem_singleton.mp hMem]
          exact List.mem_cons_of_mem _ hn
      · rcases mem_joinWith hMem with hComma | ⟨part, hPart, hMem⟩
        · exact hSep hComma
        · obtain ⟨value, hValue, rfl⟩ := List.mem_map.mp hPart
          exact not_mem_asciiLower hc (hValues value hValue) hMem
  intro p hp
  rcases List.mem_append.mp hp with hp | hp
  · rcases List.mem_append.mp hp with hp | hp
    · exact hEntry '1' (by decide) _ h1 p hp
    · exact hEntry '2' (by decide) _ h2 p hp
  · exact hEntry '3' (by decide) _ h3 p hp

theorem entries_ne_nil {filter : EventInputIndexedFilters} (h : indexedPositions filter ≠ []) :
    entries filter ≠ [] := by
  intro hEmpty
  have hMap := indexedPositions_entries filter
  rw [hEmpty, List.map_nil, List.map_eq_nil_iff] at hMap
  exact h hMap

/-- Two plain filters that are written alike admit the same topics. -/
theorem topicsOf_eq {filter1 filter2 : EventInputIndexedFilters} (h1 : filter1.Plain words)
    (h2 : filter2.Plain words) (hPos1 : indexedPositions filter1 ≠ [])
    (hPos2 : indexedPositions filter2 ≠ [])
    (h : asciiLower (joinWith ':' (indexedPositions filter1)) =
      asciiLower (joinWith ':' (indexedPositions filter2))) :
    topicsOf words filter1 = topicsOf words filter2 := by
  have hLowered : ∀ filter : EventInputIndexedFilters,
      asciiLower (joinWith ':' (indexedPositions filter)) =
        joinWith ':' ((entries filter).flatMap fun p => [p.1, p.2]) := by
    intro filter
    rw [asciiLower, map_joinWith, ← joinWith_pairs]
    exact congrArg (joinWith ':') (indexedPositions_entries filter)
  have hNonempty : ∀ filter : EventInputIndexedFilters, indexedPositions filter ≠ [] →
      ((entries filter).flatMap fun p => [p.1, p.2]) ≠ [] := by
    intro filter hPos
    obtain ⟨p, ps, hEntries⟩ := List.exists_cons_of_ne_nil (entries_ne_nil hPos)
    rw [hEntries]
    exact List.cons_ne_nil _ _
  have hFree : ∀ filter : EventInputIndexedFilters, filter.Plain words →
      ∀ part ∈ (entries filter).flatMap fun p => [p.1, p.2], ':' ∉ part := by
    intro filter hPlain part hPart
    obtain ⟨p, hp, hPart⟩ := List.mem_flatMap.mp hPart
    have hBoth := entries_free (by decide) (by decide) (fun v hv => (hPlain.1 v hv).2.1)
      (fun v hv => (hPlain.2.1 v hv).2.1) (fun v hv => (hPlain.2.2 v hv).2.1) (by decide) p hp
    rcases List.mem_cons.mp hPart with rfl | hPart
    · exact hBoth.1
    · rw [List.mem_singleton.mp hPart]
      exact hBoth.2
  rw [hLowered, hLowered] at h
  have hFlat := joinWith_inj (hNonempty _ hPos1) (hNonempty _ hPos2) (hFree _ h1) (hFree _ h2) h
  have hEntries := flatMap_pair_inj hFlat
  obtain ⟨hA1, hA2, hA3⟩ := filter_entries filter1
  obtain ⟨hB1, hB2, hB3⟩ := filter_entries filter2
  rw [hEntries] at hA1 hA2 hA3
  rw [topicsOf, topicsOf, positionEntry_inj h1.1 h2.1 (hA1.symm.trans hB1),
    positionEntry_inj h1.2.1 h2.2.1 (hA2.symm.trans hB2),
    positionEntry_inj h1.2.2 h2.2.2 (hA3.symm.trans hB3)]

/-- Plain filters that are written alike admit the same topics, in the same order. -/
theorem map_topicsOf_eq {filters1 filters2 : List EventInputIndexedFilters}
    (h1 : ∀ filter ∈ filters1, filter.Plain words) (h2 : ∀ filter ∈ filters2, filter.Plain words)
    (hPos1 : ∀ filter ∈ filters1, indexedPositions filter ≠ [])
    (hPos2 : ∀ filter ∈ filters2, indexedPositions filter ≠ [])
    (hNonempty1 : filters1 ≠ []) (hNonempty2 : filters2 ≠ [])
    (h : asciiLower (written filters1) = asciiLower (written filters2)) :
    filters1.map (topicsOf words) = filters2.map (topicsOf words) := by
  have hFree : ∀ filters : List EventInputIndexedFilters,
      (∀ filter ∈ filters, filter.Plain words) →
      ∀ part ∈ (filters.map fun filter => joinWith ':' (indexedPositions filter)).map asciiLower,
        '|' ∉ part := by
    intro filters hPlain part hPart hMem
    obtain ⟨text, hText, rfl⟩ := List.mem_map.mp hPart
    obtain ⟨filter, hFilter, rfl⟩ := List.mem_map.mp hText
    have hPlain := hPlain filter hFilter
    rw [asciiLower, map_joinWith] at hMem
    rcases mem_joinWith hMem with hColon | ⟨position, hPosition, hMem⟩
    · cases hColon
    · have hEntry : position ∈ (indexedPositions filter).map asciiLower := hPosition
      rw [indexedPositions_entries] at hEntry
      obtain ⟨p, hp, rfl⟩ := List.mem_map.mp hEntry
      have hBoth := entries_free (by decide) (by decide) (fun v hv => (hPlain.1 v hv).2.2.1)
        (fun v hv => (hPlain.2.1 v hv).2.2.1) (fun v hv => (hPlain.2.2 v hv).2.2.1) (by decide) p hp
      rcases List.mem_append.mp hMem with hMem | hMem
      · exact hBoth.1 hMem
      · rcases List.mem_cons.mp hMem with hColon | hMem
        · cases hColon
        · exact hBoth.2 hMem
  rw [asciiLower, asciiLower, written, written, map_joinWith, map_joinWith] at h
  have hLowered := joinWith_inj (by simpa using hNonempty1) (by simpa using hNonempty2)
    (hFree _ h1) (hFree _ h2) h
  rw [List.map_map, List.map_map] at hLowered
  apply map_eq_of_map_eq _ hLowered
  intro a ha b hb hEq
  exact topicsOf_eq (h1 a ha) (h2 b hb) (hPos1 a ha) (hPos2 b hb) hEq

end Plain

/-! ### Keys and selected logs -/

section SameKey

variable {Address : Type}

/-- The event and the inputs under which the children of a factory are known. -/
def IndexingContractSetup.factoryEvent? : IndexingContractSetup Address →
    Option (String × String × List String)
  | factory details => some (details.contractName, details.eventName, details.inputName.toList)
  | _ => none

def IndexingContractSetup.Plain (words : TopicWords) (eventName : List Char)
    (setup : IndexingContractSetup Address) : Prop :=
  ∀ filter ∈ setup.filtersFor eventName, filter.Plain words

theorem sameLogs_of_topics {words : TopicWords} {eventName : List Char}
    {setup1 setup2 : IndexingContractSetup Address}
    (hFactory : setup1.factoryEvent? = setup2.factoryEvent?)
    (hAddresses : setup1.addresses.map ValueOrArray.toList =
      setup2.addresses.map ValueOrArray.toList)
    (hTopics : (setup1.filtersFor eventName).map (topicsOf words) =
      (setup2.filtersFor eventName).map (topicsOf words)) :
    SameLogs words eventName setup1 setup2 := by
  intro known topicId log
  cases setup1 with
  | address a1 f1 =>
    cases setup2 with
    | address a2 f2 =>
      have hList : a1.toList = a2.toList := Option.some.inj hAddresses
      simp only [selects, hList, hTopics]
    | filter f2 => cases hAddresses
    | factory d2 => cases hFactory
  | filter f1 =>
    cases setup2 with
    | address a2 f2 => cases hAddresses
    | filter f2 => simp only [selects, hTopics]
    | factory d2 => cases hFactory
  | factory d1 =>
    cases setup2 with
    | address a2 f2 => cases hFactory
    | filter f2 => cases hFactory
    | factory d2 =>
      obtain ⟨hContract, hEvent, hInput⟩ :
          d1.contractName = d2.contractName ∧ d1.eventName = d2.eventName ∧
            d1.inputName.toList = d2.inputName.toList := by
        simpa [IndexingContractSetup.factoryEvent?] using hFactory
      simp only [selects, hContract, hEvent, hInput, hTopics]

theorem sameLogs_of_clash {words : TopicWords} {eventName : List Char}
    {setup1 setup2 : IndexingContractSetup Address} (hPlain1 : setup1.Plain words eventName)
    (hPlain2 : setup2.Plain words eventName) (hFactory : setup1.factoryEvent? = setup2.factoryEvent?)
    (hExact : ¬FallsBack eventName setup1 ∨ ¬FallsBack eventName setup2)
    (hClash : Clash eventName setup1 setup2) : SameLogs words eventName setup1 setup2 := by
  rcases hClash with ⟨h1, h2⟩ | ⟨h1, h2, hAddresses, hWritten⟩
  · rcases hExact with hExact | hExact
    · exact absurd h1 hExact
    · exact absurd h2 hExact
  · simp only [FallsBack, not_or, not_exists, not_and] at h1 h2
    exact sameLogs_of_topics hFactory hAddresses
      (map_topicsOf_eq hPlain1 hPlain2 h1.2.2 h2.2.2 h1.2.1 h2.2.1 hWritten)

/-- The text whose hash names a detail in the live loop. -/
def processorText (topicId contractName network detailKey : List Char) : List Char :=
  topicId ++ contractName ++ network ++ detailKey

def processorId (keccak256 : List Char → B256)
    (topicId contractName network detailKey : List Char) : B256 :=
  keccak256 (processorText topicId contractName network detailKey)

/-- Two details with one key select the same logs unless they clash.  Details of one kind with
plain filters clash only if both fall back.  Under one key the live loop has one entry. -/
theorem one_key_same_logs_iff (format : AddressFormat Address) (words : TopicWords)
    (eventName topicId contractName network : List Char)
    (setup1 setup2 : IndexingContractSetup Address) :
    ((deriveDetailKey format setup1 eventName = deriveDetailKey format setup2 eventName →
        SameLogs words eventName setup1 setup2) ↔
      SameLogs words eventName setup1 setup2 ∨ ¬Clash eventName setup1 setup2) ∧
    (setup1.Plain words eventName → setup2.Plain words eventName →
      setup1.factoryEvent? = setup2.factoryEvent? →
      ¬FallsBack eventName setup1 ∨ ¬FallsBack eventName setup2 →
      SameLogs words eventName setup1 setup2 ∨ ¬Clash eventName setup1 setup2) ∧
    (processorId words.keccak256 topicId contractName network
        (deriveDetailKey format setup1 eventName) =
      processorId words.keccak256 topicId contractName network
        (deriveDetailKey format setup2 eventName) ↔
      Clash eventName setup1 setup2 ∨ ∃ text1 text2, text1 ≠ text2 ∧
        text1 = processorText topicId contractName network
          (deriveDetailKey format setup1 eventName) ∧
        text2 = processorText topicId contractName network
          (deriveDetailKey format setup2 eventName) ∧
        words.keccak256 text1 = words.keccak256 text2) := by
  refine ⟨?_, ?_, ?_⟩
  · rw [deriveDetailKey_eq_iff]
    tauto
  · intro hPlain1 hPlain2 hFactory hExact
    by_cases hClash : Clash eventName setup1 setup2
    · exact .inl (sameLogs_of_clash hPlain1 hPlain2 hFactory hExact hClash)
    · exact .inr hClash
  · rw [← deriveDetailKey_eq_iff format]
    constructor
    · intro hIds
      by_cases hKeys : deriveDetailKey format setup1 eventName =
          deriveDetailKey format setup2 eventName
      · exact .inl hKeys
      · refine .inr ⟨_, _, fun hTexts => hKeys ?_, rfl, rfl, hIds⟩
        exact List.append_cancel_left hTexts
    · rintro (hKeys | ⟨text1, text2, -, rfl, rfl, hHash⟩)
      · rw [hKeys]
      · exact hHash

end SameKey

/-- An address whose nibbles are all equal. -/
def repeated (nibble : Nat) : BitVec 160 := BitVec.ofNat 160 (nibble * (2 ^ 160 / 15))

/-- Values `true` and `false` need no library function. -/
def boolWords : TopicWords where
  addressFromStr _ := none
  u256FromStr _ := none
  keccak256 text := BitVec.ofNat 256 text.length

/-- The detail of one contract whose first indexed input has a value. -/
def approvedIs (value : String) : IndexingContractSetup (BitVec 160) :=
  .address (.value (repeated 1)) (some [⟨"ApprovalForAll".toList, some [value.toList], none, none⟩])

theorem approvedIs_plain {value : String} (h : PlainValue boolWords value.toList) :
    (approvedIs value).Plain boolWords "ApprovalForAll".toList := by
  intro filter hFilter
  obtain rfl := List.mem_singleton.mp (List.mem_filter.mp hFilter).1
  refine ⟨fun v hv => ?_, fun v hv => ?_, fun v hv => ?_⟩
  · rwa [List.mem_singleton.mp hv]
  · cases hv
  · cases hv

theorem one_key_same_logs_iff_approved :
    deriveDetailKey hexFormat (approvedIs "true") "ApprovalForAll".toList =
      "0x1111111111111111111111111111111111111111:i1:true".toList ∧
    SameLogs boolWords "ApprovalForAll".toList (approvedIs "true") (approvedIs "True") := by
  have hSame := one_key_same_logs_iff hexFormat boolWords "ApprovalForAll".toList [] [] []
    (approvedIs "true") (approvedIs "True")
  have hKeys : deriveDetailKey hexFormat (approvedIs "true") "ApprovalForAll".toList =
      deriveDetailKey hexFormat (approvedIs "True") "ApprovalForAll".toList := by
    decide
  have hExact : ¬FallsBack "ApprovalForAll".toList (approvedIs "true") := by
    rw [← deriveDetailKey_eq_legacyKey hexFormat]
    decide
  have hLower : PlainValue boolWords "true".toList := by unfold PlainValue; decide
  have hUpper : PlainValue boolWords "True".toList := by unfold PlainValue; decide
  refine ⟨by decide, hSame.1.mpr ?_ hKeys⟩
  exact hSame.2.1 (approvedIs_plain hLower) (approvedIs_plain hUpper) rfl (.inl hExact)

/-- Two contracts without filters share the fallback key and select different logs. -/
theorem unfiltered_details_share_key :
    ¬∀ setup1 setup2 : IndexingContractSetup (BitVec 160),
      deriveDetailKey hexFormat setup1 "Transfer".toList =
        deriveDetailKey hexFormat setup2 "Transfer".toList →
      SameLogs boolWords "Transfer".toList setup1 setup2 := by
  intro h
  have hSame := h (.address (.value (repeated 1)) none) (.address (.value (repeated 2)) none) rfl
  have hLog := (hSame (fun _ _ _ => ∅) 7 ⟨repeated 1, [7]⟩).mp
    ⟨rfl, List.mem_singleton.mpr rfl, fun _ h => nomatch h⟩
  have hAddress : repeated 1 = repeated 2 := List.mem_singleton.mp hLog.2.1
  exact absurd hAddress (by decide)

end Rindexer.Indexer
