import Mathlib.Data.Set.Basic
import Rindexer.Database.TableNames

/-! When the names of the internal tables are sound: every place names one table for an event, no two
events of a project share it, and naming does not panic. -/

namespace Rindexer.Database

open Rindexer.Lib

section Total

variable (classes : UnicodeClasses)

/-- The snake case of a text that does not panic. -/
def snake (s : List Char) : List Char := (camelToSnake classes s).getD []

theorem camelToSnake_of_not_panics {s : List Char} (h : ¬Panics classes s) :
    camelToSnake classes s = some (snake classes s) := by
  rw [← camelToSnake_eq_none_iff, ← ne_eq, Option.ne_none_iff_exists'] at h
  obtain ⟨name, hName⟩ := h
  rw [snake, hName, Option.getD_some]

theorem not_panics_of_camelToSnake {s name : List Char} (h : camelToSnake classes s = some name) :
    ¬Panics classes s := by
  rw [← camelToSnake_eq_none_iff, h]
  exact Option.some_ne_none name

/-- No part of an event's name makes snake case panic. -/
def Spelled (indexerName : List Char) (event : ProjectEvent) : Prop :=
  ¬Panics classes indexerName ∧ ¬Panics classes event.contract.beforeModifyNameIfFilterReadonly ∧
    ¬Panics classes event.eventName

/-- The cursor table of an event before shortening. -/
def fullName (indexerName : List Char) (event : ProjectEvent) : List Char :=
  snake classes indexerName ++ '_' ::
    (snake classes event.contract.beforeModifyNameIfFilterReadonly ++ '_' ::
      snake classes event.eventName)

theorem longName_eq_some_iff {indexerName name : List Char} {event : ProjectEvent} :
    ((generateIndexerContractSchemaName classes indexerName
      event.contract.beforeModifyNameIfFilterReadonly).bind fun schema =>
        generateInternalEventTableNameNoShorten classes schema event.eventName) = some name ↔
      Spelled classes indexerName event ∧ name = fullName classes indexerName event := by
  constructor
  · intro h
    obtain ⟨schema, hSchema, hName⟩ := Option.bind_eq_some_iff.mp h
    obtain ⟨indexer, hIndexer, hSchema⟩ := Option.bind_eq_some_iff.mp hSchema
    obtain ⟨contract, hContract, rfl⟩ := Option.map_eq_some_iff.mp hSchema
    obtain ⟨eventName, hEvent, rfl⟩ := Option.map_eq_some_iff.mp hName
    refine ⟨⟨not_panics_of_camelToSnake classes hIndexer, not_panics_of_camelToSnake classes hContract,
      not_panics_of_camelToSnake classes hEvent⟩, ?_⟩
    simp only [fullName, snake, hIndexer, hContract, hEvent, Option.getD_some, List.append_assoc,
      List.cons_append]
  · rintro ⟨⟨hIndexer, hContract, hEvent⟩, rfl⟩
    simp only [generateIndexerContractSchemaName, generateInternalEventTableNameNoShorten,
      camelToSnake_of_not_panics classes hIndexer, camelToSnake_of_not_panics classes hContract,
      camelToSnake_of_not_panics classes hEvent, Option.bind_some, Option.map_some, fullName,
      List.append_assoc, List.cons_append]

theorem mapM_camelToSnake_eq_some_iff {inputs names : List (List Char)} :
    inputs.mapM (camelToSnake classes) = some names ↔
      (∀ input ∈ inputs, ¬Panics classes input) ∧ names = inputs.map (snake classes) := by
  induction inputs generalizing names with
  | nil => simp [eq_comm]
  | cons input inputs ih =>
    rw [List.mapM_cons]
    constructor
    · intro h
      obtain ⟨name, hName, h⟩ := Option.bind_eq_some_iff.mp h
      obtain ⟨rest, hRest, h⟩ := Option.bind_eq_some_iff.mp h
      obtain rfl := Option.some.inj h
      obtain ⟨hAll, rfl⟩ := ih.mp hRest
      refine ⟨fun i hi => ?_, by rw [List.map_cons, snake, hName, Option.getD_some]⟩
      rcases List.mem_cons.mp hi with rfl | hi
      · exact not_panics_of_camelToSnake classes hName
      · exact hAll i hi
    · rintro ⟨hAll, rfl⟩
      have hRest := ih.mpr ⟨fun i hi => hAll i (List.mem_cons_of_mem _ hi), rfl⟩
      rw [camelToSnake_of_not_panics classes (hAll input List.mem_cons_self), hRest]
      rfl

/-- No part of a factory's name makes snake case panic. -/
def SpelledFactory (params : GenerateInternalFactoryEventTableNameParams) : Prop :=
  ¬Panics classes params.indexerName ∧ ¬Panics classes params.contractName ∧
    ¬Panics classes params.eventName ∧ ∀ input ∈ params.inputNames, ¬Panics classes input

/-- The table of a factory on Postgres before shortening. -/
def fullFactoryName (separator : Char) (params : GenerateInternalFactoryEventTableNameParams) :
    List Char :=
  snake classes params.indexerName ++ '_' :: snake classes params.contractName ++
    '_' :: snake classes params.eventName ++
    '_' :: joinWith separator (params.inputNames.map (snake classes))

theorem factoryTableName_eq_some_iff {separator : Char} {name : List Char}
    {params : GenerateInternalFactoryEventTableNameParams} :
    factoryTableName classes separator params = some name ↔
      SpelledFactory classes params ∧ name = fullFactoryName classes separator params := by
  constructor
  · intro h
    obtain ⟨schema, hSchema, h⟩ := Option.bind_eq_some_iff.mp h
    obtain ⟨event, hEvent, h⟩ := Option.bind_eq_some_iff.mp h
    obtain ⟨inputs, hInputs, rfl⟩ := Option.map_eq_some_iff.mp h
    obtain ⟨indexer, hIndexer, hSchema⟩ := Option.bind_eq_some_iff.mp hSchema
    obtain ⟨contract, hContract, rfl⟩ := Option.map_eq_some_iff.mp hSchema
    obtain ⟨hAll, rfl⟩ := (mapM_camelToSnake_eq_some_iff classes).mp hInputs
    refine ⟨⟨not_panics_of_camelToSnake classes hIndexer, not_panics_of_camelToSnake classes hContract,
      not_panics_of_camelToSnake classes hEvent, hAll⟩, ?_⟩
    rw [fullFactoryName, snake, snake, snake, hIndexer, hContract, hEvent, Option.getD_some,
      Option.getD_some, Option.getD_some]
  · rintro ⟨⟨hIndexer, hContract, hEvent, hAll⟩, rfl⟩
    simp only [factoryTableName, generateIndexerContractSchemaName,
      camelToSnake_of_not_panics classes hIndexer, camelToSnake_of_not_panics classes hContract,
      camelToSnake_of_not_panics classes hEvent,
      (mapM_camelToSnake_eq_some_iff classes).mpr ⟨hAll, rfl⟩, Option.bind_some, Option.map_some,
      fullFactoryName]

end Total

section Shortening

variable (keccak : Keccak)

/-- A long name can be cut after 52 bytes. -/
def Cuttable (name : List Char) : Prop :=
  63 < utf8Len name → ∃ start, start <+: name ∧ utf8Len start = 52

/-- A long name that ends up as `shortened`. -/
def ShortensTo (name shortened : List Char) : Prop :=
  63 < utf8Len name ∧ ∃ start, start <+: name ∧ utf8Len start = 52 ∧
    shortened = start ++ '_' :: (keccak.hex name).take 10

theorem compact_eq_some_iff {name compacted : List Char} :
    compactTableNameIfNeeded keccak name = some compacted ↔
      (utf8Len name ≤ 63 ∧ compacted = name) ∨ ShortensTo keccak name compacted := by
  rw [compactTableNameIfNeeded, ShortensTo]
  split
  next hLong =>
    rw [Option.map_eq_some_iff]
    constructor
    · rintro ⟨start, hStart, rfl⟩
      obtain ⟨hPrefix, hLen⟩ := takeBytes_eq_some_iff.mp hStart
      exact .inr ⟨hLong, start, hPrefix, hLen, rfl⟩
    · rintro (⟨hShort, -⟩ | ⟨-, start, hPrefix, hLen, rfl⟩)
      · omega
      · exact ⟨start, takeBytes_eq_some_iff.mpr ⟨hPrefix, hLen⟩, rfl⟩
  next hShort =>
    rw [Option.some.injEq]
    constructor
    · rintro rfl
      exact .inl ⟨by omega, rfl⟩
    · rintro (⟨-, rfl⟩ | ⟨hLong, -⟩)
      · rfl
      · exact absurd hLong hShort

theorem ShortensTo.utf8Len {name shortened : List Char} (h : ShortensTo keccak name shortened) :
    utf8Len shortened = 63 := by
  obtain ⟨-, start, -, hLen, rfl⟩ := h
  have hUnderscore : '_'.utf8Size = 1 := by decide
  rw [utf8Len_append, utf8Len_cons, keccak.hashPrefix_utf8Len, hLen, hUnderscore]

theorem compact_isSome_iff {name : List Char} :
    (∃ compacted, compactTableNameIfNeeded keccak name = some compacted) ↔ Cuttable name := by
  simp only [compact_eq_some_iff]
  constructor
  · rintro ⟨compacted, ⟨hShort, -⟩ | ⟨-, start, hPrefix, hLen, -⟩⟩ hLong
    · omega
    · exact ⟨start, hPrefix, hLen⟩
  · intro h
    by_cases hLong : 63 < utf8Len name
    · obtain ⟨start, hPrefix, hLen⟩ := h hLong
      exact ⟨_, .inr ⟨hLong, start, hPrefix, hLen, rfl⟩⟩
    · exact ⟨name, .inl ⟨by omega, rfl⟩⟩

/-- Different names that shortening makes equal: two long names with the same first 52 bytes and the
same part of their hashes, or a short name that looks like a shortened one. -/
def HashClash (name1 name2 : List Char) : Prop :=
  (63 < utf8Len name1 ∧ 63 < utf8Len name2 ∧ (keccak.hex name1).take 10 = (keccak.hex name2).take 10 ∧
    ∃ start, start <+: name1 ∧ start <+: name2 ∧ utf8Len start = 52) ∨
  (utf8Len name2 ≤ 63 ∧ ShortensTo keccak name1 name2) ∨
  (utf8Len name1 ≤ 63 ∧ ShortensTo keccak name2 name1)

theorem compact_eq_iff {name1 name2 : List Char} (h1 : Cuttable name1) (h2 : Cuttable name2) :
    compactTableNameIfNeeded keccak name1 = compactTableNameIfNeeded keccak name2 ↔
      name1 = name2 ∨ HashClash keccak name1 name2 := by
  obtain ⟨compacted1, hSome1⟩ := (compact_isSome_iff keccak).mpr h1
  obtain ⟨compacted2, hSome2⟩ := (compact_isSome_iff keccak).mpr h2
  have hCases1 := (compact_eq_some_iff keccak).mp hSome1
  have hCases2 := (compact_eq_some_iff keccak).mp hSome2
  constructor
  · intro h
    obtain rfl : compacted1 = compacted2 := by
      rw [hSome1, hSome2] at h
      exact Option.some.inj h
    rcases hCases1 with ⟨hShort1, rfl⟩ | hShortens1
    · rcases hCases2 with ⟨hShort2, rfl⟩ | hShortens2
      · exact .inl rfl
      · exact .inr (.inr (.inr ⟨hShort1, hShortens2⟩))
    · rcases hCases2 with ⟨hShort2, rfl⟩ | hShortens2
      · exact .inr (.inr (.inl ⟨hShort2, hShortens1⟩))
      · obtain ⟨hLong1, start1, hPrefix1, hLen1, rfl⟩ := hShortens1
        obtain ⟨hLong2, start2, hPrefix2, hLen2, hEq⟩ := hShortens2
        obtain ⟨rfl, hTail⟩ := List.append_inj' hEq (by
          rw [List.length_cons, List.length_cons, keccak.hashPrefix_length, keccak.hashPrefix_length])
        exact .inr (.inl ⟨hLong1, hLong2, (List.cons.inj hTail).2, start1, hPrefix1, hPrefix2, hLen1⟩)
  · rintro (rfl | ⟨hLong1, hLong2, hHash, start, hPrefix1, hPrefix2, hLen⟩ |
      ⟨hShort2, hShortens1⟩ | ⟨hShort1, hShortens2⟩)
    · rfl
    · rw [(compact_eq_some_iff keccak).mpr (.inr ⟨hLong1, start, hPrefix1, hLen, rfl⟩), hHash]
      exact ((compact_eq_some_iff keccak).mpr (.inr ⟨hLong2, start, hPrefix2, hLen, rfl⟩)).symm
    · rw [(compact_eq_some_iff keccak).mpr (.inr hShortens1)]
      exact ((compact_eq_some_iff keccak).mpr (.inl ⟨hShort2, rfl⟩)).symm
    · rw [(compact_eq_some_iff keccak).mpr (.inr hShortens2)]
      exact (compact_eq_some_iff keccak).mpr (.inl ⟨hShort1, rfl⟩)

end Shortening

/-- What is done with a cursor table. -/
inductive Place
  | create
  | read
  | advance
  | rewind
deriving DecidableEq, Repr

section Sound

variable (classes : UnicodeClasses) (keccak : Keccak) (backend : Backend) (indexerName : List Char)

def cursorTable (place : Place) (event : ProjectEvent) : Option (List Char) :=
  match place with
  | .create => createdCursorTable classes keccak backend indexerName event
  | .read => readCursorTable classes keccak backend indexerName event
  | .advance => advancedCursorTable classes keccak backend indexerName event
  | .rewind => rewoundCursorTable classes keccak indexerName event

/-- ClickHouse names are shortened for rewinds only. -/
def shortens (place : Place) : Bool := backend = .postgres || place = .rewind

theorem cursorTable_eq (place : Place) (event : ProjectEvent) :
    cursorTable classes keccak backend indexerName place event =
      ((generateIndexerContractSchemaName classes indexerName
        event.contract.beforeModifyNameIfFilterReadonly).bind fun schema =>
          generateInternalEventTableNameNoShorten classes schema event.eventName).bind fun name =>
            if shortens backend place then compactTableNameIfNeeded keccak name else some name := by
  rw [Option.bind_assoc, ← event.contract.registered_name]
  cases place with
  | create =>
    rw [cursorTable, createdCursorTable, ← event.contract.registered_name]
    cases backend with
    | postgres => rfl
    | clickhouse => simp [shortens, generateInternalEventTableNameNoShorten]
  | read =>
    cases backend with
    | postgres => rfl
    | clickhouse => simp [cursorTable, readCursorTable, shortens]
  | advance =>
    cases backend with
    | postgres => rfl
    | clickhouse => simp [cursorTable, advancedCursorTable, shortens]
  | rewind =>
    cases backend with
    | postgres => rfl
    | clickhouse => rfl

theorem cursorTable_eq_some_iff {place : Place} {event : ProjectEvent} {name : List Char} :
    cursorTable classes keccak backend indexerName place event = some name ↔
      Spelled classes indexerName event ∧
        (if shortens backend place then
          compactTableNameIfNeeded keccak (fullName classes indexerName event)
        else some (fullName classes indexerName event)) = some name := by
  rw [cursorTable_eq, Option.bind_eq_some_iff]
  simp only [longName_eq_some_iff]
  constructor
  · rintro ⟨_, ⟨hSpelled, rfl⟩, hName⟩
    exact ⟨hSpelled, hName⟩
  · rintro ⟨hSpelled, hName⟩
    exact ⟨_, ⟨hSpelled, rfl⟩, hName⟩

/-- The events of a project have one table each, the same in every place, and naming the tables of
events and factories never panics. -/
structure NamesSound (events : Set ProjectEvent)
    (factories : Set GenerateInternalFactoryEventTableNameParams) : Prop where
  named : ∀ event ∈ events, ∀ place,
    ∃ name, cursorTable classes keccak backend indexerName place event = some name
  agree : ∀ event ∈ events, ∀ place1 place2,
    cursorTable classes keccak backend indexerName place1 event =
      cursorTable classes keccak backend indexerName place2 event
  distinct : ∀ event1 ∈ events, ∀ event2 ∈ events,
    (event1.contract.name, event1.eventName) ≠ (event2.contract.name, event2.eventName) →
      ∀ place, cursorTable classes keccak backend indexerName place event1 ≠
        cursorTable classes keccak backend indexerName place event2
  factoryNamed : ∀ params ∈ factories,
    ∃ name, createdFactoryTable classes keccak backend params = some name
  factoryAgree : ∀ params ∈ factories, createdFactoryTable classes keccak backend params =
    knownFactoryTable classes keccak backend params

/-- Two events whose names in snake case join to the same text: the names are equal, or the end of one
contract's name begins the name of the other's event. -/
def SnakeClash (event1 event2 : ProjectEvent) : Prop :=
  let contract1 := snake classes event1.contract.beforeModifyNameIfFilterReadonly
  let contract2 := snake classes event2.contract.beforeModifyNameIfFilterReadonly
  let name1 := snake classes event1.eventName
  let name2 := snake classes event2.eventName
  (contract1 = contract2 ∧ name1 = name2) ∨
    (∃ shared, contract1 = contract2 ++ '_' :: shared ∧ name2 = shared ++ '_' :: name1) ∨
      ∃ shared, contract2 = contract1 ++ '_' :: shared ∧ name1 = shared ++ '_' :: name2

theorem fullName_eq_iff {event1 event2 : ProjectEvent} :
    fullName classes indexerName event1 = fullName classes indexerName event2 ↔
      SnakeClash classes event1 event2 := by
  rw [fullName, fullName, List.append_cancel_left_eq, List.cons.injEq, SnakeClash,
    ← append_separator_eq_iff]
  simp

/-- Names without a panic that fit the backend and are apart. -/
structure NamesFit (events : Set ProjectEvent)
    (factories : Set GenerateInternalFactoryEventTableNameParams) : Prop where
  spelled : ∀ event ∈ events, Spelled classes indexerName event
  cuttable : backend = .postgres → ∀ event ∈ events, Cuttable (fullName classes indexerName event)
  short : backend = .clickhouse → ∀ event ∈ events, utf8Len (fullName classes indexerName event) ≤ 63
  apart : ∀ event1 ∈ events, ∀ event2 ∈ events,
    (event1.contract.name, event1.eventName) ≠ (event2.contract.name, event2.eventName) →
      ¬SnakeClash classes event1 event2 ∧ (backend = .postgres →
        ¬HashClash keccak (fullName classes indexerName event1) (fullName classes indexerName event2))
  factorySpelled : ∀ params ∈ factories, SpelledFactory classes params
  factoryCuttable : backend = .postgres → ∀ params ∈ factories,
    Cuttable (fullFactoryName classes '-' params)

theorem createdFactoryTable_isSome_iff {params : GenerateInternalFactoryEventTableNameParams} :
    (∃ name, createdFactoryTable classes keccak backend params = some name) ↔
      SpelledFactory classes params ∧
        (backend = .postgres → Cuttable (fullFactoryName classes '-' params)) := by
  cases backend with
  | postgres =>
    simp only [createdFactoryTable, generateInternalFactoryEventTableName, Option.bind_eq_some_iff,
      factoryTableName_eq_some_iff]
    constructor
    · rintro ⟨name, _, ⟨hSpelled, rfl⟩, hName⟩
      exact ⟨hSpelled, fun _ => (compact_isSome_iff keccak).mp ⟨name, hName⟩⟩
    · rintro ⟨hSpelled, hCut⟩
      obtain ⟨name, hName⟩ := (compact_isSome_iff keccak).mpr (hCut trivial)
      exact ⟨name, _, ⟨hSpelled, rfl⟩, hName⟩
  | clickhouse =>
    simp only [createdFactoryTable, generateInternalFactoryEventTableNameNoShorten,
      factoryTableName_eq_some_iff]
    constructor
    · rintro ⟨name, hSpelled, -⟩
      exact ⟨hSpelled, fun h => nomatch h⟩
    · rintro ⟨hSpelled, -⟩
      exact ⟨_, hSpelled, rfl⟩

/-- A name of at most 63 bytes is the same in every place of every backend. -/
theorem cursorTable_of_short {place : Place} {event : ProjectEvent}
    (hSpelled : Spelled classes indexerName event)
    (hShort : utf8Len (fullName classes indexerName event) ≤ 63) :
    cursorTable classes keccak backend indexerName place event =
      some (fullName classes indexerName event) := by
  rw [cursorTable_eq_some_iff]
  refine ⟨hSpelled, ?_⟩
  split
  · exact (compact_eq_some_iff keccak).mpr (.inl ⟨hShort, rfl⟩)
  · rfl

theorem cursorTable_postgres {place : Place} {event : ProjectEvent}
    (hSpelled : Spelled classes indexerName event) :
    cursorTable classes keccak .postgres indexerName place event =
      compactTableNameIfNeeded keccak (fullName classes indexerName event) := by
  apply Option.ext
  intro name
  rw [cursorTable_eq_some_iff]
  simp [hSpelled, shortens]

/-- The names are sound exactly if they fit. -/
theorem namesSound_iff_fit (events : Set ProjectEvent)
    (factories : Set GenerateInternalFactoryEventTableNameParams) :
    NamesSound classes keccak backend indexerName events factories ↔
      NamesFit classes keccak backend indexerName events factories := by
  constructor
  · rintro ⟨hNamed, hAgree, hDistinct, hFactoryNamed, -⟩
    have hSpelled : ∀ event ∈ events, Spelled classes indexerName event := by
      intro event hEvent
      obtain ⟨name, hName⟩ := hNamed event hEvent .read
      exact ((cursorTable_eq_some_iff classes keccak backend indexerName).mp hName).1
    have hFactories := fun params hParams =>
      (createdFactoryTable_isSome_iff classes keccak backend).mp (hFactoryNamed params hParams)
    refine ⟨hSpelled, ?_, ?_, ?_, fun p hp => (hFactories p hp).1, fun h p hp => (hFactories p hp).2 h⟩
    · rintro rfl event hEvent
      obtain ⟨name, hName⟩ := hNamed event hEvent .read
      rw [cursorTable_postgres classes keccak indexerName (hSpelled event hEvent)] at hName
      exact (compact_isSome_iff keccak).mp ⟨name, hName⟩
    · rintro rfl event hEvent
      obtain ⟨name, hName⟩ := hNamed event hEvent .rewind
      have hRead := (hAgree event hEvent .read .rewind).trans hName
      rw [cursorTable_eq_some_iff] at hName hRead
      obtain rfl := Option.some.inj hRead.2
      rcases (compact_eq_some_iff keccak).mp hName.2 with ⟨hShort, -⟩ | hShortens
      · exact hShort
      · exact Nat.le_of_eq hShortens.utf8Len
    · intro event1 hEvent1 event2 hEvent2 hNe
      have hTables := hDistinct event1 hEvent1 event2 hEvent2 hNe .read
      constructor
      · intro hClash
        apply hTables
        apply Option.ext
        intro name
        rw [cursorTable_eq_some_iff, cursorTable_eq_some_iff,
          (fullName_eq_iff classes indexerName).mpr hClash]
        simp only [hSpelled event1 hEvent1, hSpelled event2 hEvent2, true_and]
      · rintro rfl hClash
        rw [cursorTable_postgres classes keccak indexerName (hSpelled event1 hEvent1),
          cursorTable_postgres classes keccak indexerName (hSpelled event2 hEvent2)] at hTables
        obtain ⟨name1, hName1⟩ := hNamed event1 hEvent1 .read
        obtain ⟨name2, hName2⟩ := hNamed event2 hEvent2 .read
        rw [cursorTable_postgres classes keccak indexerName (hSpelled event1 hEvent1)] at hName1
        rw [cursorTable_postgres classes keccak indexerName (hSpelled event2 hEvent2)] at hName2
        exact hTables ((compact_eq_iff keccak ((compact_isSome_iff keccak).mp ⟨name1, hName1⟩)
          ((compact_isSome_iff keccak).mp ⟨name2, hName2⟩)).mpr (.inr hClash))
  · rintro ⟨hSpelled, hCuttable, hShort, hApart, hFactorySpelled, hFactoryCuttable⟩
    have hTable : ∀ event ∈ events, ∀ place,
        cursorTable classes keccak backend indexerName place event =
          compactTableNameIfNeeded keccak (fullName classes indexerName event) := by
      intro event hEvent place
      cases backend with
      | postgres => exact cursorTable_postgres classes keccak indexerName (hSpelled event hEvent)
      | clickhouse =>
        have hFits := hShort rfl event hEvent
        rw [cursorTable_of_short classes keccak _ indexerName (hSpelled event hEvent) hFits]
        exact ((compact_eq_some_iff keccak).mpr (.inl ⟨hFits, rfl⟩)).symm
    have hCut : ∀ event ∈ events, Cuttable (fullName classes indexerName event) := by
      intro event hEvent
      cases backend with
      | postgres => exact hCuttable rfl event hEvent
      | clickhouse =>
        intro hLong
        have := hShort rfl event hEvent
        omega
    refine ⟨?_, ?_, ?_, ?_, fun params _ => rfl⟩
    · intro event hEvent place
      rw [hTable event hEvent]
      exact (compact_isSome_iff keccak).mpr (hCut event hEvent)
    · intro event hEvent place1 place2
      rw [hTable event hEvent, hTable event hEvent]
    · intro event1 hEvent1 event2 hEvent2 hNe place
      obtain ⟨hSnake, hHash⟩ := hApart event1 hEvent1 event2 hEvent2 hNe
      rw [hTable event1 hEvent1, hTable event2 hEvent2, ne_eq,
        compact_eq_iff keccak (hCut event1 hEvent1) (hCut event2 hEvent2),
        fullName_eq_iff, not_or]
      refine ⟨hSnake, fun hClash => ?_⟩
      cases backend with
      | postgres => exact hHash rfl hClash
      | clickhouse =>
        have hFits1 := hShort rfl event1 hEvent1
        have hFits2 := hShort rfl event2 hEvent2
        rcases hClash with ⟨hLong, -⟩ | ⟨-, hLong, -⟩ | ⟨-, hLong, -⟩ <;> omega
    · intro params hParams
      exact (createdFactoryTable_isSome_iff classes keccak backend).mpr
        ⟨hFactorySpelled params hParams, fun h => hFactoryCuttable h params hParams⟩

end Sound

def zeroKeccak : Keccak where
  hex _ := List.replicate 64 '0'
  hex_length _ := rfl
  hex_digits _ c hc := by
    obtain rfl := List.eq_of_mem_replicate hc
    decide

def managerEvent : ProjectEvent :=
  ⟨⟨"NonfungiblePositionManager".toList, false⟩, "IncreaseLiquidityForRecipient".toList⟩

def poolCreated : ProjectEvent := ⟨⟨"Token".toList, false⟩, "PoolCreated".toList⟩

def created : ProjectEvent := ⟨⟨"TokenPool".toList, false⟩, "Created".toList⟩

/-- On ClickHouse a long name is rewound under another name.  On both backends the events `PoolCreated`
of `Token` and `Created` of `TokenPool` share a table. -/
theorem rewound_name_differs :
    ¬NamesSound asciiClasses zeroKeccak .clickhouse "Uniswap".toList {managerEvent} ∅ ∧
      ∀ backend, ¬NamesSound asciiClasses zeroKeccak backend "Uniswap".toList
        {poolCreated, created} ∅ := by
  constructor
  · intro h
    exact absurd (h.agree managerEvent rfl .create .rewind) (by decide)
  · intro backend h
    have hDistinct := h.distinct poolCreated (.inl rfl) created (.inr rfl) (by decide) .read
    apply hDistinct
    cases backend with
    | postgres => decide
    | clickhouse => decide

end Rindexer.Database
