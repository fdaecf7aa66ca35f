import Rindexer.Extraction.PathMeaning
import Rindexer.Extraction.Templates
import Rindexer.Tables.CallScans

/-! Where columns and expressions read the same datum at a path. -/

namespace Rindexer.Extraction

open Rindexer.Lib Parser
open Rindexer.Filter hiding parseUsize
open Rindexer.Factory (Param)
open Rindexer.Manifest (IterateBinding ColumnType)
open Rindexer.Tables (Panic findText_cases)

/-! ### Parsing -/

/-- The parser of the variables of an expression. -/
def Reader.parsePath : Reader → Parser ConditionLeft
  | condition => parseConditionLhs
  | conditionalValue => parseConditionLhs
  | arithmetic => parseConditionLhsWithDollar
  | arithmeticWithCalls => parseConditionLhsWithDollar

theorem ends_nil : Ends [] := fun c hc => by cases hc

theorem fold_pathText {base : List Char} {accessors : List Accessor} (h : IsPath base accessors) :
    fold parseAccessor (fun acc a => acc ++ [a]) [] (accessors.flatMap Accessor.text) =
      some (accessors, []) := by
  obtain ⟨read, r, hFold, hRead⟩ := fold_accessors h.keys ends_nil []
  have hDelimited : accessorsDelimited accessors [] = true := by
    rw [accessorsDelimited]
    cases accessors.getLast? with
    | none => rfl
    | some a => cases a <;> rfl
  rw [if_pos hDelimited] at hRead
  rw [List.append_nil, List.nil_append, hRead.1, hRead.2] at hFold
  exact hFold

theorem accessors_delimit_all (accessors : List Accessor) :
    numericNameDelimiter (accessors.flatMap Accessor.text) = true ∧
      numericNameDelimiterWithDollar (accessors.flatMap Accessor.text) = true := by
  cases accessors with
  | nil => exact ⟨rfl, rfl⟩
  | cons a accessors => cases a <;> exact ⟨rfl, rfl⟩

theorem stops_accessors (accessors : List Accessor) :
    Stops isIdentChar (accessors.flatMap Accessor.text) := by
  simpa using accessors_stop accessors ends_nil

/-- The sign of a variable, and a name behind it. -/
theorem signed_name {name next : List Char} {p : Parser (List Char)}
    (hName : p (name ++ next) = some (name, next)) :
    ((opt (alt (literal ['@']) (literal ['$']))).andThen p) ('$' :: (name ++ next)) =
      some ((['$'], name), next) := by
  have hSign : opt (alt (literal ['@']) (literal ['$'])) ('$' :: (name ++ next)) =
      some (['$'], name ++ next) := by
    simp [opt, alt, literal]
  simp only [andThen, hSign, hName]

theorem parseBaseNameWithDollar {name next : List Char} (h : IsName name)
    (hNext : Stops isIdentChar next) (hDelimiter : numericNameDelimiterWithDollar next = true) :
    alt identifier (digit1.followedBy numericNameDelimiterWithDollar) (name ++ next) =
      some (name, next) := by
  rcases h with ⟨c, cs, rfl, hStart, hChars⟩ | ⟨hNonempty, hDigits⟩
  · exact alt_some (identifier_append hStart hChars hNext)
  · have hDigit1 := digit1_append hDigits hNonempty (digit_stops_of_ident hNext)
    obtain ⟨c, cs, rfl⟩ := List.exists_cons_of_ne_nil hNonempty
    have hFirst := not_identStart_of_digit (hDigits c List.mem_cons_self)
    rw [List.cons_append] at hDigit1 ⊢
    rw [alt_none (identifier_none hFirst), followedBy_some hDigit1, if_pos hDelimiter]

/-- A path is read with its accessors, unless its name is a keyword. -/
theorem parsePath_pathText (reader : Reader) {base : List Char} {accessors : List Accessor}
    (h : IsPath base accessors) : reader.parsePath ('$' :: pathText base accessors) =
      if isKeyword base then none else some (.ofAccessors base .event accessors, []) := by
  have hFold := fold_pathText h
  obtain ⟨hDelimiter, hDelimiterWithDollar⟩ := accessors_delimit_all accessors
  have hBase : parseBaseVariableName ('$' :: pathText base accessors) =
      if isKeyword base then none else some ((base, .event), accessors.flatMap Accessor.text) := by
    have hName := parseBaseName_append h.base (stops_accessors accessors)
    rw [hDelimiter, Bool.or_true, if_pos rfl] at hName
    rw [parseBaseVariableName, pathText, Parser.map, verify, signed_name hName]
    cases hKeyword : isKeyword base <;> simp [hKeyword]
  have hBaseWithDollar : parseBaseVariableNameWithDollar ('$' :: pathText base accessors) =
      if isKeyword base then none else some ((base, .event), accessors.flatMap Accessor.text) := by
    have hName := parseBaseNameWithDollar h.base (stops_accessors accessors) hDelimiterWithDollar
    rw [parseBaseVariableNameWithDollar, pathText, Parser.map, verify, signed_name hName]
    cases hKeyword : isKeyword base <;> simp [hKeyword]
  have hCondition : parseConditionLhs ('$' :: pathText base accessors) =
      if isKeyword base then none else some (.ofAccessors base .event accessors, []) := by
    rw [parseConditionLhs, hBase]
    by_cases hKeyword : isKeyword base = true
    · rw [if_pos hKeyword, if_pos hKeyword]
    · rw [if_neg hKeyword, if_neg hKeyword]
      simp only [hFold]
      cases accessors <;> rfl
  have hArithmetic : parseConditionLhsWithDollar ('$' :: pathText base accessors) =
      if isKeyword base then none else some (.ofAccessors base .event accessors, []) := by
    rw [parseConditionLhsWithDollar, hBaseWithDollar]
    by_cases hKeyword : isKeyword base = true
    · rw [if_pos hKeyword, if_pos hKeyword]
    · rw [if_neg hKeyword, if_neg hKeyword]
      simp only [hFold]
      cases accessors <;> rfl
  cases reader with
  | condition => exact hCondition
  | conditionalValue => exact hCondition
  | arithmetic => exact hArithmetic
  | arithmeticWithCalls => exact hArithmetic

/-! ### The two readings -/

/-- The metadata of columns: where the log has no timestamp, that of the cache. -/
def Sources.metadata (x : Sources) (m : TxMetadata) : TxMetadata :=
  let cached := (x.cachedBlockTimestamp m.blockNumber).map fun ts => Fin.castLE Filter.u64_le_u256 ts
  { m with blockTimestamp := m.blockTimestamp.or cached }

/-- Texts are compared by their characters. -/
local instance lawfulBEq_text : LawfulBEq (List Char) := inferInstance

section Readings

variable (lib : Library)

/-- The value that columns and where clauses read at a path, as JSON. -/
def columnReading (x : Sources) (logParams : List LogParam) (m : TxMetadata)
    (fieldName : List Char) : Option JsonValue :=
  if fieldName = "null".toList then none
  else if fieldName ∈ metadataNames then metadataJson (x.metadata m) fieldName
  else (resolveFieldPath fieldName logParams).map (dynSolValueToJson lib)

/-- The value that an expression reads at a path. -/
def expressionReading (reader : Reader) (logParams : List LogParam) (m : TxMetadata)
    (text : List Char) : Except Panic (Option JsonValue) := do
  let data ← reader.data lib logParams m
  match reader.parsePath text with
  | some (path, []) => return (resolvePathWithTable path (.object data.entries) none).toOption
  | _ => return none

end Readings

/-! ### The parameters behind the readings -/

def LogParam.located (p : LogParam) : Located := (p.value, p.components)

/-- Columns take the first parameter of a name; `$null` is no field. -/
def columnParam (base : List Char) (accessors : List Accessor) (logParams : List LogParam) :
    Option LogParam :=
  if pathText base accessors = "null".toList then none else findParam base logParams

/-- Expressions take the last parameter of a name, unless they have metadata of that name. -/
def expressionParam (reader : Reader) (m : TxMetadata) (base : List Char)
    (logParams : List LogParam) : Option LogParam :=
  if isKeyword base ∨ (base ∈ reader.shows ∧ (metadataJson m base).isSome) then none
  else lastParam base logParams

section Meaning

variable {lib : Library} {reader : Reader} {x : Sources} {logParams : List LogParam} {m : TxMetadata}
  {base : List Char} {accessors : List Accessor}

theorem metadataNames_plain : ∀ name ∈ metadataNames, '[' ∉ name ∧ '.' ∉ name := by
  decide

/-- Metadata has no accessors. -/
theorem accessors_of_metadata (h : pathText base accessors ∈ metadataNames) : accessors = [] := by
  obtain ⟨hOpen, hDot⟩ := metadataNames_plain _ h
  cases accessors with
  | nil => rfl
  | cons a accessors =>
    cases a with
    | index i => exact absurd (by simp [pathText, Accessor.text]) hOpen
    | key k => exact absurd (by simp [pathText, Accessor.text]) hDot

theorem metadataJson_plain {name : List Char} {json : JsonValue} (h : metadataJson m name = some json) :
    (∃ s, json = .string s) ∨ ∃ n, json = .number n := by
  have hNumber : ∀ n, (∃ s, jsonNumber n = .string s) ∨ ∃ k, jsonNumber n = .number k := by
    intro n
    rw [jsonNumber]
    split
    · exact Or.inr ⟨_, rfl⟩
    · exact Or.inl ⟨_, rfl⟩
  simp only [metadataJson] at h
  split_ifs at h
  · cases h
    exact Or.inr ⟨_, rfl⟩
  · obtain ⟨ts, -, rfl⟩ := Option.map_eq_some_iff.mp h
    exact hNumber ts
  · cases h
    exact Or.inl ⟨_, rfl⟩
  · cases h
    exact Or.inl ⟨_, rfl⟩
  · cases h
    exact Or.inl ⟨_, rfl⟩
  · cases h
    exact hNumber _
  · cases h
    exact Or.inr ⟨_, rfl⟩

theorem shows_metadata {name : List Char} (h : name ∈ reader.shows) : name ∈ metadataNames := by
  have hSubset : ∀ reader : Reader, ∀ name ∈ reader.shows, name ∈ metadataNames := by
    intro reader
    cases reader <;> decide
  exact hSubset reader name h

theorem resolvePath_object {data : JsonMap} :
    (resolvePathWithTable (.ofAccessors base .event accessors) (.object data.entries) none).toOption =
      (data.get? base).bind fun json =>
        (accessors.foldlM (fun current a => applyAccessor a current) json).toOption := by
  have hPath : (ConditionLeft.ofAccessors base .event accessors).source = .event ∧
      (ConditionLeft.ofAccessors base .event accessors).baseName = base ∧
      (ConditionLeft.ofAccessors base .event accessors).accessors = accessors := by
    cases accessors <;> exact ⟨rfl, rfl, rfl⟩
  obtain ⟨hSource, hBase, hAccessors⟩ := hPath
  simp only [resolvePathWithTable, hSource, hBase, hAccessors, ← get_object, bind, Except.bind,
    JsonValue.get]
  cases data.entries.lookup base <;> rfl

/-- The base of an expression's path: metadata that it has, or else the last parameter of the name. -/
theorem expressionReading_eq (hLogIndex : m.logIndex.val < 2 ^ 64)
    (hTimestamp : ∀ ts, m.blockTimestamp = some ts → ts.val < 2 ^ 64) (h : IsPath base accessors) :
    expressionReading lib reader logParams m ('$' :: pathText base accessors) =
      .ok (if isKeyword base then none
        else ((if base ∈ reader.shows then metadataJson m base else none).or
          ((lastParam base logParams).map fun p => dynSolValueToJson lib p.value)).bind fun json =>
            (accessors.foldlM (fun current a => applyAccessor a current) json).toOption) := by
  obtain ⟨data, hData, hShows⟩ :
      ∃ data, reader.data lib logParams m = .ok data ∧ _ := data_shows hLogIndex hTimestamp reader
  rw [expressionReading, hData, parsePath_pathText reader h]
  by_cases hKeyword : isKeyword base = true
  · rw [if_pos hKeyword, if_pos hKeyword]
    rfl
  · rw [if_neg hKeyword, if_neg hKeyword, ← hShows base, ← resolvePath_object]
    rfl

/-- Behind the name of a parameter, expressions take the steps of its value. -/
theorem expressionReading_param (hLogIndex : m.logIndex.val < 2 ^ 64)
    (hTimestamp : ∀ ts, m.blockTimestamp = some ts → ts.val < 2 ^ 64) (h : IsPath base accessors)
    (hField : pathText base accessors ∉ metadataNames) :
    expressionReading lib reader logParams m ('$' :: pathText base accessors) =
      .ok ((expressionParam reader m base logParams).bind fun p =>
        (accessors.foldlM jsonStep p.value).map (dynSolValueToJson lib)) := by
  rw [expressionReading_eq hLogIndex hTimestamp h, expressionParam]
  by_cases hKeyword : isKeyword base = true
  · rw [if_pos hKeyword, if_pos (Or.inl hKeyword)]
    rfl
  · rw [if_neg hKeyword]
    by_cases hShown : base ∈ reader.shows ∧ (metadataJson m base).isSome
    · obtain ⟨json, hJson⟩ := Option.isSome_iff_exists.mp hShown.2
      rw [if_pos (Or.inr hShown), if_pos hShown.1, hJson]
      cases accessors with
      | nil =>
        refine absurd ?_ hField
        rw [pathText, List.flatMap_nil, List.append_nil]
        exact shows_metadata hShown.1
      | cons a accessors =>
        rcases metadataJson_plain hJson with ⟨s, rfl⟩ | ⟨n, rfl⟩ <;> cases a <;> rfl
    · rw [@if_neg (_ ∨ _) _ fun hOr => hOr.elim hKeyword hShown]
      have hNone : (if base ∈ reader.shows then metadataJson m base else none) = none := by
        split
        · next hMem => exact Option.not_isSome_iff_eq_none.mp fun hSome => hShown ⟨hMem, hSome⟩
        · rfl
      rw [hNone, Option.none_or]
      cases lastParam base logParams with
      | none => rfl
      | some p => exact congrArg _ (foldlM_applyAccessor accessors p.value)

theorem columnReading_param (h : IsPath base accessors)
    (hField : pathText base accessors ∉ metadataNames) :
    columnReading lib x logParams m (pathText base accessors) =
      (columnParam base accessors logParams).bind fun p =>
        (columnWalk p.located accessors).map fun v => dynSolValueToJson lib v.1 := by
  rw [columnReading, columnParam]
  split
  · rfl
  · rw [resolveFieldPath_pathText h]
    cases findParam base logParams with
    | none => rfl
    | some p =>
      show ((columnWalk p.located accessors).map Prod.fst).map _ = _
      rw [Option.map_map]
      rfl

/-! ### Agreement -/

variable (lib) in
/-- What a parameter has at a path, as JSON. -/
def LogParam.datum (p : LogParam) (accessors : List Accessor) : Option JsonValue :=
  (datumAt p.located accessors).map fun current => dynSolValueToJson lib current.1

variable (lib) in
/-- Metadata that the expression has, or that a parameter of the same name has as well. -/
def MetadataAgrees (reader : Reader) (x : Sources) (logParams : List LogParam) (m : TxMetadata)
    (name : List Char) : Prop :=
  (name ∈ reader.shows ∧ (metadataJson m name).isSome) ∨
    (lastParam name logParams).map (fun p => dynSolValueToJson lib p.value) =
      metadataJson (x.metadata m) name

variable (lib) in
/-- The parameter of columns and that of expressions have the same datum where one of them has one
that its reader can read. -/
structure PathAgrees (first last : Option LogParam) (accessors : List Accessor) : Prop where
  entered : ∀ p ∈ first, ¬ EntersFixedArray p.located accessors
  readable : (∃ p ∈ first, ColumnReadable accessors ∧ (p.datum lib accessors).isSome) ↔
    ∃ q ∈ last, ConditionReadable q.located accessors ∧ (q.datum lib accessors).isSome
  same : ∀ p ∈ first, ∀ q ∈ last, ColumnReadable accessors → ConditionReadable q.located accessors →
    p.datum lib accessors = q.datum lib accessors

/-- Columns have the metadata that expressions have. -/
theorem metadataJson_seen (x : Sources) {name : List Char} {json : JsonValue}
    (h : metadataJson m name = some json) : metadataJson (x.metadata m) name = some json := by
  by_cases hName : name = "rindexer_block_timestamp".toList
  · subst hName
    obtain ⟨ts, hTs, -⟩ := Option.map_eq_some_iff.mp
      (show m.blockTimestamp.map jsonNumber = some json from h)
    have hSeen : x.metadata m = m := by
      cases m
      simp only at hTs
      subst hTs
      rfl
    rwa [hSeen]
  · simp only [metadataJson, if_neg hName] at h ⊢
    exact h

theorem metadataAgrees_iff (hLogIndex : m.logIndex.val < 2 ^ 64)
    (hTimestamp : ∀ ts, m.blockTimestamp = some ts → ts.val < 2 ^ 64) (h : IsPath base accessors)
    (hField : pathText base accessors ∈ metadataNames) :
    expressionReading lib reader logParams m ('$' :: pathText base accessors) =
        .ok (columnReading lib x logParams m (pathText base accessors)) ↔
      MetadataAgrees lib reader x logParams m (pathText base accessors) := by
  obtain rfl := accessors_of_metadata hField
  have hText : pathText base [] = base := by rw [pathText, List.flatMap_nil, List.append_nil]
  have hKeyword : ∀ name ∈ metadataNames, isKeyword name = false ∧ name ≠ "null".toList := by
    decide
  rw [expressionReading_eq hLogIndex hTimestamp h, columnReading, if_pos hField]
  rw [hText] at hField ⊢
  obtain ⟨hNotKeyword, hNotNull⟩ := hKeyword base hField
  rw [hNotKeyword, if_neg Bool.false_ne_true, if_neg hNotNull, MetadataAgrees, Except.ok.injEq]
  show Option.bind _ some = _ ↔ _
  rw [Option.bind_fun_some]
  by_cases hShown : base ∈ reader.shows
  · rw [if_pos hShown]
    cases hJson : metadataJson m base with
    | none => simp
    | some json =>
      simp [hShown, metadataJson_seen x hJson]
  · rw [if_neg hShown]
    simp [hShown]

theorem expression_reads {q : LogParam} {json : JsonValue} :
    (accessors.foldlM jsonStep q.value).map (dynSolValueToJson lib) = some json ↔
      ConditionReadable q.located accessors ∧ q.datum lib accessors = some json := by
  have hReads : ∀ value, accessors.foldlM jsonStep q.located.1 = some value ↔ _ :=
    fun value => foldlM_jsonStep
  rw [LogParam.datum, Option.map_eq_some_iff]
  constructor
  · rintro ⟨value, hValue, rfl⟩
    obtain ⟨hReadable, hDatum⟩ := (hReads value).mp hValue
    obtain ⟨current, hCurrent, rfl⟩ := Option.map_eq_some_iff.mp hDatum
    exact ⟨hReadable, by rw [hCurrent]; rfl⟩
  · rintro ⟨hReadable, hDatum⟩
    obtain ⟨current, hCurrent, rfl⟩ := Option.map_eq_some_iff.mp hDatum
    exact ⟨current.1, (hReads _).mpr ⟨hReadable, by rw [hCurrent]; rfl⟩, rfl⟩

theorem column_reads {p : LogParam} (hKeys : ∀ k, Accessor.key k ∈ accessors → IsName k)
    (hNamed : WellNamed p.components) (hEnters : ¬ EntersFixedArray p.located accessors)
    {json : JsonValue} :
    ((columnWalk p.located accessors).map fun v => dynSolValueToJson lib v.1) = some json ↔
      ColumnReadable accessors ∧ p.datum lib accessors = some json := by
  simp only [LogParam.datum, Option.map_eq_some_iff, columnWalk_iff hKeys hNamed hEnters, and_assoc,
    exists_and_left]

/-- Where a column goes on through an array of fixed length, no expression reads anything. -/
theorem entered_not_readable {current current' : Located} (h : WellNamed current.2)
    (hEnters : EntersFixedArray current accessors) : ¬ ConditionReadable current' accessors := by
  intro hReadable
  obtain ⟨-, k, rest, rfl, hk⟩ := enters_reads h hEnters
  obtain ⟨n, rfl⟩ := hReadable.canonical k List.mem_cons_self
  rw [position_toString] at hk
  cases hk

theorem pathAgrees_iff {first last : Option LogParam}
    (hKeys : ∀ k, Accessor.key k ∈ accessors → IsName k)
    (hNamed : ∀ p ∈ first, WellNamed p.components) :
    (last.bind fun q => (accessors.foldlM jsonStep q.value).map (dynSolValueToJson lib)) =
        (first.bind fun p =>
          (columnWalk p.located accessors).map fun v => dynSolValueToJson lib v.1) ↔
      PathAgrees lib first last accessors := by
  set column := first.bind fun p =>
    (columnWalk p.located accessors).map fun v => dynSolValueToJson lib v.1 with hColumn
  set expression := last.bind fun q =>
    (accessors.foldlM jsonStep q.value).map (dynSolValueToJson lib) with hExpression
  have hExpressionIff : ∀ json, expression = some json ↔ ∃ q ∈ last,
      ConditionReadable q.located accessors ∧ q.datum lib accessors = some json := by
    intro json
    rw [hExpression, Option.bind_eq_some_iff]
    exact exists_congr fun q => and_congr_right fun _ => expression_reads
  have hColumnIff : (∀ p ∈ first, ¬ EntersFixedArray p.located accessors) → ∀ json,
      column = some json ↔ ∃ p ∈ first, ColumnReadable accessors ∧ p.datum lib accessors = some json := by
    intro hEnters json
    rw [hColumn, Option.bind_eq_some_iff]
    exact exists_congr fun p => and_congr_right fun hp =>
      column_reads hKeys (hNamed p hp) (hEnters p hp)
  constructor
  · intro hEqual
    have hEntered : ∀ p ∈ first, ¬ EntersFixedArray p.located accessors := by
      intro p hp hEnters
      obtain ⟨v, hv⟩ := Option.isSome_iff_exists.mp (enters_reads (hNamed p hp) hEnters).1
      have hSome : expression = some (dynSolValueToJson lib v.1) := by
        rw [hEqual, hColumn, Option.mem_def.mp hp, Option.bind_some, hv]
        rfl
      obtain ⟨q, -, hReadable, -⟩ := (hExpressionIff _).mp hSome
      exact entered_not_readable (hNamed p hp) hEnters hReadable
    have hColumnIff := hColumnIff hEntered
    refine ⟨hEntered, ⟨?_, ?_⟩, ?_⟩
    · rintro ⟨p, hp, hReadable, hDatum⟩
      obtain ⟨json, hJson⟩ := Option.isSome_iff_exists.mp hDatum
      obtain ⟨q, hq, hReadable', hDatum'⟩ := (hExpressionIff json).mp
        (hEqual.trans ((hColumnIff json).mpr ⟨p, hp, hReadable, hJson⟩))
      exact ⟨q, hq, hReadable', by rw [hDatum']; rfl⟩
    · rintro ⟨q, hq, hReadable, hDatum⟩
      obtain ⟨json, hJson⟩ := Option.isSome_iff_exists.mp hDatum
      obtain ⟨p, hp, hReadable', hDatum'⟩ := (hColumnIff json).mp
        (hEqual.symm.trans ((hExpressionIff json).mpr ⟨q, hq, hReadable, hJson⟩))
      exact ⟨p, hp, hReadable', by rw [hDatum']; rfl⟩
    · intro p hp q hq hReadable hReadable'
      refine Option.ext fun json => ⟨fun hDatum => ?_, fun hDatum => ?_⟩
      · obtain ⟨q', hq', -, hDatum'⟩ := (hExpressionIff json).mp
          (hEqual.trans ((hColumnIff json).mpr ⟨p, hp, hReadable, hDatum⟩))
        rwa [Option.mem_unique hq hq']
      · obtain ⟨p', hp', -, hDatum'⟩ := (hColumnIff json).mp
          (hEqual.symm.trans ((hExpressionIff json).mpr ⟨q, hq, hReadable', hDatum⟩))
        rwa [Option.mem_unique hp hp']
  · intro h
    have hColumnIff := hColumnIff h.entered
    refine Option.ext fun json => ⟨fun hSome => ?_, fun hSome => ?_⟩
    · obtain ⟨q, hq, hReadable, hDatum⟩ := (hExpressionIff json).mp hSome
      obtain ⟨p, hp, hReadable', -⟩ := h.readable.mpr ⟨q, hq, hReadable, by rw [hDatum]; rfl⟩
      exact (hColumnIff json).mpr ⟨p, hp, hReadable', (h.same p hp q hq hReadable' hReadable).trans hDatum⟩
    · obtain ⟨p, hp, hReadable, hDatum⟩ := (hColumnIff json).mp hSome
      obtain ⟨q, hq, hReadable', -⟩ := h.readable.mp ⟨p, hp, hReadable, by rw [hDatum]; rfl⟩
      exact (hExpressionIff json).mpr
        ⟨q, hq, hReadable', (h.same p hp q hq hReadable hReadable').symm.trans hDatum⟩

/-! ### Columns -/

/-- A path has letters, digits and underscores, with dots and brackets between them. -/
theorem pathText_chars (h : IsPath base accessors) :
    ∀ c ∈ pathText base accessors, (c.isAlphanum = true ∨ c = '_') ∨ c = '.' ∨ c = '[' ∨ c = ']' := by
  have hName : ∀ name, IsName name → ∀ c ∈ name, c.isAlphanum = true ∨ c = '_' := by
    rintro name (⟨d, ds, rfl, hStart, hRest⟩ | ⟨-, hDigits⟩) c hc
    · rcases List.mem_cons.mp hc with rfl | hc
      · simp only [isIdentStart, Bool.or_eq_true, beq_iff_eq] at hStart
        exact hStart.imp_left fun hAlpha => by simp [Char.isAlphanum, hAlpha]
      · simpa [isIdentChar] using hRest c hc
    · exact Or.inl (by simp [Char.isAlphanum, hDigits c hc])
  intro c hc
  rcases List.mem_append.mp hc with hc | hc
  · exact Or.inl (hName base h.base c hc)
  · obtain ⟨a, ha, hc⟩ := List.mem_flatMap.mp hc
    cases a with
    | index i =>
      rw [Accessor.text] at hc
      rcases List.mem_cons.mp hc with rfl | hc
      · simp
      · rcases List.mem_append.mp hc with hc | hc
        · have hDigit := Nat.isDigit_of_mem_toDigits (by decide) (by decide) hc
          exact Or.inl (Or.inl (by simp [Char.isAlphanum, hDigit]))
        · rw [List.mem_singleton.mp hc]
          simp
    | key k =>
      rcases List.mem_cons.mp hc with rfl | hc
      · simp
      · exact Or.inl (hName k (h.keys k ha) c hc)

/-- A column at a path that is no metadata takes the wrapper of the value there. -/
theorem extract_path (h : IsPath base accessors) (hNull : pathText base accessors ≠ "null".toList)
    (hField : pathText base accessors ∉ metadataNames) (columnType : ColumnType) :
    extractValueFromEventAsync lib x ('$' :: pathText base accessors) logParams m columnType =
      (resolveFieldPath (pathText base accessors) logParams).elim (.ok none) fun value =>
        (dynSolValueToWrapper lib value columnType).map some := by
  have hChars := pathText_chars h
  have hApart : ∀ c : Char, c.isAlphanum = false → c ≠ '_' → c ≠ '.' → c ≠ '[' → c ≠ ']' →
      c ∉ pathText base accessors := by
    rintro c hAlphanum hLine hDot hOpen hClose hc
    rcases hChars c hc with (hChar | hChar) | hChar | hChar | hChar
    · rw [hAlphanum] at hChar
      cases hChar
    all_goals contradiction
  have hParen : '(' ∉ '$' :: pathText base accessors := by
    rw [List.mem_cons, not_or]
    exact ⟨by decide, hApart _ (by decide) (by decide) (by decide) (by decide) (by decide)⟩
  have hForm : ¬ HasOtherForm ('$' :: pathText base accessors) := by
    have hContains : ∀ needle, '(' ∈ needle →
        ¬ containsText needle ('$' :: pathText base accessors) = true := by
      intro needle hNeedle hFound
      obtain ⟨n, hn⟩ := Option.isSome_iff_exists.mp hFound
      obtain ⟨u, v, hText, -⟩ := findText_cases hn
      exact hParen (hText ▸ by simp [hNeedle])
    rintro (hConditional | hConstant | hCall | hStatic)
    · rw [isConditionalValue, Bool.and_eq_true] at hConditional
      exact hContains _ (by decide) (containsText_of_startsWith hConditional.1)
    · exact hContains _ (by decide) hConstant
    · exact hContains _ (by decide) hCall
    · exact hContains _ (by decide) hStatic
  have hArithmetic : isArithmeticExpression ('$' :: pathText base accessors) = false := by
    have hOperator : ¬ hasOperator ('$' :: pathText base accessors) = true := by
      intro hOperator
      obtain ⟨c, hc, hSign⟩ := hasOperator_mem hOperator
      rcases List.mem_cons.mp hc with rfl | hc
      · exact absurd hSign (by decide)
      · simp only [List.mem_cons, List.not_mem_nil, or_false] at hSign
        rcases hSign with rfl | rfl | rfl | rfl | rfl <;>
          exact hApart _ (by decide) (by decide) (by decide) (by decide) (by decide) hc
    rw [isArithmeticExpression, Bool.eq_false_iff.mpr hOperator, Bool.false_and]
  have hTemplate : isStringTemplate lib ('$' :: pathText base accessors) = false := by
    have hField : (pathText base accessors).all (isFieldChar lib) = true := by
      refine List.all_eq_true.mpr fun c hc => ?_
      rcases hChars c hc with (hAlphanum | rfl) | rfl | rfl | rfl
      · rw [isFieldChar, lib.isAlphanumeric_ascii c (alphanum_ascii hAlphanum), hAlphanum]
        rfl
      all_goals simp [isFieldChar]
    simp [isStringTemplate, hField]
  have hNullText : '$' :: pathText base accessors ≠ "$null".toList := fun hText =>
    hNull (List.cons_injective hText)
  have hTimestamp : '$' :: pathText base accessors ≠ "$rindexer_block_timestamp".toList := fun hText =>
    hField (by rw [List.cons_injective hText]; decide)
  rw [extract_plain hForm hNullText hTimestamp, hArithmetic, if_neg (by simp), hTemplate,
    if_neg (by simp), fieldOrLiteral]
  simp only [metadataNames, List.mem_cons, List.not_mem_nil, or_false, not_or] at hField
  simp only [fieldValue, hField, if_false]
  cases resolveFieldPath (pathText base accessors) logParams <;> rfl

end Meaning

section Claim

variable (lib : Library) (x : Sources) (reader : Reader)

/-- Columns and expressions over an element of an iteration read the same at a path exactly if their
parameters agree there. -/
theorem path_agrees_iff {bindings : List IterateBinding} {logParams params : List LogParam}
    {elements : List (List LogParam)} {m : TxMetadata} {base : List Char} {accessors : List Accessor}
    (hElements : expandIterateBindings bindings logParams = .ok (some elements))
    (hParams : params ∈ elements) (hNamed : ∀ p ∈ logParams, WellNamed p.components)
    (hLogIndex : m.logIndex.val < 2 ^ 64)
    (hTimestamp : ∀ ts, m.blockTimestamp = some ts → ts.val < 2 ^ 64) (hPath : IsPath base accessors) :
    expressionReading lib reader params m ('$' :: pathText base accessors) =
        .ok (columnReading lib x params m (pathText base accessors)) ↔
      if pathText base accessors ∈ metadataNames then
        MetadataAgrees lib reader x params m (pathText base accessors)
      else
        PathAgrees lib (columnParam base accessors params) (expressionParam reader m base params)
          accessors := by
  split
  · next hField => exact metadataAgrees_iff hLogIndex hTimestamp hPath hField
  · next hField =>
    have hNamed' : ∀ p ∈ columnParam base accessors params, WellNamed p.components := by
      intro p hp
      have hMem : p ∈ params := by
        rw [columnParam] at hp
        split at hp
        · cases hp
        · exact List.mem_of_find?_eq_some hp
      rcases mem_expandIterateBindings hElements hParams p hMem with hLog | hNone
      · exact hNamed p hLog
      · rw [hNone]
        exact wellNamed_nil
    rw [expressionReading_param hLogIndex hTimestamp hPath hField, columnReading_param hPath hField,
      Except.ok.injEq]
    exact pathAgrees_iff hPath.keys hNamed'

end Claim

def orderComponents : List Param := [.mk "maker".toList [], .mk "amount".toList []]

theorem orderComponents_wellNamed : WellNamed orderComponents := by
  intro c hc
  simp only [orderComponents, List.mem_cons, List.not_mem_nil, or_false] at hc
  rcases hc with rfl | rfl
  · exact .mk _ _ (by decide) wellNamed_nil
  · exact .mk _ _ (by decide) wellNamed_nil

def orderValue : DynSolValue := .tuple [.address (List.replicate 20 0x11), .uint 5 256]

def ordersParams : List LogParam := [⟨"orders".toList, .array [orderValue], orderComponents⟩]

theorem ordersPath : IsPath "orders".toList [.index 0, .key "1".toList] where
  base := Or.inl ⟨'o', "rders".toList, rfl, by decide, by decide⟩
  keys := by
    intro k hk
    simp only [List.mem_cons, List.not_mem_nil, or_false, reduceCtorEq, false_or] at hk
    cases hk
    exact Or.inr ⟨by decide, by decide⟩

theorem ordersPath_agrees :
    expressionReading asciiLibrary .condition ordersParams transferMetadata
          ('$' :: pathText "orders".toList [.index 0, .key "1".toList]) =
        .ok (columnReading asciiLibrary noSources ordersParams transferMetadata
          (pathText "orders".toList [.index 0, .key "1".toList])) ↔
      if pathText "orders".toList [.index 0, .key "1".toList] ∈ metadataNames then
        MetadataAgrees asciiLibrary .condition noSources ordersParams transferMetadata
          (pathText "orders".toList [.index 0, .key "1".toList])
      else
        PathAgrees asciiLibrary
          (columnParam "orders".toList [.index 0, .key "1".toList] ordersParams)
          (expressionParam .condition transferMetadata "orders".toList ordersParams)
          [.index 0, .key "1".toList] :=
  path_agrees_iff asciiLibrary noSources .condition
    (show expandIterateBindings [] ordersParams = .ok (some [ordersParams]) from rfl)
    (List.mem_singleton.mpr rfl)
    (by
      intro p hp
      rw [List.mem_singleton.mp hp]
      exact orderComponents_wellNamed)
    (by decide) (fun ts h => nomatch h) ordersPath

/-- `$order.amount` is 5 in a column, and absent in a condition. -/
theorem orderAmount_absent :
    columnReading asciiLibrary noSources [⟨"order".toList, orderValue, orderComponents⟩]
        transferMetadata "order.amount".toList = some (.number (.posInt 5)) ∧
      (∀ reader, expressionReading asciiLibrary reader
        [⟨"order".toList, orderValue, orderComponents⟩] transferMetadata "$order.amount".toList =
          .ok none) ∧
      evaluateFilter asciiLibrary "$order.amount > 0".toList
        [⟨"order".toList, orderValue, orderComponents⟩] transferMetadata = .ok false := by
  refine ⟨by rfl, fun reader => ?_, by decide +kernel⟩
  cases reader <;> rfl

end Rindexer.Extraction
