import Rindexer.SqlTypes.RenderedRows
import Rindexer.SqlTypes.Rows

/-! The JSON of a log: which logs become an object with every parameter at its name and every field of a
tuple at its path. -/

namespace Rindexer.SqlTypes

open Rindexer.Extraction (JsonMap)
open Rindexer.Filter (JsonValue)
open Rindexer.Lib
open Rindexer.Manifest (ABIInput)

def informationKey : List Char := "transaction_information".toList

/-- The SQL values of a log become an object that has the parameters, each at its name, and besides them
only the transaction. -/
def JsonRow (params : List EventParam) (logParams : List LogParam) (transactionInformation : JsonValue) :
    Prop :=
  ∃ wrappers map,
    mapLogParamsToEthereumWrapper (params.map EventParam.input) logParams = .ok wrappers ∧
    mapEthereumWrapperToJson (params.map EventParam.input) wrappers transactionInformation false =
      .ok map ∧
    map.keys.Perm (informationKey :: params.map EventParam.name) ∧
    RendersAll (params.map EventParam.input) (logParams.map LogParam.value) map

/-- A parameter that keeps its place: no hash for a tuple, no panic, and of the tuples only those of
leaves with different names. -/
def JsonFits (param : EventParam) (value : DynSolValue) : Prop :=
  if param.IsHashed then param.type.IsTuple = false
  else Supported param.type value ∧ param.type.Flat ∧ param.type.NamesDiffer

/-! ### What the loop takes -/

section Taken

variable {wrappers : List EthereumSqlTypeWrapper}

theorem jsonField_taken {state next : JsonState} {type : SolType} {name : List Char}
    {indexed : Option Bool} (hOk : jsonField wrappers state (type.input name indexed) = .ok next)
    (hProcessed : ∀ i ∈ state.processed, i < state.current) :
    next.current = state.current + type.taken ∧ next.current ≤ wrappers.length ∧
      ∀ i ∈ next.processed, i < next.current := by
  by_cases hSome : state.current < wrappers.length
  · have hWrapper := List.getElem?_eq_getElem hSome
    cases hTuple : type.IsTuple with
    | false =>
      have hTaken : type.taken = 1 := by
        cases type <;> first | rfl | cases hTuple
      have hLeaf : (type.input name indexed).type ≠ "tuple".toList := SolType.text_ne_tuple hTuple
      rw [jsonField_leaf hLeaf hWrapper] at hOk
      cases hOk
      refine ⟨by rw [hTaken], hSome, fun i hi => ?_⟩
      rcases List.mem_append.mp hi with hOld | hNew
      · have := hProcessed i hOld
        simp only
        omega
      · rw [List.mem_singleton.mp hNew]
        simp only
        omega
    | true =>
      cases type with
      | tuple isStruct fields =>
        have hText : (SolType.tuple isStruct fields).text = "tuple".toList := rfl
        rw [SolType.input, hText, SolType.components,
          jsonField_tuple hSome (SolType.countComponents_fieldInputs fields)] at hOk
        split at hOk
        next hRoom =>
          cases hInner : jsonFields ((wrappers.drop state.current).take (SolType.fieldsCount fields)) {}
              (SolType.fieldInputs fields) with
          | error e =>
            rw [hInner] at hOk
            cases hOk
          | ok inner =>
            rw [hInner] at hOk
            cases hOk
            refine ⟨rfl, hRoom, fun i hi => ?_⟩
            rcases List.mem_append.mp hi with hOld | hNew
            · have := hProcessed i hOld
              simp only
              omega
            · obtain ⟨k, hk, rfl⟩ := List.mem_map.mp hNew
              have := List.mem_range.mp hk
              simp only
              omega
        next => cases hOk
      | _ => cases hTuple
  · rw [jsonField.eq_def, List.getElem?_eq_none (by omega)] at hOk
    cases hOk

/-- Everything that the parameters take is on the list. -/
theorem jsonFields_taken {params : List EventParam} {state final : JsonState}
    (hOk : jsonFields wrappers state (params.map EventParam.input) = .ok final)
    (hProcessed : ∀ i ∈ state.processed, i < state.current) (hRoom : state.current ≤ wrappers.length) :
    state.current + (params.map fun param => param.type.taken).sum ≤ wrappers.length := by
  induction params generalizing state with
  | nil => simpa using hRoom
  | cons param params ih =>
    have hNew : state.current ∉ state.processed := fun hMem => absurd (hProcessed _ hMem) (by omega)
    rw [List.map_cons, jsonFields, if_neg hNew] at hOk
    cases hField : jsonField wrappers state param.input with
    | error e =>
      rw [hField] at hOk
      cases hOk
    | ok next =>
      rw [hField] at hOk
      obtain ⟨hCurrent, hNext, hBound⟩ := jsonField_taken hField hProcessed
      have hRest := ih hOk hBound hNext
      rw [List.map_cons, List.sum_cons]
      omega

end Taken

theorem length_leavesFrom_params (params : List EventParam) (path : List (List Char)) (idx : Nat) :
    (leavesFrom path idx (params.map EventParam.input)).length =
      (params.map fun param => param.type.leafCount).sum := by
  induction params generalizing idx with
  | nil => rfl
  | cons param params ih =>
    rw [List.map_cons, leavesFrom, List.length_append, List.length_map, ih, EventParam.input,
      SolType.length_leaves, List.map_cons, List.sum_cons]

theorem leafCount_le_taken (type : SolType) : type.leafCount ≤ type.taken := by
  cases type with
  | tuple isStruct fields => exact SolType.fieldsLeafCount_le fields
  | _ => exact le_rfl

theorem flat_of_fieldsCount {fields : List (List Char × SolType)}
    (h : SolType.fieldsCount fields ≤ SolType.fieldsLeafCount fields) :
    ∀ field ∈ fields, field.2.IsTuple = false := by
  induction fields with
  | nil => exact fun _ hMem => nomatch hMem
  | cons field fields ih =>
    obtain ⟨name, type⟩ := field
    have hFirst := SolType.leafCount_le_count type
    have hRest := SolType.fieldsLeafCount_le fields
    rw [SolType.fieldsCount, SolType.fieldsLeafCount] at h
    intro other hOther
    rcases List.mem_cons.mp hOther with rfl | hOther
    · cases hTuple : type.IsTuple with
      | false => rfl
      | true =>
        rw [hTuple, if_pos rfl] at hFirst
        omega
    · exact ih (by omega) other hOther

theorem flat_of_taken {type : SolType} (h : type.taken ≤ type.leafCount) : type.Flat := by
  cases type with
  | tuple isStruct fields => exact flat_of_fieldsCount h
  | _ => trivial

/-- If the parameters take no more than their leaves, none has a tuple in a tuple. -/
theorem flat_of_sum {params : List EventParam}
    (h : (params.map fun param => param.type.taken).sum ≤
      (params.map fun param => param.type.leafCount).sum) :
    ∀ param ∈ params, param.type.Flat := by
  induction params with
  | nil => exact fun _ hMem => nomatch hMem
  | cons param params ih =>
    have hFirst := leafCount_le_taken param.type
    have hRest : (params.map fun param => param.type.leafCount).sum ≤
        (params.map fun param => param.type.taken).sum :=
      List.sum_le_sum fun other _ => leafCount_le_taken other.type
    rw [List.map_cons, List.map_cons, List.sum_cons, List.sum_cons] at h
    intro other hOther
    rcases List.mem_cons.mp hOther with rfl | hOther
    · exact flat_of_taken (by omega)
    · exact ih (by omega) other hOther

/-! ### Which rows are rendered -/

theorem renders_tuple {isStruct : Bool} {fields : List (List Char × SolType)} {name : List Char}
    {indexed : Option Bool} {value : DynSolValue} {json : JsonValue}
    (h : Renders ((SolType.tuple isStruct fields).input name indexed) value json) :
    (∃ items, value = .tuple items) ∧ (fields.map Prod.fst).Nodup := by
  have hText : (SolType.tuple isStruct fields).text = "tuple".toList := rfl
  rw [SolType.input, hText, SolType.components] at h
  cases h with
  | tuple hKeys hAll =>
    rw [name_fieldInputs] at hKeys
    exact ⟨⟨_, rfl⟩, hKeys.nodup_iff.mp (OrderedMap.keys_nodup _)⟩
  | leaf hLeaf _ => exact absurd rfl hLeaf

theorem namesDiffer_of_renders {type : SolType} {name : List Char} {indexed : Option Bool}
    {value : DynSolValue} {json : JsonValue} (h : Renders (type.input name indexed) value json) :
    type.NamesDiffer := by
  cases type with
  | tuple isStruct fields => exact (renders_tuple h).2
  | _ => trivial

theorem not_isTuple_of_renders {type : SolType} {name : List Char} {indexed : Option Bool}
    {topic : List UInt8} {size : Nat} {json : JsonValue}
    (h : Renders (type.input name indexed) (.fixedBytes topic size) json) : type.IsTuple = false := by
  cases type with
  | tuple isStruct fields =>
    obtain ⟨⟨items, hItems⟩, -⟩ := renders_tuple h
    cases hItems
  | _ => rfl

section Rows

variable {params : List EventParam} {logParams : List LogParam}

/-- What is known of each parameter of a row that is rendered. -/
def Rendered (param : EventParam) (logParam : LogParam) : Prop :=
  param.Decodes logParam.value ∧
    (∃ as, mapLogTokenToEthereumWrapper param.input logParam.value = .ok as) ∧
    ∃ json, Renders param.input logParam.value json

theorem rendered_of_row (hLog : DecodedLog params logParams)
    {wrappers : List EthereumSqlTypeWrapper} {map : JsonMap}
    (hOk : processTuple (params.map EventParam.input) (logParams.map LogParam.value) = .ok wrappers)
    (hAll : RendersAll (params.map EventParam.input) (logParams.map LogParam.value) map) :
    List.Forall₂ Rendered params logParams := by
  induction hLog generalizing wrappers with
  | nil => exact .nil
  | @cons param logParam params logParams hParam hLog ih =>
    obtain ⟨first, rest, hFirst, hRest, -⟩ := wrappers_flattens.cons_ok hOk
    cases hAll with
    | cons _ hRenders hOthers =>
      exact .cons ⟨hParam.2, ⟨first, hFirst⟩, _, hRenders⟩ (ih hRest hOthers)

theorem Rendered.placed {param : EventParam} {logParam : LogParam} (h : Rendered param logParam) :
    Placed mapLogTokenToEthereumWrapper param logParam.value := by
  obtain ⟨hValue, hOk, json, hRenders⟩ := h
  rw [Placed]
  by_cases hHashed : param.IsHashed
  · rw [if_pos hHashed]
    rw [EventParam.Decodes, if_pos hHashed] at hValue
    obtain ⟨topic, hTopic, -⟩ := hValue
    rw [hTopic] at hRenders
    exact not_isTuple_of_renders hRenders
  · rw [if_neg hHashed]
    exact hOk

theorem Rendered.fits {param : EventParam} {logParam : LogParam} (hForm : param.type.WellFormed)
    (hFlat : param.type.Flat) (h : Rendered param logParam) : JsonFits param logParam.value := by
  have hPlaced := h.placed
  obtain ⟨hValue, -, json, hRenders⟩ := h
  rw [Placed] at hPlaced
  rw [JsonFits]
  by_cases hHashed : param.IsHashed
  · rw [if_pos hHashed] at hPlaced ⊢
    exact hPlaced
  · rw [if_neg hHashed] at hPlaced ⊢
    rw [EventParam.Decodes, if_neg hHashed] at hValue
    exact ⟨(mapLogToken_ok param.type param.name _ _ hForm hValue).mp hPlaced, hFlat,
      namesDiffer_of_renders hRenders⟩

theorem fits_of_jsonRow {transactionInformation : JsonValue}
    (hForm : ∀ param ∈ params, param.type.WellFormed) (hLog : DecodedLog params logParams)
    (hRow : JsonRow params logParams transactionInformation) :
    (informationKey :: params.map EventParam.name).Nodup ∧
      List.Forall₂ (fun param logParam => JsonFits param logParam.value) params logParams := by
  obtain ⟨wrappers, map, hOk, hJson, hKeys, hAll⟩ := hRow
  have hRendered := rendered_of_row hLog hOk hAll
  obtain ⟨as, hSame, hAligned⟩ := (rowAligned_iff wrappers_flattens wrappers_oneEach wrappers_oneHash
    hForm hLog).mpr (hRendered.imp fun _ _ h => h.placed)
  have hWrappers : as = wrappers := Except.ok.inj (hSame.symm.trans hOk)
  have hLength := hAligned.length_eq
  rw [length_leavesFrom_params, hWrappers] at hLength
  have hFlat : ∀ param ∈ params, param.type.Flat := by
    apply flat_of_sum
    cases hFields : jsonFields wrappers {} (params.map EventParam.input) with
    | error e =>
      rw [mapEthereumWrapperToJson, hFields] at hJson
      cases hJson
    | ok final =>
      have hTaken := jsonFields_taken hFields (fun _ hMem => nomatch hMem) (Nat.zero_le _)
      change 0 + _ ≤ _ at hTaken
      omega
  refine ⟨hKeys.nodup_iff.mp (OrderedMap.keys_nodup _), ?_⟩
  have hBoth := (List.forall₂_and_left (p := fun param : EventParam =>
    param.type.WellFormed ∧ param.type.Flat) params logParams).mpr
      ⟨fun param hMem => ⟨hForm param hMem, hFlat param hMem⟩, hRendered⟩
  exact hBoth.imp fun _ _ h => h.2.fits h.1.1 h.1.2

theorem JsonFits.placed {param : EventParam} (hForm : param.type.WellFormed) {value : DynSolValue}
    (hValue : param.Decodes value) (h : JsonFits param value) :
    Placed mapLogTokenToEthereumWrapper param value := by
  rw [JsonFits] at h
  rw [Placed]
  by_cases hHashed : param.IsHashed
  · rw [if_pos hHashed] at h ⊢
    exact h
  · rw [if_neg hHashed] at h ⊢
    rw [EventParam.Decodes, if_neg hHashed] at hValue
    exact (mapLogToken_ok param.type param.name _ value hForm hValue).mpr h.1

theorem JsonFits.steps {param : EventParam} (hForm : param.type.WellFormed) {value : DynSolValue}
    (hValue : param.Decodes value) (h : JsonFits param value) : Steps param.input value := by
  rw [JsonFits] at h
  by_cases hHashed : param.IsHashed
  · rw [if_pos hHashed] at h
    rw [EventParam.Decodes, if_pos hHashed] at hValue
    obtain ⟨topic, rfl, -⟩ := hValue
    obtain ⟨a, ha⟩ := wrappers_oneHash param.input topic
    refine steps_leaf (SolType.text_ne_tuple h) fun as hOk => ⟨a, ?_⟩
    exact Except.ok.inj (hOk.symm.trans ha)
  · rw [if_neg hHashed] at h
    rw [EventParam.Decodes, if_neg hHashed] at hValue
    obtain ⟨hSupported, hFlat, hNames⟩ := h
    cases hTuple : param.type.IsTuple with
    | false => exact steps_of_not_isTuple hForm hTuple _ _ hValue
    | true =>
      obtain ⟨name, type, indexed⟩ := param
      cases type with
      | tuple isStruct fields =>
        cases isStruct with
        | true => exact absurd hSupported id
        | false =>
          cases value with
          | tuple items => exact steps_tuple hForm hFlat hNames name _ hValue
          | _ => cases hValue
      | _ => cases hTuple

theorem steps_of_fits (hForm : ∀ param ∈ params, param.type.WellFormed)
    (hLog : DecodedLog params logParams)
    (hFits : List.Forall₂ (fun param logParam => JsonFits param logParam.value) params logParams) :
    List.Forall₂ (fun param logParam => Placed mapLogTokenToEthereumWrapper param logParam.value)
      params logParams ∧
    List.Forall₂ Steps (params.map EventParam.input) (logParams.map LogParam.value) := by
  induction hLog with
  | nil => exact ⟨.nil, .nil⟩
  | @cons param logParam params logParams hParam hLog ih =>
    obtain ⟨hFirst, hRest⟩ := List.forall₂_cons.mp hFits
    have hWell := hForm param List.mem_cons_self
    obtain ⟨hPlaced, hSteps⟩ := ih (fun other hOther => hForm other (List.mem_cons_of_mem _ hOther)) hRest
    exact ⟨.cons (hFirst.placed hWell hParam.2) hPlaced, .cons (hFirst.steps hWell hParam.2) hSteps⟩

theorem jsonRow_of_fits (transactionInformation : JsonValue)
    (hForm : ∀ param ∈ params, param.type.WellFormed) (hLog : DecodedLog params logParams)
    (hNames : (informationKey :: params.map EventParam.name).Nodup)
    (hFits : List.Forall₂ (fun param logParam => JsonFits param logParam.value) params logParams) :
    JsonRow params logParams transactionInformation := by
  obtain ⟨hPlaced, hSteps⟩ := steps_of_fits hForm hLog hFits
  obtain ⟨wrappers, hOk, -⟩ := (rowAligned_iff wrappers_flattens wrappers_oneEach wrappers_oneHash
    hForm hLog).mpr hPlaced
  obtain ⟨entries, processed, hFields, hEntries, hAll⟩ :=
    jsonFields_of_steps hSteps hOk [] [] {} rfl (fun _ hMem => nomatch hMem)
  rw [List.append_nil, List.nil_append] at hFields
  rw [List.map_map] at hEntries
  change entries.map Prod.fst = params.map EventParam.name at hEntries
  have hMap : ((∅ : JsonMap).insertAll entries).insert informationKey transactionInformation =
      (∅ : JsonMap).insertAll (entries ++ [(informationKey, transactionInformation)]) := by
    rw [OrderedMap.insertAll, OrderedMap.insertAll, List.foldl_append]
    rfl
  have hKeys : ((entries ++ [(informationKey, transactionInformation)]).map Prod.fst).Perm
      (informationKey :: params.map EventParam.name) := by
    rw [List.map_append, hEntries]
    exact List.perm_append_singleton _ _
  have hNodup := hKeys.nodup_iff.mpr hNames
  refine ⟨wrappers, _, hOk, by rw [mapEthereumWrapperToJson, hFields]; rfl, ?_, hAll _ fun entry hMem => ?_⟩
  · change (((∅ : JsonMap).insertAll entries).insert informationKey transactionInformation).keys.Perm _
    rw [hMap]
    exact (OrderedMap.keys_insertAll_empty hNodup).trans hKeys
  · change (((∅ : JsonMap).insertAll entries).insert informationKey transactionInformation).get? _ = _
    rw [hMap]
    exact OrderedMap.get?_insertAll_of_mem hNodup (List.mem_append_left _ hMem)

end Rows

/-- `event Settled(Fee fee)`, with the rate of a fee in a tuple of its own. -/
def settledParams : List EventParam :=
  [⟨"fee".toList, .tuple false [("rate".toList, .tuple false [("bps".toList, .uint 256)])], false⟩]

def settledLog : List LogParam := [⟨"fee".toList, .tuple [.tuple [.uint 30 256]]⟩]

end Rindexer.SqlTypes
