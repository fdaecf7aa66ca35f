import Rindexer.SqlTypes.Conversion
import Rindexer.SqlTypes.Rendering

/-! Which logs are rendered as they were decoded: those without a tuple in a tuple, whose components are
counted once too often, and without two names of one object that are the same. -/

namespace Rindexer.SqlTypes

open Rindexer.Extraction (JsonMap)
open Rindexer.Filter (JsonValue)
open Rindexer.Lib
open Rindexer.Manifest (ABIInput)
open Rindexer.Tables (Panic)

/-! ### One field and all fields -/

/-- The field takes its own values off the list, and nothing else. -/
def Steps (input : ABIInput) (value : DynSolValue) : Prop :=
  ∀ first, mapLogTokenToEthereumWrapper input value = .ok first → ∀ front rest (state : JsonState),
    state.current = front.length → (∀ i ∈ state.processed, i < front.length) →
    ∃ json processed, jsonField (front ++ (first ++ rest)) state input =
        .ok ⟨state.result.insert input.name json, (front ++ first).length, processed⟩ ∧
      Renders input value json ∧ ∀ i ∈ processed, i < (front ++ first).length

theorem jsonFields_of_steps {inputs : List ABIInput} {items : List DynSolValue}
    (hSteps : List.Forall₂ Steps inputs items) {wrappers : List EthereumSqlTypeWrapper}
    (hOk : processTuple inputs items = .ok wrappers) (front rest : List EthereumSqlTypeWrapper)
    (state : JsonState) (hCurrent : state.current = front.length)
    (hProcessed : ∀ i ∈ state.processed, i < front.length) :
    ∃ entries processed, jsonFields (front ++ (wrappers ++ rest)) state inputs =
        .ok ⟨state.result.insertAll entries, (front ++ wrappers).length, processed⟩ ∧
      entries.map Prod.fst = inputs.map ABIInput.name ∧
      ∀ map : JsonMap, (∀ entry ∈ entries, map.get? entry.1 = some entry.2) →
        RendersAll inputs items map := by
  induction hSteps generalizing wrappers front state with
  | nil =>
    rw [processTuple] at hOk
    cases hOk
    refine ⟨[], state.processed, ?_, rfl, fun _ _ => .nil⟩
    rw [jsonFields, List.append_nil, ← hCurrent]
    rfl
  | @cons input value inputs items hStep hSteps ih =>
    obtain ⟨first, others, hFirst, hOthers, rfl⟩ := wrappers_flattens.cons_ok hOk
    obtain ⟨json, processed, hField, hRenders, hBound⟩ :=
      hStep first hFirst front (others ++ rest) state hCurrent hProcessed
    obtain ⟨entries, processed, hFields, hNames, hAll⟩ := ih hOthers (front ++ first)
      ⟨state.result.insert input.name json, (front ++ first).length, processed⟩ rfl hBound
    refine ⟨(input.name, json) :: entries, processed, ?_, by rw [List.map_cons, hNames]; rfl, ?_⟩
    · have hNew : state.current ∉ state.processed := fun hMem => by
        have hLess := hProcessed _ hMem
        omega
      rw [jsonFields, if_neg hNew, List.append_assoc, hField]
      rw [List.append_assoc] at hFields
      rw [List.append_assoc] at hFields
      exact hFields
    · intro map hMap
      exact .cons (hMap _ List.mem_cons_self) hRenders
        (hAll map fun entry hMem => hMap entry (List.mem_cons_of_mem _ hMem))

theorem steps_leaf {input : ABIInput} {value : DynSolValue} (hLeaf : input.type ≠ "tuple".toList)
    (hOne : ∀ as, mapLogTokenToEthereumWrapper input value = .ok as → ∃ a, as = [a]) :
    Steps input value := by
  intro first hFirst front rest state hCurrent hProcessed
  obtain ⟨wrapper, rfl⟩ := hOne first hFirst
  refine ⟨wrapper.toJson, state.processed ++ [state.current], ?_, .leaf hLeaf hFirst, ?_⟩
  · have hWrapper : (front ++ ([wrapper] ++ rest))[state.current]? = some wrapper := by
      rw [hCurrent]
      simp
    rw [jsonField_leaf hLeaf hWrapper, hCurrent, List.length_append]
    rfl
  · intro i hi
    rw [List.length_append, List.length_singleton]
    rcases List.mem_append.mp hi with hOld | hNew
    · have := hProcessed i hOld
      omega
    · rw [List.mem_singleton.mp hNew]
      omega

/-! ### Counts -/

namespace SolType

mutual

/-- What `count_components` has for a field: a tuple counts itself besides its fields. -/
def count : SolType → Nat
  | tuple _ fields => 1 + fieldsCount fields
  | _ => 1

def fieldsCount : List (List Char × SolType) → Nat
  | [] => 0
  | (_, type) :: fields => type.count + fieldsCount fields

end

mutual

def leafCount : SolType → Nat
  | tuple _ fields => fieldsLeafCount fields
  | _ => 1

def fieldsLeafCount : List (List Char × SolType) → Nat
  | [] => 0
  | (_, type) :: fields => type.leafCount + fieldsLeafCount fields

end

/-- The values that are taken off the list for a parameter. -/
def taken : SolType → Nat
  | tuple _ fields => fieldsCount fields
  | _ => 1

/-- No field of the tuple is a tuple. -/
def Flat : SolType → Prop
  | tuple _ fields => ∀ field ∈ fields, field.2.IsTuple = false
  | _ => True

/-- The fields of the tuple have different names. -/
def NamesDiffer : SolType → Prop
  | tuple _ fields => (fields.map Prod.fst).Nodup
  | _ => True

theorem text_eq_tuple_iff (type : SolType) : type.text = "tuple".toList ↔ type.IsTuple = true := by
  cases hArray : type.IsArray with
  | true =>
    obtain ⟨rest, hSuffix⟩ := suffix_of_isArray hArray
    refine iff_of_false (fun hText => ?_) (fun hTuple => ?_)
    · have hOpen : '[' ∈ type.text := by
        rw [text_eq, hSuffix]
        simp
      rw [hText] at hOpen
      exact absurd hOpen (by decide)
    · cases type with
      | tuple isStruct fields => cases hArray
      | _ => cases hTuple
  | false =>
    rw [text_eq, suffix_of_not_isArray hArray, innermost_of_not_isArray hArray, List.append_nil]
    cases type with
    | tuple isStruct fields => exact iff_of_true rfl rfl
    | fixedBytes size | int bits | uint bits =>
      refine iff_of_false (fun hText => ?_) (fun hTuple => nomatch hTuple)
      cases hText
    | array item | fixedArray item length => cases hArray
    | _ => exact iff_of_false (by decide) (fun hTuple => nomatch hTuple)

theorem text_ne_tuple {type : SolType} (h : type.IsTuple = false) : type.text ≠ "tuple".toList := by
  intro hText
  rw [type.text_eq_tuple_iff.mp hText] at h
  cases h

mutual

theorem countComponent_input : ∀ (type : SolType) (name : List Char) (indexed : Option Bool),
    countComponent (type.input name indexed) = .ok type.count
  | tuple isStruct fields, name, indexed => by
    have hText : (tuple isStruct fields).text = "tuple".toList := rfl
    rw [input, components, countComponent, if_pos hText, countComponents_fieldInputs fields, count]
    rfl
  | address, name, indexed | bool, name, indexed | string, name, indexed | bytes, name, indexed
  | function, name, indexed | fixedBytes _, name, indexed | int _, name, indexed
  | uint _, name, indexed | array _, name, indexed | fixedArray _ _, name, indexed => by
    rw [input, countComponent.eq_def, count]
    · exact if_neg (text_ne_tuple rfl)
    · exact nofun

theorem countComponents_fieldInputs : ∀ fields : List (List Char × SolType),
    countComponents (fieldInputs fields) = .ok (fieldsCount fields)
  | [] => by rw [fieldInputs, countComponents, fieldsCount]
  | (name, type) :: fields => by
    have hFirst := countComponent_input type name none
    rw [input] at hFirst
    rw [fieldInputs, countComponents, hFirst, countComponents_fieldInputs fields, fieldsCount]
    rfl

end

mutual

theorem length_leaves : ∀ (type : SolType) (path : List (List Char)) (name : List Char)
    (indexed : Option Bool), (leaves path (type.input name indexed)).length = type.leafCount
  | tuple isStruct fields, path, name, indexed => by
    rw [leaves_of_tuple, leafCount]
    exact length_leavesFrom fields (path ++ [name]) 0
  | address, path, name, indexed | bool, path, name, indexed | string, path, name, indexed
  | bytes, path, name, indexed | function, path, name, indexed | fixedBytes _, path, name, indexed
  | int _, path, name, indexed | uint _, path, name, indexed | array _, path, name, indexed
  | fixedArray _ _, path, name, indexed => by
    rw [leaves_of_not_isTuple rfl, leafCount]
    · rfl
    · exact nofun

theorem length_leavesFrom : ∀ (fields : List (List Char × SolType)) (path : List (List Char))
    (idx : Nat), (leavesFrom path idx (fieldInputs fields)).length = fieldsLeafCount fields
  | [], path, idx => rfl
  | (name, type) :: fields, path, idx => by
    have hFirst := length_leaves type path name none
    rw [input] at hFirst
    rw [fieldInputs, leavesFrom, List.length_append, List.length_map, hFirst,
      length_leavesFrom fields path (idx + 1), fieldsLeafCount]

end

mutual

/-- A tuple is counted for more than its leaves, anything else for one. -/
theorem leafCount_le_count : ∀ type : SolType,
    type.leafCount + (if type.IsTuple then 1 else 0) ≤ type.count
  | tuple isStruct fields => by
    have hFields := fieldsLeafCount_le fields
    rw [leafCount, count, IsTuple, if_pos rfl]
    omega
  | address | bool | string | bytes | function | fixedBytes _ | int _ | uint _ | array _
  | fixedArray _ _ => by
    rw [leafCount, count, IsTuple, if_neg (by decide)] <;> exact nofun

theorem fieldsLeafCount_le : ∀ fields : List (List Char × SolType),
    fieldsLeafCount fields ≤ fieldsCount fields
  | [] => le_rfl
  | (_, type) :: fields => by
    have hFirst := leafCount_le_count type
    have hRest := fieldsLeafCount_le fields
    rw [fieldsLeafCount, fieldsCount]
    omega

end

end SolType

/-! ### Flat parameters -/

theorem fieldsCount_of_flat {fields : List (List Char × SolType)}
    (h : ∀ field ∈ fields, field.2.IsTuple = false) :
    SolType.fieldsCount fields = fields.length ∧ SolType.fieldsLeafCount fields = fields.length := by
  induction fields with
  | nil => exact ⟨rfl, rfl⟩
  | cons field fields ih =>
    obtain ⟨name, type⟩ := field
    have hFirst := h _ List.mem_cons_self
    obtain ⟨hCount, hLeaves⟩ := ih fun other hOther => h other (List.mem_cons_of_mem _ hOther)
    rw [SolType.fieldsCount, SolType.fieldsLeafCount, hCount, hLeaves, List.length_cons]
    cases type with
    | tuple isStruct fields => cases hFirst
    | _ =>
      rw [SolType.count, SolType.leafCount]
      · omega
      · exact nofun
      · exact nofun

theorem steps_of_not_isTuple {type : SolType} (hForm : type.WellFormed) (hPlain : type.IsTuple = false)
    (name : List Char) (indexed : Option Bool) {value : DynSolValue} (hHolds : type.Holds value) :
    Steps (type.input name indexed) value := by
  exact steps_leaf (SolType.text_ne_tuple hPlain)
    fun as hOk => wrappers_oneEach type name indexed value as hForm hPlain hHolds hOk

theorem steps_fields : ∀ {fields : List (List Char × SolType)} {items : List DynSolValue},
    SolType.FieldsWellFormed fields → (∀ field ∈ fields, field.2.IsTuple = false) →
    SolType.FieldsHold fields items → List.Forall₂ Steps (SolType.fieldInputs fields) items
  | [], items, _, _, hHolds => by
    cases items with
    | nil => exact .nil
    | cons item items => cases hHolds
  | (name, type) :: fields, items, hForm, hFlat, hHolds => by
    cases items with
    | nil => cases hHolds
    | cons value items =>
      exact .cons (steps_of_not_isTuple hForm.1 (hFlat _ List.mem_cons_self) name none hHolds.1)
        (steps_fields hForm.2 (fun other hOther => hFlat other (List.mem_cons_of_mem _ hOther)) hHolds.2)

theorem name_fieldInputs (fields : List (List Char × SolType)) :
    (SolType.fieldInputs fields).map ABIInput.name = fields.map Prod.fst := by
  rw [SolType.fieldInputs_eq, List.map_map]
  rfl

theorem steps_tuple {fields : List (List Char × SolType)}
    (hForm : (SolType.tuple false fields).WellFormed) (hFlat : (SolType.tuple false fields).Flat)
    (hNames : (SolType.tuple false fields).NamesDiffer) (name : List Char) (indexed : Option Bool)
    {items : List DynSolValue} (hHolds : (SolType.tuple false fields).Holds (.tuple items)) :
    Steps ((SolType.tuple false fields).input name indexed) (.tuple items) := by
  intro first hFirst front rest state hCurrent hProcessed
  rw [wrappers_flattens.tuple _ (SolType.fieldInputs fields) items rfl] at hFirst
  obtain ⟨hCount, hLeaves⟩ := fieldsCount_of_flat hFlat
  have hLength : first.length = fields.length := by
    have hAligned := aligned_fields wrappers_flattens wrappers_oneEach fields [] [] items first hForm.2
      hHolds hFirst
    have hSame := hAligned.length_eq
    rw [List.length_nil, SolType.length_leavesFrom, hLeaves] at hSame
    exact hSame.symm
  have hTotal := SolType.countComponents_fieldInputs fields
  rw [hCount, ← hLength] at hTotal
  have hPositive : 0 < first.length := by
    rw [hLength]
    exact List.length_pos_of_ne_nil hForm.1
  have hSlice : ((front ++ (first ++ rest)).drop state.current).take first.length = [] ++ (first ++ []) := by
    rw [hCurrent, List.drop_left, List.take_left, List.append_nil, List.nil_append]
  obtain ⟨entries, processed, hInner, hEntries, hAll⟩ :=
    jsonFields_of_steps (steps_fields hForm.2 hFlat hHolds) hFirst [] [] {} rfl (fun _ hMem => nomatch hMem)
  have hNodup : (entries.map Prod.fst).Nodup := by
    rw [hEntries, name_fieldInputs]
    exact hNames
  have hText : (SolType.tuple false fields).text = "tuple".toList := rfl
  have hLess : state.current < (front ++ (first ++ rest)).length := by
    rw [hCurrent, List.length_append, List.length_append]
    omega
  refine ⟨.object ((∅ : JsonMap).insertAll entries).entries,
    state.processed ++ (List.range first.length).map (state.current + ·), ?_, ?_, ?_⟩
  · rw [SolType.input, hText, SolType.components, jsonField_tuple hLess hTotal, hSlice, hInner, if_pos]
    · rw [hCurrent, ← List.length_append]
      rfl
    · rw [hCurrent, List.length_append, List.length_append]
      omega
  · rw [SolType.input, hText, SolType.components]
    refine .tuple ?_ (hAll _ fun entry hMem => OrderedMap.get?_insertAll_of_mem hNodup hMem)
    rw [← hEntries]
    exact OrderedMap.keys_insertAll_empty hNodup
  · intro i hi
    rw [List.length_append]
    rcases List.mem_append.mp hi with hOld | hNew
    · have := hProcessed i hOld
      omega
    · obtain ⟨k, hk, rfl⟩ := List.mem_map.mp hNew
      have := List.mem_range.mp hk
      omega

end Rindexer.SqlTypes
