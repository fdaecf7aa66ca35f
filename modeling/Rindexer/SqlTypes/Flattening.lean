import Rindexer.SqlTypes.Leaves

/-! Conversions that flatten tuples give one value for each leaf: a parameter that is converted at all
is aligned with its columns. -/

namespace Rindexer.SqlTypes

open Rindexer.Database
open Rindexer.Manifest (ABIInput)
open Rindexer.Tables (Panic)

namespace SolType

/-- A tuple, which has columns of its own for its fields. -/
def IsTuple : SolType → Bool
  | tuple _ _ => true
  | _ => false

def IsArray : SolType → Bool
  | array _ | fixedArray _ _ => true
  | _ => false

/-- The type that is in no array any more. -/
def innermost : SolType → SolType
  | array item => item.innermost
  | fixedArray item _ => item.innermost
  | type => type

/-- The brackets of the arrays around the innermost type. -/
def suffix : SolType → List Char
  | array item => item.suffix ++ ['[', ']']
  | fixedArray item length => item.suffix ++ lengthBrackets length
  | _ => []

theorem text_eq (type : SolType) : type.text = type.innermost.nameText ++ type.suffix := by
  induction type using innermost.induct with
  | case1 item ih => rw [text, innermost, suffix, ih, List.append_assoc]
  | case2 item length ih => rw [text, innermost, suffix, ih, List.append_assoc]
  | case3 type hArray hFixed =>
    rw [text, innermost, suffix, List.append_nil] <;> assumption

theorem components_eq (type : SolType) : type.components = type.innermost.components := by
  induction type using innermost.induct with
  | case1 item ih => rw [components, innermost, ih]
  | case2 item length ih => rw [components, innermost, ih]
  | case3 type hArray hFixed => rw [innermost] <;> assumption

theorem isArray_innermost (type : SolType) : type.innermost.IsArray = false := by
  induction type using innermost.induct with
  | case1 item ih => rw [innermost, ih]
  | case2 item length ih => rw [innermost, ih]
  | case3 type hArray hFixed =>
    cases type with
    | array item => exact absurd rfl (hArray item)
    | fixedArray item length => exact absurd rfl (hFixed item length)
    | _ => rfl

theorem suffix_of_isArray {type : SolType} (h : type.IsArray = true) :
    ∃ rest, type.suffix = '[' :: rest := by
  induction type using innermost.induct with
  | case1 item ih =>
    cases hItem : item.IsArray with
    | true =>
      obtain ⟨rest, hRest⟩ := ih hItem
      exact ⟨rest ++ ['[', ']'], by rw [suffix, hRest, List.cons_append]⟩
    | false => exact ⟨[']'], by cases item <;> first | rfl | cases hItem⟩
  | case2 item length ih =>
    cases hItem : item.IsArray with
    | true =>
      obtain ⟨rest, hRest⟩ := ih hItem
      exact ⟨rest ++ lengthBrackets length, by rw [suffix, hRest, List.cons_append]⟩
    | false =>
      exact ⟨(toString length).toList ++ [']'], by cases item <;> first | rfl | cases hItem⟩
  | case3 type hArray hFixed =>
    cases type with
    | array item => exact absurd rfl (hArray item)
    | fixedArray item length => exact absurd rfl (hFixed item length)
    | _ => cases h

theorem suffix_of_not_isArray {type : SolType} (h : type.IsArray = false) : type.suffix = [] := by
  cases type <;> first | rfl | cases h

theorem innermost_of_not_isArray {type : SolType} (h : type.IsArray = false) :
    type.innermost = type := by
  cases type <;> first | rfl | cases h

/-- The arrays of tuples are those whose type begins with `tuple[`. -/
theorem isPrefixOf_tuple (type : SolType) :
    "tuple[".toList.isPrefixOf type.text = (type.innermost.IsTuple && type.IsArray) := by
  have hPlain := type.isArray_innermost
  rw [text_eq]
  cases hArray : type.IsArray with
  | true =>
    obtain ⟨rest, hSuffix⟩ := suffix_of_isArray hArray
    rw [hSuffix]
    cases hName : type.innermost with
    | array item =>
      rw [hName] at hPlain
      cases hPlain
    | fixedArray item length =>
      rw [hName] at hPlain
      cases hPlain
    | _ => rfl
  | false =>
    rw [suffix_of_not_isArray hArray, innermost_of_not_isArray hArray, List.append_nil]
    cases type <;> rfl

theorem components_eq_some {type : SolType} :
    (∃ components, type.components = some components) ↔ type.innermost.IsTuple = true := by
  have hPlain := type.isArray_innermost
  rw [components_eq]
  cases hName : type.innermost with
  | array item =>
    rw [hName] at hPlain
    cases hPlain
  | fixedArray item length =>
    rw [hName] at hPlain
    cases hPlain
  | tuple isStruct fields => exact iff_of_true ⟨_, rfl⟩ rfl
  | _ => exact iff_of_false (fun ⟨_, hSome⟩ => nomatch hSome) (fun hTuple => nomatch hTuple)

end SolType

theorem leaves_of_not_isTuple {type : SolType} (h : type.IsTuple = false) (path : List (List Char))
    (name : List Char) (indexed : Option Bool) :
    leaves path (type.input name indexed) = [⟨path, type.input name indexed, []⟩] := by
  rw [SolType.input]
  cases hComponents : type.components with
  | none => rw [leaves]
  | some components =>
    have hTuple := SolType.components_eq_some.mp ⟨components, hComponents⟩
    have hArray : type.IsArray = true := by
      cases hPlain : type.IsArray with
      | true => rfl
      | false =>
        rw [SolType.innermost_of_not_isArray hPlain, h] at hTuple
        cases hTuple
    rw [leaves, type.isPrefixOf_tuple, hTuple, hArray, Bool.and_self, if_pos rfl]

theorem leaves_of_tuple (path : List (List Char)) (name : List Char) (indexed : Option Bool)
    (isStruct : Bool) (fields : List (List Char × SolType)) :
    leaves path ((SolType.tuple isStruct fields).input name indexed) =
      leavesFrom (path ++ [name]) 0 (SolType.fieldInputs fields) := by
  have hPlain : (SolType.tuple isStruct fields).IsArray = false := rfl
  rw [SolType.input, SolType.components, leaves, SolType.isPrefixOf_tuple, hPlain, Bool.and_false,
    if_neg (by decide)]

/-! ### Alignment -/

section Alignment

variable {α : Type} {convert : ABIInput → DynSolValue → Except Panic (List α)}
  {convertAll : List ABIInput → List DynSolValue → Except Panic (List α)}

/-- One value for every type that is no tuple. -/
def OneEach (convert : ABIInput → DynSolValue → Except Panic (List α)) : Prop :=
  ∀ (type : SolType) (name : List Char) (indexed : Option Bool) (value : DynSolValue) (as : List α),
    type.WellFormed → type.IsTuple = false → type.Holds value →
    convert (type.input name indexed) value = .ok as → ∃ a, as = [a]

theorem aligned_singleton {input : ABIInput} {value : DynSolValue} {a : α} (path : List (List Char))
    (h : convert input value = .ok [a]) : Aligned convert value [⟨path, input, []⟩] [a] :=
  .cons ⟨value, rfl, h⟩ .nil

theorem Flattens.cons_ok (hFlattens : Flattens convert convertAll) {input : ABIInput}
    {inputs : List ABIInput} {token : DynSolValue} {tokens : List DynSolValue} {as : List α}
    (h : convertAll (input :: inputs) (token :: tokens) = .ok as) :
    ∃ first rest, convert input token = .ok first ∧ convertAll inputs tokens = .ok rest ∧
      as = first ++ rest := by
  rw [hFlattens.cons] at h
  cases hFirst : convert input token with
  | error e =>
    rw [hFirst] at h
    cases h
  | ok first =>
    cases hRest : convertAll inputs tokens with
    | error e =>
      rw [hFirst, hRest] at h
      cases h
    | ok rest =>
      rw [hFirst, hRest] at h
      cases h
      exact ⟨first, rest, rfl, rfl, rfl⟩

mutual

/-- What a value is converted to, if it is, is aligned with the leaves of its type. -/
theorem aligned_of_ok (hFlattens : Flattens convert convertAll) (hOne : OneEach convert) :
    ∀ (type : SolType) (path : List (List Char)) (name : List Char) (indexed : Option Bool)
      (value : DynSolValue) (as : List α), type.WellFormed → type.Holds value →
      convert (type.input name indexed) value = .ok as →
      Aligned convert value (leaves path (type.input name indexed)) as
  | .tuple isStruct fields, path, name, indexed, value, as, hForm, hHolds, hOk => by
    rw [leaves_of_tuple]
    cases isStruct with
    | true =>
      cases value with
      | customStruct items =>
        rw [hFlattens.struct] at hOk
        cases hOk
      | _ => cases hHolds
    | false =>
      cases value with
      | tuple items =>
        rw [hFlattens.tuple _ (SolType.fieldInputs fields) items rfl] at hOk
        exact aligned_fields hFlattens hOne fields (path ++ [name]) [] items as hForm.2 hHolds hOk
      | _ => cases hHolds
  | .array item, path, name, indexed, value, as, hForm, hHolds, hOk => by
    obtain ⟨a, rfl⟩ := hOne _ name indexed value as hForm rfl hHolds hOk
    rw [leaves_of_not_isTuple rfl]
    exact aligned_singleton path hOk
  | .fixedArray item length, path, name, indexed, value, as, hForm, hHolds, hOk => by
    obtain ⟨a, rfl⟩ := hOne _ name indexed value as hForm rfl hHolds hOk
    rw [leaves_of_not_isTuple rfl]
    exact aligned_singleton path hOk
  | .address, path, name, indexed, value, as, hForm, hHolds, hOk
  | .bool, path, name, indexed, value, as, hForm, hHolds, hOk
  | .string, path, name, indexed, value, as, hForm, hHolds, hOk
  | .bytes, path, name, indexed, value, as, hForm, hHolds, hOk
  | .function, path, name, indexed, value, as, hForm, hHolds, hOk
  | .fixedBytes _, path, name, indexed, value, as, hForm, hHolds, hOk
  | .int _, path, name, indexed, value, as, hForm, hHolds, hOk
  | .uint _, path, name, indexed, value, as, hForm, hHolds, hOk => by
    obtain ⟨a, rfl⟩ := hOne _ name indexed value as hForm rfl hHolds hOk
    rw [leaves_of_not_isTuple rfl]
    exact aligned_singleton path hOk

/-- The same for the fields of a tuple after those in `front`. -/
theorem aligned_fields (hFlattens : Flattens convert convertAll) (hOne : OneEach convert) :
    ∀ (fields : List (List Char × SolType)) (path : List (List Char)) (front items : List DynSolValue)
      (as : List α), SolType.FieldsWellFormed fields → SolType.FieldsHold fields items →
      convertAll (SolType.fieldInputs fields) items = .ok as →
      Aligned convert (.tuple (front ++ items)) (leavesFrom path front.length (SolType.fieldInputs fields))
        as
  | [], path, front, items, as, hForm, hHolds, hOk => by
    cases items with
    | cons item items => cases hHolds
    | nil =>
      rw [SolType.fieldInputs, hFlattens.nil] at hOk
      cases hOk
      exact .nil
  | (name, type) :: fields, path, front, items, as, hForm, hHolds, hOk => by
    cases items with
    | nil => cases hHolds
    | cons value items =>
      obtain ⟨first, rest, hFirst, hRest, rfl⟩ := hFlattens.cons_ok hOk
      have hHead := aligned_of_ok hFlattens hOne type path name none value first hForm.1 hHolds.1 hFirst
      have hTail := aligned_fields hFlattens hOne fields path (front ++ [value]) items rest hForm.2
        hHolds.2 hRest
      rw [List.append_assoc, List.length_append] at hTail
      exact List.rel_append (aligned_under.mpr hHead) hTail

end

/-! ### Rows -/

theorem exists_cons_of_mem_leavesFrom {path : List (List Char)} {idx : Nat} {inputs : List ABIInput}
    {leaf : Leaf} (h : leaf ∈ leavesFrom path idx inputs) :
    ∃ i position, leaf.position = i :: position := by
  induction inputs generalizing idx with
  | nil => cases h
  | cons input inputs ih =>
    rw [leavesFrom] at h
    rcases List.mem_append.mp h with hFirst | hRest
    · obtain ⟨inner, -, rfl⟩ := List.mem_map.mp hFirst
      exact ⟨idx, inner.position, rfl⟩
    · exact ih hRest

theorem leaves_ne_nil : ∀ (type : SolType) (path : List (List Char)) (name : List Char)
    (indexed : Option Bool), type.WellFormed → leaves path (type.input name indexed) ≠ []
  | .tuple isStruct [], path, name, indexed, hForm => absurd rfl hForm.1
  | .tuple isStruct ((field, type) :: fields), path, name, indexed, hForm => by
    rw [leaves_of_tuple, SolType.fieldInputs, leavesFrom]
    intro hNil
    have hFirst := (List.append_eq_nil_iff.mp hNil).1
    exact leaves_ne_nil type (path ++ [name]) field none hForm.2.1 (List.map_eq_nil_iff.mp hFirst)
  | .address, path, name, indexed, _ | .bool, path, name, indexed, _
  | .string, path, name, indexed, _ | .bytes, path, name, indexed, _
  | .function, path, name, indexed, _ | .fixedBytes _, path, name, indexed, _
  | .int _, path, name, indexed, _ | .uint _, path, name, indexed, _
  | .array _, path, name, indexed, _ | .fixedArray _ _, path, name, indexed, _ => by
    rw [leaves_of_not_isTuple rfl]
    exact List.cons_ne_nil _ _

/-- A hash is not aligned with the leaves of a tuple. -/
theorem not_aligned_hash {isStruct : Bool} {fields : List (List Char × SolType)}
    {path : List (List Char)} {name : List Char} {indexed : Option Bool}
    (hForm : (SolType.tuple isStruct fields).WellFormed) (topic : List UInt8) (size : Nat) (as : List α) :
    ¬ Aligned convert (.fixedBytes topic size)
      (leaves path ((SolType.tuple isStruct fields).input name indexed)) as := by
  intro hAligned
  have hSome := leaves_ne_nil _ path name indexed hForm
  rw [leaves_of_tuple] at hAligned hSome
  cases hLeaves : leavesFrom (path ++ [name]) 0 (SolType.fieldInputs fields) with
  | nil => exact hSome hLeaves
  | cons leaf rest =>
    obtain ⟨i, position, hPosition⟩ := exists_cons_of_mem_leavesFrom
      (hLeaves ▸ List.mem_cons_self : leaf ∈ leavesFrom (path ++ [name]) 0 (SolType.fieldInputs fields))
    rw [hLeaves] at hAligned
    cases hAligned with
    | cons hFilled hRest =>
      obtain ⟨token, hToken, -⟩ := hFilled
      rw [hPosition, valueAt_cons_of_asTuple rfl] at hToken
      cases hToken

/-- Every hash is converted to one value. -/
def OneHash (convert : ABIInput → DynSolValue → Except Panic (List α)) : Prop :=
  ∀ (input : ABIInput) (topic : List UInt8), ∃ a, convert input (.fixedBytes topic 32) = .ok [a]

/-- The parameter is converted, and is no hash in the place of a tuple. -/
def Placed (convert : ABIInput → DynSolValue → Except Panic (List α)) (param : EventParam)
    (value : DynSolValue) : Prop :=
  if param.IsHashed then param.type.IsTuple = false else ∃ as, convert param.input value = .ok as

/-- A row: the parameters of a log one after another, aligned with the leaves of all of them. -/
def RowAligned (convert : ABIInput → DynSolValue → Except Panic (List α))
    (convertAll : List ABIInput → List DynSolValue → Except Panic (List α))
    (params : List EventParam) (logParams : List LogParam) : Prop :=
  ∃ as, convertAll (params.map EventParam.input) (logParams.map LogParam.value) = .ok as ∧
    Aligned convert (.tuple (logParams.map LogParam.value))
      (leavesFrom [] 0 (params.map EventParam.input)) as

theorem aligned_append {value : DynSolValue} {leaves1 leaves2 : List Leaf} {as : List α}
    (h : Aligned convert value (leaves1 ++ leaves2) as) :
    Aligned convert value leaves1 (as.take leaves1.length) ∧
      Aligned convert value leaves2 (as.drop leaves1.length) :=
  ⟨(List.forall₂_take_append _ _ _ h.flip).flip, (List.forall₂_drop_append _ _ _ h.flip).flip⟩

theorem placed_of_aligned {param : EventParam} (hForm : param.type.WellFormed) {value : DynSolValue}
    (hValue : param.Decodes value) {first as : List α} (hOk : convert param.input value = .ok first)
    (hAligned : Aligned convert value (leaves [] param.input) as) : Placed convert param value := by
  rw [Placed]
  by_cases hHashed : param.IsHashed
  · rw [if_pos hHashed]
    obtain ⟨topic, rfl, -⟩ : ∃ topic, value = .fixedBytes topic 32 ∧ topic.length = 32 := by
      rwa [EventParam.Decodes, if_pos hHashed] at hValue
    cases hTuple : param.type.IsTuple with
    | false => rfl
    | true =>
      obtain ⟨name, type, indexed⟩ := param
      cases type with
      | tuple isStruct fields => exact absurd hAligned (not_aligned_hash hForm topic 32 as)
      | _ => cases hTuple
  · rw [if_neg hHashed]
    exact ⟨first, hOk⟩

theorem aligned_of_placed (hFlattens : Flattens convert convertAll) (hOne : OneEach convert)
    (hHash : OneHash convert) {param : EventParam} (hForm : param.type.WellFormed)
    {value : DynSolValue} (hValue : param.Decodes value) (hPlaced : Placed convert param value) :
    ∃ as, convert param.input value = .ok as ∧ Aligned convert value (leaves [] param.input) as := by
  rw [Placed] at hPlaced
  by_cases hHashed : param.IsHashed
  · rw [if_pos hHashed] at hPlaced
    obtain ⟨topic, rfl, -⟩ : ∃ topic, value = .fixedBytes topic 32 ∧ topic.length = 32 := by
      rwa [EventParam.Decodes, if_pos hHashed] at hValue
    obtain ⟨a, ha⟩ := hHash param.input topic
    refine ⟨[a], ha, ?_⟩
    rw [EventParam.input, leaves_of_not_isTuple hPlaced]
    exact aligned_singleton [] ha
  · rw [if_neg hHashed] at hPlaced
    have hHolds : param.type.Holds value := by
      rwa [EventParam.Decodes, if_neg hHashed] at hValue
    obtain ⟨as, hOk⟩ := hPlaced
    exact ⟨as, hOk, aligned_of_ok hFlattens hOne param.type [] param.name _ value as hForm hHolds hOk⟩

/-- The same for the parameters after those in `front`. -/
theorem rowAligned_from_iff (hFlattens : Flattens convert convertAll) (hOne : OneEach convert)
    (hHash : OneHash convert) {params : List EventParam} {logParams : List LogParam}
    (hForm : ∀ param ∈ params, param.type.WellFormed) (hLog : DecodedLog params logParams)
    (front : List DynSolValue) :
    (∃ as, convertAll (params.map EventParam.input) (logParams.map LogParam.value) = .ok as ∧
      Aligned convert (.tuple (front ++ logParams.map LogParam.value))
        (leavesFrom [] front.length (params.map EventParam.input)) as) ↔
    List.Forall₂ (fun param logParam => Placed convert param logParam.value) params logParams := by
  induction hLog generalizing front with
  | nil => exact iff_of_true ⟨[], hFlattens.nil, .nil⟩ .nil
  | @cons param logParam params logParams hParam hLog ih =>
    have hRest := ih (fun other hOther => hForm other (List.mem_cons_of_mem _ hOther))
      (front ++ [logParam.value])
    have hWell := hForm param List.mem_cons_self
    rw [List.append_assoc, List.length_append] at hRest
    rw [List.map_cons, List.map_cons, leavesFrom, List.forall₂_cons, ← hRest]
    constructor
    · rintro ⟨as, hAll, hAligned⟩
      obtain ⟨first, rest, hFirst, hTail, rfl⟩ := hFlattens.cons_ok hAll
      obtain ⟨hHead, hTailAligned⟩ := aligned_append hAligned
      have hPlaced := placed_of_aligned hWell hParam.2 hFirst (aligned_under.mp hHead)
      obtain ⟨as, hOk, hSame⟩ := aligned_of_placed hFlattens hOne hHash hWell hParam.2 hPlaced
      rw [hFirst] at hOk
      cases hOk
      rw [List.length_map, hSame.length_eq, List.drop_left] at hTailAligned
      exact ⟨hPlaced, rest, hTail, hTailAligned⟩
    · rintro ⟨hPlaced, rest, hTail, hTailAligned⟩
      obtain ⟨first, hFirst, hHead⟩ := aligned_of_placed hFlattens hOne hHash hWell hParam.2 hPlaced
      refine ⟨first ++ rest, ?_, List.rel_append (aligned_under.mpr hHead) hTailAligned⟩
      rw [hFlattens.cons, hFirst, hTail]
      rfl

/-- A row is aligned if and only if each of its parameters is converted, and none of them is the hash of
a tuple. -/
theorem rowAligned_iff (hFlattens : Flattens convert convertAll) (hOne : OneEach convert)
    (hHash : OneHash convert) {params : List EventParam} {logParams : List LogParam}
    (hForm : ∀ param ∈ params, param.type.WellFormed) (hLog : DecodedLog params logParams) :
    RowAligned convert convertAll params logParams ↔
      List.Forall₂ (fun param logParam => Placed convert param logParam.value) params logParams :=
  rowAligned_from_iff hFlattens hOne hHash hForm hLog []

end Alignment

end Rindexer.SqlTypes
