import Rindexer.SqlTypes.Reading

/-! Arrays of tuples are one JSON value.  Which of them keep every element: a struct in a tuple, an array
in an array and a function are written as null, and fields of one name overwrite each other. -/

namespace Rindexer.SqlTypes

open Rindexer.Extraction (JsonMap hexDigit hexEncode hexText)
open Rindexer.Filter (JsonValue)
open Rindexer.Lib
open Rindexer.Manifest (ABIInput)

/-! ### JSON values -/

section Every

variable (text : List Char → Prop) (number : Prop)

mutual

/-- Every text of the value, those of names included, and every number of it. -/
def Every : JsonValue → Prop
  | .string s => text s
  | .number _ => number
  | .array items => EveryItem items
  | .object entries => EveryEntry entries
  | _ => True

def EveryItem : List JsonValue → Prop
  | [] => True
  | value :: values => Every value ∧ EveryItem values

def EveryEntry : List (List Char × JsonValue) → Prop
  | [] => True
  | (name, value) :: entries => (text name ∧ Every value) ∧ EveryEntry entries

end

variable {text number}

theorem everyItem_iff {values : List JsonValue} :
    EveryItem text number values ↔ ∀ value ∈ values, Every text number value := by
  induction values with
  | nil => exact iff_of_true trivial (fun _ hMem => nomatch hMem)
  | cons value values ih => rw [EveryItem, ih, List.forall_mem_cons]

theorem everyEntry_iff {entries : List (List Char × JsonValue)} :
    EveryEntry text number entries ↔
      ∀ entry ∈ entries, text entry.1 ∧ Every text number entry.2 := by
  induction entries with
  | nil => exact iff_of_true trivial (fun _ hMem => nomatch hMem)
  | cons entry entries ih => rw [EveryEntry, ih, List.forall_mem_cons]

end Every

/-- No zero characters, which a column of JSON refuses. -/
def ZeroFree (value : JsonValue) : Prop := Every ('\x00' ∉ ·) True value

/-- Numbers of events are texts. -/
def Numberless (value : JsonValue) : Prop := Every (fun _ => True) False value

/-- The documented behaviour of JSON columns: what was written is read, unless a zero character is in
it. -/
structure Encoders.JsonDocumented (encoders : Encoders) (readJson : List UInt8 → Option JsonValue) :
    Prop where
  read : ∀ value, Numberless value → ZeroFree value → readJson (encoders.json value) = some value
  refused : ∀ value, Numberless value → ¬ ZeroFree value → readJson (encoders.json value) = none

/-! ### The JSON of a value -/

namespace SolType

mutual

/-- The JSON has the value: numbers and bytes as texts, the fields of a tuple at their names. -/
def JsonOf : SolType → DynSolValue → JsonValue → Prop
  | address, .address a, .string s => s = hexText a
  | bool, .bool b, .bool b' => b' = b
  | string, .string s, .string s' => s' = s
  | bytes, .bytes b, .string s => s = hexText b
  | fixedBytes _, .fixedBytes word _, .string s => s = hexText word
  | int _, .int n _, .string s => s = (toString n).toList
  | uint _, .uint n _, .string s => s = (toString n.val).toList
  | function, .function f, .string s => s = hexText f
  | array item, .array items, .array values => List.Forall₂ item.JsonOf items values
  | fixedArray item _, .fixedArray items, .array values => List.Forall₂ item.JsonOf items values
  | tuple _ fields, .tuple items, .object entries
  | tuple _ fields, .customStruct items, .object entries =>
    (entries.map Prod.fst).Perm (fields.map Prod.fst) ∧ FieldsJsonOf entries fields items
  | _, _, _ => False

def FieldsJsonOf (entries : List (List Char × JsonValue)) :
    List (List Char × SolType) → List DynSolValue → Prop
  | (name, type) :: fields, value :: items =>
    (∃ json, (name, json) ∈ entries ∧ type.JsonOf value json) ∧ FieldsJsonOf entries fields items
  | _, _ => True

end

/-- The names of fields that make an object with an entry for each. -/
def NamesKept (fields : List (List Char × SolType)) : Prop :=
  (fields.map Prod.fst).Nodup ∧ ∀ field ∈ fields, '\x00' ∉ field.1

mutual

/-- The values whose JSON has everything; an element of an array is no array itself, and a struct is an
element. -/
def JsonKept (inArray : Bool) : SolType → DynSolValue → Prop
  | string, .string s => '\x00' ∉ s
  | function, _ => False
  | array item, .array items => inArray = false ∧ ∀ value ∈ items, item.JsonKept true value
  | fixedArray item _, .fixedArray items =>
    inArray = false ∧ ∀ value ∈ items, item.JsonKept true value
  | tuple false fields, .tuple items => NamesKept fields ∧ FieldsJsonKept fields items
  | tuple true fields, .customStruct items =>
    inArray = true ∧ NamesKept fields ∧ FieldsJsonKept fields items
  | _, _ => True

def FieldsJsonKept : List (List Char × SolType) → List DynSolValue → Prop
  | (_, type) :: fields, value :: items => type.JsonKept false value ∧ FieldsJsonKept fields items
  | _, _ => True

end

end SolType

/-! ### What is written -/

/-- The fields as they are entered. -/
def fieldEntries : List ABIInput → List DynSolValue → List (List Char × JsonValue)
  | component :: components, value :: values =>
    (component.name, fieldToJson component value) :: fieldEntries components values
  | _, _ => []

theorem tupleFields_eq (map : JsonMap) (components : List ABIInput) (values : List DynSolValue) :
    tupleFields map components values = map.insertAll (fieldEntries components values) := by
  induction components generalizing map values with
  | nil =>
    rw [tupleFields, fieldEntries]
    · rfl
    · exact nofun
    · exact nofun
  | cons component components ih =>
    cases values with
    | nil =>
      rw [tupleFields, fieldEntries]
      · rfl
      · exact nofun
      · exact nofun
    | cons value values => rw [tupleFields, ih, fieldEntries, OrderedMap.insertAll_cons]

theorem itemsToJson_eq (component : ABIInput) (values : List DynSolValue) :
    itemsToJson component values = values.map (itemToJson component) := by
  induction values with
  | nil => rw [itemsToJson, List.map_nil]
  | cons value values ih => rw [itemsToJson, ih, List.map_cons]

/-- What a value is written as in a tuple or in an array. -/
def writtenJson (inArray : Bool) (component : ABIInput) (value : DynSolValue) : JsonValue :=
  if inArray then itemToJson component value else fieldToJson component value

theorem writtenJson_tuple {component : ABIInput} {components : List ABIInput}
    (hComponents : component.components = some components) (inArray : Bool) (items : List DynSolValue) :
    writtenJson inArray component (.tuple items) =
      .object ((∅ : JsonMap).insertAll (fieldEntries components items)).entries := by
  cases inArray with
  | true => simp only [writtenJson, if_true, itemToJson, hComponents, tupleFields_eq]
  | false =>
    simp only [writtenJson, Bool.false_eq_true, if_false, fieldToJson, hComponents, tupleFields_eq]

theorem writtenJson_struct {component : ABIInput} {components : List ABIInput}
    (hComponents : component.components = some components) (items : List DynSolValue) :
    writtenJson true component (.customStruct items) =
      .object ((∅ : JsonMap).insertAll (fieldEntries components items)).entries := by
  simp only [writtenJson, if_true, itemToJson, hComponents, tupleFields_eq]

/-! ### What is kept -/

section Objects

variable {fields : List (List Char × SolType)} {items : List DynSolValue}

theorem names_fieldEntries (hHold : SolType.FieldsHold fields items) :
    (fieldEntries (SolType.fieldInputs fields) items).map Prod.fst = fields.map Prod.fst := by
  induction fields generalizing items with
  | nil =>
    cases items with
    | nil => rfl
    | cons item items => cases hHold
  | cons field fields ih =>
    cases items with
    | nil => cases hHold
    | cons item items =>
      rw [SolType.fieldInputs, fieldEntries, List.map_cons, ih hHold.2, List.map_cons]
      rfl

/-- An object of the fields has them all if their names differ and every field is right. -/
theorem object_kept_iff (hHold : SolType.FieldsHold fields items)
    (hFields : ∀ map : JsonMap,
      (∀ entry ∈ fieldEntries (SolType.fieldInputs fields) items, map.get? entry.1 = some entry.2) →
      ((∀ entry ∈ fieldEntries (SolType.fieldInputs fields) items, ZeroFree entry.2) ∧
        SolType.FieldsJsonOf map.entries fields items ↔ SolType.FieldsJsonKept fields items)) :
    (ZeroFree (.object ((∅ : JsonMap).insertAll
        (fieldEntries (SolType.fieldInputs fields) items)).entries) ∧
      (((∅ : JsonMap).insertAll (fieldEntries (SolType.fieldInputs fields) items)).entries.map
        Prod.fst).Perm (fields.map Prod.fst) ∧
      SolType.FieldsJsonOf ((∅ : JsonMap).insertAll
        (fieldEntries (SolType.fieldInputs fields) items)).entries fields items) ↔
      SolType.NamesKept fields ∧ SolType.FieldsJsonKept fields items := by
  have hNames := names_fieldEntries hHold
  generalize fieldEntries (SolType.fieldInputs fields) items = written at hFields hNames ⊢
  by_cases hNodup : (fields.map Prod.fst).Nodup
  · have hDistinct : (written.map Prod.fst).Nodup := by rwa [hNames]
    have hPerm := OrderedMap.keys_insertAll_empty hDistinct
    rw [hNames] at hPerm
    have hGet : ∀ entry ∈ written, ((∅ : JsonMap).insertAll written).get? entry.1 = some entry.2 :=
      fun entry hMem => OrderedMap.get?_insertAll_of_mem hDistinct hMem
    have hMem (entry : List Char × JsonValue) :
        entry ∈ ((∅ : JsonMap).insertAll written).entries ↔ entry ∈ written := by
      rw [← OrderedMap.get?_eq_some_iff]
      constructor
      · intro hSome
        obtain hIn | ⟨-, hNone⟩ := OrderedMap.get?_insertAll_cases hSome
        · exact hIn
        · rw [OrderedMap.get?_empty] at hNone
          cases hNone
      · exact hGet entry
    have hZero : ZeroFree (.object ((∅ : JsonMap).insertAll written).entries) ↔
        (∀ field ∈ fields, '\x00' ∉ field.1) ∧ ∀ entry ∈ written, ZeroFree entry.2 := by
      have hKeys : (∀ field ∈ fields, '\x00' ∉ field.1) ↔ ∀ entry ∈ written, '\x00' ∉ entry.1 := by
        rw [← @List.forall_mem_map _ _ Prod.fst fields fun name => '\x00' ∉ name, ← hNames,
          List.forall_mem_map]
      rw [hKeys, ZeroFree, Every, everyEntry_iff]
      constructor
      · intro hAll
        exact ⟨fun entry hEntry => (hAll entry ((hMem entry).mpr hEntry)).1,
          fun entry hEntry => (hAll entry ((hMem entry).mpr hEntry)).2⟩
      · rintro ⟨hName, hValue⟩ entry hEntry
        exact ⟨hName entry ((hMem entry).mp hEntry), hValue entry ((hMem entry).mp hEntry)⟩
    rw [hZero, ← hFields _ hGet, SolType.NamesKept]
    constructor
    · rintro ⟨⟨hName, hValue⟩, -, hAll⟩
      exact ⟨⟨hNodup, hName⟩, hValue, hAll⟩
    · rintro ⟨⟨-, hName⟩, hValue, hAll⟩
      exact ⟨⟨hName, hValue⟩, hPerm, hAll⟩
  · refine iff_of_false ?_ fun hKept => hNodup hKept.1.1
    rintro ⟨-, hPerm, -⟩
    exact hNodup (hPerm.nodup_iff.mp (OrderedMap.keys_nodup _))

end Objects

theorem zero_not_mem_hexText (bytes : List UInt8) : '\x00' ∉ hexText bytes := by
  have hDigits : ∀ n < 16, hexDigit n ≠ '\x00' := by decide
  have hEncoded : '\x00' ∉ hexEncode bytes := by
    induction bytes with
    | nil => exact List.not_mem_nil
    | cons byte bytes ih =>
      have hByte := byte.toNat_lt
      rw [hexEncode, List.flatMap_cons, List.mem_append, not_or]
      refine ⟨?_, ih⟩
      simp only [List.mem_cons, List.not_mem_nil, or_false, not_or]
      exact ⟨(hDigits _ (by omega)).symm, (hDigits _ (by omega)).symm⟩
  rw [hexText, List.mem_cons, List.mem_cons, not_or, not_or]
  exact ⟨by decide, by decide, hEncoded⟩

theorem forall₂_map_right {α β : Type} (related : α → β → Prop) (f : α → β) (l : List α) :
    List.Forall₂ related l (l.map f) ↔ ∀ a ∈ l, related a (f a) := by
  induction l with
  | nil => exact iff_of_true .nil (fun _ hMem => nomatch hMem)
  | cons a l ih => rw [List.map_cons, List.forall₂_cons, ih, List.forall_mem_cons]

theorem items_kept_iff {item : SolType} {component : ABIInput} {items : List DynSolValue}
    (hItems : ∀ value ∈ items, (ZeroFree (itemToJson component value) ∧
      item.JsonOf value (itemToJson component value)) ↔ item.JsonKept true value) :
    (ZeroFree (.array (itemsToJson component items)) ∧
      List.Forall₂ item.JsonOf items (itemsToJson component items)) ↔
      ∀ value ∈ items, item.JsonKept true value := by
  rw [itemsToJson_eq, forall₂_map_right, ZeroFree, Every, everyItem_iff, List.forall_mem_map,
    ← forall₂_and]
  exact forall₂_congr hItems

mutual

/-- The JSON of a value has everything, and no zero character, exactly for the values that are kept. -/
theorem written_kept_iff : ∀ (inArray : Bool) (type : SolType) (component : ABIInput)
    (value : DynSolValue), component.components = type.components → type.Holds value →
    (ZeroFree (writtenJson inArray component value) ∧
      type.JsonOf value (writtenJson inArray component value) ↔ type.JsonKept inArray value)
  | inArray, .address, component, value, _, hHolds => by
    cases value with
    | address a => cases inArray <;> exact iff_of_true ⟨zero_not_mem_hexText a, rfl⟩ trivial
    | _ => cases hHolds
  | inArray, .bool, component, value, _, hHolds => by
    cases value with
    | bool b => cases inArray <;> exact iff_of_true ⟨trivial, rfl⟩ trivial
    | _ => cases hHolds
  | inArray, .string, component, value, _, hHolds => by
    cases value with
    | string s => cases inArray <;> exact and_iff_left rfl
    | _ => cases hHolds
  | inArray, .bytes, component, value, _, hHolds => by
    cases value with
    | bytes b => cases inArray <;> exact iff_of_true ⟨zero_not_mem_hexText b, rfl⟩ trivial
    | _ => cases hHolds
  | inArray, .fixedBytes size, component, value, _, hHolds => by
    cases value with
    | fixedBytes word _ => cases inArray <;> exact iff_of_true ⟨zero_not_mem_hexText word, rfl⟩ trivial
    | _ => cases hHolds
  | inArray, .int bits, component, value, _, hHolds => by
    cases value with
    | int n _ => cases inArray <;> exact iff_of_true ⟨zero_not_mem_decimalText n, rfl⟩ trivial
    | _ => cases hHolds
  | inArray, .uint bits, component, value, _, hHolds => by
    cases value with
    | uint n _ =>
      cases inArray <;> exact iff_of_true ⟨IntegerType.not_mem_decimal (by decide) n.val, rfl⟩ trivial
    | _ => cases hHolds
  | inArray, .function, component, value, _, hHolds => by
    cases value with
    | function f => cases inArray <;> exact iff_of_false (fun hBoth => hBoth.2) id
    | _ => cases hHolds
  | inArray, .array item, component, value, hComponents, hHolds => by
    cases value with
    | array items =>
      have hItems := @items_kept_iff item component items fun value hMem =>
        written_kept_iff true item component value hComponents (hHolds value hMem)
      cases inArray with
      | true => exact iff_of_false (fun hBoth => hBoth.2) fun hKept => nomatch hKept.1
      | false =>
        rw [writtenJson, if_neg (by decide), fieldToJson, SolType.JsonKept, and_iff_right rfl]
        exact hItems
    | _ => cases hHolds
  | inArray, .fixedArray item length, component, value, hComponents, hHolds => by
    cases value with
    | fixedArray items =>
      have hItems := @items_kept_iff item component items fun value hMem =>
        written_kept_iff true item component value hComponents (hHolds.2 value hMem)
      cases inArray with
      | true => exact iff_of_false (fun hBoth => hBoth.2) fun hKept => nomatch hKept.1
      | false =>
        rw [writtenJson, if_neg (by decide), fieldToJson, SolType.JsonKept, and_iff_right rfl]
        exact hItems
    | _ => cases hHolds
  | inArray, .tuple false fields, component, value, hComponents, hHolds => by
    cases value with
    | tuple items =>
      rw [writtenJson_tuple hComponents]
      exact object_kept_iff hHolds fun map hGet => fields_kept_iff fields items map hHolds hGet
    | _ => cases hHolds
  | inArray, .tuple true fields, component, value, hComponents, hHolds => by
    cases value with
    | customStruct items =>
      cases inArray with
      | true =>
        rw [writtenJson_struct hComponents, SolType.JsonKept, and_iff_right rfl]
        exact object_kept_iff hHolds fun map hGet => fields_kept_iff fields items map hHolds hGet
      | false => exact iff_of_false (fun hBoth => hBoth.2) fun hKept => nomatch hKept.1
    | _ => cases hHolds

theorem fields_kept_iff : ∀ (fields : List (List Char × SolType)) (items : List DynSolValue)
    (map : JsonMap), SolType.FieldsHold fields items →
    (∀ entry ∈ fieldEntries (SolType.fieldInputs fields) items, map.get? entry.1 = some entry.2) →
    ((∀ entry ∈ fieldEntries (SolType.fieldInputs fields) items, ZeroFree entry.2) ∧
      SolType.FieldsJsonOf map.entries fields items ↔ SolType.FieldsJsonKept fields items)
  | [], items, map, hHold, hGet => by
    cases items with
    | nil => exact iff_of_true ⟨(fun _ hMem => nomatch hMem), trivial⟩ trivial
    | cons item items => cases hHold
  | (name, type) :: fields, items, map, hHold, hGet => by
    cases items with
    | nil => cases hHold
    | cons value items =>
      have hFirst := written_kept_iff false type (type.input name none) value rfl hHold.1
      rw [SolType.fieldInputs, fieldEntries] at hGet ⊢
      obtain ⟨hHead, hTail⟩ := List.forall_mem_cons.mp hGet
      have hRest := fields_kept_iff fields items map hHold.2 hTail
      have hWritten : map.get? name =
          some (fieldToJson (.mk name type.text none type.components) value) := hHead
      rw [SolType.FieldsJsonOf, SolType.FieldsJsonKept, ← hFirst, ← hRest, List.forall_mem_cons]
      constructor
      · rintro ⟨⟨hZero, hZeros⟩, ⟨json, hMem, hOf⟩, hOthers⟩
        rw [← OrderedMap.get?_eq_some_iff, hWritten] at hMem
        cases hMem
        exact ⟨⟨hZero, hOf⟩, hZeros, hOthers⟩
      · rintro ⟨⟨hZero, hOf⟩, hZeros, hOthers⟩
        exact ⟨⟨hZero, hZeros⟩, ⟨_, OrderedMap.get?_eq_some_iff.mp hWritten, hOf⟩, hOthers⟩

end

/-! ### Numbers -/

theorem numberless_object {written : List (List Char × JsonValue)}
    (h : EveryEntry (fun _ => True) False written) :
    Numberless (.object ((∅ : JsonMap).insertAll written).entries) := by
  rw [Numberless, Every, everyEntry_iff]
  intro entry hMem
  have hGet := OrderedMap.get?_eq_some_iff.mpr hMem
  obtain hIn | ⟨-, hNone⟩ := OrderedMap.get?_insertAll_cases hGet
  · exact everyEntry_iff.mp h entry hIn
  · rw [OrderedMap.get?_empty] at hNone
    cases hNone

mutual

theorem numberless_written : ∀ (inArray : Bool) (component : ABIInput) (value : DynSolValue),
    Numberless (writtenJson inArray component value)
  | inArray, component, .tuple items => by
    cases hComponents : component.components with
    | none => cases inArray <;> simp [writtenJson, itemToJson, fieldToJson, hComponents, Numberless, Every]
    | some components =>
      rw [writtenJson_tuple hComponents]
      exact numberless_object (numberless_entries components items)
  | inArray, component, .customStruct items => by
    cases inArray with
    | false => trivial
    | true =>
      cases hComponents : component.components with
      | none => simp [writtenJson, itemToJson, hComponents, Numberless, Every]
      | some components =>
        rw [writtenJson_struct hComponents]
        exact numberless_object (numberless_entries components items)
  | false, component, .array items => numberless_items component items
  | false, component, .fixedArray items => numberless_items component items
  | true, component, .array _ | true, component, .fixedArray _ => trivial
  | inArray, component, .bool _ | inArray, component, .int _ _ | inArray, component, .uint _ _
  | inArray, component, .fixedBytes _ _ | inArray, component, .address _
  | inArray, component, .function _ | inArray, component, .bytes _ | inArray, component, .string _ => by
    cases inArray <;> trivial

theorem numberless_items (component : ABIInput) : ∀ items : List DynSolValue,
    EveryItem (fun _ => True) False (itemsToJson component items)
  | [] => trivial
  | value :: items => ⟨numberless_written true component value, numberless_items component items⟩

theorem numberless_entries : ∀ (components : List ABIInput) (items : List DynSolValue),
    EveryEntry (fun _ => True) False (fieldEntries components items)
  | [], _ | _ :: _, [] => trivial
  | component :: components, value :: items =>
    ⟨⟨trivial, numberless_written false component value⟩, numberless_entries components items⟩

end

end Rindexer.SqlTypes
