import Rindexer.SqlTypes.Flattening

/-! The texts of a log's parameters, for CSV rows: arrays are one text, tuples are flattened, and
functions and structs are refused with a panic. -/

namespace Rindexer.SqlTypes

open Rindexer.Extraction (hexText)
open Rindexer.Manifest (ABIInput)
open Rindexer.Tables (Panic)

mutual

def mapTokenToRawValues : DynSolValue → Except Panic (List (List Char))
  | .address a => .ok [hexText a]
  | .fixedBytes word _ => .ok [hexText word]
  | .bytes b => .ok [hexText b]
  | .int n _ => .ok [(toString n).toList]
  | .uint n _ => .ok [(toString n.val).toList]
  | .bool b => .ok [(toString b).toList]
  | .string s => .ok [s]
  | .fixedArray tokens | .array tokens =>
    (rawValuesOf tokens).map fun values => ['[' :: [',', ' '].intercalate values ++ [']']]
  | .tuple tokens => rawValuesOf tokens
  | .function _ | .customStruct _ => .error ⟨⟩

def rawValuesOf : List DynSolValue → Except Panic (List (List Char))
  | [] => .ok []
  | token :: tokens =>
    (mapTokenToRawValues token).bind fun first => (rawValuesOf tokens).map fun rest => first ++ rest

end

def mapLogParamsToRawValues (params : List LogParam) : Except Panic (List (List Char)) :=
  rawValuesOf (params.map LogParam.value)

mutual

/-- No function and no struct is in the value. -/
def DynSolValue.Plain : DynSolValue → Prop
  | .function _ | .customStruct _ => False
  | .array items | .fixedArray items | .tuple items => AllPlain items
  | _ => True

def AllPlain : List DynSolValue → Prop
  | [] => True
  | value :: values => value.Plain ∧ AllPlain values

end

theorem rawValues_flattens :
    Flattens (fun _ token => mapTokenToRawValues token) fun _ tokens => rawValuesOf tokens where
  nil := by rw [rawValuesOf]
  cons _ _ token tokens := by rw [rawValuesOf]
  tuple _ _ items _ := by rw [mapTokenToRawValues]
  struct _ items := by rw [mapTokenToRawValues]

theorem rawValues_oneEach : OneEach fun _ token => mapTokenToRawValues token := by
  intro type name indexed value as _ hPlain hHolds hOk
  change mapTokenToRawValues value = .ok as at hOk
  cases value with
  | array items | fixedArray items =>
    rw [mapTokenToRawValues] at hOk
    cases hValues : rawValuesOf items with
    | error e =>
      rw [hValues] at hOk
      cases hOk
    | ok values =>
      rw [hValues] at hOk
      cases hOk
      exact ⟨_, rfl⟩
  | tuple items =>
    cases type with
    | tuple isStruct fields => cases hPlain
    | _ => cases hHolds
  | function f | customStruct items =>
    rw [mapTokenToRawValues] at hOk
    cases hOk
  | _ =>
    rw [mapTokenToRawValues] at hOk
    cases hOk
    exact ⟨_, rfl⟩

theorem rawValues_oneHash : OneHash fun _ token => mapTokenToRawValues token :=
  fun _ topic => ⟨hexText topic, by
    change mapTokenToRawValues (.fixedBytes topic 32) = _
    rw [mapTokenToRawValues]⟩

mutual

theorem mapTokenToRawValues_ok : ∀ value : DynSolValue,
    (∃ values, mapTokenToRawValues value = .ok values) ↔ value.Plain
  | .array items => by
    rw [mapTokenToRawValues, DynSolValue.Plain, ← rawValuesOf_ok items]
    cases rawValuesOf items with
    | error e => exact iff_of_false (fun ⟨_, h⟩ => nomatch h) (fun ⟨_, h⟩ => nomatch h)
    | ok values => exact iff_of_true ⟨_, rfl⟩ ⟨_, rfl⟩
  | .fixedArray items => by
    rw [mapTokenToRawValues, DynSolValue.Plain, ← rawValuesOf_ok items]
    cases rawValuesOf items with
    | error e => exact iff_of_false (fun ⟨_, h⟩ => nomatch h) (fun ⟨_, h⟩ => nomatch h)
    | ok values => exact iff_of_true ⟨_, rfl⟩ ⟨_, rfl⟩
  | .tuple items => by rw [mapTokenToRawValues, DynSolValue.Plain, rawValuesOf_ok items]
  | .function f => by
    rw [mapTokenToRawValues, DynSolValue.Plain]
    exact iff_of_false (fun ⟨_, h⟩ => nomatch h) id
  | .customStruct items => by
    rw [mapTokenToRawValues, DynSolValue.Plain]
    exact iff_of_false (fun ⟨_, h⟩ => nomatch h) id
  | .bool _ | .int _ _ | .uint _ _ | .fixedBytes _ _ | .address _ | .bytes _ | .string _ => by
    rw [mapTokenToRawValues, DynSolValue.Plain] <;> simp

theorem rawValuesOf_ok : ∀ values : List DynSolValue,
    (∃ raws, rawValuesOf values = .ok raws) ↔ AllPlain values
  | [] => iff_of_true ⟨[], by rw [rawValuesOf]⟩ trivial
  | value :: values => by
    rw [rawValuesOf, AllPlain, ← mapTokenToRawValues_ok value, ← rawValuesOf_ok values]
    cases mapTokenToRawValues value with
    | error e => exact iff_of_false (fun ⟨_, h⟩ => nomatch h) (fun ⟨⟨_, h⟩, _⟩ => nomatch h)
    | ok first =>
      cases rawValuesOf values with
      | error e => exact iff_of_false (fun ⟨_, h⟩ => nomatch h) (fun ⟨_, _, h⟩ => nomatch h)
      | ok rest => exact iff_of_true ⟨_, rfl⟩ ⟨⟨_, rfl⟩, _, rfl⟩

end

end Rindexer.SqlTypes
