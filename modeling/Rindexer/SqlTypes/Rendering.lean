import Rindexer.SqlTypes.Wrappers

/-! The JSON object of a log, built from its SQL values: the entries of the ABI say how many of the
values a tuple takes. -/

namespace Rindexer.SqlTypes

open Rindexer.Extraction (JsonMap hexEncode hexText)
open Rindexer.Filter (JsonValue)
open Rindexer.Manifest (ABIInput)
open Rindexer.Tables (Panic)

mutual

def countComponents : List ABIInput → Except Panic Nat
  | [] => .ok 0
  | component :: components => do
    let first ← countComponent component
    return first + (← countComponents components)

def countComponent : ABIInput → Except Panic Nat
  | .mk _ type _ components =>
    if type = "tuple".toList then
      match components with
      | some nested => (countComponents nested).map fun count => 1 + count
      | none => .error ⟨⟩
    else .ok 1

end

def jsonInt (n : Int) : JsonValue :=
  if 0 ≤ n then .number (.posInt (Fin.ofNat _ n.toNat)) else .number (.negInt (Fin.ofNat _ (-n - 1).toNat))

/-- Integers of more than 64 bits are texts. -/
def intToJson : IntWrapper → Int → JsonValue
  | .u128, n | .i128, n | .u256, n | .i256, n => .string (toString n).toList
  | _, n => jsonInt n

def EthereumSqlTypeWrapper.toJson : EthereumSqlTypeWrapper → JsonValue
  | bool b => .bool b
  | vecBool bs => .array (bs.map .bool)
  | int kind n => intToJson kind n
  | vecInt kind ns => .array (ns.map (intToJson kind))
  | address a => .string (hexText a)
  | vecAddress addresses => .array (addresses.map fun a => .string (hexText a))
  | string s => .string s
  | vecString ss => .array (ss.map .string)
  | bytes b => .string (hexEncode b)
  | vecBytes bs => .array (bs.map fun b => .string (hexEncode b))
  | jsonb value => value

/-- The loop over the entries: the object so far, the index of the next value, and the indices of those
that were taken. -/
structure JsonState where
  result : JsonMap := ∅
  current : Nat := 0
  processed : List Nat := []

mutual

def jsonFields (wrappers : List EthereumSqlTypeWrapper) :
    JsonState → List ABIInput → Except Panic JsonState
  | state, [] => .ok state
  | state, abiInput :: abiInputs =>
    if state.current ∈ state.processed then jsonFields wrappers state abiInputs
    else do
      let next ← jsonField wrappers state abiInput
      jsonFields wrappers next abiInputs

def jsonField (wrappers : List EthereumSqlTypeWrapper) (state : JsonState) :
    ABIInput → Except Panic JsonState
  | .mk name type _ components =>
    match wrappers[state.current]? with
    | none => .error ⟨⟩
    | some wrapper =>
      if type = "tuple".toList then
        match components with
        | none => .error ⟨⟩
        | some components => do
          let total ← countComponents components
          -- a slice past the end panics
          if state.current + total ≤ wrappers.length then
            let inner ← jsonFields ((wrappers.drop state.current).take total) {} components
            return {
              result := state.result.insert name (.object inner.result.entries)
              current := state.current + total
              processed := state.processed ++ (List.range total).map (state.current + ·) }
          else .error ⟨⟩
      else .ok {
        result := state.result.insert name wrapper.toJson
        current := state.current + 1
        processed := state.processed ++ [state.current] }

end

def mapEthereumWrapperToJson (abiInputs : List ABIInput) (wrappers : List EthereumSqlTypeWrapper)
    (transactionInformation : JsonValue) (isWithinTuple : Bool) : Except Panic JsonMap :=
  (jsonFields wrappers {} abiInputs).map fun state =>
    if isWithinTuple then state.result
    else state.result.insert "transaction_information".toList transactionInformation

theorem jsonField_leaf {wrappers : List EthereumSqlTypeWrapper} {state : JsonState} {input : ABIInput}
    {wrapper : EthereumSqlTypeWrapper} (hLeaf : input.type ≠ "tuple".toList)
    (hWrapper : wrappers[state.current]? = some wrapper) :
    jsonField wrappers state input = .ok ⟨state.result.insert input.name wrapper.toJson,
      state.current + 1, state.processed ++ [state.current]⟩ := by
  obtain ⟨name, type, indexed, components⟩ := input
  rw [jsonField.eq_def]
  simp only [hWrapper]
  exact if_neg hLeaf

theorem jsonField_tuple {wrappers : List EthereumSqlTypeWrapper} {state : JsonState} {name : List Char}
    {indexed : Option Bool} {components : List ABIInput} {total : Nat}
    (hSome : state.current < wrappers.length) (hTotal : countComponents components = .ok total) :
    jsonField wrappers state (.mk name "tuple".toList indexed (some components)) =
      if state.current + total ≤ wrappers.length then
        (jsonFields ((wrappers.drop state.current).take total) {} components).map fun inner =>
          ⟨state.result.insert name (.object inner.result.entries), state.current + total,
            state.processed ++ (List.range total).map (state.current + ·)⟩
      else .error ⟨⟩ := by
  rw [jsonField.eq_def]
  simp only [List.getElem?_eq_getElem hSome, if_true, hTotal]
  change (if state.current + total ≤ wrappers.length then _ else _) = _
  split
  · cases jsonFields ((wrappers.drop state.current).take total) {} components <;> rfl
  · rfl

/-! ### What is rendered -/

mutual

/-- The JSON of a value: an object of its fields for a tuple, else what its SQL value is written as. -/
inductive Renders : ABIInput → DynSolValue → JsonValue → Prop
  | tuple {name : List Char} {indexed : Option Bool} {components : List ABIInput}
      {items : List DynSolValue} {map : JsonMap} :
      map.keys.Perm (components.map ABIInput.name) → RendersAll components items map →
      Renders (.mk name "tuple".toList indexed (some components)) (.tuple items) (.object map.entries)
  | leaf {input : ABIInput} {value : DynSolValue} {wrapper : EthereumSqlTypeWrapper} :
      input.type ≠ "tuple".toList → mapLogTokenToEthereumWrapper input value = .ok [wrapper] →
      Renders input value wrapper.toJson

/-- Every field has its JSON at its name. -/
inductive RendersAll : List ABIInput → List DynSolValue → JsonMap → Prop
  | nil {map : JsonMap} : RendersAll [] [] map
  | cons {input : ABIInput} {inputs : List ABIInput} {value : DynSolValue} {items : List DynSolValue}
      {map : JsonMap} {json : JsonValue} :
      map.get? input.name = some json → Renders input value json → RendersAll inputs items map →
      RendersAll (input :: inputs) (value :: items) map

end

end Rindexer.SqlTypes
