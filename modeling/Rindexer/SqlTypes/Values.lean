import Rindexer.Extraction.Values
import Rindexer.Manifest.Contract

/-! The types of event parameters, how an ABI writes them, and the values a log decodes to.  A tuple
whose internal type is a struct decodes to a value of its own kind, and an indexed parameter that does
not fit a topic decodes to the topic, which is a hash. -/

namespace Rindexer.SqlTypes

open Rindexer.Filter (U256)
open Rindexer.Manifest (ABIInput)

inductive DynSolValue
  | bool (b : Bool)
  | int (n : Int) (bits : Nat)
  | uint (n : U256) (bits : Nat)
  | fixedBytes (word : List UInt8) (size : Nat)
  | address (a : List UInt8)
  | function (f : List UInt8)
  | bytes (b : List UInt8)
  | string (s : List Char)
  | array (items : List DynSolValue)
  | fixedArray (items : List DynSolValue)
  | tuple (items : List DynSolValue)
  | customStruct (items : List DynSolValue)

structure LogParam where
  name : List Char
  value : DynSolValue

/-! ### Types -/

/-- A type of Solidity; a tuple has its fields by name, and is a struct if its internal type says so. -/
inductive SolType
  | address
  | bool
  | string
  | bytes
  | fixedBytes (size : Nat)
  | int (bits : Nat)
  | uint (bits : Nat)
  | function
  | array (item : SolType)
  | fixedArray (item : SolType) (length : Nat)
  | tuple (isStruct : Bool) (fields : List (List Char × SolType))

/-- The brackets of an array of this length. -/
def lengthBrackets (length : Nat) : List Char := '[' :: (toString length).toList ++ [']']

namespace SolType

/-- The name of a type in an ABI, where the fields of a tuple stand apart; an array has no name. -/
def nameText : SolType → List Char
  | address => "address".toList
  | bool => "bool".toList
  | string => "string".toList
  | bytes => "bytes".toList
  | fixedBytes size => "bytes".toList ++ (toString size).toList
  | int bits => "int".toList ++ (toString bits).toList
  | uint bits => "uint".toList ++ (toString bits).toList
  | function => ['f', 'u', 'n', 'c', 't', 'i', 'o', 'n']
  | tuple _ _ => "tuple".toList
  | array _ | fixedArray _ _ => []

/-- The type in an ABI. -/
def text : SolType → List Char
  | array item => item.text ++ ['[', ']']
  | fixedArray item length => item.text ++ lengthBrackets length
  | type => type.nameText

mutual

/-- The components that an ABI gives with the type. -/
def components : SolType → Option (List ABIInput)
  | array item => item.components
  | fixedArray item _ => item.components
  | tuple _ fields => some (fieldInputs fields)
  | _ => none

def fieldInputs : List (List Char × SolType) → List ABIInput
  | [] => []
  | (name, type) :: fields => .mk name type.text none type.components :: fieldInputs fields

end

/-- The entry of an ABI for a parameter or a field. -/
def input (name : List Char) (indexed : Option Bool) (type : SolType) : ABIInput :=
  .mk name type.text indexed type.components

theorem fieldInputs_eq (fields : List (List Char × SolType)) :
    fieldInputs fields = fields.map fun field => field.2.input field.1 none := by
  induction fields with
  | nil => rfl
  | cons field fields ih => rw [fieldInputs, ih]; rfl

mutual

/-- The widths and lengths that Solidity has; no tuple is empty. -/
def WellFormed : SolType → Prop
  | fixedBytes size => 1 ≤ size ∧ size ≤ 32
  | int bits | uint bits => bits % 8 = 0 ∧ 8 ≤ bits ∧ bits ≤ 256
  | array item => item.WellFormed
  | fixedArray item length => item.WellFormed ∧ 1 ≤ length
  | tuple _ fields => fields ≠ [] ∧ FieldsWellFormed fields
  | _ => True

def FieldsWellFormed : List (List Char × SolType) → Prop
  | [] => True
  | (_, type) :: fields => type.WellFormed ∧ FieldsWellFormed fields

end

mutual

/-- The values of a type. -/
def Holds : SolType → DynSolValue → Prop
  | address, .address a => a.length = 20
  | bool, .bool _ => True
  | string, .string _ => True
  | bytes, .bytes _ => True
  | fixedBytes size, .fixedBytes word size' => size' = size ∧ word.length = 32
  | int bits, .int n bits' => bits' = bits ∧ -2 ^ (bits - 1) ≤ n ∧ n < 2 ^ (bits - 1)
  | uint bits, .uint n bits' => bits' = bits ∧ n.val < 2 ^ bits
  | function, .function f => f.length = 24
  | array item, .array items => ∀ value ∈ items, item.Holds value
  | fixedArray item length, .fixedArray items =>
    items.length = length ∧ ∀ value ∈ items, item.Holds value
  | tuple false fields, .tuple items => FieldsHold fields items
  | tuple true fields, .customStruct items => FieldsHold fields items
  | _, _ => False

def FieldsHold : List (List Char × SolType) → List DynSolValue → Prop
  | [], [] => True
  | (_, type) :: fields, value :: items => type.Holds value ∧ FieldsHold fields items
  | _, _ => False

end

/-- The type fits a topic. -/
def IsValue : SolType → Bool
  | address | bool | fixedBytes _ | int _ | uint _ | function => true
  | _ => false

end SolType

/-! ### Events -/

structure EventParam where
  name : List Char
  type : SolType
  indexed : Bool

namespace EventParam

def input (param : EventParam) : ABIInput := param.type.input param.name (some param.indexed)

/-- A topic holds only a hash of it. -/
def IsHashed (param : EventParam) : Prop := param.indexed = true ∧ param.type.IsValue = false

instance (param : EventParam) : Decidable param.IsHashed := by
  unfold IsHashed
  infer_instance

/-- What a log of the event has for the parameter. -/
def Decodes (param : EventParam) (value : DynSolValue) : Prop :=
  if param.IsHashed then
    ∃ topic, value = .fixedBytes topic 32 ∧ topic.length = 32
  else param.type.Holds value

end EventParam

/-- The parameters of a log of an event, as its ABI decodes them. -/
def DecodedLog (params : List EventParam) (logParams : List LogParam) : Prop :=
  List.Forall₂ (fun param logParam => logParam.name = param.name ∧ param.Decodes logParam.value)
    params logParams

end Rindexer.SqlTypes
