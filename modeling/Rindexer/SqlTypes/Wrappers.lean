import Rindexer.Database.EventTables
import Rindexer.SqlTypes.Values

/-! The SQL values of event parameters: the kind that a type asks for, the conversion of integers to
it, and the values of a decoded parameter, where tuples are flattened and arrays of tuples are JSON. -/

namespace Rindexer.SqlTypes

open Rindexer.Database (parseSolidityIntegerType trimBrackets)
open Rindexer.Extraction (JsonMap hexEncode hexText)
open Rindexer.Filter (U256 JsonValue)
open Rindexer.Manifest (ABIInput)
open Rindexer.Tables (Panic)

/-- The kinds of integers. -/
inductive IntWrapper
  | u8 | i8 | u16 | i16 | u32 | i32 | u64 | i64 | u128 | i128 | u256 | i256
deriving DecidableEq, Repr

/-- The values that parameters become, with one case for the integers of all kinds and one for their
arrays. -/
inductive EthereumSqlTypeWrapper
  | bool (b : Bool)
  | vecBool (bs : List Bool)
  | int (kind : IntWrapper) (n : Int)
  | vecInt (kind : IntWrapper) (ns : List Int)
  | address (a : List UInt8)
  | vecAddress (addresses : List (List UInt8))
  | string (s : List Char)
  | vecString (ss : List (List Char))
  | bytes (b : List UInt8)
  | vecBytes (bs : List (List UInt8))
  | jsonb (value : JsonValue)

/-! ### The kind of a type -/

def intWrapper (size : Nat) (isSigned : Bool) : Option IntWrapper :=
  if size = 8 then some (if isSigned then .i8 else .u8)
  else if size = 16 then some (if isSigned then .i16 else .u16)
  else if size ∈ [24, 32] then some (if isSigned then .i32 else .u32)
  else if size ∈ [40, 48, 56, 64] then some (if isSigned then .i64 else .u64)
  else if size ∈ [72, 80, 88, 96, 104, 112, 120, 128] then some (if isSigned then .i128 else .u128)
  else if size ∈ [136, 144, 152, 160, 168, 176, 184, 192, 200, 208, 216, 224, 232, 240, 248, 256] then
    some (if isSigned then .i256 else .u256)
  else none

/-- The empty value of the kind for a type; a panic where the width of an integer is not a number. -/
def solidityTypeToEthereumSqlTypeWrapper (abiType : List Char) :
    Except Panic (Option EthereumSqlTypeWrapper) :=
  let isArray := "[]".toList.isSuffixOf abiType
  let baseType := (trimBrackets abiType.reverse).reverse
  if baseType = "string".toList then .ok (some (if isArray then .vecString [] else .string []))
  else if baseType = "address".toList then
    .ok (some (if isArray then .vecAddress [] else .address (List.replicate 20 0)))
  else if baseType = "bool".toList then .ok (some (if isArray then .vecBool [] else .bool false))
  else if "bytes".toList.isPrefixOf baseType then
    .ok (some (if isArray then .vecBytes [] else .bytes []))
  else if "int".toList.isPrefixOf baseType || "uint".toList.isPrefixOf baseType then
    match parseSolidityIntegerType baseType with
    | none => .error ⟨⟩
    | some size =>
      .ok ((intWrapper size ("int".toList.isPrefixOf baseType)).map fun kind =>
        if isArray then .vecInt kind [] else .int kind 0)
  else .ok none

/-- `unwrap_or_else` with a panic. -/
def unwrapOrPanic {α : Type} (value : Except Panic (Option α)) : Except Panic α :=
  match value with
  | .ok (some a) => .ok a
  | _ => .error ⟨⟩

/-- The kind of an integer in a wrapper or in its elements. -/
def EthereumSqlTypeWrapper.intKind? : EthereumSqlTypeWrapper → Option IntWrapper
  | int kind _ => some kind
  | vecInt kind _ => some kind
  | _ => none

/-! ### Integers -/

/-- The low `bits` bits, as an unsigned number. -/
def lowBits (bits : Nat) (n : Int) : Int := n % 2 ^ bits

/-- The low `bits` bits, as a signed number. -/
def lowSigned (bits : Nat) (n : Int) : Int := n.bmod (2 ^ bits)

/-- `as_u64`, which panics outside its range. -/
def asU64 (n : Int) : Except Panic Int := if 0 ≤ n ∧ n < 2 ^ 64 then .ok n else .error ⟨⟩

/-- `to::<u32>()`, which panics if the number does not fit. -/
def lowU32 (n : U256) : Except Panic Int := if n.val < 2 ^ 32 then .ok n.val else .error ⟨⟩

def convertInt (value : Int) : IntWrapper → Except Panic EthereumSqlTypeWrapper
  | .i256 => .ok (.int .i256 value)
  | .u128 => .ok (.int .u128 (lowBits 128 value))
  | .i128 => .ok (.int .i128 (lowSigned 128 value))
  | .u64 => (asU64 value).map (.int .u64)
  | .i64 => (asU64 value).map fun n => .int .i64 (lowSigned 64 n)
  | .u32 => .ok (.int .u32 (lowBits 32 value))
  | .i32 => .ok (.int .i32 (lowSigned 32 value))
  | .u16 => .ok (.int .u16 (lowBits 16 value))
  | .i16 => .ok (.int .i16 (lowSigned 16 value))
  | .u8 => .ok (.int .u8 (lowBits 8 value))
  | .i8 => .ok (.int .i8 (lowSigned 8 value))
  -- there is no case for it
  | .u256 => .error ⟨⟩

def convertUint (value : U256) : IntWrapper → Except Panic EthereumSqlTypeWrapper
  | .u256 => .ok (.int .u256 value.val)
  | .i256 => .ok (.int .i256 (lowSigned 256 value.val))
  | .u128 => .ok (.int .u128 (lowBits 128 value.val))
  | .i128 => .ok (.int .i128 (lowSigned 128 value.val))
  | .u64 => (asU64 value.val).map (.int .u64)
  | .i64 => (asU64 value.val).map fun n => .int .i64 (lowSigned 64 n)
  | .u32 => (lowU32 value).map (.int .u32)
  | .i32 => (lowU32 value).map fun n => .int .i32 (lowSigned 32 n)
  | .u16 => (lowU32 value).map fun n => .int .u16 (lowBits 16 n)
  | .i16 => (lowU32 value).map fun n => .int .i16 (lowSigned 16 n)
  | .u8 => (lowU32 value).map fun n => .int .u8 (lowBits 8 n)
  | .i8 => (lowU32 value).map fun n => .int .i8 (lowSigned 8 n)

/-- The kind of integers that the type of an entry asks for. -/
def targetKind (abiInput : ABIInput) : Except Panic IntWrapper :=
  (unwrapOrPanic (solidityTypeToEthereumSqlTypeWrapper abiInput.type)).bind fun target =>
    match target.intKind? with
    | some kind => .ok kind
    | none => .error ⟨⟩

def mapDynamicIntToEthereumSqlTypeWrapper (abiInput : ABIInput) (value : Int) :
    Except Panic EthereumSqlTypeWrapper :=
  (targetKind abiInput).bind (convertInt value)

def mapDynamicUintToEthereumSqlTypeWrapper (abiInput : ABIInput) (value : U256) :
    Except Panic EthereumSqlTypeWrapper :=
  (targetKind abiInput).bind (convertUint value)

/-! ### Tuples in arrays -/

mutual

/-- The fields of a tuple, entered one after another. -/
def tupleFields (map : JsonMap) : List ABIInput → List DynSolValue → JsonMap
  | component :: components, value :: values =>
    tupleFields (map.insert component.name (fieldToJson component value)) components values
  | _, _ => map

def fieldToJson (component : ABIInput) : DynSolValue → JsonValue
  | .string s => .string s
  | .uint n _ => .string (toString n.val).toList
  | .int n _ => .string (toString n).toList
  | .bool b => .bool b
  | .address a => .string (hexText a)
  | .bytes b => .string (hexText b)
  | .fixedBytes word _ => .string (hexText word)
  | .tuple nested =>
    match component.components with
    | some components => .object (tupleFields ∅ components nested).entries
    | none => .null
  | .array items | .fixedArray items => .array (itemsToJson component items)
  -- a struct of its own is not among the cases
  | .customStruct _ | .function _ => .null

def itemsToJson (component : ABIInput) : List DynSolValue → List JsonValue
  | [] => []
  | value :: values => itemToJson component value :: itemsToJson component values

def itemToJson (component : ABIInput) : DynSolValue → JsonValue
  | .string s => .string s
  | .uint n _ => .string (toString n.val).toList
  | .int n _ => .string (toString n).toList
  | .bool b => .bool b
  | .address a => .string (hexText a)
  | .bytes b => .string (hexText b)
  | .fixedBytes word _ => .string (hexText word)
  | .tuple nested | .customStruct nested =>
    match component.components with
    | some components => .object (tupleFields ∅ components nested).entries
    | none => .null
  | .array _ | .fixedArray _ | .function _ => .null

end

/-- `tuple_to_json_value`. -/
def tupleToJsonValue (components : List ABIInput) (values : List DynSolValue) : JsonValue :=
  .object (tupleFields ∅ components values).entries

/-! ### Arrays -/

def DynSolValue.asAddress : DynSolValue → Option (List UInt8)
  | address a => some a
  | _ => none

def DynSolValue.asFixedBytes : DynSolValue → Option (List UInt8)
  | fixedBytes word _ => some word
  | _ => none

def DynSolValue.asBool : DynSolValue → Option Bool
  | bool b => some b
  | _ => none

def DynSolValue.asString : DynSolValue → Option (List Char)
  | string s => some s
  | _ => none

def DynSolValue.asTuple : DynSolValue → Option (List DynSolValue)
  | tuple items => some items
  | customStruct items => some items
  | _ => none

/-- An integer of an array, with `unreachable!` where the conversion gives another kind. -/
def convertElement (kind : IntWrapper) (token : DynSolValue) : Except Panic Int :=
  let converted := match token with
    | .uint n _ => convertUint n kind
    | .int n _ => convertInt n kind
    | _ => .error ⟨⟩
  converted.bind fun wrapper =>
    match wrapper with
    | .int kind' n => if kind' = kind then .ok n else .error ⟨⟩
    | _ => .error ⟨⟩

mutual

/-- The empty values for the components of an array that has none. -/
def tupleSolidityTypeToEthereumSqlTypeWrapper :
    List ABIInput → Except Panic (Option (List EthereumSqlTypeWrapper))
  | [] => .ok (some [])
  | abiInput :: abiInputs => do
    let first ← componentWrappers abiInput
    match first with
    | none => return none
    | some first => return (← tupleSolidityTypeToEthereumSqlTypeWrapper abiInputs).map (first ++ ·)

def componentWrappers : ABIInput → Except Panic (Option (List EthereumSqlTypeWrapper))
  | .mk _ _ _ (some components) => tupleSolidityTypeToEthereumSqlTypeWrapper components
  | .mk _ type _ none => (solidityTypeToEthereumSqlTypeWrapper type).map fun wrapper => wrapper.map ([·])

end

def mapArray (abiInput : ABIInput) (tokens : List DynSolValue) :
    Except Panic (List EthereumSqlTypeWrapper) :=
  match tokens with
  | [] =>
    if "tuple[".toList.isPrefixOf abiInput.type then .ok [.jsonb (.array [])]
    else
      match abiInput.components with
      | some components => unwrapOrPanic (tupleSolidityTypeToEthereumSqlTypeWrapper components)
      | none => (unwrapOrPanic (solidityTypeToEthereumSqlTypeWrapper abiInput.type)).map ([·])
  -- the kind of the elements is that of the first one
  | first :: _ =>
    match first with
    | .address _ => .ok [.vecAddress (tokens.filterMap DynSolValue.asAddress)]
    | .fixedBytes _ _ | .bytes _ => .ok [.vecBytes (tokens.filterMap DynSolValue.asFixedBytes)]
    | .int _ _ | .uint _ _ =>
      (targetKind abiInput).bind fun kind =>
        (tokens.mapM (convertElement kind)).map fun ns => [.vecInt kind ns]
    | .bool _ => .ok [.vecBool (tokens.filterMap DynSolValue.asBool)]
    | .string _ => .ok [.vecString (tokens.filterMap DynSolValue.asString)]
    | .tuple _ | .customStruct _ =>
      match abiInput.components with
      | some components =>
        .ok [.jsonb (.array ((tokens.filterMap DynSolValue.asTuple).map (tupleToJsonValue components)))]
      | none => .error ⟨⟩
    | .array _ | .fixedArray _ | .function _ => .error ⟨⟩

/-! ### Parameters -/

mutual

def mapLogTokenToEthereumWrapper (abiInput : ABIInput) :
    DynSolValue → Except Panic (List EthereumSqlTypeWrapper)
  | .address a => .ok [.address a]
  | .int n _ => (mapDynamicIntToEthereumSqlTypeWrapper abiInput n).map ([·])
  | .uint n _ => (mapDynamicUintToEthereumSqlTypeWrapper abiInput n).map ([·])
  | .bool b => .ok [.bool b]
  | .string s => .ok [.string s]
  | .fixedBytes word _ =>
    -- an indexed string is the hash of its topic
    if abiInput.type = "string".toList then .ok [.string (hexText word)] else .ok [.bytes word]
  | .bytes b => .ok [.bytes b]
  | .fixedArray tokens | .array tokens => mapArray abiInput tokens
  | .tuple tokens =>
    match abiInput.components with
    | some components => processTuple components tokens
    | none => .error ⟨⟩
  | .customStruct _ | .function _ => .error ⟨⟩

def processTuple : List ABIInput → List DynSolValue → Except Panic (List EthereumSqlTypeWrapper)
  | _, [] => .ok []
  | [], _ :: _ => .error ⟨⟩
  | abiInput :: abiInputs, token :: tokens => do
    let wrappers ← mapLogTokenToEthereumWrapper abiInput token
    return wrappers ++ (← processTuple abiInputs tokens)

end

def mapLogParamsToEthereumWrapper (abiInputs : List ABIInput) (params : List LogParam) :
    Except Panic (List EthereumSqlTypeWrapper) :=
  processTuple abiInputs (params.map LogParam.value)

end Rindexer.SqlTypes
