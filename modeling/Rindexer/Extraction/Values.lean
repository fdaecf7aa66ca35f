import Mathlib.Data.Char
import Mathlib.Data.List.Lex
import Rindexer.Factory.Recording
import Rindexer.Lib.OrderedMap
import Rindexer.Tables.CallText

/-! The decoded parameters of an event: the fields that a path names, the texts of values, and the
JSON that conditions read. -/

namespace Rindexer.Extraction

open Rindexer.Lib
open Rindexer.Filter hiding parseUsize
open Rindexer.Factory (Param)
open Rindexer.Tables (Panic parseUsize)

inductive DynSolValue
  | bool (b : Bool)
  | int (n : Int) (bits : Nat)
  | uint (n : U256) (bits : Nat)
  | fixedBytes (word : List UInt8) (size : Nat)
  | address (a : List UInt8)
  | function (f : List UInt8)
  | bytes (b : List UInt8)
  | string (s : List Char)
  | array (items : List DynSolValue)
  | fixedArray (items : List DynSolValue)
  | tuple (items : List DynSolValue)

def DynSolValue.asFixedSeq : DynSolValue → Option (List DynSolValue)
  | fixedArray items => some items
  | tuple items => some items
  | _ => none

structure LogParam where
  name : List Char
  value : DynSolValue
  components : List Param

structure TxMetadata where
  blockNumber : Fin (2 ^ 64)
  blockTimestamp : Option U256
  txHash : List UInt8
  blockHash : List UInt8
  contractAddress : List UInt8
  logIndex : U256
  txIndex : Fin (2 ^ 64)

def findParam (name : List Char) (logParams : List LogParam) : Option LogParam :=
  logParams.find? fun p => p.name = name

/-- The component of a name, and its position. -/
def findComponent (name : List Char) (components : List Param) : Option (Param × Nat) :=
  components.zipIdx.find? fun c => c.1.name = name

/-! ### Paths -/

/-- The scanner of paths: the segments so far, the current one, and whether it is an index. -/
structure PathScan where
  segments : List (List Char)
  current : List Char
  inIndex : Bool

namespace PathScan

/-- Ends the current segment, if it has a character. -/
def close (scan : PathScan) : PathScan :=
  if scan.current = [] then scan else ⟨scan.segments ++ [scan.current], [], scan.inIndex⟩

def step (scan : PathScan) (c : Char) : PathScan :=
  if scan.inIndex then
    if c = ']' then ⟨scan.segments ++ [scan.current ++ [c]], [], false⟩
    else ⟨scan.segments, scan.current ++ [c], true⟩
  else if c = '[' then ⟨scan.close.segments, ['['], true⟩
  else if c = '.' ∧ ∃ s ∈ scan.segments, s.head? = some '[' then scan.close
  else ⟨scan.segments, scan.current ++ [c], false⟩

end PathScan

/-- The segments of a path.  In front of the first index, names stay together with their dots. -/
def parsePathSegments (path : List Char) : List (List Char) :=
  (path.foldl PathScan.step ⟨[], [], false⟩).close.segments

/-- A value with the components that its type has in the ABI. -/
abbrev Located := DynSolValue × List Param

/-- A name in front of the first index. -/
def descend (current : Located) (part : List Char) : Option Located := do
  let (nested, idx) ← findComponent part current.2
  let value ← (← current.1.asFixedSeq)[idx]?
  return (value, nested.components)

def rootValue (firstSegment : List Char) (logParams : List LogParam) : Option Located :=
  match firstSegment.splitOn '.' with
  | [] => none
  | root :: rest => do
    let param ← findParam root logParams
    rest.foldlM descend (param.value, param.components)

/-- An element of an array, whose components are those of the array. -/
def indexValue (current : Located) (index : Nat) : Option Located :=
  match current.1 with
  | .array items | .fixedArray items => items[index]?.map fun value => (value, current.2)
  | _ => none

def tupleItem (value : DynSolValue) (idx : Nat) : Option DynSolValue :=
  match value with
  | .tuple items => items[idx]?
  | _ => none

/-- A name behind an index: a position in a tuple, or the name of a component. -/
def nameValue (current : Located) (segment : List Char) : Option Located :=
  match parseUsize segment with
  | some idx => do
    let value ← tupleItem current.1 idx
    return (value, (current.2[idx]?.map Param.components).getD [])
  | none => do
    let (nested, idx) ← findComponent segment current.2
    let value ← tupleItem current.1 idx
    return (value, nested.components)

def applySegment (current : Located) (segment : List Char) : Option Located :=
  if segment.head? = some '[' ∧ segment.getLast? = some ']' then do
    indexValue current (← parseUsize segment.tail.dropLast)
  else nameValue current segment

def resolveFieldPath (fieldPath : List Char) (logParams : List LogParam) : Option DynSolValue :=
  match parsePathSegments fieldPath with
  | [] => none
  | firstSegment :: segments =>
    if firstSegment.head? = some '[' then none
    else do
      let start ← rootValue firstSegment logParams
      let (value, _) ← segments.foldlM applySegment start
      return value

/-! ### Texts of values -/

def hexDigit (n : Nat) : Char := if n < 10 then Char.ofNat (48 + n) else Char.ofNat (87 + n)

def hexEncode (bytes : List UInt8) : List Char :=
  bytes.flatMap fun b => [hexDigit (b.toNat / 16), hexDigit (b.toNat % 16)]

def hexText (bytes : List UInt8) : List Char := '0' :: 'x' :: hexEncode bytes

/-- What the libraries decide: the readers of texts, which seconds are a date, the debug texts, and
which characters are letters or digits, where those of ASCII are fixed. -/
structure Library where
  readers : Readers
  addressFromStr : List Char → Option (List UInt8)
  bytesFromStr : List Char → Option (List UInt8)
  b256FromStr : List Char → Option (List UInt8)
  dateTimeFromStr : List Char → Option (Int × Nat)
  isTimestamp : Int → Bool
  debug : DynSolValue → List Char
  debugStrings : List (List Char) → List Char
  isAlphanumeric : Char → Bool
  isAlphanumeric_ascii : ∀ c, c.toNat < 128 → isAlphanumeric c = c.isAlphanum

section Texts

variable (lib : Library)

def dynSolValueToString : DynSolValue → List Char
  | .address a => hexText a
  | .uint n _ => (toString n.val).toList
  | .int n _ => (toString n).toList
  | .bool b => boolText b
  | .string s => s
  | .bytes b => hexText b
  | .fixedBytes word _ => hexText word
  | value => lib.debug value

def resolveFieldToString (fieldName : List Char) (logParams : List LogParam) (m : TxMetadata) :
    Option (List Char) :=
  if fieldName = "rindexer_block_number".toList then some (toString m.blockNumber.val).toList
  else if fieldName = "rindexer_block_timestamp".toList then
    m.blockTimestamp.map fun ts => (toString ts.val).toList
  else if fieldName = "rindexer_tx_hash".toList then some (hexText m.txHash)
  else if fieldName = "rindexer_block_hash".toList then some (hexText m.blockHash)
  else if fieldName = "rindexer_contract_address".toList then some (hexText m.contractAddress)
  else if fieldName = "rindexer_log_index".toList then some (toString m.logIndex.val).toList
  else if fieldName = "rindexer_tx_index".toList then some (toString m.txIndex.val).toList
  else (resolveFieldPath fieldName logParams).map (dynSolValueToString lib)

/-! ### JSON -/

/-- The entries of an object, in the order of their keys. -/
abbrev JsonMap := OrderedMap (List Char) JsonValue

def jsonNumber (n : U256) : JsonValue :=
  if h : n.val < 2 ^ 64 then .number (.posInt ⟨n.val, h⟩) else .string (toString n.val).toList

mutual

def dynSolValueToJson : DynSolValue → JsonValue
  | .address a => .string (hexText a)
  | .uint n _ => jsonNumber n
  | .int n _ => .string (toString n).toList
  | .bool b => .bool b
  | .string s => .string s
  | .bytes b => .string (hexText b)
  | .fixedBytes word _ => .string (hexText word)
  | .tuple items => .object (tupleEntries 0 items).entries
  | .array items => .array (itemsToJson items)
  | .fixedArray items => .string (lib.debug (.fixedArray items))
  | .function f => .string (lib.debug (.function f))

def itemsToJson : List DynSolValue → List JsonValue
  | [] => []
  | value :: items => dynSolValueToJson value :: itemsToJson items

/-- The items of a tuple by their positions, from one on. -/
def tupleEntries (i : Nat) : List DynSolValue → JsonMap
  | [] => ∅
  | value :: items => (tupleEntries (i + 1) items).insert (toString i).toList (dynSolValueToJson value)

end

def logParamsMap (logParams : List LogParam) : JsonMap :=
  (∅ : JsonMap).insertAll (logParams.map fun p => (p.name, dynSolValueToJson lib p.value))

def logParamsToJson (logParams : List LogParam) : JsonValue :=
  .object (logParamsMap lib logParams).entries

end Texts

end Rindexer.Extraction
