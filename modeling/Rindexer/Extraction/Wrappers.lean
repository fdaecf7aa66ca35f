import Rindexer.Extraction.Values
import Rindexer.Manifest

/-! The values for columns: what a decoded value or a literal becomes in a column of a type.  A
conversion to an integer that does not fit panics. -/

namespace Rindexer.Extraction

open Rindexer.Filter (U256 i256FromRaw)
open Rindexer.Manifest (ColumnType)
open Rindexer.Tables (Panic)

inductive EthereumSqlTypeWrapper
  | null
  | bool (b : Bool)
  | u8 (n : Nat)
  | u16 (n : Nat)
  | u32 (n : Nat)
  | u64BigInt (n : Nat)
  | u256Numeric (n : U256)
  | i8 (n : Int)
  | i16 (n : Int)
  | i32 (n : Int)
  | i64 (n : Int)
  | i256Numeric (n : Int)
  | address (a : List UInt8)
  | vecAddress (addresses : List (List UInt8))
  | bytes (b : List UInt8)
  | b256 (b : List UInt8)
  | string (s : List Char)
  | stringChar (s : List Char)
  | dateTime (seconds : Int) (nanos : Nat)
deriving DecidableEq

/-- `to`, which panics where the number does not fit. -/
def narrow (bits n : Nat) : Except Panic Nat := if n < 2 ^ bits then .ok n else .error ⟨⟩

/-- The low bits of a number, as a signed one. -/
def asSigned (bits : Nat) (n : Int) : Int := n.bmod (2 ^ bits)

def lowBytes (n : U256) : List UInt8 :=
  (List.range 20).map fun i => UInt8.ofNat (n.val / 256 ^ (19 - i))

section Conversions

variable (lib : Library)

def uintToWrapper (n : U256) : ColumnType → Except Panic EthereumSqlTypeWrapper
  | .uint64 => (narrow 64 n.val).map .u64BigInt
  | .bool => .ok (.bool (n != 0))
  | .timestamp => do
    let seconds ← narrow 63 n.val
    return if lib.isTimestamp seconds then .dateTime seconds 0 else .u256Numeric n
  | .uint8 => (narrow 8 n.val).map .u8
  | .uint16 => (narrow 16 n.val).map .u16
  | .uint32 => (narrow 32 n.val).map .u32
  | .int256 | .int128 => .ok (.i256Numeric (i256FromRaw n))
  | .int64 => .ok (.i64 (asSigned 64 (i256FromRaw n)))
  | .int32 => .ok (.i32 (asSigned 32 (i256FromRaw n)))
  | .int16 => .ok (.i16 (asSigned 16 (i256FromRaw n)))
  | .int8 => .ok (.i8 (asSigned 8 (i256FromRaw n)))
  | .address => .ok (.address (lowBytes n))
  | .string => .ok (.string (toString n.val).toList)
  | _ => .ok (.u256Numeric n)

def intToWrapper (n : Int) : ColumnType → EthereumSqlTypeWrapper
  | .int8 => .i8 (asSigned 8 n)
  | .int16 => .i16 (asSigned 16 n)
  | .int32 => .i32 (asSigned 32 n)
  | .int64 => .i64 (asSigned 64 n)
  | .string => .string (toString n).toList
  | _ => .i256Numeric n

def boolToWrapper (b : Bool) : ColumnType → EthereumSqlTypeWrapper
  | .uint256 | .uint128 => .u256Numeric (if b then 1 else 0)
  | .uint64 => .u64BigInt b.toNat
  | .uint32 => .u32 b.toNat
  | .uint16 => .u16 b.toNat
  | .uint8 => .u8 b.toNat
  | .int256 | .int128 => .i256Numeric b.toInt
  | .int64 => .i64 b.toInt
  | .int32 => .i32 b.toInt
  | .int16 => .i16 b.toInt
  | .int8 => .i8 b.toInt
  | _ => .bool b

def DynSolValue.asAddress : DynSolValue → Option (List UInt8)
  | address a => some a
  | _ => none

def arrayToWrapper (items : List DynSolValue) : ColumnType → EthereumSqlTypeWrapper
  | .array inner =>
    if inner = .address then .vecAddress (items.filterMap DynSolValue.asAddress)
    else .string (lib.debugStrings (items.map lib.debug))
  | _ => .string (lib.debug (.array items))

def dynSolValueToWrapper (value : DynSolValue) (columnType : ColumnType) :
    Except Panic EthereumSqlTypeWrapper :=
  match value with
  | .uint n _ => uintToWrapper lib n columnType
  | .int n _ => .ok (intToWrapper n columnType)
  | .bool b => .ok (boolToWrapper b columnType)
  | .address a => .ok (.address a)
  -- Postgres takes no zero byte in a text
  | .string s => .ok (.string (if columnType = .string then s.filter (·.toNat ≠ 0) else s))
  | .fixedBytes word _ =>
    if columnType = .bytes32 then .ok (if word.length = 32 then .b256 word else .bytes word)
    else if columnType = .string then .ok (.string (hexText word))
    else .ok (.string (lib.debug value))
  | .bytes b => .ok (.string (if columnType = .string then hexText b else lib.debug value))
  | .array items => .ok (arrayToWrapper lib items columnType)
  | _ => .ok (.string (lib.debug value))

/-! ### Literals -/

/-- Digits, with an optional plus, of a number that fits. -/
def parseUnsigned (bits : Nat) (s : List Char) : Option Nat :=
  let digits := if s.head? = some '+' then s.tail else s
  if digits ≠ [] ∧ digits.all Char.isDigit ∧ Nat.ofDigitChars 10 digits 0 < 2 ^ bits then
    some (Nat.ofDigitChars 10 digits 0)
  else none

def parseSigned (bits : Nat) (s : List Char) : Option Int :=
  if s.head? = some '-' then
    (parseUnsigned bits s.tail).bind fun n =>
      if s.tail.head? ≠ some '+' ∧ n ≤ 2 ^ (bits - 1) then some (-n) else none
  else (parseUnsigned (bits - 1) s).map Int.ofNat

def literalToWrapper (value : List Char) (columnType : ColumnType) : EthereumSqlTypeWrapper :=
  let parsed : Option EthereumSqlTypeWrapper := match columnType with
    | .string | .array _ => none
    | .uint8 => (parseUnsigned 8 value).map .u8
    | .uint16 => (parseUnsigned 16 value).map .u16
    | .uint32 => (parseUnsigned 32 value).map .u32
    | .uint64 => (parseUnsigned 64 value).map .u64BigInt
    | .uint128 | .uint256 => (lib.readers.u256FromStr value).map .u256Numeric
    | .int8 => (parseSigned 8 value).map .i8
    | .int16 => (parseSigned 16 value).map .i16
    | .int32 => (parseSigned 32 value).map .i32
    | .int64 => (parseSigned 64 value).map .i64
    | .int128 | .int256 => (lib.readers.i256FromStr value).map .i256Numeric
    | .bool =>
      some (.bool (lib.readers.toLowercase value = "true".toList ∨ value = "1".toList))
    | .address => (lib.addressFromStr value).map .address
    | .bytes => (lib.bytesFromStr value).map .bytes
    | .bytes32 => (lib.b256FromStr value).map .b256
    | .timestamp =>
      match parseSigned 64 value with
      | some ts => if lib.isTimestamp ts then some (.dateTime ts 0) else none
      | none => (lib.dateTimeFromStr value).map fun dt => .dateTime dt.1 dt.2
  parsed.getD (.string value)

end Conversions

end Rindexer.Extraction
