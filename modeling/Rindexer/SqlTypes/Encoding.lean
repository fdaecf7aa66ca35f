import Rindexer.Lib.Joined
import Rindexer.SqlTypes.Numeric
import Rindexer.SqlTypes.Wrappers

/-! The bytes that go to Postgres for a value, and what a column reads from them.  The type that the
encoder is given is the one of the column in a query, and the one of the value in a copy. -/

namespace Rindexer.SqlTypes

open Rindexer.Extraction (hexText)
open Rindexer.Filter (JsonValue)
open Rindexer.Lib

/-! ### Types of Postgres -/

inductive PgBase
  | bool | bytea | int8 | int2 | int4 | text | bpchar | varchar | numeric | jsonb
deriving DecidableEq, Repr

def PgBase.oid : PgBase → Int
  | bool => 16
  | bytea => 17
  | int8 => 20
  | int2 => 21
  | int4 => 23
  | text => 25
  | bpchar => 1042
  | varchar => 1043
  | numeric => 1700
  | jsonb => 3802

/-- A base type or the arrays of one. -/
inductive PgType
  | base (type : PgBase)
  | array (member : PgBase)
deriving DecidableEq, Repr

/-- The type of a column definition. -/
def columnBase (text : List Char) : Option PgBase :=
  if text = "SMALLINT".toList then some .int2
  else if text = "INTEGER".toList then some .int4
  else if text = "NUMERIC".toList then some .numeric
  else if text = "VARCHAR(78)".toList then some .varchar
  else if text = "CHAR(42)".toList then some .bpchar
  else if text = "TEXT".toList then some .text
  else if text = "BOOLEAN".toList then some .bool
  else if text = "BYTEA".toList then some .bytea
  else if text = "JSONB".toList then some .jsonb
  else none

def columnType (text : String) : Option PgType :=
  if "[]".toList.isSuffixOf text.toList then
    (columnBase (text.toList.take (text.toList.length - 2))).map .array
  else (columnBase text.toList).map .base

/-! ### Encoding -/

def IntWrapper.toBase : IntWrapper → PgBase
  | u8 | i8 | u16 | i16 => .int2
  | u32 | i32 => .int4
  | u64 | i64 => .int8
  | u128 | i128 => .numeric
  | u256 | i256 => .varchar

def EthereumSqlTypeWrapper.toType : EthereumSqlTypeWrapper → PgType
  | bool _ => .base .bool
  | vecBool _ => .array .bool
  | int kind _ => .base kind.toBase
  | vecInt kind _ => .array kind.toBase
  | address _ => .base .bpchar
  | vecAddress _ => .array .text
  | string _ => .base .text
  | vecString _ => .array .text
  | bytes _ => .base .bytea
  | vecBytes _ => .array .bytea
  | jsonb _ => .base .jsonb

/-- The encoders of other crates: decimals of 64 bits and JSON. -/
structure Encoders where
  decimal : Nat → List UInt8
  json : JsonValue → List UInt8

/-- Why there are no bytes. -/
inductive SqlError
  | panic
  | tooLarge
deriving DecidableEq, Repr

def utf8 (s : List Char) : List UInt8 := s.flatMap String.utf8EncodeChar

def putI32 (i : Int) : List UInt8 := bigEndianInt 4 i

/-- An array of one dimension, whose lengths are cut to 32 bits. -/
def writeArray (oid : Int) (elements : List (List UInt8)) : List UInt8 :=
  putI32 1 ++ putI32 0 ++ putI32 oid ++ putI32 elements.length ++ putI32 1 ++
    elements.flatMap fun element => putI32 element.length ++ element

/-- `to_sql` of a slice: a panic unless the type is an array, an error for lengths past 32 bits. -/
def sliceToSql (ty : PgType) (elements : List (List UInt8)) : Except SqlError (List UInt8) :=
  match ty with
  | .base _ => .error .panic
  | .array member =>
    if elements.length < 2 ^ 31 ∧ ∀ element ∈ elements, element.length < 2 ^ 31 then
      .ok (writeArray member.oid elements)
    else .error .tooLarge

section ToSql

variable (encoders : Encoders)

def writeNumber (n : Int) : List UInt8 :=
  writeNumericToPostgres (Fin.ofNat (2 ^ 128) n.natAbs) (n < 0)

def decimalText (n : Int) : List Char := (toString n).toList

/-- The bytes of an integer; unsigned ones of 16 and 32 bits are taken as signed. -/
def intToSql : IntWrapper → Int → List UInt8
  | .u8, n | .i8, n | .i16, n => bigEndianInt 2 n
  | .u16, n => bigEndianInt 2 (lowSigned 16 n)
  | .u32, n => bigEndianInt 4 (lowSigned 32 n)
  | .i32, n => bigEndianInt 4 n
  | .u64, n => encoders.decimal n.toNat
  | .i64, n => bigEndianInt 8 n
  | .u128, n | .i128, n => writeNumber n
  | .u256, n | .i256, n => utf8 (decimalText n)

/-- The bytes of integers in an array, which are one text for the signed ones of 256 bits. -/
def intsToSql (ty : PgType) (kind : IntWrapper) (ns : List Int) : Except SqlError (List UInt8) :=
  match kind with
  | .u64 | .u128 | .i128 => .ok (writeArray PgBase.numeric.oid (ns.map (intToSql encoders kind)))
  | .i256 => .ok (utf8 (joinWith ',' (ns.map decimalText)))
  | _ => sliceToSql ty (ns.map (intToSql encoders kind))

/-- `to_sql`; no bytes are NULL. -/
def EthereumSqlTypeWrapper.toSql (ty : PgType) :
    EthereumSqlTypeWrapper → Except SqlError (Option (List UInt8))
  | bool b => .ok (some [if b then 1 else 0])
  | vecBool bs =>
    if bs = [] then .ok none
    else .ok (some (writeArray PgBase.bool.oid (bs.map fun b => [if b then 1 else 0])))
  | int kind n => .ok (some (intToSql encoders kind n))
  | vecInt kind ns => if ns = [] then .ok none else (intsToSql encoders ty kind ns).map some
  | address a => .ok (some (utf8 (hexText a)))
  | vecAddress addresses =>
    if addresses = [] then .ok none
    else (sliceToSql ty (addresses.map fun a => utf8 (hexText a))).map some
  | string s => .ok (some (utf8 s))
  | vecString ss => if ss = [] then .ok none else (sliceToSql ty (ss.map utf8)).map some
  | bytes b => .ok (some b)
  | vecBytes bs => if bs = [] then .ok none else (sliceToSql ty bs).map some
  | jsonb value => .ok (some (encoders.json value))

end ToSql

/-- How rows are written: many with a copy, few with a query. -/
inductive WritePath
  | copy | query
deriving DecidableEq, Repr

/-- The type that the encoder is given. -/
def WritePath.type (path : WritePath) (wrapper : EthereumSqlTypeWrapper) (column : PgType) : PgType :=
  match path with
  | copy => wrapper.toType
  | query => column

/-! ### Reading -/

inductive PgValue
  | number (q : ℚ)
  | text (s : List Char)
  | bool (b : Bool)
  | bytes (b : List UInt8)
  | json (value : JsonValue)

/-- A text: characters in UTF-8, none of them zero. -/
def readText (bytes : List UInt8) : Option (List Char) :=
  (bytes.toByteArray.utf8Decode?).bind fun chars =>
    if '\x00' ∈ chars.toList then none else some chars.toList

def readNumeric (bytes : List UInt8) : Option ℚ :=
  (readNumericImage bytes).bind fun image =>
    if image.ndigits = image.digits.length ∧ (∀ digit ∈ image.digits, 0 ≤ digit ∧ digit < 10000) ∧
        (image.sign = 0 ∨ image.sign = 0x4000) then
      some image.value
    else none

/-- The value of a column of a base type. -/
def readBase (readJson : List UInt8 → Option JsonValue) (type : PgBase) (bytes : List UInt8) :
    Option PgValue :=
  match type with
  | .bool => match bytes with
    | [byte] => some (.bool (byte ≠ 0))
    | _ => none
  | .bytea => some (.bytes bytes)
  | .int2 => if bytes.length = 2 then some (.number (ofBigEndianInt bytes)) else none
  | .int4 => if bytes.length = 4 then some (.number (ofBigEndianInt bytes)) else none
  | .int8 => if bytes.length = 8 then some (.number (ofBigEndianInt bytes)) else none
  | .text => (readText bytes).map .text
  | .bpchar => (readText bytes).bind fun s => if s.length ≤ 42 then some (.text s) else none
  | .varchar => (readText bytes).bind fun s => if s.length ≤ 78 then some (.text s) else none
  | .numeric => (readNumeric bytes).map .number
  | .jsonb => (readJson bytes).map .json

/-- `count` elements, each after its length, up to the end. -/
def readElements (readElement : List UInt8 → Option PgValue) :
    Nat → List UInt8 → Option (List PgValue)
  | 0, bytes => if bytes = [] then some [] else none
  | count + 1, bytes => do
    let (size, bytes) ← readInt 4 bytes
    if size < 0 then none
    else
      let (element, bytes) ← takeBytes size.toNat bytes
      let value ← readElement element
      return value :: (← readElements readElement count bytes)

/-- An array of one dimension without nulls. -/
def readArray (member : PgBase) (readElement : List UInt8 → Option PgValue) (bytes : List UInt8) :
    Option (List PgValue) := do
  let (ndim, bytes) ← readInt 4 bytes
  let (_, bytes) ← readInt 4 bytes
  let (oid, bytes) ← readInt 4 bytes
  if oid ≠ member.oid then none
  else if ndim = 0 then readElements readElement 0 bytes
  else if ndim ≠ 1 then none
  else
    let (count, bytes) ← readInt 4 bytes
    let (_, bytes) ← readInt 4 bytes
    if count < 0 then none else readElements readElement count.toNat bytes

end Rindexer.SqlTypes
