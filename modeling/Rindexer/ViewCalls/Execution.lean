import Rindexer.Extraction.Columns

/-! The view calls of table operations: the call that an expression makes, the decoding of the answer,
the caches of results, and the batches that fetch results ahead. -/

namespace Rindexer.ViewCalls

open Rindexer.Lib Rindexer.Extraction
open Rindexer.Filter hiding parseUsize applyAccessor
open Rindexer.Tables (Panic ViewCall ReturnField AccessorSegment parseAccessorSegments bigEndian
  isAsciiText)

inductive DynSolType
  | bool
  | int (bits : Nat)
  | uint (bits : Nat)
  | fixedBytes (size : Nat)
  | address
  | function
  | bytes
  | string
  | array (inner : DynSolType)
  | fixedArray (inner : DynSolType) (size : Nat)
  | tuple (types : List DynSolType)

/-- The parser of types, the ABI coder, the hash and the reader of hexadecimal texts. -/
structure Evm where
  parseType : List Char → Option DynSolType
  abiDecode : DynSolType → List UInt8 → Option DynSolValue
  abiEncodeParams : DynSolValue → List UInt8
  keccak256 : List UInt8 → List UInt8
  hexDecode : List Char → Option (List UInt8)

/-- What a node answers, or its error. -/
structure ChainProvider where
  ethCall : List UInt8 → List UInt8 → Fin (2 ^ 64) → Except (List Char) (List Char)
  ethCallLatest : List UInt8 → List UInt8 → Except (List Char) (List Char)

/-- `trim_start_matches("0x")`. -/
def trimHex : List Char → List Char
  | '0' :: 'x' :: s => trimHex s
  | s => s

/-! ### Constants and arguments -/

def isConstantRef (value : List Char) : Bool :=
  startsWith "$constant(".toList value && value.getLast? == some ')'

def parseConstantRef (value : List Char) : Option (List Char) :=
  if isConstantRef value then
    let inner := (value.drop 10).dropLast
    if inner = [] then none else some (trim inner)
  else none

def resolveConstantsInValue (constants : List Char → Option (List Char)) (value : List Char) :
    Option (List Char) :=
  if isConstantRef value then (parseConstantRef value).bind constants else some value

section Calls

variable (lib : Library) (evm : Evm)

def parseLiteralAsType (value : List Char) : DynSolType → Option DynSolValue
  | .address => (lib.addressFromStr value).map .address
  | .uint bits => (lib.readers.u256FromStr value).map (.uint · bits)
  | .bool => some (.bool (lib.readers.toLowercase value = "true".toList ∨ value = "1".toList))
  | .string => some (.string value)
  | .bytes => (evm.hexDecode (trimHex value)).map .bytes
  | _ => none

def resolveArgValue (constants : List Char → Option (List Char)) (logParams : List LogParam)
    (m : TxMetadata) (argStr : List Char) (expectedType : DynSolType) : Option DynSolValue :=
  let argStr := trim argStr
  if isConstantRef argStr then
    (resolveConstantsInValue constants argStr).bind (parseLiteralAsType lib evm · expectedType)
  else
    match argStr with
    | '$' :: fieldName =>
      if fieldName = "rindexer_contract_address".toList then some (.address m.contractAddress)
      else if fieldName = "rindexer_block_number".toList then
        some (.uint (Fin.castLE Filter.u64_le_u256 m.blockNumber) 256)
      else resolveFieldPath fieldName logParams
    | _ => parseLiteralAsType lib evm argStr expectedType

/-- Each argument by the type of its position; one without a type is an error, and types that are left
are not. -/
def resolveArgs (constants : List Char → Option (List Char)) (logParams : List LogParam)
    (m : TxMetadata) : List (List Char) → List DynSolType → Option (List DynSolValue)
  | [], _ => some []
  | _ :: _, [] => none
  | argStr :: args, paramType :: types => do
    let value ← resolveArgValue lib evm constants logParams m argStr paramType
    let values ← resolveArgs constants logParams m args types
    return value :: values

/-- The name and the types between the first and the last parenthesis.  A closing one in front of the
first panics. -/
def parseFunctionSignature (sig : List Char) :
    Except Panic (Option (List Char × List DynSolType)) :=
  if '(' ∈ sig ∧ ')' ∈ sig then
    let openParen := sig.idxOf '('
    let closeParen := sig.length - 1 - sig.reverse.idxOf ')'
    if closeParen < openParen + 1 then .error ⟨⟩
    else
      let paramsStr := (sig.take closeParen).drop (openParen + 1)
      let types := if paramsStr = [] then []
        else (paramsStr.splitOn ',').filterMap fun p => evm.parseType (trim p)
      .ok (some (sig.take openParen, types))
  else .ok none

def resolveContract (constants : List Char → Option (List Char)) (logParams : List LogParam)
    (m : TxMetadata) (contractAddress : List Char) : Option (List UInt8) :=
  if startsWith "$constant(".toList contractAddress then
    (resolveConstantsInValue constants contractAddress).bind lib.addressFromStr
  else
    match contractAddress with
    | '$' :: fieldName =>
      if fieldName = "rindexer_contract_address".toList then some m.contractAddress
      else (resolveFieldPath fieldName logParams).bind DynSolValue.asAddress
    | _ => lib.addressFromStr contractAddress

def encodeCall (functionSig : List Char) (args : List DynSolValue) : List UInt8 :=
  (evm.keccak256 (functionSig.flatMap String.utf8EncodeChar)).take 4 ++
    if args = [] then [] else evm.abiEncodeParams (.tuple args)

/-- The contract and the data of a call.  The execution of a call and its prefetch compute these with
the same code. -/
def resolveCall (constants : List Char → Option (List Char)) (call : ViewCall)
    (logParams : List LogParam) (m : TxMetadata) :
    Except Panic (Option (List UInt8 × List UInt8)) :=
  match resolveContract lib constants logParams m call.contractAddress with
  | none => .ok none
  | some target => do
    match ← parseFunctionSignature evm call.functionSig with
    | none => return none
    | some (_, paramTypes) =>
      return (resolveArgs lib evm constants logParams m call.args paramTypes).map fun args =>
        (target, encodeCall evm call.functionSig args)

/-! ### Decoding -/

/-- Text up to the first zero byte. -/
def tryBytes32AsString (bytes : List UInt8) : Option (List Char) :=
  let trimmed := (bytes.takeWhile (· ≠ 0)).map fun b => Char.ofNat b.toNat
  if bytes.length = 32 ∧ trimmed ≠ [] ∧ trimmed.all isAsciiText then some trimmed else none

/-- A string or bytes, where the words look like those of a dynamic type.  A length past 64 bits
panics. -/
def tryDynamic (bytes : List UInt8) : Except Panic (Option DynSolValue) :=
  if 64 ≤ bytes.length ∧ Tables.bigEndian (bytes.take 32) = 32 then do
    let length ← narrow 64 (Tables.bigEndian ((bytes.drop 32).take 32))
    if length < 10000 ∧ 64 + length ≤ bytes.length then
      match evm.abiDecode .string bytes with
      | some (.string s) =>
        if s.all isAsciiText then return some (.string s) else return evm.abiDecode .bytes bytes
      | _ => return evm.abiDecode .bytes bytes
    else return none
  else .ok none

/-- More than one word. -/
def tryWords (bytes : List UInt8) : Option DynSolValue :=
  if 32 < bytes.length ∧ 32 ∣ bytes.length then
    evm.abiDecode (.tuple (List.replicate (bytes.length / 32) (.uint 256))) bytes
  else none

def tryDecodeReturnValue (bytes : List UInt8) : Except Panic (Option DynSolValue) :=
  if bytes = [] then .ok none
  else do
    let dynamic ← tryDynamic evm bytes
    return dynamic.or (((tryBytes32AsString bytes).map .string).or
      ((tryWords evm bytes).or (evm.abiDecode (.uint 256) bytes)))

mutual

def typeOfField : ReturnField → DynSolType
  | .mk _ typeStr [] => (evm.parseType typeStr.toList).getD (.uint 256)
  | .mk _ _ [.mk _ typeStr []] => (evm.parseType typeStr.toList).getD (.uint 256)
  | .mk _ _ children => .tuple (typesOfFields children)

def typesOfFields : List ReturnField → List DynSolType
  | [] => []
  | field :: rest => typeOfField field :: typesOfFields rest

end

def buildReturnTypeFromFields : List ReturnField → DynSolType
  | [.mk _ typeStr []] => (evm.parseType typeStr.toList).getD (.uint 256)
  | fields => .tuple (typesOfFields evm fields)

def decodeViewCallResult (bytes : List UInt8) (call : ViewCall) :
    Except Panic (Option DynSolValue) :=
  match call.returnFields with
  | [] => tryDecodeReturnValue evm bytes
  | fields => .ok ((evm.abiDecode (buildReturnTypeFromFields evm fields) bytes).or
      ((tryBytes32AsString bytes).map .string))

/-! ### Accessors -/

def items : DynSolValue → Option (List DynSolValue)
  | .tuple items => some items
  | .array items => some items
  | .fixedArray items => some items
  | _ => none

def fieldName : ReturnField → List Char
  | .mk name _ _ => name.toList

def fieldChildren : ReturnField → List ReturnField
  | .mk _ _ children => children

def applySegments : List AccessorSegment → List ReturnField → DynSolValue → Option DynSolValue
  | [], _, current => some current
  | .index idx :: segments, fields, current => do
    let item ← (← items current)[idx]?
    applySegments segments ((fields[idx]?.map fieldChildren).getD []) item
  | .field name :: segments, fields, current => do
    let (field, idx) ← fields.zipIdx.find? fun f => fieldName f.1 = name
    let item ← (← items current)[idx]?
    applySegments segments (fieldChildren field) item

def applyAccessor (value : DynSolValue) (accessor : List Char) (returnFields : List ReturnField) :
    Option DynSolValue :=
  if accessor = [] then some value
  else applySegments (parseAccessorSegments accessor) returnFields value

def applyAccessorIfPresent (value : DynSolValue) (call : ViewCall) : Option DynSolValue :=
  match call.accessor with
  | some accessor => applyAccessor value accessor call.returnFields
  | none => some value

/-! ### Caches -/

abbrev ViewCallCacheKey := List Char × List UInt8 × List UInt8 × Fin (2 ^ 64)

abbrev StaticCallCacheKey := List Char × List UInt8 × List UInt8

/-- The results of calls, and the networks on which Multicall3 has failed. -/
structure CallCaches where
  viewCalls : ViewCallCacheKey → Option DynSolValue
  staticCalls : StaticCallCacheKey → Option DynSolValue
  networksWithoutMulticall3 : List (List Char)

def CallCaches.empty : CallCaches := ⟨fun _ => none, fun _ => none, []⟩

/-- The result of a call: the cached one, or else what the node answers, as the call decodes it. -/
def fetchResult (call : ViewCall) (cached : Option DynSolValue)
    (answer : Except (List Char) (List Char)) : Except Panic (Option DynSolValue) :=
  match cached, answer with
  | some value, _ => .ok (some value)
  | none, .error _ => .ok none
  | none, .ok resultHex =>
    match evm.hexDecode (trimHex resultHex) with
    | none => .ok none
    | some bytes => decodeViewCallResult evm bytes call

def remember {κ : Type} [DecidableEq κ] (cache : κ → Option DynSolValue) (key : κ) :
    Option DynSolValue → κ → Option DynSolValue
  | none => cache
  | some value => Function.update cache key (some value)

/-- The value of a call, and the caches with its result. -/
def executeViewCall (provider : ChainProvider) (network : List Char)
    (constants : List Char → Option (List Char)) (call : ViewCall) (logParams : List LogParam)
    (m : TxMetadata) (caches : CallCaches) : Except Panic (CallCaches × Option DynSolValue) := do
  match ← resolveCall lib evm constants call logParams m with
  | none => return (caches, none)
  | some (target, calldata) =>
    if call.isStatic then
      let key := (network, target, calldata)
      let result ← fetchResult evm call (caches.staticCalls key)
        (provider.ethCallLatest target calldata)
      return ({ caches with staticCalls := remember caches.staticCalls key result },
        result.bind (applyAccessorIfPresent · call))
    else
      let key := (network, target, calldata, m.blockNumber)
      let result ← fetchResult evm call (caches.viewCalls key)
        (provider.ethCall target calldata m.blockNumber)
      return ({ caches with viewCalls := remember caches.viewCalls key result },
        result.bind (applyAccessorIfPresent · call))

/-! ### Batches -/

structure PendingViewCall where
  target : List UInt8
  calldata : List UInt8
  blockNumber : Fin (2 ^ 64)
  network : List Char

def resolveViewCallToPending (network : List Char) (constants : List Char → Option (List Char))
    (call : ViewCall) (logParams : List LogParam) (m : TxMetadata) :
    Except Panic (Option PendingViewCall) := do
  let resolved ← resolveCall lib evm constants call logParams m
  return resolved.map fun (target, calldata) => ⟨target, calldata, m.blockNumber, network⟩

/-- `aggregate3` of calls that may fail. -/
def aggregate3Calldata (calls : List PendingViewCall) : List UInt8 :=
  [0x82, 0xad, 0x56, 0xcb] ++ evm.abiEncodeParams (.array (calls.map fun c =>
    .tuple [.address c.target, .bool true, .bytes c.calldata]))

def aggregate3Result : DynSolType := .array (.tuple [.bool, .bytes])

def looksLikeNoMulticall (error : List Char) : Bool :=
  containsText "execution reverted".toList error || containsText "contract".toList error ||
    error == [] || error == "0x".toList || containsText "0x0".toList error

/-- What the batch makes of one result. -/
def resultValue : DynSolValue → Except Panic (Option DynSolValue)
  | .tuple (.bool true :: .bytes returnData :: _) => tryDecodeReturnValue evm returnData
  | _ => .ok none

/-- Caches the results one after the other.  A panic ends the task and leaves the entries so far. -/
def cacheResults {κ : Type} [DecidableEq κ] (key : PendingViewCall → κ) :
    (κ → Option DynSolValue) → List PendingViewCall → List DynSolValue → κ → Option DynSolValue
  | cache, call :: calls, result :: results =>
    match resultValue evm result with
    | .error _ => cache
    | .ok value => cacheResults key (remember cache (key call) value) calls results
  | cache, _, _ => cache

/-- The results of a batch in a cache, where the node answers. -/
def cacheAnswer {κ : Type} [DecidableEq κ] (key : PendingViewCall → κ) (calls : List PendingViewCall)
    (cache : κ → Option DynSolValue) (resultHex : List Char) : κ → Option DynSolValue :=
  match (evm.hexDecode (trimHex resultHex)).bind (evm.abiDecode aggregate3Result) with
  | some (.array results) => cacheResults evm key cache calls results
  | _ => cache

def markNoMulticall (network error : List Char) (caches : CallCaches) : CallCaches :=
  if looksLikeNoMulticall error then
    { caches with networksWithoutMulticall3 := network :: caches.networksWithoutMulticall3 }
  else caches

def executeMulticall3Batch (provider : ChainProvider) (network : List Char)
    (blockNumber : Fin (2 ^ 64)) (calls : List PendingViewCall) (multicallAddress : List UInt8)
    (caches : CallCaches) : CallCaches :=
  if calls = [] then caches
  else
    match provider.ethCall multicallAddress (aggregate3Calldata evm calls) blockNumber with
    | .error e => markNoMulticall network e caches
    | .ok resultHex => { caches with
        viewCalls := cacheAnswer evm (fun c => (c.network, c.target, c.calldata, c.blockNumber)) calls
          caches.viewCalls resultHex }

/-- The batch of static calls, at the latest block. -/
def executeStaticMulticall3Batch (provider : ChainProvider) (network : List Char)
    (calls : List PendingViewCall) (multicallAddress : List UInt8) (caches : CallCaches) : CallCaches :=
  if calls = [] then caches
  else
    match provider.ethCallLatest multicallAddress (aggregate3Calldata evm calls) with
    | .error e => markNoMulticall network e caches
    | .ok resultHex => { caches with
        staticCalls := cacheAnswer evm (fun c => (c.network, c.target, c.calldata)) calls
          caches.staticCalls resultHex }

/-- Entries of old blocks are evicted. -/
def evictOldViewCallCacheEntries (cutoffBlock : Fin (2 ^ 64)) (caches : CallCaches) : CallCaches :=
  { caches with viewCalls := fun key =>
      if cutoffBlock < key.2.2.2 then caches.viewCalls key else none }

end Calls

end Rindexer.ViewCalls
