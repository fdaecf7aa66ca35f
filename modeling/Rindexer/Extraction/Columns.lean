import Rindexer.Extraction.Arithmetic
import Rindexer.Extraction.Wrappers
import Rindexer.Filter.Readers

/-! The value of an expression for a column: the chain of tests that tells calls, conditional values,
arithmetic, templates, fields and literals apart. -/

namespace Rindexer.Extraction

open Rindexer.Lib
open Rindexer.Filter hiding parseUsize
open Rindexer.Manifest (ColumnType)
open Rindexer.Tables (Panic ViewCall LowerCase findText sliceTo sliceFrom findCallPatterns
  parseViewCall parseConditionalValue)

/-! ### Tests -/

def startsWith (start s : List Char) : Bool := start.isPrefixOf s

def containsText (needle s : List Char) : Bool := (findText needle s).isSome

/-- An operator; a sign at the start is none. -/
def hasOperator (value : List Char) : Bool :=
  value.any (fun c => c == '*' || c == '/' || c == '^') ||
    value.tail.any fun c => c == '+' || c == '-'

def isArithmeticExpression (value : List Char) : Bool := hasOperator value && value.contains '$'

def arithmeticHasCalls (value : List Char) : Bool :=
  containsText "$call(".toList value || containsText "$call_static(".toList value

def isConditionalValue (value : List Char) : Bool :=
  startsWith "$if(".toList value && value.getLast? == some ')'

def isViewCall (value : List Char) : Bool :=
  (startsWith "$call(".toList value || startsWith "$call_static(".toList value) && value.contains ')'

section Library

variable (lib : Library)

/-- The characters of the field path behind a `$`. -/
def isFieldChar (c : Char) : Bool :=
  lib.isAlphanumeric c || c == '.' || c == '_' || c == '[' || c == ']'

def isStringTemplate (value : List Char) : Bool :=
  value.contains '$' && !(value.head? == some '$' && value.tail.all (isFieldChar lib))

/-! ### Templates -/

/-- The characters of a template from one on.  Each round takes at least one. -/
def expandFrom (logParams : List LogParam) (m : TxMetadata) : Nat → List Char → Option (List Char)
  | 0, _ => some []
  | _ + 1, [] => some []
  | fuel + 1, c :: rest =>
    if c = '$' then
      let fieldName := rest.takeWhile (isFieldChar lib)
      if fieldName = [] then (expandFrom logParams m fuel rest).map ('$' :: ·)
      else do
        let valueStr ← resolveFieldToString lib fieldName logParams m
        let result ← expandFrom logParams m fuel (rest.dropWhile (isFieldChar lib))
        return valueStr ++ result
    else (expandFrom logParams m fuel rest).map (c :: ·)

def expandStringTemplate (template : List Char) (logParams : List LogParam) (m : TxMetadata) :
    Option (List Char) := expandFrom lib logParams m template.length template

/-! ### Conditional values -/

/-- The branch of a conditional value whose condition holds of the event, or not. -/
def chooseBranch (value : List Char) (logParams : List LogParam) : Option (List Char) :=
  match parseConditionalValue value with
  | none => none
  | some (condition, trueValue, falseValue) =>
    match filterByExpression lib.readers condition (logParamsToJson lib logParams) with
    | some (.ok true) => some trueValue
    | some (.ok false) => some falseValue
    | _ => none

/-! ### Arithmetic -/

def u64Json (n : Fin (2 ^ 64)) : JsonValue := .number (.posInt n)

/-- `to::<u64>`. -/
def toU64 (n : U256) : Except Panic (Fin (2 ^ 64)) :=
  if h : n.val < 2 ^ 64 then .ok ⟨n.val, h⟩ else .error ⟨⟩

/-- The fields of the event, with the position of the log. -/
def positionData (logParams : List LogParam) (m : TxMetadata) : Except Panic JsonMap := do
  let logIndex ← toU64 m.logIndex
  return (((logParamsMap lib logParams).insert "rindexer_block_number".toList
    (u64Json m.blockNumber)).insert "rindexer_tx_index".toList
      (u64Json m.txIndex)).insert "rindexer_log_index".toList (u64Json logIndex)

def arithmeticData (logParams : List LogParam) (m : TxMetadata) : Except Panic JsonMap := do
  let data ← positionData lib logParams m
  match m.blockTimestamp with
  | some ts => return data.insert "rindexer_block_timestamp".toList (u64Json (← toU64 ts))
  | none => return data

def computedToWrapper (columnType : ColumnType) : Option ComputedValue →
    Except Panic (Option EthereumSqlTypeWrapper)
  | some (.u256 n) =>
    if columnType = .uint64 then (narrow 64 n.val).map fun n => some (.u64BigInt n)
    else .ok (some (.u256Numeric n))
  | some (.string s) => .ok (some (.string s))
  | none => .ok none

/-! ### Fields and literals -/

/-- A date where the seconds are one, else their number. -/
def timestampToWrapper (seconds : Int) (n : U256) (columnType : ColumnType) : EthereumSqlTypeWrapper :=
  if columnType = .timestamp ∧ lib.isTimestamp seconds then .dateTime seconds 0 else .u256Numeric n

def logIndexToWrapper (logIndex : U256) : ColumnType → Except Panic EthereumSqlTypeWrapper
  | .uint64 => (narrow 64 logIndex.val).map .u64BigInt
  | .string => .ok (.string (toString logIndex.val).toList)
  | _ => .ok (.u256Numeric logIndex)

def fieldValue (fieldName : List Char) (logParams : List LogParam) (m : TxMetadata)
    (columnType : ColumnType) : Except Panic (Option EthereumSqlTypeWrapper) :=
  if fieldName = "rindexer_block_number".toList then .ok (some (.u64BigInt m.blockNumber.val))
  else if fieldName = "rindexer_block_timestamp".toList then
    match m.blockTimestamp with
    | none => .ok none
    | some ts => do
      let seconds ← narrow (if columnType = .timestamp then 63 else 64) ts.val
      return some (timestampToWrapper lib seconds ts columnType)
  else if fieldName = "rindexer_tx_hash".toList then .ok (some (.stringChar (hexText m.txHash)))
  else if fieldName = "rindexer_block_hash".toList then .ok (some (.stringChar (hexText m.blockHash)))
  else if fieldName = "rindexer_contract_address".toList then
    .ok (some (.address m.contractAddress))
  else if fieldName = "rindexer_log_index".toList then
    (logIndexToWrapper m.logIndex columnType).map some
  else if fieldName = "rindexer_tx_index".toList then .ok (some (.u64BigInt m.txIndex.val))
  else
    match resolveFieldPath fieldName logParams with
    | none => .ok none
    | some value => (dynSolValueToWrapper lib value columnType).map some

def fieldOrLiteral (valueRef : List Char) (logParams : List LogParam) (m : TxMetadata)
    (columnType : ColumnType) : Except Panic (Option EthereumSqlTypeWrapper) :=
  match valueRef with
  | '$' :: fieldName => fieldValue lib fieldName logParams m columnType
  | _ => .ok (some (literalToWrapper lib valueRef columnType))

/-- Conditional values nest no deeper than their text is long. -/
def extractFrom (logParams : List LogParam) (m : TxMetadata) (columnType : ColumnType) :
    Nat → List Char → Except Panic (Option EthereumSqlTypeWrapper)
  | 0, _ => .ok none
  | fuel + 1, valueRef =>
    if valueRef = "$null".toList then .ok (some .null)
    else if isConditionalValue valueRef then
      match chooseBranch lib valueRef logParams with
      | some branch => extractFrom logParams m columnType fuel branch
      | none => .ok none
    else if isArithmeticExpression valueRef then do
      let data ← arithmeticData lib logParams m
      computedToWrapper columnType (evaluateArithmetic lib.readers valueRef (.object data.entries))
    else if isStringTemplate lib valueRef then
      .ok ((expandStringTemplate lib valueRef logParams m).map .string)
    else fieldOrLiteral lib valueRef logParams m columnType

def extractValueFromEvent (valueRef : List Char) (logParams : List LogParam) (m : TxMetadata)
    (columnType : ColumnType) : Except Panic (Option EthereumSqlTypeWrapper) :=
  extractFrom lib logParams m columnType (valueRef.length + 1) valueRef

end Library

/-! ### Calls and constants -/

/-- What an extraction has besides the event: how calls are executed, where a provider is there, the
constants of the network and the timestamps that the cache has for it. -/
structure Sources where
  lower : LowerCase
  executeViewCall : Option (ViewCall → Except Panic (Option DynSolValue))
  constants : List Char → Option (List Char)
  cachedBlockTimestamp : Fin (2 ^ 64) → Option (Fin (2 ^ 64))

/-- Constants by their values, from a position on.  A value is not searched again. -/
def resolveConstantsFrom (constants : List Char → Option (List Char)) : Nat → List Char → List Char
  | 0, s => s
  | _ + 1, [] => []
  | fuel + 1, c :: s =>
    if startsWith "$constant(".toList (c :: s) then
      let inner := (c :: s).drop 10
      if ')' ∈ inner then
        let name := inner.takeWhile (· != ')')
        (constants name).getD ("$constant(".toList ++ name ++ [')']) ++
          resolveConstantsFrom constants fuel ((inner.dropWhile (· != ')')).drop 1)
      else c :: s
    else c :: resolveConstantsFrom constants fuel s

def resolveAllConstantsInValue (constants : List Char → Option (List Char)) (value : List Char) :
    List Char := resolveConstantsFrom constants value.length value

/-- The text of a result within an expression. -/
def callResultText : DynSolValue → Option (List Char)
  | .uint n _ => some (toString n.val).toList
  | .int n _ => some (toString n).toList
  | .bool b => some (if b then ['1'] else ['0'])
  | _ => none

section Calls

variable (lib : Library) (x : Sources)

/-- A call that is parsed and executed. -/
def callValue (execute : ViewCall → Except Panic (Option DynSolValue)) (text : List Char) :
    Except Panic (Option DynSolValue) := do
  match ← parseViewCall x.lower text with
  | none => return none
  | some call => execute call

/-- Puts the values of calls for their texts, from the last one on. -/
def replaceCalls (execute : ViewCall → Except Panic (Option DynSolValue)) :
    List (Nat × Nat × List Char) → List Char → Except Panic (Option (List Char))
  | [], result => .ok (some result)
  | (start, stop, callExpr) :: earlier, result => do
    match (← callValue x execute callExpr).bind callResultText with
    | none => return none
    | some valueStr =>
      let before ← sliceTo result start
      let after ← sliceFrom result stop
      replaceCalls execute earlier (before ++ valueStr ++ after)

def resolveCallsInArithmeticExpression (execute : ViewCall → Except Panic (Option DynSolValue))
    (expression : List Char) : Except Panic (Option (List Char)) := do
  let patterns ← findCallPatterns expression
  replaceCalls x execute patterns.reverse expression

/-- An expression without conditional values at its top, once its constants are resolved. -/
def extractResolved (logParams : List LogParam) (m : TxMetadata) (columnType : ColumnType)
    (value : List Char) : Except Panic (Option EthereumSqlTypeWrapper) :=
  if isArithmeticExpression value && arithmeticHasCalls value then
    match x.executeViewCall with
    | none => .ok none
    | some execute => do
      match ← resolveCallsInArithmeticExpression x execute value with
      | none => return none
      | some resolved =>
        let data ← positionData lib logParams m
        computedToWrapper columnType (evaluateArithmetic lib.readers resolved (.object data.entries))
  else if isViewCall value then
    match x.executeViewCall with
    | none => .ok none
    | some execute => do
      match ← callValue x execute value with
      | none => return none
      | some result => (dynSolValueToWrapper lib result columnType).map some
  else
    match x.cachedBlockTimestamp m.blockNumber, m.blockTimestamp with
    | some epoch, none =>
      if value = "$rindexer_block_timestamp".toList then
        .ok (some (timestampToWrapper lib (asSigned 64 epoch.val) (Fin.castLE Filter.u64_le_u256 epoch)
          columnType))
      else extractValueFromEvent lib value logParams m columnType
    | _, _ => extractValueFromEvent lib value logParams m columnType

def extractAsyncFrom (logParams : List LogParam) (m : TxMetadata) (columnType : ColumnType) :
    Nat → List Char → Except Panic (Option EthereumSqlTypeWrapper)
  | 0, _ => .ok none
  | fuel + 1, valueRef =>
    if valueRef = "$null".toList then .ok (some .null)
    else if isConditionalValue valueRef then
      match chooseBranch lib valueRef logParams with
      | some branch => extractAsyncFrom logParams m columnType fuel branch
      | none => .ok none
    else
      extractResolved lib x logParams m columnType
        (if containsText "$constant(".toList valueRef then
          resolveAllConstantsInValue x.constants valueRef
        else valueRef)

def extractValueFromEventAsync (valueRef : List Char) (logParams : List LogParam) (m : TxMetadata)
    (columnType : ColumnType) : Except Panic (Option EthereumSqlTypeWrapper) :=
  extractAsyncFrom lib x logParams m columnType (valueRef.length + 1) valueRef

end Calls

/-- Libraries that know ASCII alone. -/
def asciiLibrary : Library where
  readers := asciiReaders
  addressFromStr _ := none
  bytesFromStr _ := none
  b256FromStr _ := none
  dateTimeFromStr _ := none
  isTimestamp _ := false
  debug _ := []
  debugStrings _ := []
  isAlphanumeric := Char.isAlphanum
  isAlphanumeric_ascii _ _ := rfl

def noSources : Sources where
  lower := ⟨fun s => s.map Char.toLower, Tables.lowerCase_of_ascii⟩
  executeViewCall := none
  constants _ := none
  cachedBlockTimestamp _ := none

end Rindexer.Extraction
