import Mathlib.Algebra.Order.Ring.Rat
import Mathlib.Order.Fin.Basic
import Rindexer.Filter.Parsing

/-! The evaluation of filter expressions against the values of an event and of a row. -/

namespace Rindexer.Filter

/-! ### JSON values -/

/-- A number of a JSON value.  Negative integers are `-(n + 1)`, and a number with a fraction is its
text. -/
inductive JsonNumber
  | posInt (n : Fin (2 ^ 64))
  | negInt (n : Fin (2 ^ 63))
  | float (text : List Char)
deriving DecidableEq, Repr

/-- The entries of an object are in the order of their keys. -/
inductive JsonValue
  | null
  | bool (b : Bool)
  | number (n : JsonNumber)
  | string (s : List Char)
  | array (items : List JsonValue)
  | object (entries : List (List Char × JsonValue))
deriving BEq, Repr

def JsonNumber.toText : JsonNumber → List Char
  | posInt n => (toString n.val).toList
  | negInt n => (toString (Int.negSucc n.val)).toList
  | float text => text

def boolText (b : Bool) : List Char := if b then "true".toList else "false".toList

def JsonValue.get (name : List Char) : JsonValue → Option JsonValue
  | object entries => entries.lookup name
  | _ => none

/-! ### Numbers in texts -/

abbrev U256 := Fin (2 ^ 256)

/-- A number, if 256 bits hold it. -/
def u256 (n : Nat) : Option U256 := if h : n < 2 ^ 256 then some ⟨n, h⟩ else none

/-- The readers of the libraries for numbers and JSON, the writer for JSON, and `to_lowercase`. -/
structure Readers where
  u256FromStr : List Char → Option U256
  u256FromHex : List Char → Option U256
  i256FromStr : List Char → Option Int
  decimalFromStr : List Char → Option Rat
  jsonFromStr : List Char → Option JsonValue
  jsonToString : JsonValue → List Char
  toLowercase : List Char → List Char

def isWhiteSpace (c : Char) : Bool :=
  (9 ≤ c.toNat && c.toNat ≤ 13) || (0x2000 ≤ c.toNat && c.toNat ≤ 0x200A) ||
    [0x20, 0x85, 0xA0, 0x1680, 0x2028, 0x2029, 0x202F, 0x205F, 0x3000].contains c.toNat

def trim (s : List Char) : List Char :=
  ((s.dropWhile isWhiteSpace).reverse.dropWhile isWhiteSpace).reverse

/-- What follows `0x` or `0X`. -/
def stripHex : List Char → Option (List Char)
  | '0' :: 'x' :: s => some s
  | '0' :: 'X' :: s => some s
  | _ => none

/-- The signed number with the same bits. -/
def i256FromRaw (n : U256) : Int := if n.val < 2 ^ 255 then n.val else n.val - 2 ^ 256

section Readers

variable (r : Readers)

def stringToU256 (valueStr : List Char) : Option U256 :=
  if trim valueStr = [] then none
  else
    match stripHex (trim valueStr) with
    | some [] => none
    | some hexVal => r.u256FromHex hexVal
    | none => r.u256FromStr (trim valueStr)

def stringToI256 (valueStr : List Char) : Option Int :=
  if trim valueStr = [] then none
  else
    match stripHex (trim valueStr) with
    | some [] => none
    | some hexVal => (r.u256FromHex hexVal).map i256FromRaw
    | none => r.i256FromStr (trim valueStr)

def normalizeAddress (address : List Char) : List Char :=
  r.toLowercase (((if "0x".toList <+: address then address.drop 2 else address)).filter (· ≠ ' '))

def areSameAddress (address1 address2 : List Char) : Bool :=
  normalizeAddress r address1 == normalizeAddress r address2

end Readers

def compareOrderedValues {α : Type} [LinearOrder α] (left : α) (op : ComparisonOperator)
    (right : α) : Bool :=
  match op with
  | .eq => left = right
  | .ne => left ≠ right
  | .gt => left > right
  | .gte => left ≥ right
  | .lt => left < right
  | .lte => left ≤ right

/-! ### Kinds and errors -/

/-- The kinds that values and literals are given. -/
inductive Kind
  | address
  | bytes32
  | bytes
  | fixed
  | number
  | uint256
  | int64
  | int256
  | string
  | bool
  | array
  | map
  | null
deriving DecidableEq, Repr

/-- An error with the text it is about. -/
inductive EvaluationError
  | typeMismatch
  | unsupportedOperator (op : ComparisonOperator)
  | parseError (text : List Char)
  | variableNotFound (name : List Char)
  | indexOutOfBounds (index : Fin (2 ^ 64))
  | divisionByZero
  | arithmeticOverflow (text : String)
deriving DecidableEq, Repr

section Kinds

variable (r : Readers)

def getKindFromStr (s : List Char) : Kind :=
  if (stripHex s).isSome then
    if utf8Length s = 42 then .address else if utf8Length s = 66 then .bytes32 else .string
  else .string
where
  /-- The number of bytes of a text. -/
  utf8Length (s : List Char) : Nat := (s.map Char.utf8Size).sum

/-- Whether a text starts with `0x` in either case and goes on with hexadecimal digits. -/
def looksHex (s : List Char) : Bool :=
  "0x".toList.isPrefixOf (r.toLowercase s) && (s.drop 2).all isHexDigit

def getKindFromText (s : List Char) : Kind :=
  if looksHex r s && getKindFromStr.utf8Length s == 42 then .address
  else if looksHex r s then
    if getKindFromStr.utf8Length s = 66 then .bytes32 else .bytes
  else if (r.decimalFromStr s).isSome && s.contains '.' then .fixed
  else if (stringToU256 r s).isSome then .number
  else if (stringToI256 r s).isSome then .int256
  else .string

def getKindFromJsonValue : JsonValue → Kind
  | .string s => getKindFromText r s
  | .number (.float _) => .fixed
  | .number (.negInt _) => .int64
  | .number (.posInt _) => .number
  | .bool _ => .bool
  | .array _ => .array
  | .object _ => .map
  | .null => .null

/-- The text of a value that is compared. -/
def valueText : JsonValue → List Char
  | .string s => s
  | .number n => n.toText
  | .bool b => boolText b
  | .null => "null".toList
  | value => r.jsonToString value

end Kinds

/-! ### Comparisons by kind -/

section Comparisons

variable (r : Readers)

/-- A comparison that knows `==` and `!=` alone. -/
def compareEqual (op : ComparisonOperator) (equal : Bool) : Except EvaluationError Bool :=
  match op with
  | .eq => .ok equal
  | .ne => .ok !equal
  | op => .error (.unsupportedOperator op)

/-- The text of a literal that is a number or in quotes. -/
def numericText : LiteralValue → Except EvaluationError (List Char)
  | .number s => .ok s
  | .str s => .ok s
  | .bool _ => .error .typeMismatch

def quotedText : LiteralValue → Except EvaluationError (List Char)
  | .str s => .ok s
  | _ => .error .typeMismatch

/-- The number that a text is read as. -/
def readNumber {α : Type} (read : List Char → Option α) (text : List Char) :
    Except EvaluationError α :=
  match read text with
  | some n => .ok n
  | none => .error (.parseError text)

/-- Reads the left side, then the right side, and compares the numbers. -/
def compareNumbers {α : Type} [LinearOrder α] (read : List Char → Option α) (leftStr : List Char)
    (op : ComparisonOperator) (rightLiteral : LiteralValue) : Except EvaluationError Bool := do
  let left ← readNumber read leftStr
  let rightStr ← numericText rightLiteral
  let right ← readNumber read rightStr
  return compareOrderedValues left op right

def compareU256 := @compareNumbers U256 _ (stringToU256 r)

def compareI256 := @compareNumbers Int _ (stringToI256 r)

def compareFixedPoint := @compareNumbers Rat _ r.decimalFromStr

def JsonValue.isArray : JsonValue → Bool
  | array _ => true
  | _ => false

def compareArray (lhsJsonArrayStr : List Char) (op : ComparisonOperator)
    (rhsLiteral : LiteralValue) : Except EvaluationError Bool := do
  let rhsTargetStr ← quotedText rhsLiteral
  if op = .eq ∨ op = .ne then
    let lhsJson ← readNumber r.jsonFromStr lhsJsonArrayStr
    let rhsJson ← readNumber r.jsonFromStr rhsTargetStr
    if lhsJson.isArray && rhsJson.isArray then compareEqual op (lhsJson == rhsJson)
    else throw .typeMismatch
  else throw (.unsupportedOperator op)

def compareAddress (left : List Char) (op : ComparisonOperator) (rightLiteral : LiteralValue) :
    Except EvaluationError Bool := do
  let right ← quotedText rightLiteral
  compareEqual op (areSameAddress r left right)

def compareString (lhsStr : List Char) (op : ComparisonOperator) (rhsLiteral : LiteralValue) :
    Except EvaluationError Bool := do
  let rhsStr ← quotedText rhsLiteral
  compareEqual op (r.toLowercase lhsStr == r.toLowercase rhsStr)

def parseBool (s : List Char) : Option Bool :=
  if s = "true".toList then some true else if s = "false".toList then some false else none

def compareBoolean (lhsValueStr : List Char) (op : ComparisonOperator) (rhsLiteral : LiteralValue) :
    Except EvaluationError Bool := do
  let lhs ← readNumber parseBool lhsValueStr
  match rhsLiteral with
  | .bool rhs => compareEqual op (lhs == rhs)
  | _ => throw .typeMismatch

def compareFinalValues (lhsKind : Kind) (lhsValueStr : List Char) (op : ComparisonOperator)
    (rhsLiteral : LiteralValue) : Except EvaluationError Bool :=
  match lhsKind with
  | .int64 | .int256 => compareI256 r lhsValueStr op rhsLiteral
  | .number | .uint256 => compareU256 r lhsValueStr op rhsLiteral
  | .array => compareArray r lhsValueStr op rhsLiteral
  | .fixed => compareFixedPoint r lhsValueStr op rhsLiteral
  | .address => compareAddress r lhsValueStr op rhsLiteral
  | .string | .bytes | .bytes32 => compareString r lhsValueStr op rhsLiteral
  | .bool => compareBoolean lhsValueStr op rhsLiteral
  | .map | .null => .error .typeMismatch

end Comparisons

/-! ### Paths -/

def applyAccessor : Accessor → JsonValue → Except EvaluationError JsonValue
  | .key key, .object entries =>
    match entries.lookup key with
    | some value => .ok value
    | none => .error (.variableNotFound key)
  | .index index, .array items =>
    match items[index.val]? with
    | some value => .ok value
    | none => .error (.indexOutOfBounds index)
  | _, _ => .error .typeMismatch

def VariableSource.sign : VariableSource → List Char
  | event => ['$']
  | table => ['@']

def resolvePathWithTable (path : ConditionLeft) (eventData : JsonValue)
    (tableData : Option JsonValue) : Except EvaluationError JsonValue := do
  let data ←
    match path.source, tableData with
    | .event, _ => .ok eventData
    | .table, some row => .ok row
    | .table, none => .error (.variableNotFound ('@' :: path.baseName ++
        " (table data not available - row may not exist yet)".toList))
  let base ←
    match data.get path.baseName with
    | some value => .ok value
    | none => .error (.variableNotFound (path.source.sign ++ path.baseName))
  path.accessors.foldlM (fun current accessor => applyAccessor accessor current) base

/-! ### Arithmetic -/

inductive ArithmeticValue
  | number (n : U256)
  | other (kind : Kind) (value : List Char)
deriving DecidableEq, Repr

/-- An exponent past 256 changes nothing: a base from 2 on has left the range by then. -/
def checkedPow (base exponent : U256) : Option U256 := u256 (base.val ^ min exponent.val 256)

def arithmeticResult (operator : ArithmeticOperator) (left right : U256) :
    Except EvaluationError U256 :=
  match operator with
  | .add => checked (u256 (left.val + right.val)) "addition overflow"
  | .subtract =>
    if right.val ≤ left.val then checked (u256 (left.val - right.val)) "subtraction underflow"
    else .error (.arithmeticOverflow "subtraction underflow")
  | .multiply => checked (u256 (left.val * right.val)) "multiplication overflow"
  | .divide =>
    if right.val = 0 then .error .divisionByZero
    else checked (u256 (left.val / right.val)) "division error"
  | .power => checked (checkedPow left right) "exponentiation overflow"
where
  checked (result : Option U256) (text : String) : Except EvaluationError U256 :=
    match result with
    | some n => .ok n
    | none => .error (.arithmeticOverflow text)

section Evaluation

variable (r : Readers)

/-- A text that reads as a number is one, whatever its kind. -/
def arithmeticValue (kind : Kind) (text : List Char) : ArithmeticValue :=
  match stringToU256 r text with
  | some n => .number n
  | none => .other kind text

def literalValue : LiteralValue → ArithmeticValue
  | .number s => arithmeticValue r (if s.contains '.' then .fixed else .number) s
  | .bool b => .other .bool (boolText b)
  | .str s => arithmeticValue r (getKindFromStr s) s

def evaluateArithmeticExprWithTable (eventData : JsonValue) (tableData : Option JsonValue) :
    ArithmeticExpr → Except EvaluationError ArithmeticValue
  | .var path => do
    let resolved ← resolvePathWithTable path eventData tableData
    return arithmeticValue r (getKindFromJsonValue r resolved) (valueText r resolved)
  | .literal l => .ok (literalValue r l)
  | .binary left operator right => do
    let leftVal ← evaluateArithmeticExprWithTable eventData tableData left
    let rightVal ← evaluateArithmeticExprWithTable eventData tableData right
    match leftVal, rightVal with
    | .number leftNum, .number rightNum =>
      return .number (← arithmeticResult operator leftNum rightNum)
    | _, _ => throw .typeMismatch

/-- The comparison of two values: as numbers if both are, else by the kind of the left one. -/
def compareValues (op : ComparisonOperator) : ArithmeticValue → ArithmeticValue →
    Except EvaluationError Bool
  | .number left, .number right => .ok (compareOrderedValues left op right)
  | .other kind value, .number right =>
    compareFinalValues r kind value op (.number (toString right.val).toList)
  | .number left, .other _ value =>
    compareFinalValues r .uint256 (toString left.val).toList op (.str value)
  | .other kind value, .other _ value' =>
    compareFinalValues r kind value op
      (if value' = "true".toList then .bool true
        else if value' = "false".toList then .bool false else .str value')

def evaluateConditionWithTable (condition : Condition) (eventData : JsonValue)
    (tableData : Option JsonValue) : Except EvaluationError Bool := do
  let leftVal ← evaluateArithmeticExprWithTable r eventData tableData condition.left
  let rightVal ← evaluateArithmeticExprWithTable r eventData tableData condition.right
  compareValues r condition.operator leftVal rightVal

def evaluateWithTableData (eventData : JsonValue) (tableData : Option JsonValue) :
    Expression → Except EvaluationError Bool
  | .logical left operator right => do
    let leftVal ← evaluateWithTableData eventData tableData left
    match operator, leftVal with
    | .and, false => return false
    | .or, true => return true
    | _, _ => evaluateWithTableData eventData tableData right
  | .not inner => do
    let result ← evaluateWithTableData eventData tableData inner
    return !result
  | .condition condition => evaluateConditionWithTable r condition eventData tableData

/-- Without a row. -/
def evaluate (data : JsonValue) (expression : Expression) : Except EvaluationError Bool :=
  evaluateWithTableData r data none expression

/-- The value of the expression in a text; a text that does not parse has none. -/
def filterByExpression (expressionStr : List Char) (data : JsonValue) :
    Option (Except EvaluationError Bool) :=
  (parse expressionStr).map (evaluate r data)

end Evaluation

end Rindexer.Filter
