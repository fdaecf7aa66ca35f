import Rindexer.Database.Names
import Rindexer.Filter.Evaluation
import Rindexer.Lib.Splitter
import Rindexer.Tables.CallCache

/-! The texts of calls and of conditional values: how they are taken apart.  A text is its characters;
a slice is given by byte offsets, and panics where these are not between characters. -/

namespace Rindexer.Tables

open Rindexer.Lib Rindexer.Database Rindexer.Filter

/-! ### Slices -/

structure Panic
deriving Repr, DecidableEq

/-- `s[n..]`. -/
def sliceFrom : List Char → Nat → Except Panic (List Char)
  | s, 0 => .ok s
  | [], _ + 1 => .error ⟨⟩
  | c :: s, n + 1 =>
    if c.utf8Size ≤ n + 1 then sliceFrom s (n + 1 - c.utf8Size) else .error ⟨⟩

/-- `s[..n]`. -/
def sliceTo : List Char → Nat → Except Panic (List Char)
  | _, 0 => .ok []
  | [], _ + 1 => .error ⟨⟩
  | c :: s, n + 1 =>
    if c.utf8Size ≤ n + 1 then (sliceTo s (n + 1 - c.utf8Size)).map (c :: ·) else .error ⟨⟩

/-- `s[a..b]`. -/
def slice (s : List Char) (a b : Nat) : Except Panic (List Char) := do sliceFrom (← sliceTo s b) a

/-- The offset of the first occurrence. -/
def findText (needle : List Char) : List Char → Option Nat
  | [] => if needle = [] then some 0 else none
  | c :: s =>
    if needle.isPrefixOf (c :: s) then some 0 else (findText needle s).map (· + c.utf8Size)

def trimQuotes (s : List Char) : List Char :=
  ((s.dropWhile (· == '"')).reverse.dropWhile (· == '"')).reverse

/-! ### Parentheses -/

def parenStep (depth : Int) (c : Char) : Int :=
  if c = '(' then depth + 1 else if c = ')' then depth - 1 else depth

/-- The position of the parenthesis that brings the depth to 0, where a character takes `width`. -/
def closingParen (width : Char → Nat) : Nat → Int → List Char → Option Nat
  | _, _, [] => none
  | i, depth, c :: s =>
    if c = '(' then closingParen width (i + width c) (depth + 1) s
    else if c = ')' then
      if depth - 1 = 0 then some i else closingParen width (i + width c) (depth - 1) s
    else closingParen width (i + width c) depth s

/-- The loops that cut a text at commas: the parts so far, the current one and the scanner's state. -/
def splitLoop {σ : Type} [DecidableEq σ] (sp : Splitter Char σ) :
    List (List Char) → List Char → σ → List Char → List (List Char) × List Char
  | parts, current, _, [] => (parts, current)
  | parts, current, q, c :: s =>
    if c = sp.separator ∧ q = sp.home then splitLoop sp (parts ++ [current]) [] (sp.step q c) s
    else splitLoop sp parts (current ++ [c]) (sp.step q c) s

/-- Commas outside of parentheses. -/
def parenSplitter : Splitter Char Int := ⟨parenStep, 0, ','⟩

/-- The state of the scanner of arguments: whether it is within quotes, and the depth. -/
def argStep (q : Bool × Int) (c : Char) : Bool × Int :=
  if c = '"' then (!q.1, q.2) else (q.1, parenStep q.2 c)

/-- Commas outside of quotes and of parentheses. -/
def argSplitter : Splitter Char (Bool × Int) := ⟨argStep, (false, 0), ','⟩

/-! ### Conditional values -/

def parseConditionalValue (value : List Char) : Option (List Char × List Char × List Char) :=
  if "$if(".toList.isPrefixOf value ∧ 4 < value.length ∧ value.getLast? = some ')' then
    let (parts, current) := splitLoop parenSplitter [] [] 0 (value.drop 4).dropLast
    match (parts ++ [current]).map trim with
    | [condition, trueValue, falseValue] => some (condition, trueValue, falseValue)
    | _ => none
  else none

/-! ### Calls within a text -/

/-- The offset of the next call and the length of the text that opens it. -/
def nextCall (remaining : List Char) : Except Panic (Option (Nat × Nat)) :=
  match findText "$call_static(".toList remaining, findText "$call(".toList remaining with
  | some staticPos, some regularPos =>
    if regularPos < staticPos then do
      if "$call_static(".toList.isPrefixOf (← sliceFrom remaining regularPos) then
        return some (staticPos, 13)
      return some (regularPos, 6)
    else .ok (some (staticPos, 13))
  | some staticPos, none => .ok (some (staticPos, 13))
  | none, some regularPos => .ok (some (regularPos, 6))
  | none, none => .ok none

/-- The loop from an offset on; each round passes the text that opens a call. -/
def findCallsFrom (value : List Char) : Nat → Nat → Except Panic (List (Nat × Nat × List Char))
  | 0, _ => .ok []
  | fuel + 1, searchStart =>
    if searchStart < utf8Len value then do
      match ← nextCall (← sliceFrom value searchStart) with
      | none => return []
      | some (pos, openLength) =>
        let absoluteStart := searchStart + pos
        let callStart := absoluteStart + openLength
        match closingParen Char.utf8Size callStart 1 (← sliceFrom value callStart) with
        | some stop =>
          let callExpr ← slice value absoluteStart (stop + 1)
          return (absoluteStart, stop + 1, callExpr) :: (← findCallsFrom value fuel (stop + 1))
        | none => findCallsFrom value fuel callStart
    else .ok []

def findCallPatterns (value : List Char) : Except Panic (List (Nat × Nat × List Char)) :=
  findCallsFrom value value.length 0

/-! ### View calls -/

structure ViewCall where
  contractAddress : List Char
  functionSig : List Char
  args : List (List Char)
  accessor : Option (List Char)
  returnFields : List ReturnField
  isStatic : Bool

/-- The words between whitespace. -/
def splitWhitespace : List Char → List (List Char)
  | [] => []
  | c :: s =>
    if isWhiteSpace c then splitWhitespace s
    else
      match s.takeWhile (! isWhiteSpace ·), splitWhitespace s with
      | [], words => [c] :: words
      | word, words => (c :: word) :: words.tail

def simpleReturnField (s : List Char) : Option ReturnField :=
  match splitWhitespace s with
  | [typeStr] => some (.mk "" (.ofList typeStr) [])
  | [typeStr, name] => some (.mk (.ofList name) (.ofList typeStr) [])
  | _ => none

/-- One field; `parseTuple` reads the fields of a nested tuple. -/
def parseSingleReturnField (parseTuple : List Char → Except Panic (List ReturnField))
    (text : List Char) : Except Panic (Option ReturnField) :=
  let s := trim text
  if s = [] then .ok none
  else if s.head? = some '(' then
    match closingParen (fun _ => 1) 0 0 s with
    | some stop => do
      let tuplePart ← sliceTo s (stop + 1)
      let name := trim (← sliceFrom s (stop + 1))
      return some (.mk (.ofList name) "tuple" (← parseTuple tuplePart))
    | none => .ok (simpleReturnField s)
  else .ok (simpleReturnField s)

/-- The fields of a list: what is empty behind the last comma is no field. -/
def parseReturnFieldList (parseTuple : List Char → Except Panic (List ReturnField))
    (s : List Char) : Except Panic (List ReturnField) := do
  let (parts, current) := splitLoop parenSplitter [] [] 0 s
  let texts := if trim current = [] then parts else parts ++ [current]
  let fields ← texts.mapM fun text => parseSingleReturnField parseTuple (trim text)
  return fields.filterMap id

/-- A nested tuple is shorter than its text, which bounds the depth. -/
def parseReturnFieldsTo : Nat → List Char → Except Panic (List ReturnField)
  | 0, _ => .ok []
  | fuel + 1, text =>
    let s := trim text
    if s.head? = some '(' ∧ s.getLast? = some ')' then
      parseReturnFieldList (parseReturnFieldsTo fuel) s.tail.dropLast
    else .ok []

def parseReturnFields (s : List Char) : Except Panic (List ReturnField) :=
  parseReturnFieldsTo s.length s

/-- `to_lowercase`, of which only the ASCII part is stated. -/
structure LowerCase where
  toLowercase : List Char → List Char
  ascii : ∀ s, (∀ c ∈ s, c.toNat < 128) → toLowercase s = s.map Char.toLower

theorem lowerCase_of_ascii (s : List Char) (_ : ∀ c ∈ s, c.toNat < 128) :
    s.map Char.toLower = s.map Char.toLower :=
  rfl

section ViewCalls

variable (lower : LowerCase)

def parseFunctionSigWithReturns (sig : List Char) : Except Panic (List Char × List ReturnField) :=
  match findText " returns ".toList (lower.toLowercase sig) with
  | some returnsIdx => do
    let cleanSig := trim (← sliceTo sig returnsIdx)
    let returnsPart := trim (← sliceFrom sig (returnsIdx + 9))
    return (cleanSig, ← parseReturnFields returnsPart)
  | none => .ok (sig, [])

/-- The arguments; what is empty behind the last comma is no argument. -/
def splitCallArgs (s : List Char) : List (List Char) :=
  let (parts, current) := splitLoop argSplitter [] [] (false, 0) s
  if current = [] then parts else parts ++ [current]

/-- What follows the closing parenthesis. -/
def accessorAfter (value : List Char) (callEnd : Nat) : Except Panic (Option (List Char)) :=
  if callEnd + 1 < utf8Len value then do
    let acc := trim (← sliceFrom value (callEnd + 1))
    return if acc = [] then none else some acc
  else .ok none

def viewCallOf (isStatic : Bool) (accessor : Option (List Char)) :
    List (List Char) → Except Panic (Option ViewCall)
  | contractAddress :: fullSig :: args => do
    let (functionSig, returnFields) ← parseFunctionSigWithReturns lower (trimQuotes (trim fullSig))
    return some ⟨trim contractAddress, functionSig, args.map trim, accessor, returnFields, isStatic⟩
  | _ => .ok none

def parseViewCall (value : List Char) : Except Panic (Option ViewCall) :=
  let isStatic := "$call_static(".toList.isPrefixOf value
  let start := if isStatic then 13 else 6
  -- the position counts characters and is used as an offset below
  match closingParen (fun _ => 1) start 1 (value.drop start) with
  | none => .ok none
  | some callEnd => do
    let inner ← slice value start callEnd
    let accessor ← accessorAfter value callEnd
    viewCallOf lower isStatic accessor (splitCallArgs inner)

end ViewCalls

/-! ### Accessors -/

inductive AccessorSegment
  | index (idx : Nat)
  | field (name : List Char)
deriving Repr, DecidableEq

/-- Digits, with an optional plus, of a number that fits 64 bits. -/
def parseUsize (s : List Char) : Option Nat :=
  let digits := if s.head? = some '+' then s.tail else s
  if digits ≠ [] ∧ digits.all Char.isDigit ∧ Nat.ofDigitChars 10 digits 0 < 2 ^ 64 then
    some (Nat.ofDigitChars 10 digits 0)
  else none

def endsField (c : Char) : Bool := c == '.' || c == '['

/-- The segments of a trimmed accessor.  Each round takes at least one character. -/
def accessorSegments : Nat → List Char → List AccessorSegment
  | 0, _ => []
  | _ + 1, [] => []
  | fuel + 1, c :: rest =>
    if c = '[' then
      if ']' ∈ rest then
        (parseUsize (rest.takeWhile (· != ']'))).toList.map .index ++
          accessorSegments fuel ((rest.dropWhile (· != ']')).drop 1)
      else []
    else if c = '.' then
      let name := rest.takeWhile (! endsField ·)
      (if name = [] then [] else [.field name]) ++
        accessorSegments fuel (rest.dropWhile (! endsField ·))
    else []

def parseAccessorSegments (accessor : List Char) : List AccessorSegment :=
  accessorSegments (trim accessor).length (trim accessor)

end Rindexer.Tables
