import Rindexer.Filter.Ast
import Rindexer.Lib.Parser

/-! The parser of filter expressions.  Errors are failures without their texts. -/

namespace Rindexer.Filter

open Rindexer.Lib Parser

def isBlank (c : Char) : Bool := c == ' ' || c == '\t'

def space0 (s : List Char) : List Char := s.dropWhile isBlank

/-- A parser with blanks around it. -/
def spaced {α : Type} (p : Parser α) : Parser α := fun s =>
  match p (space0 s) with
  | none => none
  | some (a, r) => some (a, space0 r)

def digit1 : Parser (List Char) := takeWhile1 Char.isDigit

def isIdentStart (c : Char) : Bool := c.isAlpha || c == '_'

def isIdentChar (c : Char) : Bool := c.isAlphanum || c == '_'

def identifier : Parser (List Char) := append (oneOf isIdentStart) (takeWhile0 isIdentChar)

/-- Words that cannot be the name of a variable. -/
def isKeyword (ident : List Char) : Bool :=
  let lower := ident.map Char.toLower
  lower == "true".toList || lower == "false".toList

/-! ### Delimiters -/

def commonDelimiters : List Char :=
  [')', '(', ',', '=', '!', '>', '<', '&', '|', ']', '+', '-', '*', '/']

/-- What has to follow a literal that is not in quotes. -/
def literalDelimiter : List Char → Bool
  | [] => true
  | c :: _ => isBlank c || commonDelimiters.contains c

def keyDelimiter : List Char → Bool
  | [] => true
  | c :: _ => isBlank c || ['[', '.', '=', '!', '>', '<', ')', '('].contains c

/-- What has to follow the name of a variable that is a number. -/
def numericNameDelimiter : List Char → Bool
  | [] => true
  | c :: s =>
    isBlank c || ['[', '.', '>', '<', '+', '-', '*', '/', ')'].contains c ||
      ((c == '=' || c == '!') && s.head? == some '=')

/-! ### Literals -/

def parseBoolean : Parser LiteralValue :=
  alt (((literal "true".toList).followedBy literalDelimiter).map fun _ => .bool true)
    (((literal "false".toList).followedBy literalDelimiter).map fun _ => .bool false)

def parseNumberOrFixedStr : Parser LiteralValue :=
  ((append (opt (oneOf fun c => c == '+' || c == '-'))
    (append digit1 (opt (append (literal ['.']) digit1)))).followedBy literalDelimiter).map .number

def isHexDigit (c : Char) : Bool :=
  c.isDigit || ('a' ≤ c && c ≤ 'f') || ('A' ≤ c && c ≤ 'F')

def parseHexString : Parser LiteralValue :=
  ((append (alt (literal "0x".toList) (literal "0X".toList))
    (takeWhile1 isHexDigit)).followedBy literalDelimiter).map .str

/-- The text up to the closing quote.  A backslash takes a quote or a backslash with it. -/
def quotedContent (quote : Char) : List Char → List Char × List Char
  | [] => ([], [])
  | c :: s =>
    if c = quote then ([], c :: s)
    else if c = '\\' then
      match s with
      | [] => ([], [c])
      | d :: s' =>
        if d = quote ∨ d = '\\' then
          ('\\' :: d :: (quotedContent quote s').1, (quotedContent quote s').2)
        else ([], c :: d :: s')
    else (c :: (quotedContent quote s).1, (quotedContent quote s).2)

def parseQuotedString : Parser LiteralValue
  | [] => none
  | quote :: s =>
    if quote = '\'' ∨ quote = '"' then
      match quotedContent quote s with
      | (_, []) => none
      | (content, c :: r) => if c = quote then some (.str content, r) else none
    else none

def parseNumericOrQuotedLiteral : Parser LiteralValue :=
  spaced (alt parseQuotedString (alt parseBoolean (alt parseHexString parseNumberOrFixedStr)))

/-! ### Variables -/

/-- The index of an accessor, if it is a `usize`. -/
def parseUsize (digits : List Char) : Option (Fin (2 ^ 64)) :=
  if h : Nat.ofDigitChars 10 digits 0 < 2 ^ 64 then some ⟨_, h⟩ else none

def parseIndexAccessor : Parser Accessor := fun s =>
  match append (literal ['[']) (append digit1 (literal [']'])) s with
  | none => none
  | some (text, r) => (parseUsize (text.tail.dropLast)).map fun i => (.index i, r)

def parseKeyAccessor : Parser Accessor :=
  (((literal ['.']).andThen (alt identifier digit1)).followedBy keyDelimiter).map fun x => .key x.2

def parseAccessor : Parser Accessor := alt parseIndexAccessor parseKeyAccessor

def parseBaseVariableName : Parser (List Char × VariableSource) :=
  (((opt (alt (literal ['@']) (literal ['$']))).andThen
    (alt identifier (digit1.followedBy numericNameDelimiter))).verify fun x => !isKeyword x.2).map
      fun x => (x.2, if x.1 = ['@'] then .table else .event)

def parseConditionLhs : Parser ConditionLeft := fun s =>
  match parseBaseVariableName s with
  | none => none
  | some ((base, source), r) =>
    match fold parseAccessor (fun accessors a => accessors ++ [a]) [] r with
    | none => none
    | some ([], r') => some (.simple base source, r')
    | some (a :: accessors, r') => some (.path ⟨base, a :: accessors, source⟩, r')

/-! ### Operators -/

def parseComparisonOperator : Parser ComparisonOperator :=
  spaced (alt ((literal ">=".toList).map fun _ => .gte) (alt ((literal "<=".toList).map fun _ => .lte)
    (alt ((literal "==".toList).map fun _ => .eq) (alt ((literal "!=".toList).map fun _ => .ne)
      (alt ((literal ">".toList).map fun _ => .gt) ((literal "<".toList).map fun _ => .lt))))))

def parseAdditiveOperator : Parser ArithmeticOperator :=
  spaced (alt ((literal ['+']).map fun _ => .add) ((literal ['-']).map fun _ => .subtract))

def parseMultiplicativeOperator : Parser ArithmeticOperator :=
  spaced (alt ((literal ['*']).map fun _ => .multiply) ((literal ['/']).map fun _ => .divide))

def parsePowerOperator : Parser ArithmeticOperator :=
  spaced ((literal ['^']).map fun _ => .power)

/-- A parser in parentheses. -/
def parenthesized {α : Type} (p : Parser α) : Parser α := fun s =>
  match literal ['('] s with
  | none => none
  | some (_, r) =>
    match p (space0 r) with
    | none => none
    | some (a, r') =>
      match literal [')'] (space0 r') with
      | none => none
      | some (_, r'') => some (a, r'')

/-! ### Arithmetic

`inner` is the parser of the expression in parentheses. -/

section Arithmetic

variable (inner : Parser ArithmeticExpr)

def parseArithmeticPrimary : Parser ArithmeticExpr :=
  spaced (alt (parenthesized inner)
    (alt (parseNumericOrQuotedLiteral.map .literal) (parseConditionLhs.map .var)))

def parsePowerExpr : Parser ArithmeticExpr :=
  leftAssoc parsePowerOperator (parseArithmeticPrimary inner) .binary

def parseMultiplicativeExpr : Parser ArithmeticExpr :=
  leftAssoc parseMultiplicativeOperator (parsePowerExpr inner) .binary

def parseAdditiveExpr : Parser ArithmeticExpr :=
  leftAssoc parseAdditiveOperator (parseMultiplicativeExpr inner) .binary

end Arithmetic

/-- Expressions with parentheses up to a depth. -/
def parseArithmeticTo : Nat → Parser ArithmeticExpr
  | 0 => fun _ => none
  | n + 1 => parseAdditiveExpr (parseArithmeticTo n)

/-- No text has more parentheses than characters. -/
def parseArithmeticExpr : Parser ArithmeticExpr := fun s => parseArithmeticTo (s.length + 1) s

/-! ### Conditions and logic -/

def parseCondition : Parser Expression :=
  (parseArithmeticExpr.andThen (parseComparisonOperator.andThen parseArithmeticExpr)).map fun x =>
    .condition ⟨x.1, x.2.1, x.2.2⟩

section Logic

/- The parser of terms. -/
variable (term : Parser Expression)

def parseAndOperator : Parser LogicalOperator :=
  spaced ((literal "&&".toList).map fun _ => .and)

def parseOrOperator : Parser LogicalOperator :=
  spaced ((literal "||".toList).map fun _ => .or)

def parseAndExpression : Parser Expression := leftAssoc parseAndOperator term .logical

def parseOrExpression : Parser Expression :=
  leftAssoc parseOrOperator (parseAndExpression term) .logical

def parseExpressionOf : Parser Expression := spaced (parseOrExpression term)

/-- A negated term: `!`, blanks and a term. -/
def parseNot : Parser Expression := fun s =>
  match literal ['!'] s with
  | none => none
  | some (_, r) => (term.map .not) (space0 r)

end Logic

def parseTermTo : Nat → Parser Expression
  | 0 => fun _ => none
  | n + 1 => spaced (alt (parseNot (parseTermTo n))
      (alt (parenthesized (parseExpressionOf (parseTermTo n))) parseCondition))

def parseExpressionTo (n : Nat) : Parser Expression := parseExpressionOf (parseTermTo n)

/-- Parses an expression up to the end of the text. -/
def parse (s : List Char) : Option Expression :=
  match parseExpressionTo (s.length + 1) s with
  | some (e, []) => some e
  | _ => none

end Rindexer.Filter
