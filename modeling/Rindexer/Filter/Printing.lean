import Rindexer.Filter.Parsing

/-! The texts of an expression: its tokens with parentheses where they are needed, and white space
after each. -/

namespace Rindexer.Filter

open Rindexer.Lib Parser

/-! ### Texts of names and literals -/

/-- The name of a variable: a word or a number. -/
def IsName (name : List Char) : Prop :=
  (∃ c cs, name = c :: cs ∧ isIdentStart c = true ∧ ∀ d ∈ cs, isIdentChar d = true) ∨
    (name ≠ [] ∧ ∀ c ∈ name, c.isDigit = true)

def IsNumber (text : List Char) : Prop :=
  ∃ sign digits fraction, text = sign ++ (digits ++ fraction) ∧
    (sign = [] ∨ sign = ['+'] ∨ sign = ['-']) ∧ (digits ≠ [] ∧ ∀ c ∈ digits, c.isDigit = true) ∧
    (fraction = [] ∨ ∃ ds, fraction = '.' :: ds ∧ ds ≠ [] ∧ ∀ c ∈ ds, c.isDigit = true)

def IsHex (text : List Char) : Prop :=
  ∃ x digits, text = '0' :: x :: digits ∧ (x = 'x' ∨ x = 'X') ∧ digits ≠ [] ∧
    ∀ c ∈ digits, isHexDigit c = true

/-- A text that can stand between two quotes: inside, the quote and the backslash follow a
backslash. -/
def IsQuoted (quote : Char) (text : List Char) : Prop := quotedContent quote text = (text, [])

def Accessor.text : Accessor → List Char
  | index i => '[' :: (Nat.toDigits 10 i ++ [']'])
  | key k => '.' :: k

def VariableSource.text : VariableSource → Char
  | event => '$'
  | table => '@'

def ConditionLeft.text (v : ConditionLeft) : List Char :=
  v.source.text :: (v.baseName ++ v.accessors.flatMap Accessor.text)

/-- A variable with a name and keys.  A path has accessors. -/
structure ConditionLeft.Valid (v : ConditionLeft) : Prop where
  name : IsName v.baseName
  keyword : isKeyword v.baseName = false
  keys : ∀ k, Accessor.key k ∈ v.accessors → IsName k
  path : ∀ p, v = path p → p.accessors ≠ []

/-! ### Tokens -/

inductive Quote
  | single
  | double
deriving DecidableEq, Repr

def Quote.char : Quote → Char
  | single => '\''
  | double => '"'

inductive Token
  | leftParen
  | rightParen
  | not
  | logical (op : LogicalOperator)
  | comparison (op : ComparisonOperator)
  | arithmetic (op : ArithmeticOperator)
  | bool (b : Bool)
  | number (text : List Char)
  | hex (text : List Char)
  | quoted (quote : Quote) (text : List Char)
  | var (v : ConditionLeft)
deriving DecidableEq, Repr

def LogicalOperator.text : LogicalOperator → List Char
  | and => "&&".toList
  | or => "||".toList

def ComparisonOperator.text : ComparisonOperator → List Char
  | eq => "==".toList
  | ne => "!=".toList
  | gt => ">".toList
  | gte => ">=".toList
  | lt => "<".toList
  | lte => "<=".toList

def ArithmeticOperator.char : ArithmeticOperator → Char
  | add => '+'
  | subtract => '-'
  | multiply => '*'
  | divide => '/'
  | power => '^'

namespace Token

def text : Token → List Char
  | leftParen => ['(']
  | rightParen => [')']
  | not => ['!']
  | logical op => op.text
  | comparison op => op.text
  | arithmetic op => [op.char]
  | bool b => if b then "true".toList else "false".toList
  | number text => text
  | hex text => text
  | quoted quote text => quote.char :: (text ++ [quote.char])
  | var v => v.text

/-- The operand that a token is. -/
def operand? : Token → Option ArithmeticExpr
  | bool b => some (.literal (.bool b))
  | number text => some (.literal (.number text))
  | hex text => some (.literal (.str text))
  | quoted _ text => some (.literal (.str text))
  | var v => some (.var v)
  | _ => none

def Valid : Token → Prop
  | number text => IsNumber text
  | hex text => IsHex text
  | quoted quote text => IsQuoted quote.char text
  | var v => v.Valid
  | _ => True

def isPower : Token → Bool
  | arithmetic .power => true
  | _ => false

def isArithmetic : Token → Bool
  | arithmetic _ => true
  | _ => false

def isLogical : Token → Bool
  | logical _ => true
  | _ => false

/-- Tokens that cannot follow each other without white space: a literal without quotes and `^`; a
variable that ends with a key and an arithmetic or logical operator; a variable that is a number, and
`^` or a logical operator. -/
def clashes : Token → Token → Bool
  | bool _, t => t.isPower
  | number _, t => t.isPower
  | hex _, t => t.isPower
  | var v, t =>
    match v.accessors.getLast? with
    | some (.key _) => t.isArithmetic || t.isLogical
    | some (.index _) => false
    | none => v.baseName.all Char.isDigit && (t.isPower || t.isLogical)
  | _, _ => false

end Token

/-- Tokens, each with the white space after it. -/
abbrev Layout := List (Token × List Char)

namespace Layout

def text (ts : Layout) : List Char := ts.flatMap fun t => t.1.text ++ t.2

@[simp] theorem text_nil : text [] = [] := rfl

@[simp] theorem text_cons (t : Token) (w : List Char) (ts : Layout) :
    text ((t, w) :: ts) = t.text ++ (w ++ text ts) := by
  simp [text, List.append_assoc]

@[simp] theorem text_append (ts us : Layout) : text (ts ++ us) = text ts ++ text us :=
  List.flatMap_append

/-- No two tokens clash. -/
def Separated : Layout → Prop
  | [] => True
  | [_] => True
  | (t, w) :: (t', w') :: ts => (w = [] → t.clashes t' = false) ∧ Separated ((t', w') :: ts)

end Layout

/-! ### Layouts of an expression -/

def ArithmeticOperator.level : ArithmeticOperator → Nat
  | add | subtract => 0
  | multiply | divide => 1
  | power => 2

def LogicalOperator.level : LogicalOperator → Nat
  | or => 0
  | and => 1

/-- The layouts of an arithmetic expression whose operators outside parentheses bind at least as
tightly as a level. -/
inductive ArithmeticExpr.Prints : Nat → ArithmeticExpr → Layout → Prop
  | operand {l : Nat} {t : Token} {e : ArithmeticExpr} (w : List Char) (h : t.operand? = some e)
      (hValid : t.Valid) : Prints l e [(t, w)]
  | parens {l : Nat} {e : ArithmeticExpr} {ts : Layout} (w w' : List Char) (h : Prints 0 e ts) :
      Prints l e ((.leftParen, w) :: (ts ++ [(.rightParen, w')]))
  | binary {l : Nat} {left right : ArithmeticExpr} {ts us : Layout} (op : ArithmeticOperator)
      (w : List Char) (hLevel : l ≤ op.level) (h : Prints op.level left ts)
      (h' : Prints (op.level + 1) right us) :
      Prints l (.binary left op right) (ts ++ (.arithmetic op, w) :: us)

/-- The layouts of an expression, with `||` at level 0, `&&` at level 1 and terms at level 2. -/
inductive Expression.Prints : Nat → Expression → Layout → Prop
  | condition {l : Nat} {left right : ArithmeticExpr} {ts us : Layout} (op : ComparisonOperator)
      (w : List Char) (h : left.Prints 0 ts) (h' : right.Prints 0 us) :
      Prints l (.condition ⟨left, op, right⟩) (ts ++ (.comparison op, w) :: us)
  | not {l : Nat} {e : Expression} {ts : Layout} (w : List Char) (h : Prints 2 e ts) :
      Prints l (.not e) ((.not, w) :: ts)
  | parens {l : Nat} {e : Expression} {ts : Layout} (w w' : List Char) (h : Prints 0 e ts) :
      Prints l e ((.leftParen, w) :: (ts ++ [(.rightParen, w')]))
  | logical {l : Nat} {left right : Expression} {ts us : Layout} (op : LogicalOperator)
      (w : List Char) (hLevel : l ≤ op.level) (h : Prints op.level left ts)
      (h' : Prints (op.level + 1) right us) :
      Prints l (.logical left op right) (ts ++ (.logical op, w) :: us)

end Rindexer.Filter
