import Mathlib.Tactic.Common
import Mathlib.Tactic.NormNum

/-! The syntax trees of filter expressions.  Names and literals are slices of the text of the
expression. -/

namespace Rindexer.Filter

/-! ### The widths of machine numbers -/

instance neZero_two_pow_63 : NeZero (2 ^ 63 : Nat) := ⟨by decide⟩

instance neZero_two_pow_64 : NeZero (2 ^ 64 : Nat) := ⟨by decide⟩

instance neZero_two_pow_128 : NeZero (2 ^ 128 : Nat) := ⟨by decide⟩

instance neZero_two_pow_256 : NeZero (2 ^ 256 : Nat) := ⟨by decide⟩

theorem u64_le_u256 : 2 ^ 64 ≤ 2 ^ 256 := by decide

/-! ### Expressions -/

inductive LiteralValue
  | bool (b : Bool)
  /-- A hexadecimal literal, or what stands between quotes with its escapes. -/
  | str (s : List Char)
  | number (s : List Char)
deriving DecidableEq, Repr

inductive ComparisonOperator
  | eq
  | ne
  | gt
  | gte
  | lt
  | lte
deriving DecidableEq, Repr

inductive ArithmeticOperator
  | add
  | subtract
  | multiply
  | divide
  | power
deriving DecidableEq, Repr

inductive LogicalOperator
  | and
  | or
deriving DecidableEq, Repr

/-- Where a variable is looked up: in the event, or in the row of the table. -/
inductive VariableSource
  | event
  | table
deriving DecidableEq, Repr

inductive Accessor
  | index (i : Fin (2 ^ 64))
  | key (k : List Char)
deriving DecidableEq, Repr

structure VariablePath where
  base : List Char
  accessors : List Accessor
  source : VariableSource
deriving DecidableEq, Repr

inductive ConditionLeft
  | simple (name : List Char) (source : VariableSource)
  | path (p : VariablePath)
deriving DecidableEq, Repr

namespace ConditionLeft

def baseName : ConditionLeft → List Char
  | simple name _ => name
  | path p => p.base

def accessors : ConditionLeft → List Accessor
  | simple _ _ => []
  | path p => p.accessors

def source : ConditionLeft → VariableSource
  | simple _ source => source
  | path p => p.source

end ConditionLeft

inductive ArithmeticExpr
  | var (v : ConditionLeft)
  | literal (l : LiteralValue)
  | binary (left : ArithmeticExpr) (operator : ArithmeticOperator) (right : ArithmeticExpr)
deriving DecidableEq, Repr

structure Condition where
  left : ArithmeticExpr
  operator : ComparisonOperator
  right : ArithmeticExpr
deriving DecidableEq, Repr

inductive Expression
  | condition (c : Condition)
  | logical (left : Expression) (operator : LogicalOperator) (right : Expression)
  | not (inner : Expression)
deriving DecidableEq, Repr

def ArithmeticExpr.hasTableReferences : ArithmeticExpr → Bool
  | var v => v.source == .table
  | literal _ => false
  | binary left _ right => left.hasTableReferences || right.hasTableReferences

def Expression.hasTableReferences : Expression → Bool
  | condition c => c.left.hasTableReferences || c.right.hasTableReferences
  | logical left _ right => left.hasTableReferences || right.hasTableReferences
  | not inner => inner.hasTableReferences

end Rindexer.Filter
