import Rindexer.Filter.Completeness
import Rindexer.Filter.Readers

/-! The conditions of the `conditions` lists: clauses without a left side, joined by `&&` and `||`.
They are rewritten into expressions about a placeholder. -/

namespace Rindexer.Filter

open Rindexer.Lib Parser

/-! ### The rewriting -/

def placeholder : List Char := "_placeholder_".toList

/-- The regular expression `\s*(&&|\|\|)\s*` replaced by ` $1 _placeholder_ `.  `pending` is white
space that an operator may follow, and `skip` says that white space after an operator is dropped. -/
def insertSubject (pending : List Char) (skip : Bool) : List Char → List Char
  | [] => pending
  | c :: s =>
    match s with
    | [] => if isWhiteSpace c && skip then pending else pending ++ [c]
    | d :: s' =>
      if (c = '&' ∨ c = '|') ∧ d = c then
        ' ' :: c :: d :: ' ' :: (placeholder ++ ' ' :: insertSubject [] true s')
      else if isWhiteSpace c then
        if skip then insertSubject pending true (d :: s')
        else insertSubject (pending ++ [c]) false (d :: s')
      else pending ++ c :: insertSubject [] false (d :: s')

/-- The text of a value without a structure. -/
def simpleText : JsonValue → Option (List Char)
  | .string s => some s
  | .number n => some n.toText
  | .bool b => some (boolText b)
  | .null => some "null".toList
  | _ => none

def isOperatorChar (c : Char) : Bool := ['&', '|', '>', '<', '=', '!'].contains c

def evaluateCondition (r : Readers) (value : JsonValue) (condition : List Char) : Bool :=
  if !condition.any isOperatorChar then simpleText value == some condition
  else
    let finalExpr := placeholder ++ ' ' :: insertSubject [] false (trim condition)
    match filterByExpression r finalExpr (.object [(placeholder, value)]) with
    | some (.ok result) => result
    | _ => false

/-- The value at a path with dots. -/
def getNestedValue (data : JsonValue) (path : List Char) : Option JsonValue :=
  (path.splitOn '.').foldlM (fun current key => current.get key) data

def filterEventDataByConditions (r : Readers) (eventData : JsonValue)
    (conditions : List (List (List Char × JsonValue))) : Bool :=
  conditions.all fun condition => condition.all fun (key, value) =>
    match getNestedValue eventData key with
    | some eventValue =>
      evaluateCondition r eventValue (match value with | .string s => s | _ => [])
    | none => false

/-! ### Conditions -/

/-- An operator, blanks and a literal. -/
structure LegacyClause where
  op : ComparisonOperator
  blanks : List Char
  token : Token
  literal : LiteralValue
  isBlank : ∀ c ∈ blanks, isBlank c = true
  operand : token.operand? = some (.literal literal)
  valid : token.Valid

def LegacyClause.text (c : LegacyClause) : List Char := c.op.text ++ (c.blanks ++ c.token.text)

/-- The white space around an operator. -/
structure Gap where
  before : List Char
  after : List Char
  white_before : ∀ c ∈ before, isWhiteSpace c = true
  white_after : ∀ c ∈ after, isWhiteSpace c = true

def Gap.text (g : Gap) (op : LogicalOperator) : List Char := g.before ++ (op.text ++ g.after)

structure Conjunction where
  first : LegacyClause
  rest : List (Gap × LegacyClause)

def Conjunction.text (c : Conjunction) : List Char :=
  c.first.text ++ c.rest.flatMap fun x => x.1.text .and ++ x.2.text

def Conjunction.clauses (c : Conjunction) : List LegacyClause := c.first :: c.rest.map Prod.snd

/-- Conjunctions joined by `||`, with white space around the whole. -/
structure LegacyCondition where
  gap : Gap
  first : Conjunction
  rest : List (Gap × Conjunction)

namespace LegacyCondition

def body (c : LegacyCondition) : List Char :=
  c.first.text ++ c.rest.flatMap fun x => x.1.text .or ++ x.2.text

def text (c : LegacyCondition) : List Char := c.gap.before ++ (c.body ++ c.gap.after)

def conjunctions (c : LegacyCondition) : List Conjunction := c.first :: c.rest.map Prod.snd

end LegacyCondition

/-! ### Meaning -/

/-- The comparison of the value with the literal of a clause. -/
def LegacyClause.value (r : Readers) (value : JsonValue) (c : LegacyClause) :
    Except EvaluationError Bool :=
  compareValues r c.op (arithmeticValue r (getKindFromJsonValue r value) (valueText r value))
    (literalValue r c.literal)

/-- From left to right, up to the first that is false or an error. -/
def shortAnd : List (Except EvaluationError Bool) → Except EvaluationError Bool
  | [] => .ok true
  | .error e :: _ => .error e
  | .ok false :: _ => .ok false
  | .ok true :: rest => shortAnd rest

/-- From left to right, up to the first that is true or an error. -/
def shortOr : List (Except EvaluationError Bool) → Except EvaluationError Bool
  | [] => .ok false
  | .error e :: _ => .error e
  | .ok true :: _ => .ok true
  | .ok false :: rest => shortOr rest

def Conjunction.value (r : Readers) (value : JsonValue) (c : Conjunction) :
    Except EvaluationError Bool :=
  shortAnd (c.clauses.map (LegacyClause.value r value))

def LegacyCondition.value (r : Readers) (value : JsonValue) (c : LegacyCondition) :
    Except EvaluationError Bool :=
  shortOr (c.conjunctions.map (Conjunction.value r value))

/-! ### Texts of clauses -/

/-- `&&` or `||` stands somewhere in the text. -/
def hasOperator : List Char → Bool
  | [] => false
  | c :: s => ((c == '&' || c == '|') && s.head? == some c) || hasOperator s

def isAmpOrBar (c : Char) : Bool := c == '&' || c == '|'

theorem hasOperator_append {x s : List Char} (h : ∀ c ∈ x, isAmpOrBar c = false) :
    hasOperator (x ++ s) = hasOperator s := by
  induction x with
  | nil => rfl
  | cons c x ih =>
    have hc : (c == '&' || c == '|') = false := h c List.mem_cons_self
    rw [List.cons_append, hasOperator, hc, Bool.false_and, Bool.false_or]
    exact ih fun d hd => h d (List.mem_cons_of_mem _ hd)

theorem hasOperator_concat {s : List Char} {d : Char} (h : isAmpOrBar d = false) :
    hasOperator (s ++ [d]) = hasOperator s := by
  induction s with
  | nil => exact hasOperator_append (x := [d]) (s := []) (by simpa using h)
  | cons c s ih =>
    cases s with
    | nil =>
      have hd : (d == c && isAmpOrBar c) = false := by
        rw [Bool.and_eq_false_iff]
        by_cases hEq : d = c
        · exact Or.inr (hEq ▸ h)
        · exact Or.inl (by simpa using hEq)
      simp only [List.cons_append, List.nil_append, hasOperator, isAmpOrBar] at hd h ⊢
      grind
    | cons e s =>
      rw [List.cons_append, hasOperator, ih]
      rfl

/-- A text that the rewriting leaves as it is: it starts and ends with no white space, ends with no part
of an operator and has no operator in it. -/
structure Solid (x : List Char) : Prop where
  starts : ∃ c s, x = c :: s ∧ isWhiteSpace c = false ∧ isAmpOrBar c = false
  ends : ∃ s d, x = s ++ [d] ∧ isWhiteSpace d = false ∧ isAmpOrBar d = false
  whole : hasOperator x = false

theorem insertSubject_solid {x : List Char} (hEnds : ∃ s d, x = s ++ [d] ∧ isWhiteSpace d = false ∧
    isAmpOrBar d = false) (hWhole : hasOperator x = false) (pending s : List Char) :
    insertSubject pending false (x ++ s) = pending ++ (x ++ insertSubject [] false s) := by
  induction x generalizing pending with
  | nil =>
    obtain ⟨s, d, hNil, -⟩ := hEnds
    simp at hNil
  | cons c x ih =>
    cases x with
    | nil =>
      obtain ⟨t, d, hText, hWhite, hAmp⟩ := hEnds
      obtain ⟨rfl, rfl⟩ : t = [] ∧ c = d := by
        cases t with
        | nil => exact ⟨rfl, (List.cons.inj hText).1⟩
        | cons e t => simp at hText
      have hNot : ¬ (c = '&' ∨ c = '|') := by simpa [isAmpOrBar] using hAmp
      cases s with
      | nil => simp [insertSubject]
      | cons d s => simp [insertSubject, hNot, hWhite]
    | cons d x =>
      have hEnds' : ∃ s e, d :: x = s ++ [e] ∧ isWhiteSpace e = false ∧ isAmpOrBar e = false := by
        obtain ⟨t, e, hText, h⟩ := hEnds
        cases t with
        | nil => simp at hText
        | cons f t => exact ⟨t, e, (List.cons.inj hText).2, h⟩
      rw [hasOperator, Bool.or_eq_false_iff] at hWhole
      have hNot : ¬ ((c = '&' ∨ c = '|') ∧ d = c) := by
        have := hWhole.1
        simp at this
        grind
      have hNext := ih hEnds' hWhole.2
      rw [List.cons_append, List.cons_append, insertSubject]
      simp only [if_neg hNot]
      rw [List.cons_append] at hNext
      split
      · rw [if_neg (by simp), hNext]
        simp
      · rw [hNext]
        simp

/-- White space after an operator is dropped. -/
theorem insertSubject_skip {w s : List Char} {c : Char} (hw : ∀ d ∈ w, isWhiteSpace d = true)
    (hWhite : isWhiteSpace c = false) (hAmp : isAmpOrBar c = false) :
    insertSubject [] true (w ++ c :: s) = insertSubject [] false (c :: s) := by
  have hSelf : insertSubject [] true (c :: s) = insertSubject [] false (c :: s) := by
    have hNot : ¬ (c = '&' ∨ c = '|') := by simpa [isAmpOrBar] using hAmp
    cases s with
    | nil => simp [insertSubject, hWhite]
    | cons d s => simp [insertSubject, hNot, hWhite]
  induction w with
  | nil => exact hSelf
  | cons d w ih =>
    have hd := hw d List.mem_cons_self
    have hNot : ¬ (d = '&' ∨ d = '|') := by
      rintro (rfl | rfl)
      · exact absurd hd (by decide)
      · exact absurd hd (by decide)
    have hRest := ih fun e he => hw e (List.mem_cons_of_mem _ he)
    rw [List.cons_append]
    cases hTail : w ++ c :: s with
    | nil => simp at hTail
    | cons e t =>
      rw [hTail] at hRest
      rw [insertSubject]
      simp only [hNot, false_and, if_false, hd, if_true]
      exact hRest

theorem insertSubject_pending {w s : List Char} (op : LogicalOperator) (pending : List Char)
    (hw : ∀ d ∈ w, isWhiteSpace d = true) :
    insertSubject pending false (w ++ (op.text ++ s)) =
      ' ' :: (op.text ++ ' ' :: (placeholder ++ ' ' :: insertSubject [] true s)) := by
  induction w generalizing pending with
  | nil => cases op <;> simp [insertSubject, LogicalOperator.text]
  | cons d w ih =>
    have hd := hw d List.mem_cons_self
    have hNot : ¬ (d = '&' ∨ d = '|') := by
      rintro (rfl | rfl)
      · exact absurd hd (by decide)
      · exact absurd hd (by decide)
    have hRest := ih (pending ++ [d]) fun e he => hw e (List.mem_cons_of_mem _ he)
    rw [List.cons_append]
    cases hTail : w ++ (op.text ++ s) with
    | nil => cases op <;> simp [LogicalOperator.text] at hTail
    | cons e t =>
      rw [hTail] at hRest
      rw [insertSubject]
      simp only [hNot, false_and, if_false, hd, if_true]
      exact hRest

/-- The rewriting of an operator with the white space around it. -/
theorem insertSubject_gap (g : Gap) (op : LogicalOperator) {x s : List Char} (hx : Solid x) :
    insertSubject [] false (g.text op ++ (x ++ s)) =
      ' ' :: (op.text ++ ' ' :: (placeholder ++ ' ' :: insertSubject [] false (x ++ s))) := by
  obtain ⟨c, t, rfl, hWhite, hAmp⟩ := hx.starts
  rw [Gap.text, List.append_assoc, List.append_assoc, insertSubject_pending op [] g.white_before,
    List.cons_append, insertSubject_skip g.white_after hWhite hAmp]

end Rindexer.Filter
