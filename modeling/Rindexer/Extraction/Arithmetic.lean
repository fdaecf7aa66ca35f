import Rindexer.Extraction.Values
import Rindexer.Filter.Operands
import Rindexer.Lib.Reading

/-! Computed columns: the parser of their expressions, whose variables may have a `$`, and their values.
A text that is no operation is one operand, with blanks and parentheses around it. -/

namespace Rindexer.Extraction

open Rindexer.Lib Rindexer.Filter
open Rindexer.Lib.Parser hiding literal
open Rindexer.Lib.Parser (literal)

/-! ### The parser -/

def numericNameDelimiterWithDollar : List Char → Bool
  | [] => true
  | c :: _ => isBlank c || ['[', '.', '+', '-', '*', '/', ')'].contains c

def parseBaseVariableNameWithDollar : Parser (List Char × VariableSource) :=
  (((opt (alt (literal ['@']) (literal ['$']))).andThen
    (alt identifier (digit1.followedBy numericNameDelimiterWithDollar))).verify
      fun x => !isKeyword x.2).map fun x => (x.2, if x.1 = ['@'] then .table else .event)

def parseConditionLhsWithDollar : Parser ConditionLeft := fun s =>
  match parseBaseVariableNameWithDollar s with
  | none => none
  | some ((base, source), r) =>
    match fold parseAccessor (fun accessors a => accessors ++ [a]) [] r with
    | none => none
    | some ([], r') => some (.simple base source, r')
    | some (a :: accessors, r') => some (.path ⟨base, a :: accessors, source⟩, r')

section Levels

variable (inner : Parser ArithmeticExpr)

def parseArithmeticPrimaryWithDollar : Parser ArithmeticExpr :=
  spaced (alt (parenthesized inner)
    (alt (parseNumericOrQuotedLiteral.map .literal) (parseConditionLhsWithDollar.map .var)))

def parsePowerExprWithDollar : Parser ArithmeticExpr :=
  leftAssoc parsePowerOperator (parseArithmeticPrimaryWithDollar inner) .binary

def parseMultiplicativeExprWithDollar : Parser ArithmeticExpr :=
  leftAssoc parseMultiplicativeOperator (parsePowerExprWithDollar inner) .binary

def parseAdditiveExprWithDollar : Parser ArithmeticExpr :=
  leftAssoc parseAdditiveOperator (parseMultiplicativeExprWithDollar inner) .binary

end Levels

/-- Expressions with parentheses up to a depth. -/
def parseArithmeticWithDollarTo : Nat → Parser ArithmeticExpr
  | 0 => fun _ => none
  | n + 1 => parseAdditiveExprWithDollar (parseArithmeticWithDollarTo n)

def parseArithmeticExpression (s : List Char) : Option ArithmeticExpr :=
  match parseArithmeticWithDollarTo (s.length + 1) s with
  | some (e, []) => some e
  | _ => none

/-! ### Values -/

inductive ComputedValue
  | u256 (n : U256)
  | string (s : List Char)
deriving DecidableEq, Repr

def ArithmeticValue.computed : ArithmeticValue → ComputedValue
  | .number n => .u256 n
  | .other _ value => .string value

/-- The value of an expression.  A variable is looked up in the data whatever its sign is. -/
def evaluateArithmetic (r : Readers) (exprStr : List Char) (data : JsonValue) :
    Option ComputedValue := do
  let expr ← parseArithmeticExpression exprStr
  let result ← (evaluateArithmeticExprWithTable r data (some data) expr).toOption
  return ArithmeticValue.computed result

/-! ### Texts of one operand -/

/-- The characters of variables. -/
def isVariableChar (c : Char) : Bool := isIdentChar c || ['$', '@', '.', '[', ']'].contains c

/-- The characters of the literals that have no quotes. -/
def isPlainChar (c : Char) : Bool := c.isAlphanum || ['+', '-', '.'].contains c

/-- The texts of an operand that is no operation. -/
inductive OperandText : ArithmeticExpr → List Char → Prop
  | var (v : ConditionLeft) {t : List Char} (h : ∀ c ∈ t, isVariableChar c = true) :
    OperandText (.var v) t
  | plain (l : LiteralValue) {t : List Char} (h : ∀ c ∈ t, isPlainChar c = true) :
    OperandText (.literal l) t
  | quoted {quote : Char} {text : List Char} (hQuote : quote = '\'' ∨ quote = '"')
    (h : IsQuoted quote text) : OperandText (.literal (.str text)) (quote :: text ++ [quote])

/-- An operand with blanks and parentheses around it. -/
def EnclosedText (e : ArithmeticExpr) (t : List Char) : Prop :=
  ∃ front core back, t = front ++ core ++ back ∧ (∀ c ∈ front, isBlank c = true ∨ c = '(') ∧
    (∀ c ∈ back, isBlank c = true ∨ c = ')') ∧ OperandText e core

def ArithmeticExpr.IsOperation (e : ArithmeticExpr) : Prop := ∃ left op right, e = .binary left op right

/-- What the parser reads is an operation, or one operand. -/
def OperandOrOperation (p : Parser ArithmeticExpr) : Prop :=
  ∀ s e r, p s = some (e, r) → ArithmeticExpr.IsOperation e ∨ ∃ t, s = t ++ r ∧ EnclosedText e t

theorem takesOnly_digit1 {f : Char → Bool} (h : ∀ c, c.isDigit = true → f c = true) :
    TakesOnly f digit1 := TakesOnly.takeWhile1.mono h

theorem takesOnly_identifier {f : Char → Bool} (h : ∀ c, isIdentChar c = true → f c = true) :
    TakesOnly f identifier :=
  (TakesOnly.oneOf.mono fun c hc => h c (by
    simp only [isIdentStart, isIdentChar, Char.isAlphanum, Bool.or_eq_true] at hc ⊢
    exact hc.imp_left Or.inl)).append (TakesOnly.takeWhile0.mono h)

theorem isVariableChar_of_digit {c : Char} (h : c.isDigit = true) : isVariableChar c = true := by
  simp [isVariableChar, identChar_of_digit h]

theorem isVariableChar_of_ident {c : Char} (h : isIdentChar c = true) : isVariableChar c = true := by
  simp [isVariableChar, h]

theorem takesOnly_parseAccessor : TakesOnly isVariableChar parseAccessor := by
  have hDigits : TakesOnly isVariableChar digit1 := takesOnly_digit1 fun _ => isVariableChar_of_digit
  have hIndex : TakesOnly isVariableChar parseIndexAccessor := by
    intro s a r h
    rw [parseIndexAccessor] at h
    split at h
    · cases h
    · next text r' hText =>
      obtain ⟨i, -, hi⟩ := Option.map_eq_some_iff.mp h
      cases hi
      exact (TakesOnly.literal (by decide)).append (hDigits.append (TakesOnly.literal (by decide)))
        s text r hText
  have hName : TakesOnly isVariableChar identifier :=
    takesOnly_identifier fun _ => isVariableChar_of_ident
  exact hIndex.alt (((TakesOnly.literal (by decide)).andThen (hName.alt hDigits)).followedBy.map)

theorem takesOnly_parseConditionLhsWithDollar :
    TakesOnly isVariableChar parseConditionLhsWithDollar := by
  have hBase : TakesOnly isVariableChar parseBaseVariableNameWithDollar := by
    refine TakesOnly.map (TakesOnly.verify (TakesOnly.andThen ?_ (TakesOnly.alt ?_ ?_)))
    · exact ((TakesOnly.literal (by decide)).alt (TakesOnly.literal (by decide))).opt
    · exact takesOnly_identifier fun _ => isVariableChar_of_ident
    · exact (takesOnly_digit1 fun _ => isVariableChar_of_digit).followedBy
  intro s v r h
  rw [parseConditionLhsWithDollar] at h
  rcases hName : parseBaseVariableNameWithDollar s with _ | ⟨⟨base, source⟩, r'⟩
  · simp [hName] at h
  · simp only [hName] at h
    rcases hFold : fold parseAccessor (fun accessors a => accessors ++ [a]) [] r' with
      _ | ⟨accessors, r''⟩
    · simp [hFold] at h
    · have hRest : r'' = r := by
        rw [hFold] at h
        cases accessors with
        | nil =>
          cases h
          rfl
        | cons a accessors =>
          cases h
          rfl
      subst hRest
      obtain ⟨t, rfl, hFirst⟩ := hBase s _ r' hName
      obtain ⟨u, rfl, hRest⟩ := takesOnly_parseAccessor.fold r' _ r'' hFold
      refine ⟨t ++ u, by rw [List.append_assoc], fun c hc => ?_⟩
      exact (List.mem_append.mp hc).elim (hFirst c) (hRest c)

theorem quotedContent_eq {quote : Char} {s content rest : List Char}
    (h : quotedContent quote s = (content, rest)) : s = content ++ rest ∧ IsQuoted quote content := by
  unfold IsQuoted
  fun_induction quotedContent quote s generalizing content with
  | case1 =>
    cases h
    exact ⟨rfl, rfl⟩
  | case2 s' =>
    cases h
    exact ⟨rfl, rfl⟩
  | case3 hQuote =>
    cases h
    exact ⟨rfl, rfl⟩
  | case4 d s' hEscape hQuote ih =>
    cases h
    obtain ⟨hText, hContent⟩ := ih rfl
    refine ⟨by rw [List.cons_append, List.cons_append, ← hText], ?_⟩
    rw [quotedContent.eq_def]
    simp only [if_neg hQuote, if_true, if_pos hEscape, hContent]
  | case5 d s' hEscape hQuote =>
    cases h
    exact ⟨rfl, rfl⟩
  | case6 c s' hQuote hBackslash ih =>
    cases h
    obtain ⟨hText, hContent⟩ := ih rfl
    refine ⟨by rw [List.cons_append, ← hText], ?_⟩
    rw [quotedContent.eq_def]
    simp only [if_neg hQuote, if_neg hBackslash, hContent]

theorem takesOnly_plain :
    TakesOnly isPlainChar (alt parseBoolean (alt parseHexString parseNumberOrFixedStr)) := by
  have hDigit : ∀ c, c.isDigit = true → isPlainChar c = true := fun c hc => by
    simp [isPlainChar, Char.isAlphanum, hc]
  have hHex : ∀ c, isHexDigit c = true → isPlainChar c = true := fun c hc => by
    simp only [isHexDigit, Bool.or_eq_true, Bool.and_eq_true, decide_eq_true_eq] at hc
    rcases hc with (hc | hc) | hc
    · exact hDigit c hc
    · have hLower : c.isLower = true := by
        simp only [isLower_bounds, Bool.and_eq_true, decide_eq_true_eq]
        exact ⟨hc.1, le_trans hc.2 (by decide)⟩
      simp [isPlainChar, Char.isAlphanum, isAlpha_cases, hLower]
    · have hUpper : c.isUpper = true := by
        simp only [isUpper_bounds, decide_eq_true_eq]
        exact ⟨hc.1, le_trans hc.2 (by decide)⟩
      simp [isPlainChar, Char.isAlphanum, isAlpha_cases, hUpper]
  have hDigits : TakesOnly isPlainChar digit1 := takesOnly_digit1 hDigit
  refine TakesOnly.alt (TakesOnly.alt ?_ ?_) (TakesOnly.alt ?_ ?_)
  · exact (TakesOnly.literal (by decide)).followedBy.map
  · exact (TakesOnly.literal (by decide)).followedBy.map
  · exact (((TakesOnly.literal (by decide)).alt (TakesOnly.literal (by decide))).append
      (TakesOnly.takeWhile1.mono hHex)).followedBy.map
  · refine TakesOnly.map (TakesOnly.followedBy (TakesOnly.append ?_ (TakesOnly.append hDigits ?_)))
    · exact TakesOnly.opt (TakesOnly.oneOf.mono fun c hc => by
        simp only [Bool.or_eq_true, beq_iff_eq] at hc
        rcases hc with rfl | rfl <;> decide)
    · exact ((TakesOnly.literal (by decide)).append hDigits).opt

namespace OperandOrOperation

variable {p q : Parser ArithmeticExpr}

theorem spaced (h : OperandOrOperation p) : OperandOrOperation (spaced p) := by
  intro s e r hSpaced
  rw [Filter.spaced] at hSpaced
  rcases hp : p (space0 s) with _ | ⟨e', r'⟩
  · simp [hp] at hSpaced
  · simp only [hp, Option.some.injEq, Prod.mk.injEq] at hSpaced
    obtain ⟨rfl, rfl⟩ := hSpaced
    refine (h _ _ _ hp).imp_right ?_
    rintro ⟨t, hText, front, core, back, rfl, hFront, hBack, hCore⟩
    refine ⟨s.takeWhile isBlank ++ (front ++ core ++ back) ++ r'.takeWhile isBlank, ?_,
      s.takeWhile isBlank ++ front, core, back ++ r'.takeWhile isBlank, by simp, ?_, ?_, hCore⟩
    · have hStart : s = s.takeWhile isBlank ++ space0 s := List.takeWhile_append_dropWhile.symm
      have hStop : r' = r'.takeWhile isBlank ++ space0 r' := List.takeWhile_append_dropWhile.symm
      rw [List.append_assoc, ← hStop, List.append_assoc, ← hText, ← hStart]
    · intro c hc
      exact (List.mem_append.mp hc).elim (fun h => Or.inl (List.mem_takeWhile_imp h)) (hFront c)
    · intro c hc
      exact (List.mem_append.mp hc).elim (hBack c) fun h => Or.inl (List.mem_takeWhile_imp h)

theorem alt (h : OperandOrOperation p) (h' : OperandOrOperation q) :
    OperandOrOperation (alt p q) := by
  intro s e r hAlt
  rw [Parser.alt] at hAlt
  rcases hp : p s with _ | ⟨e', r'⟩
  · exact h' s e r (by simpa [hp] using hAlt)
  · simp only [hp, Option.some.injEq, Prod.mk.injEq] at hAlt
    obtain ⟨rfl, rfl⟩ := hAlt
    exact h s e' r' hp

theorem parenthesized (h : OperandOrOperation p) : OperandOrOperation (parenthesized p) := by
  intro s e r hParens
  rw [Filter.parenthesized] at hParens
  rcases hOpen : literal ['('] s with _ | ⟨_, s'⟩
  · simp [hOpen] at hParens
  · rcases hp : p (space0 s') with _ | ⟨e', r'⟩
    · simp [hOpen, hp] at hParens
    · rcases hClose : literal [')'] (space0 r') with _ | ⟨_, r''⟩
      · simp [hOpen, hp, hClose] at hParens
      · simp only [hOpen, hp, hClose, Option.some.injEq, Prod.mk.injEq] at hParens
        obtain ⟨rfl, rfl⟩ := hParens
        refine (h _ _ _ hp).imp_right ?_
        rintro ⟨t, hText, front, core, back, rfl, hFront, hBack, hCore⟩
        obtain ⟨o, rfl, ho⟩ := TakesOnly.literal (f := (· == '(')) (by decide) s _ s' hOpen
        obtain ⟨k, hRest, hk⟩ := TakesOnly.literal (f := (· == ')')) (by decide) _ _ r'' hClose
        have hStart : s' = s'.takeWhile isBlank ++ space0 s' := List.takeWhile_append_dropWhile.symm
        have hStop : r' = r'.takeWhile isBlank ++ space0 r' := List.takeWhile_append_dropWhile.symm
        refine ⟨o ++ s'.takeWhile isBlank ++ (front ++ core ++ back) ++ (r'.takeWhile isBlank ++ k),
          ?_, o ++ s'.takeWhile isBlank ++ front, core, back ++ (r'.takeWhile isBlank ++ k), by simp,
          ?_, ?_, hCore⟩
        · rw [List.append_assoc _ _ r'', List.append_assoc _ k r'', ← hRest, ← hStop,
            List.append_assoc _ _ r', ← hText, List.append_assoc, ← hStart]
        · intro c hc
          rcases List.mem_append.mp hc with hc | hc
          · rcases List.mem_append.mp hc with hc | hc
            · exact Or.inr (by simpa using ho c hc)
            · exact Or.inl (List.mem_takeWhile_imp hc)
          · exact hFront c hc
        · intro c hc
          rcases List.mem_append.mp hc with hc | hc
          · exact hBack c hc
          · rcases List.mem_append.mp hc with hc | hc
            · exact Or.inl (List.mem_takeWhile_imp hc)
            · exact Or.inr (by simpa using hk c hc)

theorem leftAssoc {operator : Parser ArithmeticOperator} (h : OperandOrOperation p) :
    OperandOrOperation (leftAssoc operator p .binary) := by
  intro s e r hAssoc
  rcases leftAssoc_cases hAssoc with hFirst | hOperation
  · exact h s e r hFirst
  · exact Or.inl hOperation

end OperandOrOperation

theorem spaced_map {α β : Type} (p : Parser α) (f : α → β) : (spaced p).map f = spaced (p.map f) := by
  funext s
  rw [Parser.map, spaced, spaced, Parser.map]
  rcases p (space0 s) with _ | ⟨a, r⟩ <;> rfl

theorem alt_map {α β : Type} (p q : Parser α) (f : α → β) :
    (alt p q).map f = alt (p.map f) (q.map f) := by
  funext s
  rw [Parser.map, alt, alt, Parser.map, Parser.map]
  rcases p s with _ | ⟨a, r⟩ <;> rfl

theorem operandOrOperation_quoted : OperandOrOperation (parseQuotedString.map .literal) := by
  intro s e r h
  rw [Parser.map] at h
  rcases hp : parseQuotedString s with _ | ⟨l, r'⟩
  · simp [hp] at h
  · simp only [hp, Option.some.injEq, Prod.mk.injEq] at h
    obtain ⟨rfl, rfl⟩ := h
    cases s with
    | nil => cases hp
    | cons quote s =>
      rw [parseQuotedString] at hp
      split at hp
      · next hQuote =>
        split at hp
        · cases hp
        · next content c rest hContent =>
          split at hp
          · next hClose =>
            cases hp
            subst hClose
            obtain ⟨rfl, hQuoted⟩ := quotedContent_eq hContent
            exact Or.inr ⟨c :: content ++ [c], by simp, [], _, [], by simp, by simp, by simp,
              .quoted hQuote hQuoted⟩
          · cases hp
      · cases hp

theorem operandOrOperation_literal :
    OperandOrOperation (parseNumericOrQuotedLiteral.map .literal) := by
  rw [parseNumericOrQuotedLiteral, spaced_map, alt_map]
  refine OperandOrOperation.spaced (OperandOrOperation.alt operandOrOperation_quoted ?_)
  intro s e r h
  rw [Parser.map] at h
  rcases hp : alt parseBoolean (alt parseHexString parseNumberOrFixedStr) s with _ | ⟨l, r'⟩
  · simp [hp] at h
  · simp only [hp, Option.some.injEq, Prod.mk.injEq] at h
    obtain ⟨rfl, rfl⟩ := h
    obtain ⟨t, rfl, hAll⟩ := takesOnly_plain s l r' hp
    exact Or.inr ⟨t, rfl, [], t, [], by simp, by simp, by simp, .plain l hAll⟩

theorem operandOrOperation (n : Nat) : OperandOrOperation (parseArithmeticWithDollarTo n) := by
  induction n with
  | zero =>
    intro s e r h
    cases h
  | succ n ih =>
    have hVar : OperandOrOperation (parseConditionLhsWithDollar.map .var) := by
      intro s e r h
      rw [Parser.map] at h
      rcases hp : parseConditionLhsWithDollar s with _ | ⟨v, r'⟩
      · simp [hp] at h
      · simp only [hp, Option.some.injEq, Prod.mk.injEq] at h
        obtain ⟨rfl, rfl⟩ := h
        obtain ⟨t, rfl, hAll⟩ := takesOnly_parseConditionLhsWithDollar s v r' hp
        exact Or.inr ⟨t, rfl, [], t, [], by simp, by simp, by simp, .var v hAll⟩
    exact OperandOrOperation.leftAssoc (.leftAssoc (.leftAssoc
      (.spaced (.alt (.parenthesized ih) (.alt operandOrOperation_literal hVar)))))

theorem parseArithmeticExpression_cases {s : List Char} {e : ArithmeticExpr}
    (h : parseArithmeticExpression s = some e) : ArithmeticExpr.IsOperation e ∨ EnclosedText e s := by
  rw [parseArithmeticExpression] at h
  split at h
  · next e' hTo =>
    cases h
    refine (operandOrOperation _ s e [] hTo).imp_right ?_
    rintro ⟨t, rfl, hText⟩
    rwa [List.append_nil]
  · cases h

/-- An operation has a number for its value. -/
theorem evaluate_operation {r : Readers} {e : ArithmeticExpr} (h : ArithmeticExpr.IsOperation e)
    {data : JsonValue} {row : Option JsonValue} {value : ArithmeticValue}
    (hValue : evaluateArithmeticExprWithTable r data row e = .ok value) : ∃ n, value = .number n := by
  obtain ⟨left, op, right, rfl⟩ := h
  rw [evaluateArithmeticExprWithTable] at hValue
  rcases hLeft : evaluateArithmeticExprWithTable r data row left with x | leftVal
  · rw [hLeft] at hValue
    cases hValue
  · rcases hRight : evaluateArithmeticExprWithTable r data row right with x | rightVal
    · rw [hLeft, hRight] at hValue
      cases hValue
    · rw [hLeft, hRight] at hValue
      cases leftVal with
      | other kind text => cases hValue
      | number n =>
        cases rightVal with
        | other kind text => cases hValue
        | number m =>
          rcases hResult : arithmeticResult op n m with x | result
          · simp [hResult, bind, Except.bind] at hValue
          · simp only [hResult, bind, Except.bind, pure, Except.pure, Except.ok.injEq] at hValue
            exact ⟨result, hValue.symm⟩

/-- What a text with an operator and a reference computes is a number, or the quoted text in it. -/
theorem evaluateArithmetic_string {r : Readers} {s v : List Char} {data : JsonValue}
    (hReference : '$' ∈ s) (hOperator : ∃ c ∈ s, c ∈ ['*', '/', '^', '+', '-'])
    (h : evaluateArithmetic r s data = some (.string v)) :
    ∃ front quote back, s = front ++ quote :: v ++ [quote] ++ back ∧
      (∀ c ∈ front, isBlank c = true ∨ c = '(') ∧ (quote = '\'' ∨ quote = '"') ∧ IsQuoted quote v := by
  unfold evaluateArithmetic at h
  rcases hParse : parseArithmeticExpression s with _ | e
  · simp [hParse] at h
  · rcases hValue : evaluateArithmeticExprWithTable r data (some data) e with x | value
    · simp [hParse, hValue, Except.toOption] at h
    · simp only [hParse, hValue, Except.toOption, Option.bind_eq_bind, Option.bind_some,
        Option.pure_def, Option.some.injEq] at h
      rcases parseArithmeticExpression_cases hParse with hOperation | hEnclosed
      · obtain ⟨n, rfl⟩ := evaluate_operation hOperation hValue
        cases h
      · obtain ⟨front, core, back, rfl, hFront, hBack, hCore⟩ := hEnclosed
        have hEdge : ∀ c, c ∈ front ∨ c ∈ back → c ≠ '$' ∧ c ∉ ['*', '/', '^', '+', '-'] := by
          intro c hc
          have hBlank : isBlank c = true ∨ c = '(' ∨ c = ')' := by
            rcases hc with hc | hc
            · exact (hFront c hc).imp_right Or.inl
            · exact (hBack c hc).imp_right Or.inr
          rcases hBlank with hBlank | rfl | rfl
          · simp only [isBlank, Bool.or_eq_true, beq_iff_eq] at hBlank
            rcases hBlank with rfl | rfl <;> decide
          · decide
          · decide
        cases hCore with
        | var v' hVar =>
          obtain ⟨c, hc, hOp⟩ := hOperator
          have hIn : c ∈ core := by
            by_contra hNot
            refine (hEdge c ?_).2 hOp
            simp only [List.mem_append] at hc
            tauto
          have hChar := hVar c hIn
          simp only [List.mem_cons, List.not_mem_nil, or_false] at hOp
          rcases hOp with rfl | rfl | rfl | rfl | rfl <;> exact absurd hChar (by decide)
        | plain l hPlain =>
          have hIn : '$' ∈ core := by
            by_contra hNot
            refine (hEdge '$' ?_).1 rfl
            simp only [List.mem_append] at hReference
            tauto
          exact absurd (hPlain _ hIn) (by decide)
        | quoted hQuote hQuoted =>
          rw [evaluateArithmeticExprWithTable] at hValue
          cases hValue
          rw [literalValue, arithmeticValue] at h
          split at h
          · cases h
          · cases h
            exact ⟨front, _, back, by simp, hFront, hQuote, hQuoted⟩

end Rindexer.Extraction
