import Rindexer.Filter.Completeness

/-! A layout of an expression is read back exactly if no two tokens clash: what the parser accepts is
cut into the tokens of the layout. -/

namespace Rindexer.Filter

open Rindexer.Lib Parser

/-! ### What the parser accepts -/

def operatorTexts : List (List Char) :=
  ["&&".toList, "||".toList, "==".toList, "!=".toList, ">".toList, ">=".toList, "<".toList,
    "<=".toList, ['+'], ['-'], ['*'], ['/'], ['^']]

/-- A text in which operands and operators alternate up to a rest, each operand as the parser reads it.
The flag tells whether an operand is due. -/
inductive Scans : Bool → List Char → List Char → Prop
  | stop (r : List Char) : Scans false r r
  | blank {due : Bool} {c : Char} {s r : List Char} (hBlank : isBlank c = true) (h : Scans due s r) :
      Scans due (c :: s) r
  | leftParen {s r : List Char} (h : Scans true s r) : Scans true ('(' :: s) r
  | not {s r : List Char} (h : Scans true s r) : Scans true ('!' :: s) r
  | operand {e : ArithmeticExpr} {s s' r : List Char} (hRead : parseOperand s = some (e, s'))
      (h : Scans false s' r) : Scans true s r
  | rightParen {s r : List Char} (h : Scans false s r) : Scans false (')' :: s) r
  | operator {op s r : List Char} (hOp : op ∈ operatorTexts) (h : Scans true s r) :
      Scans false (op ++ s) r

theorem Scans.trans {due : Bool} {s s' r : List Char} (h : Scans due s s') (h' : Scans false s' r) :
    Scans due s r := by
  induction h with
  | stop => exact h'
  | blank hBlank _ ih => exact .blank hBlank (ih h')
  | leftParen _ ih => exact .leftParen (ih h')
  | not _ ih => exact .not (ih h')
  | operand hRead _ ih => exact .operand hRead (ih h')
  | rightParen _ ih => exact .rightParen (ih h')
  | operator hOp _ ih => exact .operator hOp (ih h')

theorem Scans.of_space0 {due : Bool} {s r : List Char} (h : Scans due (space0 s) r) :
    Scans due s r := by
  induction s with
  | nil => exact h
  | cons c s ih =>
    by_cases hBlank : isBlank c = true
    · refine .blank hBlank (ih ?_)
      rwa [space0, List.dropWhile_cons_of_pos hBlank] at h
    · rwa [space0, List.dropWhile_cons_of_neg hBlank] at h

theorem Scans.space0 {due : Bool} {s r : List Char} (h : Scans due s r) : Scans due s (space0 r) :=
  h.trans (.of_space0 (.stop _))

/-- A parser that reads from where an operand is due. -/
def ScansOperand {α : Type} (p : Parser α) : Prop := ∀ s v r, p s = some (v, r) → Scans true s r

/-- A parser that reads an operator. -/
def ScansOperator {α : Type} (p : Parser α) : Prop :=
  ∀ s v r, p s = some (v, r) → ∀ r', Scans true r r' → Scans false s r'

section Combinators

variable {α β : Type} {p q : Parser α}

theorem ScansOperand.spaced (h : ScansOperand p) : ScansOperand (spaced p) := by
  intro s v r hParse
  rw [Filter.spaced] at hParse
  rcases hp : p (Filter.space0 s) with _ | ⟨v', r'⟩
  · simp [hp] at hParse
  · simp only [hp, Option.some.injEq, Prod.mk.injEq] at hParse
    obtain ⟨rfl, rfl⟩ := hParse
    exact (h _ _ _ hp).space0.of_space0

theorem ScansOperator.spaced (h : ScansOperator p) : ScansOperator (spaced p) := by
  intro s v r hParse r' hRest
  rw [Filter.spaced] at hParse
  rcases hp : p (Filter.space0 s) with _ | ⟨v', r''⟩
  · simp [hp] at hParse
  · simp only [hp, Option.some.injEq, Prod.mk.injEq] at hParse
    obtain ⟨rfl, rfl⟩ := hParse
    exact (h _ _ _ hp _ hRest.of_space0).of_space0

theorem ScansOperand.alt (hp : ScansOperand p) (hq : ScansOperand q) : ScansOperand (alt p q) := by
  intro s v r h
  rcases hParse : p s with _ | ⟨v', r'⟩
  · rw [alt_none hParse] at h
    exact hq s v r h
  · rw [alt_some hParse] at h
    cases h
    exact hp s v r hParse

theorem ScansOperator.alt (hp : ScansOperator p) (hq : ScansOperator q) : ScansOperator (alt p q) := by
  intro s v r h
  rcases hParse : p s with _ | ⟨v', r'⟩
  · rw [alt_none hParse] at h
    exact hq s v r h
  · rw [alt_some hParse] at h
    cases h
    exact hp s v r hParse

theorem ScansOperand.map {f : α → β} (h : ScansOperand p) : ScansOperand (p.map f) := by
  intro s v r hMap
  rcases hParse : p s with _ | ⟨v', r'⟩
  · rw [map_none hParse] at hMap
    cases hMap
  · rw [map_some hParse] at hMap
    cases hMap
    exact h s v' r hParse

theorem scansOperator_literal {op : List Char} (hOp : op ∈ operatorTexts) (v : α) :
    ScansOperator ((literal op).map fun _ => v) := by
  intro s v' r hMap r' hRest
  rw [Parser.map, literal] at hMap
  split at hMap
  · cases hMap
  · next hLiteral =>
    split at hLiteral
    · next hPrefix =>
      obtain ⟨rest, rfl⟩ := hPrefix
      cases hLiteral
      cases hMap
      rw [List.drop_left] at hRest
      exact .operator hOp hRest
    · cases hLiteral

theorem ScansOperand.leftAssoc {operator : Parser β} {f : α → β → α → α} (hOperator : ScansOperator operator)
    (hOperand : ScansOperand p) : ScansOperand (leftAssoc operator p f) := by
  intro s v r h
  rcases hFirst : p s with _ | ⟨left, r'⟩
  · rw [leftAssoc_none hFirst] at h
    cases h
  · rw [leftAssoc_first hFirst] at h
    refine (hOperand s left r' hFirst).trans (fold_sound (R := Scans false) .stop ?_ h)
    intro s b r r' hStep hRest
    rcases hOp : operator s with _ | ⟨op, s'⟩
    · rw [andThen_none hOp] at hStep
      cases hStep
    · rw [andThen, hOp] at hStep
      rcases hRight : p s' with _ | ⟨right, s''⟩
      · simp [hRight] at hStep
      · simp only [hRight, Option.some.injEq, Prod.mk.injEq] at hStep
        obtain ⟨rfl, rfl⟩ := hStep
        exact hOperator s op s' hOp r' ((hOperand s' right s'' hRight).trans hRest)

theorem ScansOperand.parenthesized (h : ScansOperand p) : ScansOperand (parenthesized p) := by
  intro s v r hParse
  rw [Filter.parenthesized] at hParse
  rcases hOpen : literal ['('] s with _ | ⟨l, r₁⟩
  · simp [hOpen] at hParse
  rcases hInner : p (Filter.space0 r₁) with _ | ⟨v', r₂⟩
  · simp [hOpen, hInner] at hParse
  rcases hClose : literal [')'] (Filter.space0 r₂) with _ | ⟨l', r₃⟩
  · simp [hOpen, hInner, hClose] at hParse
  simp only [hOpen, hInner, hClose, Option.some.injEq, Prod.mk.injEq] at hParse
  obtain ⟨rfl, rfl⟩ := hParse
  have hText : ∀ {c : Char} {s l r : List Char}, literal [c] s = some (l, r) → s = c :: r := by
    intro c s l r h
    rw [literal] at h
    split at h
    · next hPrefix =>
      obtain ⟨rest, rfl⟩ := hPrefix
      cases h
      rfl
    · cases h
  rw [hText hOpen]
  refine .leftParen (Scans.of_space0 ((h _ _ _ hInner).trans (Scans.of_space0 ?_)))
  rw [hText hClose]
  exact .rightParen (.stop _)

end Combinators

theorem scans_parseArithmeticPrimary {inner : Parser ArithmeticExpr} (hInner : ScansOperand inner) :
    ScansOperand (parseArithmeticPrimary inner) := by
  intro s v r hParse
  rw [parseArithmeticPrimary, spaced] at hParse
  have hStops := stops_space0 s
  refine Scans.of_space0 ?_
  generalize space0 s = s at hParse hStops ⊢
  have hLiterals : ∀ s, parseNumericOrQuotedLiteral s = spaced parseLiteral s := fun _ => rfl
  rcases hParens : parenthesized inner s with _ | ⟨v', r'⟩
  · rw [alt_none hParens] at hParse
    rcases hLiteral : parseLiteral s with _ | ⟨l, r'⟩
    · have hNone : (parseNumericOrQuotedLiteral.map ArithmeticExpr.literal) s = none :=
        map_none ((hLiterals s).trans (spaced_none hStops hLiteral))
      rw [alt_none hNone] at hParse
      have hOperand := parseOperand_of_literal_none hLiteral
      rcases hLhs : parseConditionLhs.map ArithmeticExpr.var s with _ | ⟨v', r'⟩
      · simp [hLhs] at hParse
      · simp only [hLhs, Option.some.injEq, Prod.mk.injEq] at hParse
        obtain ⟨rfl, rfl⟩ := hParse
        exact (Scans.operand (hOperand.trans hLhs) (.stop _)).space0
    · have hSome : (parseNumericOrQuotedLiteral.map ArithmeticExpr.literal) s =
          some (.literal l, space0 r') :=
        map_some ((hLiterals s).trans (spaced_some hStops hLiteral))
      rw [alt_some hSome] at hParse
      simp only [Option.some.injEq, Prod.mk.injEq] at hParse
      obtain ⟨rfl, rfl⟩ := hParse
      exact (Scans.operand (alt_some (map_some hLiteral)) (.stop _)).space0.space0
  · rw [alt_some hParens] at hParse
    simp only [Option.some.injEq, Prod.mk.injEq] at hParse
    obtain ⟨rfl, rfl⟩ := hParse
    exact (hInner.parenthesized s v' r' hParens).space0

theorem scans_parseArithmeticTo (n : Nat) : ScansOperand (parseArithmeticTo n) := by
  induction n with
  | zero =>
    intro s v r h
    cases h
  | succ n ih =>
    have hPower : ScansOperator parsePowerOperator :=
      ScansOperator.spaced (scansOperator_literal (by decide) _)
    have hMultiplicative : ScansOperator parseMultiplicativeOperator :=
      ScansOperator.spaced (.alt (scansOperator_literal (by decide) _)
        (scansOperator_literal (by decide) _))
    have hAdditive : ScansOperator parseAdditiveOperator :=
      ScansOperator.spaced (.alt (scansOperator_literal (by decide) _)
        (scansOperator_literal (by decide) _))
    exact .leftAssoc hAdditive (.leftAssoc hMultiplicative
      (.leftAssoc hPower (scans_parseArithmeticPrimary ih)))

theorem scans_parseComparisonOperator : ScansOperator parseComparisonOperator :=
  ScansOperator.spaced (.alt (scansOperator_literal (by decide) _)
    (.alt (scansOperator_literal (by decide) _) (.alt (scansOperator_literal (by decide) _)
      (.alt (scansOperator_literal (by decide) _) (.alt (scansOperator_literal (by decide) _)
        (scansOperator_literal (by decide) _))))))

theorem scans_parseCondition : ScansOperand parseCondition := by
  refine ScansOperand.map fun s v r h => ?_
  rcases hLeft : parseArithmeticExpr s with _ | ⟨left, r₁⟩
  · rw [andThen_none hLeft] at h
    cases h
  rcases hOp : parseComparisonOperator r₁ with _ | ⟨op, r₂⟩
  · rw [andThen, hLeft] at h
    simp only [andThen_none hOp] at h
    cases h
  rcases hRight : parseArithmeticExpr r₂ with _ | ⟨right, r₃⟩
  · simp only [andThen, hLeft, hOp, hRight] at h
    cases h
  · simp only [andThen, hLeft, hOp, hRight] at h
    cases h
    exact (scans_parseArithmeticTo _ _ _ _ hLeft).trans
      (scans_parseComparisonOperator _ _ _ hOp _ (scans_parseArithmeticTo _ _ _ _ hRight))

theorem ScansOperand.parseNot {term : Parser Expression} (h : ScansOperand term) :
    ScansOperand (parseNot term) := by
  intro s v r hParse
  rw [Filter.parseNot, literal] at hParse
  split at hParse
  · cases hParse
  · next hLiteral =>
    split at hLiteral
    · next hPrefix =>
      obtain ⟨rest, rfl⟩ := hPrefix
      cases hLiteral
      exact .not (Scans.of_space0 (h.map _ _ _ hParse))
    · cases hLiteral

theorem ScansOperand.parseExpressionOf {term : Parser Expression} (h : ScansOperand term) :
    ScansOperand (parseExpressionOf term) :=
  .spaced (.leftAssoc (.spaced (scansOperator_literal (by decide) _))
    (.leftAssoc (.spaced (scansOperator_literal (by decide) _)) h))

theorem scans_parseTermTo (n : Nat) : ScansOperand (parseTermTo n) := by
  induction n with
  | zero =>
    intro s v r h
    cases h
  | succ n ih => exact .spaced (.alt ih.parseNot (.alt ih.parseExpressionOf.parenthesized
      scans_parseCondition))

theorem scans_of_parse {s : List Char} {e : Expression} (h : parse s = some e) : Scans true s [] := by
  rw [parse] at h
  split at h
  · next hParse => exact (scans_parseTermTo _).parseExpressionOf _ _ _ hParse
  · cases h

/-! ### Layouts -/

def Token.isOperator : Token → Bool
  | logical _ => true
  | comparison _ => true
  | arithmetic _ => true
  | _ => false

/-- Tokens in which operands and operators alternate. -/
inductive Alternates : Bool → Layout → Prop
  | stop : Alternates false []
  | leftParen {w : List Char} {ts : Layout} (h : Alternates true ts) :
      Alternates true ((.leftParen, w) :: ts)
  | not {w : List Char} {ts : Layout} (h : Alternates true ts) : Alternates true ((.not, w) :: ts)
  | operand {t : Token} {e : ArithmeticExpr} {w : List Char} {ts : Layout}
      (hOperand : t.operand? = some e) (hValid : t.Valid) (h : Alternates false ts) :
      Alternates true ((t, w) :: ts)
  | rightParen {w : List Char} {ts : Layout} (h : Alternates false ts) :
      Alternates false ((.rightParen, w) :: ts)
  | operator {t : Token} {w : List Char} {ts : Layout} (hOp : t.isOperator = true)
      (h : Alternates true ts) : Alternates false ((t, w) :: ts)

theorem Alternates.append {due : Bool} {ts us : Layout} (h : Alternates due ts)
    (h' : Alternates false us) : Alternates due (ts ++ us) := by
  induction h with
  | stop => exact h'
  | leftParen _ ih => exact .leftParen ih
  | not _ ih => exact .not ih
  | operand hOperand hValid _ ih => exact .operand hOperand hValid ih
  | rightParen _ ih => exact .rightParen ih
  | operator hOp _ ih => exact .operator hOp ih

theorem ArithmeticExpr.Prints.alternates {l : Nat} {e : ArithmeticExpr} {ts : Layout}
    (h : e.Prints l ts) : Alternates true ts := by
  induction h with
  | operand w h hValid => exact .operand h hValid .stop
  | parens w w' h ih => exact .leftParen (ih.append (.rightParen .stop))
  | binary op w hLevel h h' ih ih' => exact ih.append (.operator rfl ih')

theorem Expression.Prints.alternates {l : Nat} {e : Expression} {ts : Layout} (h : e.Prints l ts) :
    Alternates true ts := by
  induction h with
  | condition op w h h' => exact h.alternates.append (.operator rfl h'.alternates)
  | not w h ih => exact .not ih
  | parens w w' h ih => exact .leftParen (ih.append (.rightParen .stop))
  | logical op w hLevel h h' ih ih' => exact ih.append (.operator rfl ih')

/-! ### Cutting a layout into its tokens -/

theorem parseOperand_none {c : Char}
    (hc : c ∈ [' ', '\t', '\r', '\n', '(', '!', '=']) (s : List Char) :
    parseOperand (c :: s) = none := by
  have hOther : c ≠ '\'' ∧ c ≠ '"' ∧ c ≠ 't' ∧ c ≠ 'f' ∧ c ≠ '0' ∧ c.isDigit = false ∧ c ≠ '+' ∧
      c ≠ '-' ∧ c ≠ '@' ∧ c ≠ '$' ∧ isIdentStart c = false := by
    revert c
    decide
  obtain ⟨hSingle, hDouble, hT, hF, hZero, hDigit, hPlus, hMinus, hAt, hDollar, hStart⟩ := hOther
  have hLiteral : parseLiteral (c :: s) = none := by
    rw [parseLiteral, alt_none (parseQuotedString_none hSingle hDouble),
      alt_none (parseBoolean_none hT hF), alt_none (parseHexString_none hZero),
      parseNumberOrFixedStr_none hDigit hPlus hMinus]
  have hName : parseBaseVariableName (c :: s) = none := by
    have hNone : alt identifier (digit1.followedBy numericNameDelimiter) (c :: s) = none := by
      rw [alt_none (identifier_none hStart), followedBy_none (digit1_none hDigit)]
    rw [parseBaseVariableName_bare hAt hDollar, map_none]
    simp [verify, hNone]
  rw [parseOperand_of_literal_none hLiteral, map_none (parseConditionLhs_none hName)]

theorem head?_operator {op : List Char} (hOp : op ∈ operatorTexts) (s : List Char) :
    ∃ c, (op ++ s).head? = some c ∧ c ∈ followCharacters ∧ c ≠ ')' := by
  obtain ⟨c, hc, hMem⟩ :=
    (by decide : ∀ op ∈ operatorTexts, ∃ c ∈ followCharacters, op.head? = some c ∧ c ≠ ')') op hOp
  exact ⟨c, by rw [List.head?_append, hMem.1, Option.some_or], hc, hMem.2⟩

theorem Scans.ends {s : List Char} (h : Scans false s []) : Ends s := by
  intro c hc
  cases h with
  | stop => cases hc
  | @blank _ d s _ hBlank h =>
    cases hc
    simp only [isBlank, Bool.or_eq_true, beq_iff_eq] at hBlank
    rcases hBlank with rfl | rfl <;> decide
  | rightParen h =>
    cases hc
    decide
  | operator hOp h =>
    obtain ⟨d, hHead, hMem, -⟩ := head?_operator hOp _
    rw [hHead] at hc
    cases hc
    exact (by decide : ∀ c ∈ followCharacters, c ∈ endCharacters) c hMem

theorem whitespace_cases {c : Char} (h : c.isWhitespace = true) :
    c = ' ' ∨ c = '\t' ∨ c = '\r' ∨ c = '\n' := by
  simpa [Char.isWhitespace, or_assoc] using h

/-- White space is scanned as blanks or not at all. -/
theorem Scans.whitespace {due : Bool} {w s : List Char} (hw : ∀ c ∈ w, c.isWhitespace = true)
    (h : Scans due (w ++ s) []) : (∀ c ∈ w, isBlank c = true) ∧ Scans due s [] := by
  induction w with
  | nil => exact ⟨by simp, h⟩
  | cons c w ih =>
    have hCases := whitespace_cases (hw c List.mem_cons_self)
    rw [List.cons_append] at h
    generalize hText : c :: (w ++ s) = text at h
    cases h with
    | stop => cases hText
    | blank hBlank h =>
      cases hText
      obtain ⟨hRest, hScans⟩ := ih (fun d hd => hw d (List.mem_cons_of_mem _ hd)) h
      exact ⟨List.forall_mem_cons.mpr ⟨hBlank, hRest⟩, hScans⟩
    | leftParen h =>
      cases hText
      rcases hCases with h | h | h | h <;> cases h
    | not h =>
      cases hText
      rcases hCases with h | h | h | h <;> cases h
    | operand hRead h =>
      subst hText
      rw [parseOperand_none (by rcases hCases with rfl | rfl | rfl | rfl <;> decide)] at hRead
      cases hRead
    | rightParen h =>
      cases hText
      rcases hCases with h | h | h | h <;> cases h
    | operator hOp h =>
      obtain ⟨d, hHead, hMem, -⟩ := head?_operator hOp _
      rw [← hText] at hHead
      cases hHead
      rcases hCases with rfl | rfl | rfl | rfl <;> exact absurd hMem (by decide)

/-- The text of an operator is the text of no other, unless an equals sign follows. -/
theorem operator_unique {op op' s s' : List Char} (hOp : op ∈ operatorTexts)
    (hOp' : op' ∈ operatorTexts) (h : op ++ s = op' ++ s') (hs : s.head? ≠ some '=')
    (hs' : s'.head? ≠ some '=') : op = op' ∧ s = s' := by
  have hPrefixes : ∀ a ∈ operatorTexts, ∀ b ∈ operatorTexts, a <+: b → a = b ∨ b = a ++ ['='] := by
    decide
  have hSame : op = op' := by
    rcases List.prefix_or_prefix_of_prefix (List.prefix_append op s)
      (h ▸ List.prefix_append op' s') with hPrefix | hPrefix
    · rcases hPrefixes op hOp op' hOp' hPrefix with hEq | hLonger
      · exact hEq
      · rw [hLonger, List.append_assoc] at h
        exact absurd (by rw [List.append_cancel_left h]; rfl) hs
    · rcases hPrefixes op' hOp' op hOp hPrefix with hEq | hLonger
      · exact hEq.symm
      · rw [hLonger, List.append_assoc] at h
        exact absurd (by rw [← List.append_cancel_left h]; rfl) hs'
  subst hSame
  exact ⟨rfl, List.append_cancel_left h⟩

theorem isOperator_text {t : Token} (h : t.isOperator = true) : t.text ∈ operatorTexts := by
  cases t with
  | logical op => cases op <;> decide
  | comparison op => cases op <;> decide
  | arithmetic op => cases op <;> decide
  | leftParen | rightParen | not | bool b | number text | hex text | quoted quote text | var v => cases h

theorem isOperator_delimited {t : Token} (h : t.isOperator = true) (rest : List Char) :
    t.delimited rest = true := by
  cases t <;> first | rfl | cases h

/-- After white space stands no equals sign. -/
theorem Alternates.not_equals {ts : Layout} (h : Alternates true ts) {w : List Char}
    (hw : ∀ c ∈ w, c.isWhitespace = true) : (w ++ ts.text).head? ≠ some '=' := by
  cases w with
  | cons c w =>
    rintro hHead
    cases hHead
    exact absurd (hw _ List.mem_cons_self) (by decide)
  | nil =>
    cases h with
    | leftParen h => simp [Token.text]
    | not h => simp [Token.text]
    | operand hOperand hValid h =>
      obtain ⟨c, s, hText, -, hEq, -⟩ := operand_starts hOperand hValid
      simpa [hText] using hEq

theorem Alternates.ends {ts : Layout} (h : Alternates false ts) {w : List Char}
    (hw : ∀ c ∈ w, c.isWhitespace = true) : Ends (w ++ ts.text) := by
  intro c hc
  cases w with
  | cons d w =>
    cases hc
    rcases whitespace_cases (hw _ List.mem_cons_self) with rfl | rfl | rfl | rfl <;> decide
  | nil =>
    cases h with
    | stop => cases hc
    | rightParen h =>
      cases hc
      decide
    | operator hOp h =>
      obtain ⟨d, hHead, hMem, -⟩ := head?_operator (isOperator_text hOp) _
      rw [List.nil_append, Layout.text_cons, hHead] at hc
      cases hc
      exact (by decide : ∀ c ∈ followCharacters, c ∈ endCharacters) c hMem

/-- What the parser accepts of a layout is delimited.  The induction is on the layout: each step of the
scan takes one token of it. -/
theorem Alternates.delimited {due : Bool} {ts : Layout} (h : Alternates due ts)
    (hw : ∀ t ∈ ts, ∀ c ∈ t.2, c.isWhitespace = true) (hScans : Scans due ts.text []) :
    ts.Delimited [] := by
  induction h with
  | stop => trivial
  | @leftParen w ts h ih =>
    rw [Layout.text_cons] at hScans
    obtain ⟨hHead, hTail⟩ := List.forall_mem_cons.mp hw
    have hRest : Scans true (w ++ ts.text) [] := by
      cases hScans with
      | blank hBlank h => cases hBlank
      | leftParen h => exact h
      | operand hRead h =>
        rw [show Token.leftParen.text ++ (w ++ ts.text) = '(' :: (w ++ ts.text) from rfl,
          parseOperand_none (by decide)] at hRead
        cases hRead
    obtain ⟨hBlanks, hTs⟩ := hRest.whitespace hHead
    exact ⟨hBlanks, rfl, ih hTail hTs⟩
  | @not w ts h ih =>
    rw [Layout.text_cons] at hScans
    obtain ⟨hHead, hTail⟩ := List.forall_mem_cons.mp hw
    have hRest : Scans true (w ++ ts.text) [] := by
      cases hScans with
      | blank hBlank h => cases hBlank
      | not h => exact h
      | operand hRead h =>
        rw [show Token.not.text ++ (w ++ ts.text) = '!' :: (w ++ ts.text) from rfl,
          parseOperand_none (by decide)] at hRead
        cases hRead
    obtain ⟨hBlanks, hTs⟩ := hRest.whitespace hHead
    exact ⟨hBlanks, rfl, ih hTail hTs⟩
  | @operand t e w ts hOperand hValid h ih =>
    rw [Layout.text_cons] at hScans
    obtain ⟨hHead, hTail⟩ := List.forall_mem_cons.mp hw
    have hEnds := h.ends hHead
    have hRead := readAs hOperand hValid hEnds
    obtain ⟨c, s, hText, hNot, -, hParen, hBlank⟩ := operand_starts hOperand hValid
    obtain ⟨v, s', hParse, hAfter⟩ : ∃ v s', parseOperand (t.text ++ (w ++ ts.text)) = some (v, s') ∧
        Scans false s' [] := by
      generalize hWhole : t.text ++ (w ++ ts.text) = whole at hScans
      have hFirst : whole.head? = some c := by rw [← hWhole, hText]; rfl
      cases hScans with
      | blank hBlank' h =>
        cases hFirst
        rw [hBlank] at hBlank'
        cases hBlank'
      | leftParen h =>
        cases hFirst
        exact absurd rfl hParen
      | not h =>
        cases hFirst
        exact absurd rfl hNot
      | operand hRead h => exact ⟨_, _, hRead, h⟩
    rw [ReadAs] at hRead
    by_cases hToken : t.delimited (w ++ ts.text) = true
    · rw [if_pos hToken, hParse] at hRead
      cases hRead
      obtain ⟨hBlanks, hTs⟩ := hAfter.whitespace hHead
      exact ⟨hBlanks, by rwa [List.append_nil], ih hTail hTs⟩
    · rw [if_neg hToken] at hRead
      exact absurd (hAfter.ends _ (hRead v s' hParse)) (by decide)
  | @rightParen w ts h ih =>
    rw [Layout.text_cons] at hScans
    obtain ⟨hHead, hTail⟩ := List.forall_mem_cons.mp hw
    have hRest : Scans false (w ++ ts.text) [] := by
      generalize hWhole : Token.rightParen.text ++ (w ++ ts.text) = whole at hScans
      cases hScans with
      | stop => cases hWhole
      | blank hBlank h =>
        cases hWhole
        cases hBlank
      | rightParen h =>
        cases hWhole
        exact h
      | operator hOp h =>
        obtain ⟨d, hFirst, -, hParen⟩ := head?_operator hOp _
        rw [← hWhole] at hFirst
        cases hFirst
        exact absurd rfl hParen
    obtain ⟨hBlanks, hTs⟩ := hRest.whitespace hHead
    exact ⟨hBlanks, rfl, ih hTail hTs⟩
  | @operator t w ts hOp h ih =>
    rw [Layout.text_cons] at hScans
    obtain ⟨hHead, hTail⟩ := List.forall_mem_cons.mp hw
    have hTexts := isOperator_text hOp
    obtain ⟨d, hFirst, hMem, hParen⟩ := head?_operator hTexts (w ++ ts.text)
    have hRest : Scans true (w ++ ts.text) [] := by
      generalize hWhole : t.text ++ (w ++ ts.text) = whole at hScans hFirst
      cases hScans with
      | stop => cases hFirst
      | blank hBlank h =>
        cases hFirst
        exact absurd hBlank ((by decide : ∀ c ∈ followCharacters, ¬isBlank c = true) _ hMem)
      | rightParen h =>
        cases hFirst
        exact absurd rfl hParen
      | @operator op s _ hOp' hAfter =>
        have hNoEquals : s.head? ≠ some '=' := by
          intro hEq
          obtain ⟨s', rfl⟩ : ∃ s', s = '=' :: s' := by
            cases s with
            | nil => cases hEq
            | cons c s =>
              cases hEq
              exact ⟨s, rfl⟩
          cases hAfter with
          | blank hBlank h => cases hBlank
          | operand hRead h =>
            rw [parseOperand_none (by decide)] at hRead
            cases hRead
        obtain ⟨-, rfl⟩ := operator_unique hTexts hOp' hWhole (h.not_equals hHead) hNoEquals
        exact hAfter
    obtain ⟨hBlanks, hTs⟩ := hRest.whitespace hHead
    exact ⟨hBlanks, isOperator_delimited hOp _, ih hTail hTs⟩

/-! ### Tokens that clash -/

theorem delimited_blank (t : Token) {c : Char} (hBlank : isBlank c = true) (rest : List Char) :
    t.delimited (c :: rest) = true := by
  cases t with
  | var v =>
    simp only [Token.delimited, keyDelimiter, numericNameDelimiter, hBlank, Bool.true_or, Bool.or_true]
    cases v.accessors.getLast? with
    | none => rfl
    | some a => cases a <;> rfl
  | bool b | number text | hex text => simp [Token.delimited, literalDelimiter, hBlank]
  | leftParen | rightParen | not | logical op | comparison op | arithmetic op | quoted quote text => rfl

theorem delimited_end (t : Token) : t.delimited [] = true := by
  cases t with
  | var v =>
    simp only [Token.delimited, keyDelimiter, numericNameDelimiter, Bool.or_true]
    cases v.accessors.getLast? with
    | none => rfl
    | some a => cases a <;> rfl
  | bool b | number text | hex text => rfl
  | leftParen | rightParen | not | logical op | comparison op | arithmetic op | quoted quote text => rfl

/-- The delimiters of the parser are what the tokens do not clash with. -/
theorem delimited_token (t : Token) {t' : Token} (h : t'.isOperator = true ∨ t' = .rightParen)
    (rest : List Char) : t.delimited (t'.text ++ rest) = !t.clashes t' := by
  obtain ⟨hLiteral, hKey, hNumeric⟩ : literalDelimiter (t'.text ++ rest) = !t'.isPower ∧
      keyDelimiter (t'.text ++ rest) = !(t'.isArithmetic || t'.isLogical) ∧
      numericNameDelimiter (t'.text ++ rest) = !(t'.isPower || t'.isLogical) := by
    rcases h with h | rfl
    · cases t' with
      | logical op => cases op <;> exact ⟨rfl, rfl, rfl⟩
      | comparison op => cases op <;> exact ⟨rfl, rfl, rfl⟩
      | arithmetic op => cases op <;> exact ⟨rfl, rfl, rfl⟩
      | leftParen | rightParen | not | bool b | number text | hex text | quoted quote text | var v =>
        cases h
    · exact ⟨rfl, rfl, rfl⟩
  cases t with
  | bool b | number text | hex text => exact hLiteral
  | var v =>
    rw [Token.delimited, Token.clashes]
    cases v.accessors.getLast? with
    | some a =>
      cases a with
      | index i => rfl
      | key k => exact hKey
    | none => simp only [hNumeric, Bool.not_and]
  | leftParen | rightParen | not | logical op | comparison op | arithmetic op | quoted quote text => rfl

theorem clashes_of_operand_none {t : Token} (h : t.operand? = none) (t' : Token) :
    t.clashes t' = false := by
  cases t <;> first | rfl | cases h

theorem delimited_of_operand_none {t : Token} (h : t.operand? = none) (rest : List Char) :
    t.delimited rest = true := by
  cases t <;> first | rfl | cases h

/-- All white space of a layout is blanks. -/
def Layout.Blank (ts : Layout) : Prop := ∀ t ∈ ts, ∀ c ∈ t.2, isBlank c = true

theorem Layout.blank_cons {t : Token} {w : List Char} {ts : Layout} :
    Layout.Blank ((t, w) :: ts) ↔ (∀ c ∈ w, isBlank c = true) ∧ ts.Blank :=
  List.forall_mem_cons

theorem Alternates.delimited_iff {due : Bool} {ts : Layout} (h : Alternates due ts) :
    ts.Delimited [] ↔ ts.Blank ∧ ts.Separated := by
  have hNone : ∀ (t : Token) (w : List Char) (ts : Layout), t.operand? = none →
      (ts.Delimited [] ↔ ts.Blank ∧ ts.Separated) →
      (Layout.Delimited ((t, w) :: ts) [] ↔
        Layout.Blank ((t, w) :: ts) ∧ Layout.Separated ((t, w) :: ts)) := by
    intro t w ts hOperand ih
    simp only [Layout.Delimited, Layout.blank_cons, ih, delimited_of_operand_none hOperand, true_and]
    cases ts with
    | nil => simp [Layout.Separated]
    | cons t' ts =>
      rw [Layout.Separated, clashes_of_operand_none hOperand]
      tauto
  induction h with
  | stop => simp [Layout.Delimited, Layout.Separated, Layout.Blank]
  | leftParen h ih => exact hNone _ _ _ rfl ih
  | not h ih => exact hNone _ _ _ rfl ih
  | rightParen h ih => exact hNone _ _ _ rfl ih
  | @operator t w ts hOp h ih => exact hNone _ _ _ (by cases t <;> first | rfl | cases hOp) ih
  | @operand t e w ts hOperand hValid h ih =>
    simp only [Layout.Delimited, Layout.blank_cons, ih, List.append_nil]
    have hToken : (∀ c ∈ w, isBlank c = true) → (t.delimited (w ++ ts.text) = true ↔
        ∀ t' ∈ ts.head?, w = [] → t.clashes t'.1 = false) := by
      intro hw
      cases w with
      | cons c w => simp [delimited_blank t (hw c List.mem_cons_self)]
      | nil =>
        cases h with
        | stop => simp [delimited_end]
        | rightParen h => simp [delimited_token t (.inr rfl)]
        | operator hOp h => simp [delimited_token t (.inl hOp)]
    cases ts with
    | nil =>
      simp only [List.head?_nil, Option.mem_def, reduceCtorEq, false_implies, implies_true,
        iff_true] at hToken
      simp only [Layout.Separated]
      tauto
    | cons t' ts =>
      rw [Layout.Separated]
      simp only [List.head?_cons, Option.mem_def, Option.some.injEq, forall_eq'] at hToken
      tauto

/-! ### A printer -/

namespace LiteralValue

/-- Texts are printed in single quotes if they can stand in them. -/
def token : LiteralValue → Token
  | bool b => .bool b
  | number s => .number s
  | str s => if quotedContent '\'' s = (s, []) then .quoted .single s else .quoted .double s

def Lexical : LiteralValue → Prop
  | bool _ => True
  | number s => IsNumber s
  | str s => IsQuoted '\'' s ∨ IsQuoted '"' s

theorem token_operand (l : LiteralValue) : l.token.operand? = some (.literal l) := by
  cases l with
  | bool b => rfl
  | number s => rfl
  | str s =>
    rw [token]
    split <;> rfl

theorem Lexical.token {l : LiteralValue} (h : l.Lexical) : l.token.Valid := by
  cases l with
  | bool b => trivial
  | number s => exact h
  | str s =>
    rw [LiteralValue.token]
    split
    · next hQuoted => exact hQuoted
    · next hQuoted => exact h.resolve_left hQuoted

end LiteralValue

def Layout.parens (ts : Layout) : Layout := (.leftParen, []) :: (ts ++ [(.rightParen, [' '])])

namespace ArithmeticExpr

def layout : Nat → ArithmeticExpr → Layout
  | _, var v => [(.var v, [' '])]
  | _, literal l => [(l.token, [' '])]
  | l, binary left op right =>
    let ts := layout op.level left ++ (.arithmetic op, [' ']) :: layout (op.level + 1) right
    if l ≤ op.level then ts else ts.parens

/-- The names and literals of an expression are such that they can be written. -/
def Lexical : ArithmeticExpr → Prop
  | var v => v.Valid
  | literal l => l.Lexical
  | binary left _ right => left.Lexical ∧ right.Lexical

theorem prints_layout {e : ArithmeticExpr} (h : e.Lexical) (l : Nat) : e.Prints l (e.layout l) := by
  induction e generalizing l with
  | var v => exact .operand _ rfl h
  | literal l' => exact .operand _ l'.token_operand (LiteralValue.Lexical.token h)
  | binary left op right ih ih' =>
    rw [layout]
    split
    · next hLevel => exact .binary op _ hLevel (ih h.1 _) (ih' h.2 _)
    · exact .parens _ _ (.binary op _ (Nat.zero_le _) (ih h.1 _) (ih' h.2 _))

end ArithmeticExpr

namespace Expression

def layout : Nat → Expression → Layout
  | _, condition c => c.left.layout 0 ++ (.comparison c.operator, [' ']) :: c.right.layout 0
  | _, not inner => (.not, []) :: (layout 0 inner).parens
  | l, logical left op right =>
    let ts := layout op.level left ++ (.logical op, [' ']) :: layout (op.level + 1) right
    if l ≤ op.level then ts else ts.parens

def Lexical : Expression → Prop
  | condition c => c.left.Lexical ∧ c.right.Lexical
  | not inner => inner.Lexical
  | logical left _ right => left.Lexical ∧ right.Lexical

def print (e : Expression) : List Char := (e.layout 0).text

theorem prints_layout {e : Expression} (h : e.Lexical) (l : Nat) : e.Prints l (e.layout l) := by
  induction e generalizing l with
  | condition c =>
    exact .condition c.operator _ (ArithmeticExpr.prints_layout h.1 0)
      (ArithmeticExpr.prints_layout h.2 0)
  | not inner ih => exact .not _ (.parens _ _ (ih h 0))
  | logical left op right ih ih' =>
    rw [layout]
    split
    · next hLevel => exact .logical op _ hLevel (ih h.1 _) (ih' h.2 _)
    · exact .parens _ _ (.logical op _ (Nat.zero_le _) (ih h.1 _) (ih' h.2 _))

end Expression

/-- Blanks stand after each operand. -/
def Layout.Spacious (ts : Layout) : Prop :=
  ∀ t ∈ ts, t.2 = [' '] ∨ t.2 = [] ∧ t.1.operand? = none

theorem Layout.Spacious.parens {ts : Layout} (h : ts.Spacious) : ts.parens.Spacious := by
  intro t ht
  rcases List.mem_cons.mp ht with rfl | ht
  · exact .inr ⟨rfl, rfl⟩
  · rcases List.mem_append.mp ht with ht | ht
    · exact h t ht
    · cases List.mem_singleton.mp ht
      exact .inl rfl

theorem Layout.Spacious.operation {ts us : Layout} (h : ts.Spacious) (t : Token) (h' : us.Spacious) :
    (ts ++ (t, [' ']) :: us).Spacious := by
  intro t' ht
  rcases List.mem_append.mp ht with ht | ht
  · exact h t' ht
  · rcases List.mem_cons.mp ht with rfl | ht
    · exact .inl rfl
    · exact h' t' ht

theorem ArithmeticExpr.layout_spacious (e : ArithmeticExpr) (l : Nat) : (e.layout l).Spacious := by
  induction e generalizing l with
  | var v => exact fun t ht => .inl (by rw [List.mem_singleton.mp ht])
  | literal l' => exact fun t ht => .inl (by rw [List.mem_singleton.mp ht])
  | binary left op right ih ih' =>
    rw [layout]
    split
    · exact (ih _).operation _ (ih' _)
    · exact ((ih _).operation _ (ih' _)).parens

theorem Expression.layout_spacious (e : Expression) (l : Nat) : (e.layout l).Spacious := by
  induction e generalizing l with
  | condition c => exact (c.left.layout_spacious 0).operation _ (c.right.layout_spacious 0)
  | not inner ih =>
    intro t ht
    rcases List.mem_cons.mp ht with rfl | ht
    · exact .inr ⟨rfl, rfl⟩
    · exact (ih 0).parens t ht
  | logical left op right ih ih' =>
    rw [layout]
    split
    · exact (ih _).operation _ (ih' _)
    · exact ((ih _).operation _ (ih' _)).parens

theorem Layout.Spacious.separated {ts : Layout} (h : ts.Spacious) : ts.Blank ∧ ts.Separated := by
  constructor
  · intro t ht c hc
    rcases h t ht with hSpace | ⟨hNil, -⟩
    · rw [hSpace] at hc
      cases List.mem_singleton.mp hc
      rfl
    · rw [hNil] at hc
      cases hc
  · induction ts with
    | nil => trivial
    | cons t ts ih =>
      have hRest : Layout.Spacious ts := fun t' ht' => h t' (List.mem_cons_of_mem _ ht')
      cases ts with
      | nil => trivial
      | cons t' ts =>
        refine ⟨fun hNil => ?_, ih hRest⟩
        rcases h t List.mem_cons_self with hSpace | ⟨-, hOperand⟩
        · rw [hSpace] at hNil
          cases hNil
        · exact clashes_of_operand_none hOperand t'.1

/-- Every expression is read back from what the printer writes. -/
theorem parse_print {e : Expression} (h : e.Lexical) : parse e.print = some e := by
  have hPrints := Expression.prints_layout h 0
  have hDelimited := hPrints.alternates.delimited_iff.mpr (e.layout_spacious 0).separated
  have hParse := parse_complete hPrints (w := []) (by simp) hDelimited
  exact hParse

/-! ### Any white space -/

/-- A text of an expression, with any white space, is parsed to the expression exactly if the white
space is blanks and no two tokens clash. -/
theorem parse_layout_iff {e : Expression} {ts : Layout} (h : e.Prints 0 ts) {w : List Char}
    (hw : ∀ c ∈ w, c.isWhitespace = true) (hts : ∀ t ∈ ts, ∀ c ∈ t.2, c.isWhitespace = true) :
    parse (w ++ ts.text) = some e ↔
      ((∀ c ∈ w, isBlank c = true) ∧ ts.Blank) ∧ ts.Separated := by
  rw [and_assoc, ← h.alternates.delimited_iff]
  constructor
  · intro hParse
    obtain ⟨hBlanks, hScans⟩ := (scans_of_parse hParse).whitespace hw
    exact ⟨hBlanks, h.alternates.delimited hts hScans⟩
  · rintro ⟨hBlanks, hDelimited⟩
    exact parse_complete h hBlanks hDelimited

/-- `10 ^$decimals ==1000`, a layout with blanks where they are needed. -/
theorem parse_layout_iff_scaled :
    parse "10 ^$decimals ==1000".toList = some (.condition ⟨.binary (.literal (.number "10".toList)) .power
      (.var (.simple "decimals".toList .event)), .eq, .literal (.number "1000".toList)⟩) := by
  have hTen : IsNumber "10".toList := ⟨[], "10".toList, [], rfl, .inl rfl, by decide, .inl rfl⟩
  have hThousand : IsNumber "1000".toList := ⟨[], "1000".toList, [], rfl, .inl rfl, by decide, .inl rfl⟩
  have hDecimals : (ConditionLeft.simple "decimals".toList .event).Valid :=
    ⟨.inl ⟨'d', "ecimals".toList, rfl, by decide, by decide⟩, by decide, by simp [ConditionLeft.accessors],
      by simp⟩
  have hPrints := Expression.Prints.condition (l := 0) .eq []
    (.binary (l := 0) .power [] (by decide) (.operand (l := 2) (t := .number "10".toList) [' '] rfl hTen)
      (.operand (l := 3) (t := .var (.simple "decimals".toList .event)) [' '] rfl hDecimals))
    (.operand (l := 0) (t := .number "1000".toList) [] rfl hThousand)
  refine (parse_layout_iff hPrints (w := []) (by simp) (by decide)).mpr ⟨⟨by simp, ?_⟩, ?_⟩
  · simp [Layout.Blank, isBlank]
  · simp [Layout.Separated, Token.clashes, Token.isPower, Token.isLogical, ConditionLeft.accessors]

/-- Without white space, a power of a literal and a sum with a field are not read. -/
theorem parse_unspaced :
    (∃ ts : Layout, (Expression.condition ⟨.binary (.literal (.number "10".toList)) .power
        (.var (.simple "decimals".toList .event)), .eq, .literal (.number "1000".toList)⟩).Prints 0 ts ∧
      ts.text = "10^$decimals==1000".toList) ∧
    parse "10^$decimals==1000".toList = none ∧
    (∃ ts : Layout, (Expression.condition ⟨.binary (.var (.path ⟨"order".toList, [.key "amount".toList],
        .event⟩)) .add (.literal (.number "1".toList)), .gt, .literal (.number "2".toList)⟩).Prints 0 ts ∧
      ts.text = "$order.amount+1>2".toList) ∧
    parse "$order.amount+1>2".toList = none := by
  have hTen : IsNumber "10".toList := ⟨[], "10".toList, [], rfl, .inl rfl, by decide, .inl rfl⟩
  have hThousand : IsNumber "1000".toList := ⟨[], "1000".toList, [], rfl, .inl rfl, by decide, .inl rfl⟩
  have hOne : IsNumber "1".toList := ⟨[], "1".toList, [], rfl, .inl rfl, by decide, .inl rfl⟩
  have hTwo : IsNumber "2".toList := ⟨[], "2".toList, [], rfl, .inl rfl, by decide, .inl rfl⟩
  have hDecimals : (ConditionLeft.simple "decimals".toList .event).Valid :=
    ⟨.inl ⟨'d', "ecimals".toList, rfl, by decide, by decide⟩, by decide, by simp [ConditionLeft.accessors],
      by simp⟩
  have hAmount : (ConditionLeft.path ⟨"order".toList, [.key "amount".toList], .event⟩).Valid := by
    refine ⟨.inl ⟨'o', "rder".toList, rfl, by decide, by decide⟩, by decide, fun k hk => ?_, fun p hp => ?_⟩
    · cases List.mem_singleton.mp hk
      exact .inl ⟨'a', "mount".toList, rfl, by decide, by decide⟩
    · cases hp
      simp
  refine ⟨⟨_, .condition (l := 0) .eq []
    (.binary (l := 0) .power [] (by decide) (.operand (l := 2) (t := .number "10".toList) [] rfl hTen)
      (.operand (l := 3) (t := .var (.simple "decimals".toList .event)) [] rfl hDecimals))
    (.operand (l := 0) (t := .number "1000".toList) [] rfl hThousand), by decide⟩, by decide,
    ⟨_, .condition (l := 0) .gt []
    (.binary (l := 0) .add [] (by decide)
      (.operand (l := 0) (t := .var (.path ⟨"order".toList, [.key "amount".toList], .event⟩)) [] rfl hAmount)
      (.operand (l := 1) (t := .number "1".toList) [] rfl hOne))
    (.operand (l := 0) (t := .number "2".toList) [] rfl hTwo), by decide⟩, by decide⟩

end Rindexer.Filter
