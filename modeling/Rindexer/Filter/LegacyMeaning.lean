import Rindexer.Filter.Legacy

/-! What the conditions without a left side mean: the rewritten text is read as the formula about the
placeholder. -/

namespace Rindexer.Filter

open Rindexer.Lib Parser

/-! ### Clauses -/

/-- No literal in quotes has `&&` or `||` in it. -/
def LegacyClause.Whole (c : LegacyClause) : Prop :=
  ∀ quote text, c.token = .quoted quote text → hasOperator text = false

theorem ends_of_append {a b : List Char} (hb : b ≠ [])
    (h : ∀ c ∈ b, isWhiteSpace c = false ∧ isAmpOrBar c = false) :
    ∃ s d, a ++ b = s ++ [d] ∧ isWhiteSpace d = false ∧ isAmpOrBar d = false := by
  rcases List.eq_nil_or_concat b with rfl | ⟨t, d, rfl⟩
  · exact absurd rfl hb
  · exact ⟨a ++ t, d, by simp, h d (by simp)⟩

theorem not_ampOrBar_of_hexDigit {c : Char} (h : isHexDigit c = true) : isAmpOrBar c = false := by
  have hRange := hexDigit_range h
  cases hAmp : isAmpOrBar c with
  | false => rfl
  | true =>
    simp only [isAmpOrBar, Bool.or_eq_true, beq_iff_eq] at hAmp
    rcases hAmp with rfl | rfl
    · exact absurd hRange (by decide)
    · exact absurd hRange (by decide)

theorem hexDigit_of_digit {c : Char} (h : c.isDigit = true) : isHexDigit c = true := by
  rw [isHexDigit, h, Bool.true_or, Bool.true_or]

theorem token_ends {t : Token} {l : LiteralValue} (h : t.operand? = some (.literal l))
    (hValid : t.Valid) :
    ∃ s d, t.text = s ++ [d] ∧ isWhiteSpace d = false ∧ isAmpOrBar d = false := by
  have hHex : ∀ c, isHexDigit c = true → isWhiteSpace c = false ∧ isAmpOrBar c = false :=
    fun c hc => ⟨not_whiteSpace_of_hexDigit hc, not_ampOrBar_of_hexDigit hc⟩
  cases t with
  | bool b =>
    cases b with
    | false => exact ⟨"fals".toList, 'e', rfl, by decide⟩
    | true => exact ⟨"tru".toList, 'e', rfl, by decide⟩
  | number text =>
    obtain ⟨sign, digits, fraction, rfl, -, ⟨hNonempty, hDigits⟩, hFraction⟩ := hValid
    rcases hFraction with rfl | ⟨ds, rfl, hNonempty', hDigits'⟩
    · rw [Token.text, List.append_nil]
      exact ends_of_append hNonempty fun c hc => hHex c (hexDigit_of_digit (hDigits c hc))
    · have hText : Token.text (.number (sign ++ (digits ++ '.' :: ds))) =
          (sign ++ (digits ++ ['.'])) ++ ds := by simp [Token.text]
      rw [hText]
      exact ends_of_append hNonempty' fun c hc => hHex c (hexDigit_of_digit (hDigits' c hc))
  | hex text =>
    obtain ⟨x, digits, rfl, -, hNonempty, hDigits⟩ := hValid
    exact @ends_of_append ['0', x] digits hNonempty fun c hc => hHex c (hDigits c hc)
  | quoted quote text =>
    refine ⟨quote.char :: text, quote.char, by simp [Token.text], ?_⟩
    cases quote <;> decide
  | var v => cases h
  | leftParen | rightParen | not | logical op | comparison op | arithmetic op => cases h

theorem token_whole {t : Token} {l : LiteralValue} (h : t.operand? = some (.literal l))
    (hValid : t.Valid) (hWhole : ∀ quote text, t = .quoted quote text → hasOperator text = false) :
    hasOperator t.text = false := by
  -- a literal without quotes has neither character
  have hPlain : ∀ {x : List Char}, (∀ c ∈ x, isAmpOrBar c = false) → hasOperator x = false := by
    intro x hx
    have := hasOperator_append (s := []) hx
    rwa [List.append_nil] at this
  cases t with
  | bool b => cases b <;> decide
  | number text =>
    obtain ⟨sign, digits, fraction, rfl, hSign, ⟨-, hDigits⟩, hFraction⟩ := hValid
    refine hPlain fun c hc => ?_
    have hDigit : ∀ c : Char, c.isDigit = true → isAmpOrBar c = false :=
      fun c hc => not_ampOrBar_of_hexDigit (hexDigit_of_digit hc)
    rcases List.mem_append.mp hc with hc | hc
    · rcases hSign with rfl | rfl | rfl
      · cases hc
      · obtain rfl := List.mem_singleton.mp hc
        decide
      · obtain rfl := List.mem_singleton.mp hc
        decide
    · rcases List.mem_append.mp hc with hc | hc
      · exact hDigit c (hDigits c hc)
      · rcases hFraction with rfl | ⟨ds, rfl, -, hDigits'⟩
        · cases hc
        · rcases List.mem_cons.mp hc with rfl | hc
          · decide
          · exact hDigit c (hDigits' c hc)
  | hex text =>
    obtain ⟨x, digits, rfl, hx, -, hDigits⟩ := hValid
    refine hPlain fun c hc => ?_
    rcases List.mem_cons.mp hc with rfl | hc
    · decide
    · rcases List.mem_cons.mp hc with rfl | hc
      · rcases hx with rfl | rfl <;> decide
      · exact not_ampOrBar_of_hexDigit (hDigits c hc)
  | quoted quote text =>
    have hQuote : isAmpOrBar quote.char = false := by cases quote <;> decide
    rw [Token.text, ← List.singleton_append, hasOperator_append (by simpa using hQuote),
      hasOperator_concat hQuote]
    exact hWhole quote text rfl
  | var v => cases h
  | leftParen | rightParen | not | logical op | comparison op | arithmetic op => cases h

theorem LegacyClause.solid {c : LegacyClause} (h : c.Whole) : Solid c.text where
  starts := by
    rw [text]
    cases c.op <;> exact ⟨_, _, rfl, by decide⟩
  ends := by
    obtain ⟨s, d, hText, hEnd⟩ := token_ends c.operand c.valid
    exact ⟨c.op.text ++ (c.blanks ++ s), d, by rw [text, hText]; simp, hEnd⟩
  whole := by
    have hOp : ∀ d ∈ c.op.text, isAmpOrBar d = false := by
      cases c.op <;> decide
    have hBlanks : ∀ d ∈ c.blanks, isAmpOrBar d = false := by
      intro d hd
      have hBlank := c.isBlank d hd
      simp only [Filter.isBlank, Bool.or_eq_true, beq_iff_eq] at hBlank
      rcases hBlank with rfl | rfl <;> decide
    rw [text, hasOperator_append hOp, hasOperator_append hBlanks]
    exact token_whole c.operand c.valid h

/-! ### The rewritten text -/

/-- A clause about the placeholder. -/
def LegacyClause.subjectText (c : LegacyClause) : List Char := placeholder ++ ' ' :: c.text

/-- What an operator and the text after it become. -/
def linked (op : LogicalOperator) (text : List Char) : List Char := ' ' :: (op.text ++ ' ' :: text)

def Conjunction.subjectText (c : Conjunction) : List Char :=
  c.first.subjectText ++ c.rest.flatMap fun x => linked .and x.2.subjectText

def LegacyCondition.subjectText (c : LegacyCondition) : List Char :=
  c.first.subjectText ++ c.rest.flatMap fun x => linked .or x.2.subjectText

def Conjunction.Whole (c : Conjunction) : Prop := ∀ clause ∈ c.clauses, clause.Whole

def LegacyCondition.Whole (c : LegacyCondition) : Prop := ∀ g ∈ c.conjunctions, g.Whole

theorem insertSubject_clause {c : LegacyClause} (h : c.Whole) (s : List Char) :
    insertSubject [] false (c.text ++ s) = c.text ++ insertSubject [] false s :=
  insertSubject_solid (LegacyClause.solid h).ends (LegacyClause.solid h).whole [] s

theorem insertSubject_clauses {rest : List (Gap × LegacyClause)} (h : ∀ x ∈ rest, x.2.Whole)
    (s : List Char) :
    insertSubject [] false ((rest.flatMap fun x => x.1.text .and ++ x.2.text) ++ s) =
      (rest.flatMap fun x => linked .and x.2.subjectText) ++ insertSubject [] false s := by
  induction rest with
  | nil => rfl
  | cons x rest ih =>
    have hx := h x List.mem_cons_self
    have hTail := ih fun y hy => h y (List.mem_cons_of_mem _ hy)
    rw [List.flatMap_cons, List.flatMap_cons, List.append_assoc, List.append_assoc,
      insertSubject_gap x.1 .and (LegacyClause.solid hx), insertSubject_clause hx, hTail]
    simp [linked, LegacyClause.subjectText]

theorem insertSubject_conjunction {c : Conjunction} (h : c.Whole) (s : List Char) :
    placeholder ++ ' ' :: insertSubject [] false (c.text ++ s) =
      c.subjectText ++ insertSubject [] false s := by
  have hRest : ∀ x ∈ c.rest, x.2.Whole := fun x hx =>
    h x.2 (List.mem_cons_of_mem _ (List.mem_map_of_mem hx))
  rw [Conjunction.text, List.append_assoc, insertSubject_clause (h c.first List.mem_cons_self),
    insertSubject_clauses hRest]
  simp [Conjunction.subjectText, LegacyClause.subjectText]

theorem insertSubject_conjunctions {rest : List (Gap × Conjunction)} (h : ∀ x ∈ rest, x.2.Whole) :
    insertSubject [] false (rest.flatMap fun x => x.1.text .or ++ x.2.text) =
      rest.flatMap fun x => linked .or x.2.subjectText := by
  induction rest with
  | nil => rfl
  | cons x rest ih =>
    have hx := h x List.mem_cons_self
    have hTail := ih fun y hy => h y (List.mem_cons_of_mem _ hy)
    have hText : ∀ s, x.2.text ++ s = x.2.first.text ++
        ((x.2.rest.flatMap fun y => y.1.text .and ++ y.2.text) ++ s) := fun s => by
      rw [Conjunction.text, List.append_assoc]
    rw [List.flatMap_cons, List.flatMap_cons, List.append_assoc, hText,
      insertSubject_gap x.1 .or (LegacyClause.solid (hx x.2.first List.mem_cons_self)), ← hText,
      insertSubject_conjunction hx, hTail]
    simp [linked]

theorem insertSubject_body {c : LegacyCondition} (h : c.Whole) :
    placeholder ++ ' ' :: insertSubject [] false c.body = c.subjectText := by
  have hRest : ∀ x ∈ c.rest, x.2.Whole := fun x hx =>
    h x.2 (List.mem_cons_of_mem _ (List.mem_map_of_mem hx))
  rw [LegacyCondition.body, insertSubject_conjunction (h c.first List.mem_cons_self),
    insertSubject_conjunctions hRest]
  rfl

/-! ### Trimming -/

theorem trim_append {w x w' : List Char} (hw : ∀ c ∈ w, isWhiteSpace c = true)
    (hw' : ∀ c ∈ w', isWhiteSpace c = true) (hStarts : ∃ c s, x = c :: s ∧ isWhiteSpace c = false)
    (hEnds : ∃ s d, x = s ++ [d] ∧ isWhiteSpace d = false) : trim (w ++ (x ++ w')) = x := by
  obtain ⟨c, s, hStart, hFirst⟩ := hStarts
  obtain ⟨t, d, hEnd, hLast⟩ := hEnds
  have hFront : (w ++ (x ++ w')).dropWhile isWhiteSpace = x ++ w' := by
    refine dropWhile_append_stops hw ?_
    rw [hStart]
    exact stops_cons.mpr hFirst
  have hBack : (x ++ w').reverse.dropWhile isWhiteSpace = x.reverse := by
    rw [List.reverse_append]
    refine dropWhile_append_stops (fun c hc => hw' c (List.mem_reverse.mp hc)) ?_
    rw [hEnd, List.reverse_append]
    exact stops_cons.mpr hLast
  rw [trim, hFront, hBack, List.reverse_reverse]

theorem flatMap_ends {α : Type} {l : List α} {f : α → List Char} {x : List Char} {p : Char → Prop}
    (hx : ∃ s d, x = s ++ [d] ∧ p d) (hf : ∀ a ∈ l, ∃ s d, f a = s ++ [d] ∧ p d) :
    ∃ s d, x ++ l.flatMap f = s ++ [d] ∧ p d := by
  rcases List.eq_nil_or_concat l with rfl | ⟨l, a, rfl⟩
  · simpa using hx
  · obtain ⟨s, d, hText, hd⟩ := hf a (by simp)
    exact ⟨x ++ (l.flatMap f ++ s), d, by simp [hText], hd⟩

theorem Conjunction.ends {c : Conjunction} (h : c.Whole) :
    ∃ s d, c.text = s ++ [d] ∧ isWhiteSpace d = false := by
  have hClause : ∀ clause ∈ c.clauses, ∃ s d, clause.text = s ++ [d] ∧ isWhiteSpace d = false := by
    intro clause hClause
    obtain ⟨s, d, hText, hWhite, -⟩ := (LegacyClause.solid (h clause hClause)).ends
    exact ⟨s, d, hText, hWhite⟩
  refine flatMap_ends (hClause _ List.mem_cons_self) fun x hx => ?_
  obtain ⟨s, d, hText, hd⟩ := hClause x.2 (List.mem_cons_of_mem _ (List.mem_map_of_mem hx))
  exact ⟨x.1.text .and ++ s, d, by rw [hText, List.append_assoc], hd⟩

theorem LegacyCondition.trim_text {c : LegacyCondition} (h : c.Whole) : trim c.text = c.body := by
  refine trim_append c.gap.white_before c.gap.white_after ?_ ?_
  · have hFirst := h c.first List.mem_cons_self c.first.first List.mem_cons_self
    obtain ⟨d, s, hText, hWhite, -⟩ := (LegacyClause.solid hFirst).starts
    rw [body, Conjunction.text, hText]
    exact ⟨d, _, rfl, hWhite⟩
  · refine flatMap_ends (Conjunction.ends (h c.first List.mem_cons_self)) fun x hx => ?_
    obtain ⟨s, d, hText, hd⟩ := Conjunction.ends
      (h x.2 (List.mem_cons_of_mem _ (List.mem_map_of_mem hx)))
    exact ⟨x.1.text .or ++ s, d, by rw [hText, List.append_assoc], hd⟩

/-! ### Reading the rewritten text -/

def subject : ConditionLeft := .simple placeholder .event

def LegacyClause.expression (c : LegacyClause) : Expression :=
  .condition ⟨.var subject, c.op, .literal c.literal⟩

def Conjunction.expression (c : Conjunction) : Expression :=
  c.rest.foldl (fun e x => .logical e .and x.2.expression) c.first.expression

def LegacyCondition.expression (c : LegacyCondition) : Expression :=
  c.rest.foldl (fun e x => .logical e .or x.2.expression) c.first.expression

theorem placeholder_head {c : Char} (h : c ≠ '_') (s : List Char) :
    (placeholder ++ s).head? ≠ some c := by
  show some '_' ≠ some c
  exact fun hEq => h (Option.some.inj hEq).symm

theorem placeholder_stops (s : List Char) : Stops isBlank (placeholder ++ s) := by
  intro c hc
  by_contra hBlank
  have hNot : c ≠ '_' := by
    rintro rfl
    exact hBlank (by decide)
  exact placeholder_head hNot s hc

theorem parseOperand_placeholder (s : List Char) :
    parseOperand (placeholder ++ ' ' :: s) = some (.var subject, ' ' :: s) := by
  have hStart : placeholder ++ ' ' :: s = '_' :: ("placeholder_".toList ++ ' ' :: s) := rfl
  have hLiteral : parseLiteral (placeholder ++ ' ' :: s) = none := by
    rw [hStart, parseLiteral, alt_none (parseQuotedString_none (by decide) (by decide)),
      alt_none (parseBoolean_none (by decide) (by decide)), alt_none (parseHexString_none (by decide)),
      parseNumberOrFixedStr_none (by decide) (by decide) (by decide)]
  have hName : IsName placeholder := Or.inl ⟨'_', "placeholder_".toList, rfl, by decide, by decide⟩
  have hBase : parseBaseVariableName (placeholder ++ ' ' :: s) =
      some ((placeholder, VariableSource.event), ' ' :: s) := by
    have hBare := @parseBaseName_append placeholder (' ' :: s) hName (stops_cons.mpr (by decide))
    rw [if_pos (by simp [show placeholder.all Char.isDigit = false by decide])] at hBare
    rw [hStart] at hBare ⊢
    rw [parseBaseVariableName_bare (by decide) (by decide)]
    refine map_some (a := placeholder) ?_
    rw [verify, hBare]
    exact if_pos (by decide)
  have hAccessors : fold parseAccessor (fun accessors a => accessors ++ [a]) [] (' ' :: s) =
      some (([] : List Accessor), ' ' :: s) :=
    fold_done (parseAccessor_none (by simp) (by simp))
  rw [parseOperand_of_literal_none hLiteral]
  refine map_some ?_
  simp only [parseConditionLhs, hBase, hAccessors]
  rfl

theorem parseArithmeticExpr_placeholder {s : List Char} (op : ComparisonOperator) :
    parseArithmeticExpr (placeholder ++ ' ' :: (op.text ++ s)) = some (.var subject, op.text ++ s) := by
  have hCloses : Closes (op.text ++ s) := closes_comparison op s
  have hSpace : space0 (' ' :: (op.text ++ s)) = op.text ++ s :=
    space0_append (w := [' ']) (by decide) (hCloses.follows 0).stops
  have hPrimary : ∀ inner, parseArithmeticPrimary inner (placeholder ++ ' ' :: (op.text ++ s)) =
      some (.var subject, op.text ++ s) := fun inner => by
    rw [parseArithmeticPrimary_operand inner (placeholder_stops _) (placeholder_head (by decide) _)
      (parseOperand_placeholder (op.text ++ s)), hSpace]
  have hDone : ∀ inner, arithmeticLevel inner 0 (placeholder ++ ' ' :: (op.text ++ s)) =
      some (.var subject, op.text ++ s) := fun inner => by
    rw [arithmeticLevel_primary (Nat.zero_le 3) (hCloses.follows 0) (hPrimary inner)]
    exact continueAt_done fun _ => arithmeticOperatorAt_none (by omega) (hCloses.follows 0).stops
      fun op' hOp => absurd hOp (hCloses.operator op')
  rw [parseArithmeticExpr]
  generalize (placeholder ++ ' ' :: (op.text ++ s)).length = n
  exact hDone (parseArithmeticTo n)

/-! ### The formula -/

theorem literalDelimiter_of_logic {l : Nat} {w r : List Char} (h : LogicFollows l r)
    (hw : ∀ c ∈ w, isBlank c = true) : literalDelimiter (w ++ r) = true := by
  cases w with
  | nil =>
    rcases h with rfl | h | ⟨op, s, rfl, -⟩
    · rfl
    · cases r with
      | nil => rfl
      | cons c r =>
        cases h
        rfl
    · cases op <;> rfl
  | cons c w =>
    show (isBlank c || _) = true
    rw [hw c List.mem_cons_self, Bool.true_or]

theorem token_delimited {t : Token} {l : LiteralValue} (h : t.operand? = some (.literal l))
    {rest : List Char} (hRest : literalDelimiter rest = true) : t.delimited rest = true := by
  cases t with
  | bool b => exact hRest
  | number text => exact hRest
  | hex text => exact hRest
  | quoted quote text => rfl
  | var v => cases h
  | leftParen | rightParen | not | logical op | comparison op | arithmetic op => cases h

/-- A level reads a text, whatever blanks and closing text follow it. -/
def Reads (n l : Nat) (text : List Char) (e : Expression) : Prop :=
  ∀ w r, (∀ c ∈ w, isBlank c = true) → LogicFollows l r →
    logicLevel (parseTermTo n) l (text ++ (w ++ r)) =
      continueAt logicOperatorAt .logical (logicLevel (parseTermTo n)) 2 l e r

theorem LegacyClause.reads (c : LegacyClause) (n : Nat) {l : Nat} (hl : l ≤ 2) :
    Reads (n + 1) l c.subjectText c.expression := by
  intro w r hw hFollows
  have hSpace : space0 r = r := space0_stops (hFollows.closes.follows 0).stops
  have hPrints : (ArithmeticExpr.literal c.literal).Prints 0 [(c.token, w)] :=
    .operand w c.operand c.valid
  have hDelimited : Layout.Delimited [(c.token, w)] r :=
    ⟨hw, token_delimited c.operand (literalDelimiter_of_logic hFollows hw), trivial⟩
  have hRight := parseArithmeticExpr_complete hPrints hFollows.closes hDelimited
  have hText : ∀ s, Layout.text [(c.token, w)] ++ s = c.token.text ++ (w ++ s) := fun s => by
    simp
  rw [hText] at hRight
  obtain ⟨d, t, hToken, -, hEq, -, hBlank⟩ := operand_starts c.operand c.valid
  have hOp := parseComparisonOperator_append c.op c.isBlank (s := c.token.text ++ (w ++ r))
    (by rw [hToken]; exact stops_cons.mpr hBlank) (by rw [hToken]; simpa using hEq)
  have hShape : c.subjectText ++ (w ++ r) =
      placeholder ++ ' ' :: (c.op.text ++ (c.blanks ++ (c.token.text ++ (w ++ r)))) := by
    simp [subjectText, text]
  have hCondition : parseCondition (c.subjectText ++ (w ++ r)) = some (c.expression, r) := by
    rw [hShape]
    refine map_some (a := (ArithmeticExpr.var subject, c.op, ArithmeticExpr.literal c.literal)) ?_
    simp only [andThen, parseArithmeticExpr_placeholder, hOp, hRight]
  refine logicLevel_term hl hFollows ((spaced_some ?_ ?_).trans (by rw [hSpace]))
  · rw [hShape]
    exact placeholder_stops _
  · rw [alt_none (parseNot_none ?_), alt_none (parenthesized_none ?_), hCondition]
    · rw [hShape]
      exact placeholder_head (by decide) _
    · rw [hShape]
      exact placeholder_head (by decide) _

theorem Reads.logical {n l : Nat} {op : LogicalOperator} {text text' : List Char}
    {e e' : Expression} (hLevel : l ≤ op.level) (h : Reads n op.level text e)
    (h' : Reads n (op.level + 1) (placeholder ++ text') e') :
    Reads n l (text ++ linked op (placeholder ++ text')) (.logical e op e') := by
  intro w r hw hFollows
  have hLeft := h [' '] (op.text ++ ([' '] ++ (placeholder ++ text' ++ w ++ r))) (by decide)
    (.inr (.inr ⟨op, _, rfl, Nat.le_refl _⟩))
  have hRight := h' w r hw (hFollows.mono (by omega))
  have hShape : text ++ linked op (placeholder ++ text') ++ (w ++ r) =
      text ++ ([' '] ++ (op.text ++ ([' '] ++ ((placeholder ++ text' ++ w) ++ r)))) := by
    simp [linked]
  rw [hShape]
  refine logicLevel_logical hLevel hLeft (by decide) ?_ ?_ hFollows
  · rw [List.append_assoc, List.append_assoc]
    exact placeholder_stops _
  · rw [List.append_assoc]
    exact hRight

/-- Operations of one level from left to right. -/
theorem Reads.foldl {α : Type} {n : Nat} {op : LogicalOperator} {f : α → List Char}
    {g : α → Expression} (hg : ∀ a, Reads n (op.level + 1) (placeholder ++ f a) (g a)) (rest : List α)
    {text : List Char} {e : Expression} (h : ∀ l ≤ op.level, Reads n l text e) :
    ∀ l ≤ op.level, Reads n l (text ++ rest.flatMap fun a => linked op (placeholder ++ f a))
      (rest.foldl (fun e a => .logical e op (g a)) e) := by
  induction rest generalizing text e with
  | nil => simpa using h
  | cons a rest ih =>
    intro l hl
    rw [List.flatMap_cons, ← List.append_assoc]
    exact ih (fun k hk => (h op.level (Nat.le_refl _)).logical hk (hg a)) l hl

theorem Conjunction.reads (c : Conjunction) (n : Nat) {l : Nat} (hl : l ≤ 1) :
    Reads (n + 1) l c.subjectText c.expression :=
  @Reads.foldl (Gap × LegacyClause) (n + 1) .and (fun x => ' ' :: x.2.text) (fun x => x.2.expression)
    (fun x => x.2.reads n (Nat.le_refl 2)) c.rest _ _
    (fun _ hk => c.first.reads n (Nat.le_trans hk (by decide))) l hl

theorem Conjunction.subjectText_eq (c : Conjunction) : ∃ s, c.subjectText = placeholder ++ s :=
  ⟨_, List.append_assoc _ _ _⟩

theorem LegacyCondition.parse_subjectText (c : LegacyCondition) :
    parse c.subjectText = some c.expression := by
  have hReads : ∀ n, Reads (n + 1) 0 c.subjectText c.expression := by
    intro n
    have hConjunction : ∀ x : Gap × Conjunction, placeholder ++ x.2.subjectText.drop placeholder.length =
        x.2.subjectText := fun x => by
      obtain ⟨s, hs⟩ := x.2.subjectText_eq
      rw [hs, List.drop_left]
    have hFold := @Reads.foldl (Gap × Conjunction) (n + 1) .or
      (fun x => x.2.subjectText.drop placeholder.length) (fun x => x.2.expression)
      (fun x => by
        rw [hConjunction]
        exact x.2.reads n (Nat.le_refl 1))
      c.rest _ _ (fun k hk => c.first.reads n (Nat.le_trans hk (by decide))) 0 (Nat.le_refl 0)
    simp only [hConjunction] at hFold
    exact hFold
  obtain ⟨s, hs⟩ := c.first.subjectText_eq
  have hStops : Stops isBlank c.subjectText := by
    rw [subjectText, hs, List.append_assoc]
    exact placeholder_stops _
  have hLevel := hReads c.subjectText.length [] [] (by simp) (.inl rfl)
  rw [List.append_nil, List.append_nil, continueAt_done fun _ => rfl] at hLevel
  have hExpression : parseExpressionTo (c.subjectText.length + 1) c.subjectText =
      some (c.expression, []) := by
    refine (spaced_some hStops hLevel).trans ?_
    rfl
  rw [parse, hExpression]

/-! ### Evaluation -/

/-- An error counts as false. -/
def isTrue : Except EvaluationError Bool → Bool
  | .ok b => b
  | .error _ => false

/-- The truth of the formula, clause by clause. -/
def LegacyCondition.formula (r : Readers) (value : JsonValue) (c : LegacyCondition) : Bool :=
  c.conjunctions.any fun g => g.clauses.all fun clause => isTrue (clause.value r value)

section Evaluation

variable (r : Readers) (value : JsonValue)

def subjectData : JsonValue := .object [(placeholder, value)]

theorem LegacyClause.evaluate_expression (c : LegacyClause) :
    evaluate r (subjectData value) c.expression = c.value r value := by
  have hResolve : resolvePathWithTable subject (subjectData value) none = .ok value := by
    have hGet : (subjectData value).get subject.baseName = some value := by
      show List.lookup placeholder [(placeholder, value)] = some value
      exact List.lookup_cons_self
    show Except.bind (((subjectData value).get subject.baseName).elim
      (.error (.variableNotFound (subject.source.sign ++ subject.baseName))) .ok) _ = _
    rw [hGet]
    rfl
  rw [evaluate, expression, evaluateWithTableData, evaluateConditionWithTable,
    evaluateArithmeticExprWithTable, hResolve]
  rfl

/-- Operations of `&&` from left to right. -/
theorem evaluate_foldl_and {α : Type} (g : α → Expression) (rest : List α) (e : Expression) :
    evaluate r (subjectData value) (rest.foldl (fun e a => .logical e .and (g a)) e) =
      shortAnd (evaluate r (subjectData value) e ::
        rest.map fun a => evaluate r (subjectData value) (g a)) := by
  induction rest generalizing e with
  | nil =>
    show evaluate r (subjectData value) e = shortAnd [_]
    rcases evaluate r (subjectData value) e with _ | b
    · rfl
    · cases b <;> rfl
  | cons a rest ih =>
    rw [List.foldl_cons, ih, List.map_cons]
    have hStep : evaluate r (subjectData value) (.logical e .and (g a)) =
        shortAnd [evaluate r (subjectData value) e, evaluate r (subjectData value) (g a)] := by
      show (evaluate r (subjectData value) e >>= _) = _
      rcases evaluate r (subjectData value) e with _ | b
      · rfl
      · cases b with
        | false => rfl
        | true =>
          show evaluate r (subjectData value) (g a) = shortAnd [_]
          rcases evaluate r (subjectData value) (g a) with _ | b
          · rfl
          · cases b <;> rfl
    rw [hStep]
    rcases evaluate r (subjectData value) e with _ | b
    · rfl
    · cases b with
      | false => rfl
      | true =>
        rcases evaluate r (subjectData value) (g a) with _ | b
        · rfl
        · cases b <;> rfl

/-- Operations of `||` from left to right. -/
theorem evaluate_foldl_or {α : Type} (g : α → Expression) (rest : List α) (e : Expression) :
    evaluate r (subjectData value) (rest.foldl (fun e a => .logical e .or (g a)) e) =
      shortOr (evaluate r (subjectData value) e ::
        rest.map fun a => evaluate r (subjectData value) (g a)) := by
  induction rest generalizing e with
  | nil =>
    show evaluate r (subjectData value) e = shortOr [_]
    rcases evaluate r (subjectData value) e with _ | b
    · rfl
    · cases b <;> rfl
  | cons a rest ih =>
    rw [List.foldl_cons, ih, List.map_cons]
    have hStep : evaluate r (subjectData value) (.logical e .or (g a)) =
        shortOr [evaluate r (subjectData value) e, evaluate r (subjectData value) (g a)] := by
      show (evaluate r (subjectData value) e >>= _) = _
      rcases evaluate r (subjectData value) e with _ | b
      · rfl
      · cases b with
        | true => rfl
        | false =>
          show evaluate r (subjectData value) (g a) = shortOr [_]
          rcases evaluate r (subjectData value) (g a) with _ | b
          · rfl
          · cases b <;> rfl
    rw [hStep]
    rcases evaluate r (subjectData value) e with _ | b
    · rfl
    · cases b with
      | true => rfl
      | false =>
        rcases evaluate r (subjectData value) (g a) with _ | b
        · rfl
        · cases b <;> rfl

theorem Conjunction.evaluate_expression (c : Conjunction) :
    evaluate r (subjectData value) c.expression = c.value r value := by
  rw [expression, evaluate_foldl_and r value fun x : Gap × LegacyClause => x.2.expression]
  simp only [LegacyClause.evaluate_expression]
  rw [Conjunction.value, clauses, List.map_cons, List.map_map]
  rfl

theorem LegacyCondition.evaluate_expression (c : LegacyCondition) :
    evaluate r (subjectData value) c.expression = c.value r value := by
  rw [expression, evaluate_foldl_or r value fun x : Gap × Conjunction => x.2.expression]
  simp only [Conjunction.evaluate_expression]
  rw [LegacyCondition.value, conjunctions, List.map_cons, List.map_map]
  rfl

end Evaluation

theorem isTrue_shortAnd (l : List (Except EvaluationError Bool)) : isTrue (shortAnd l) = l.all isTrue := by
  induction l with
  | nil => rfl
  | cons x l ih =>
    rcases x with _ | b
    · rfl
    · cases b with
      | false => rfl
      | true => exact ih

theorem any_of_shortOr {l : List (Except EvaluationError Bool)} (h : isTrue (shortOr l) = true) :
    l.any isTrue = true := by
  induction l with
  | nil => exact h
  | cons x l ih =>
    rcases x with _ | b
    · cases h
    · cases b with
      | false => exact ih h
      | true => rfl

theorem isTrue_shortOr {l : List (Except EvaluationError Bool)} (h : ∀ x ∈ l, ∃ b, x = .ok b) :
    isTrue (shortOr l) = l.any isTrue := by
  induction l with
  | nil => rfl
  | cons x l ih =>
    have hRest := ih fun y hy => h y (List.mem_cons_of_mem _ hy)
    obtain ⟨b, rfl⟩ := h x List.mem_cons_self
    cases b with
    | false => exact hRest
    | true => rfl

theorem shortAnd_ok {l : List (Except EvaluationError Bool)} (h : ∀ x ∈ l, ∃ b, x = .ok b) :
    ∃ b, shortAnd l = .ok b := by
  induction l with
  | nil => exact ⟨true, rfl⟩
  | cons x l ih =>
    obtain ⟨b, rfl⟩ := h x List.mem_cons_self
    cases b with
    | false => exact ⟨false, rfl⟩
    | true => exact ih fun y hy => h y (List.mem_cons_of_mem _ hy)

theorem LegacyCondition.formula_eq (r : Readers) (value : JsonValue) (c : LegacyCondition) :
    c.formula r value = (c.conjunctions.map (Conjunction.value r value)).any isTrue := by
  rw [formula, List.any_map]
  refine congrArg c.conjunctions.any (funext fun g => ?_)
  rw [Function.comp_apply, Conjunction.value, isTrue_shortAnd, List.all_map]
  rfl

theorem evaluateCondition_text (r : Readers) (value : JsonValue) {c : LegacyCondition} (h : c.Whole) :
    evaluateCondition r value c.text = isTrue (c.value r value) := by
  have hOperator : c.text.any isOperatorChar = true := by
    have hMem : ∃ d ∈ c.first.first.op.text, isOperatorChar d = true := by
      cases c.first.first.op <;> exact ⟨_, List.mem_cons_self, by decide⟩
    obtain ⟨d, hd, hOperator⟩ := hMem
    refine List.any_eq_true.mpr ⟨d, ?_, hOperator⟩
    simp [LegacyCondition.text, LegacyCondition.body, Conjunction.text, LegacyClause.text, hd]
  have hFilter : filterByExpression r (placeholder ++ ' ' :: insertSubject [] false (trim c.text))
      (.object [(placeholder, value)]) = some (c.value r value) := by
    rw [LegacyCondition.trim_text h, insertSubject_body h, filterByExpression, c.parse_subjectText]
    exact congrArg some (c.evaluate_expression r value)
  simp only [evaluateCondition, hOperator, hFilter, Bool.not_true, Bool.false_eq_true, if_false]
  rcases c.value r value with _ | b
  · rfl
  · rfl

/-- A condition whose literals in quotes have no operator in them is the formula, read from left to
right up to what decides it, and false where that is an error.  A text without operators is compared as
it stands. -/
theorem evaluateCondition_meaning (r : Readers) (value : JsonValue) :
    (∀ c : LegacyCondition, c.Whole →
      evaluateCondition r value c.text = isTrue (c.value r value) ∧
        (evaluateCondition r value c.text = true → c.formula r value = true) ∧
        ((∀ g ∈ c.conjunctions, ∀ clause ∈ g.clauses, ∃ b, clause.value r value = .ok b) →
          evaluateCondition r value c.text = c.formula r value)) ∧
      ∀ text : List Char, (∀ d ∈ text, isOperatorChar d = false) →
        evaluateCondition r value text = decide (simpleText value = some text) := by
  refine ⟨fun c h => ⟨evaluateCondition_text r value h, fun hTrue => ?_, fun hClauses => ?_⟩,
    fun text h => ?_⟩
  · rw [evaluateCondition_text r value h] at hTrue
    rw [LegacyCondition.formula_eq]
    exact any_of_shortOr hTrue
  · rw [evaluateCondition_text r value h, LegacyCondition.formula_eq]
    refine isTrue_shortOr fun x hx => ?_
    obtain ⟨g, hg, rfl⟩ := List.mem_map.mp hx
    refine shortAnd_ok fun y hy => ?_
    obtain ⟨clause, hClause, rfl⟩ := List.mem_map.mp hy
    exact hClauses g hg clause hClause
  · have hNone : text.any isOperatorChar = false := by
      rw [List.any_eq_false]
      exact fun d hd => by simp [h d hd]
    rw [evaluateCondition, hNone]
    show (simpleText value == some text) = _
    rw [Bool.beq_eq_decide_eq]

/-- `>= 10 && <= 20`. -/
def betweenTenAndTwenty : LegacyCondition where
  gap := ⟨[], [], by simp, by simp⟩
  first := ⟨⟨.gte, [' '], .number "10".toList, .number "10".toList, by decide, rfl, [], "10".toList, [],
    rfl, Or.inl rfl, ⟨by simp, by decide⟩, Or.inl rfl⟩,
    [(⟨[' '], [' '], by decide, by decide⟩, ⟨.lte, [' '], .number "20".toList, .number "20".toList,
      by decide, rfl, [], "20".toList, [], rfl, Or.inl rfl, ⟨by simp, by decide⟩, Or.inl rfl⟩)]⟩
  rest := []

theorem evaluateCondition_meaning_between :
    evaluateCondition asciiReaders (.number (.posInt 15)) betweenTenAndTwenty.text = true := by
  have hWhole : betweenTenAndTwenty.Whole := by
    intro g hg clause hClause quote text hQuoted
    simp only [betweenTenAndTwenty, LegacyCondition.conjunctions, List.map_nil,
      List.mem_singleton] at hg
    subst hg
    simp only [Conjunction.clauses, List.map_cons, List.map_nil, List.mem_cons, List.not_mem_nil,
      or_false] at hClause
    rcases hClause with rfl | rfl
    · cases hQuoted
    · cases hQuoted
  exact ((evaluateCondition_meaning asciiReaders (.number (.posInt 15))).1 betweenTenAndTwenty
    hWhole).1.trans (by decide +kernel)

/-- `> 5 || == 'hello'`. -/
def aboveOrHello : LegacyCondition where
  gap := ⟨[], [], by simp, by simp⟩
  first := ⟨⟨.gt, [' '], .number ['5'], .number ['5'], by decide, rfl, [], ['5'], [], rfl, Or.inl rfl,
    ⟨by simp, by decide⟩, Or.inl rfl⟩, []⟩
  rest := [(⟨[' '], [' '], by decide, by decide⟩,
    ⟨⟨.eq, [' '], .quoted .single "hello".toList, .str "hello".toList, by decide, rfl, by
      show quotedContent _ _ = _
      decide⟩, []⟩)]

/-- The error of the first clause drops the text that the second one is about. -/
theorem error_drops_later_clause :
    ¬ ∀ (value : JsonValue) (c : LegacyCondition),
      evaluateCondition asciiReaders value c.text = c.formula asciiReaders value := by
  intro h
  exact absurd (h (.string "hello".toList) aboveOrHello) (by decide +kernel)

end Rindexer.Filter
