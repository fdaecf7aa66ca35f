import Rindexer.Filter.Operands

/-! Every layout of an expression is read back, if its tokens are delimited. -/

namespace Rindexer.Filter

open Rindexer.Lib Parser

/-! ### Blanks -/

theorem space0_append {w s : List Char} (hw : ∀ c ∈ w, isBlank c = true) (hs : Stops isBlank s) :
    space0 (w ++ s) = s :=
  dropWhile_append_stops hw hs

theorem space0_stops {s : List Char} (h : Stops isBlank s) : space0 s = s :=
  space0_append (w := []) (by simp) h

theorem stops_space0 (s : List Char) : Stops isBlank (space0 s) := fun c hc => by
  have hNot := List.head?_dropWhile_not isBlank s
  rw [show (s.dropWhile isBlank).head? = some c from hc] at hNot
  exact hNot

theorem spaced_some {α : Type} {p : Parser α} {s r : List Char} {a : α} (hs : Stops isBlank s)
    (h : p s = some (a, r)) : spaced p s = some (a, space0 r) := by
  rw [spaced, space0_stops hs, h]

theorem spaced_none {α : Type} {p : Parser α} {s : List Char} (hs : Stops isBlank s)
    (h : p s = none) : spaced p s = none := by
  rw [spaced, space0_stops hs, h]

/-! ### Delimited layouts -/

/-- After each token stand blanks, and what the parser wants to see. -/
def Layout.Delimited : Layout → List Char → Prop
  | [], _ => True
  | (t, w) :: ts, r =>
    (∀ c ∈ w, isBlank c = true) ∧ t.delimited (w ++ (text ts ++ r)) = true ∧ Delimited ts r

theorem Layout.delimited_append {ts us : Layout} {r : List Char} :
    (ts ++ us).Delimited r ↔ ts.Delimited (us.text ++ r) ∧ us.Delimited r := by
  induction ts with
  | nil => simp [Delimited]
  | cons t ts ih =>
    rw [List.cons_append, Delimited, Delimited, ih, text_append, List.append_assoc]
    tauto

theorem operand_starts {t : Token} {e : ArithmeticExpr} (h : t.operand? = some e) (hValid : t.Valid) :
    ∃ c s, t.text = c :: s ∧ c ≠ '!' ∧ c ≠ '=' ∧ c ≠ '(' ∧ isBlank c = false := by
  cases t with
  | bool b => cases b <;> exact ⟨_, _, rfl, by decide⟩
  | number text =>
    obtain ⟨sign, digits, fraction, rfl, hSign, ⟨hNonempty, hDigits⟩, -⟩ := hValid
    obtain ⟨d, ds, rfl⟩ := List.exists_cons_of_ne_nil hNonempty
    rcases hSign with rfl | rfl | rfl
    · have hDigit := hDigits d List.mem_cons_self
      refine ⟨d, ds ++ fraction, rfl, ?_, ?_, ?_, ?_⟩
      · rintro rfl
        cases hDigit
      · rintro rfl
        cases hDigit
      · rintro rfl
        cases hDigit
      · by_contra hBlank
        simp only [isBlank, Bool.not_eq_false, Bool.or_eq_true, beq_iff_eq] at hBlank
        rcases hBlank with rfl | rfl <;> cases hDigit
    · exact ⟨'+', _, rfl, by decide⟩
    · exact ⟨'-', _, rfl, by decide⟩
  | hex text =>
    obtain ⟨x, digits, rfl, -⟩ := hValid
    exact ⟨'0', _, rfl, by decide⟩
  | quoted quote text => cases quote <;> exact ⟨_, _, rfl, by decide⟩
  | var v =>
    rw [Token.text, ConditionLeft.text]
    cases v.source <;> exact ⟨_, _, rfl, by decide⟩
  | leftParen | rightParen | not | logical op | comparison op | arithmetic op => cases h

/-- A layout starts with an operand or a parenthesis. -/
theorem ArithmeticExpr.Prints.starts {l : Nat} {e : ArithmeticExpr} {ts : Layout} (h : e.Prints l ts) :
    ∃ c s, ts.text = c :: s ∧ c ≠ '!' ∧ c ≠ '=' ∧ isBlank c = false := by
  induction h with
  | operand w h hValid =>
    obtain ⟨c, s, hText, hNot, hEq, -, hBlank⟩ := operand_starts h hValid
    exact ⟨c, s ++ (w ++ []), by simp [hText], hNot, hEq, hBlank⟩
  | parens w w' h ih => exact ⟨'(', _, by simp [Token.text]; rfl, by decide, by decide, by decide⟩
  | binary op w hLevel h h' ih ih' =>
    obtain ⟨c, s, hText, hNot, hEq, hBlank⟩ := ih
    exact ⟨c, _, by rw [Layout.text_append, hText]; rfl, hNot, hEq, hBlank⟩

theorem ArithmeticExpr.Prints.stops {l : Nat} {e : ArithmeticExpr} {ts : Layout} (h : e.Prints l ts)
    (r : List Char) : Stops isBlank (ts.text ++ r) := by
  obtain ⟨c, s, hText, -, -, hBlank⟩ := h.starts
  rw [hText]
  exact stops_cons.mpr hBlank

/-! ### Arithmetic -/

def followCharacters : List Char := [')', '=', '!', '>', '<', '&', '|', '+', '-', '*', '/', '^']

/-- What can follow an operand: nothing, or an operator that binds no tighter than a level, or a
closing parenthesis. -/
structure Follows (l : Nat) (r : List Char) : Prop where
  mem : ∀ c ∈ r.head?, c ∈ followCharacters
  level : ∀ op : ArithmeticOperator, r.head? = some op.char → op.level ≤ l

theorem Follows.stops {l : Nat} {r : List Char} (h : Follows l r) : Stops isBlank r := fun c hc =>
  (by decide : ∀ c ∈ followCharacters, isBlank c = false) c (h.mem c hc)

theorem Follows.ends {l : Nat} {w r : List Char} (h : Follows l r) (hw : ∀ c ∈ w, isBlank c = true) :
    Ends (w ++ r) := by
  intro c hc
  cases w with
  | nil => exact (by decide : ∀ c ∈ followCharacters, c ∈ endCharacters) c (h.mem c hc)
  | cons d w =>
    cases hc
    have hBlank := hw c List.mem_cons_self
    simp only [isBlank, Bool.or_eq_true, beq_iff_eq] at hBlank
    rcases hBlank with rfl | rfl <;> decide

theorem Follows.of_operator (op : ArithmeticOperator) (s : List Char) :
    Follows op.level (op.char :: s) where
  mem c hc := by
    cases hc
    cases op <;> decide
  level op' h := by
    have hChar : op.char = op'.char := by simpa using h
    have hSame : op = op' := by
      revert hChar
      cases op <;> cases op' <;> decide
    exact hSame ▸ Nat.le_refl _

section Levels

variable (inner : Parser ArithmeticExpr)

def arithmeticOperatorAt : Nat → Parser ArithmeticOperator
  | 0 => parseAdditiveOperator
  | 1 => parseMultiplicativeOperator
  | _ => parsePowerOperator

def arithmeticLevel : Nat → Parser ArithmeticExpr
  | 0 => parseAdditiveExpr inner
  | 1 => parseMultiplicativeExpr inner
  | 2 => parsePowerExpr inner
  | _ => parseArithmeticPrimary inner

theorem arithmeticLevel_eq : ∀ l < 3, arithmeticLevel inner l =
    leftAssoc (arithmeticOperatorAt l) (arithmeticLevel inner (l + 1)) .binary
  | 0, _ => rfl
  | 1, _ => rfl
  | 2, _ => rfl

theorem arithmeticOperatorAt_none {l : Nat} (hl : l < 3) {r : List Char} (hr : Stops isBlank r)
    (h : ∀ op : ArithmeticOperator, r.head? = some op.char → op.level ≠ l) :
    arithmeticOperatorAt l r = none := by
  have hNone : ∀ (op : ArithmeticOperator) (c : Char), op.char = c → op.level = l →
      literal [c] r = none := by
    rintro op _ rfl hOp
    exact literal_none rfl fun hHead => h op hHead hOp
  match l, hl with
  | 0, _ =>
    refine spaced_none hr ?_
    rw [alt_none (map_none (hNone .add '+' rfl rfl)), map_none (hNone .subtract '-' rfl rfl)]
  | 1, _ =>
    refine spaced_none hr ?_
    rw [alt_none (map_none (hNone .multiply '*' rfl rfl)), map_none (hNone .divide '/' rfl rfl)]
  | 2, _ => exact spaced_none hr (map_none (hNone .power '^' rfl rfl))

theorem arithmeticOperatorAt_append (op : ArithmeticOperator) {w s : List Char}
    (hw : ∀ c ∈ w, isBlank c = true) (hs : Stops isBlank s) :
    arithmeticOperatorAt op.level (op.char :: (w ++ s)) = some (op, s) := by
  have hSpace := space0_append hw hs
  have hStops : space0 (op.char :: (w ++ s)) = op.char :: (w ++ s) :=
    space0_stops (stops_cons.mpr (by cases op <;> decide))
  cases op <;> simp only [ArithmeticOperator.char] at hStops <;>
    simp [arithmeticOperatorAt, ArithmeticOperator.level, ArithmeticOperator.char,
      parseAdditiveOperator, parseMultiplicativeOperator, parsePowerOperator, spaced, alt, map, literal,
      hStops, hSpace]

end Levels

/-- A parser in parentheses, where it reads all that stands in them. -/
theorem parenthesized_append {α : Type} {p : Parser α} {a : α} {w s r : List Char}
    (hw : ∀ c ∈ w, isBlank c = true) (hs : Stops isBlank s) (h : p s = some (a, ')' :: r)) :
    parenthesized p ('(' :: (w ++ s)) = some (a, r) := by
  have hClose : space0 (')' :: r) = ')' :: r := space0_stops (stops_cons.mpr (by decide))
  rw [parenthesized, literal_singleton]
  simp only [space0_append hw hs, h, hClose, literal_singleton]

theorem parenthesized_none {α : Type} {p : Parser α} {s : List Char} (h : s.head? ≠ some '(') :
    parenthesized p s = none := by
  rw [parenthesized, literal_none (c := '(') rfl h]

/-- The primary of an operand that is no parenthesis. -/
theorem parseArithmeticPrimary_operand (inner : Parser ArithmeticExpr) {s r : List Char}
    {e : ArithmeticExpr} (hs : Stops isBlank s) (hParen : s.head? ≠ some '(')
    (h : parseOperand s = some (e, r)) : parseArithmeticPrimary inner s = some (e, space0 r) := by
  have hLiterals : ∀ s, parseNumericOrQuotedLiteral s = spaced parseLiteral s := fun _ => rfl
  rw [parseOperand] at h
  cases hLiteral : parseLiteral s with
  | none =>
    rw [alt_none (map_none hLiteral)] at h
    refine spaced_some hs ?_
    rw [alt_none (parenthesized_none hParen), alt_none (map_none ?_), h]
    rw [hLiterals, spaced_none hs hLiteral]
  | some x =>
    obtain ⟨l, r'⟩ := x
    rw [alt_some (map_some hLiteral)] at h
    cases h
    rw [parseArithmeticPrimary, spaced, space0_stops hs, alt_none (parenthesized_none hParen),
      alt_some (map_some ((hLiterals s).trans (spaced_some hs hLiteral)))]
    simp only [space0_stops (stops_space0 r)]

theorem parseArithmeticPrimary_parens {inner : Parser ArithmeticExpr} {e : ArithmeticExpr}
    {w s r : List Char} (hw : ∀ c ∈ w, isBlank c = true) (hs : Stops isBlank s)
    (h : inner s = some (e, ')' :: r)) :
    parseArithmeticPrimary inner ('(' :: (w ++ s)) = some (e, space0 r) :=
  spaced_some (stops_cons.mpr (by decide)) (alt_some (parenthesized_append hw hs h))

section Complete

variable {inner : Parser ArithmeticExpr}

theorem Follows.not_tighter {l : Nat} {r : List Char} (h : Follows l r) (j : Nat) (hl : l < j)
    (hj : j < 3) : arithmeticOperatorAt j r = none :=
  arithmeticOperatorAt_none hj h.stops fun op hOp hLevel => by
    have hLe := h.level op hOp
    omega

/-- An operand that the primary reads is a first operand of every level. -/
theorem arithmeticLevel_primary {l : Nat} {e : ArithmeticExpr} {s r : List Char} (hl : l ≤ 3)
    (hFollows : Follows l r) (h : parseArithmeticPrimary inner s = some (e, r)) :
    arithmeticLevel inner l s =
      continueAt arithmeticOperatorAt .binary (arithmeticLevel inner) 3 l e r :=
  descend (arithmeticLevel_eq inner) hl (Nat.le_refl 3) hFollows.not_tighter
    (h.trans (continueAt_done fun h => absurd h (by omega)).symm)

/-- Each level reads a layout of the level and goes on after it.  The induction is on the layout, and
`inner` is for the layouts in parentheses. -/
theorem arithmeticLevel_complete {bound : Nat}
    (hInner : ∀ (e : ArithmeticExpr) (ts : Layout) (s : List Char), e.Prints 0 ts →
      ts.text.length < bound → ts.Delimited (')' :: s) →
      inner (ts.text ++ ')' :: s) = some (e, ')' :: s))
    {l : Nat} {e : ArithmeticExpr} {ts : Layout} (h : e.Prints l ts) (hl : l ≤ 3)
    (hBound : ts.text.length ≤ bound) {r : List Char} (hFollows : Follows l r)
    (hDelimited : ts.Delimited r) :
    arithmeticLevel inner l (ts.text ++ r) =
      continueAt arithmeticOperatorAt .binary (arithmeticLevel inner) 3 l e r := by
  induction h generalizing r with
  | @operand l t e w hOperand hValid =>
    obtain ⟨hw, hToken, -⟩ := hDelimited
    obtain ⟨c, s, hText, -, -, hParen, hBlank⟩ := operand_starts hOperand hValid
    have hRead := readAs hOperand hValid (hFollows.ends hw)
    rw [ReadAs, if_pos (by simpa using hToken)] at hRead
    refine arithmeticLevel_primary hl hFollows ?_
    rw [Layout.text_cons, Layout.text_nil, List.append_nil, List.append_assoc]
    rw [parseArithmeticPrimary_operand inner _ _ hRead, space0_append hw hFollows.stops]
    · rw [hText]
      exact stops_cons.mpr hBlank
    · rw [hText]
      simpa using hParen
  | @parens l e ts w w' h ih =>
    obtain ⟨hw, -, hRest⟩ := hDelimited
    obtain ⟨hts, hw', -⟩ := Layout.delimited_append.mp hRest
    simp only [Layout.text_cons, Layout.text_append, Layout.text_nil, Token.text, List.append_nil,
      List.append_assoc, List.nil_append, List.cons_append, List.length_cons,
      List.length_append] at hBound hts ⊢
    refine arithmeticLevel_primary hl hFollows ?_
    rw [parseArithmeticPrimary_parens hw (h.stops _) (hInner e ts _ h (by omega) hts),
      space0_append hw' hFollows.stops]
  | @binary l left right ts us op w hLevel h h' ih ih' =>
    obtain ⟨hts, hw, hOp, hus⟩ := Layout.delimited_append.mp hDelimited
    have hOpLevel : op.level < 3 := by cases op <;> decide
    simp only [Layout.text_cons, Layout.text_append, Token.text, List.append_assoc,
      List.nil_append, List.cons_append, List.length_cons, List.length_append] at hBound hts ⊢
    have hFollowsOp : Follows op.level r :=
      ⟨hFollows.mem, fun op' hOp' => Nat.le_trans (hFollows.level op' hOp') hLevel⟩
    have hFollowsRight : Follows (op.level + 1) r :=
      ⟨hFollows.mem, fun op' hOp' => Nat.le_trans (hFollowsOp.level op' hOp') (by omega)⟩
    have hLeft := ih (by omega) (by omega) (Follows.of_operator op _) hts
    have hRight := ih' (by omega) (by omega) hFollowsRight hus
    rw [continueAt_done fun hLt => hFollowsOp.not_tighter _ (by omega) hLt] at hRight
    have hBinary := continue_binary hOpLevel hLeft
      (arithmeticOperatorAt_append op hw (h'.stops r)) hRight (by simp; omega)
    exact descend (arithmeticLevel_eq inner) hLevel (by omega) hFollows.not_tighter hBinary

end Complete

/-- Nothing, or what can follow an arithmetic expression that is not in an operation. -/
structure Closes (r : List Char) : Prop where
  mem : ∀ c ∈ r.head?, c ∈ followCharacters
  operator : ∀ op : ArithmeticOperator, r.head? ≠ some op.char

theorem Closes.follows {r : List Char} (h : Closes r) (l : Nat) : Follows l r :=
  ⟨h.mem, fun op hOp => absurd hOp (h.operator op)⟩

theorem closes_rightParen (s : List Char) : Closes (')' :: s) where
  mem c hc := by
    cases hc
    decide
  operator op h := by
    cases op <;> simp [ArithmeticOperator.char] at h

theorem parseArithmeticTo_complete (n : Nat) {e : ArithmeticExpr} {ts : Layout} (h : e.Prints 0 ts)
    (hBound : ts.text.length < n) {r : List Char} (hCloses : Closes r) (hDelimited : ts.Delimited r) :
    parseArithmeticTo n (ts.text ++ r) = some (e, r) := by
  induction n generalizing e ts r with
  | zero => omega
  | succ n ih =>
    have hComplete := arithmeticLevel_complete
      (fun e ts s h hBound hDelimited => ih h hBound (closes_rightParen s) hDelimited) h (by omega)
      (by omega) (hCloses.follows 0) hDelimited
    rw [continueAt_done] at hComplete
    · exact hComplete
    · exact fun hl => arithmeticOperatorAt_none hl (hCloses.follows 0).stops
        fun op hOp => absurd hOp (hCloses.operator op)

theorem parseArithmeticExpr_complete {e : ArithmeticExpr} {ts : Layout} (h : e.Prints 0 ts)
    {r : List Char} (hCloses : Closes r) (hDelimited : ts.Delimited r) :
    parseArithmeticExpr (ts.text ++ r) = some (e, r) :=
  parseArithmeticTo_complete _ h (by rw [List.length_append]; omega) hCloses hDelimited

/-! ### Conditions -/

theorem parseComparisonOperator_append (op : ComparisonOperator) {w s : List Char}
    (hw : ∀ c ∈ w, isBlank c = true) (hs : Stops isBlank s) (hEq : s.head? ≠ some '=') :
    parseComparisonOperator (op.text ++ (w ++ s)) = some (op, s) := by
  have hSpace := space0_append hw hs
  have hStops : Stops isBlank (op.text ++ (w ++ s)) := by
    cases op <;> exact stops_cons.mpr (by decide)
  have hNext : (w ++ s).head? ≠ some '=' := by
    cases w with
    | nil => exact hEq
    | cons c w =>
      have hBlank := hw c List.mem_cons_self
      rintro hHead
      cases hHead
      cases hBlank
  have hLonger : ∀ c, literal [c, '='] (c :: (w ++ s)) = none := fun c => by
    rw [literal, if_neg]
    rintro ⟨r, hr⟩
    exact hNext (by rw [← (List.cons.inj hr).2]; rfl)
  refine (spaced_some (r := w ++ s) hStops ?_).trans (by rw [hSpace])
  cases op with
  | eq => simp [alt, map, literal, ComparisonOperator.text]
  | ne => simp [alt, map, literal, ComparisonOperator.text]
  | gt =>
    have hText : ComparisonOperator.gt.text ++ (w ++ s) = '>' :: (w ++ s) := rfl
    have hGte : literal ">=".toList ('>' :: (w ++ s)) = none := hLonger '>'
    rw [hText, alt_none (map_none hGte)]
    simp [alt, map, literal]
  | gte => simp [alt, map, literal, ComparisonOperator.text]
  | lt =>
    have hText : ComparisonOperator.lt.text ++ (w ++ s) = '<' :: (w ++ s) := rfl
    have hLte : literal "<=".toList ('<' :: (w ++ s)) = none := hLonger '<'
    rw [hText, alt_none (by simp [map, literal]), alt_none (map_none hLte)]
    simp [alt, map, literal]
  | lte => simp [alt, map, literal, ComparisonOperator.text]

theorem closes_comparison (op : ComparisonOperator) (s : List Char) : Closes (op.text ++ s) where
  mem c hc := by
    cases op <;> cases hc <;> decide
  operator op' h := by
    cases op <;> cases op' <;> simp [ComparisonOperator.text, ArithmeticOperator.char] at h

theorem parseCondition_complete {left right : ArithmeticExpr} {ts us : Layout}
    {op : ComparisonOperator} {w r : List Char} (h : left.Prints 0 ts) (h' : right.Prints 0 us)
    (hCloses : Closes r) (hDelimited : Layout.Delimited (ts ++ (.comparison op, w) :: us) r) :
    parseCondition (Layout.text (ts ++ (.comparison op, w) :: us) ++ r) =
      some (.condition ⟨left, op, right⟩, r) := by
  obtain ⟨hts, hw, -, hus⟩ := Layout.delimited_append.mp hDelimited
  rw [Layout.text_cons, List.append_assoc, List.append_assoc] at hts
  have hLeft := parseArithmeticExpr_complete h (closes_comparison op _) hts
  have hNoEq : (us.text ++ r).head? ≠ some '=' := by
    obtain ⟨c, s, hText, -, hEq, -⟩ := h'.starts
    rw [hText]
    simpa using hEq
  have hOp := parseComparisonOperator_append op hw (h'.stops r) hNoEq
  have hRight := parseArithmeticExpr_complete h' hCloses hus
  rw [Layout.text_append, Layout.text_cons, List.append_assoc, List.append_assoc, List.append_assoc]
  refine map_some (a := (left, op, right)) ?_
  simp only [andThen, hLeft, show (Token.comparison op).text = op.text from rfl, hOp, hRight]

/-! ### Terms -/

/-- A layout of an arithmetic expression starts with an operand, or with an expression in
parentheses. -/
theorem ArithmeticExpr.Prints.leading {l : Nat} {e : ArithmeticExpr} {ts : Layout} (h : e.Prints l ts) :
    (∃ c s, ts.text = c :: s ∧ c ≠ '(') ∨ ∃ (e' : ArithmeticExpr) (us rest : Layout) (w w' : List Char),
      e'.Prints 0 us ∧ ts = (.leftParen, w) :: (us ++ (.rightParen, w') :: rest) := by
  induction h with
  | operand w h hValid =>
    obtain ⟨c, s, hText, -, -, hParen, -⟩ := operand_starts h hValid
    exact .inl ⟨c, s ++ (w ++ []), by simp [hText], hParen⟩
  | @parens l e ts w w' h => exact .inr ⟨e, ts, [], w, w', h, rfl⟩
  | binary op w hLevel h h' ih =>
    rcases ih with ⟨c, s, hText, hParen⟩ | ⟨e', us, rest, w₁, w₂, hPrints, rfl⟩
    · exact .inl ⟨c, _, by rw [Layout.text_append, hText]; rfl, hParen⟩
    · exact .inr ⟨e', us, _, w₁, w₂, hPrints, by simp; rfl⟩

theorem Layout.text_paren_append (w : List Char) (us rest : Layout) (w' r : List Char) :
    Layout.text ((.leftParen, w) :: (us ++ (.rightParen, w') :: rest)) ++ r =
      '(' :: (w ++ (us.text ++ ')' :: (w' ++ (rest.text ++ r)))) := by
  simp [Token.text]

theorem parseComparisonOperator_none {s : List Char} (hs : Stops isBlank s)
    (h : ∀ c ∈ s.head?, c ≠ '>' ∧ c ≠ '<' ∧ c ≠ '=' ∧ c ≠ '!') : parseComparisonOperator s = none := by
  have hNot : ∀ c, (c = '>' ∨ c = '<' ∨ c = '=' ∨ c = '!') → s.head? ≠ some c := fun c hc hHead => by
    have hOther := h c hHead
    grind
  refine spaced_none hs ?_
  rw [alt_none (map_none (literal_none (c := '>') rfl (hNot _ (by simp)))),
    alt_none (map_none (literal_none (c := '<') rfl (hNot _ (by simp)))),
    alt_none (map_none (literal_none (c := '=') rfl (hNot _ (by simp)))),
    alt_none (map_none (literal_none (c := '!') rfl (hNot _ (by simp)))),
    alt_none (map_none (literal_none (c := '>') rfl (hNot _ (by simp)))),
    map_none (literal_none (c := '<') rfl (hNot _ (by simp)))]

theorem parseNot_none {term : Parser Expression} {s : List Char} (h : s.head? ≠ some '!') :
    parseNot term s = none := by
  rw [parseNot, literal_none (c := '!') rfl h]

/-- If no expression in parentheses is taken for a logical one, then no arithmetic layout is. -/
theorem parenthesized_arithmetic_none {p : Parser Expression}
    (hp : ∀ (e : ArithmeticExpr) (ts : Layout) (s : List Char), e.Prints 0 ts →
      ts.Delimited (')' :: s) → p (ts.text ++ ')' :: s) = none)
    {l : Nat} {e : ArithmeticExpr} {ts : Layout} (h : e.Prints l ts) {r : List Char}
    (hDelimited : ts.Delimited r) : parenthesized p (ts.text ++ r) = none := by
  rcases h.leading with ⟨c, s, hText, hParen⟩ | ⟨e', us, rest, w, w', hPrints, rfl⟩
  · rw [hText]
    exact parenthesized_none (by simpa using hParen)
  · obtain ⟨hw, -, hRest⟩ := hDelimited
    obtain ⟨hus, -⟩ := Layout.delimited_append.mp hRest
    have hText : Layout.text ((.rightParen, w') :: rest) ++ r = ')' :: (w' ++ (rest.text ++ r)) := by
      simp [Token.text]
    rw [hText] at hus
    rw [Layout.text_paren_append, parenthesized, literal_singleton]
    simp only [space0_append hw (hPrints.stops _), hp e' us _ hPrints hus]

theorem parseExpressionTo_arithmetic (n : Nat) {e : ArithmeticExpr} {ts : Layout} {s : List Char}
    (h : e.Prints 0 ts) (hDelimited : ts.Delimited (')' :: s)) :
    parseExpressionTo n (ts.text ++ ')' :: s) = none := by
  induction n generalizing e ts s with
  | zero =>
    have hTerm : parseTermTo 0 (ts.text ++ ')' :: s) = none := rfl
    have hOr : parseOrExpression (parseTermTo 0) (ts.text ++ ')' :: s) = none :=
      leftAssoc_none (leftAssoc_none hTerm)
    exact spaced_none (h.stops _) hOr
  | succ n ih =>
    obtain ⟨c, s', hText, hNot, -⟩ := h.starts
    have hArithmetic := parseArithmeticExpr_complete h (closes_rightParen s) hDelimited
    have hComparison : parseComparisonOperator (')' :: s) = none :=
      parseComparisonOperator_none (stops_cons.mpr (by decide)) (by simp)
    have hCondition : parseCondition (ts.text ++ ')' :: s) = none := by
      refine map_none ?_
      simp only [andThen, hArithmetic, hComparison]
    refine spaced_none (h.stops _) (leftAssoc_none (leftAssoc_none (spaced_none (h.stops _) ?_)))
    have hParens := parenthesized_arithmetic_none (fun e ts s h hDelimited => ih h hDelimited) h hDelimited
    rw [alt_none (parseNot_none (by rw [hText]; simpa using hNot))]
    exact (alt_none hParens).trans hCondition

/-! ### Logic -/

/-- What can follow a term: nothing, a closing parenthesis, or a logical operator that binds no tighter
than a level. -/
def LogicFollows (l : Nat) (r : List Char) : Prop :=
  r = [] ∨ r.head? = some ')' ∨ ∃ (op : LogicalOperator) (s : List Char), r = op.text ++ s ∧ op.level ≤ l

theorem LogicFollows.mono {l k : Nat} {r : List Char} (h : LogicFollows l r) (hLe : l ≤ k) :
    LogicFollows k r := by
  rcases h with h | h | ⟨op, s, hText, hLevel⟩
  · exact .inl h
  · exact .inr (.inl h)
  · exact .inr (.inr ⟨op, s, hText, Nat.le_trans hLevel hLe⟩)

theorem LogicFollows.closes {l : Nat} {r : List Char} (h : LogicFollows l r) : Closes r := by
  have hHead : r.head? = none ∨ r.head? = some ')' ∨ r.head? = some '&' ∨ r.head? = some '|' := by
    rcases h with rfl | h | ⟨op, s, rfl, -⟩
    · exact .inl rfl
    · exact .inr (.inl h)
    · cases op
      · exact .inr (.inr (.inl rfl))
      · exact .inr (.inr (.inr rfl))
  refine ⟨fun c hc => ?_, fun op hOp => ?_⟩
  · rcases hHead with h | h | h | h <;> rw [h] at hc <;> cases hc <;> decide
  · rcases hHead with h | h | h | h <;> rw [h] at hOp <;> cases op <;> cases hOp

def logicOperatorAt : Nat → Parser LogicalOperator
  | 0 => parseOrOperator
  | _ => parseAndOperator

def logicLevel (term : Parser Expression) : Nat → Parser Expression
  | 0 => parseOrExpression term
  | 1 => parseAndExpression term
  | _ => term

theorem logicLevel_eq (term : Parser Expression) : ∀ l < 2, logicLevel term l =
    leftAssoc (logicOperatorAt l) (logicLevel term (l + 1)) .logical
  | 0, _ => rfl
  | 1, _ => rfl

theorem parseOrOperator_none {s : List Char} (hs : Stops isBlank s) (h : s.head? ≠ some '|') :
    parseOrOperator s = none :=
  spaced_none hs (map_none (literal_none (c := '|') rfl h))

theorem parseAndOperator_none {s : List Char} (hs : Stops isBlank s) (h : s.head? ≠ some '&') :
    parseAndOperator s = none :=
  spaced_none hs (map_none (literal_none (c := '&') rfl h))

theorem logicOperatorAt_append (op : LogicalOperator) {w s : List Char}
    (hw : ∀ c ∈ w, isBlank c = true) (hs : Stops isBlank s) :
    logicOperatorAt op.level (op.text ++ (w ++ s)) = some (op, s) := by
  have hSpace := space0_append hw hs
  have hStops : Stops isBlank (op.text ++ (w ++ s)) := by
    cases op <;> exact stops_cons.mpr (by decide)
  cases op with
  | and =>
    have hAnd : ((literal "&&".toList).map fun _ => LogicalOperator.and)
        (LogicalOperator.and.text ++ (w ++ s)) = some (.and, w ++ s) := map_some literal_append
    exact (spaced_some hStops hAnd).trans (by rw [hSpace])
  | or =>
    have hOr : ((literal "||".toList).map fun _ => LogicalOperator.or)
        (LogicalOperator.or.text ++ (w ++ s)) = some (.or, w ++ s) := map_some literal_append
    exact (spaced_some hStops hOr).trans (by rw [hSpace])

theorem LogicFollows.not_tighter {l : Nat} {r : List Char} (h : LogicFollows l r) (j : Nat) (hl : l < j)
    (hj : j < 2) : logicOperatorAt j r = none := by
  obtain ⟨rfl, rfl⟩ : j = 1 ∧ l = 0 := by omega
  have hNot : r.head? ≠ some '&' := by
    rcases h with rfl | h | ⟨op, s, rfl, hLevel⟩
    · simp
    · simp [h]
    · cases op with
      | and => exact absurd hLevel (by decide)
      | or => simp [LogicalOperator.text]
  exact parseAndOperator_none (h.closes.follows 0).stops hNot

theorem Expression.Prints.starts {l : Nat} {e : Expression} {ts : Layout} (h : e.Prints l ts) :
    ∃ c s, ts.text = c :: s ∧ isBlank c = false := by
  induction h with
  | condition op w h h' =>
    obtain ⟨c, s, hText, -, -, hBlank⟩ := h.starts
    exact ⟨c, _, by rw [Layout.text_append, hText]; rfl, hBlank⟩
  | not w h ih => exact ⟨'!', _, by simp [Token.text]; rfl, by decide⟩
  | parens w w' h ih => exact ⟨'(', _, by simp [Token.text]; rfl, by decide⟩
  | logical op w hLevel h h' ih ih' =>
    obtain ⟨c, s, hText, hBlank⟩ := ih
    exact ⟨c, _, by rw [Layout.text_append, hText]; rfl, hBlank⟩

theorem Expression.Prints.stops {l : Nat} {e : Expression} {ts : Layout} (h : e.Prints l ts)
    (r : List Char) : Stops isBlank (ts.text ++ r) := by
  obtain ⟨c, s, hText, hBlank⟩ := h.starts
  rw [hText]
  exact stops_cons.mpr hBlank

theorem logicLevel_term {term : Parser Expression} {l : Nat} {e : Expression} {s r : List Char}
    (hl : l ≤ 2) (hFollows : LogicFollows l r) (h : term s = some (e, r)) :
    logicLevel term l s = continueAt logicOperatorAt .logical (logicLevel term) 2 l e r :=
  descend (logicLevel_eq term) hl (Nat.le_refl 2) hFollows.not_tighter
    (h.trans (continueAt_done fun h => absurd h (by omega)).symm)

/-- An operation of a level, from what the levels of its two sides read. -/
theorem logicLevel_logical {term : Parser Expression} {l : Nat} {op : LogicalOperator}
    {left right : Expression} {s w u r : List Char} (hLevel : l ≤ op.level)
    (hLeft : logicLevel term op.level s =
      continueAt logicOperatorAt .logical (logicLevel term) 2 op.level left (op.text ++ (w ++ (u ++ r))))
    (hw : ∀ c ∈ w, isBlank c = true) (hStops : Stops isBlank (u ++ r))
    (hRight : logicLevel term (op.level + 1) (u ++ r) =
      continueAt logicOperatorAt .logical (logicLevel term) 2 (op.level + 1) right r)
    (hFollows : LogicFollows l r) :
    logicLevel term l s =
      continueAt logicOperatorAt .logical (logicLevel term) 2 l (.logical left op right) r := by
  have hOpLevel : op.level < 2 := by cases op <;> decide
  have hOpText : op.text.length = 2 := by cases op <;> rfl
  rw [continueAt_done fun hLt => hFollows.not_tighter _ (by omega) hLt] at hRight
  have hBinary := continue_binary hOpLevel hLeft (logicOperatorAt_append op hw hStops) hRight
    (by simp; omega)
  exact descend (logicLevel_eq _) hLevel (by omega) hFollows.not_tighter hBinary

/-- Each level reads a layout of the level and goes on after it.  The outer induction is on the depth
that the parser allows, and the inner on the layout. -/
theorem logicLevel_complete (n : Nat) {l : Nat} {e : Expression} {ts : Layout} (h : e.Prints l ts)
    (hl : l ≤ 2) (hBound : ts.text.length < n) {r : List Char} (hFollows : LogicFollows l r)
    (hDelimited : ts.Delimited r) :
    logicLevel (parseTermTo n) l (ts.text ++ r) =
      continueAt logicOperatorAt .logical (logicLevel (parseTermTo n)) 2 l e r := by
  induction n generalizing l e ts r with
  | zero => omega
  | succ n outer =>
    have hSpace : ∀ {l r}, LogicFollows l r → space0 r = r := fun h =>
      space0_stops (h.closes.follows 0).stops
    induction h generalizing r with
    | @condition l left right ts us op w h h' =>
      have hCondition := parseCondition_complete h h' hFollows.closes hDelimited
      obtain ⟨hts, -⟩ := Layout.delimited_append.mp hDelimited
      obtain ⟨c, s, hText, hNot, -⟩ := h.starts
      have hParens : parenthesized (parseExpressionTo n)
          (Layout.text (ts ++ (.comparison op, w) :: us) ++ r) = none := by
        rw [Layout.text_append, List.append_assoc]
        exact parenthesized_arithmetic_none
          (fun e ts s h hDelimited => parseExpressionTo_arithmetic n h hDelimited) h hts
      refine logicLevel_term hl hFollows ((spaced_some ?_ ?_).trans (by rw [hSpace hFollows]))
      · exact (Expression.Prints.condition (l := l) op w h h').stops r
      · rw [alt_none (parseNot_none ?_)]
        · exact (alt_none hParens).trans hCondition
        · rw [Layout.text_append, hText]
          simpa using hNot
    | @not l e ts w h ih =>
      obtain ⟨hw, -, hRest⟩ := hDelimited
      rw [Layout.text_cons] at hBound ⊢
      simp only [Token.text, List.length_append, List.length_cons] at hBound
      have hFollows' : LogicFollows 2 r := hFollows.mono hl
      have hTerm := outer h (by omega) (by omega) hFollows' hRest
      rw [continueAt_done fun h => absurd h (by omega)] at hTerm
      have hNot : parseNot (parseTermTo n) ('!' :: (w ++ (ts.text ++ r))) = some (.not e, r) := by
        rw [parseNot, literal_singleton]
        simp only [space0_append hw (h.stops r)]
        exact map_some hTerm
      refine logicLevel_term hl hFollows ?_
      rw [show (Token.not.text ++ (w ++ ts.text)) ++ r = '!' :: (w ++ (ts.text ++ r)) by
        simp [Token.text]]
      exact (spaced_some (stops_cons.mpr (by decide)) (alt_some hNot)).trans (by rw [hSpace hFollows])
    | @parens l e ts w w' h ih =>
      obtain ⟨hw, -, hRest⟩ := hDelimited
      obtain ⟨hts, hw', -⟩ := Layout.delimited_append.mp hRest
      simp only [Layout.text_cons, Layout.text_append, Layout.text_nil, Token.text, List.append_nil,
        List.append_assoc, List.nil_append, List.cons_append, List.length_cons,
        List.length_append] at hBound hts ⊢
      have hClose : LogicFollows 0 (')' :: (w' ++ r)) := .inr (.inl rfl)
      have hInner := outer h (by omega) (by omega) hClose hts
      have hDone : logicOperatorAt 0 (')' :: (w' ++ r)) = none :=
        parseOrOperator_none (stops_cons.mpr (by decide)) (by simp)
      rw [continueAt_done fun _ => hDone] at hInner
      have hExpression : parseExpressionTo n (ts.text ++ ')' :: (w' ++ r)) =
          some (e, ')' :: (w' ++ r)) :=
        (spaced_some (h.stops _) hInner).trans (by rw [hSpace hClose])
      refine logicLevel_term hl hFollows ?_
      refine (spaced_some (stops_cons.mpr (by decide)) ?_).trans
        (by rw [space0_append hw' (hFollows.closes.follows 0).stops])
      rw [alt_none (parseNot_none (by simp))]
      exact alt_some (parenthesized_append hw (h.stops _) hExpression)
    | @logical l left right ts us op w hLevel h h' ih ih' =>
      obtain ⟨hts, hw, -, hus⟩ := Layout.delimited_append.mp hDelimited
      have hOpLevel : op.level < 2 := by cases op <;> decide
      have hOpText : op.text.length = 2 := by cases op <;> rfl
      simp only [Layout.text_cons, Layout.text_append, Token.text, List.append_assoc,
        List.length_append] at hBound hts ⊢
      have hFollowsOp : LogicFollows op.level (op.text ++ (w ++ (us.text ++ r))) :=
        .inr (.inr ⟨op, _, rfl, Nat.le_refl _⟩)
      have hFollowsRight : LogicFollows (op.level + 1) r := hFollows.mono (by omega)
      have hLeft := ih (by omega) (by omega) hFollowsOp hts
      have hRight := ih' (by omega) (by omega) hFollowsRight hus
      exact logicLevel_logical hLevel hLeft hw (h'.stops r) hRight hFollows

/-- A delimited layout is read back. -/
theorem parse_complete {e : Expression} {ts : Layout} (h : e.Prints 0 ts) {w : List Char}
    (hw : ∀ c ∈ w, isBlank c = true) (hDelimited : ts.Delimited []) :
    parse (w ++ ts.text) = some e := by
  have hLevel := logicLevel_complete ((w ++ ts.text).length + 1) h (by omega)
    (by rw [List.length_append]; omega)
    (.inl rfl) hDelimited
  rw [List.append_nil, continueAt_done fun _ => rfl] at hLevel
  have hStops : Stops isBlank ts.text := by simpa using h.stops []
  have hExpression : parseExpressionTo ((w ++ ts.text).length + 1) (w ++ ts.text) = some (e, []) := by
    rw [parseExpressionTo, parseExpressionOf, spaced, space0_append hw hStops]
    rw [show parseOrExpression _ ts.text = some (e, []) from hLevel]
    rfl
  rw [parse, hExpression]

end Rindexer.Filter
