import Rindexer.Filter.Readers

/-! Comparisons of integers, however each side is supplied.  A number without a sign is read as an
unsigned number whatever it stands for; a signed one keeps its text, and the kind of the left side
decides how both are read. -/

namespace Rindexer.Filter

/-- How an integer gets into a comparison: as a literal of the expression, or as the value of a
variable, which is a JSON number or a string. -/
inductive Supply
  | literal (t : DecimalText)
  | hexLiteral (upper : Bool) (digits : List Char)
      (h : digits ≠ [] ∧ ∀ c ∈ digits, isHexDigit c = true)
  | posInt (path : ConditionLeft) (n : Fin (2 ^ 64))
  | negInt (path : ConditionLeft) (n : Fin (2 ^ 63))
  | string (path : ConditionLeft) (t : DecimalText) (h : t.sign ≠ .plus)

namespace Supply

def value : Supply → Int
  | literal t => t.value
  | hexLiteral _ digits _ => hexValue digits
  | posInt _ n => n.val
  | negInt _ n => Int.negSucc n.val
  | string _ t _ => t.value

def expr : Supply → ArithmeticExpr
  | literal t => .literal (.number t.text)
  | hexLiteral upper digits _ => .literal (.str ('0' :: (if upper then 'X' else 'x') :: digits))
  | posInt path _ | negInt path _ | string path _ _ => .var path

/-- The variable has the value. -/
def Resolves (eventData : JsonValue) (tableData : Option JsonValue) : Supply → Prop
  | literal _ | hexLiteral _ _ _ => True
  | posInt path n => resolvePathWithTable path eventData tableData = .ok (.number (.posInt n))
  | negInt path n => resolvePathWithTable path eventData tableData = .ok (.number (.negInt n))
  | string path t _ => resolvePathWithTable path eventData tableData = .ok (.string t.text)

/-- The integer is written with a sign. -/
def signed : Supply → Bool
  | literal t | string _ t _ => t.sign ≠ .none
  | hexLiteral _ _ _ | posInt _ _ => false
  | negInt _ _ => true

def isVariable : Supply → Bool
  | literal _ | hexLiteral _ _ _ => false
  | posInt _ _ | negInt _ _ | string _ _ _ => true

/-- The decimal of an integer that is written with a sign. -/
def decimal : Supply → DecimalText
  | literal t | string _ t _ => t
  | negInt _ n => .ofNegSucc n.val
  | hexLiteral _ _ _ | posInt _ _ => .ofNat 0

end Supply

/-- The integers that are signed or unsigned with 256 bits. -/
def InRange (n : Int) : Prop := -2 ^ 255 ≤ n ∧ n < 2 ^ 256

instance (n : Int) : Decidable (InRange n) := by
  unfold InRange
  infer_instance

/-! ### Operands -/

section Operands

variable {r : Readers} (hr : r.Documented) {eventData : JsonValue} {tableData : Option JsonValue}

theorem arithmeticValue_number {kind : Kind} {text : List Char} {n : Nat} (h : n < 2 ^ 256)
    (hRead : stringToU256 r text = u256 n) : arithmeticValue r kind text = .number ⟨n, h⟩ := by
  rw [arithmeticValue, hRead, u256_of_lt h]

theorem arithmeticValue_other {kind : Kind} {text : List Char} (hRead : stringToU256 r text = none) :
    arithmeticValue r kind text = .other kind text := by
  rw [arithmeticValue, hRead]

include hr

theorem DecimalText.evaluates (kind : Kind) {t : DecimalText} (hRange : t.value < 2 ^ 256)
    (hSign : t.sign = .none) :
    ∃ n : U256, (n.val : Int) = t.value ∧ arithmeticValue r kind t.text = .number n := by
  have hValue : t.value = decimalValue t.digits := by
    rw [DecimalText.value, hSign]
  have hLt : decimalValue t.digits < 2 ^ 256 := by
    rw [hValue] at hRange
    exact_mod_cast hRange
  exact ⟨⟨_, hLt⟩, hValue.symm, arithmeticValue_number hLt (t.stringToU256_unsigned hr hSign)⟩

theorem Supply.evaluates_unsigned {s : Supply} (hs : s.Resolves eventData tableData)
    (hRange : InRange s.value) (hSign : s.signed = false) :
    ∃ n : U256, (n.val : Int) = s.value ∧
      evaluateArithmeticExprWithTable r eventData tableData s.expr = .ok (.number n) := by
  cases s with
  | literal t =>
    obtain ⟨n, hn, hEval⟩ := DecimalText.evaluates hr
      (if t.text.contains '.' then .fixed else .number) hRange.2 (by simpa [signed] using hSign)
    exact ⟨n, hn, congrArg Except.ok hEval⟩
  | hexLiteral upper digits h =>
    have hLt : hexValue digits < 2 ^ 256 := by
      have := hRange.2
      rw [value] at this
      exact_mod_cast this
    have hRead := stringToU256_hex hr (x := if upper then 'X' else 'x')
      (by cases upper <;> simp) h.1 h.2
    exact ⟨⟨_, hLt⟩, rfl, congrArg Except.ok (arithmeticValue_number hLt hRead)⟩
  | posInt path n =>
    have hValue : (DecimalText.ofNat n.val).value < 2 ^ 256 := by
      rw [DecimalText.value_ofNat]
      exact hRange.2
    obtain ⟨m, hm, hEval⟩ := DecimalText.evaluates hr .number hValue rfl
    refine ⟨m, hm.trans (DecimalText.value_ofNat _), ?_⟩
    rw [expr, evaluateArithmeticExprWithTable, show resolvePathWithTable _ _ _ = _ from hs]
    exact congrArg Except.ok hEval
  | negInt path n => cases hSign
  | string path t h =>
    obtain ⟨n, hn, hEval⟩ := DecimalText.evaluates hr (getKindFromText r t.text)
      hRange.2 (by simpa [signed] using hSign)
    refine ⟨n, hn, ?_⟩
    rw [expr, evaluateArithmeticExprWithTable, show resolvePathWithTable _ _ _ = _ from hs]
    exact congrArg Except.ok hEval

/-- A signed integer keeps its text. -/
theorem Supply.evaluates_signed {s : Supply} (hs : s.Resolves eventData tableData)
    (hRange : InRange s.value) (hSign : s.signed = true) :
    s.decimal.sign ≠ .none ∧ s.decimal.value = s.value ∧
      ∃ kind, evaluateArithmeticExprWithTable r eventData tableData s.expr =
          .ok (.other kind s.decimal.text) ∧
        if s.isVariable then (kind = .int64 ∨ kind = .int256) ∧ i256 s.value = some s.value
        else kind = .number := by
  have hKind : ∀ t : DecimalText, ∀ kind, t.sign ≠ .none →
      arithmeticValue r kind t.text = .other kind t.text :=
    fun t _ h => arithmeticValue_other (t.stringToU256_signed hr h)
  cases s with
  | literal t =>
    have hPlain : t.sign ≠ .none := by simpa [signed] using hSign
    have hDot : t.text.contains '.' = false := t.not_contains_dot
    refine ⟨hPlain, rfl, .number, ?_, rfl⟩
    show Except.ok (arithmeticValue r (if t.text.contains '.' then .fixed else .number) t.text) = _
    rw [hDot, hKind t _ hPlain]
    rfl
  | hexLiteral upper digits h => cases hSign
  | posInt path n => cases hSign
  | negInt path n =>
    refine ⟨DecimalText.sign_ofNegSucc _, DecimalText.value_ofNegSucc _, .int64, ?_, Or.inl rfl, i256_of_lt hRange.1 ?_⟩
    · rw [expr, evaluateArithmeticExprWithTable, show resolvePathWithTable _ _ _ = _ from hs]
      show Except.ok (arithmeticValue r .int64 (toString (Int.negSucc n.val)).toList) = _
      rw [← DecimalText.text_ofNegSucc, hKind _ _ (DecimalText.sign_ofNegSucc _)]
      rfl
    · rw [value]
      omega
  | string path t h =>
    have hPlain : t.sign ≠ .none := by simpa [signed] using hSign
    -- the text of a variable has no plus, so it stands for no positive number
    have hSmall : t.value < 2 ^ 255 := by
      have hMinus : t.sign = .minus := by
        cases hCase : t.sign with
        | none => exact absurd hCase hPlain
        | plus => exact absurd hCase h
        | minus => rfl
      rw [DecimalText.value, hMinus]
      show -(decimalValue t.digits : Int) < _
      omega
    have hBits : i256 t.value = some t.value := i256_of_lt hRange.1 hSmall
    refine ⟨hPlain, rfl, .int256, ?_, Or.inr rfl, hBits⟩
    rw [expr, evaluateArithmeticExprWithTable, show resolvePathWithTable _ _ _ = _ from hs]
    show Except.ok (arithmeticValue r (getKindFromText r t.text) t.text) = _
    rw [t.getKindFromText_signed hr hPlain hBits, hKind t _ hPlain]
    rfl

end Operands

/-! ### Comparing -/

section Comparing

variable {α : Type} [LinearOrder α] {read : List Char → Option α} {left right : List Char}
  {op : ComparisonOperator} {literal : LiteralValue}

theorem compareNumbers_left_none (hLeft : read left = none) :
    compareNumbers read left op literal = .error (.parseError left) := by
  rw [compareNumbers, readNumber, hLeft]
  rfl

theorem compareNumbers_right_none {a : α} (hLeft : read left = some a)
    (hText : numericText literal = .ok right) (hRight : read right = none) :
    compareNumbers read left op literal = .error (.parseError right) := by
  rw [compareNumbers, readNumber, hLeft, hText]
  show (readNumber read right >>= _) = _
  rw [readNumber, hRight]
  rfl

theorem compareNumbers_some {a b : α} (hLeft : read left = some a)
    (hText : numericText literal = .ok right) (hRight : read right = some b) :
    compareNumbers read left op literal = .ok (compareOrderedValues a op b) := by
  rw [compareNumbers, readNumber, hLeft, hText]
  show (readNumber read right >>= _) = _
  rw [readNumber, hRight]
  rfl

end Comparing

theorem compareOrderedValues_u256 (a b : U256) (op : ComparisonOperator) :
    compareOrderedValues a op b = compareOrderedValues (a.val : Int) op (b.val : Int) := by
  cases op <;> simp [compareOrderedValues, Fin.ext_iff]

/-- The right side of a signed comparison. -/
theorem compareI256_eq_ok_iff {r : Readers} {left right : List Char} {a b : Int}
    {op : ComparisonOperator} {literal : LiteralValue} (hLeft : stringToI256 r left = some a)
    (hText : numericText literal = .ok right) (hRight : stringToI256 r right = i256 b)
    (hRange : InRange b) :
    compareI256 r left op literal = .ok (compareOrderedValues a op b) ↔ b < 2 ^ 255 := by
  constructor
  · intro h
    by_contra hLarge
    have hNone : stringToI256 r right = none := by
      rw [hRight, i256, if_neg (by omega)]
    rw [compareI256, compareNumbers_right_none hLeft hText hNone] at h
    cases h
  · intro hSmall
    exact compareNumbers_some hLeft hText (by rw [hRight, i256_of_lt hRange.1 hSmall])

/-- A comparison of two integers is the mathematical one exactly if neither has a sign, or the left
one is the value of a variable and the right one is less than `2 ^ 255`. -/
theorem comparison_correct_iff {r : Readers} (hr : r.Documented) {eventData : JsonValue}
    {tableData : Option JsonValue} {left right : Supply} (hLeft : left.Resolves eventData tableData)
    (hRight : right.Resolves eventData tableData) (ha : InRange left.value)
    (hb : InRange right.value) (op : ComparisonOperator) :
    evaluateConditionWithTable r ⟨left.expr, op, right.expr⟩ eventData tableData =
        .ok (compareOrderedValues left.value op right.value) ↔
      (left.signed = false ∧ right.signed = false) ∨
        (left.isVariable = true ∧ left.signed = true ∧ right.value < 2 ^ 255) := by
  cases hLeftSign : left.signed with
  | false =>
    obtain ⟨n, hn, hEvalLeft⟩ := left.evaluates_unsigned hr hLeft ha hLeftSign
    cases hRightSign : right.signed with
    | false =>
      obtain ⟨m, hm, hEvalRight⟩ := right.evaluates_unsigned hr hRight hb hRightSign
      have hCompare : evaluateConditionWithTable r ⟨left.expr, op, right.expr⟩ eventData tableData =
          .ok (compareOrderedValues left.value op right.value) := by
        rw [evaluateConditionWithTable, hEvalLeft, hEvalRight, ← hn, ← hm,
          ← compareOrderedValues_u256]
        rfl
      simp [hCompare]
    | true =>
      obtain ⟨hSign, -, kind, hEvalRight, -⟩ := right.evaluates_signed hr hRight hb hRightSign
      -- a text with a sign is no unsigned number
      have hError : evaluateConditionWithTable r ⟨left.expr, op, right.expr⟩ eventData tableData =
          .error (.parseError right.decimal.text) := by
        rw [evaluateConditionWithTable, hEvalLeft, hEvalRight]
        exact compareNumbers_right_none (stringToU256_toString hr n) rfl
          (right.decimal.stringToU256_signed hr hSign)
      simp [hError]
  | true =>
    obtain ⟨hSign, hValue, kind, hEvalLeft, hKind⟩ := left.evaluates_signed hr hLeft ha hLeftSign
    cases hVariable : left.isVariable with
    | false =>
      rw [hVariable, if_neg (by simp)] at hKind
      have hError : ∀ literal, compareFinalValues r kind left.decimal.text op literal =
          .error (.parseError left.decimal.text) := fun literal => by
        rw [hKind]
        exact compareNumbers_left_none (left.decimal.stringToU256_signed hr hSign)
      cases hRightSign : right.signed with
      | false =>
        obtain ⟨m, hm, hEvalRight⟩ := right.evaluates_unsigned hr hRight hb hRightSign
        rw [evaluateConditionWithTable, hEvalLeft, hEvalRight]
        show compareFinalValues _ _ _ _ _ = _ ↔ _
        simp [hError]
      | true =>
        obtain ⟨-, -, kind', hEvalRight, -⟩ := right.evaluates_signed hr hRight hb hRightSign
        rw [evaluateConditionWithTable, hEvalLeft, hEvalRight]
        show compareFinalValues _ _ _ _ _ = _ ↔ _
        simp [hError]
    | true =>
      rw [hVariable, if_pos rfl] at hKind
      obtain ⟨hSigned, hBits⟩ := hKind
      have hRead : stringToI256 r left.decimal.text = some left.value := by
        rw [DecimalText.stringToI256_text hr, hValue, hBits]
      have hRoute : ∀ literal, compareFinalValues r kind left.decimal.text op literal =
          compareI256 r left.decimal.text op literal := fun literal => by
        rcases hSigned with rfl | rfl <;> rfl
      cases hRightSign : right.signed with
      | false =>
        obtain ⟨m, hm, hEvalRight⟩ := right.evaluates_unsigned hr hRight hb hRightSign
        have hReadRight : stringToI256 r (toString m.val).toList = i256 right.value := by
          rw [← DecimalText.text_ofNat, DecimalText.stringToI256_text hr, DecimalText.value_ofNat, hm]
        rw [evaluateConditionWithTable, hEvalLeft, hEvalRight]
        show compareFinalValues _ _ _ _ _ = _ ↔ _
        rw [hRoute, compareI256_eq_ok_iff hRead rfl hReadRight hb]
        simp
      | true =>
        obtain ⟨hSign', hValue', kind', hEvalRight, -⟩ :=
          right.evaluates_signed hr hRight hb hRightSign
        have hReadRight : stringToI256 r right.decimal.text = i256 right.value := by
          rw [DecimalText.stringToI256_text hr, hValue']
        have hTrue : right.decimal.text ≠ "true".toList := right.decimal.text_ne_word (by decide)
        have hFalse : right.decimal.text ≠ "false".toList := right.decimal.text_ne_word (by decide)
        rw [evaluateConditionWithTable, hEvalLeft, hEvalRight]
        show compareFinalValues _ _ _ _ (if _ then _ else if _ then _ else _) = _ ↔ _
        rw [if_neg hTrue, if_neg hFalse, hRoute, compareI256_eq_ok_iff hRead rfl hReadRight hb]
        simp

/-- `$value < 0` where the value is the string `-50`. -/
theorem comparison_correct_iff_negative :
    evaluateConditionWithTable asciiReaders
        ⟨.var (.simple "value".toList .event), .lt, .literal (.number "0".toList)⟩
        (.object [("value".toList, .string "-50".toList)]) none = .ok true := by
  have hEval := (@comparison_correct_iff _ asciiReaders_documented
    (.object [("value".toList, .string "-50".toList)]) none
    (.string (.simple "value".toList .event) ⟨.minus, "50".toList, by decide⟩ (by decide))
    (.literal ⟨.none, "0".toList, by decide⟩) rfl trivial (by decide) (by decide) .lt).mpr
      (Or.inr ⟨rfl, rfl, by decide⟩)
  exact hEval

/-- `$x > -5` is an error for every `x` without a sign, as for 7. -/
theorem negative_literal_refused :
    ¬ ∀ (eventData : JsonValue) (left right : Supply) (op : ComparisonOperator),
      left.Resolves eventData none → right.Resolves eventData none → InRange left.value →
        InRange right.value →
        evaluateConditionWithTable asciiReaders ⟨left.expr, op, right.expr⟩ eventData none =
          .ok (compareOrderedValues left.value op right.value) := by
  intro h
  have hFails := h (.object [("x".toList, .number (.posInt 7))])
    (.posInt (.simple "x".toList .event) 7) (.literal ⟨.minus, "5".toList, by decide⟩) .gt rfl trivial
    (by decide) (by decide)
  exact absurd hFails (by decide)

example : filterByExpression asciiReaders "$x > -5".toList
    (.object [("x".toList, .number (.posInt 7))]) = some (.error (.parseError "-5".toList)) := by
  decide

end Rindexer.Filter
