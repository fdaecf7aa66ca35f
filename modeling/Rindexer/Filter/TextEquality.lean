import Rindexer.Filter.Numbers

/-! Equality of a text of an event with a literal in quotes or a hexadecimal one.  Texts that read as
numbers are compared as numbers. -/

namespace Rindexer.Filter

open Rindexer.Lib

/-- The text that the content of quotes stands for. -/
def unescape : List Char → List Char
  | [] => []
  | ['\\'] => ['\\']
  | '\\' :: c :: s => c :: unescape s
  | c :: s => c :: unescape s

theorem unescape_eq_self {s : List Char} (h : '\\' ∉ s) : unescape s = s := by
  fun_induction unescape s with
  | case1 => rfl
  | case2 => rfl
  | case3 c s ih => exact absurd List.mem_cons_self h
  | case4 c s h1 h2 ih => rw [ih fun hMem => h (List.mem_cons_of_mem _ hMem)]

inductive TextLiteral
  | hex (text : List Char) (h : IsHex text)
  | quoted (quote : Quote) (text : List Char) (h : IsQuoted quote.char text)

namespace TextLiteral

/-- What the parser keeps of the literal. -/
def content : TextLiteral → List Char
  | hex text _ => text
  | quoted _ text _ => text

def denotes : TextLiteral → List Char
  | hex text _ => text
  | quoted _ text _ => unescape text

theorem denotes_eq_content {w : TextLiteral} (h : '\\' ∉ w.content) : w.denotes = w.content := by
  cases w with
  | hex text _ => rfl
  | quoted quote text _ => exact unescape_eq_self h

end TextLiteral

/-- `path == w` and `path != w`. -/
def equalityWith (op : ComparisonOperator) (path : ConditionLeft) (w : TextLiteral) : Condition :=
  ⟨.var path, op, .literal (.str w.content)⟩

/-- The two comparisons with a literal are `equal` and its negation. -/
def Decides (r : Readers) (eventData : JsonValue) (tableData : Option JsonValue)
    (path : ConditionLeft) (w : TextLiteral) (equal : Bool) : Prop :=
  evaluateConditionWithTable r (equalityWith .eq path w) eventData tableData = .ok equal ∧
    evaluateConditionWithTable r (equalityWith .ne path w) eventData tableData = .ok !equal

/-- A text that is no number: neither unsigned, nor signed, nor with a point. -/
def IsPlain (r : Readers) (v : List Char) : Prop :=
  stringToU256 r v = none ∧ getKindFromText r v ≠ .int256 ∧ getKindFromText r v ≠ .fixed

/-! ### Kinds of texts -/

theorem hexDigitValue_lt {c : Char} (h : isHexDigit c = true) : hexDigitValue c < 16 := by
  have hLetter : ∀ {a b : Char}, a ≤ b → a.toNat ≤ b.toNat := fun h => h
  have hRange := hexDigit_range h
  rw [hexDigitValue]
  split
  · rename_i hDigit
    have := digit_range hDigit
    omega
  · split
    · omega
    · rename_i hDigit hLower
      simp only [isHexDigit, hDigit, Bool.false_or, Bool.or_eq_true, Bool.and_eq_true,
        decide_eq_true_eq, hLower, false_or] at h
      have hHigh : c.toNat ≤ 70 := hLetter h.2
      omega

theorem hexValue_lt {ds : List Char} (h : ∀ c ∈ ds, isHexDigit c = true) :
    hexValue ds < 16 ^ ds.length := by
  have hFold : ∀ (ds : List Char) (n k : Nat), (∀ c ∈ ds, isHexDigit c = true) → n < 16 ^ k →
      ds.foldl (fun n c => 16 * n + hexDigitValue c) n < 16 ^ (k + ds.length) := by
    intro ds
    induction ds with
    | nil => exact fun n k _ hn => hn
    | cons c ds ih =>
      intro n k hDigits hn
      have hc := hexDigitValue_lt (hDigits c List.mem_cons_self)
      have hNext : 16 * n + hexDigitValue c < 16 ^ (k + 1) := by
        rw [pow_succ]
        omega
      have := ih _ (k + 1) (fun d hd => hDigits d (List.mem_cons_of_mem _ hd)) hNext
      rw [List.length_cons, show k + (ds.length + 1) = k + 1 + ds.length by omega]
      exact this
  have := hFold ds 0 0 h (by decide)
  rwa [Nat.zero_add] at this

theorem utf8Length_ascii {s : List Char} (h : ∀ c ∈ s, c.toNat < 128) :
    getKindFromStr.utf8Length s = s.length := by
  have hOnes : s.map Char.utf8Size = List.replicate s.length 1 := by
    rw [List.map_eq_replicate_iff]
    intro c hc
    have hSmall : c.val.toNat < 128 := h c hc
    rw [Char.utf8Size_eq_one_iff, UInt32.le_iff_toNat_le]
    exact Nat.le_of_lt_succ hSmall
  rw [getKindFromStr.utf8Length, hOnes, List.sum_replicate_nat, Nat.mul_one]

theorem hex_ascii {x : Char} {digits : List Char} (hx : x = 'x' ∨ x = 'X')
    (hDigits : ∀ c ∈ digits, isHexDigit c = true) : ∀ c ∈ '0' :: x :: digits, c.toNat < 128 := by
  intro c hc
  rcases List.mem_cons.mp hc with rfl | hc
  · decide
  · rcases List.mem_cons.mp hc with rfl | hc
    · rcases hx with rfl | rfl <;> decide
    · have := hexDigit_range (hDigits c hc)
      omega

section Kinds

variable {r : Readers} (hr : r.Documented)

include hr

theorem looksHex_eq {v : List Char} (h : looksHex r v = true) :
    ∃ x digits, v = '0' :: x :: digits ∧ (x = 'x' ∨ x = 'X') ∧ ∀ c ∈ digits, isHexDigit c = true := by
  rw [looksHex, Bool.and_eq_true, List.isPrefixOf_iff_prefix, List.all_eq_true] at h
  obtain ⟨digits, hStrip⟩ := Option.isSome_iff_exists.mp (hr.lowercase_hex v h.1)
  rcases stripHex_eq_some.mp hStrip with rfl | rfl
  · exact ⟨'x', digits, rfl, Or.inl rfl, h.2⟩
  · exact ⟨'X', digits, rfl, Or.inr rfl, h.2⟩

theorem getKindFromText_ne_address {v : List Char} (h : stringToU256 r v = none) :
    getKindFromText r v ≠ .address := by
  intro hKind
  have hLooks : looksHex r v = true ∧ getKindFromStr.utf8Length v = 42 := by
    by_contra hNot
    have hFalse : (looksHex r v && getKindFromStr.utf8Length v == 42) = false := by
      simpa using hNot
    rw [getKindFromText, hFalse, if_neg (by simp)] at hKind
    split_ifs at hKind
  obtain ⟨x, digits, rfl, hx, hDigits⟩ := looksHex_eq hr hLooks.1
  -- 40 digits are at most 160 bits
  have hLength : digits.length = 40 := by
    have hAscii := utf8Length_ascii (fun c hc => hex_ascii hx hDigits c hc)
    rw [hLooks.2, List.length_cons, List.length_cons] at hAscii
    omega
  have hLt : hexValue digits < 2 ^ 256 := by
    have := hexValue_lt hDigits
    rw [hLength] at this
    exact this.trans (by decide)
  have hNonempty : digits ≠ [] := by
    rintro rfl
    cases hLength
  rw [stringToU256_hex hr hx hNonempty hDigits, u256_of_lt hLt] at h
  cases h

/-- Bytes that are empty or have more than 256 bits are no number. -/
theorem isPlain_bytes {x : Char} {digits : List Char} (hx : x = 'x' ∨ x = 'X')
    (hDigits : ∀ c ∈ digits, isHexDigit c = true) (h : digits = [] ∨ 2 ^ 256 ≤ hexValue digits) :
    IsPlain r ('0' :: x :: digits) := by
  have hNone : stringToU256 r ('0' :: x :: digits) = none := by
    rcases h with rfl | h
    · rcases hx with rfl | rfl <;> rfl
    · have hNonempty : digits ≠ [] := by
        rintro rfl
        exact absurd h (by decide)
      rw [stringToU256_hex hr hx hNonempty hDigits, u256, dif_neg (by omega)]
  have hStart : "0x".toList <+: r.toLowercase ('0' :: x :: digits) := by
    rw [hr.lowercase_ascii _ (hex_ascii hx hDigits)]
    rcases hx with rfl | rfl
    · exact ⟨digits.map Char.toLower, rfl⟩
    · exact ⟨digits.map Char.toLower, rfl⟩
  have hLooks : looksHex r ('0' :: x :: digits) = true := by
    rw [looksHex, Bool.and_eq_true, List.isPrefixOf_iff_prefix]
    exact ⟨hStart, List.all_eq_true.mpr hDigits⟩
  have hKind : getKindFromText r ('0' :: x :: digits) = .address ∨
      getKindFromText r ('0' :: x :: digits) = .bytes32 ∨
        getKindFromText r ('0' :: x :: digits) = .bytes := by
    rw [getKindFromText, hLooks]
    simp only [Bool.true_and, if_true]
    split_ifs <;> simp
  refine ⟨hNone, ?_, ?_⟩
  · rcases hKind with hKind | hKind | hKind <;> simp [hKind]
  · rcases hKind with hKind | hKind | hKind <;> simp [hKind]

/-- Texts that are no numbers are compared as texts. -/
theorem compareFinalValues_plain {v : List Char} (h : IsPlain r v) (op : ComparisonOperator)
    (literal : LiteralValue) :
    compareFinalValues r (getKindFromText r v) v op literal = compareString r v op literal := by
  obtain ⟨hNumber, hSigned, hFixed⟩ := h
  have hAddress := getKindFromText_ne_address hr hNumber
  have hCases : getKindFromText r v = .bytes32 ∨ getKindFromText r v = .bytes ∨
      getKindFromText r v = .string := by
    rw [getKindFromText, hNumber] at hAddress hSigned hFixed ⊢
    split_ifs at hAddress hSigned hFixed ⊢ <;> simp_all
  rcases hCases with hKind | hKind | hKind <;> rw [hKind] <;> rfl

end Kinds

/-! ### Equality -/

/-- What equality of a text with a literal comes to: of numbers if both are numbers of one sort, of
the texts without regard to case if neither is a number. -/
inductive EqualTexts (r : Readers) (v : List Char) (w : TextLiteral) : Bool → Prop
  | unsigned {a b : U256} (ha : stringToU256 r v = some a) (hb : stringToU256 r w.content = some b) :
      EqualTexts r v w (a = b)
  | signed {a b : Int} (hv : stringToU256 r v = none) (hw : stringToU256 r w.content = none)
      (hKind : getKindFromText r v = .int256) (ha : stringToI256 r v = some a)
      (hb : stringToI256 r w.content = some b) : EqualTexts r v w (a = b)
  | signedUnsigned {a : Int} {b : U256} (hv : stringToU256 r v = none)
      (hw : stringToU256 r w.content = some b) (hKind : getKindFromText r v = .int256)
      (ha : stringToI256 r v = some a) (hb : b.val < 2 ^ 255) : EqualTexts r v w (a = b.val)
  | fixed {a b : Rat} (hv : stringToU256 r v = none) (hw : stringToU256 r w.content = none)
      (hKind : getKindFromText r v = .fixed) (ha : r.decimalFromStr v = some a)
      (hb : r.decimalFromStr w.content = some b) : EqualTexts r v w (a = b)
  | fixedUnsigned {a b : Rat} {n : U256} (hv : stringToU256 r v = none)
      (hw : stringToU256 r w.content = some n) (hKind : getKindFromText r v = .fixed)
      (ha : r.decimalFromStr v = some a) (hb : r.decimalFromStr (toString n.val).toList = some b) :
      EqualTexts r v w (a = b)
  | plain (hv : IsPlain r v) (hw : stringToU256 r w.content = none) (hEscape : '\\' ∉ w.content) :
      EqualTexts r v w (r.toLowercase v == r.toLowercase w.denotes)

/-- The text is a number, and the literal is none that it can be compared with. -/
inductive OtherSort (r : Readers) (v : List Char) (w : TextLiteral) : Prop
  | unsigned {a : U256} (ha : stringToU256 r v = some a)
  | signed (hv : stringToU256 r v = none) (hKind : getKindFromText r v = .int256)
      (hb : stringToI256 r w.content = none)
  | fixed (hv : stringToU256 r v = none) (hKind : getKindFromText r v = .fixed)
      (hb : r.decimalFromStr w.content = none)

theorem stringToI256_isSome {r : Readers} {v : List Char} (h : getKindFromText r v = .int256) :
    (stringToI256 r v).isSome = true := by
  rw [getKindFromText] at h
  split_ifs at h with _ _ _ _ _ hRead
  exact hRead

theorem decimalFromStr_isSome {r : Readers} {v : List Char} (h : getKindFromText r v = .fixed) :
    (r.decimalFromStr v).isSome = true := by
  rw [getKindFromText] at h
  split_ifs at h with _ _ _ hRead
  exact ((Bool.and_eq_true _ _).mp hRead).1

section Equality

variable {r : Readers} {eventData : JsonValue} {tableData : Option JsonValue} {path : ConditionLeft}
  {v : List Char} (hv : resolvePathWithTable path eventData tableData = .ok (.string v))
  {w : TextLiteral}

include hv

theorem evaluate_equalityWith (op : ComparisonOperator) :
    evaluateConditionWithTable r (equalityWith op path w) eventData tableData =
      compareValues r op (arithmeticValue r (getKindFromText r v) v)
        (arithmeticValue r (getKindFromStr w.content) w.content) := by
  rw [evaluateConditionWithTable, equalityWith, evaluateArithmeticExprWithTable, hv]
  rfl

theorem evaluate_other {op : ComparisonOperator} (hLeft : stringToU256 r v = none)
    (hRight : stringToU256 r w.content = none)
    (hWord : w.content ≠ "true".toList ∧ w.content ≠ "false".toList) :
    evaluateConditionWithTable r (equalityWith op path w) eventData tableData =
      compareFinalValues r (getKindFromText r v) v op (.str w.content) := by
  rw [evaluate_equalityWith hv, arithmeticValue_other hLeft, arithmeticValue_other hRight,
    compareValues, if_neg hWord.1, if_neg hWord.2]

theorem EqualTexts.decides (hr : r.Documented)
    (hWord : w.content ≠ "true".toList ∧ w.content ≠ "false".toList) {equal : Bool}
    (h : EqualTexts r v w equal) : Decides r eventData tableData path w equal := by
  have hNumbers : ∀ {α : Type} [LinearOrder α] (a b : α),
      (Except.ok (compareOrderedValues a .eq b) : Except EvaluationError Bool) = .ok (decide (a = b)) ∧
        (Except.ok (compareOrderedValues a .ne b) : Except EvaluationError Bool) =
          .ok !decide (a = b) := by
    intro α _ a b
    simp [compareOrderedValues]
  cases h with
  | @unsigned a b ha hb =>
    rw [Decides, evaluate_equalityWith hv, evaluate_equalityWith hv, arithmeticValue, ha,
      arithmeticValue, hb]
    exact hNumbers a b
  | @signed a b hLeft hRight hKind ha hb =>
    rw [Decides, evaluate_other hv hLeft hRight hWord, evaluate_other hv hLeft hRight hWord, hKind]
    show compareI256 r v .eq _ = _ ∧ compareI256 r v .ne _ = _
    rw [compareI256, compareNumbers_some ha rfl hb, compareNumbers_some ha rfl hb]
    exact hNumbers a b
  | @signedUnsigned a b hLeft hRight hKind ha hb =>
    have hRead : stringToI256 r (toString b.val).toList = some (b.val : Int) := by
      rw [← DecimalText.text_ofNat, DecimalText.stringToI256_text hr, DecimalText.value_ofNat]
      exact i256_of_lt (by omega) (by omega)
    rw [Decides, evaluate_equalityWith hv, evaluate_equalityWith hv, arithmeticValue_other hLeft,
      arithmeticValue, hRight, hKind]
    show compareI256 r v .eq _ = _ ∧ compareI256 r v .ne _ = _
    rw [compareI256, compareNumbers_some ha rfl hRead, compareNumbers_some ha rfl hRead]
    exact hNumbers a b.val
  | @fixedUnsigned a b n hLeft hRight hKind ha hb =>
    rw [Decides, evaluate_equalityWith hv, evaluate_equalityWith hv, arithmeticValue_other hLeft,
      arithmeticValue, hRight, hKind]
    show compareFixedPoint r v .eq _ = _ ∧ compareFixedPoint r v .ne _ = _
    rw [compareFixedPoint, compareNumbers_some ha rfl hb, compareNumbers_some ha rfl hb]
    exact hNumbers a b
  | @fixed a b hLeft hRight hKind ha hb =>
    rw [Decides, evaluate_other hv hLeft hRight hWord, evaluate_other hv hLeft hRight hWord, hKind]
    show compareFixedPoint r v .eq _ = _ ∧ compareFixedPoint r v .ne _ = _
    rw [compareFixedPoint, compareNumbers_some ha rfl hb, compareNumbers_some ha rfl hb]
    exact hNumbers a b
  | plain hPlain hRight hEscape =>
    rw [Decides, evaluate_other hv hPlain.1 hRight hWord, evaluate_other hv hPlain.1 hRight hWord,
      compareFinalValues_plain hr hPlain, compareFinalValues_plain hr hPlain,
      TextLiteral.denotes_eq_content hEscape]
    exact ⟨rfl, rfl⟩

theorem OtherSort.evaluates (hr : r.Documented)
    (hWord : w.content ≠ "true".toList ∧ w.content ≠ "false".toList)
    (hRight : stringToU256 r w.content = none) (h : OtherSort r v w) (op : ComparisonOperator) :
    evaluateConditionWithTable r (equalityWith op path w) eventData tableData =
      .error (.parseError w.content) := by
  cases h with
  | unsigned ha =>
    rw [evaluate_equalityWith hv, arithmeticValue, ha, arithmeticValue_other hRight]
    exact compareNumbers_right_none (stringToU256_toString hr _) rfl hRight
  | signed hLeft hKind hb =>
    obtain ⟨a, ha⟩ := Option.isSome_iff_exists.mp (stringToI256_isSome hKind)
    rw [evaluate_other hv hLeft hRight hWord, hKind]
    exact compareNumbers_right_none ha rfl hb
  | fixed hLeft hKind hb =>
    obtain ⟨a, ha⟩ := Option.isSome_iff_exists.mp (decimalFromStr_isSome hKind)
    rw [evaluate_other hv hLeft hRight hWord, hKind]
    exact compareNumbers_right_none ha rfl hb

end Equality

/-- A text and a literal that are numbers of one sort are equal as numbers, texts that are no numbers
are equal without regard to case, and a number is not compared with what is none. -/
theorem text_equality {r : Readers} (hr : r.Documented) {eventData : JsonValue}
    {tableData : Option JsonValue} {path : ConditionLeft} {v : List Char} {w : TextLiteral}
    (hv : resolvePathWithTable path eventData tableData = .ok (.string v))
    (hWord : w.content ≠ "true".toList ∧ w.content ≠ "false".toList) :
    (∀ equal, EqualTexts r v w equal → Decides r eventData tableData path w equal) ∧
      (stringToU256 r w.content = none → OtherSort r v w → ∀ op,
        evaluateConditionWithTable r (equalityWith op path w) eventData tableData =
          .error (.parseError w.content)) ∧
      (∀ x digits, v = '0' :: x :: digits → (x = 'x' ∨ x = 'X') →
        (∀ c ∈ digits, isHexDigit c = true) → (digits = [] ∨ 2 ^ 256 ≤ hexValue digits) →
        IsPlain r v) := by
  refine ⟨fun equal h => h.decides hv hr hWord, fun hRight h op => h.evaluates hv hr hWord hRight op, ?_⟩
  rintro x digits rfl hx hDigits h
  exact isPlain_bytes hr hx hDigits h

/-- `$name == "alice"` where the name is `Alice`. -/
theorem text_equality_alice :
    evaluateConditionWithTable asciiReaders
        ⟨.var (.simple "name".toList .event), .eq, .literal (.str "alice".toList)⟩
        (.object [("name".toList, .string "Alice".toList)]) none = .ok true := by
  have hPlain : IsPlain asciiReaders "Alice".toList := by
    refine ⟨?_, ?_, ?_⟩ <;> decide
  have hEqual := EqualTexts.plain hPlain
    (w := .quoted .double "alice".toList (by unfold IsQuoted; decide)) (by decide) (by decide)
  have hDecides := (@text_equality _ asciiReaders_documented
    (.object [("name".toList, .string "Alice".toList)]) none (.simple "name".toList .event)
    "Alice".toList (.quoted .double "alice".toList (by unfold IsQuoted; decide)) rfl
    (by decide)).1 _ hEqual
  exact hDecides.1

/-- `$name == "7"` holds of the text `007`. -/
theorem numeric_texts_compared_as_numbers :
    ¬ ∀ (eventData : JsonValue) (path : ConditionLeft) (v : List Char) (w : TextLiteral),
      resolvePathWithTable path eventData none = .ok (.string v) →
        Decides asciiReaders eventData none path w
          (asciiReaders.toLowercase v == asciiReaders.toLowercase w.denotes) := by
  intro h
  have hFails := (h (.object [("name".toList, .string "007".toList)]) (.simple "name".toList .event)
    "007".toList (.quoted .double "7".toList (by unfold IsQuoted; decide)) rfl).1
  exact absurd hFails (by decide)

end Rindexer.Filter
