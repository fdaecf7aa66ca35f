import Rindexer.Filter.Printing

/-! How the parser reads a single operand: whether it takes the token depends on what follows. -/

namespace Rindexer.Filter

open Rindexer.Lib Parser

/-! ### Where an operand ends -/

/-- White space, and the characters that operators and closing parentheses start with. -/
def endCharacters : List Char :=
  [' ', '\t', '\r', '\n', ')', '=', '!', '>', '<', '&', '|', '+', '-', '*', '/', '^']

def Ends (rest : List Char) : Prop := ∀ c ∈ rest.head?, c ∈ endCharacters

theorem Ends.stops {f : Char → Bool} (hf : ∀ c ∈ endCharacters, f c = false) {rest : List Char}
    (h : Ends rest) : Stops f rest := fun c hc => hf c (h c hc)

theorem Ends.stops_digit {rest : List Char} (h : Ends rest) : Stops Char.isDigit rest :=
  h.stops (by decide)

theorem Ends.stops_hexDigit {rest : List Char} (h : Ends rest) : Stops isHexDigit rest :=
  h.stops (by decide)

theorem Ends.stops_identChar {rest : List Char} (h : Ends rest) : Stops isIdentChar rest :=
  h.stops (by decide)

theorem literal_none {l s : List Char} {c : Char} (hl : l.head? = some c) (h : s.head? ≠ some c) :
    literal l s = none := by
  rw [literal, if_neg]
  rintro ⟨r, rfl⟩
  exact h (by rw [List.head?_append, hl, Option.some_or])

theorem literal_singleton {c : Char} {s : List Char} : literal [c] (c :: s) = some ([c], s) :=
  literal_append (l := [c])

theorem Ends.literal_none {l rest : List Char} {c : Char} (hl : l.head? = some c)
    (hc : c ∉ endCharacters) (h : Ends rest) : literal l rest = none :=
  Filter.literal_none hl fun hHead => hc (h c hHead)

/-! ### Alternatives -/

section Alternatives

variable {α β : Type}

theorem alt_none {p q : Parser α} {s : List Char} (h : p s = none) : alt p q s = q s := by
  rw [alt, h]

theorem alt_some {p q : Parser α} {s r : List Char} {a : α} (h : p s = some (a, r)) :
    alt p q s = some (a, r) := by
  rw [alt, h]

theorem map_some {p : Parser α} {f : α → β} {s r : List Char} {a : α} (h : p s = some (a, r)) :
    p.map f s = some (f a, r) := by
  rw [map, h]

theorem map_none {p : Parser α} {f : α → β} {s : List Char} (h : p s = none) : p.map f s = none := by
  rw [map, h]

theorem followedBy_some {p : Parser α} {peek : List Char → Bool} {s r : List Char} {a : α}
    (h : p s = some (a, r)) : p.followedBy peek s = if peek r then some (a, r) else none := by
  rw [followedBy, h]

theorem followedBy_none {p : Parser α} {peek : List Char → Bool} {s : List Char} (h : p s = none) :
    p.followedBy peek s = none := by
  rw [followedBy, h]

end Alternatives

/-! ### Literals -/

/-- The literals, without the blanks around them. -/
def parseLiteral : Parser LiteralValue :=
  alt parseQuotedString (alt parseBoolean (alt parseHexString parseNumberOrFixedStr))

/-- The operands that are no parentheses, without the blanks around them. -/
def parseOperand : Parser ArithmeticExpr :=
  alt (parseLiteral.map .literal) (parseConditionLhs.map .var)

theorem parseQuotedString_none {c : Char} {s : List Char} (h : c ≠ '\'') (h' : c ≠ '"') :
    parseQuotedString (c :: s) = none := by
  rw [parseQuotedString, if_neg (by simp [h, h'])]

theorem parseBoolean_none {c : Char} {s : List Char} (h : c ≠ 't') (h' : c ≠ 'f') :
    parseBoolean (c :: s) = none := by
  rw [parseBoolean, alt_none (map_none (followedBy_none (literal_none (c := 't') rfl
    (by simpa using h)))), map_none (followedBy_none (literal_none (c := 'f') rfl (by simpa using h')))]

theorem parseHexString_none {c : Char} {s : List Char} (h : c ≠ '0') :
    parseHexString (c :: s) = none := by
  rw [parseHexString, map_none (followedBy_none (append_none ?_))]
  rw [alt_none (literal_none (c := '0') rfl (by simpa using h)),
    literal_none (c := '0') rfl (by simpa using h)]

theorem digit1_none {c : Char} {s : List Char} (h : c.isDigit = false) : digit1 (c :: s) = none :=
  takeWhile1_stops (stops_cons.mpr h)

theorem parseNumberOrFixedStr_none {c : Char} {s : List Char} (h : c.isDigit = false) (hPlus : c ≠ '+')
    (hMinus : c ≠ '-') : parseNumberOrFixedStr (c :: s) = none := by
  have hSign : opt (oneOf fun c => c == '+' || c == '-') (c :: s) = some ([], c :: s) := by
    simp [opt, oneOf, hPlus, hMinus]
  have hDigits : digit1 (c :: s) = none := digit1_none h
  rw [parseNumberOrFixedStr, map_none (followedBy_none ?_)]
  simp [append, map, andThen, hSign, hDigits]

theorem quotedContent_append {quote : Char} (text rest : List Char) (h : IsQuoted quote text) :
    quotedContent quote (text ++ quote :: rest) = (text, quote :: rest) := by
  unfold IsQuoted at h
  fun_induction quotedContent quote text with
  | case1 => rw [List.nil_append, quotedContent.eq_def]; simp
  | case2 => simp at h
  | case3 => simp at h
  | case4 d s' hEscape hQuote ih =>
    simp only [Prod.mk.injEq, List.cons.injEq, true_and] at h
    rw [List.cons_append, List.cons_append, quotedContent.eq_def]
    simp only [if_neg hQuote, if_true, if_pos hEscape, ih (Prod.ext h.1 h.2)]
  | case5 => simp at h
  | case6 c s hQuote hBackslash ih =>
    simp only [Prod.mk.injEq, List.cons.injEq, true_and] at h
    rw [List.cons_append, quotedContent.eq_def]
    simp only [if_neg hQuote, if_neg hBackslash, ih (Prod.ext h.1 h.2)]

theorem parseOperand_quoted {quote : Quote} {text : List Char} (h : IsQuoted quote.char text)
    (rest : List Char) :
    parseOperand ((Token.quoted quote text).text ++ rest) = some (.literal (.str text), rest) := by
  have hParse : parseQuotedString (quote.char :: (text ++ quote.char :: rest)) =
      some (.str text, rest) := by
    rw [parseQuotedString, if_pos (by cases quote <;> simp [Quote.char]),
      quotedContent_append text rest h]
    simp
  rw [show (Token.quoted quote text).text ++ rest = quote.char :: (text ++ quote.char :: rest) by
    simp [Token.text]]
  exact alt_some (map_some (alt_some hParse))

/-! ### What follows a token -/

/-- What the parser wants to see after a token. -/
def Token.delimited : Token → List Char → Bool
  | bool _, rest => literalDelimiter rest
  | number _, rest => literalDelimiter rest
  | hex _, rest => literalDelimiter rest
  | var v, rest =>
    match v.accessors.getLast? with
    | some (.key _) => keyDelimiter rest
    | some (.index _) => true
    | none => !v.baseName.all Char.isDigit || numericNameDelimiter rest
  | _, _ => true

/-- The token is read if it is delimited, and otherwise the parser stops at a dot, if it does not
fail. -/
def ReadAs (t : Token) (e : ArithmeticExpr) (rest : List Char) : Prop :=
  if t.delimited rest then parseOperand (t.text ++ rest) = some (e, rest)
  else ∀ v r, parseOperand (t.text ++ rest) = some (v, r) → r.head? = some '.'

theorem parseOperand_of_literal_none {s : List Char} (h : parseLiteral s = none) :
    parseOperand s = parseConditionLhs.map .var s :=
  alt_none (map_none h)

/-- A variable is a path if it has accessors. -/
def ConditionLeft.ofAccessors (base : List Char) (source : VariableSource) :
    List Accessor → ConditionLeft
  | [] => .simple base source
  | a :: accessors => .path ⟨base, a :: accessors, source⟩

theorem ConditionLeft.Valid.eq {v : ConditionLeft} (h : v.Valid) :
    .ofAccessors v.baseName v.source v.accessors = v := by
  cases v with
  | simple name source => rfl
  | path p =>
    have hNe := h.path p rfl
    rcases p with ⟨base, _ | ⟨a, accessors⟩, source⟩
    · exact absurd rfl hNe
    · rfl

theorem parseConditionLhs_eq {s r r' : List Char} {base : List Char} {source : VariableSource}
    {accessors : List Accessor} (hBase : parseBaseVariableName s = some ((base, source), r))
    (hFold : fold parseAccessor (fun acc a => acc ++ [a]) [] r = some (accessors, r')) :
    parseConditionLhs s = some (.ofAccessors base source accessors, r') := by
  rw [parseConditionLhs, hBase]
  simp only [hFold]
  cases accessors <;> rfl

theorem parseConditionLhs_none {s : List Char} (h : parseBaseVariableName s = none) :
    parseConditionLhs s = none := by
  rw [parseConditionLhs, h]

/-- A name without a prefix. -/
theorem parseBaseVariableName_bare {c : Char} {s : List Char} (h : c ≠ '@') (h' : c ≠ '$') :
    parseBaseVariableName (c :: s) =
      ((alt identifier (digit1.followedBy numericNameDelimiter)).verify fun x => !isKeyword x).map
        (fun x => (x, VariableSource.event)) (c :: s) := by
  have hOpt : opt (alt (literal ['@']) (literal ['$'])) (c :: s) = some ([], c :: s) := by
    rw [opt, alt_none (literal_none (c := '@') rfl (by simpa using h)),
      literal_none (c := '$') rfl (by simpa using h')]
  simp only [parseBaseVariableName, map, verify, andThen, hOpt]
  rcases alt identifier (digit1.followedBy numericNameDelimiter) (c :: s) with _ | ⟨x, r⟩
  · rfl
  · by_cases hKeyword : isKeyword x = true <;> simp [hKeyword]

theorem identifier_append {c : Char} {cs rest : List Char} (hc : isIdentStart c = true)
    (hcs : ∀ d ∈ cs, isIdentChar d = true) (hRest : Stops isIdentChar rest) :
    identifier (c :: cs ++ rest) = some (c :: cs, rest) := by
  have hStart : oneOf isIdentStart (c :: (cs ++ rest)) = some ([c], cs ++ rest) := by
    rw [oneOf, if_pos hc]
  exact append_eq hStart (takeWhile0_append hcs hRest)

theorem identifier_none {c : Char} {s : List Char} (h : isIdentStart c = false) :
    identifier (c :: s) = none :=
  append_none (oneOf_stops (stops_cons.mpr h))

theorem parseBoolean_append (b : Bool) (rest : List Char) :
    parseBoolean ((Token.bool b).text ++ rest) =
      if literalDelimiter rest then some (.bool b, rest) else none := by
  cases b with
  | true =>
    have hFalse : literal "false".toList ((Token.bool true).text ++ rest) = none :=
      literal_none (c := 'f') rfl (by simp [Token.text])
    have hTrue : literal "true".toList ((Token.bool true).text ++ rest) = some (_, rest) :=
      literal_append
    rw [parseBoolean]
    split
    · next h => exact alt_some (map_some (by rw [followedBy_some hTrue, if_pos h]))
    · next h =>
      rw [alt_none (map_none (by rw [followedBy_some hTrue, if_neg h])),
        map_none (followedBy_none hFalse)]
  | false =>
    have hTrue : literal "true".toList ((Token.bool false).text ++ rest) = none :=
      literal_none (c := 't') rfl (by simp [Token.text])
    have hFalse : literal "false".toList ((Token.bool false).text ++ rest) = some (_, rest) :=
      literal_append
    rw [parseBoolean, alt_none (map_none (followedBy_none hTrue))]
    split
    · next h => exact map_some (by rw [followedBy_some hFalse, if_pos h])
    · next h => exact map_none (by rw [followedBy_some hFalse, if_neg h])

/-- No other operand starts like a boolean. -/
theorem readAs_bool (b : Bool) {rest : List Char} (hEnds : Ends rest) :
    ReadAs (.bool b) (.literal (.bool b)) rest := by
  have hBoolean := parseBoolean_append b rest
  obtain ⟨c, cs, hText, hStart, hChars, hKeyword, hc⟩ : ∃ c cs, (Token.bool b).text = c :: cs ∧
      isIdentStart c = true ∧ (∀ d ∈ cs, isIdentChar d = true) ∧ isKeyword (c :: cs) = true ∧
      (c = 't' ∨ c = 'f') := by
    cases b with
    | true => exact ⟨'t', "rue".toList, rfl, by decide, by decide, by decide, .inl rfl⟩
    | false => exact ⟨'f', "alse".toList, rfl, by decide, by decide, by decide, .inr rfl⟩
  have hNoDigit : c.isDigit = false ∧ c ≠ '\'' ∧ c ≠ '"' ∧ c ≠ '0' ∧ c ≠ '+' ∧ c ≠ '-' ∧ c ≠ '@' ∧
      c ≠ '$' := by
    rcases hc with rfl | rfl <;> decide
  obtain ⟨hDigit, hSingle, hDouble, hZero, hPlus, hMinus, hAt, hDollar⟩ := hNoDigit
  rw [ReadAs, Token.delimited]
  rw [hText] at hBoolean ⊢
  rw [List.cons_append] at hBoolean ⊢
  split
  · next h =>
    rw [if_pos h] at hBoolean
    refine alt_some (map_some ?_)
    rw [parseLiteral, alt_none (parseQuotedString_none hSingle hDouble)]
    exact alt_some hBoolean
  · next h =>
    rw [if_neg h] at hBoolean
    have hLiteral : parseLiteral (c :: (cs ++ rest)) = none := by
      rw [parseLiteral, alt_none (parseQuotedString_none hSingle hDouble), alt_none hBoolean,
        alt_none (parseHexString_none hZero), parseNumberOrFixedStr_none hDigit hPlus hMinus]
    have hIdentifier : alt identifier (digit1.followedBy numericNameDelimiter) (c :: (cs ++ rest)) =
        some (c :: cs, rest) := alt_some (identifier_append hStart hChars hEnds.stops_identChar)
    have hName : parseBaseVariableName (c :: (cs ++ rest)) = none := by
      rw [parseBaseVariableName_bare hAt hDollar, map_none]
      simp [verify, hIdentifier, hKeyword]
    rw [parseOperand_of_literal_none hLiteral, map_none (parseConditionLhs_none hName)]
    exact fun v r h => by cases h

/-! ### Hexadecimal literals -/

theorem digit1_append {digits rest : List Char} (hDigits : ∀ c ∈ digits, c.isDigit = true)
    (hNonempty : digits ≠ []) (hRest : Stops Char.isDigit rest) :
    digit1 (digits ++ rest) = some (digits, rest) :=
  takeWhile1_append hDigits hNonempty hRest

theorem parseHexString_append {text rest : List Char} (h : IsHex text) (hEnds : Ends rest) :
    parseHexString (text ++ rest) = if literalDelimiter rest then some (.str text, rest) else none := by
  obtain ⟨x, digits, rfl, hx, hNonempty, hDigits⟩ := h
  have hPrefix : alt (literal "0x".toList) (literal "0X".toList) ('0' :: x :: (digits ++ rest)) =
      some (['0', x], digits ++ rest) := by
    rcases hx with rfl | rfl
    · exact alt_some (literal_append (l := "0x".toList))
    · rw [alt_none]
      · exact literal_append (l := "0X".toList)
      · simp [literal]
  have hText := append_eq hPrefix (takeWhile1_append hDigits hNonempty hEnds.stops_hexDigit)
  rw [parseHexString]
  split
  · next h => exact map_some (by rw [List.cons_append, List.cons_append, followedBy_some hText, if_pos h]; rfl)
  · next h => exact map_none (by rw [List.cons_append, List.cons_append, followedBy_some hText, if_neg h])

theorem readAs_hex {text rest : List Char} (h : IsHex text) (hEnds : Ends rest) :
    ReadAs (.hex text) (.literal (.str text)) rest := by
  have hHex := parseHexString_append h hEnds
  obtain ⟨x, digits, rfl, hx, hNonempty, hDigits⟩ := h
  rw [ReadAs, Token.delimited]
  show if _ then parseOperand ('0' :: x :: (digits ++ rest)) = _ else
    ∀ v r, parseOperand ('0' :: x :: (digits ++ rest)) = _ → _
  rw [List.cons_append, List.cons_append] at hHex
  have hFirst : ∀ p : Parser LiteralValue,
      alt parseQuotedString (alt parseBoolean p) ('0' :: x :: (digits ++ rest)) =
        p ('0' :: x :: (digits ++ rest)) := fun p => by
    rw [alt_none (parseQuotedString_none (by decide) (by decide)),
      alt_none (parseBoolean_none (by decide) (by decide))]
  split
  · next h =>
    rw [if_pos h] at hHex
    refine alt_some (map_some ?_)
    rw [parseLiteral, hFirst]
    exact alt_some hHex
  · next h =>
    rw [if_neg h] at hHex
    have hx' : x.isDigit = false ∧ x ≠ '.' ∧ literalDelimiter (x :: (digits ++ rest)) = false ∧
        numericNameDelimiter (x :: (digits ++ rest)) = false := by
      rcases hx with rfl | rfl <;> simp [literalDelimiter, numericNameDelimiter, isBlank, commonDelimiters]
    obtain ⟨hxDigit, hxDot, hxLiteral, hxName⟩ := hx'
    have hOneDigit : ∀ c ∈ ['0'], c.isDigit = true := by decide
    have hZero : digit1 ('0' :: x :: (digits ++ rest)) = some (['0'], x :: (digits ++ rest)) :=
      digit1_append hOneDigit (by simp) (stops_cons.mpr hxDigit)
    have hNumber : parseNumberOrFixedStr ('0' :: x :: (digits ++ rest)) = none := by
      have hDot : append (literal ['.']) digit1 (x :: (digits ++ rest)) = none :=
        append_none (literal_none (c := '.') rfl (by simpa using hxDot))
      have hSign : opt (oneOf fun c => c == '+' || c == '-') ('0' :: x :: (digits ++ rest)) =
          some ([], '0' :: x :: (digits ++ rest)) := rfl
      have hOpt : opt (append (literal ['.']) digit1) (x :: (digits ++ rest)) =
          some ([], x :: (digits ++ rest)) := by rw [opt, hDot]
      rw [parseNumberOrFixedStr, map_none]
      rw [followedBy_some (append_eq hSign (append_eq hZero hOpt)), if_neg (by simp [hxLiteral])]
    have hLiteral : parseLiteral ('0' :: x :: (digits ++ rest)) = none := by
      rw [parseLiteral, hFirst, alt_none hHex, hNumber]
    have hName : parseBaseVariableName ('0' :: x :: (digits ++ rest)) = none := by
      rw [parseBaseVariableName_bare (by decide) (by decide), map_none]
      have hNone : alt identifier (digit1.followedBy numericNameDelimiter)
          ('0' :: x :: (digits ++ rest)) = none := by
        rw [alt_none (identifier_none (by decide)), followedBy_some hZero,
          if_neg (by simp [hxName])]
      simp [verify, hNone]
    rw [parseOperand_of_literal_none hLiteral, map_none (parseConditionLhs_none hName)]
    exact fun v r h => by cases h

/-! ### Names -/

theorem not_identStart_of_digit {c : Char} (h : c.isDigit = true) : isIdentStart c = false := by
  have hUnderscore : c ≠ '_' := by
    rintro rfl
    cases h
  simp only [Char.isDigit, Bool.and_eq_true, decide_eq_true_eq, ge_iff_le, UInt32.le_iff_toNat_le] at h
  have hNine : '9'.val.toNat = 57 := rfl
  have hA : 'A'.val.toNat = 65 := rfl
  have ha : 'a'.val.toNat = 97 := rfl
  have hVal : c.toNat = c.val.toNat := rfl
  simp [isIdentStart, isAlpha_cases, isUpper_bounds, isLower_bounds, hUnderscore, UInt32.le_iff_toNat_le]
  omega

theorem identChar_of_digit {c : Char} (h : c.isDigit = true) : isIdentChar c = true := by
  simp [isIdentChar, Char.isAlphanum, h]

theorem digit_stops_of_ident {rest : List Char} (h : Stops isIdentChar rest) :
    Stops Char.isDigit rest := fun c hc => by
  by_contra hDigit
  have hIdent := identChar_of_digit (c := c) (by simpa using hDigit)
  rw [h c hc] at hIdent
  cases hIdent

theorem parseName_append {name rest : List Char} (h : IsName name) (hRest : Stops isIdentChar rest) :
    alt identifier digit1 (name ++ rest) = some (name, rest) := by
  rcases h with ⟨c, cs, rfl, hStart, hChars⟩ | ⟨hNonempty, hDigits⟩
  · exact alt_some (identifier_append hStart hChars hRest)
  · have hDigit1 := digit1_append hDigits hNonempty (digit_stops_of_ident hRest)
    obtain ⟨c, cs, rfl⟩ := List.exists_cons_of_ne_nil hNonempty
    have hFirst := not_identStart_of_digit (hDigits c List.mem_cons_self)
    rw [List.cons_append] at hDigit1 ⊢
    rw [alt_none (identifier_none hFirst), hDigit1]

theorem parseBaseName_append {name rest : List Char} (h : IsName name)
    (hRest : Stops isIdentChar rest) :
    alt identifier (digit1.followedBy numericNameDelimiter) (name ++ rest) =
      if !name.all Char.isDigit || numericNameDelimiter rest then some (name, rest) else none := by
  rcases h with ⟨c, cs, rfl, hStart, hChars⟩ | ⟨hNonempty, hDigits⟩
  · have hDigit : c.isDigit = false := by
      by_contra hDigit
      rw [not_identStart_of_digit (by simpa using hDigit)] at hStart
      cases hStart
    rw [if_pos (by simp [hDigit])]
    exact alt_some (identifier_append hStart hChars hRest)
  · have hDigit1 := digit1_append hDigits hNonempty (digit_stops_of_ident hRest)
    have hAll : name.all Char.isDigit = true := List.all_eq_true.mpr hDigits
    obtain ⟨c, cs, rfl⟩ := List.exists_cons_of_ne_nil hNonempty
    have hFirst := not_identStart_of_digit (hDigits c List.mem_cons_self)
    rw [List.cons_append] at hDigit1 ⊢
    rw [alt_none (identifier_none hFirst), followedBy_some hDigit1, hAll]
    rfl

/-! ### Accessors -/

theorem parseIndexAccessor_append (i : Fin (2 ^ 64)) (rest : List Char) :
    parseIndexAccessor ((Accessor.index i).text ++ rest) = some (.index i, rest) := by
  have hDigits : digit1 (Nat.toDigits 10 i ++ ']' :: rest) = some (Nat.toDigits 10 i, ']' :: rest) :=
    digit1_append (fun c hc => Nat.isDigit_of_mem_toDigits (by omega) (by omega) hc)
      Nat.toDigits_ne_nil (stops_cons.mpr (by decide))
  have hText := append_eq (literal_singleton (c := '[')) (append_eq hDigits literal_singleton)
  have hUsize : parseUsize (Nat.toDigits 10 i) = some i := by
    rw [parseUsize]
    simp [Nat.ofDigitChars_toDigits]
  rw [parseIndexAccessor, show (Accessor.index i).text ++ rest =
    '[' :: (Nat.toDigits 10 i ++ ']' :: rest) by simp [Accessor.text], hText]
  simp [hUsize]

theorem parseIndexAccessor_none {s : List Char} (h : s.head? ≠ some '[') :
    parseIndexAccessor s = none := by
  rw [parseIndexAccessor, append_none (literal_none (c := '[') rfl h)]

theorem parseKeyAccessor_append {k rest : List Char} (h : IsName k) (hRest : Stops isIdentChar rest) :
    parseKeyAccessor ((Accessor.key k).text ++ rest) =
      if keyDelimiter rest then some (.key k, rest) else none := by
  have hDot : literal ['.'] ((Accessor.key k).text ++ rest) = some (['.'], k ++ rest) :=
    literal_append (l := ['.'])
  have hKey : (literal ['.']).andThen (alt identifier digit1) ((Accessor.key k).text ++ rest) =
      some ((['.'], k), rest) := by
    simp [andThen, hDot, parseName_append h hRest]
  rw [parseKeyAccessor]
  split
  · next hDelimiter => rw [map_some (by rw [followedBy_some hKey, if_pos hDelimiter])]
  · next hDelimiter => rw [map_none (by rw [followedBy_some hKey, if_neg hDelimiter])]

theorem parseAccessor_none {s : List Char} (h : s.head? ≠ some '[') (h' : s.head? ≠ some '.') :
    parseAccessor s = none := by
  rw [parseAccessor, alt_none (parseIndexAccessor_none h), parseKeyAccessor,
    map_none (followedBy_none (andThen_none (literal_none (c := '.') rfl h')))]

theorem parseAccessor_key {k rest : List Char} (h : IsName k) (hRest : Stops isIdentChar rest) :
    parseAccessor ((Accessor.key k).text ++ rest) =
      if keyDelimiter rest then some (.key k, rest) else none := by
  rw [parseAccessor, alt_none (parseIndexAccessor_none (by simp [Accessor.text])),
    parseKeyAccessor_append h hRest]

/-! ### Numbers -/

/-- The delimiter that only a number and a key miss. -/
theorem not_delimiter {rest : List Char} (hEnds : Ends rest) (h : literalDelimiter rest = false) :
    numericNameDelimiter rest = false ∧ keyDelimiter rest = false := by
  cases rest with
  | nil => cases h
  | cons c rest =>
    have hc : c ∈ endCharacters := hEnds c rfl
    have hThree : c = '\r' ∨ c = '\n' ∨ c = '^' := by
      simp [endCharacters, literalDelimiter, isBlank, commonDelimiters] at hc h
      grind
    rcases hThree with rfl | rfl | rfl <;>
      exact ⟨by simp [numericNameDelimiter, isBlank], by simp [keyDelimiter, isBlank]⟩

theorem parseNumberOrFixedStr_append {text rest : List Char} (h : IsNumber text) (hEnds : Ends rest) :
    parseNumberOrFixedStr (text ++ rest) =
      if literalDelimiter rest then some (.number text, rest) else none := by
  obtain ⟨sign, digits, fraction, rfl, hSign, ⟨hNonempty, hDigits⟩, hFraction⟩ := h
  have hRest : Stops Char.isDigit (fraction ++ rest) := by
    rcases hFraction with rfl | ⟨ds, rfl, -, -⟩
    · exact hEnds.stops_digit
    · exact stops_cons.mpr (by decide)
  have hSigned : opt (oneOf fun c => c == '+' || c == '-') (sign ++ (digits ++ (fraction ++ rest))) =
      some (sign, digits ++ (fraction ++ rest)) := by
    rcases hSign with rfl | rfl | rfl
    · obtain ⟨c, cs, rfl⟩ := List.exists_cons_of_ne_nil hNonempty
      have hNone : oneOf (fun c => c == '+' || c == '-') (c :: cs ++ (fraction ++ rest)) = none := by
        refine oneOf_stops (stops_cons.mpr ?_)
        have hDigit := hDigits c List.mem_cons_self
        by_contra hSign
        simp only [Bool.not_eq_false, Bool.or_eq_true, beq_iff_eq] at hSign
        rcases hSign with rfl | rfl <;> cases hDigit
      rw [List.nil_append, opt, hNone]
    · rfl
    · rfl
  have hPoint : opt (append (literal ['.']) digit1) (fraction ++ rest) = some (fraction, rest) := by
    rcases hFraction with rfl | ⟨ds, rfl, hNe, hDs⟩
    · rw [List.nil_append, opt, append_none (hEnds.literal_none (c := '.') rfl (by decide))]
    · have hText := append_eq (literal_append (l := ['.']) (r := ds ++ rest))
        (digit1_append hDs hNe hEnds.stops_digit)
      rw [opt, show '.' :: ds ++ rest = ['.'] ++ (ds ++ rest) from rfl, hText]
      rfl
  have hText := append_eq hSigned (append_eq (digit1_append hDigits hNonempty hRest) hPoint)
  rw [parseNumberOrFixedStr, List.append_assoc, List.append_assoc]
  split
  · next h => exact map_some (by rw [followedBy_some hText, if_pos h])
  · next h => exact map_none (by rw [followedBy_some hText, if_neg h])

/-- A number starts like no other literal. -/
theorem parseLiteral_number {text rest : List Char} (h : IsNumber text) (hEnds : Ends rest) :
    parseLiteral (text ++ rest) = parseNumberOrFixedStr (text ++ rest) := by
  obtain ⟨sign, digits, fraction, rfl, hSign, ⟨hNonempty, hDigits⟩, hFraction⟩ := h
  obtain ⟨d, ds, rfl⟩ := List.exists_cons_of_ne_nil hNonempty
  have hFirst : ∃ c s, sign ++ (d :: ds ++ fraction) ++ rest = c :: s ∧
      (c = '+' ∨ c = '-' ∨ c.isDigit = true ∧ s.head? ≠ some 'x' ∧ s.head? ≠ some 'X') := by
    rcases hSign with rfl | rfl | rfl
    · have hNoX : Stops (fun c => c == 'x' || c == 'X') (ds ++ (fraction ++ rest)) := by
        refine stops_append (fun c hc => ?_) fun _ => stops_append ?_ fun _ => hEnds.stops (by decide)
        · have hDigit := hDigits c (List.mem_cons_of_mem _ (List.mem_of_mem_head? hc))
          by_contra hX
          simp only [Bool.not_eq_false, Bool.or_eq_true, beq_iff_eq] at hX
          rcases hX with rfl | rfl <;> cases hDigit
        · rcases hFraction with rfl | ⟨fs, rfl, -, -⟩
          · exact stops_nil
          · exact stops_cons.mpr (by decide)
      refine ⟨d, ds ++ (fraction ++ rest), by simp,
        .inr (.inr ⟨hDigits d List.mem_cons_self, fun hx => ?_, fun hX => ?_⟩)⟩
      · exact absurd (hNoX 'x' hx) (by decide)
      · exact absurd (hNoX 'X' hX) (by decide)
    · exact ⟨'+', _, rfl, .inl rfl⟩
    · exact ⟨'-', _, rfl, .inr (.inl rfl)⟩
  obtain ⟨c, s, hText, hc⟩ := hFirst
  have hOther : c ≠ '\'' ∧ c ≠ '"' ∧ c ≠ 't' ∧ c ≠ 'f' := by
    rcases hc with rfl | rfl | ⟨hDigit, -, -⟩
    · decide
    · decide
    · refine ⟨?_, ?_, ?_, ?_⟩ <;> rintro rfl <;> cases hDigit
  have hHex : parseHexString (c :: s) = none := by
    rw [parseHexString, map_none (followedBy_none (append_none ?_))]
    rcases hc with rfl | rfl | ⟨-, hx, hX⟩
    · simp [alt, literal]
    · simp [alt, literal]
    · cases s with
      | nil => simp [alt, literal]
      | cons e s =>
        have hx' : 'x' ≠ e := fun hEq => hx (by rw [hEq, List.head?_cons])
        have hX' : 'X' ≠ e := fun hEq => hX (by rw [hEq, List.head?_cons])
        simp [alt, literal, hx', hX']
  rw [hText, parseLiteral, alt_none (parseQuotedString_none hOther.1 hOther.2.1),
    alt_none (parseBoolean_none hOther.2.2.1 hOther.2.2.2), alt_none hHex]

theorem readAs_number {text rest : List Char} (h : IsNumber text) (hEnds : Ends rest) :
    ReadAs (.number text) (.literal (.number text)) rest := by
  have hNumber := parseNumberOrFixedStr_append h hEnds
  have hLiteral := parseLiteral_number h hEnds
  rw [ReadAs, Token.delimited, Token.text]
  split
  · next hDelimiter =>
    rw [if_pos hDelimiter] at hNumber
    exact alt_some (map_some (hLiteral.trans hNumber))
  · next hDelimiter =>
    rw [if_neg hDelimiter] at hNumber
    rw [parseOperand_of_literal_none (hLiteral.trans hNumber)]
    obtain ⟨hName, hKey⟩ := not_delimiter hEnds (by simpa using hDelimiter)
    obtain ⟨sign, digits, fraction, rfl, hSign, ⟨hNonempty, hDigits⟩, hFraction⟩ := h
    -- Without a sign the integral part is the name of a variable, if a dot follows.
    rcases hSign with rfl | hSign
    · have hDigitsName : IsName digits := .inr ⟨hNonempty, hDigits⟩
      have hIdent : Stops isIdentChar (fraction ++ rest) := by
        rcases hFraction with rfl | ⟨ds, rfl, -, -⟩
        · exact hEnds.stops_identChar
        · exact stops_cons.mpr (by decide)
      have hBase := parseBaseName_append hDigitsName hIdent
      obtain ⟨d, ds, rfl⟩ := List.exists_cons_of_ne_nil hNonempty
      have hPrefix : d ≠ '@' ∧ d ≠ '$' := by
        have hDigit := hDigits d List.mem_cons_self
        constructor <;> rintro rfl <;> cases hDigit
      have hName' := parseBaseVariableName_bare (s := ds ++ (fraction ++ rest)) hPrefix.1 hPrefix.2
      rw [List.cons_append] at hBase
      rw [List.nil_append, List.append_assoc, List.cons_append]
      simp only [map, verify, hBase] at hName'
      rcases hFraction with rfl | ⟨fs, rfl, hNe, hFs⟩
      · rw [if_neg (by simp [hName, List.all_eq_true.mpr hDigits])] at hName'
        rw [map_none (parseConditionLhs_none hName')]
        exact fun v r h => by cases h
      · have hAccessor : parseAccessor ('.' :: fs ++ rest) = none :=
          (parseAccessor_key (.inr ⟨hNe, hFs⟩) hEnds.stops_identChar).trans (by rw [if_neg (by simp [hKey])])
        rw [if_pos (by simp [numericNameDelimiter])] at hName'
        intro v r h
        by_cases hKeyword : isKeyword (d :: ds) = true
        · simp only [hKeyword] at hName'
          rw [map_none (parseConditionLhs_none hName')] at h
          cases h
        · simp only [hKeyword] at hName'
          simp only [Bool.not_false, if_true] at hName'
          rw [map_some (parseConditionLhs_eq hName' (fold_done hAccessor))] at h
          cases h
          rfl
    · have hFirst : ∃ c s, sign ++ (digits ++ fraction) ++ rest = c :: s ∧ c ≠ '@' ∧ c ≠ '$' ∧
          isIdentStart c = false ∧ c.isDigit = false := by
        rcases hSign with rfl | rfl
        · exact ⟨'+', _, rfl, by decide⟩
        · exact ⟨'-', _, rfl, by decide⟩
      obtain ⟨c, s, hText, hAt, hDollar, hStart, hDigit⟩ := hFirst
      have hNone : alt identifier (digit1.followedBy numericNameDelimiter) (c :: s) = none := by
        rw [alt_none (identifier_none hStart), followedBy_none (digit1_none hDigit)]
      have hName' : parseBaseVariableName (c :: s) = none := by
        rw [parseBaseVariableName_bare hAt hDollar, map_none]
        simp [verify, hNone]
      rw [hText, map_none (parseConditionLhs_none hName')]
      exact fun v r h => by cases h

/-! ### Variables -/

theorem Accessor.text_length_pos (a : Accessor) : 0 < a.text.length := by
  cases a <;> simp [Accessor.text]

/-- What the parser wants to see after the accessors of a variable. -/
def accessorsDelimited (accessors : List Accessor) (rest : List Char) : Bool :=
  match accessors.getLast? with
  | some (.key _) => keyDelimiter rest
  | _ => true

theorem accessors_stop (accessors : List Accessor) {rest : List Char} (hEnds : Ends rest) :
    Stops isIdentChar (accessors.flatMap Accessor.text ++ rest) := by
  cases accessors with
  | nil => exact hEnds.stops_identChar
  | cons a accessors =>
    cases a with
    | index i => exact stops_cons.mpr (by decide)
    | key k => exact stops_cons.mpr (by decide)

theorem accessors_delimit {accessors : List Accessor} (h : accessors ≠ []) (rest : List Char) :
    keyDelimiter (accessors.flatMap Accessor.text ++ rest) = true ∧
      numericNameDelimiter (accessors.flatMap Accessor.text ++ rest) = true := by
  obtain ⟨a, accessors, rfl⟩ := List.exists_cons_of_ne_nil h
  cases a with
  | index i => exact ⟨rfl, rfl⟩
  | key k => exact ⟨rfl, rfl⟩

/-- The accessors are read up to the last, and the last if it is delimited. -/
theorem fold_accessors {accessors : List Accessor}
    (hKeys : ∀ k, Accessor.key k ∈ accessors → IsName k) {rest : List Char} (hEnds : Ends rest)
    (acc : List Accessor) : ∃ read r, fold parseAccessor (fun acc a => acc ++ [a]) acc
        (accessors.flatMap Accessor.text ++ rest) = some (acc ++ read, r) ∧
      if accessorsDelimited accessors rest then read = accessors ∧ r = rest else r.head? = some '.' := by
  induction accessors generalizing acc with
  | nil =>
    have hNone : parseAccessor rest = none := by
      refine parseAccessor_none (fun h => ?_) fun h => ?_
      · exact absurd (hEnds _ h) (by decide)
      · exact absurd (hEnds _ h) (by decide)
    exact ⟨[], rest, by rw [List.append_nil]; exact fold_done hNone, rfl, rfl⟩
  | cons a accessors ih =>
    have hRest : ∀ k, Accessor.key k ∈ accessors → IsName k := fun k hk =>
      hKeys k (List.mem_cons_of_mem _ hk)
    rw [List.flatMap_cons, List.append_assoc]
    have hContinue : parseAccessor (a.text ++ (accessors.flatMap Accessor.text ++ rest)) =
          some (a, accessors.flatMap Accessor.text ++ rest) →
        accessorsDelimited (a :: accessors) rest = accessorsDelimited accessors rest →
        ∃ read r, fold parseAccessor (fun acc a => acc ++ [a]) acc
            (a.text ++ (accessors.flatMap Accessor.text ++ rest)) = some (acc ++ read, r) ∧
          if accessorsDelimited (a :: accessors) rest then read = a :: accessors ∧ r = rest
          else r.head? = some '.' := by
      intro hParse hDelimited
      obtain ⟨read, r, hFold, hRead⟩ := ih hRest (acc ++ [a])
      refine ⟨a :: read, r, ?_, ?_⟩
      · rw [fold_step hParse, hFold, List.append_assoc, List.singleton_append]
        have hPos := a.text_length_pos
        simp only [List.length_append]
        omega
      · rw [hDelimited]
        split
        · next h =>
          rw [if_pos h] at hRead
          exact ⟨by rw [hRead.1], hRead.2⟩
        · next h => rwa [if_neg h] at hRead
    cases a with
    | index i =>
      refine hContinue (parseIndexAccessor_append i _ |> alt_some) ?_
      cases accessors with
      | nil => rfl
      | cons b accessors => simp [accessorsDelimited, List.getLast?_cons_cons]
    | key k =>
      have hParse := parseAccessor_key (hKeys k List.mem_cons_self) (accessors_stop accessors hEnds)
      cases accessors with
      | nil =>
        rw [List.flatMap_nil, List.nil_append] at hParse ⊢
        by_cases hDelimiter : keyDelimiter rest = true
        · rw [if_pos hDelimiter] at hParse
          exact hContinue hParse (by simp [accessorsDelimited, hDelimiter])
        · rw [if_neg hDelimiter] at hParse
          refine ⟨[], _, by rw [List.append_nil]; exact fold_done hParse, ?_⟩
          rw [if_neg (by simpa [accessorsDelimited] using hDelimiter)]
          rfl
      | cons b accessors =>
        rw [if_pos (accessors_delimit (List.cons_ne_nil b accessors) rest).1] at hParse
        exact hContinue hParse (by simp [accessorsDelimited, List.getLast?_cons_cons])

theorem parseBaseVariableName_append {base next : List Char} {source : VariableSource}
    (hName : IsName base) (hKeyword : isKeyword base = false) (hNext : Stops isIdentChar next) :
    parseBaseVariableName (source.text :: (base ++ next)) =
      if !base.all Char.isDigit || numericNameDelimiter next then some ((base, source), next)
      else none := by
  have hBase := parseBaseName_append hName hNext
  have hPrefix : opt (alt (literal ['@']) (literal ['$'])) (source.text :: (base ++ next)) =
      some ([source.text], base ++ next) := by
    cases source <;> simp [opt, alt, literal, VariableSource.text]
  split
  · next h =>
    rw [if_pos h] at hBase
    simp only [parseBaseVariableName, map, verify, andThen, hPrefix, hBase, hKeyword, Bool.not_false,
      if_true]
    cases source <;> simp [VariableSource.text]
  · next h =>
    rw [if_neg h] at hBase
    simp only [parseBaseVariableName, map, verify, andThen, hPrefix, hBase]

theorem readAs_var {v : ConditionLeft} (h : v.Valid) {rest : List Char} (hEnds : Ends rest) :
    ReadAs (.var v) (.var v) rest := by
  have hLiteral : parseLiteral (v.text ++ rest) = none := by
    have hSource : ∀ c, c = v.source.text → c ≠ '\'' ∧ c ≠ '"' ∧ c ≠ 't' ∧ c ≠ 'f' ∧ c ≠ '0' ∧
        c.isDigit = false ∧ c ≠ '+' ∧ c ≠ '-' := by
      rintro c rfl
      cases v.source <;> decide
    obtain ⟨hSingle, hDouble, hT, hF, hZero, hDigit, hPlus, hMinus⟩ := hSource _ rfl
    rw [ConditionLeft.text, List.cons_append, parseLiteral,
      alt_none (parseQuotedString_none hSingle hDouble), alt_none (parseBoolean_none hT hF),
      alt_none (parseHexString_none hZero), parseNumberOrFixedStr_none hDigit hPlus hMinus]
  have hText : v.text ++ rest =
      v.source.text :: (v.baseName ++ (v.accessors.flatMap Accessor.text ++ rest)) := by
    rw [ConditionLeft.text, List.cons_append, List.append_assoc]
  have hBase : parseBaseVariableName (v.source.text :: _) = _ :=
    parseBaseVariableName_append h.name h.keyword (accessors_stop v.accessors hEnds)
  obtain ⟨read, r, hFold, hRead⟩ := fold_accessors h.keys hEnds []
  rw [List.nil_append] at hFold
  rw [ReadAs, Token.text, parseOperand_of_literal_none hLiteral]
  by_cases hNumeric : (!v.baseName.all Char.isDigit ||
      numericNameDelimiter (v.accessors.flatMap Accessor.text ++ rest)) = true
  · rw [if_pos hNumeric] at hBase
    have hLhs := parseConditionLhs_eq hBase hFold
    rw [← hText] at hLhs
    have hDelimited : (Token.var v).delimited rest = accessorsDelimited v.accessors rest := by
      rw [Token.delimited, accessorsDelimited]
      cases hAccessors : v.accessors with
      | nil =>
        rw [hAccessors, List.flatMap_nil, List.nil_append] at hNumeric
        simp [hNumeric]
      | cons a accessors =>
        cases hLast : (a :: accessors).getLast? with
        | none => simp at hLast
        | some b => cases b <;> rfl
    rw [hDelimited]
    split
    · next hAccessors =>
      rw [if_pos hAccessors] at hRead
      rw [map_some hLhs, hRead.1, hRead.2, h.eq]
    · next hAccessors =>
      rw [if_neg hAccessors] at hRead
      intro e r' hParse
      rw [map_some hLhs] at hParse
      cases hParse
      exact hRead
  · rw [if_neg hNumeric] at hBase
    have hNil : v.accessors = [] := by
      by_contra hAccessors
      exact hNumeric (by rw [(accessors_delimit hAccessors rest).2, Bool.or_true])
    have hNot : (Token.var v).delimited rest = false := by
      rw [hNil, List.flatMap_nil, List.nil_append] at hNumeric
      rw [Token.delimited, hNil]
      simpa using hNumeric
    rw [hNot, hText, map_none (parseConditionLhs_none hBase)]
    intro e r' hParse
    cases hParse

theorem readAs {t : Token} {e : ArithmeticExpr} (h : t.operand? = some e) (hValid : t.Valid)
    {rest : List Char} (hEnds : Ends rest) : ReadAs t e rest := by
  cases t with
  | bool b =>
    cases h
    exact readAs_bool b hEnds
  | number text =>
    cases h
    exact readAs_number hValid hEnds
  | hex text =>
    cases h
    exact readAs_hex hValid hEnds
  | quoted quote text =>
    cases h
    exact parseOperand_quoted hValid rest
  | var v =>
    cases h
    exact readAs_var hValid hEnds
  | leftParen | rightParen | not | logical op | comparison op | arithmetic op => cases h

end Rindexer.Filter
