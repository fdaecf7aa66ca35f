import Rindexer.Filter.Evaluation
import Rindexer.Filter.Printing
import Rindexer.Lib.Decimal

/-! What the readers of the libraries are documented to do, and how integers are written. -/

namespace Rindexer.Filter

open Rindexer.Lib

/-! ### Digits -/

def IsDigits (ds : List Char) : Prop := ds ≠ [] ∧ ∀ c ∈ ds, c.isDigit = true

instance (ds : List Char) : Decidable (IsDigits ds) := by
  unfold IsDigits
  infer_instance

def decimalValue (ds : List Char) : Nat := Nat.ofDigitChars 10 ds 0

def hexDigitValue (c : Char) : Nat :=
  if c.isDigit then c.toNat - 48 else if 'a' ≤ c ∧ c ≤ 'f' then c.toNat - 87 else c.toNat - 55

def hexValue (ds : List Char) : Nat := ds.foldl (fun n c => 16 * n + hexDigitValue c) 0

/-- A number, if it is signed with 256 bits. -/
def i256 (n : Int) : Option Int := if -2 ^ 255 ≤ n ∧ n < 2 ^ 255 then some n else none

theorem u256_of_lt {n : Nat} (h : n < 2 ^ 256) : u256 n = some ⟨n, h⟩ := dif_pos h

theorem i256_of_lt {n : Int} (h : -2 ^ 255 ≤ n) (h' : n < 2 ^ 255) : i256 n = some n := if_pos ⟨h, h'⟩

theorem isDigits_toString (n : Nat) : IsDigits (toString n).toList := by
  refine ⟨fun hNil => ?_, fun c hc => isDigit_of_mem_toString hc⟩
  rw [toList_toString_nat] at hNil
  exact Nat.toDigits_ne_nil hNil

theorem decimalValue_toString (n : Nat) : decimalValue (toString n).toList = n := by
  rw [decimalValue, toList_toString_nat, Nat.ofDigitChars_ten_toDigits]

/-! ### The readers -/

/-- The behaviour of the readers that the comparisons rest on: decimals with and without a sign,
hexadecimals, and that a text becomes lower case character by character where it is ASCII and starts
with `0x` only if it did. -/
structure Readers.Documented (r : Readers) : Prop where
  u256_digits : ∀ ds, IsDigits ds → r.u256FromStr ds = u256 (decimalValue ds)
  u256_sign : ∀ c s, c = '+' ∨ c = '-' → r.u256FromStr (c :: s) = none
  u256_hex : ∀ ds, ds ≠ [] → (∀ c ∈ ds, isHexDigit c = true) → r.u256FromHex ds = u256 (hexValue ds)
  i256_digits : ∀ ds, IsDigits ds → r.i256FromStr ds = i256 (decimalValue ds)
  i256_plus : ∀ ds, IsDigits ds → r.i256FromStr ('+' :: ds) = i256 (decimalValue ds)
  i256_minus : ∀ ds, IsDigits ds → r.i256FromStr ('-' :: ds) = i256 (-decimalValue ds)
  lowercase_ascii : ∀ s, (∀ c ∈ s, c.toNat < 128) → r.toLowercase s = s.map Char.toLower
  lowercase_hex : ∀ s, "0x".toList <+: r.toLowercase s → (stripHex s).isSome = true

/-! ### Integers in decimal -/

inductive Sign
  | none
  | plus
  | minus
deriving DecidableEq, Repr

def Sign.text : Sign → List Char
  | none => []
  | plus => ['+']
  | minus => ['-']

structure DecimalText where
  sign : Sign
  digits : List Char
  isDigits : IsDigits digits

namespace DecimalText

def text (t : DecimalText) : List Char := t.sign.text ++ t.digits

def value (t : DecimalText) : Int :=
  match t.sign with
  | .minus => -decimalValue t.digits
  | _ => decimalValue t.digits

def ofNat (n : Nat) : DecimalText := ⟨.none, (toString n).toList, isDigits_toString n⟩

def ofNegSucc (n : Nat) : DecimalText := ⟨.minus, (toString (n + 1)).toList, isDigits_toString (n + 1)⟩

@[simp] theorem text_ofNat (n : Nat) : (ofNat n).text = (toString n).toList := rfl

@[simp] theorem value_ofNat (n : Nat) : (ofNat n).value = n :=
  congrArg Int.ofNat (decimalValue_toString n)

theorem sign_ofNegSucc (n : Nat) : (ofNegSucc n).sign ≠ .none := by
  show Sign.minus ≠ _
  decide

theorem text_ofNegSucc (n : Nat) : (ofNegSucc n).text = (toString (Int.negSucc n)).toList :=
  (toList_toString_negSucc n).symm

theorem value_ofNegSucc (n : Nat) : (ofNegSucc n).value = Int.negSucc n := by
  show -(decimalValue (toString (n + 1)).toList : Int) = _
  rw [decimalValue_toString]
  rfl

end DecimalText

/-! ### Trimming -/

theorem dropWhile_eq_self {p : Char → Bool} {s : List Char} (h : ∀ c ∈ s, p c = false) :
    s.dropWhile p = s := by
  cases s with
  | nil => rfl
  | cons c s => rw [List.dropWhile_cons_of_neg (by simp [h c List.mem_cons_self])]

theorem trim_eq_self {s : List Char} (h : ∀ c ∈ s, isWhiteSpace c = false) : trim s = s := by
  rw [trim, dropWhile_eq_self h, dropWhile_eq_self fun c hc => h c (List.mem_reverse.mp hc),
    List.reverse_reverse]

theorem not_whiteSpace_of_range {c : Char} (hLow : 32 < c.toNat) (hHigh : c.toNat < 128) :
    isWhiteSpace c = false := by
  simp only [isWhiteSpace, Bool.or_eq_false_iff, Bool.and_eq_false_iff, decide_eq_false_iff_not,
    List.contains_eq_mem, List.mem_cons, List.not_mem_nil, or_false]
  omega

theorem digit_range {c : Char} (h : c.isDigit = true) : 48 ≤ c.toNat ∧ c.toNat ≤ 57 := by
  simp only [Char.isDigit, Bool.and_eq_true, decide_eq_true_eq, UInt32.le_iff_toNat_le] at h
  exact h

theorem not_whiteSpace_of_digit {c : Char} (h : c.isDigit = true) : isWhiteSpace c = false := by
  have := digit_range h
  exact not_whiteSpace_of_range (by omega) (by omega)

theorem hexDigit_range {c : Char} (h : isHexDigit c = true) : 48 ≤ c.toNat ∧ c.toNat ≤ 102 := by
  simp only [isHexDigit, Bool.or_eq_true, Bool.and_eq_true, decide_eq_true_eq] at h
  have hLetter : ∀ {a b : Char}, a ≤ b → a.toNat ≤ b.toNat := fun h => h
  rcases h with (h | ⟨h, h'⟩) | ⟨h, h'⟩
  · have := digit_range h
    omega
  · have hLow : 97 ≤ c.toNat := hLetter h
    have hHigh : c.toNat ≤ 102 := hLetter h'
    omega
  · have hLow : 65 ≤ c.toNat := hLetter h
    have hHigh : c.toNat ≤ 70 := hLetter h'
    omega

theorem not_whiteSpace_of_hexDigit {c : Char} (h : isHexDigit c = true) : isWhiteSpace c = false := by
  have := hexDigit_range h
  exact not_whiteSpace_of_range (by omega) (by omega)

/-! ### Reading integers -/

theorem stripHex_eq_some {s digits : List Char} :
    stripHex s = some digits ↔ s = '0' :: 'x' :: digits ∨ s = '0' :: 'X' :: digits := by
  constructor
  · intro h
    unfold stripHex at h
    split at h
    · exact Or.inl (by rw [Option.some.inj h])
    · exact Or.inr (by rw [Option.some.inj h])
    · cases h
  · rintro (rfl | rfl) <;> rfl

theorem stripHex_eq_none {s : List Char} (h : 'x' ∉ s) (h' : 'X' ∉ s) : stripHex s = none := by
  cases hStrip : stripHex s with
  | none => rfl
  | some digits =>
    rcases stripHex_eq_some.mp hStrip with rfl | rfl
    · exact absurd (by simp) h
    · exact absurd (by simp) h'

namespace DecimalText

variable {r : Readers} (hr : r.Documented) (t : DecimalText)

theorem text_ne_nil : t.text ≠ [] := fun h => t.isDigits.1 (List.append_eq_nil_iff.mp h).2

/-- The characters of a decimal are between `+` and `9`. -/
theorem range_of_mem {t : DecimalText} {c : Char} (h : c ∈ t.text) :
    43 ≤ c.toNat ∧ c.toNat ≤ 57 := by
  rcases List.mem_append.mp h with h | h
  · cases hSign : t.sign with
    | none => simp [hSign, Sign.text] at h
    | plus =>
      obtain rfl : c = '+' := by simpa [hSign, Sign.text] using h
      decide
    | minus =>
      obtain rfl : c = '-' := by simpa [hSign, Sign.text] using h
      decide
  · have := digit_range (t.isDigits.2 c h)
    omega

theorem trim_text : trim t.text = t.text :=
  trim_eq_self fun _ hc => not_whiteSpace_of_range (by have := range_of_mem hc; omega)
    (by have := range_of_mem hc; omega)

theorem stripHex_text : stripHex t.text = none :=
  stripHex_eq_none (fun h => absurd (range_of_mem h) (by decide))
    fun h => absurd (range_of_mem h) (by decide)

theorem not_contains_dot : t.text.contains '.' = false := by
  rw [List.contains_eq_mem, decide_eq_false_iff_not]
  intro hMem
  rcases List.mem_append.mp hMem with h | h
  · cases hCase : t.sign with
    | none => simp [hCase, Sign.text] at h
    | plus => simp [hCase, Sign.text] at h
    | minus => simp [hCase, Sign.text] at h
  · exact absurd (t.isDigits.2 _ h) (by decide)

/-- A decimal is no word. -/
theorem text_ne_word {word : List Char} (h : ∃ c ∈ word, 57 < c.toNat) : t.text ≠ word := by
  obtain ⟨c, hMem, hLarge⟩ := h
  rintro rfl
  have := range_of_mem hMem
  omega

include hr

theorem stringToU256_unsigned (hSign : t.sign = .none) :
    stringToU256 r t.text = u256 (decimalValue t.digits) := by
  have hText : t.text = t.digits := by rw [text, hSign]; rfl
  rw [stringToU256, trim_text, if_neg t.text_ne_nil, stripHex_text]
  show r.u256FromStr t.text = _
  rw [hText, hr.u256_digits _ t.isDigits]

theorem stringToU256_signed (hSign : t.sign ≠ .none) : stringToU256 r t.text = none := by
  rw [stringToU256, trim_text, if_neg t.text_ne_nil, stripHex_text]
  show r.u256FromStr t.text = _
  rw [text]
  cases hCase : t.sign with
  | none => exact absurd hCase hSign
  | plus => exact hr.u256_sign _ _ (Or.inl rfl)
  | minus => exact hr.u256_sign _ _ (Or.inr rfl)

theorem stringToI256_text : stringToI256 r t.text = i256 t.value := by
  rw [stringToI256, trim_text, if_neg t.text_ne_nil, stripHex_text]
  show r.i256FromStr t.text = _
  rw [text, value]
  cases t.sign with
  | none => exact hr.i256_digits _ t.isDigits
  | plus => exact hr.i256_plus _ t.isDigits
  | minus => exact hr.i256_minus _ t.isDigits

theorem looksHex_text : looksHex r t.text = false := by
  rw [looksHex, Bool.and_eq_false_iff]
  left
  cases hStart : "0x".toList.isPrefixOf (r.toLowercase t.text) with
  | false => rfl
  | true =>
    have hSome := hr.lowercase_hex _ (List.isPrefixOf_iff_prefix.mp hStart)
    rw [stripHex_text] at hSome
    cases hSome

/-- A signed decimal that 256 bits hold is a signed integer. -/
theorem getKindFromText_signed (hSign : t.sign ≠ .none) (hRange : i256 t.value = some t.value) :
    getKindFromText r t.text = .int256 := by
  rw [getKindFromText, looksHex_text hr t, t.not_contains_dot, stringToU256_signed hr t hSign,
    stringToI256_text hr t, hRange]
  simp

end DecimalText

theorem stringToU256_toString {r : Readers} (hr : r.Documented) (n : U256) :
    stringToU256 r (toString n.val).toList = some n := by
  rw [← DecimalText.text_ofNat, DecimalText.stringToU256_unsigned hr _ rfl]
  show u256 (decimalValue (toString n.val).toList) = _
  rw [decimalValue_toString, u256_of_lt n.isLt]

theorem stringToU256_hex {r : Readers} (hr : r.Documented) {x : Char} {digits : List Char}
    (hx : x = 'x' ∨ x = 'X') (hNonempty : digits ≠ []) (hDigits : ∀ c ∈ digits, isHexDigit c = true) :
    stringToU256 r ('0' :: x :: digits) = u256 (hexValue digits) := by
  have hWhite : ∀ c ∈ '0' :: x :: digits, isWhiteSpace c = false := by
    intro c hc
    rcases List.mem_cons.mp hc with rfl | hc
    · decide
    · rcases List.mem_cons.mp hc with rfl | hc
      · rcases hx with rfl | rfl <;> decide
      · exact not_whiteSpace_of_hexDigit (hDigits c hc)
  have hStrip : stripHex ('0' :: x :: digits) = some digits := by
    rcases hx with rfl | rfl <;> rfl
  rw [stringToU256, trim_eq_self hWhite, if_neg (by simp), hStrip]
  cases digits with
  | nil => exact absurd rfl hNonempty
  | cons c digits => exact hr.u256_hex _ hNonempty hDigits

/-! ### Readers for ASCII -/

/-- Readers for decimals and hexadecimals in ASCII. -/
def asciiReaders : Readers where
  u256FromStr s := if IsDigits s then u256 (decimalValue s) else none
  u256FromHex s := if s ≠ [] ∧ ∀ c ∈ s, isHexDigit c = true then u256 (hexValue s) else none
  i256FromStr
    | '+' :: s => if IsDigits s then i256 (decimalValue s) else none
    | '-' :: s => if IsDigits s then i256 (-decimalValue s) else none
    | s => if IsDigits s then i256 (decimalValue s) else none
  decimalFromStr
    | '-' :: s => (unsigned s).map fun n => -n
    | s => unsigned s
  jsonFromStr _ := none
  jsonToString _ := []
  toLowercase s := s.map Char.toLower
where
  /-- Digits, with or without a point and digits after it. -/
  unsigned (s : List Char) : Option Rat :=
    match s.span (· ≠ '.') with
    | (whole, []) => if IsDigits whole then some (decimalValue whole) else none
    | (whole, _ :: fraction) =>
      if IsDigits whole ∧ IsDigits fraction then
        some (decimalValue (whole ++ fraction) / 10 ^ fraction.length)
      else none

theorem toLower_cases (c : Char) :
    c.toLower = c ∨ (65 ≤ c.toNat ∧ c.toNat ≤ 90 ∧ c.toLower.toNat = c.toNat + 32) := by
  unfold Char.toLower
  split
  · rename_i h
    refine Or.inr ⟨h.1, h.2, ?_⟩
    have hLow : (65 : Nat) ≤ c.val.toNat := h.1
    have hHigh : c.val.toNat ≤ 90 := h.2
    show (c.val + 32).toNat = c.val.toNat + 32
    rw [UInt32.toNat_add]
    show (c.val.toNat + 32) % 2 ^ 32 = _
    omega
  · exact Or.inl rfl

theorem asciiReaders_documented : asciiReaders.Documented where
  u256_digits ds h := if_pos h
  u256_sign c s h := if_neg fun hDigits => by
    have := hDigits.2 c List.mem_cons_self
    rcases h with rfl | rfl
    · exact absurd this (by decide)
    · exact absurd this (by decide)
  u256_hex ds h h' := if_pos ⟨h, h'⟩
  i256_digits ds h := by
    show asciiReaders.i256FromStr ds = _
    simp only [asciiReaders]
    split
    · exact absurd (h.2 '+' List.mem_cons_self) (by decide)
    · exact absurd (h.2 '-' List.mem_cons_self) (by decide)
    · exact if_pos h
  i256_plus ds h := if_pos h
  i256_minus ds h := if_pos h
  lowercase_ascii _ _ := rfl
  lowercase_hex s h := by
    -- the first two characters become a zero and an x
    match s, h with
    | [], h => simp [asciiReaders] at h
    | [c], h => simp [asciiReaders] at h
    | c :: d :: s, h =>
      simp only [asciiReaders, List.map_cons] at h
      have hZero : c.toLower = '0' := by
        obtain ⟨t, ht⟩ := h
        exact (List.cons.inj ht).1.symm
      have hX : d.toLower = 'x' := by
        obtain ⟨t, ht⟩ := h
        exact (List.cons.inj (List.cons.inj ht).2).1.symm
      have hc : c = '0' := by
        rcases toLower_cases c with hSame | ⟨hLow, hHigh, hNat⟩
        · exact hSame.symm.trans hZero
        · rw [hZero] at hNat
          have : ('0' : Char).toNat = 48 := rfl
          omega
      have hd : d = 'x' ∨ d = 'X' := by
        rcases toLower_cases d with hSame | ⟨hLow, hHigh, hNat⟩
        · exact Or.inl (hSame.symm.trans hX)
        · rw [hX] at hNat
          have hNumber : ('x' : Char).toNat = 120 := rfl
          right
          refine Char.toNat_inj.mp ?_
          show d.toNat = 88
          omega
      rcases hd with rfl | rfl
      · subst hc
        rfl
      · subst hc
        rfl

end Rindexer.Filter
