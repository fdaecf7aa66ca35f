import Rindexer.Filter.Readers
import Rindexer.SqlTypes.Encoding

/-! The texts of types as their readers take them apart: brackets at the end, and the width of an
integer.  From these come the kind of values and the column of an integer type and of its arrays. -/

namespace Rindexer.SqlTypes

open Rindexer.Database (parseSolidityIntegerType trimBrackets solidityTypeToDbType)
open Rindexer.Filter (IsDigits isDigits_toString decimalValue_toString)
open Rindexer.Manifest (ABIInput)

/-! ### Brackets -/

theorem brackets_of_last {text : List Char} (h : text.getLast? ≠ some ']') :
    "[]".toList.isSuffixOf text = false ∧ (trimBrackets text.reverse).reverse = text := by
  rw [List.getLast?_eq_head?_reverse] at h
  rw [← List.reverse_reverse text]
  generalize text.reverse = reversed at h
  constructor
  · rw [Bool.eq_false_iff]
    intro hSuffix
    rw [List.isSuffixOf, List.reverse_reverse] at hSuffix
    cases reversed with
    | nil => cases hSuffix
    | cons c rest =>
      have hc : c = ']' := by
        by_contra hNe
        simp [Ne.symm hNe] at hSuffix
      exact h (congrArg some hc)
  · rw [List.reverse_reverse, trimBrackets]
    rintro rest rfl
    exact h rfl

theorem brackets_of_array (text : List Char) :
    "[]".toList.isSuffixOf (text ++ ['[', ']']) = true ∧
      (trimBrackets (text ++ ['[', ']']).reverse).reverse = (trimBrackets text.reverse).reverse := by
  constructor
  · simp
  · rw [List.reverse_append]
    rfl

theorem brackets_of_length (text : List Char) (length : Nat) :
    "[]".toList.isSuffixOf (text ++ lengthBrackets length) = false ∧
      (trimBrackets (text ++ lengthBrackets length).reverse).reverse = text ++ lengthBrackets length := by
  rw [lengthBrackets]
  obtain ⟨hSome, hDigits⟩ := isDigits_toString length
  generalize (toString length).toList = digits at hSome hDigits
  obtain ⟨front, last, rfl⟩ : ∃ front last, digits = front ++ [last] :=
    ⟨_, _, (List.dropLast_append_getLast hSome).symm⟩
  have hLast : last ≠ '[' := by
    rintro rfl
    exact absurd (hDigits '[' (by simp)) (by decide)
  have hReverse : (text ++ ('[' :: (front ++ [last]) ++ [']'])).reverse =
      ']' :: last :: (front.reverse ++ '[' :: text.reverse) := by simp
  constructor
  · rw [List.isSuffixOf, hReverse]
    simp [List.isPrefixOf, Ne.symm hLast]
  · have hTrim : trimBrackets (']' :: last :: (front.reverse ++ '[' :: text.reverse)) =
        ']' :: last :: (front.reverse ++ '[' :: text.reverse) := by
      rw [trimBrackets]
      intro rest hEq
      cases hEq
      exact hLast rfl
    rw [hReverse, hTrim, ← hReverse, List.reverse_reverse]

/-! ### Integers -/

/-- An integer type: its width is one of Solidity's. -/
structure IntegerType where
  isSigned : Bool
  bits : Nat
  width : bits % 8 = 0 ∧ 8 ≤ bits ∧ bits ≤ 256

namespace IntegerType

def type (t : IntegerType) : SolType := if t.isSigned then .int t.bits else .uint t.bits

def text (t : IntegerType) : List Char :=
  (if t.isSigned then "int".toList else "uint".toList) ++ (toString t.bits).toList

theorem text_type (t : IntegerType) : t.type.text = t.text := by
  rw [type, text]
  split <;> rfl

/-- The kind of its values. -/
def kindOf (isSigned : Bool) (bits : Nat) : IntWrapper :=
  if bits ≤ 8 then if isSigned then .i8 else .u8
  else if bits ≤ 16 then if isSigned then .i16 else .u16
  else if bits ≤ 32 then if isSigned then .i32 else .u32
  else if bits ≤ 64 then if isSigned then .i64 else .u64
  else if bits ≤ 128 then if isSigned then .i128 else .u128
  else if isSigned then .i256 else .u256

def kind (t : IntegerType) : IntWrapper := kindOf t.isSigned t.bits

/-- The type of its column. -/
def column (t : IntegerType) : PgBase :=
  if t.bits ≤ 16 then .int2 else if t.bits ≤ 32 then .int4
  else if t.bits ≤ 128 then .numeric else .varchar

theorem intWrapper_eq (t : IntegerType) : intWrapper t.bits t.isSigned = some t.kind := by
  have hWidths : ∀ k < 33, 1 ≤ k → ∀ isSigned,
      intWrapper (8 * k) isSigned = some (kindOf isSigned (8 * k)) := by decide
  obtain ⟨k, hBits⟩ : ∃ k, t.bits = 8 * k := ⟨t.bits / 8, by have := t.width.1; omega⟩
  have hWidth := t.width
  rw [kind, hBits]
  exact hWidths k (by omega) (by omega) t.isSigned

/-! ### What is read from the text -/

/-- The end of a type's text after the integer: nothing or brackets. -/
def Brackets (rest : List Char) : Prop := rest.head? = none ∨ rest.head? = some '['

theorem parseUsize_decimal {n : Nat} (h : n < 2 ^ 64) :
    Database.parseUsize (toString n).toList = some n := by
  obtain ⟨hSome, hDigits⟩ := isDigits_toString n
  have hHead : (toString n).toList.head? ≠ some '+' := by
    intro hPlus
    exact absurd (hDigits _ (List.mem_of_head? hPlus)) (by decide)
  have hValue : Nat.ofDigitChars 10 (toString n).toList 0 = n := decimalValue_toString n
  rw [Database.parseUsize]
  simp only [if_neg hHead, hValue]
  rw [if_pos ⟨hSome, List.all_eq_true.mpr hDigits, h⟩]

theorem takeWhile_brackets {text rest : List Char} (hText : '[' ∉ text) (hRest : Brackets rest) :
    (text ++ rest).takeWhile (· ≠ '[') = text := by
  rw [List.takeWhile_append_of_pos]
  · cases rest with
    | nil => simp
    | cons c rest =>
      obtain hEnd | hOpen := hRest
      · cases hEnd
      · cases hOpen
        simp
  · intro c hc
    exact decide_eq_true fun hOpen => hText (hOpen ▸ hc)

theorem not_mem_decimal {c : Char} (hc : c.isDigit = false) (n : Nat) : c ∉ (toString n).toList := by
  intro hMem
  rw [(isDigits_toString n).2 c hMem] at hc
  cases hc

theorem bracket_not_mem_text (t : IntegerType) : '[' ∉ t.text := by
  have hDecimal := @not_mem_decimal '[' (by decide) t.bits
  rw [text, List.mem_append, not_or]
  refine ⟨?_, hDecimal⟩
  cases t.isSigned <;> decide

theorem parseSolidityIntegerType_text (t : IntegerType) {rest : List Char} (h : Brackets rest) :
    parseSolidityIntegerType (t.text ++ rest) = some t.bits := by
  have hParsed := @parseUsize_decimal t.bits (by have := t.width.2.2; omega)
  rw [parseSolidityIntegerType]
  simp only [takeWhile_brackets t.bracket_not_mem_text h]
  rw [text]
  cases t.isSigned
  · exact hParsed
  · exact hParsed

theorem text_ne (t : IntegerType) (rest : List Char) :
    t.text ++ rest ≠ "string".toList ∧ t.text ++ rest ≠ "address".toList ∧
      t.text ++ rest ≠ "bool".toList ∧ "bytes".toList.isPrefixOf (t.text ++ rest) = false ∧
      "tuple[".toList.isPrefixOf (t.text ++ rest) = false := by
  rw [text]
  cases t.isSigned <;> simp [List.isPrefixOf]

theorem isPrefixOf_text (t : IntegerType) (rest : List Char) :
    "int".toList.isPrefixOf (t.text ++ rest) = t.isSigned ∧
      "uint".toList.isPrefixOf (t.text ++ rest) = !t.isSigned := by
  rw [text]
  cases t.isSigned <;> simp [List.isPrefixOf]

/-! ### Integers alone and in arrays -/

inductive Shape
  | alone
  | array
  | fixed (length : Nat)
deriving DecidableEq

namespace Shape

def type (shape : Shape) (t : IntegerType) : SolType :=
  match shape with
  | alone => t.type
  | array => .array t.type
  | fixed length => .fixedArray t.type length

def brackets : Shape → List Char
  | alone => []
  | array => ['[', ']']
  | fixed length => SqlTypes.lengthBrackets length

def isArray : Shape → Bool
  | array => true
  | _ => false

/-- What is left of the brackets without those of an array. -/
def lengthBrackets : Shape → List Char
  | fixed length => SqlTypes.lengthBrackets length
  | _ => []

theorem text_type (shape : Shape) (t : IntegerType) :
    (shape.type t).text = t.text ++ shape.brackets := by
  cases shape with
  | alone => rw [Shape.type, brackets, List.append_nil, t.text_type]
  | array => rw [Shape.type, brackets, SolType.text, t.text_type]
  | fixed length =>
    rw [Shape.type, brackets, SolType.text, t.text_type]

theorem brackets_lengthBrackets (shape : Shape) : Brackets shape.lengthBrackets := by
  cases shape <;> simp [Brackets, lengthBrackets, SqlTypes.lengthBrackets]

end Shape

theorem getLast?_text_ne (t : IntegerType) : t.text.getLast? ≠ some ']' := by
  intro hLast
  have hSome := (isDigits_toString t.bits).1
  rw [text, List.getLast?_append_of_ne_nil _ hSome] at hLast
  exact not_mem_decimal (by decide) t.bits (List.mem_of_getLast? hLast)

theorem brackets_of_shape (t : IntegerType) (shape : Shape) :
    "[]".toList.isSuffixOf (t.text ++ shape.brackets) = shape.isArray ∧
      (trimBrackets (t.text ++ shape.brackets).reverse).reverse = t.text ++ shape.lengthBrackets := by
  have hPlain := brackets_of_last t.getLast?_text_ne
  cases shape with
  | alone =>
    rw [Shape.brackets, List.append_nil]
    exact ⟨hPlain.1, hPlain.2.trans (List.append_nil _).symm⟩
  | array =>
    have hArray := brackets_of_array t.text
    refine ⟨hArray.1, hArray.2.trans (hPlain.2.trans ?_)⟩
    simp [Shape.lengthBrackets]
  | fixed length => exact brackets_of_length t.text length

theorem wrapper_of_text (t : IntegerType) {abiType rest : List Char} {isArray : Bool}
    (hArray : "[]".toList.isSuffixOf abiType = isArray)
    (hTrim : (trimBrackets abiType.reverse).reverse = t.text ++ rest) (hRest : Brackets rest) :
    solidityTypeToEthereumSqlTypeWrapper abiType =
      .ok (some (if isArray then .vecInt t.kind [] else .int t.kind 0)) := by
  obtain ⟨hString, hAddress, hBool, hBytes, -⟩ := t.text_ne rest
  obtain ⟨hInt, hUint⟩ := t.isPrefixOf_text rest
  have hParsed := t.parseSolidityIntegerType_text hRest
  rw [solidityTypeToEthereumSqlTypeWrapper]
  simp only [hArray, hTrim]
  rw [if_neg hString, if_neg hAddress, if_neg hBool, hBytes, if_neg (by decide), hInt, hUint,
    Bool.or_not_self, if_pos rfl, hParsed]
  simp only [t.intWrapper_eq, Option.map_some]

theorem wrapper_of_shape (t : IntegerType) (shape : Shape) :
    solidityTypeToEthereumSqlTypeWrapper (t.text ++ shape.brackets) =
      .ok (some (if shape.isArray then .vecInt t.kind [] else .int t.kind 0)) :=
  t.wrapper_of_text (t.brackets_of_shape shape).1 (t.brackets_of_shape shape).2
    shape.brackets_lengthBrackets

/-- The column definition of a type that integers are stored in. -/
def columnText : PgBase → String
  | .int2 => "SMALLINT"
  | .int4 => "INTEGER"
  | .numeric => "NUMERIC"
  | _ => "VARCHAR(78)"

theorem columnType_columnText (t : IntegerType) (isArray : Bool) :
    columnType (if !isArray then columnText t.column else columnText t.column ++ "[]") =
      some (if isArray then .array t.column else .base t.column) := by
  have hColumns : t.column ∈ [PgBase.int2, .int4, .numeric, .varchar] := by
    rw [column]
    split_ifs <;> decide
  generalize t.column = column at hColumns
  revert isArray column
  decide

theorem dbType_bits (t : IntegerType) :
    (if t.bits ∈ [8, 16] then some "SMALLINT"
      else if t.bits ∈ [24, 32] then some "INTEGER"
      else if t.bits % 8 = 0 ∧ 40 ≤ t.bits ∧ t.bits ≤ 128 then some "NUMERIC"
      else if t.bits % 8 = 0 ∧ 136 ≤ t.bits ∧ t.bits ≤ 256 then some "VARCHAR(78)"
      else none) = some (columnText t.column) := by
  obtain ⟨hBytes, hLow, hHigh⟩ := t.width
  rw [column]
  simp only [List.mem_cons, List.not_mem_nil, or_false]
  by_cases h16 : t.bits ≤ 16
  · rw [if_pos h16, if_pos (by omega)]
    rfl
  · rw [if_neg h16, if_neg (by omega)]
    by_cases h32 : t.bits ≤ 32
    · rw [if_pos h32, if_pos (by omega)]
      rfl
    · rw [if_neg h32, if_neg (by omega)]
      by_cases h128 : t.bits ≤ 128
      · rw [if_pos h128, if_pos (by omega)]
        rfl
      · rw [if_neg h128, if_neg (by omega), if_pos (by omega)]
        rfl

theorem columnType_of_shape (t : IntegerType) (shape : Shape) :
    (solidityTypeToDbType (t.text ++ shape.brackets)).bind columnType =
      some (if shape.isArray then .array t.column else .base t.column) := by
  obtain ⟨hArray, hTrim⟩ := t.brackets_of_shape shape
  obtain ⟨hString, hAddress, hBool, hBytes, -⟩ := t.text_ne shape.lengthBrackets
  have hTuple := (t.text_ne shape.brackets).2.2.2.2
  obtain ⟨hInt, hUint⟩ := t.isPrefixOf_text shape.lengthBrackets
  have hParsed := t.parseSolidityIntegerType_text shape.brackets_lengthBrackets
  rw [solidityTypeToDbType]
  simp only [hTuple, hArray, hTrim]
  rw [if_neg (by decide), if_neg hAddress, if_neg hBool, if_neg hString, hBytes, if_neg (by decide),
    hInt, hUint, Bool.or_not_self, if_pos rfl, hParsed, Option.bind_some, t.dbType_bits,
    Option.map_some, Option.bind_some, if_neg hAddress]
  exact t.columnType_columnText shape.isArray

end IntegerType

end Rindexer.SqlTypes
