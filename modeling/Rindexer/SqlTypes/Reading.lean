import Rindexer.Lib.Decimal
import Rindexer.SqlTypes.Storing
import Rindexer.SqlTypes.TypeTexts

/-! What the columns read of texts, of integers of each kind and of numbers that other encoders wrote. -/

namespace Rindexer.SqlTypes

open Rindexer.Filter (JsonValue)
open Rindexer.Lib

/-! ### Texts -/

theorem readText_utf8 (s : List Char) :
    readText (utf8 s) = if '\x00' ∈ s then none else some s := by
  have hBytes : (utf8 s).toByteArray = s.utf8Encode := rfl
  rw [readText, hBytes, List.utf8Decode?_utf8Encode, Option.bind_some]

theorem length_utf8_le (s : List Char) : (utf8 s).length ≤ 4 * s.length := by
  induction s with
  | nil => simp [utf8]
  | cons c s ih =>
    have hChar : (String.utf8EncodeChar c).length ≤ 4 := by
      rw [String.length_utf8EncodeChar]
      exact Char.utf8Size_le_four c
    rw [utf8, List.flatMap_cons, List.length_append, List.length_cons]
    rw [utf8] at ih
    omega

theorem length_decimalText {n : Int} (hLow : -2 ^ 255 ≤ n) (hHigh : n < 2 ^ 256) :
    (decimalText n).length ≤ 78 := by
  cases n with
  | ofNat n =>
    have hText : decimalText (Int.ofNat n) = Nat.toDigits 10 n := toList_toString_nat n
    rw [hText]
    apply Nat.toDigits_length 10 n 78 (by omega)
    rw [Int.ofNat_eq_natCast] at hHigh
    omega
  | negSucc n =>
    have hText : decimalText (Int.negSucc n) = '-' :: Nat.toDigits 10 (n + 1) := by
      rw [decimalText, toList_toString_negSucc, toList_toString_nat]
    rw [hText, List.length_cons]
    have hDigits : (Nat.toDigits 10 (n + 1)).length ≤ 77 := by
      apply Nat.toDigits_length 10 (n + 1) 77 (by omega)
      rw [Int.negSucc_eq] at hLow
      omega
    omega

theorem zero_not_mem_decimalText (n : Int) : '\x00' ∉ decimalText n := by
  intro hMem
  rcases digit_or_minus_of_mem_toString hMem with hDigit | hMinus
  · exact absurd hDigit (by decide)
  · exact absurd hMinus (by decide)

theorem readText_decimalText (n : Int) : readText (utf8 (decimalText n)) = some (decimalText n) := by
  rw [readText_utf8, if_neg (zero_not_mem_decimalText n)]

/-! ### Numbers -/

theorem readNumeric_of_reads {bytes : List UInt8} {i : Int} (h : Reads bytes i) :
    readNumeric bytes = some (i : ℚ) := by
  obtain ⟨image, hImage, hForm, hValue, -⟩ := h.image
  rw [readNumeric, hImage, Option.bind_some]
  exact (if_pos hForm).trans (congrArg some hValue)

theorem length_writeNumericToPostgres (value : Fin (2 ^ 128)) (isNegative : Bool) :
    (writeNumericToPostgres value isNegative).length < 2 ^ 31 := by
  have hLength (groups : List Nat) :
      (groups.flatMap fun group : Nat => putI16 group).length = 2 * groups.length := by
    induction groups with
    | nil => rfl
    | cons group groups ih =>
      rw [List.flatMap_cons, List.length_append, ih, putI16, length_bigEndianInt, List.length_cons]
      omega
  have hHeader (i : Int) : (putI16 i).length = 2 := length_bigEndianInt 2 i
  have hDigits := digits_length_lt (value.isLt.trans (by norm_num))
  rw [writeNumericToPostgres, writeGroups, convertToBase10000NumericDigits, pushGroups_eq,
    List.nil_append]
  split
  · simp [hHeader]
  · simp only [List.length_append, hLength, List.length_reverse, hHeader]
    omega

/-- A reader takes no eight bytes as a number other than zero. -/
theorem readNumeric_of_length {bytes : List UInt8} (hLength : bytes.length = 8) {q : ℚ}
    (h : readNumeric bytes = some q) : q = 0 := by
  obtain ⟨a, b, c, d, e, f, g, i, rfl⟩ :
      ∃ a b c d e f g i, bytes = [a, b, c, d, e, f, g, i] := by
    match bytes, hLength with
    | [a, b, c, d, e, f, g, i], _ => exact ⟨a, b, c, d, e, f, g, i, rfl⟩
  have hImage : readNumericImage [a, b, c, d, e, f, g, i] = some ⟨ofBigEndianInt [a, b],
      ofBigEndianInt [c, d], ofBigEndianInt [e, f], ofBigEndianInt [g, i], []⟩ := rfl
  rw [readNumeric, hImage, Option.bind_some] at h
  split at h
  · rw [← Option.some.inj h]
    simp [NumericImage.value, digitsValue]
  · cases h

/-- The documented behaviour of the encoder of decimals. -/
structure Encoders.Documented (encoders : Encoders) : Prop where
  decimal : ∀ n < 2 ^ 64, readNumeric (encoders.decimal n) = some (n : ℚ)
  decimal_length : ∀ n < 2 ^ 64, (encoders.decimal n).length < 2 ^ 31

/-! ### Kinds of integers -/

/-- The value is the number, or the text of it. -/
def PgValue.Denotes (n : Int) : PgValue → Prop
  | number q => q = n
  | text s => s = decimalText n
  | _ => False

namespace IntWrapper

/-- The integers of a kind. -/
def Range (n : Int) : IntWrapper → Prop
  | u8 => 0 ≤ n ∧ n < 2 ^ 8
  | i8 => -2 ^ 7 ≤ n ∧ n < 2 ^ 7
  | u16 => 0 ≤ n ∧ n < 2 ^ 16
  | i16 => -2 ^ 15 ≤ n ∧ n < 2 ^ 15
  | u32 => 0 ≤ n ∧ n < 2 ^ 32
  | i32 => -2 ^ 31 ≤ n ∧ n < 2 ^ 31
  | u64 => 0 ≤ n ∧ n < 2 ^ 64
  | i64 => -2 ^ 63 ≤ n ∧ n < 2 ^ 63
  | u128 => 0 ≤ n ∧ n < 2 ^ 128
  | i128 => -2 ^ 127 ≤ n ∧ n < 2 ^ 127
  | u256 => 0 ≤ n ∧ n < 2 ^ 256
  | i256 => -2 ^ 255 ≤ n ∧ n < 2 ^ 255

/-- The column that a type of this kind has. -/
def column : IntWrapper → PgBase
  | u8 | i8 | u16 | i16 => .int2
  | u32 | i32 => .int4
  | u64 | i64 | u128 | i128 => .numeric
  | u256 | i256 => .varchar

/-- The integers of a kind that its column gives back. -/
def Survives (n : Int) : IntWrapper → Prop
  | u16 => n < 2 ^ 15
  | u32 => n < 2 ^ 31
  | i64 => n = 0
  | _ => True

end IntWrapper

section Kinds

variable {encoders : Encoders} (readJson : List UInt8 → Option JsonValue)

theorem writeNumber_reads {n : Int} (h : n.natAbs < 2 ^ 128) : Reads (writeNumber n) n := by
  have hReads := reads_writeNumericToPostgres (Fin.ofNat (2 ^ 128) n.natAbs) (n < 0)
  rw [Fin.val_ofNat, Nat.mod_eq_of_lt h, sign_mul_natAbs] at hReads
  exact hReads

theorem readBase_int2 {n i : Int} :
    (∃ value, readBase readJson .int2 (bigEndianInt 2 i) = some value ∧ value.Denotes n) ↔
      i.bmod (256 ^ 2) = n := by
  have hRead : readBase readJson .int2 (bigEndianInt 2 i) =
      some (.number (ofBigEndianInt (bigEndianInt 2 i) : ℤ)) := by
    rw [readBase]
    exact if_pos (length_bigEndianInt 2 i)
  rw [hRead, ofBigEndianInt_bigEndianInt]
  simp [PgValue.Denotes]

theorem readBase_int4 {n i : Int} :
    (∃ value, readBase readJson .int4 (bigEndianInt 4 i) = some value ∧ value.Denotes n) ↔
      i.bmod (256 ^ 4) = n := by
  have hRead : readBase readJson .int4 (bigEndianInt 4 i) =
      some (.number (ofBigEndianInt (bigEndianInt 4 i) : ℤ)) := by
    rw [readBase]
    exact if_pos (length_bigEndianInt 4 i)
  rw [hRead, ofBigEndianInt_bigEndianInt]
  simp [PgValue.Denotes]

theorem readBase_numeric {bytes : List UInt8} {n : Int} (h : readNumeric bytes = some (n : ℚ)) :
    ∃ value, readBase readJson .numeric bytes = some value ∧ value.Denotes n :=
  ⟨.number n, by rw [readBase, h, Option.map_some], rfl⟩

theorem readBase_varchar {n : Int} (hLow : -2 ^ 255 ≤ n) (hHigh : n < 2 ^ 256) :
    ∃ value, readBase readJson .varchar (utf8 (decimalText n)) = some value ∧ value.Denotes n := by
  refine ⟨.text (decimalText n), ?_, rfl⟩
  rw [readBase, readText_decimalText, Option.bind_some, if_pos (length_decimalText hLow hHigh)]

/-- Eight bytes of an integer are not a number of the column, except for those of zero. -/
theorem readBase_eight (n : Int) :
    (∃ value, readBase readJson .numeric (bigEndianInt 8 n) = some value ∧ value.Denotes n) ↔
      n = 0 := by
  constructor
  · rintro ⟨value, hRead, hDenotes⟩
    obtain ⟨q, hNumber, rfl⟩ := Option.map_eq_some_iff.mp hRead
    have hZero := readNumeric_of_length (length_bigEndianInt 8 n) hNumber
    rw [PgValue.Denotes, hZero] at hDenotes
    exact_mod_cast hDenotes.symm
  · rintro rfl
    apply readBase_numeric
    have hBytes : bigEndianInt 8 0 = List.replicate 8 0 := by decide
    have hImage : readNumericImage (List.replicate 8 0) = some ⟨0, 0, 0, 0, []⟩ := by decide
    rw [hBytes, readNumeric, hImage, Option.bind_some]
    simp [NumericImage.value, digitsValue]

/-- A number without a sign keeps its value as a signed one if it is in the lower half. -/
theorem bmod_eq_self_iff {half : Nat} {n : Int} (hLow : 0 ≤ n) (hHalf : half ≠ 0) :
    n.bmod (2 * half) = n ↔ n < half := by
  constructor
  · intro hSame
    have hHigh := @Int.bmod_lt n (2 * half) (by omega)
    rw [hSame] at hHigh
    omega
  · intro hHigh
    exact Int.bmod_eq_of_le (by omega) (by omega)

theorem reads_intToSql (hDoc : encoders.Documented) {kind : IntWrapper} {n : Int}
    (hRange : kind.Range n) :
    (∃ value, readBase readJson kind.column (intToSql encoders kind n) = some value ∧
      value.Denotes n) ↔ kind.Survives n := by
  have h2 : (256 : Nat) ^ 2 = 65536 := by norm_num
  have h4 : (256 : Nat) ^ 4 = 4294967296 := by norm_num
  cases kind <;> simp only [IntWrapper.Range] at hRange <;>
    simp only [IntWrapper.column, intToSql, IntWrapper.Survives]
  case u8 | i8 | i16 =>
    rw [readBase_int2, h2]
    exact iff_of_true (Int.bmod_eq_of_le (by omega) (by omega)) trivial
  case u16 =>
    have hBmod : (lowSigned 16 n).bmod (256 ^ 2) = n.bmod (2 * 2 ^ 15) := Int.bmod_bmod
    rw [readBase_int2, hBmod, bmod_eq_self_iff hRange.1 (by omega)]
    norm_num
  case i32 =>
    rw [readBase_int4, h4]
    exact iff_of_true (Int.bmod_eq_of_le (by omega) (by omega)) trivial
  case u32 =>
    have hBmod : (lowSigned 32 n).bmod (256 ^ 4) = n.bmod (2 * 2 ^ 31) := Int.bmod_bmod
    rw [readBase_int4, hBmod, bmod_eq_self_iff hRange.1 (by omega)]
    norm_num
  case u64 =>
    have hNumber := hDoc.decimal n.toNat (by omega)
    have hCast : ((n.toNat : ℕ) : ℚ) = (n : ℚ) := by
      rw [← Int.cast_natCast, Int.toNat_of_nonneg hRange.1]
    rw [hCast] at hNumber
    exact iff_of_true (readBase_numeric readJson hNumber) trivial
  case i64 => exact readBase_eight readJson n
  case u128 | i128 =>
    exact iff_of_true (readBase_numeric readJson (readNumeric_of_reads (writeNumber_reads (by omega))))
      trivial
  case u256 | i256 =>
    exact iff_of_true (readBase_varchar readJson (by omega) (by omega)) trivial

end Kinds

end Rindexer.SqlTypes
