import Rindexer.SqlTypes.Reading

/-! The columns of integer parameters and of their arrays: which integers they give back. -/

namespace Rindexer.SqlTypes

open Rindexer.Filter (JsonValue U256)
open Rindexer.Lib
open Rindexer.Tables (Panic)

namespace IntegerType

/-- The integers of the type. -/
def InRange (t : IntegerType) (n : Int) : Prop :=
  if t.isSigned then -2 ^ (t.bits - 1) ≤ n ∧ n < 2 ^ (t.bits - 1) else 0 ≤ n ∧ n < 2 ^ t.bits

/-- The decoded integer. -/
def token (t : IntegerType) (n : Int) : DynSolValue :=
  if t.isSigned then .int n t.bits else .uint (Fin.ofNat (2 ^ 256) n.toNat) t.bits

/-- The integers that are stored exactly: the upper halves of `uint16` and `uint32` become negative, and
signed types of 40 to 64 bits lose everything but zero. -/
def Survives (t : IntegerType) (n : Int) : Prop :=
  (t.isSigned = false → t.bits = 16 → n < 2 ^ 15) ∧
  (t.isSigned = false → t.bits = 32 → n < 2 ^ 31) ∧
  (t.isSigned = true → 40 ≤ t.bits → t.bits ≤ 64 → n = 0)

/-- The arrays that are stored at all: those of wide signed types never are, and those of 40 to 64 bits
only by a query. -/
def ArrayFits (t : IntegerType) (path : WritePath) : Prop :=
  t.isSigned = true → t.bits < 136 ∧ (40 ≤ t.bits → t.bits ≤ 64 → path = .query)

instance (t : IntegerType) (n : Int) : Decidable (t.InRange n) := by
  unfold InRange
  infer_instance

instance (t : IntegerType) (n : Int) : Decidable (t.Survives n) := by
  unfold Survives
  infer_instance

theorem column_kind (t : IntegerType) : t.column = t.kind.column := by
  rw [column, kind, kindOf]
  cases t.isSigned <;> split_ifs <;> first | rfl | omega

theorem range_kind {t : IntegerType} {n : Int} (h : t.InRange n) : t.kind.Range n := by
  have hPow {a b : Nat} (hab : a ≤ b) : (2 : Int) ^ a ≤ 2 ^ b := by gcongr; omega
  have hWidth := t.width
  rw [InRange] at h
  rw [kind, kindOf]
  cases hSigned : t.isSigned with
  | true =>
    rw [hSigned, if_pos rfl] at h
    have hFits {b : Nat} (hb : t.bits - 1 ≤ b) : -2 ^ b ≤ n ∧ n < 2 ^ b :=
      ⟨(neg_le_neg (hPow hb)).trans h.1, h.2.trans_le (hPow hb)⟩
    simp only [if_true]
    split_ifs
    · exact @hFits 7 (by omega)
    · exact @hFits 15 (by omega)
    · exact @hFits 31 (by omega)
    · exact @hFits 63 (by omega)
    · exact @hFits 127 (by omega)
    · exact @hFits 255 (by omega)
  | false =>
    rw [hSigned, if_neg (by decide)] at h
    have hFits {b : Nat} (hb : t.bits ≤ b) : 0 ≤ n ∧ n < 2 ^ b := ⟨h.1, h.2.trans_le (hPow hb)⟩
    simp only [Bool.false_eq_true, if_false]
    split_ifs
    · exact @hFits 8 (by omega)
    · exact @hFits 16 (by omega)
    · exact @hFits 32 (by omega)
    · exact @hFits 64 (by omega)
    · exact @hFits 128 (by omega)
    · exact @hFits 256 (by omega)

theorem survives_kind {t : IntegerType} {n : Int} (h : t.InRange n) :
    t.kind.Survives n ↔ t.Survives n := by
  have hWidth := t.width
  rw [InRange] at h
  rw [Survives, kind, kindOf]
  cases hSigned : t.isSigned with
  | true => split_ifs <;> simp only [IntWrapper.Survives] <;> grind
  | false =>
    rw [hSigned, if_neg (by decide)] at h
    by_cases h24 : t.bits = 24
    · rw [h24] at h ⊢
      refine iff_of_true (h.2.trans (by norm_num)) ⟨?_, ?_, ?_⟩ <;> intros <;> simp_all
    · split_ifs <;> simp only [IntWrapper.Survives] <;> grind

theorem kind_eq_i64_iff (t : IntegerType) :
    t.kind = .i64 ↔ t.isSigned = true ∧ 40 ≤ t.bits ∧ t.bits ≤ 64 := by
  have hWidth := t.width
  rw [kind, kindOf]
  cases t.isSigned <;> simp only [if_true, Bool.false_eq_true, if_false] <;> split_ifs <;> simp <;> omega

theorem kind_eq_i256_iff (t : IntegerType) : t.kind = .i256 ↔ t.isSigned = true ∧ 136 ≤ t.bits := by
  have hWidth := t.width
  rw [kind, kindOf]
  cases t.isSigned <;> simp only [if_true, Bool.false_eq_true, if_false] <;> split_ifs <;> simp <;> omega

/-! ### Conversion -/

/-- The conversion of a number of the type, to the kind of the type. -/
def convert (t : IntegerType) (n : Int) : Except Panic EthereumSqlTypeWrapper :=
  if t.isSigned then convertInt n t.kind else convertUint (Fin.ofNat (2 ^ 256) n.toNat) t.kind

theorem lowBits_of_range {bits : Nat} {n : Int} (hLow : 0 ≤ n) (hHigh : n < 2 ^ bits) :
    lowBits bits n = n := Int.emod_eq_of_lt hLow hHigh

theorem lowSigned_of_range {bits : Nat} {n : Int} (hLow : -2 ^ bits ≤ n) (hHigh : n < 2 ^ bits) :
    lowSigned (bits + 1) n = n := by
  have hCast : ((2 ^ (bits + 1) : Nat) : Int) = 2 * 2 ^ bits := by
    push_cast
    ring
  rw [lowSigned]
  apply Int.bmod_eq_of_le
  · rw [hCast]
    omega
  · rw [hCast]
    omega

theorem signed_kind {t : IntegerType} (h : t.isSigned = true) :
    t.kind ∈ [IntWrapper.i8, .i16, .i32, .i64, .i128, .i256] := by
  rw [kind, kindOf, h]
  split_ifs <;> simp_all

theorem unsigned_kind {t : IntegerType} (h : t.isSigned = false) :
    t.kind ∈ [IntWrapper.u8, .u16, .u32, .u64, .u128, .u256] := by
  rw [kind, kindOf, h]
  split_ifs <;> simp_all

theorem convertInt_eq {kind : IntWrapper} {n : Int} (hRange : kind.Range n)
    (hKind : kind ∈ [IntWrapper.i8, .i16, .i32, .i64, .i128, .i256]) :
    convertInt n kind = if kind = .i64 ∧ n < 0 then .error ⟨⟩ else .ok (.int kind n) := by
  have hSame (bits : Nat) (h : -2 ^ bits ≤ n ∧ n < 2 ^ bits) : lowSigned (bits + 1) n = n :=
    lowSigned_of_range h.1 h.2
  cases kind <;> simp at hKind
  case i8 => rw [convertInt, hSame 7 hRange, if_neg (by simp)]
  case i16 => rw [convertInt, hSame 15 hRange, if_neg (by simp)]
  case i32 => rw [convertInt, hSame 31 hRange, if_neg (by simp)]
  case i64 =>
    rw [convertInt, asU64]
    by_cases hSign : n < 0
    · rw [if_neg (by omega), if_pos ⟨rfl, hSign⟩]
      rfl
    · have hHigh := hRange.2
      rw [if_pos (by omega), if_neg (by simp [hSign]), Except.map, hSame 63 hRange]
  case i128 => rw [convertInt, hSame 127 hRange, if_neg (by simp)]
  case i256 => rfl

theorem convertUint_eq {kind : IntWrapper} {value : U256} (hRange : kind.Range value.val)
    (hKind : kind ∈ [IntWrapper.u8, .u16, .u32, .u64, .u128, .u256]) :
    convertUint value kind = .ok (.int kind value.val) := by
  have hLow32 (h : (value.val : Int) < 2 ^ 32) : lowU32 value = .ok value.val := if_pos (by omega)
  cases kind <;> simp at hKind <;> obtain ⟨hLow, hHigh⟩ := hRange
  case u8 =>
    have hSame : lowBits 8 value.val = value.val := lowBits_of_range hLow hHigh
    rw [convertUint, hLow32 (by omega), Except.map, hSame]
  case u16 =>
    have hSame : lowBits 16 value.val = value.val := lowBits_of_range hLow hHigh
    rw [convertUint, hLow32 (by omega), Except.map, hSame]
  case u32 => rw [convertUint, hLow32 hHigh, Except.map]
  case u64 => rw [convertUint, asU64, if_pos ⟨hLow, hHigh⟩, Except.map]
  case u128 =>
    have hSame : lowBits 128 value.val = value.val := lowBits_of_range hLow hHigh
    rw [convertUint, hSame]
  case u256 => rfl

/-- The conversion keeps a number of the type, but panics for the negative ones of 40 to 64 bits. -/
theorem convert_eq {t : IntegerType} {n : Int} (h : t.InRange n) :
    t.convert n = if t.kind = .i64 ∧ n < 0 then .error ⟨⟩ else .ok (.int t.kind n) := by
  have hRange := range_kind h
  rw [convert]
  cases hSigned : t.isSigned with
  | true =>
    rw [if_pos rfl]
    exact convertInt_eq hRange (signed_kind hSigned)
  | false =>
    rw [InRange, hSigned, if_neg (by decide)] at h
    have hPow : (2 : Int) ^ t.bits ≤ 2 ^ 256 := pow_le_pow_right₀ (by norm_num) t.width.2.2
    have hValue : ((Fin.ofNat (2 ^ 256) n.toNat).val : Int) = n := by
      rw [Fin.val_ofNat, Nat.mod_eq_of_lt (by omega), Int.toNat_of_nonneg h.1]
    have hNot : t.kind ≠ .i64 := by
      intro hKind
      rw [t.kind_eq_i64_iff, hSigned] at hKind
      exact absurd hKind.1 (by decide)
    rw [if_neg (by decide), if_neg (fun hBoth => hNot hBoth.1)]
    have hConverted := @convertUint_eq t.kind (Fin.ofNat (2 ^ 256) n.toNat) (by rwa [hValue])
      (unsigned_kind hSigned)
    rw [hValue] at hConverted
    exact hConverted

/-! ### Decoded integers -/

theorem token_signed {t : IntegerType} (h : t.isSigned = true) (n : Int) :
    t.token n = .int n t.bits := by
  rw [token, if_pos h]

theorem token_unsigned {t : IntegerType} (h : t.isSigned = false) (n : Int) :
    t.token n = .uint (Fin.ofNat (2 ^ 256) n.toNat) t.bits := by
  rw [token, if_neg (by rw [h]; decide)]

theorem targetKind_of_shape (t : IntegerType) (shape : Shape) (name : List Char)
    (indexed : Option Bool) : targetKind ((shape.type t).input name indexed) = .ok t.kind := by
  have hType : ((shape.type t).input name indexed).type = t.text ++ shape.brackets :=
    shape.text_type t
  rw [targetKind, hType, t.wrapper_of_shape]
  cases shape.isArray <;> rfl

theorem mapLogToken_alone (t : IntegerType) (name : List Char) (indexed : Option Bool) (n : Int) :
    mapLogTokenToEthereumWrapper (t.type.input name indexed) (t.token n) =
      (t.convert n).map ([·]) := by
  have hKind := t.targetKind_of_shape .alone name indexed
  rw [Shape.type] at hKind
  rw [token, convert]
  cases t.isSigned with
  | true =>
    rw [if_pos rfl, if_pos rfl, mapLogTokenToEthereumWrapper, mapDynamicIntToEthereumSqlTypeWrapper,
      hKind, Except.bind]
  | false =>
    rw [if_neg (by decide), if_neg (by decide), mapLogTokenToEthereumWrapper,
      mapDynamicUintToEthereumSqlTypeWrapper, hKind, Except.bind]

theorem convertElement_token {t : IntegerType} {n : Int} (h : t.InRange n) :
    convertElement t.kind (t.token n) = if t.kind = .i64 ∧ n < 0 then .error ⟨⟩ else .ok n := by
  have hConvert := convert_eq h
  rw [convert] at hConvert
  cases hSigned : t.isSigned with
  | true =>
    rw [hSigned, if_pos rfl] at hConvert
    rw [token_signed hSigned, convertElement, hConvert]
    split
    · rfl
    · exact if_pos rfl
  | false =>
    rw [hSigned, if_neg (by decide)] at hConvert
    rw [token_unsigned hSigned, convertElement, hConvert]
    split
    · rfl
    · exact if_pos rfl

theorem mapM_convertElement {t : IntegerType} {ns : List Int} (h : ∀ n ∈ ns, t.InRange n) :
    (ns.map t.token).mapM (convertElement t.kind) =
      if t.kind = .i64 ∧ ∃ n ∈ ns, n < 0 then .error ⟨⟩ else .ok ns := by
  induction ns with
  | nil =>
    rw [if_neg (by simp)]
    rfl
  | cons n ns ih =>
    have hFirst := convertElement_token (h n List.mem_cons_self)
    have hRest := ih fun m hm => h m (List.mem_cons_of_mem _ hm)
    rw [List.map_cons, List.mapM_cons, hFirst, hRest]
    by_cases hKind : t.kind = .i64
    · by_cases hSign : n < 0
      · have hAny : ∃ m ∈ n :: ns, m < 0 := ⟨n, List.mem_cons_self, hSign⟩
        rw [if_pos ⟨hKind, hSign⟩, if_pos (And.intro hKind hAny)]
        rfl
      · rw [if_neg (fun hBoth => hSign hBoth.2)]
        by_cases hOther : ∃ m ∈ ns, m < 0
        · have hAny : ∃ m ∈ n :: ns, m < 0 := by
            obtain ⟨m, hm, hNeg⟩ := hOther
            exact ⟨m, List.mem_cons_of_mem _ hm, hNeg⟩
          rw [if_pos (And.intro hKind hOther), if_pos (And.intro hKind hAny)]
          rfl
        · have hNone : ¬ ∃ m ∈ n :: ns, m < 0 := by
            rintro ⟨m, hm, hNeg⟩
            rcases List.mem_cons.mp hm with rfl | hm
            · exact hSign hNeg
            · exact hOther ⟨m, hm, hNeg⟩
          rw [if_neg (fun hBoth => hOther hBoth.2), if_neg (fun hBoth => hNone hBoth.2)]
          rfl
    · rw [if_neg (fun hBoth => hKind hBoth.1), if_neg (fun hBoth => hKind hBoth.1),
        if_neg (fun hBoth => hKind hBoth.1)]
      rfl

theorem mapArray_tokens {t : IntegerType} (shape : Shape) (name : List Char) (indexed : Option Bool)
    {ns : List Int} (hSome : ns ≠ []) (h : ∀ n ∈ ns, t.InRange n) :
    mapArray ((shape.type t).input name indexed) (ns.map t.token) =
      if t.kind = .i64 ∧ ∃ n ∈ ns, n < 0 then .error ⟨⟩ else .ok [.vecInt t.kind ns] := by
  have hKind := t.targetKind_of_shape shape name indexed
  have hTokens : mapArray ((shape.type t).input name indexed) (ns.map t.token) =
      ((ns.map t.token).mapM (convertElement t.kind)).map fun ns => [.vecInt t.kind ns] := by
    cases ns with
    | nil => exact absurd rfl hSome
    | cons n ns =>
      rw [List.map_cons]
      cases hSigned : t.isSigned with
      | true => rw [token_signed hSigned, mapArray, hKind, Except.bind]
      | false => rw [token_unsigned hSigned, mapArray, hKind, Except.bind]
  rw [hTokens, mapM_convertElement h]
  split <;> rfl

end IntegerType

/-! ### Arrays of a kind -/

section Kinds

variable {encoders : Encoders} (readJson : List UInt8 → Option JsonValue)

theorem length_intToSql (hDoc : encoders.Documented) {kind : IntWrapper} {n : Int}
    (hRange : kind.Range n) : (intToSql encoders kind n).length < 2 ^ 31 := by
  cases kind <;> simp only [IntWrapper.Range] at hRange <;> rw [intToSql]
  case u64 => exact hDoc.decimal_length n.toNat (by omega)
  case u128 | i128 => exact length_writeNumericToPostgres _ _
  case u256 | i256 =>
    have hText := @length_decimalText n (by omega) (by omega)
    have hBytes := length_utf8_le (decimalText n)
    omega
  all_goals
    rw [length_bigEndianInt]
    norm_num

theorem utf8EncodeChar_ascii {c : Char} (h : c.toNat < 128) :
    String.utf8EncodeChar c = [UInt8.ofNat c.toNat] := by
  have hLow : c.val.toNat ≤ 127 := by
    change c.toNat ≤ 127
    omega
  rw [String.utf8EncodeChar]
  exact if_pos hLow

theorem first_of_decimalText (n : Int) : ∃ c rest,
    decimalText n = c :: rest ∧ 2 ≤ c.toNat ∧ c.toNat < 128 := by
  have hMem {c : Char} (h : c ∈ decimalText n) : 2 ≤ c.toNat ∧ c.toNat < 128 := by
    rcases digit_or_minus_of_mem_toString h with hDigit | rfl
    · rw [Char.isDigit, Bool.and_eq_true, decide_eq_true_eq, decide_eq_true_eq] at hDigit
      obtain ⟨hLow, hHigh⟩ := hDigit
      rw [ge_iff_le, UInt32.le_iff_toNat_le] at hLow
      rw [UInt32.le_iff_toNat_le] at hHigh
      change 48 ≤ c.toNat at hLow
      change c.toNat ≤ 57 at hHigh
      omega
    · decide
  cases hText : decimalText n with
  | nil => exact absurd hText (by
      cases n with
      | ofNat n => exact (Filter.isDigits_toString n).1
      | negSucc n =>
        rw [decimalText, toList_toString_negSucc]
        exact List.cons_ne_nil _ _)
  | cons c rest => exact ⟨c, rest, rfl, hMem (by rw [hText]; exact List.mem_cons_self)⟩

theorem readArray_joined {ns : List Int} (hSome : ns ≠ []) (member : PgBase) :
    readArray member (readBase readJson member) (utf8 (joinWith ',' (ns.map decimalText))) = none := by
  cases ns with
  | nil => exact absurd rfl hSome
  | cons n ns =>
    obtain ⟨c, rest, hText, hLow, hHigh⟩ := first_of_decimalText n
    obtain ⟨tail, hJoined⟩ : ∃ tail, joinWith ',' ((n :: ns).map decimalText) = c :: tail := by
      cases ns with
      | nil => exact ⟨rest, hText⟩
      | cons m ns =>
        rw [List.map_cons, joinWith_cons _ _ (by simp), hText]
        exact ⟨_, rfl⟩
    have hByte : (UInt8.ofNat c.toNat).toNat = c.toNat := by
      rw [UInt8.toNat_ofNat', Nat.mod_eq_of_lt (by omega)]
    rw [hJoined, utf8, List.flatMap_cons, utf8EncodeChar_ascii hHigh, List.singleton_append]
    exact readArray_of_text (by rw [hByte]; exact ⟨hLow, hHigh⟩)

/-- Reading the array that was written for integers of a kind, in the column of its type. -/
theorem read_intsToSql (hDoc : encoders.Documented) (path : WritePath) {kind : IntWrapper}
    {ns : List Int} (hSome : ns ≠ []) (hRange : ∀ n ∈ ns, kind.Range n) :
    (match intsToSql encoders (path.type (.vecInt kind ns) (.array kind.column)) kind ns with
      | .ok bytes => readArray kind.column (readBase readJson kind.column) bytes
      | .error _ => none) =
    if ns.length < 2 ^ 31 ∧ kind ≠ .i256 ∧ (kind = .i64 → path = .query) then
      (ns.map (intToSql encoders kind)).mapM (readBase readJson kind.column)
    else none := by
  have hElements : ∀ element ∈ ns.map (intToSql encoders kind), element.length < 2 ^ 31 := by
    intro element hMem
    obtain ⟨n, hn, rfl⟩ := List.mem_map.mp hMem
    exact length_intToSql hDoc (hRange n hn)
  have hLength : (ns.map (intToSql encoders kind)).length = ns.length := List.length_map _
  have hRead := @readArray_writeArray (readBase readJson kind.column) _ kind.column hElements
  rw [hLength] at hRead
  by_cases hWide : kind = .i256
  · rw [if_neg (fun hBoth => hBoth.2.1 hWide), hWide]
    exact readArray_joined readJson hSome _
  · by_cases hHand : kind ∈ [IntWrapper.u64, .u128, .i128]
    · have hBytes : ∀ ty, intsToSql encoders ty kind ns =
          .ok (writeArray kind.column.oid (ns.map (intToSql encoders kind))) := by
        intro ty
        cases kind <;> first | rfl | simp at hHand
      have hNot : kind ≠ .i64 := by
        rintro rfl
        simp at hHand
      rw [hBytes]
      simp only [hRead]
      by_cases hShort : ns.length < 2 ^ 31
      · rw [if_pos hShort, if_pos ⟨hShort, hWide, fun h => absurd h hNot⟩]
      · rw [if_neg hShort, if_neg (fun hBoth => hShort hBoth.1)]
    · have hBytes : ∀ ty, intsToSql encoders ty kind ns =
          sliceToSql ty (ns.map (intToSql encoders kind)) := by
        intro ty
        cases kind <;> first | rfl | simp at hHand hWide
      have hSlice {member : PgBase} : sliceToSql (.array member) (ns.map (intToSql encoders kind)) =
          if ns.length < 2 ^ 31 then .ok (writeArray member.oid (ns.map (intToSql encoders kind)))
          else .error .tooLarge := by
        rw [sliceToSql, hLength]
        by_cases hShort : ns.length < 2 ^ 31
        · exact (if_pos ⟨hShort, hElements⟩).trans (if_pos hShort).symm
        · exact (if_neg fun hBoth => hShort hBoth.1).trans (if_neg hShort).symm
      rw [hBytes]
      by_cases hOid : kind = .i64 ∧ path = .copy
      · obtain ⟨rfl, rfl⟩ := hOid
        rw [if_neg (fun hBoth => nomatch hBoth.2.2 rfl)]
        have hRefused := @readArray_of_oid (readBase readJson .numeric)
          (ns.map (intToSql encoders .i64)) .numeric .int8 (by decide)
        change (match sliceToSql (.array .int8) (ns.map (intToSql encoders .i64)) with
          | .ok bytes => readArray .numeric (readBase readJson .numeric) bytes
          | .error _ => none) = none
        rw [hSlice]
        split_ifs
        · exact hRefused
        · rfl
      · have hType : path.type (.vecInt kind ns) (.array kind.column) = .array kind.column := by
          cases path with
          | query => rfl
          | copy => cases kind <;> first | rfl | simp at hHand hOid
        rw [hType, hSlice]
        by_cases hShort : ns.length < 2 ^ 31
        · have hQuery : kind = .i64 → path = .query := by
            intro hKind
            cases path with
            | query => rfl
            | copy => exact absurd ⟨hKind, rfl⟩ hOid
          rw [if_pos hShort, if_pos ⟨hShort, hWide, hQuery⟩]
          exact hRead.trans (if_pos hShort)
        · rw [if_neg hShort, if_neg (fun hBoth => hShort hBoth.1)]

end Kinds

/-! ### What is stored -/

open IntegerType (Shape)

section Stored

variable (encoders : Encoders) (readJson : List UInt8 → Option JsonValue) (path : WritePath)
  (name : List Char) (indexed : Option Bool) (t : IntegerType)

/-- The column of an integer gives it back. -/
def IntegerStored (n : Int) : Prop :=
  ∃ value, storeToken encoders readJson path (t.type.input name indexed) (t.token n) =
    some (.single value) ∧ value.Denotes n

/-- The column of an array gives back its integers. -/
def ArrayStored (ns : List Int) : Prop :=
  ∃ values, storeToken encoders readJson path ((Shape.array.type t).input name indexed)
    (.array (ns.map t.token)) = some (.array values) ∧
    List.Forall₂ (fun n value => value.Denotes n) ns values

/-- The same for an array of fixed length. -/
def FixedArrayStored (ns : List Int) : Prop :=
  ∃ values, storeToken encoders readJson path (((Shape.fixed ns.length).type t).input name indexed)
    (.fixedArray (ns.map t.token)) = some (.array values) ∧
    List.Forall₂ (fun n value => value.Denotes n) ns values

variable {encoders t}

theorem storeToken_of_shape (shape : Shape) (token : DynSolValue) :
    storeToken encoders readJson path ((shape.type t).input name indexed) token =
      match mapLogTokenToEthereumWrapper ((shape.type t).input name indexed) token with
      | .ok [wrapper] => storeWrapper encoders readJson path
          (if shape.isArray then .array t.column else .base t.column) wrapper
      | _ => none := by
  have hType : ((shape.type t).input name indexed).type = t.text ++ shape.brackets :=
    shape.text_type t
  rw [storeToken, hType, t.columnType_of_shape, Option.bind_some]
  all_goals rfl

theorem integerStored_iff (hDoc : encoders.Documented) {n : Int} (h : t.InRange n) :
    IntegerStored encoders readJson path name indexed t n ↔ t.Survives n := by
  have hRead := reads_intToSql readJson hDoc (IntegerType.range_kind h)
  have hStore := @storeToken_of_shape encoders readJson path name indexed t .alone (t.token n)
  rw [Shape.type, t.mapLogToken_alone, IntegerType.convert_eq h] at hStore
  rw [IntegerStored, hStore, ← IntegerType.survives_kind h, ← hRead]
  by_cases hPanic : t.kind = .i64 ∧ n < 0
  · rw [if_pos hPanic, hRead, hPanic.1]
    constructor
    · rintro ⟨value, hNone, -⟩
      cases hNone
    · intro hZero
      exact absurd hPanic.2 (by rw [show n = 0 from hZero]; decide)
  · rw [if_neg hPanic]
    simp only [Except.map, storeWrapper, EthereumSqlTypeWrapper.toSql, Shape.isArray, readColumn,
      t.column_kind, Bool.false_eq_true, if_false]
    constructor
    · rintro ⟨value, hValue, hDenotes⟩
      obtain ⟨read, hRead, hSame⟩ := Option.map_eq_some_iff.mp hValue
      cases hSame
      exact ⟨value, hRead, hDenotes⟩
    · rintro ⟨value, hValue, hDenotes⟩
      exact ⟨value, by rw [hValue, Option.map_some], hDenotes⟩

theorem storeWrapper_vecInt (hDoc : encoders.Documented) {kind : IntWrapper} {ns : List Int}
    (hSome : ns ≠ []) (hRange : ∀ n ∈ ns, kind.Range n) :
    storeWrapper encoders readJson path (.array kind.column) (.vecInt kind ns) =
      if ns.length < 2 ^ 31 ∧ kind ≠ .i256 ∧ (kind = .i64 → path = .query) then
        ((ns.map (intToSql encoders kind)).mapM (readBase readJson kind.column)).map .array
      else none := by
  have hRead := read_intsToSql readJson hDoc path hSome hRange
  rw [storeWrapper, EthereumSqlTypeWrapper.toSql, if_neg hSome]
  cases hBytes : intsToSql encoders (path.type (.vecInt kind ns) (.array kind.column)) kind ns with
  | error e =>
    rw [hBytes] at hRead
    simp only at hRead
    simp only [Except.map]
    split_ifs at hRead ⊢ with hFits
    · rw [← hRead, Option.map_none]
    · rfl
  | ok bytes =>
    rw [hBytes] at hRead
    simp only at hRead
    simp only [Except.map, readColumn, hRead]
    split_ifs <;> rfl

theorem arrayStored_iff (hDoc : encoders.Documented) {ns : List Int} (hSome : ns ≠ [])
    (h : ∀ n ∈ ns, t.InRange n) :
    ArrayStored encoders readJson path name indexed t ns ↔
      ns.length < 2 ^ 31 ∧ (∀ n ∈ ns, t.Survives n) ∧ t.ArrayFits path := by
  have hRange : ∀ n ∈ ns, t.kind.Range n := fun n hn => IntegerType.range_kind (h n hn)
  have hStore := @storeToken_of_shape encoders readJson path name indexed t .array
    (.array (ns.map t.token))
  rw [mapLogTokenToEthereumWrapper, IntegerType.mapArray_tokens _ _ _ hSome h] at hStore
  have hRead := exists_mapM_forall₂ (intToSql encoders t.kind) (readBase readJson t.kind.column)
    (fun n value => value.Denotes n) ns
  have hSurvive : (∀ n ∈ ns, ∃ value,
      readBase readJson t.kind.column (intToSql encoders t.kind n) = some value ∧ value.Denotes n) ↔
      ∀ n ∈ ns, t.Survives n := by
    refine forall₂_congr fun n hn => ?_
    rw [reads_intToSql readJson hDoc (hRange n hn), IntegerType.survives_kind (h n hn)]
  have hFits : (t.kind ≠ .i256 ∧ (t.kind = .i64 → path = .query)) ↔ t.ArrayFits path := by
    have hWidth := t.width
    rw [Ne, t.kind_eq_i256_iff, t.kind_eq_i64_iff, IntegerType.ArrayFits]
    grind
  rw [ArrayStored, hStore, ← hSurvive, ← hRead, ← hFits]
  by_cases hPanic : t.kind = .i64 ∧ ∃ n ∈ ns, n < 0
  · rw [if_pos hPanic]
    constructor
    · rintro ⟨values, hNone, -⟩
      cases hNone
    · rintro ⟨-, hAll, -⟩
      obtain ⟨hKind, n, hn, hSign⟩ := hPanic
      have hZero := (reads_intToSql readJson hDoc (hRange n hn)).mp (hRead.mp hAll n hn)
      rw [hKind] at hZero
      exact absurd hSign (by rw [show n = 0 from hZero]; decide)
  · rw [if_neg hPanic]
    simp only [Shape.isArray, if_true, t.column_kind]
    rw [storeWrapper_vecInt readJson path hDoc hSome hRange]
    constructor
    · rintro ⟨values, hValues, hRight⟩
      split_ifs at hValues with hAll
      obtain ⟨read, hMap, hSame⟩ := Option.map_eq_some_iff.mp hValues
      cases hSame
      exact ⟨hAll.1, ⟨values, hMap, hRight⟩, hAll.2⟩
    · rintro ⟨hShort, ⟨values, hMap, hRight⟩, hKind⟩
      exact ⟨values, by rw [if_pos ⟨hShort, hKind⟩, hMap, Option.map_some], hRight⟩

/-- The column of an array of fixed length is the one of its element. -/
theorem not_fixedArrayStored (ns : List Int) :
    ¬ FixedArrayStored encoders readJson path name indexed t ns := by
  rintro ⟨values, hStored, -⟩
  rw [storeToken_of_shape] at hStored
  split at hStored
  · next wrapper _ =>
    have hArray : (Shape.fixed ns.length).isArray = false := rfl
    rw [storeWrapper, hArray, if_neg (by decide)] at hStored
    split at hStored
    · next bytes _ =>
      cases bytes with
      | none => cases hStored
      | some bytes =>
        obtain ⟨value, -, hSame⟩ := Option.map_eq_some_iff.mp hStored
        cases hSame
    · cases hStored
  · cases hStored

/-- Which integers are stored exactly, alone and in arrays. -/
theorem integers_stored_iff (hDoc : encoders.Documented) :
    (∀ n, t.InRange n → (IntegerStored encoders readJson path name indexed t n ↔ t.Survives n)) ∧
    (∀ ns, ns ≠ [] → (∀ n ∈ ns, t.InRange n) →
      (ArrayStored encoders readJson path name indexed t ns ↔
        ns.length < 2 ^ 31 ∧ (∀ n ∈ ns, t.Survives n) ∧ t.ArrayFits path)) ∧
    ∀ ns, ¬ FixedArrayStored encoders readJson path name indexed t ns :=
  ⟨fun _ h => integerStored_iff readJson path name indexed hDoc h,
    fun _ hSome h => arrayStored_iff readJson path name indexed hDoc hSome h,
    not_fixedArrayStored readJson path name indexed⟩

end Stored

/-- An encoder of decimals in whole groups. -/
def groupEncoders : Encoders := ⟨fun n => writeNumericToPostgres (Fin.ofNat (2 ^ 128) n) false, fun _ => []⟩

theorem documented_groupEncoders : groupEncoders.Documented where
  decimal n hn := by
    have hReads := reads_writeNumericToPostgres (Fin.ofNat (2 ^ 128) n) false
    rw [Fin.val_ofNat, Nat.mod_eq_of_lt (by omega)] at hReads
    exact readNumeric_of_reads hReads
  decimal_length n _ := length_writeNumericToPostgres _ _

def uint16 : IntegerType := ⟨false, 16, by decide⟩

def int64 : IntegerType := ⟨true, 64, by decide⟩

theorem uint64_stored : IntegerStored groupEncoders (fun _ => none) .copy "amount".toList none
    ⟨false, 64, by decide⟩ 7 :=
  ((integers_stored_iff _ _ _ _ documented_groupEncoders).1 7 (by decide)).mpr (by decide)

/-- The upper half of `uint16`, and everything but zero in `int64`. -/
theorem integers_lost :
    ¬ IntegerStored groupEncoders (fun _ => none) .copy "amount".toList none uint16 32768 ∧
    ¬ IntegerStored groupEncoders (fun _ => none) .query "amount".toList none int64 1 := by
  rw [integerStored_iff _ _ _ _ documented_groupEncoders (by decide),
    integerStored_iff _ _ _ _ documented_groupEncoders (by decide)]
  decide

end Rindexer.SqlTypes
