import Rindexer.SqlTypes.Flattening
import Rindexer.SqlTypes.Integers

/-! Which parameters become SQL values: functions, structs outside of arrays, arrays in arrays and
negative integers of 40 to 64 bits panic, and so do empty arrays whose type has no empty value. -/

namespace Rindexer.SqlTypes

open Rindexer.Database
open Rindexer.Manifest (ABIInput)
open Rindexer.Tables (Panic)

/-! ### Empty arrays -/

namespace SolType

/-- Past the brackets without a length at its end, the type has some with a length. -/
def sized : SolType → Bool
  | array item => item.sized
  | fixedArray _ _ => true
  | _ => false

/-- An empty array of these elements has a value; after an address, a boolean or a string, the brackets
of a length are not read over. -/
def HasEmpty (item : SolType) : Bool :=
  match item.innermost with
  | address | bool | string => !item.sized
  | function => false
  | _ => true

/-- The brackets without the empty ones at the end. -/
def trimmedSuffix : SolType → List Char
  | array item => item.trimmedSuffix
  | type => type.suffix

theorem getLast?_nameText_ne {type : SolType} (h : type.IsArray = false) :
    type.nameText.getLast? ≠ some ']' := by
  have hDecimal (front : List Char) (n : Nat) :
      (front ++ (toString n).toList).getLast? ≠ some ']' := by
    intro hLast
    rw [List.getLast?_append_of_ne_nil _ (Filter.isDigits_toString n).1] at hLast
    exact IntegerType.not_mem_decimal (by decide) n (List.mem_of_getLast? hLast)
  cases type with
  | array item | fixedArray item length => cases h
  | fixedBytes size => exact hDecimal _ size
  | int bits | uint bits => exact hDecimal _ bits
  | tuple isStruct fields => exact fun hLast => nomatch hLast
  | _ => decide

theorem trimBrackets_text (type : SolType) :
    (trimBrackets type.text.reverse).reverse = type.innermost.nameText ++ type.trimmedSuffix := by
  induction type using innermost.induct with
  | case1 item ih => rw [text, (brackets_of_array item.text).2, innermost, trimmedSuffix, ih]
  | case2 item length ih =>
    rw [text, (brackets_of_length item.text length).2, text_eq, innermost, trimmedSuffix, suffix,
      List.append_assoc]
    simp
  | case3 type hArray hFixed =>
    have hPlain : type.IsArray = false := by
      cases type with
      | array item => exact absurd rfl (hArray item)
      | fixedArray item length => exact absurd rfl (hFixed item length)
      | _ => rfl
    have hTrimmed : type.trimmedSuffix = [] := by
      rw [trimmedSuffix, suffix_of_not_isArray hPlain]
      exact hArray
    rw [text_eq, suffix_of_not_isArray hPlain, innermost_of_not_isArray hPlain, hTrimmed,
      List.append_nil, (brackets_of_last (getLast?_nameText_ne hPlain)).2]

theorem brackets_trimmedSuffix (type : SolType) : IntegerType.Brackets type.trimmedSuffix := by
  induction type using innermost.induct with
  | case1 item ih => rwa [trimmedSuffix]
  | case2 item length ih =>
    obtain ⟨rest, hSuffix⟩ := @suffix_of_isArray (fixedArray item length) rfl
    rw [trimmedSuffix, hSuffix]
    · exact .inr rfl
    · simp
  | case3 type hArray hFixed => cases type <;> first | exact .inl rfl | simp_all

theorem trimmedSuffix_eq_nil_iff (type : SolType) : type.trimmedSuffix = [] ↔ type.sized = false := by
  induction type using innermost.induct with
  | case1 item ih => rwa [trimmedSuffix, sized]
  | case2 item length ih =>
    obtain ⟨rest, hSuffix⟩ := @suffix_of_isArray (fixedArray item length) rfl
    rw [trimmedSuffix, hSuffix, sized]
    · simp
    · simp
  | case3 type hArray hFixed => cases type <;> first | exact iff_of_true rfl rfl | simp_all

theorem wellFormed_innermost {type : SolType} (h : type.WellFormed) : type.innermost.WellFormed := by
  induction type using innermost.induct with
  | case1 item ih =>
    rw [innermost]
    exact ih h
  | case2 item length ih =>
    rw [innermost]
    exact ih h.1
  | case3 type hArray hFixed => rwa [innermost] <;> assumption

end SolType

/-- The text of an array of these elements is one that an empty value is known for. -/
theorem emptyValue_iff {item : SolType} (hForm : item.WellFormed)
    (hTuple : item.innermost.IsTuple = false) :
    (∃ wrapper, unwrapOrPanic (solidityTypeToEthereumSqlTypeWrapper (SolType.array item).text) =
      .ok wrapper) ↔ item.HasEmpty = true := by
  have hTrim := (SolType.array item).trimBrackets_text
  have hArray : "[]".toList.isSuffixOf (SolType.array item).text = true := by
    rw [SolType.text]
    exact (brackets_of_array item.text).1
  have hRest := item.brackets_trimmedSuffix
  have hNil := item.trimmedSuffix_eq_nil_iff
  have hInner := SolType.wellFormed_innermost hForm
  have hPlain := item.isArray_innermost
  rw [SolType.innermost, SolType.trimmedSuffix] at hTrim
  have hInteger (t : IntegerType) (hName : item.innermost = t.type) :
      (∃ wrapper, unwrapOrPanic (solidityTypeToEthereumSqlTypeWrapper (SolType.array item).text) =
        .ok wrapper) ↔ item.HasEmpty = true := by
    have hText : item.innermost.nameText = t.text := by
      rw [hName, ← t.text_type, IntegerType.type]
      cases t.isSigned <;> rfl
    have hKind : item.HasEmpty = true := by
      rw [SolType.HasEmpty, hName, IntegerType.type]
      cases t.isSigned <;> rfl
    rw [hText] at hTrim
    rw [t.wrapper_of_text hArray hTrim hRest]
    exact iff_of_true ⟨_, rfl⟩ hKind
  by_cases hInt : ∃ t : IntegerType, item.innermost = t.type
  · obtain ⟨t, hName⟩ := hInt
    exact hInteger t hName
  rw [solidityTypeToEthereumSqlTypeWrapper]
  simp only [hArray, hTrim, if_true]
  rw [SolType.HasEmpty]
  generalize item.trimmedSuffix = rest at hRest hNil
  obtain ⟨rfl, hSized⟩ | ⟨tail, rfl, hSized⟩ : (rest = [] ∧ item.sized = false) ∨
      ∃ tail, rest = '[' :: tail ∧ item.sized = true := by
    cases rest with
    | nil => exact .inl ⟨rfl, hNil.mp rfl⟩
    | cons c tail =>
      have hSome : ¬ item.sized = false := fun hSized => List.cons_ne_nil c tail (hNil.mpr hSized)
      obtain hEnd | hOpen := hRest
      · cases hEnd
      · cases hOpen
        exact .inr ⟨tail, rfl, by simpa using hSome⟩
  all_goals
    cases hName : item.innermost with
    | array inner | fixedArray inner length =>
      rw [hName] at hPlain
      cases hPlain
    | tuple isStruct fields =>
      rw [hName] at hTuple
      cases hTuple
    | int bits =>
      rw [hName] at hInner
      exact absurd ⟨⟨true, bits, hInner⟩, hName⟩ hInt
    | uint bits =>
      rw [hName] at hInner
      exact absurd ⟨⟨false, bits, hInner⟩, hName⟩ hInt
    | string | address | bool | function | bytes | fixedBytes =>
      simp [SolType.nameText, unwrapOrPanic, hSized, List.isPrefixOf]

/-! ### Supported values -/

/-- A signed integer is not negative if its width is one of 40 to 64 bits. -/
def IntSupported (bits : Nat) (value : DynSolValue) : Prop :=
  40 ≤ bits → bits ≤ 64 → match value with
    | .int n _ => 0 ≤ n
    | _ => True

/-- Elements that make an array: no functions and no arrays. -/
def ElementsSupported (items : List DynSolValue) : SolType → Prop
  | .function | .array _ | .fixedArray _ _ => False
  | .int bits => ∀ value ∈ items, IntSupported bits value
  | _ => True

def ArraySupported (item : SolType) (items : List DynSolValue) : Prop :=
  if items = [] then item.HasEmpty = true else ElementsSupported items item

mutual

/-- The values that are converted without a panic. -/
def Supported : SolType → DynSolValue → Prop
  | .function, _ => False
  | .int bits, value => IntSupported bits value
  | .array item, .array items => ArraySupported item items
  | .fixedArray item _, .fixedArray items => ArraySupported item items
  | .tuple true _, _ => False
  | .tuple false fields, .tuple items => FieldsSupported fields items
  | _, _ => True

def FieldsSupported : List (List Char × SolType) → List DynSolValue → Prop
  | (_, type) :: fields, value :: items => Supported type value ∧ FieldsSupported fields items
  | _, _ => True

end

/-! ### Integers -/

theorem token_of_holds {t : IntegerType} {value : DynSolValue} (h : t.type.Holds value) :
    ∃ n, value = t.token n ∧ t.InRange n := by
  obtain ⟨isSigned, bits, hWidth⟩ := t
  cases isSigned with
  | true =>
    cases value with
    | int n bits' =>
      obtain ⟨rfl, hLow, hHigh⟩ := h
      exact ⟨n, rfl, hLow, hHigh⟩
    | _ => cases h
  | false =>
    cases value with
    | uint n bits' =>
      obtain ⟨rfl, hHigh⟩ := h
      refine ⟨n.val, ?_, Int.natCast_nonneg _, ?_⟩
      · have hValue : Fin.ofNat (2 ^ 256) (n.val : Int).toNat = n := by
          rw [Int.toNat_natCast]
          exact Fin.ofNat_val_eq_self n
        exact (congrArg (fun m => DynSolValue.uint m bits') hValue).symm
      · exact_mod_cast hHigh
    | _ => cases h

theorem tokens_of_holds {t : IntegerType} {items : List DynSolValue}
    (h : ∀ value ∈ items, t.type.Holds value) :
    ∃ ns : List Int, items = ns.map t.token ∧ ∀ n ∈ ns, t.InRange n := by
  induction items with
  | nil => exact ⟨[], rfl, fun _ hMem => nomatch hMem⟩
  | cons value items ih =>
    obtain ⟨n, rfl, hn⟩ := token_of_holds (h value List.mem_cons_self)
    obtain ⟨ns, rfl, hns⟩ := ih fun other hOther => h other (List.mem_cons_of_mem _ hOther)
    refine ⟨n :: ns, rfl, ?_⟩
    intro m hm
    rcases List.mem_cons.mp hm with rfl | hm
    · exact hn
    · exact hns m hm

theorem intSupported_signed {t : IntegerType} (h : t.isSigned = true) (n : Int) :
    IntSupported t.bits (t.token n) ↔ ¬ (t.kind = .i64 ∧ n < 0) := by
  have hInt : IntSupported t.bits (t.token n) = (40 ≤ t.bits → t.bits ≤ 64 → 0 ≤ n) := by
    rw [IntegerType.token_signed h]
    rfl
  rw [hInt, t.kind_eq_i64_iff]
  constructor
  · rintro hAll ⟨⟨-, hLow, hHigh⟩, hSign⟩
    exact absurd (hAll hLow hHigh) (by omega)
  · intro hNot hLow hHigh
    by_contra hSign
    exact hNot ⟨⟨h, hLow, hHigh⟩, by omega⟩

/-- The array of the elements, or the panic that there is none. -/
def ArrayMade (item : SolType) (items : List DynSolValue)
    (made : Except Panic (List EthereumSqlTypeWrapper)) : Prop :=
  (ArraySupported item items ∧ ∃ a, made = .ok [a]) ∨
    (¬ ArraySupported item items ∧ made = .error ⟨⟩)

theorem arrayMade_nil {item : SolType} (hForm : item.WellFormed) (name : List Char)
    (indexed : Option Bool) :
    ArrayMade item [] (mapArray ((SolType.array item).input name indexed) []) := by
  have hPrefix := (SolType.array item).isPrefixOf_tuple
  have hText : ((SolType.array item).input name indexed).type = (SolType.array item).text := rfl
  have hArray : (SolType.array item).IsArray = true := rfl
  have hSupported : ArraySupported item [] ↔ item.HasEmpty = true := iff_of_eq (if_pos rfl)
  rw [ArrayMade, hSupported, mapArray, hText, hPrefix, SolType.innermost, hArray, Bool.and_true]
  cases hTuple : item.innermost.IsTuple with
  | true =>
    refine .inl ⟨?_, _, if_pos rfl⟩
    rw [SolType.HasEmpty]
    cases hName : item.innermost <;> rw [hName] at hTuple <;> first | rfl | cases hTuple
  | false =>
    have hComponents : ((SolType.array item).input name indexed).components = none := by
      change (SolType.array item).components = none
      by_contra hSome
      obtain ⟨components, hSome⟩ := Option.ne_none_iff_exists'.mp hSome
      have hInner := SolType.components_eq_some.mp ⟨components, hSome⟩
      rw [SolType.innermost, hTuple] at hInner
      cases hInner
    rw [if_neg (by decide), hComponents, ← emptyValue_iff hForm hTuple]
    cases unwrapOrPanic (solidityTypeToEthereumSqlTypeWrapper (SolType.array item).text) with
    | error e => exact .inr ⟨by rintro ⟨_, ⟨⟩⟩, rfl⟩
    | ok wrapper => exact .inl ⟨⟨wrapper, rfl⟩, wrapper, rfl⟩

theorem arrayMade_integers {t : IntegerType} (shape : IntegerType.Shape) (name : List Char)
    (indexed : Option Bool) {items : List DynSolValue} (hSome : items ≠ [])
    (hItems : ∀ value ∈ items, t.type.Holds value) :
    ArrayMade t.type items (mapArray ((shape.type t).input name indexed) items) := by
  obtain ⟨ns, rfl, hRange⟩ := tokens_of_holds hItems
  have hNs : ns ≠ [] := by simpa using hSome
  have hSupported : ArraySupported t.type (ns.map t.token) ↔ ¬ (t.kind = .i64 ∧ ∃ n ∈ ns, n < 0) := by
    rw [ArraySupported, if_neg hSome]
    cases hSigned : t.isSigned with
    | true =>
      have hType : t.type = .int t.bits := by rw [IntegerType.type, if_pos hSigned]
      rw [hType, ElementsSupported, List.forall_mem_map]
      simp only [intSupported_signed hSigned]
      grind
    | false =>
      have hType : t.type = .uint t.bits := by
        rw [IntegerType.type, if_neg (by rw [hSigned]; decide)]
      rw [hType, t.kind_eq_i64_iff, hSigned]
      exact iff_of_true trivial (by rintro ⟨⟨⟨⟩, -⟩, -⟩)
  rw [ArrayMade, hSupported, IntegerType.mapArray_tokens shape name indexed hNs hRange]
  by_cases hPanic : t.kind = .i64 ∧ ∃ n ∈ ns, n < 0
  · exact .inr ⟨not_not.mpr hPanic, if_pos hPanic⟩
  · exact .inl ⟨hPanic, _, if_neg hPanic⟩

theorem arrayMade_cons {type item : SolType} (hType : type = .array item ∨ ∃ length, type = .fixedArray item length)
    (hForm : item.WellFormed) (name : List Char) (indexed : Option Bool) {items : List DynSolValue}
    (hSome : items ≠ []) (hItems : ∀ value ∈ items, item.Holds value) :
    ArrayMade item items (mapArray (type.input name indexed) items) := by
  have hInteger (t : IntegerType) (hName : item = t.type) :
      ArrayMade item items (mapArray (type.input name indexed) items) := by
    subst hName
    obtain rfl | ⟨length, rfl⟩ := hType
    · exact arrayMade_integers .array name indexed hSome hItems
    · exact arrayMade_integers (.fixed length) name indexed hSome hItems
  have hSupported : ArraySupported item items ↔ ElementsSupported items item :=
    iff_of_eq (if_neg hSome)
  cases items with
  | nil => exact absurd rfl hSome
  | cons first rest =>
    have hFirst := hItems first List.mem_cons_self
    cases item with
    | int bits => exact hInteger ⟨true, bits, hForm⟩ rfl
    | uint bits => exact hInteger ⟨false, bits, hForm⟩ rfl
    | tuple isStruct fields =>
      obtain rfl | ⟨length, rfl⟩ := hType <;> cases isStruct <;> cases first <;> first
        | exact .inl ⟨hSupported.mpr trivial, _, rfl⟩
        | cases hFirst
    | function =>
      cases first with
      | function f =>
        rw [ArrayMade, hSupported]
        exact .inr ⟨id, rfl⟩
      | _ => cases hFirst
    | array inner =>
      cases first with
      | array inner =>
        rw [ArrayMade, hSupported]
        exact .inr ⟨id, rfl⟩
      | _ => cases hFirst
    | fixedArray inner length =>
      cases first with
      | fixedArray inner =>
        rw [ArrayMade, hSupported]
        exact .inr ⟨id, rfl⟩
      | _ => cases hFirst
    | _ =>
      cases first <;> first
        | exact .inl ⟨hSupported.mpr trivial, _, rfl⟩
        | cases hFirst

/-! ### Parameters -/

theorem wrappers_flattens : Flattens mapLogTokenToEthereumWrapper processTuple where
  nil := by rw [processTuple]
  cons input inputs token tokens := by
    rw [processTuple]
    cases mapLogTokenToEthereumWrapper input token with
    | error e => rfl
    | ok first => cases processTuple inputs tokens <;> rfl
  tuple input components items h := by rw [mapLogTokenToEthereumWrapper, h]
  struct input items := by rw [mapLogTokenToEthereumWrapper]

/-- A value of a type that is no tuple is one wrapper, or it panics. -/
theorem mapLogToken_cases {type : SolType} (hForm : type.WellFormed) (hPlain : type.IsTuple = false)
    (name : List Char) (indexed : Option Bool) {value : DynSolValue} (hHolds : type.Holds value) :
    (Supported type value ∧
      ∃ a, mapLogTokenToEthereumWrapper (type.input name indexed) value = .ok [a]) ∨
    (¬ Supported type value ∧
      mapLogTokenToEthereumWrapper (type.input name indexed) value = .error ⟨⟩) := by
  have hInteger (t : IntegerType) (hName : type = t.type) :
      ∃ n, value = t.token n ∧ mapLogTokenToEthereumWrapper (type.input name indexed) value =
        if t.kind = .i64 ∧ n < 0 then .error ⟨⟩ else .ok [.int t.kind n] := by
    subst hName
    obtain ⟨n, rfl, hRange⟩ := token_of_holds hHolds
    refine ⟨n, rfl, ?_⟩
    rw [t.mapLogToken_alone, IntegerType.convert_eq hRange]
    split <;> rfl
  cases type with
  | tuple isStruct fields => cases hPlain
  | array item =>
    cases value with
    | array items =>
      have hMade : ArrayMade item items (mapArray ((SolType.array item).input name indexed) items) := by
        by_cases hSome : items = []
        · subst hSome
          exact @arrayMade_nil item hForm name indexed
        · exact @arrayMade_cons _ item (.inl rfl) hForm name indexed _ hSome hHolds
      rw [mapLogTokenToEthereumWrapper, Supported]
      exact hMade
    | _ => cases hHolds
  | fixedArray item length =>
    cases value with
    | fixedArray items =>
      have hSome : items ≠ [] := by
        rintro rfl
        have hLength := hHolds.1
        have hPositive := hForm.2
        rw [List.length_nil] at hLength
        omega
      have hMade := arrayMade_cons (.inr ⟨length, rfl⟩) hForm.1 name indexed hSome hHolds.2
      rw [mapLogTokenToEthereumWrapper, Supported]
      exact hMade
    | _ => cases hHolds
  | int bits =>
    obtain ⟨n, rfl, hResult⟩ := hInteger ⟨true, bits, hForm⟩ rfl
    have hSupported := @intSupported_signed ⟨true, bits, hForm⟩ rfl n
    rw [Supported, hResult]
    by_cases hPanic : IntegerType.kind ⟨true, bits, hForm⟩ = .i64 ∧ n < 0
    · exact .inr ⟨fun h => hSupported.mp h hPanic, if_pos hPanic⟩
    · exact .inl ⟨hSupported.mpr hPanic, _, if_neg hPanic⟩
  | uint bits =>
    obtain ⟨n, rfl, hResult⟩ := hInteger ⟨false, bits, hForm⟩ rfl
    have hKind : ¬ (IntegerType.kind ⟨false, bits, hForm⟩ = .i64 ∧ n < 0) := by
      rw [IntegerType.kind_eq_i64_iff]
      rintro ⟨⟨⟨⟩, -⟩, -⟩
    rw [hResult]
    exact .inl ⟨trivial, _, if_neg hKind⟩
  | string =>
    cases value with
    | string s => exact .inl ⟨trivial, _, by rw [mapLogTokenToEthereumWrapper]⟩
    | _ => cases hHolds
  | function =>
    cases value with
    | function f => exact .inr ⟨id, by rw [mapLogTokenToEthereumWrapper]⟩
    | _ => cases hHolds
  | _ =>
    cases value <;> first
      | exact .inl ⟨trivial, _, rfl⟩
      | cases hHolds

theorem wrappers_oneEach : OneEach mapLogTokenToEthereumWrapper := by
  intro type name indexed value as hForm hPlain hHolds hOk
  obtain ⟨-, a, ha⟩ | ⟨-, hPanic⟩ := mapLogToken_cases hForm hPlain name indexed hHolds
  · rw [ha] at hOk
    cases hOk
    exact ⟨a, rfl⟩
  · rw [hPanic] at hOk
    cases hOk

theorem wrappers_oneHash : OneHash mapLogTokenToEthereumWrapper := by
  intro input topic
  rw [mapLogTokenToEthereumWrapper]
  split <;> exact ⟨_, rfl⟩

mutual

theorem mapLogToken_ok : ∀ (type : SolType) (name : List Char) (indexed : Option Bool)
    (value : DynSolValue), type.WellFormed → type.Holds value →
    ((∃ as, mapLogTokenToEthereumWrapper (type.input name indexed) value = .ok as) ↔
      Supported type value)
  | .tuple isStruct fields, name, indexed, value, hForm, hHolds => by
    cases isStruct with
    | true =>
      cases value with
      | customStruct items =>
        rw [mapLogTokenToEthereumWrapper]
        exact iff_of_false (fun ⟨_, h⟩ => nomatch h) id
      | _ => cases hHolds
    | false =>
      cases value with
      | tuple items =>
        rw [wrappers_flattens.tuple _ (SolType.fieldInputs fields) items rfl, Supported]
        exact processTuple_ok fields items hForm.2 hHolds
      | _ => cases hHolds
  | .address, name, indexed, value, hForm, hHolds | .bool, name, indexed, value, hForm, hHolds
  | .string, name, indexed, value, hForm, hHolds | .bytes, name, indexed, value, hForm, hHolds
  | .function, name, indexed, value, hForm, hHolds
  | .fixedBytes _, name, indexed, value, hForm, hHolds
  | .int _, name, indexed, value, hForm, hHolds | .uint _, name, indexed, value, hForm, hHolds
  | .array _, name, indexed, value, hForm, hHolds
  | .fixedArray _ _, name, indexed, value, hForm, hHolds => by
    obtain ⟨hSupported, a, ha⟩ | ⟨hNot, hPanic⟩ := mapLogToken_cases hForm rfl name indexed hHolds
    · exact iff_of_true ⟨_, ha⟩ hSupported
    · rw [hPanic]
      exact iff_of_false (fun ⟨_, h⟩ => nomatch h) hNot

theorem processTuple_ok : ∀ (fields : List (List Char × SolType)) (items : List DynSolValue),
    SolType.FieldsWellFormed fields → SolType.FieldsHold fields items →
    ((∃ as, processTuple (SolType.fieldInputs fields) items = .ok as) ↔ FieldsSupported fields items)
  | [], items, _, hHolds => by
    cases items with
    | nil => exact iff_of_true ⟨[], by rw [SolType.fieldInputs, processTuple]⟩ trivial
    | cons item items => cases hHolds
  | (name, type) :: fields, items, hForm, hHolds => by
    cases items with
    | nil => cases hHolds
    | cons value items =>
      have hFirst := mapLogToken_ok type name none value hForm.1 hHolds.1
      have hRest := processTuple_ok fields items hForm.2 hHolds.2
      rw [FieldsSupported, ← hFirst, ← hRest]
      constructor
      · rintro ⟨as, hAll⟩
        obtain ⟨first, rest, hFirst, hRest, -⟩ := wrappers_flattens.cons_ok hAll
        exact ⟨⟨first, hFirst⟩, rest, hRest⟩
      · rintro ⟨⟨first, hFirst⟩, rest, hRest⟩
        refine ⟨first ++ rest, ?_⟩
        rw [SolType.input] at hFirst
        rw [SolType.fieldInputs, wrappers_flattens.cons, hFirst, hRest]
        rfl

end

end Rindexer.SqlTypes
