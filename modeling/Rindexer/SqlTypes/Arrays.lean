import Rindexer.SqlTypes.Conversion
import Rindexer.SqlTypes.JsonWriter

/-! The columns of array parameters: which arrays come back with every element in its place.  An array
without elements is written as NULL, unless its elements are tuples. -/

namespace Rindexer.SqlTypes

open Rindexer.Database
open Rindexer.Extraction (hexText)
open Rindexer.Filter (JsonValue)
open Rindexer.Lib
open Rindexer.Manifest (ABIInput)
open Rindexer.Tables (Panic)

/-! ### Elements -/

/-- The element of a column is the value; bytes of fixed size are their word, as in the log. -/
def PgValue.Same : DynSolValue → PgValue → Prop
  | .address a, text s => s = hexText a
  | .bool b, bool b' => b' = b
  | .string s, text s' => s' = s
  | .bytes b, bytes b' => b' = b
  | .fixedBytes word _, bytes b => b = word
  | .function f, bytes b => b = f
  | .int n _, value => value.Denotes n
  | .uint n _, value => value.Denotes n.val
  | _, _ => False

/-- The cell has these elements, in this order: as an array, or as one JSON value for tuples. -/
def PgCell.Elements (item : SolType) (items : List DynSolValue) : PgCell → Prop
  | array values => List.Forall₂ (fun element value => value.Same element) items values
  | single (.json (.array values)) => List.Forall₂ item.JsonOf items values
  | _ => False

def PgCell.Keeps : SolType → DynSolValue → PgCell → Prop
  | .array item, .array items, cell => cell.Elements item items
  | .fixedArray item _, .fixedArray items, cell => cell.Elements item items
  | _, _, _ => False

/-- The column of an array parameter gives it back. -/
def ArrayKept (encoders : Encoders) (readJson : List UInt8 → Option JsonValue) (path : WritePath)
    (name : List Char) (indexed : Option Bool) (type : SolType) (value : DynSolValue) : Prop :=
  ∃ cell, storeToken encoders readJson path (type.input name indexed) value = some cell ∧
    cell.Keeps type value

/-- The elements that the column of their arrays keeps.  Dynamic bytes are dropped and functions panic;
a text has no zero character and fits 32 bits of length; integers are as in
`IntegerType.Survives`. -/
def ElementKept (path : WritePath) (item : SolType) (value : DynSolValue) : Prop :=
  match item, value with
  | .string, .string s => '\x00' ∉ s ∧ (utf8 s).length < 2 ^ 31
  | .int bits, .int n _ =>
    bits < 136 ∧ (40 ≤ bits → bits ≤ 64 → n = 0 ∧ path = .query)
  | .uint bits, .uint n _ => (bits = 16 → n.val < 2 ^ 15) ∧ (bits = 32 → n.val < 2 ^ 31)
  | .bytes, _ | .function, _ | .array _, _ | .fixedArray _ _, _ => False
  | .tuple _ _, _ => item.JsonKept true value
  | _, _ => True

/-- The arrays that are kept. -/
def ArrayKeeps (path : WritePath) : SolType → DynSolValue → Prop
  | .array item, .array items =>
    (∀ value ∈ items, ElementKept path item value) ∧
      (item.innermost.IsTuple = false → items ≠ [] ∧ items.length < 2 ^ 31)
  | .fixedArray item _, .fixedArray items =>
    item.IsTuple = true ∧ ∀ value ∈ items, ElementKept path item value
  | _, _ => False

section Kept

variable {encoders : Encoders} {readJson : List UInt8 → Option JsonValue} {path : WritePath}
  {name : List Char} {indexed : Option Bool} {item : SolType} {items : List DynSolValue}

/-! ### Columns of arrays -/

/-- Where no single value can be, the elements are those of an array. -/
theorem elements_iff {stored : Option PgCell} (hStored : ∀ value, stored ≠ some (.single value)) :
    (∃ cell, stored = some cell ∧ cell.Elements item items) ↔
      ∃ values, stored = some (.array values) ∧
        List.Forall₂ (fun element value => value.Same element) items values := by
  constructor
  · rintro ⟨cell, rfl, hElements⟩
    cases cell with
    | null => cases hElements
    | array values => exact ⟨values, rfl, hElements⟩
    | single value => exact absurd rfl (hStored value)
  · rintro ⟨values, rfl, hSame⟩
    exact ⟨.array values, rfl, hSame⟩

theorem storeWrapper_ne_single {member : PgBase} {wrapper : EthereumSqlTypeWrapper} (value : PgValue) :
    storeWrapper encoders readJson path (.array member) wrapper ≠ some (.single value) := by
  intro hStore
  rw [storeWrapper] at hStore
  split at hStore
  · next bytes _ =>
    cases bytes with
    | none => cases hStore
    | some bytes =>
      obtain ⟨values, -, hSame⟩ := Option.map_eq_some_iff.mp hStore
      cases hSame
  · cases hStore

/-- A slice in the column of its type. -/
theorem storeWrapper_slice {member : PgBase} {wrapper : EthereumSqlTypeWrapper}
    {elements : List (List UInt8)} (hType : wrapper.toType = .array member)
    (hSql : wrapper.toSql encoders (.array member) =
      (sliceToSql (.array member) elements).map some) :
    storeWrapper encoders readJson path (.array member) wrapper =
      if elements.length < 2 ^ 31 ∧ ∀ element ∈ elements, element.length < 2 ^ 31 then
        (elements.mapM (readBase readJson member)).map .array
      else none := by
  have hPath : path.type wrapper (.array member) = .array member := by
    cases path with
    | copy => exact hType
    | query => rfl
  rw [storeWrapper, hPath, hSql, sliceToSql]
  by_cases hFits : elements.length < 2 ^ 31 ∧ ∀ element ∈ elements, element.length < 2 ^ 31
  · have hRead := @readArray_writeArray (readBase readJson member) elements member hFits.2
    rw [if_pos hFits.1] at hRead
    simp only [if_pos hFits, Except.map, readColumn, hRead]
  · simp only [if_neg hFits, Except.map]

/-- The bytes of an element. -/
def elementBytes : DynSolValue → List UInt8
  | .address a => utf8 (hexText a)
  | .bool b => [if b then 1 else 0]
  | .string s => utf8 s
  | .fixedBytes word _ => word
  | _ => []

theorem kept_of_elements {member : PgBase} {wrapper : EthereumSqlTypeWrapper}
    (hStore : storeWrapper encoders readJson path (.array member) wrapper =
      if items.length < 2 ^ 31 ∧ ∀ value ∈ items, (elementBytes value).length < 2 ^ 31 then
        ((items.map elementBytes).mapM (readBase readJson member)).map .array
      else none) :
    (∃ cell, storeWrapper encoders readJson path (.array member) wrapper = some cell ∧
      cell.Elements item items) ↔
    items.length < 2 ^ 31 ∧ ∀ value ∈ items, (elementBytes value).length < 2 ^ 31 ∧
      ∃ read, readBase readJson member (elementBytes value) = some read ∧ read.Same value := by
  have hRead := exists_mapM_forall₂ elementBytes (readBase readJson member)
    (fun value read => read.Same value) items
  rw [elements_iff storeWrapper_ne_single, hStore]
  by_cases hFits : items.length < 2 ^ 31 ∧ ∀ value ∈ items, (elementBytes value).length < 2 ^ 31
  · rw [if_pos hFits, and_iff_right hFits.1]
    constructor
    · rintro ⟨values, hValues, hSame⟩ value hMem
      obtain ⟨read, hMap, hArray⟩ := Option.map_eq_some_iff.mp hValues
      cases hArray
      exact ⟨hFits.2 value hMem, hRead.mp ⟨values, hMap, hSame⟩ value hMem⟩
    · intro hAll
      obtain ⟨values, hMap, hSame⟩ := hRead.mpr fun value hMem => (hAll value hMem).2
      exact ⟨values, by rw [hMap, Option.map_some], hSame⟩
  · rw [if_neg hFits]
    refine iff_of_false (fun ⟨_, hNone, _⟩ => nomatch hNone) ?_
    rintro ⟨hLength, hAll⟩
    exact hFits ⟨hLength, fun value hMem => (hAll value hMem).1⟩

/-! ### Arrays with elements -/

theorem arrayKept_of_map {member : PgBase} {wrapper : EthereumSqlTypeWrapper}
    (hColumn : (solidityTypeToDbType (SolType.array item).text).bind columnType = some (.array member))
    (hMap : mapArray ((SolType.array item).input name indexed) items = .ok [wrapper]) :
    ArrayKept encoders readJson path name indexed (.array item) (.array items) ↔
      ∃ cell, storeWrapper encoders readJson path (.array member) wrapper = some cell ∧
        cell.Elements item items := by
  have hStore : storeToken encoders readJson path ((SolType.array item).input name indexed)
      (.array items) = storeWrapper encoders readJson path (.array member) wrapper := by
    have hText : ((SolType.array item).input name indexed).type = (SolType.array item).text := rfl
    rw [storeToken, hText, hColumn, Option.bind_some, mapLogTokenToEthereumWrapper, hMap]
  rw [ArrayKept, hStore]
  rfl

theorem map_filterMap {α : Type} {f : DynSolValue → Option α} {g : α → List UInt8}
    (h : ∀ value ∈ items, ∃ a, f value = some a ∧ g a = elementBytes value) :
    (items.filterMap f).map g = items.map elementBytes := by
  induction items with
  | nil => rfl
  | cons value items ih =>
    obtain ⟨⟨a, hf, hg⟩, hRest⟩ := List.forall_mem_cons.mp h
    rw [List.filterMap_cons, hf, List.map_cons, List.map_cons, hg, ih hRest]

theorem filterMap_ne_nil {α : Type} {f : DynSolValue → Option α} (hSome : items ≠ [])
    (h : ∀ value ∈ items, (f value).isSome = true) : items.filterMap f ≠ [] := by
  cases items with
  | nil => exact absurd rfl hSome
  | cons value items =>
    obtain ⟨a, ha⟩ := Option.isSome_iff_exists.mp (h value List.mem_cons_self)
    rw [List.filterMap_cons, ha]
    exact List.cons_ne_nil _ _

/-- Slices of texts and of bytes, from the elements of one kind. -/
theorem kept_slice {α : Type} {member : PgBase} {f : DynSolValue → Option α} {g : α → List UInt8}
    {make : List α → EthereumSqlTypeWrapper} (hSome : items ≠ [])
    (hColumn : (solidityTypeToDbType (SolType.array item).text).bind columnType = some (.array member))
    (hMap : mapArray ((SolType.array item).input name indexed) items =
      .ok [make (items.filterMap f)])
    (hType : ∀ as, (make as).toType = .array member)
    (hSql : ∀ as, as ≠ [] → (make as).toSql encoders (.array member) =
      (sliceToSql (.array member) (as.map g)).map some)
    (h : ∀ value ∈ items, ∃ a, f value = some a ∧ g a = elementBytes value) :
    ArrayKept encoders readJson path name indexed (.array item) (.array items) ↔
      items.length < 2 ^ 31 ∧ ∀ value ∈ items, (elementBytes value).length < 2 ^ 31 ∧
        ∃ read, readBase readJson member (elementBytes value) = some read ∧ read.Same value := by
  have hNotNil : items.filterMap f ≠ [] := by
    refine filterMap_ne_nil hSome fun value hMem => ?_
    obtain ⟨a, hf, -⟩ := h value hMem
    rw [hf]
    rfl
  have hStore := @storeWrapper_slice encoders readJson path member _ _ (hType _)
    (hSql (items.filterMap f) hNotNil)
  rw [map_filterMap h] at hStore
  rw [arrayKept_of_map hColumn hMap]
  apply kept_of_elements
  rw [hStore, List.length_map]
  simp only [List.forall_mem_map]

theorem length_hexText (bytes : List UInt8) : (hexText bytes).length = 2 * bytes.length + 2 := by
  rw [hexText, List.length_cons, List.length_cons]
  have hEncoded : (Extraction.hexEncode bytes).length = 2 * bytes.length := by
    induction bytes with
    | nil => rfl
    | cons byte bytes ih =>
      rw [Extraction.hexEncode, List.flatMap_cons, List.length_append]
      rw [Extraction.hexEncode] at ih
      rw [ih, List.length_cons]
      simp only [List.length_cons, List.length_nil]
      omega
  omega

theorem kept_addresses (hSome : items ≠ []) (hItems : ∀ value ∈ items, SolType.address.Holds value) :
    ArrayKept encoders readJson path name indexed (.array .address) (.array items) ↔
      items.length < 2 ^ 31 := by
  have hAddress : ∀ value ∈ items, ∃ a, value = .address a ∧ a.length = 20 := by
    intro value hMem
    have hHolds := hItems value hMem
    cases value with
    | address a => exact ⟨a, rfl, hHolds⟩
    | _ => cases hHolds
  have hMap : mapArray ((SolType.array .address).input name indexed) items =
      .ok [.vecAddress (items.filterMap DynSolValue.asAddress)] := by
    cases items with
    | nil => exact absurd rfl hSome
    | cons first rest =>
      obtain ⟨a, rfl, -⟩ := hAddress first List.mem_cons_self
      rfl
  rw [kept_slice (g := fun a => utf8 (hexText a)) hSome rfl hMap (fun _ => rfl)]
  · refine and_iff_left fun value hMem => ?_
    obtain ⟨a, rfl, hLength⟩ := hAddress value hMem
    have hBytes := length_utf8_le (hexText a)
    rw [length_hexText] at hBytes
    refine ⟨?_, .text (hexText a), ?_, rfl⟩
    · rw [elementBytes]
      omega
    · rw [elementBytes, readBase, readText_utf8, if_neg (zero_not_mem_hexText a), Option.map_some]
  · intro as hAs
    rw [EthereumSqlTypeWrapper.toSql, if_neg hAs]
  · intro value hMem
    obtain ⟨a, rfl, -⟩ := hAddress value hMem
    exact ⟨a, rfl, rfl⟩

theorem kept_strings (hSome : items ≠ []) (hItems : ∀ value ∈ items, SolType.string.Holds value) :
    ArrayKept encoders readJson path name indexed (.array .string) (.array items) ↔
      items.length < 2 ^ 31 ∧ ∀ value ∈ items, ElementKept path .string value := by
  have hString : ∀ value ∈ items, ∃ s, value = .string s := by
    intro value hMem
    have hHolds := hItems value hMem
    cases value with
    | string s => exact ⟨s, rfl⟩
    | _ => cases hHolds
  have hMap : mapArray ((SolType.array .string).input name indexed) items =
      .ok [.vecString (items.filterMap DynSolValue.asString)] := by
    cases items with
    | nil => exact absurd rfl hSome
    | cons first rest =>
      obtain ⟨s, rfl⟩ := hString first List.mem_cons_self
      rfl
  rw [kept_slice (g := utf8) hSome rfl hMap (fun _ => rfl)]
  · refine and_congr_right fun _ => forall₂_congr fun value hMem => ?_
    obtain ⟨s, rfl⟩ := hString value hMem
    rw [elementBytes, readBase, readText_utf8, ElementKept, and_comm]
    refine and_congr_left fun _ => ?_
    by_cases hZero : '\x00' ∈ s
    · rw [if_pos hZero]
      exact iff_of_false (by rintro ⟨_, ⟨⟩, _⟩) (not_not.mpr hZero)
    · rw [if_neg hZero]
      exact iff_of_true ⟨_, rfl, rfl⟩ hZero
  · intro ss hSs
    rw [EthereumSqlTypeWrapper.toSql, if_neg hSs]
  · intro value hMem
    obtain ⟨s, rfl⟩ := hString value hMem
    exact ⟨s, rfl, rfl⟩

theorem columnType_fixedBytes (size : Nat) :
    (solidityTypeToDbType (SolType.array (.fixedBytes size)).text).bind columnType =
      some (.array .bytea) := by
  have hTuple := (SolType.array (.fixedBytes size)).isPrefixOf_tuple
  have hArray : "[]".toList.isSuffixOf (SolType.array (.fixedBytes size)).text = true := by
    rw [SolType.text]
    exact (brackets_of_array _).1
  have hTrim : (trimBrackets (SolType.array (.fixedBytes size)).text.reverse).reverse =
      "bytes".toList ++ (toString size).toList := by
    rw [SolType.trimBrackets_text]
    exact List.append_nil _
  rw [solidityTypeToDbType]
  simp only [hTuple, hArray, hTrim]
  simp [List.isPrefixOf, SolType.innermost, SolType.IsTuple]
  rfl

theorem kept_fixedBytes {size : Nat} (hSome : items ≠ [])
    (hItems : ∀ value ∈ items, (SolType.fixedBytes size).Holds value) :
    ArrayKept encoders readJson path name indexed (.array (.fixedBytes size)) (.array items) ↔
      items.length < 2 ^ 31 := by
  have hWord : ∀ value ∈ items, ∃ word size', value = .fixedBytes word size' ∧ word.length = 32 := by
    intro value hMem
    have hHolds := hItems value hMem
    cases value with
    | fixedBytes word size' => exact ⟨word, size', rfl, hHolds.2⟩
    | _ => cases hHolds
  have hMap : mapArray ((SolType.array (.fixedBytes size)).input name indexed) items =
      .ok [.vecBytes (items.filterMap DynSolValue.asFixedBytes)] := by
    cases items with
    | nil => exact absurd rfl hSome
    | cons first rest =>
      obtain ⟨word, size', rfl, -⟩ := hWord first List.mem_cons_self
      rfl
  rw [kept_slice (g := id) hSome (columnType_fixedBytes size) hMap (fun _ => rfl)]
  · refine and_iff_left fun value hMem => ?_
    obtain ⟨word, size', rfl, hLength⟩ := hWord value hMem
    refine ⟨?_, .bytes word, rfl, rfl⟩
    rw [elementBytes, hLength]
    norm_num
  · intro bs hBs
    rw [EthereumSqlTypeWrapper.toSql, if_neg hBs, List.map_id]
  · intro value hMem
    obtain ⟨word, size', rfl, -⟩ := hWord value hMem
    exact ⟨word, rfl, rfl⟩

theorem kept_bools (hSome : items ≠ []) (hItems : ∀ value ∈ items, SolType.bool.Holds value) :
    ArrayKept encoders readJson path name indexed (.array .bool) (.array items) ↔
      items.length < 2 ^ 31 := by
  have hBool : ∀ value ∈ items, ∃ b, value = .bool b := by
    intro value hMem
    have hHolds := hItems value hMem
    cases value with
    | bool b => exact ⟨b, rfl⟩
    | _ => cases hHolds
  have hMap : mapArray ((SolType.array .bool).input name indexed) items =
      .ok [.vecBool (items.filterMap DynSolValue.asBool)] := by
    cases items with
    | nil => exact absurd rfl hSome
    | cons first rest =>
      obtain ⟨b, rfl⟩ := hBool first List.mem_cons_self
      rfl
  have hBytes : (items.filterMap DynSolValue.asBool).map (fun b => [if b then (1 : UInt8) else 0]) =
      items.map elementBytes := by
    refine map_filterMap fun value hMem => ?_
    obtain ⟨b, rfl⟩ := hBool value hMem
    exact ⟨b, rfl, rfl⟩
  have hNotNil : items.filterMap DynSolValue.asBool ≠ [] := by
    refine filterMap_ne_nil hSome fun value hMem => ?_
    obtain ⟨b, rfl⟩ := hBool value hMem
    rfl
  have hShort : ∀ value ∈ items, (elementBytes value).length < 2 ^ 31 := by
    intro value hMem
    obtain ⟨b, rfl⟩ := hBool value hMem
    exact Nat.one_lt_two_pow (by decide)
  have hRead := @readArray_writeArray (readBase readJson .bool) (items.map elementBytes) .bool
    (List.forall_mem_map.mpr hShort)
  have hColumn : (solidityTypeToDbType (SolType.array .bool).text).bind columnType =
      some (.array .bool) := rfl
  rw [arrayKept_of_map hColumn hMap, kept_of_elements]
  · refine and_iff_left fun value hMem => ⟨hShort value hMem, ?_⟩
    obtain ⟨b, rfl⟩ := hBool value hMem
    cases b
    · exact ⟨.bool false, rfl, rfl⟩
    · exact ⟨.bool true, rfl, rfl⟩
  · rw [storeWrapper, EthereumSqlTypeWrapper.toSql, if_neg hNotNil, hBytes]
    simp only [readColumn, hRead, List.length_map]
    by_cases hLength : items.length < 2 ^ 31
    · rw [if_pos hLength, if_pos ⟨hLength, hShort⟩]
    · rw [if_neg hLength, if_neg (fun hBoth => hLength hBoth.1), Option.map_none]

/-! ### Arrays of integers -/

theorem forall₂_same {t : IntegerType} {ns : List Int} (h : ∀ n ∈ ns, t.InRange n)
    (values : List PgValue) :
    List.Forall₂ (fun element value => value.Same element) (ns.map t.token) values ↔
      List.Forall₂ (fun n value => PgValue.Denotes n value) ns values := by
  induction ns generalizing values with
  | nil => rw [List.map_nil, List.forall₂_nil_left_iff, List.forall₂_nil_left_iff]
  | cons n ns ih =>
    cases values with
    | nil => exact iff_of_false (fun hAll => nomatch hAll) (fun hAll => nomatch hAll)
    | cons value values =>
      have hFirst : value.Same (t.token n) ↔ value.Denotes n := by
        have hn := h n List.mem_cons_self
        cases hSigned : t.isSigned with
        | true =>
          rw [IntegerType.token_signed hSigned]
          rfl
        | false =>
          rw [IntegerType.InRange, hSigned, if_neg (by decide)] at hn
          have hPow : (2 : Int) ^ t.bits ≤ 2 ^ 256 := pow_le_pow_right₀ (by norm_num) t.width.2.2
          have hValue : ((Fin.ofNat (2 ^ 256) n.toNat).val : Int) = n := by
            rw [Fin.val_ofNat, Nat.mod_eq_of_lt (by omega), Int.toNat_of_nonneg hn.1]
          rw [IntegerType.token_unsigned hSigned, PgValue.Same.eq_def]
          cases value <;> exact iff_of_eq (congrArg (fun m => PgValue.Denotes m _) hValue)
      rw [List.map_cons, List.forall₂_cons, List.forall₂_cons, hFirst,
        ih fun m hm => h m (List.mem_cons_of_mem _ hm)]

theorem elementKept_token {t : IntegerType} {n : Int} (h : t.InRange n) :
    ElementKept path t.type (t.token n) ↔ t.Survives n ∧ t.ArrayFits path := by
  rw [IntegerType.InRange] at h
  rw [IntegerType.type, IntegerType.Survives, IntegerType.ArrayFits]
  cases hSigned : t.isSigned with
  | true =>
    rw [IntegerType.token_signed hSigned, if_pos rfl, ElementKept]
    grind
  | false =>
    rw [hSigned, if_neg (by decide)] at h
    have hPow : (2 : Int) ^ t.bits ≤ 2 ^ 256 := pow_le_pow_right₀ (by norm_num) t.width.2.2
    have hValue : (Fin.ofNat (2 ^ 256) n.toNat).val = n.toNat := by
      rw [Fin.val_ofNat, Nat.mod_eq_of_lt (by omega)]
    rw [IntegerType.token_unsigned hSigned, if_neg (by decide), ElementKept, hValue]
    grind

theorem kept_integers {t : IntegerType} (hDoc : encoders.Documented) (hSome : items ≠ [])
    (hItems : ∀ value ∈ items, t.type.Holds value) :
    ArrayKept encoders readJson path name indexed (.array t.type) (.array items) ↔
      items.length < 2 ^ 31 ∧ ∀ value ∈ items, ElementKept path t.type value := by
  obtain ⟨ns, rfl, hRange⟩ := tokens_of_holds hItems
  have hNs : ns ≠ [] := by simpa using hSome
  have hStored := arrayStored_iff readJson path name indexed hDoc hNs hRange
  have hElements : (∀ value ∈ ns.map t.token, ElementKept path t.type value) ↔
      (∀ n ∈ ns, t.Survives n) ∧ t.ArrayFits path := by
    have hEach : (∀ value ∈ ns.map t.token, ElementKept path t.type value) ↔
        ∀ n ∈ ns, t.Survives n ∧ t.ArrayFits path := by
      rw [List.forall_mem_map]
      exact forall₂_congr fun n hn => elementKept_token (hRange n hn)
    rw [hEach]
    constructor
    · intro hAll
      obtain ⟨n, hn⟩ := List.exists_mem_of_ne_nil _ hNs
      exact ⟨fun m hm => (hAll m hm).1, (hAll n hn).2⟩
    · rintro ⟨hSurvive, hFits⟩ n hn
      exact ⟨hSurvive n hn, hFits⟩
  rw [hElements, List.length_map, ← hStored, ArrayStored]
  have hSingle (value : PgValue) : storeToken encoders readJson path
      ((SolType.array t.type).input name indexed) (.array (ns.map t.token)) ≠ some (.single value) := by
    have hShape := @storeToken_of_shape encoders readJson path name indexed t .array
      (.array (ns.map t.token))
    intro hStore
    rw [IntegerType.Shape.type] at hShape
    rw [hShape] at hStore
    split at hStore
    · exact storeWrapper_ne_single value hStore
    · cases hStore
  refine (elements_iff hSingle).trans (exists_congr fun values => and_congr_right fun _ => ?_)
  exact forall₂_same hRange values

/-! ### Arrays that are lost -/

theorem not_kept_of_error {type : SolType} {value : DynSolValue}
    (h : mapLogTokenToEthereumWrapper (type.input name indexed) value = .error ⟨⟩) :
    ¬ ArrayKept encoders readJson path name indexed type value := by
  rintro ⟨cell, hStore, -⟩
  obtain ⟨column, -, hWritten⟩ := Option.bind_eq_some_iff.mp hStore
  rw [h] at hWritten
  cases hWritten

/-- An empty value of a type with the brackets of an array is an empty array, which is NULL. -/
theorem toSql_of_empty {abiType : List Char} {wrapper : EthereumSqlTypeWrapper} (ty : PgType)
    (hArray : "[]".toList.isSuffixOf abiType = true)
    (hEmpty : solidityTypeToEthereumSqlTypeWrapper abiType = .ok (some wrapper)) :
    wrapper.toSql encoders ty = .ok none := by
  rw [solidityTypeToEthereumSqlTypeWrapper] at hEmpty
  simp only [hArray, if_true] at hEmpty
  split_ifs at hEmpty
  · cases hEmpty
    rfl
  · cases hEmpty
    rfl
  · cases hEmpty
    rfl
  · cases hEmpty
    rfl
  · split at hEmpty
    · cases hEmpty
    · cases hKind : intWrapper _ _ with
      | none =>
        rw [hKind] at hEmpty
        cases hEmpty
      | some kind =>
        rw [hKind] at hEmpty
        cases hEmpty
        rfl
  · cases hEmpty

theorem components_of_plain {type : SolType} (hTuple : type.innermost.IsTuple = false) :
    type.components = none := by
  by_contra hSome
  obtain ⟨components, hSome⟩ := Option.ne_none_iff_exists'.mp hSome
  have hInner := SolType.components_eq_some.mp ⟨components, hSome⟩
  rw [hTuple] at hInner
  cases hInner

theorem not_kept_nil (hTuple : item.innermost.IsTuple = false) :
    ¬ ArrayKept encoders readJson path name indexed (.array item) (.array []) := by
  rintro ⟨cell, hStore, hKeeps⟩
  have hArray : "[]".toList.isSuffixOf (SolType.array item).text = true := by
    rw [SolType.text]
    exact (brackets_of_array item.text).1
  have hPrefix := (SolType.array item).isPrefixOf_tuple
  rw [SolType.innermost, hTuple, Bool.false_and] at hPrefix
  have hComponents := @components_of_plain (.array item) hTuple
  have hMap : mapLogTokenToEthereumWrapper ((SolType.array item).input name indexed) (.array []) =
      (unwrapOrPanic (solidityTypeToEthereumSqlTypeWrapper (SolType.array item).text)).map ([·]) := by
    rw [mapLogTokenToEthereumWrapper, mapArray, SolType.input, ABIInput.type, ABIInput.components,
      hPrefix, if_neg (by decide), hComponents]
  obtain ⟨column, -, hWritten⟩ := Option.bind_eq_some_iff.mp hStore
  rw [hMap] at hWritten
  cases hEmpty : solidityTypeToEthereumSqlTypeWrapper (SolType.array item).text with
  | error e =>
    rw [hEmpty] at hWritten
    cases hWritten
  | ok empty =>
    rw [hEmpty] at hWritten
    cases empty with
    | none => cases hWritten
    | some wrapper =>
      have hNull := @toSql_of_empty encoders _ _ (path.type wrapper column) hArray hEmpty
      simp only [unwrapOrPanic, Except.map, storeWrapper, hNull, readColumn] at hWritten
      cases hWritten
      cases hKeeps

/-- Dynamic bytes are not collected, and no element is left. -/
theorem not_kept_bytes (hItems : ∀ value ∈ items, SolType.bytes.Holds value) :
    ¬ ArrayKept encoders readJson path name indexed (.array .bytes) (.array items) := by
  cases items with
  | nil => exact not_kept_nil rfl
  | cons first rest =>
    have hBytes : ∀ value ∈ first :: rest, DynSolValue.asFixedBytes value = none := by
      intro value hMem
      have hHolds := hItems value hMem
      cases value <;> first | rfl | cases hHolds
    have hMap : mapArray ((SolType.array .bytes).input name indexed) (first :: rest) =
        .ok [.vecBytes []] := by
      have hFirst := hItems first List.mem_cons_self
      have hNone := List.filterMap_eq_nil_iff.mpr hBytes
      cases first with
      | bytes b =>
        rw [mapArray]
        rw [hNone]
      | _ => cases hFirst
    have hColumn : (solidityTypeToDbType (SolType.array .bytes).text).bind columnType =
        some (.array .bytea) := rfl
    rw [arrayKept_of_map hColumn hMap]
    rintro ⟨cell, hStore, hElements⟩
    have hNull : storeWrapper encoders readJson path (.array .bytea) (.vecBytes []) = some .null := rfl
    rw [hNull] at hStore
    cases hStore
    cases hElements

/-- No functions and no arrays are elements. -/
theorem mapArray_error (input : ABIInput) (hSome : items ≠ [])
    (hItems : ∀ value ∈ items, item.Holds value)
    (hItem : item = .function ∨ item.IsArray = true) : mapArray input items = .error ⟨⟩ := by
  cases items with
  | nil => exact absurd rfl hSome
  | cons first rest =>
    have hFirst := hItems first List.mem_cons_self
    cases item with
    | function => cases first <;> first | rfl | cases hFirst
    | array inner => cases first <;> first | rfl | cases hFirst
    | fixedArray inner length => cases first <;> first | rfl | cases hFirst
    | _ => exact absurd hItem (by simp [SolType.IsArray])

/-- The column of an array of fixed length is the one of its element. -/
theorem column_of_fixed {text : List Char} {column : PgType}
    (hArray : "[]".toList.isSuffixOf text = false) (hTuple : "tuple[".toList.isPrefixOf text = false)
    (hColumn : (solidityTypeToDbType text).bind columnType = some column) :
    ∃ base, column = .base base ∧ base ≠ .jsonb := by
  have hTexts : ∀ sqlType, solidityTypeToDbType text = some sqlType → sqlType ∈ ["CHAR(42)", "BOOLEAN",
      "TEXT", "BYTEA", "SMALLINT", "INTEGER", "NUMERIC", "VARCHAR(78)"] := by
    intro sqlType hType
    have hNotTuple : ¬ "tuple[".toList.isPrefixOf text = true := by
      rw [hTuple]
      decide
    rw [solidityTypeToDbType] at hType
    dsimp only at hType
    rw [if_neg hNotTuple] at hType
    obtain ⟨base, hBase, hSame⟩ := Option.map_eq_some_iff.mp hType
    rw [hArray, if_pos (by decide)] at hSame
    rw [← hSame]
    clear hSame hType
    generalize (trimBrackets text.reverse).reverse = baseType at hBase
    by_cases hAddress : baseType = "address".toList
    · rw [if_pos hAddress] at hBase
      exact Option.some.inj hBase ▸ by simp
    rw [if_neg hAddress] at hBase
    by_cases hBool : baseType = "bool".toList
    · rw [if_pos hBool] at hBase
      exact Option.some.inj hBase ▸ by simp
    rw [if_neg hBool] at hBase
    by_cases hString : baseType = "string".toList
    · rw [if_pos hString] at hBase
      exact Option.some.inj hBase ▸ by simp
    rw [if_neg hString] at hBase
    by_cases hBytes : "bytes".toList.isPrefixOf baseType = true
    · rw [if_pos hBytes] at hBase
      exact Option.some.inj hBase ▸ by simp
    rw [if_neg hBytes] at hBase
    by_cases hInt : ("int".toList.isPrefixOf baseType || "uint".toList.isPrefixOf baseType) = true
    · rw [if_pos hInt] at hBase
      obtain ⟨size, -, hSize⟩ := Option.bind_eq_some_iff.mp hBase
      split_ifs at hSize <;> exact Option.some.inj hSize ▸ by simp
    · rw [if_neg hInt] at hBase
      cases hBase
  have hColumns : ∀ sqlType ∈ ["CHAR(42)", "BOOLEAN", "TEXT", "BYTEA", "SMALLINT", "INTEGER", "NUMERIC",
      "VARCHAR(78)"], ∃ base, columnType sqlType = some (.base base) ∧ base ≠ .jsonb := by
    simp only [List.forall_mem_cons]
    exact ⟨⟨.bpchar, rfl, by decide⟩, ⟨.bool, rfl, by decide⟩, ⟨.text, rfl, by decide⟩,
      ⟨.bytea, rfl, by decide⟩, ⟨.int2, rfl, by decide⟩, ⟨.int4, rfl, by decide⟩,
      ⟨.numeric, rfl, by decide⟩, ⟨.varchar, rfl, by decide⟩, fun _ hMem => absurd hMem List.not_mem_nil⟩
  obtain ⟨sqlType, hType, hColumn⟩ := Option.bind_eq_some_iff.mp hColumn
  obtain ⟨base, hBase, hNe⟩ := hColumns sqlType (hTexts sqlType hType)
  rw [hColumn] at hBase
  exact ⟨base, Option.some.inj hBase, hNe⟩

/-- Only a column of JSON has JSON. -/
theorem readBase_ne_json {base : PgBase} {bytes : List UInt8} {json : JsonValue}
    (hBase : base ≠ .jsonb) : readBase readJson base bytes ≠ some (.json json) := by
  intro hRead
  rw [readBase.eq_def] at hRead
  cases base with
  | jsonb => exact hBase rfl
  | bool =>
    simp only at hRead
    split at hRead <;> cases hRead
  | bytea => cases hRead
  | int2 | int4 | int8 =>
    simp only at hRead
    split at hRead <;> cases hRead
  | text | numeric =>
    obtain ⟨read, -, hSame⟩ := Option.map_eq_some_iff.mp hRead
    cases hSame
  | bpchar | varchar =>
    obtain ⟨s, -, hSame⟩ := Option.bind_eq_some_iff.mp hRead
    split at hSame <;> cases hSame

theorem not_kept_fixed {length : Nat} (hTuple : item.innermost.IsTuple = false) (value : DynSolValue) :
    ¬ ArrayKept encoders readJson path name indexed (.fixedArray item length) value := by
  rintro ⟨cell, hStore, hKeeps⟩
  have hArray : "[]".toList.isSuffixOf (SolType.fixedArray item length).text = false := by
    rw [SolType.text]
    exact (brackets_of_length item.text length).1
  have hPrefix := (SolType.fixedArray item length).isPrefixOf_tuple
  rw [SolType.innermost, hTuple, Bool.false_and] at hPrefix
  obtain ⟨column, hColumn, hWritten⟩ := Option.bind_eq_some_iff.mp hStore
  obtain ⟨base, rfl, hBase⟩ := column_of_fixed hArray hPrefix hColumn
  have hNone : ∀ {items}, ¬ cell.Elements item items := by
    intro items hElements
    split at hWritten
    · rw [storeWrapper] at hWritten
      split at hWritten
      · next bytes _ =>
        cases bytes with
        | none =>
          cases hWritten
          cases hElements
        | some bytes =>
          obtain ⟨read, hRead, rfl⟩ := Option.map_eq_some_iff.mp hWritten
          cases read with
          | json json => exact readBase_ne_json hBase hRead
          | _ => cases hElements
      · cases hWritten
    · cases hWritten
  cases value with
  | fixedArray items => exact hNone hKeeps
  | _ => cases hKeeps

/-! ### Arrays of tuples -/

/-- The one JSON value of an array of tuples. -/
theorem kept_json (hJson : encoders.JsonDocumented readJson) {type : SolType} {value : DynSolValue}
    {values : List JsonValue} (hArray : type.IsArray = true) (hTuple : type.innermost.IsTuple = true)
    (hMap : mapLogTokenToEthereumWrapper (type.input name indexed) value = .ok [.jsonb (.array values)])
    (hNumberless : Numberless (.array values)) :
    ArrayKept encoders readJson path name indexed type value ↔
      ZeroFree (.array values) ∧ (PgCell.single (.json (.array values))).Keeps type value := by
  have hPrefix := type.isPrefixOf_tuple
  rw [hTuple, hArray, Bool.and_self] at hPrefix
  have hColumn : (solidityTypeToDbType type.text).bind columnType = some (.base .jsonb) := by
    rw [solidityTypeToDbType]
    dsimp only
    rw [if_pos hPrefix]
    rfl
  have hStore : storeToken encoders readJson path (type.input name indexed) value =
      (readJson (encoders.json (.array values))).map fun json => .single (.json json) := by
    have hText : (type.input name indexed).type = type.text := rfl
    rw [storeToken, hText, hColumn, Option.bind_some, hMap]
    exact Option.map_map _ _ _
  rw [ArrayKept, hStore]
  by_cases hZero : ZeroFree (.array values)
  · rw [hJson.read _ hNumberless hZero, Option.map_some, and_iff_right hZero]
    constructor
    · rintro ⟨cell, hSame, hKeeps⟩
      cases hSame
      exact hKeeps
    · exact fun hKeeps => ⟨_, rfl, hKeeps⟩
  · rw [hJson.refused _ hNumberless hZero]
    exact iff_of_false (by rintro ⟨_, ⟨⟩, _⟩) fun hBoth => hZero hBoth.1

theorem mapArray_tuples {isStruct : Bool} {fields : List (List Char × SolType)} {input : ABIInput}
    (hComponents : input.components = some (SolType.fieldInputs fields)) (hSome : items ≠ [])
    (hItems : ∀ value ∈ items, (SolType.tuple isStruct fields).Holds value) :
    mapArray input items = .ok [.jsonb (.array (itemsToJson input items))] := by
  have hEach : ∀ value ∈ items, ∃ nested, value.asTuple = some nested ∧
      tupleToJsonValue (SolType.fieldInputs fields) nested = itemToJson input value := by
    intro value hMem
    have hHolds := hItems value hMem
    cases value with
    | tuple nested | customStruct nested =>
      refine ⟨nested, rfl, ?_⟩
      simp only [itemToJson, hComponents, tupleToJsonValue]
    | _ => cases isStruct <;> cases hHolds
  have hJson : (items.filterMap DynSolValue.asTuple).map
      (tupleToJsonValue (SolType.fieldInputs fields)) = itemsToJson input items := by
    rw [itemsToJson_eq]
    clear hItems hSome
    induction items with
    | nil => rfl
    | cons value items ih =>
      obtain ⟨⟨nested, hTuple, hSame⟩, hRest⟩ := List.forall_mem_cons.mp hEach
      rw [List.filterMap_cons, hTuple, List.map_cons, List.map_cons, hSame, ih hRest]
  rw [← hJson]
  cases items with
  | nil => exact absurd rfl hSome
  | cons first rest =>
    have hFirst := hItems first List.mem_cons_self
    cases first with
    | tuple nested | customStruct nested => simp only [mapArray, hComponents]
    | _ => cases isStruct <;> cases hFirst

theorem elements_json (path : WritePath) {isStruct : Bool} {fields : List (List Char × SolType)} {input : ABIInput}
    (hComponents : input.components = some (SolType.fieldInputs fields))
    (hItems : ∀ value ∈ items, (SolType.tuple isStruct fields).Holds value) :
    (ZeroFree (.array (itemsToJson input items)) ∧
      List.Forall₂ (SolType.tuple isStruct fields).JsonOf items (itemsToJson input items)) ↔
      ∀ value ∈ items, ElementKept path (.tuple isStruct fields) value := by
  refine items_kept_iff fun value hMem => ?_
  exact written_kept_iff true (.tuple isStruct fields) input value hComponents (hItems value hMem)

/-! ### All arrays -/

theorem array_kept_iff (hDoc : encoders.Documented) (hJson : encoders.JsonDocumented readJson)
    (hForm : item.WellFormed) (hItems : ∀ value ∈ items, item.Holds value) :
    ArrayKept encoders readJson path name indexed (.array item) (.array items) ↔
      ArrayKeeps path (.array item) (.array items) := by
  have hArray : (SolType.array item).IsArray = true := rfl
  rw [ArrayKeeps]
  by_cases hSome : items = []
  · subst hSome
    cases hTuple : item.innermost.IsTuple with
    | false => exact iff_of_false (not_kept_nil hTuple) fun hKeeps => (hKeeps.2 rfl).1 rfl
    | true =>
      have hPrefix := (SolType.array item).isPrefixOf_tuple
      rw [SolType.innermost, hTuple, hArray, Bool.and_self] at hPrefix
      have hMap : mapLogTokenToEthereumWrapper ((SolType.array item).input name indexed) (.array []) =
          .ok [.jsonb (.array [])] := by
        rw [mapLogTokenToEthereumWrapper, mapArray, SolType.input, ABIInput.type, if_pos hPrefix]
      rw [kept_json hJson hArray hTuple hMap trivial]
      exact iff_of_true ⟨trivial, .nil⟩ ⟨fun _ hMem => absurd hMem List.not_mem_nil, by rintro ⟨⟩⟩
  · have hLost (hItem : item = .function ∨ item.IsArray = true) :
        ¬ ArrayKept encoders readJson path name indexed (.array item) (.array items) := by
      refine not_kept_of_error ?_
      rw [mapLogTokenToEthereumWrapper]
      exact mapArray_error _ hSome hItems hItem
    have hNone (hElement : ∀ value, ¬ ElementKept path item value) :
        ¬ ∀ value ∈ items, ElementKept path item value := by
      intro hAll
      obtain ⟨value, hMem⟩ := List.exists_mem_of_ne_nil _ hSome
      exact hElement value (hAll value hMem)
    have hPlain (hTuple : item.innermost.IsTuple = false) :
        ((∀ value ∈ items, ElementKept path item value) ∧
          (item.innermost.IsTuple = false → items ≠ [] ∧ items.length < 2 ^ 31)) ↔
        items.length < 2 ^ 31 ∧ ∀ value ∈ items, ElementKept path item value := by
      rw [and_comm]
      exact and_congr_left fun _ => ⟨fun h => (h hTuple).2, fun h _ => ⟨hSome, h⟩⟩
    cases item with
    | address =>
      rw [hPlain rfl, kept_addresses hSome hItems]
      exact (and_iff_left fun _ _ => trivial).symm
    | bool =>
      rw [hPlain rfl, kept_bools hSome hItems]
      exact (and_iff_left fun _ _ => trivial).symm
    | fixedBytes size =>
      rw [hPlain rfl, kept_fixedBytes hSome hItems]
      exact (and_iff_left fun _ _ => trivial).symm
    | string => rw [hPlain rfl, kept_strings hSome hItems]
    | int bits =>
      rw [hPlain rfl]
      exact @kept_integers _ _ _ _ _ _ ⟨true, bits, hForm⟩ hDoc hSome hItems
    | uint bits =>
      rw [hPlain rfl]
      exact @kept_integers _ _ _ _ _ _ ⟨false, bits, hForm⟩ hDoc hSome hItems
    | bytes => exact iff_of_false (not_kept_bytes hItems) fun hKeeps => hNone (fun _ => id) hKeeps.1
    | function => exact iff_of_false (hLost (.inl rfl)) fun hKeeps => hNone (fun _ => id) hKeeps.1
    | array inner => exact iff_of_false (hLost (.inr rfl)) fun hKeeps => hNone (fun _ => id) hKeeps.1
    | fixedArray inner length =>
      exact iff_of_false (hLost (.inr rfl)) fun hKeeps => hNone (fun _ => id) hKeeps.1
    | tuple isStruct fields =>
      have hMap : mapLogTokenToEthereumWrapper
          ((SolType.array (.tuple isStruct fields)).input name indexed) (.array items) = .ok [.jsonb
            (.array (itemsToJson ((SolType.array (.tuple isStruct fields)).input name indexed) items))] := by
        rw [mapLogTokenToEthereumWrapper]
        exact mapArray_tuples rfl hSome hItems
      rw [kept_json hJson hArray rfl hMap (numberless_items _ items)]
      refine (elements_json path rfl hItems).trans ?_
      exact (and_iff_left (by rintro ⟨⟩)).symm

theorem fixedArray_kept_iff (hJson : encoders.JsonDocumented readJson) {length : Nat}
    (hLength : items.length = length) (hSome : 1 ≤ length) (hItems : ∀ value ∈ items, item.Holds value) :
    ArrayKept encoders readJson path name indexed (.fixedArray item length) (.fixedArray items) ↔
      ArrayKeeps path (.fixedArray item length) (.fixedArray items) := by
  have hArray : (SolType.fixedArray item length).IsArray = true := rfl
  have hNotNil : items ≠ [] := List.ne_nil_of_length_pos (by omega)
  rw [ArrayKeeps]
  cases hTuple : item.innermost.IsTuple with
  | false =>
    refine iff_of_false (not_kept_fixed hTuple _) fun hKeeps => ?_
    cases item with
    | tuple isStruct fields => cases hTuple
    | _ => cases hKeeps.1
  | true =>
    cases item with
    | tuple isStruct fields =>
      have hMap : mapLogTokenToEthereumWrapper
          ((SolType.fixedArray (.tuple isStruct fields) length).input name indexed) (.fixedArray items) =
            .ok [.jsonb (.array (itemsToJson
              ((SolType.fixedArray (.tuple isStruct fields) length).input name indexed) items))] := by
        rw [mapLogTokenToEthereumWrapper]
        exact mapArray_tuples rfl hNotNil hItems
      rw [kept_json hJson hArray rfl hMap (numberless_items _ items)]
      exact (elements_json path rfl hItems).trans (and_iff_right rfl).symm
    | array inner | fixedArray inner size =>
      refine iff_of_false (not_kept_of_error ?_) fun hKeeps => nomatch hKeeps.1
      rw [mapLogTokenToEthereumWrapper]
      exact mapArray_error _ hNotNil hItems (.inr rfl)
    | _ => cases hTuple

/-- Which array parameters come back from their columns as they were decoded. -/
theorem arrays_kept_iff {type : SolType} {value : DynSolValue} (hDoc : encoders.Documented)
    (hJson : encoders.JsonDocumented readJson) (hForm : type.WellFormed) (hArray : type.IsArray = true)
    (hHolds : type.Holds value) :
    ArrayKept encoders readJson path name indexed type value ↔ ArrayKeeps path type value := by
  cases type with
  | array item =>
    cases value with
    | array items => exact array_kept_iff hDoc hJson hForm hHolds
    | _ => cases hHolds
  | fixedArray item length =>
    cases value with
    | fixedArray items => exact fixedArray_kept_iff hJson hHolds.1 hForm.2 hHolds.2
    | _ => cases hHolds
  | _ => cases hArray

end Kept

/-- The encoders of whole groups and of texts. -/
def columnEncoders : Encoders := ⟨groupEncoders.decimal, writeJson⟩

theorem documented_columnEncoders : columnEncoders.Documented :=
  ⟨documented_groupEncoders.decimal, documented_groupEncoders.decimal_length⟩

/-- `Leg[] legs`, structs of a text and a number, with two of them. -/
def legs : SolType := .array (.tuple true [("note".toList, .string), ("amount".toList, .uint 256)])

theorem legs_kept : ArrayKept columnEncoders readWritten .copy "legs".toList none legs
    (.array [.customStruct [.string "in".toList, .uint 7 256],
      .customStruct [.string "out".toList, .uint 5 256]]) := by
  refine (arrays_kept_iff documented_columnEncoders (documented_writeJson _) ?_ rfl ?_).mpr ?_
  · exact ⟨List.cons_ne_nil _ _, trivial, ⟨by decide, by decide, by decide⟩, trivial⟩
  · intro value hMem
    rcases List.mem_pair.mp hMem with rfl | rfl
    · exact ⟨trivial, ⟨rfl, by decide⟩, trivial⟩
    · exact ⟨trivial, ⟨rfl, by decide⟩, trivial⟩
  · refine ⟨fun value hMem => ?_, fun hFalse => nomatch hFalse⟩
    rcases List.mem_pair.mp hMem with rfl | rfl
    · have hNote : '\x00' ∉ "in".toList := by decide
      exact ⟨rfl, ⟨by decide, by decide⟩, hNote, trivial, trivial⟩
    · have hNote : '\x00' ∉ "out".toList := by decide
      exact ⟨rfl, ⟨by decide, by decide⟩, hNote, trivial, trivial⟩

/-- One element of dynamic bytes is dropped, and no element at all is NULL. -/
theorem arrays_lost :
    ((SolType.array .bytes).Holds (.array [.bytes [1]]) ∧
      ¬ ArrayKept columnEncoders readWritten .copy "data".toList none (.array .bytes)
        (.array [.bytes [1]])) ∧
    ((SolType.array (.uint 256)).Holds (.array []) ∧
      ¬ ArrayKept columnEncoders readWritten .copy "fills".toList none (.array (.uint 256))
        (.array [])) := by
  have hBytes : ∀ value ∈ [DynSolValue.bytes [1]], SolType.bytes.Holds value := by
    intro value hMem
    obtain rfl := List.mem_singleton.mp hMem
    trivial
  exact ⟨⟨hBytes, not_kept_bytes hBytes⟩, (fun _ hMem => nomatch hMem), not_kept_nil rfl⟩

end Rindexer.SqlTypes
