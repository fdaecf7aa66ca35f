import Rindexer.Extraction.Columns
import Rindexer.Lib.Bytes

/-! Which decoded values become a column's value that denotes them.  A number that does not fit is cut,
taken as a signed one or a panic, and what has no conversion becomes the debug text. -/

namespace Rindexer.Extraction

open Rindexer.Filter (U256 i256FromRaw)
open Rindexer.Lib
open Rindexer.Manifest (ColumnType)
open Rindexer.Tables (Panic)

/-! ### The same value -/

/-- The value of a column is the number: as an integer or as its text, as a truth value, an address or
the seconds of a date. -/
def EthereumSqlTypeWrapper.HasNumber (n : Int) : EthereumSqlTypeWrapper → Prop
  | u8 k | u16 k | u32 k | u64BigInt k => (k : Int) = n
  | u256Numeric k => (k.val : Int) = n
  | i8 k | i16 k | i32 k | i64 k | i256Numeric k => k = n
  | bool b => b.toInt = n
  | address a => a.length = 20 ∧ (ofBigEndian a : Int) = n
  | string s => s = (toString n).toList
  | dateTime seconds nanos => seconds = n ∧ nanos = 0
  | _ => False

/-- The value of a column is the decoded one; bytes may be their hexadecimal text. -/
def DynSolValue.Denotes : DynSolValue → EthereumSqlTypeWrapper → Prop
  | uint n _, wrapper => wrapper.HasNumber n.val
  | int n _, wrapper => wrapper.HasNumber n
  | bool b, wrapper => wrapper.HasNumber b.toInt
  | address a, .address a' => a' = a
  | string s, .string s' => s' = s
  | fixedBytes word _, .b256 b | fixedBytes word _, .bytes b => b = word
  | fixedBytes word _, .string s | fixedBytes word _, .stringChar s => s = hexText word
  | bytes b, .bytes b' => b' = b
  | bytes b, .string s => s = hexText b
  | array items, .vecAddress addresses => items = addresses.map address
  | _, _ => False

/-- No value, or one that denotes the decoded value: neither a panic nor another value. -/
def Exact (value : DynSolValue) (outcome : Except Panic (Option EthereumSqlTypeWrapper)) : Prop :=
  outcome = .ok none ∨ ∃ wrapper, outcome = .ok (some wrapper) ∧ value.Denotes wrapper

/-! ### Values that fit -/

def UintFits (n : Nat) : ColumnType → Prop
  | .uint8 => n < 2 ^ 8
  | .uint16 => n < 2 ^ 16
  | .uint32 => n < 2 ^ 32
  | .uint64 => n < 2 ^ 64
  | .int8 => n < 2 ^ 7
  | .int16 => n < 2 ^ 15
  | .int32 => n < 2 ^ 31
  | .int64 | .timestamp => n < 2 ^ 63
  | .int128 | .int256 => n < 2 ^ 255
  | .bool => n < 2
  | .address => n < 2 ^ 160
  | _ => True

def IntFits (n : Int) : ColumnType → Prop
  | .int8 => -2 ^ 7 ≤ n ∧ n < 2 ^ 7
  | .int16 => -2 ^ 15 ≤ n ∧ n < 2 ^ 15
  | .int32 => -2 ^ 31 ≤ n ∧ n < 2 ^ 31
  | .int64 => -2 ^ 63 ≤ n ∧ n < 2 ^ 63
  | _ => True

/-- The values that a column of the type takes as they are: of the arrays only those of addresses, of
bytes only those in texts and words, and neither functions nor tuples. -/
def Converts (columnType : ColumnType) : DynSolValue → Prop
  | .uint n _ => UintFits n.val columnType
  | .int n _ => IntFits n columnType
  | .bool _ | .address _ => True
  | .string s => columnType = .string → '\x00' ∉ s
  | .fixedBytes _ _ => columnType = .bytes32 ∨ columnType = .string
  | .bytes _ => columnType = .string
  | .array items => columnType = .array .address ∧ ∀ item ∈ items, ∃ a, item = .address a
  | _ => False

/-- A debug text begins with the name of the case. -/
def Library.NamesCases (lib : Library) : Prop := ∀ value, (lib.debug value).head? ≠ some '0'

/-! ### Integers -/

theorem exact_ok {value : DynSolValue} {wrapper : EthereumSqlTypeWrapper} :
    Exact value (.ok (some wrapper)) ↔ value.Denotes wrapper := by
  constructor
  · rintro (hNone | ⟨other, hSame, hDenotes⟩)
    · cases hNone
    · cases hSame
      exact hDenotes
  · exact fun hDenotes => .inr ⟨wrapper, rfl, hDenotes⟩

theorem not_exact_error {value : DynSolValue} : ¬ Exact value (.error ⟨⟩) := by
  rintro (hNone | ⟨wrapper, hSame, -⟩)
  · cases hNone
  · cases hSame

/-- A narrowed number is exact where it fits. -/
theorem exact_narrow {value : DynSolValue} {bits n : Nat} {make : Nat → EthereumSqlTypeWrapper}
    (hMake : value.Denotes (make n)) :
    Exact value (((narrow bits n).map make).map some) ↔ n < 2 ^ bits := by
  rw [narrow]
  by_cases hFits : n < 2 ^ bits
  · rw [if_pos hFits]
    exact iff_of_true (exact_ok.mpr hMake) hFits
  · rw [if_neg hFits]
    exact iff_of_false not_exact_error hFits

theorem asSigned_eq_iff {bits : Nat} {n : Int} :
    asSigned (bits + 1) n = n ↔ -2 ^ bits ≤ n ∧ n < 2 ^ bits := by
  have hCast : ((2 ^ (bits + 1) : Nat) : Int) = 2 * 2 ^ bits := by
    push_cast
    ring
  have hPos : 0 < 2 ^ (bits + 1) := by positivity
  rw [asSigned]
  constructor
  · intro hSame
    have hLow := @Int.le_bmod n (2 ^ (bits + 1)) hPos
    have hHigh := @Int.bmod_lt n (2 ^ (bits + 1)) hPos
    rw [hSame, hCast] at hLow hHigh
    omega
  · rintro ⟨hLow, hHigh⟩
    apply Int.bmod_eq_of_le
    · rw [hCast]
      omega
    · rw [hCast]
      omega

theorem i256FromRaw_eq_iff (n : U256) : i256FromRaw n = n.val ↔ n.val < 2 ^ 255 := by
  rw [i256FromRaw]
  split <;> omega

/-- Taken as a signed number and cut, an unsigned one stays where it fits the positive half. -/
theorem asSigned_i256FromRaw_eq_iff {bits : Nat} (hBits : bits < 255) (n : U256) :
    asSigned (bits + 1) (i256FromRaw n) = n.val ↔ n.val < 2 ^ bits := by
  have hPow : 2 ^ bits < 2 ^ 255 := Nat.pow_lt_pow_right (by decide) hBits
  have hCast : ((2 ^ (bits + 1) : Nat) : Int) = 2 * 2 ^ bits := by
    push_cast
    ring
  have hNat : ((2 ^ bits : Nat) : Int) = 2 ^ bits := by push_cast; rfl
  by_cases hSmall : n.val < 2 ^ 255
  · have hRaw := (i256FromRaw_eq_iff n).mpr hSmall
    rw [hRaw, asSigned_eq_iff]
    omega
  · have hHigh := @Int.bmod_lt (i256FromRaw n) (2 ^ (bits + 1)) (by positivity)
    rw [hCast] at hHigh
    rw [asSigned]
    omega

theorem length_lowBytes (n : U256) : (lowBytes n).length = 20 := by
  rw [lowBytes, List.length_map, List.length_range]

theorem bigEndian_eq_map (len n : Nat) :
    bigEndian len n = (List.range len).map fun i => UInt8.ofNat (n / 256 ^ (len - 1 - i)) := by
  induction len generalizing n with
  | zero => rfl
  | succ len ih =>
    rw [bigEndian, ih, List.range_succ, List.map_append, List.map_singleton]
    congr 1
    · refine List.map_congr_left fun i hi => ?_
      have hLess := List.mem_range.mp hi
      have hPow : 256 * 256 ^ (len - 1 - i) = 256 ^ (len + 1 - 1 - i) := by
        rw [← pow_succ']
        congr 1
        omega
      rw [Nat.div_div_eq_div_mul, hPow]
    · simp

theorem lowBytes_eq (n : U256) : lowBytes n = bigEndian 20 n.val := (bigEndian_eq_map 20 n.val).symm

theorem ofBigEndian_lowBytes (n : U256) :
    ofBigEndian (lowBytes n) = n.val ↔ n.val < 2 ^ 160 := by
  rw [lowBytes_eq, ofBigEndian_bigEndian]
  have hPow : 256 ^ 20 = 2 ^ 160 := by norm_num
  rw [hPow]
  exact ⟨fun hSame => hSame ▸ Nat.mod_lt _ (by positivity), Nat.mod_eq_of_lt⟩

/-! ### Decoded values -/

section Values

variable {lib : Library}

theorem exact_uint (n : U256) (bits : Nat) (columnType : ColumnType) :
    Exact (.uint n bits) ((uintToWrapper lib n columnType).map some) ↔ UintFits n.val columnType := by
  cases columnType with
  | uint8 | uint16 | uint32 | uint64 => exact exact_narrow rfl
  | int8 => exact exact_ok.trans (asSigned_i256FromRaw_eq_iff (by decide) n)
  | int16 => exact exact_ok.trans (asSigned_i256FromRaw_eq_iff (by decide) n)
  | int32 => exact exact_ok.trans (asSigned_i256FromRaw_eq_iff (by decide) n)
  | int64 => exact exact_ok.trans (asSigned_i256FromRaw_eq_iff (by decide) n)
  | int128 | int256 => exact exact_ok.trans (i256FromRaw_eq_iff n)
  | uint128 | uint256 | bytes | bytes32 | array inner => exact iff_of_true (exact_ok.mpr rfl) trivial
  | string => exact iff_of_true (exact_ok.mpr rfl) trivial
  | address =>
    refine exact_ok.trans ?_
    rw [UintFits, ← ofBigEndian_lowBytes]
    exact (and_iff_right (length_lowBytes n)).trans Int.ofNat_inj
  | bool =>
    refine exact_ok.trans ?_
    change (n != 0).toInt = (n.val : Int) ↔ n.val < 2
    by_cases hZero : n = 0
    · subst hZero
      decide
    · have hVal : n.val ≠ 0 := fun hVal => hZero (Fin.ext hVal)
      have hTrue : (n != 0) = true := bne_iff_ne.mpr hZero
      rw [hTrue]
      change (1 : Int) = n.val ↔ n.val < 2
      omega
  | timestamp =>
    rw [uintToWrapper, narrow, UintFits]
    by_cases hFits : n.val < 2 ^ 63
    · rw [if_pos hFits]
      refine iff_of_true ?_ hFits
      change Exact _ (.ok (some (if lib.isTimestamp n.val then .dateTime n.val 0 else .u256Numeric n)))
      split
      · exact exact_ok.mpr ⟨rfl, rfl⟩
      · exact exact_ok.mpr rfl
    · rw [if_neg hFits]
      exact iff_of_false not_exact_error hFits

theorem exact_int (n : Int) (bits : Nat) (columnType : ColumnType) :
    Exact (.int n bits) (.ok (some (intToWrapper n columnType))) ↔ IntFits n columnType := by
  rw [exact_ok]
  cases columnType with
  | int8 => exact asSigned_eq_iff
  | int16 => exact asSigned_eq_iff
  | int32 => exact asSigned_eq_iff
  | int64 => exact asSigned_eq_iff
  | _ => exact iff_of_true rfl trivial

theorem denotes_bool (b : Bool) (columnType : ColumnType) :
    (DynSolValue.bool b).Denotes (boolToWrapper b columnType) := by
  cases columnType <;> cases b <;> rfl

theorem filter_zero_eq_iff (s : List Char) : s.filter (·.toNat ≠ 0) = s ↔ '\x00' ∉ s := by
  rw [List.filter_eq_self]
  constructor
  · intro hAll hMem
    exact absurd (hAll _ hMem) (by decide)
  · intro hNone c hc
    refine decide_eq_true fun hZero => hNone ?_
    have hChar : c = '\x00' := Char.toNat_inj.mp hZero
    exact hChar ▸ hc

theorem map_filterMap_asAddress {items : List DynSolValue} :
    items = (items.filterMap DynSolValue.asAddress).map .address ↔
      ∀ item ∈ items, ∃ a, item = .address a := by
  constructor
  · intro hSame item hMem
    rw [hSame] at hMem
    obtain ⟨a, -, rfl⟩ := List.mem_map.mp hMem
    exact ⟨a, rfl⟩
  · intro hAll
    induction items with
    | nil => rfl
    | cons item items ih =>
      obtain ⟨⟨a, rfl⟩, hRest⟩ := List.forall_mem_cons.mp hAll
      exact congrArg (DynSolValue.address a :: ·) (ih hRest)

/-- A decoded value is exact in a column of a type, or panics or changes, by whether it fits. -/
theorem exact_value (hNames : lib.NamesCases) (value : DynSolValue) (columnType : ColumnType) :
    Exact value ((dynSolValueToWrapper lib value columnType).map some) ↔ Converts columnType value := by
  have hDebug (bytes : List UInt8) (other : DynSolValue) : lib.debug other ≠ hexText bytes := by
    intro hSame
    exact hNames other (by rw [hSame]; rfl)
  cases value with
  | uint n bits => exact exact_uint n bits columnType
  | int n bits => exact exact_int n bits columnType
  | bool b => exact iff_of_true (exact_ok.mpr (denotes_bool b columnType)) trivial
  | address a => exact iff_of_true (exact_ok.mpr rfl) trivial
  | string s =>
    refine exact_ok.trans ?_
    rw [Converts]
    by_cases hType : columnType = .string
    · rw [if_pos hType]
      exact (filter_zero_eq_iff s).trans ⟨fun h _ => h, fun h => h hType⟩
    · rw [if_neg hType]
      exact iff_of_true rfl fun h => absurd h hType
  | fixedBytes word size =>
    rw [dynSolValueToWrapper, Converts]
    by_cases hWord : columnType = .bytes32
    · rw [if_pos hWord]
      refine iff_of_true (exact_ok.mpr ?_) (.inl hWord)
      split <;> rfl
    · rw [if_neg hWord]
      by_cases hText : columnType = .string
      · rw [if_pos hText]
        exact iff_of_true (exact_ok.mpr rfl) (.inr hText)
      · rw [if_neg hText]
        exact iff_of_false (fun h => hDebug word _ (exact_ok.mp h)) fun h => h.elim hWord hText
  | bytes b =>
    refine exact_ok.trans ?_
    rw [Converts]
    by_cases hText : columnType = .string
    · rw [if_pos hText]
      exact iff_of_true rfl hText
    · rw [if_neg hText]
      exact iff_of_false (hDebug b _) hText
  | array items =>
    refine exact_ok.trans ?_
    rw [Converts]
    cases columnType with
    | array inner =>
      rw [arrayToWrapper, ColumnType.array.injEq]
      by_cases hInner : inner = .address
      · rw [if_pos hInner, and_iff_right hInner]
        exact map_filterMap_asAddress
      · rw [if_neg hInner]
        exact iff_of_false id fun h => hInner h.1
    | _ => exact iff_of_false id (by rintro ⟨⟨⟩, -⟩)
  | function f | fixedArray items | tuple items => exact iff_of_false (fun h => exact_ok.mp h) id

/-! ### Arithmetic and positions -/

/-- The result of arithmetic is exact unless the column is of 64 bits and the result is not. -/
theorem exact_computed (n : U256) (columnType : ColumnType) :
    Exact (.uint n 256) (computedToWrapper columnType (some (.u256 n))) ↔
      (columnType = .uint64 → n.val < 2 ^ 64) := by
  rw [computedToWrapper]
  by_cases hType : columnType = .uint64
  · have hSame : ((narrow 64 n.val).map fun k => some (EthereumSqlTypeWrapper.u64BigInt k)) =
        ((narrow 64 n.val).map .u64BigInt).map some := by cases narrow 64 n.val <;> rfl
    rw [if_pos hType, hSame]
    exact (@exact_narrow (.uint n 256) 64 n.val .u64BigInt rfl).trans ⟨fun h _ => h, fun h => h hType⟩
  · rw [if_neg hType]
    exact iff_of_true (exact_ok.mpr rfl) fun h => absurd h hType

/-- What a field of the log's position is, or a field of the event. -/
def namedValue (fieldName : List Char) (logParams : List LogParam) (m : TxMetadata) :
    Option DynSolValue :=
  if fieldName = "rindexer_block_number".toList then
    some (.uint (Fin.castLE Filter.u64_le_u256 m.blockNumber) 64)
  else if fieldName = "rindexer_block_timestamp".toList then
    m.blockTimestamp.map fun ts => .uint ts 256
  else if fieldName = "rindexer_tx_hash".toList then some (.fixedBytes m.txHash 32)
  else if fieldName = "rindexer_block_hash".toList then some (.fixedBytes m.blockHash 32)
  else if fieldName = "rindexer_contract_address".toList then some (.address m.contractAddress)
  else if fieldName = "rindexer_log_index".toList then some (.uint m.logIndex 256)
  else if fieldName = "rindexer_tx_index".toList then
    some (.uint (Fin.castLE Filter.u64_le_u256 m.txIndex) 64)
  else resolveFieldPath fieldName logParams

/-- The named values that are exact: of the position, a time that fits the seconds of its column and a
log index that fits 64 bits where the column has no more. -/
def NamedFits (fieldName : List Char) (logParams : List LogParam) (m : TxMetadata)
    (columnType : ColumnType) : Prop :=
  if fieldName = "rindexer_block_number".toList then True
  else if fieldName = "rindexer_block_timestamp".toList then
    ∀ ts, m.blockTimestamp = some ts → ts.val < 2 ^ (if columnType = .timestamp then 63 else 64)
  else if fieldName = "rindexer_tx_hash".toList then True
  else if fieldName = "rindexer_block_hash".toList then True
  else if fieldName = "rindexer_contract_address".toList then True
  else if fieldName = "rindexer_log_index".toList then columnType = .uint64 → m.logIndex.val < 2 ^ 64
  else if fieldName = "rindexer_tx_index".toList then True
  else ∀ value, resolveFieldPath fieldName logParams = some value → Converts columnType value

theorem exact_timestamp (n : U256) (columnType : ColumnType) :
    Exact (.uint n 256) (do
      let seconds ← narrow (if columnType = .timestamp then 63 else 64) n.val
      return some (timestampToWrapper lib seconds n columnType)) ↔
      n.val < 2 ^ (if columnType = .timestamp then 63 else 64) := by
  rw [narrow]
  by_cases hFits : n.val < 2 ^ (if columnType = .timestamp then 63 else 64)
  · rw [if_pos hFits]
    refine iff_of_true (exact_ok.mpr ?_) hFits
    rw [timestampToWrapper]
    split
    · exact ⟨rfl, rfl⟩
    · rfl
  · rw [if_neg hFits]
    exact iff_of_false not_exact_error hFits

theorem exact_logIndex (n : U256) (columnType : ColumnType) :
    Exact (.uint n 256) ((logIndexToWrapper n columnType).map some) ↔
      (columnType = .uint64 → n.val < 2 ^ 64) := by
  cases columnType with
  | uint64 => exact (@exact_narrow (.uint n 256) 64 n.val .u64BigInt rfl).trans ⟨fun h _ => h, fun h => h rfl⟩
  | _ => exact iff_of_true (exact_ok.mpr rfl) fun h => nomatch h

/-- A named value is exact, or there is none. -/
def NamedExact (value : Option DynSolValue) (outcome : Except Panic (Option EthereumSqlTypeWrapper)) :
    Prop :=
  match value with
  | none => outcome = .ok none
  | some value => Exact value outcome

theorem exact_field (hNames : lib.NamesCases) (fieldName : List Char) (logParams : List LogParam)
    (m : TxMetadata) (columnType : ColumnType) :
    NamedExact (namedValue fieldName logParams m) (fieldValue lib fieldName logParams m columnType) ↔
      NamedFits fieldName logParams m columnType := by
  rw [namedValue, fieldValue, NamedFits]
  by_cases hNumber : fieldName = "rindexer_block_number".toList
  · rw [if_pos hNumber, if_pos hNumber, if_pos hNumber]
    exact iff_of_true (exact_ok.mpr rfl) trivial
  rw [if_neg hNumber, if_neg hNumber, if_neg hNumber]
  by_cases hTime : fieldName = "rindexer_block_timestamp".toList
  · rw [if_pos hTime, if_pos hTime, if_pos hTime]
    cases m.blockTimestamp with
    | none => exact iff_of_true rfl fun _ h => nomatch h
    | some ts =>
      have hOnly : (∀ other, some ts = some other →
          other.val < 2 ^ (if columnType = .timestamp then 63 else 64)) ↔
          ts.val < 2 ^ (if columnType = .timestamp then 63 else 64) := by
        constructor
        · exact fun h => h ts rfl
        · rintro h other hSame
          cases hSame
          exact h
      exact (exact_timestamp ts columnType).trans hOnly.symm
  rw [if_neg hTime, if_neg hTime, if_neg hTime]
  by_cases hHash : fieldName = "rindexer_tx_hash".toList
  · rw [if_pos hHash, if_pos hHash, if_pos hHash]
    exact iff_of_true (exact_ok.mpr rfl) trivial
  rw [if_neg hHash, if_neg hHash, if_neg hHash]
  by_cases hBlock : fieldName = "rindexer_block_hash".toList
  · rw [if_pos hBlock, if_pos hBlock, if_pos hBlock]
    exact iff_of_true (exact_ok.mpr rfl) trivial
  rw [if_neg hBlock, if_neg hBlock, if_neg hBlock]
  by_cases hContract : fieldName = "rindexer_contract_address".toList
  · rw [if_pos hContract, if_pos hContract, if_pos hContract]
    exact iff_of_true (exact_ok.mpr rfl) trivial
  rw [if_neg hContract, if_neg hContract, if_neg hContract]
  by_cases hLog : fieldName = "rindexer_log_index".toList
  · rw [if_pos hLog, if_pos hLog, if_pos hLog]
    exact exact_logIndex m.logIndex columnType
  rw [if_neg hLog, if_neg hLog, if_neg hLog]
  by_cases hIndex : fieldName = "rindexer_tx_index".toList
  · rw [if_pos hIndex, if_pos hIndex, if_pos hIndex]
    exact iff_of_true (exact_ok.mpr rfl) trivial
  rw [if_neg hIndex, if_neg hIndex, if_neg hIndex]
  cases resolveFieldPath fieldName logParams with
  | none => exact iff_of_true rfl fun _ h => nomatch h
  | some value =>
    have hOnly : (∀ other, some value = some other → Converts columnType other) ↔
        Converts columnType value := by
      constructor
      · exact fun h => h value rfl
      · rintro h other hSame
        cases hSame
        exact h
    exact (exact_value hNames value columnType).trans hOnly.symm

end Values

theorem namesCases_ascii : asciiLibrary.NamesCases := fun _ h => nomatch h

end Rindexer.Extraction
