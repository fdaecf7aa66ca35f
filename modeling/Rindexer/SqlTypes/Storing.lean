import Rindexer.SqlTypes.Encoding

/-! What the column of a parameter has after its value is written, and how the arrays that are written
are read. -/

namespace Rindexer.SqlTypes

open Rindexer.Database (solidityTypeToDbType)
open Rindexer.Filter (JsonValue)
open Rindexer.Lib
open Rindexer.Manifest (ABIInput)

inductive PgCell
  | null
  | single (value : PgValue)
  | array (values : List PgValue)

section Storing

variable (encoders : Encoders) (readJson : List UInt8 → Option JsonValue) (path : WritePath)

def readColumn (column : PgType) : Option (List UInt8) → Option PgCell
  | none => some .null
  | some bytes =>
    match column with
    | .base type => (readBase readJson type bytes).map .single
    | .array member => (readArray member (readBase readJson member) bytes).map .array

/-- The column of a value after it is written, unless this panics or is refused. -/
def storeWrapper (column : PgType) (wrapper : EthereumSqlTypeWrapper) : Option PgCell :=
  match wrapper.toSql encoders (path.type wrapper column) with
  | .ok bytes => readColumn readJson column bytes
  | .error _ => none

/-- The same for a decoded value, whose parameter has one column. -/
def storeToken (abiInput : ABIInput) (token : DynSolValue) : Option PgCell :=
  ((solidityTypeToDbType abiInput.type).bind columnType).bind fun column =>
    match mapLogTokenToEthereumWrapper abiInput token with
    | .ok [wrapper] => storeWrapper encoders readJson path column wrapper
    | _ => none

end Storing

/-! ### Arrays -/

/-- Readings of all elements that are right, by the readings of each. -/
theorem exists_mapM_forall₂ {α β γ : Type} (f : α → β) (g : β → Option γ) (right : α → γ → Prop)
    (elements : List α) :
    (∃ values, (elements.map f).mapM g = some values ∧ List.Forall₂ right elements values) ↔
      ∀ element ∈ elements, ∃ value, g (f element) = some value ∧ right element value := by
  induction elements with
  | nil => exact iff_of_true ⟨[], rfl, .nil⟩ fun _ hMem => (nomatch hMem)
  | cons element elements ih =>
    rw [List.forall_mem_cons, ← ih, List.map_cons, List.mapM_cons]
    constructor
    · rintro ⟨values, hValues, hRight⟩
      cases hFirst : g (f element) with
      | none =>
        rw [hFirst] at hValues
        cases hValues
      | some value =>
        cases hRest : (elements.map f).mapM g with
        | none =>
          rw [hFirst, hRest] at hValues
          cases hValues
        | some rest =>
          rw [hFirst, hRest] at hValues
          cases hValues
          cases hRight with
          | cons hHead hTail => exact ⟨⟨value, rfl, hHead⟩, rest, rfl, hTail⟩
    · rintro ⟨⟨value, hFirst, hHead⟩, rest, hRest, hTail⟩
      refine ⟨value :: rest, ?_, .cons hHead hTail⟩
      rw [hFirst, hRest]
      rfl

theorem readInt_bmod (len : Nat) (i : Int) (rest : List UInt8) :
    readInt len (bigEndianInt len i ++ rest) = some (i.bmod (256 ^ len), rest) := by
  rw [readInt, takeBytes_append (length_bigEndianInt len i), Option.map_some,
    ofBigEndianInt_bigEndianInt]

theorem fitsSigned_four {i : Int} (hLow : -2 ^ 31 ≤ i) (hHigh : i < 2 ^ 31) : FitsSigned 4 i := by
  constructor <;> norm_num <;> omega

theorem readInt_putI32 {i : Int} (hLow : -2 ^ 31 ≤ i) (hHigh : i < 2 ^ 31) (rest : List UInt8) :
    readInt 4 (putI32 i ++ rest) = some (i, rest) :=
  readInt_append (by omega) (fitsSigned_four hLow hHigh) rest

section Elements

variable {readElement : List UInt8 → Option PgValue} {elements : List (List UInt8)}

/-- Elements with their lengths before them. -/
def sized (elements : List (List UInt8)) : List UInt8 :=
  elements.flatMap fun element => putI32 element.length ++ element

theorem readElements_cons (count : Nat) {element : List UInt8} (h : element.length < 2 ^ 31) :
    readElements readElement (count + 1) (sized (element :: elements)) =
      (readElement element).bind fun value =>
        (readElements readElement count (sized elements)).map fun values => value :: values := by
  have hSize : readInt 4 (sized (element :: elements)) =
      some ((element.length : Int), element ++ sized elements) := by
    rw [sized, List.flatMap_cons, List.append_assoc]
    exact readInt_putI32 (by omega) (by omega) _
  rw [readElements, hSize]
  simp only [Option.bind_eq_bind, Option.bind_some]
  rw [if_neg (by omega), Int.toNat_natCast, takeBytes_append rfl, Option.bind_some]
  cases readElement element with
  | none => rfl
  | some value =>
    simp only [Option.bind_some]
    cases readElements readElement count (sized elements) <;> rfl

theorem readElements_all (h : ∀ element ∈ elements, element.length < 2 ^ 31) :
    readElements readElement elements.length (sized elements) = elements.mapM readElement := by
  induction elements with
  | nil => rfl
  | cons element elements ih =>
    rw [List.length_cons, readElements_cons _ (h element List.mem_cons_self),
      ih fun other hOther => h other (List.mem_cons_of_mem _ hOther), List.mapM_cons]
    cases readElement element with
    | none => rfl
    | some value => cases elements.mapM readElement <;> rfl

theorem readElements_fewer (h : ∀ element ∈ elements, element.length < 2 ^ 31) {count : Nat}
    (hCount : count < elements.length) : readElements readElement count (sized elements) = none := by
  induction elements generalizing count with
  | nil => exact absurd hCount (Nat.not_lt_zero _)
  | cons element elements ih =>
    cases count with
    | zero =>
      have hSome : sized (element :: elements) ≠ [] := by
        intro hNil
        have hLength := congrArg List.length hNil
        rw [sized, List.flatMap_cons, List.length_append, List.length_append, putI32,
          length_bigEndianInt] at hLength
        rw [List.length_nil] at hLength
        omega
      rw [readElements, if_neg hSome]
    | succ count =>
      rw [readElements_cons _ (h element List.mem_cons_self),
        ih (fun other hOther => h other (List.mem_cons_of_mem _ hOther))
          (Nat.lt_of_succ_lt_succ hCount)]
      cases readElement element <;> rfl

/-- An array is read as it was written unless its length does not fit 32 bits. -/
theorem readArray_writeArray (member : PgBase) (h : ∀ element ∈ elements, element.length < 2 ^ 31) :
    readArray member readElement (writeArray member.oid elements) =
      if elements.length < 2 ^ 31 then elements.mapM readElement else none := by
  have hOid : -2 ^ 31 ≤ member.oid ∧ member.oid < 2 ^ 31 := by cases member <;> decide
  obtain ⟨count, hBmod⟩ : ∃ count, (elements.length : Int).bmod (256 ^ 4) = count := ⟨_, rfl⟩
  have hCount : count < 2 ^ 31 := by
    have hHigh := @Int.bmod_lt (elements.length : Int) (256 ^ 4) (by norm_num)
    rw [hBmod] at hHigh
    norm_num at hHigh
    omega
  have hRead (rest : List UInt8) : readInt 4 (putI32 elements.length ++ rest) = some (count, rest) := by
    rw [putI32, readInt_bmod, hBmod]
  rw [writeArray, readArray]
  simp only [List.append_assoc]
  rw [readInt_putI32 (by omega) (by omega), Option.bind_eq_bind, Option.bind_some]
  simp only
  rw [readInt_putI32 (by omega) (by omega), Option.bind_some]
  simp only
  rw [readInt_putI32 hOid.1 hOid.2, Option.bind_some]
  simp only
  rw [if_neg (fun hNe => hNe rfl), if_neg (by omega), if_neg (fun hNe => hNe rfl), hRead,
    Option.bind_some]
  simp only
  rw [readInt_putI32 (by omega) (by omega), Option.bind_some]
  change (if count < 0 then none else readElements readElement count.toNat (sized elements)) = _
  by_cases hLength : elements.length < 2 ^ 31
  · have hSame : count = elements.length := by
      rw [← hBmod]
      apply Int.bmod_eq_of_le
      · norm_num
      · norm_num
        omega
    rw [hSame, if_neg (by omega), Int.toNat_natCast, readElements_all h, if_pos hLength]
  · rw [if_neg hLength]
    split
    · rfl
    · exact readElements_fewer h (by omega)

/-- The column refuses arrays of another type. -/
theorem readArray_of_oid {member other : PgBase} (hOther : other ≠ member) :
    readArray member readElement (writeArray other.oid elements) = none := by
  have hOid : -2 ^ 31 ≤ other.oid ∧ other.oid < 2 ^ 31 := by cases other <;> decide
  have hNe : other.oid ≠ member.oid := by
    cases other <;> cases member <;> first | exact absurd rfl hOther | decide
  rw [writeArray, readArray]
  simp only [List.append_assoc]
  rw [readInt_putI32 (by omega) (by omega), Option.bind_eq_bind, Option.bind_some]
  simp only
  rw [readInt_putI32 (by omega) (by omega), Option.bind_some]
  simp only
  rw [readInt_putI32 hOid.1 hOid.2, Option.bind_some]
  simp only
  rw [if_pos hNe]

end Elements

theorem two_le_of_readInt {first : UInt8} {rest bytes : List UInt8} {i : Int}
    (hFirst : 2 ≤ first.toNat ∧ first.toNat < 128)
    (h : readInt 4 (first :: rest) = some (i, bytes)) : 2 ≤ i := by
  rw [readInt, takeBytes] at h
  split at h
  · next hLength =>
    have hTake : ((first :: rest).take 4).length = 4 := List.length_take_of_le hLength
    cases h
    have hTail : (rest.take 3).length = 3 := by
      rw [List.length_take]
      rw [List.length_cons] at hLength
      omega
    have hLow := ofBigEndian_lt (rest.take 3)
    have hValue : ofBigEndian ((first :: rest).take 4) =
        first.toNat * 256 ^ 3 + ofBigEndian (rest.take 3) := by
      rw [List.take_succ_cons, ofBigEndian_cons, hTail]
    rw [hTail] at hLow
    rw [ofBigEndianInt, hTake, hValue, Int.bmod_eq_of_le]
    · push_cast
      omega
    · norm_num
      omega
    · norm_num
      omega
  · cases h

/-- No array begins with a byte of a decimal text. -/
theorem readArray_of_text {member : PgBase} {readElement : List UInt8 → Option PgValue}
    {first : UInt8} {rest : List UInt8} (hFirst : 2 ≤ first.toNat ∧ first.toNat < 128) :
    readArray member readElement (first :: rest) = none := by
  rw [readArray]
  cases hRead : readInt 4 (first :: rest) with
  | none => rfl
  | some read =>
    obtain ⟨ndim, bytes⟩ := read
    have hDim : 2 ≤ ndim := two_le_of_readInt hFirst hRead
    rw [Option.bind_eq_bind, Option.bind_some]
    simp only
    cases readInt 4 bytes with
    | none => rfl
    | some flags =>
      rw [Option.bind_some]
      cases readInt 4 flags.2 with
      | none => rfl
      | some oid =>
        rw [Option.bind_some]
        split
        · rfl
        · rw [if_neg (by omega), if_pos (by omega)]

end Rindexer.SqlTypes
