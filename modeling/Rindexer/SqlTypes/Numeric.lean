import Mathlib.Algebra.Order.Field.Rat
import Mathlib.Data.Nat.Digits.Lemmas
import Mathlib.Tactic.FieldSimp
import Mathlib.Tactic.LinearCombination
import Rindexer.Lib.Bytes
import Rindexer.Tables.CallText

/-! The encoder of `NUMERIC` values: a header and the digits in base `10000`, and what a reader of the
binary protocol makes of them. -/

namespace Rindexer.SqlTypes

open Rindexer.Lib
open Rindexer.Tables (Panic)

/-! ### The protocol -/

/-- The parts of a binary `NUMERIC`. -/
structure NumericImage where
  ndigits : Int
  weight : Int
  sign : Int
  dscale : Int
  digits : List Int
deriving DecidableEq, Repr

/-- Pairs of bytes up to the end. -/
def readInt16s : List UInt8 → Option (List Int)
  | [] => some []
  | [_] => none
  | high :: low :: rest => (readInt16s rest).map fun ints => ofBigEndianInt [high, low] :: ints

def readNumericImage (bytes : List UInt8) : Option NumericImage := do
  let (ndigits, bytes) ← readInt 2 bytes
  let (weight, bytes) ← readInt 2 bytes
  let (sign, bytes) ← readInt 2 bytes
  let (dscale, bytes) ← readInt 2 bytes
  let digits ← readInt16s bytes
  return ⟨ndigits, weight, sign, dscale, digits⟩

/-- What the reader accepts: as many digits as announced, each one of base `10000`, and a sign. -/
def NumericImage.WellFormed (image : NumericImage) : Prop :=
  image.ndigits = image.digits.length ∧ (∀ digit ∈ image.digits, 0 ≤ digit ∧ digit < 10000) ∧
    (image.sign = 0 ∨ image.sign = 0x4000)

/-- The digits, the first one times `10000 ^ weight`. -/
def digitsValue (weight : Int) : List Int → ℚ
  | [] => 0
  | digit :: digits => digit * (10000 : ℚ) ^ weight + digitsValue (weight - 1) digits

def NumericImage.value (image : NumericImage) : ℚ :=
  if image.sign = 0x4000 then -digitsValue image.weight image.digits
  else digitsValue image.weight image.digits

/-! ### The encoder -/

def putI16 (i : Int) : List UInt8 := bigEndianInt 2 i

/-- The loop of both encoders: the groups of a number, the least one first. -/
def pushGroups (num : Nat) (groups : List Nat) : List Nat :=
  if _h : num = 0 then groups else pushGroups (num / 10000) (groups ++ [num % 10000])
termination_by num
decreasing_by exact Nat.div_lt_self (Nat.pos_of_ne_zero ‹_›) (by omega)

def convertToBase10000NumericDigits (value : Fin (2 ^ 128)) : List Nat :=
  (pushGroups value.val []).reverse

def convertU256ToBase10000NumericDigits (value : Fin (2 ^ 256)) : List Nat :=
  if value.val = 0 then [0] else (pushGroups value.val []).reverse

/-- The header and the groups, which both encoders write. -/
def writeGroups (groups : List Nat) (isNegative : Bool) : List UInt8 :=
  if groups = [] then putI16 0 ++ putI16 0 ++ putI16 0 ++ putI16 0
  else
    putI16 groups.length ++ putI16 (groups.length - 1) ++
      putI16 (if isNegative then 0x4000 else 0) ++ putI16 0 ++ groups.flatMap fun group : Nat => putI16 group

def writeNumericToPostgres (value : Fin (2 ^ 128)) (isNegative : Bool) : List UInt8 :=
  writeGroups (convertToBase10000NumericDigits value) isNegative

def writeU256NumericToPostgres (value : Fin (2 ^ 256)) (isNegative : Bool) : List UInt8 :=
  writeGroups (convertU256ToBase10000NumericDigits value) isNegative

/-- How the crate is built; overflow is checked in debug builds. -/
inductive BuildProfile
  | debug | release
deriving DecidableEq, Repr

/-- A signed integer of `bits` bits. -/
abbrev SignedInt (bits : Nat) : Type := { i : Int // -2 ^ (bits - 1) ≤ i ∧ i < 2 ^ (bits - 1) }

theorem natAbs_lt {m : Nat} {i : Int} (hLow : -2 ^ m ≤ i) (hHigh : i < 2 ^ m) :
    i.natAbs < 2 ^ (m + 1) := by
  have hCast : ((2 ^ m : Nat) : Int) = 2 ^ m := by push_cast; rfl
  have hPos : 0 < 2 ^ m := by positivity
  rw [pow_succ]
  omega

/-- `i128::unsigned_abs`. -/
def unsignedAbs (i : SignedInt 128) : Fin (2 ^ 128) := ⟨i.val.natAbs, natAbs_lt i.property.1 i.property.2⟩

/-- `I256::abs`: the least value has no absolute value, which panics in debug builds and gives the
value itself in release builds; `into_raw` takes either as the same word. -/
def absRaw (profile : BuildProfile) (i : SignedInt 256) : Except Panic (Fin (2 ^ 256)) :=
  if i.val = -2 ^ 255 ∧ profile = .debug then .error ⟨⟩
  else .ok ⟨i.val.natAbs, natAbs_lt i.property.1 i.property.2⟩

theorem absRaw_least {i : SignedInt 256} (h : i.val = -2 ^ 255) : absRaw .debug i = .error ⟨⟩ := by
  rw [absRaw, if_pos ⟨h, rfl⟩]

/-- The integers that are written as `NUMERIC` by hand. -/
inductive NumericValue
  | u64 (n : Fin (2 ^ 64))
  | u128 (n : Fin (2 ^ 128))
  | i128 (i : SignedInt 128)
  | u256 (n : Fin (2 ^ 256))
  | i256 (i : SignedInt 256)

def NumericValue.toInt : NumericValue → Int
  | u64 n => n.val
  | u128 n => n.val
  | i128 i => i.val
  | u256 n => n.val
  | i256 i => i.val

def NumericValue.toSql (profile : BuildProfile) : NumericValue → Except Panic (List UInt8)
  | u64 n => .ok (writeNumericToPostgres (Fin.castLE (by decide) n) false)
  | u128 n => .ok (writeNumericToPostgres n false)
  | i128 i => .ok (writeNumericToPostgres (unsignedAbs i) (i.val < 0))
  | u256 n => .ok (writeU256NumericToPostgres n false)
  | i256 i => (absRaw profile i).map fun abs => writeU256NumericToPostgres abs (i.val < 0)

/-! ### What is read back -/

theorem pushGroups_eq (num : Nat) (groups : List Nat) :
    pushGroups num groups = groups ++ Nat.digits 10000 num := by
  induction num, groups using pushGroups.induct with
  | case1 groups => simp [pushGroups]
  | case2 num groups hNum ih =>
    rw [pushGroups, dif_neg hNum, ih, Nat.digits_def' (by omega) (Nat.pos_of_ne_zero hNum)]
    simp

theorem fitsSigned_two {i : Int} (hLow : -32768 ≤ i) (hHigh : i < 32768) : FitsSigned 2 i := by
  constructor <;> norm_num <;> omega

theorem readInt_putI16 {i : Int} (hLow : -32768 ≤ i) (hHigh : i < 32768) (rest : List UInt8) :
    readInt 2 (putI16 i ++ rest) = some (i, rest) :=
  readInt_append (by omega) (fitsSigned_two hLow hHigh) rest

theorem readInt16s_putI16 {i : Int} (hLow : -32768 ≤ i) (hHigh : i < 32768) (rest : List UInt8) :
    readInt16s (putI16 i ++ rest) = (readInt16s rest).map fun ints => i :: ints := by
  have hBytes := ofBigEndianInt_of_fits (by omega) (fitsSigned_two hLow hHigh)
  obtain ⟨high, low, hPair⟩ := List.length_eq_two.mp (length_bigEndianInt 2 i)
  rw [hPair] at hBytes
  rw [putI16, hPair, List.cons_append, List.cons_append, List.nil_append, readInt16s, hBytes]

theorem readInt16s_flatMap {groups : List Nat} (h : ∀ group ∈ groups, group < 10000) :
    readInt16s (groups.flatMap fun group : Nat => putI16 group) = some (groups.map Int.ofNat) := by
  induction groups with
  | nil => rfl
  | cons group groups ih =>
    have hGroup := h group List.mem_cons_self
    rw [List.flatMap_cons, readInt16s_putI16 (by omega) (by omega),
      ih fun other hOther => h other (List.mem_cons_of_mem _ hOther)]
    rfl

theorem digitsValue_eq (groups : List Nat) :
    digitsValue (groups.length - 1) (groups.map Int.ofNat) = (Nat.ofDigits 10000 groups.reverse : ℕ) := by
  induction groups with
  | nil => simp [digitsValue]
  | cons group groups ih =>
    have hWeight : ((group :: groups).length : Int) - 1 = groups.length := by simp
    rw [List.map_cons, digitsValue, hWeight, ih, List.reverse_cons, Nat.ofDigits_append,
      Nat.ofDigits_singleton, List.length_reverse, zpow_natCast]
    push_cast
    rw [Int.ofNat_eq_natCast, Int.cast_natCast]
    ring

/-- The header announces the groups that are written, down to the one of units. -/
theorem readNumericImage_writeGroups {groups : List Nat} (isNegative : Bool)
    (hGroups : ∀ group ∈ groups, group < 10000) (hLength : groups.length < 32768) (hSome : groups ≠ []) :
    readNumericImage (writeGroups groups isNegative) =
      some ⟨groups.length, groups.length - 1, if isNegative then 0x4000 else 0, 0,
        groups.map Int.ofNat⟩ := by
  have hPos : 0 < groups.length := List.length_pos_of_ne_nil hSome
  have hSign : -32768 ≤ (if isNegative then 0x4000 else 0 : Int) ∧
      (if isNegative then 0x4000 else 0 : Int) < 32768 := by
    cases isNegative <;> decide
  rw [writeGroups, if_neg hSome, readNumericImage]
  simp only [List.append_assoc]
  rw [readInt_putI16 (by omega) (by omega), Option.bind_eq_bind, Option.bind_some]
  simp only
  rw [readInt_putI16 (by omega) (by omega), Option.bind_some]
  simp only
  rw [readInt_putI16 hSign.1 hSign.2, Option.bind_some]
  simp only
  rw [readInt_putI16 (by omega) (by omega), Option.bind_some]
  simp only
  rw [readInt16s_flatMap hGroups]
  rfl

theorem readNumericImage_nil (isNegative : Bool) :
    readNumericImage (writeGroups [] isNegative) = some ⟨0, 0, 0, 0, []⟩ := by
  cases isNegative <;> decide

/-- The reader gets the number, and every group of it is there. -/
structure Reads (bytes : List UInt8) (i : Int) : Prop where
  image : ∃ image, readNumericImage bytes = some image ∧ image.WellFormed ∧ image.value = i ∧
    (image.digits ≠ [] → image.weight = image.ndigits - 1)

theorem reads_writeGroups {groups : List Nat} {n : Nat} (isNegative : Bool)
    (hDigits : ∀ group ∈ groups, group < 10000) (hLength : groups.length < 32768)
    (hValue : Nat.ofDigits 10000 groups.reverse = n) :
    Reads (writeGroups groups isNegative) (if isNegative then -n else n) := by
  by_cases hSome : groups = []
  · subst hSome
    obtain rfl : 0 = n := by simpa using hValue
    refine ⟨_, readNumericImage_nil isNegative, ⟨rfl, fun _ hMem => (nomatch hMem), .inl rfl⟩, ?_,
      fun h => absurd rfl h⟩
    simp [NumericImage.value, digitsValue]
  · refine ⟨_, readNumericImage_writeGroups isNegative hDigits hLength hSome, ⟨by simp, ?_, ?_⟩, ?_,
      fun _ => rfl⟩
    · intro digit hMem
      obtain ⟨group, hGroup, rfl⟩ := List.mem_map.mp hMem
      have := hDigits group hGroup
      exact ⟨Int.natCast_nonneg group, by rw [Int.ofNat_eq_natCast]; omega⟩
    · cases isNegative <;> simp
    · rw [NumericImage.value, digitsValue_eq, hValue]
      cases isNegative <;> simp

theorem digits_length_lt {n : Nat} (h : n < 2 ^ 256) : (Nat.digits 10000 n).length < 32768 := by
  have hShort : (Nat.digits 10000 n).length ≤ 20 := by
    rw [Nat.digits_length_le_iff (by omega)]
    exact h.trans (by norm_num)
  omega

theorem reads_writeNumericToPostgres (value : Fin (2 ^ 128)) (isNegative : Bool) :
    Reads (writeNumericToPostgres value isNegative) (if isNegative then -value.val else value.val) := by
  have hGroups : convertToBase10000NumericDigits value = (Nat.digits 10000 value.val).reverse := by
    rw [convertToBase10000NumericDigits, pushGroups_eq, List.nil_append]
  rw [writeNumericToPostgres, hGroups]
  apply reads_writeGroups
  · intro group hMem
    exact Nat.digits_lt_base (by omega) (List.mem_reverse.mp hMem)
  · rw [List.length_reverse]
    exact digits_length_lt (value.isLt.trans (by norm_num))
  · rw [List.reverse_reverse, Nat.ofDigits_digits]

theorem reads_writeU256NumericToPostgres (value : Fin (2 ^ 256)) (isNegative : Bool) :
    Reads (writeU256NumericToPostgres value isNegative) (if isNegative then -value.val else value.val) := by
  rw [writeU256NumericToPostgres, convertU256ToBase10000NumericDigits]
  apply reads_writeGroups
  · intro group hMem
    split at hMem
    · rw [List.mem_singleton.mp hMem]
      omega
    · rw [pushGroups_eq, List.nil_append] at hMem
      exact Nat.digits_lt_base (by omega) (List.mem_reverse.mp hMem)
  · split
    · decide
    · rw [pushGroups_eq, List.nil_append, List.length_reverse]
      exact digits_length_lt value.isLt
  · split
    · rename_i hZero
      rw [hZero]
      rfl
    · rw [pushGroups_eq, List.nil_append, List.reverse_reverse, Nat.ofDigits_digits]

theorem sign_mul_natAbs (i : Int) : (if decide (i < 0) then -(i.natAbs : Int) else i.natAbs) = i := by
  by_cases h : i < 0
  · rw [if_pos (decide_eq_true h)]
    omega
  · rw [if_neg (by simpa using h)]
    omega

/-- The least value of 256 bits, whose absolute value is not one. -/
def NumericValue.IsLeastI256 (value : NumericValue) : Prop :=
  match value with
  | i256 i => i.val = -2 ^ 255
  | _ => False

def leastI256 : SignedInt 256 := ⟨-2 ^ 255, by decide⟩

/-- The encoding as it would be without groups of zeros at the end. -/
def EncodedWithoutTrailingZeros (profile : BuildProfile) (value : NumericValue) : Prop :=
  ∃ bytes image, value.toSql profile = .ok bytes ∧ readNumericImage bytes = some image ∧
    image.WellFormed ∧ image.value = value.toInt ∧ image.digits.getLast? ≠ some 0

end Rindexer.SqlTypes
