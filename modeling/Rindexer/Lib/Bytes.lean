import Mathlib.Data.Int.DivMod
import Mathlib.Tactic.Positivity
import Mathlib.Tactic.Ring

/-! Integers as bytes, the highest byte first: unsigned numbers, and signed ones in two's complement. -/

namespace Rindexer.Lib

/-- The low `len` bytes of a number. -/
def bigEndian : Nat → Nat → List UInt8
  | 0, _ => []
  | len + 1, n => bigEndian len (n / 256) ++ [UInt8.ofNat n]

def ofBigEndian (bytes : List UInt8) : Nat := bytes.foldl (fun n byte => n * 256 + byte.toNat) 0

@[simp] theorem length_bigEndian (len n : Nat) : (bigEndian len n).length = len := by
  induction len generalizing n with
  | zero => rfl
  | succ len ih => simp [bigEndian, ih]

theorem ofBigEndian_append_singleton (bytes : List UInt8) (byte : UInt8) :
    ofBigEndian (bytes ++ [byte]) = ofBigEndian bytes * 256 + byte.toNat := by
  simp [ofBigEndian]

theorem ofBigEndian_bigEndian (len n : Nat) : ofBigEndian (bigEndian len n) = n % 256 ^ len := by
  induction len generalizing n with
  | zero => simp [bigEndian, ofBigEndian, Nat.mod_one]
  | succ len ih =>
    have hSplit : n % (256 * 256 ^ len) = n % 256 + 256 * (n / 256 % 256 ^ len) :=
      Nat.mod_mul
    have hByte : (UInt8.ofNat n).toNat = n % 256 := UInt8.toNat_ofNat'
    rw [bigEndian, ofBigEndian_append_singleton, ih, hByte, pow_succ' (256 : Nat) len, hSplit]
    omega

theorem ofBigEndian_lt (bytes : List UInt8) : ofBigEndian bytes < 256 ^ bytes.length := by
  induction bytes using List.reverseRecOn with
  | nil => simp [ofBigEndian]
  | append_singleton bytes byte ih =>
    have hByte := byte.toNat_lt
    rw [ofBigEndian_append_singleton, List.length_append, List.length_singleton, pow_succ]
    omega

theorem ofBigEndian_cons (byte : UInt8) (bytes : List UInt8) :
    ofBigEndian (byte :: bytes) = byte.toNat * 256 ^ bytes.length + ofBigEndian bytes := by
  induction bytes using List.reverseRecOn with
  | nil => simp [ofBigEndian]
  | append_singleton bytes last ih =>
    rw [← List.cons_append, ofBigEndian_append_singleton, ih, ofBigEndian_append_singleton,
      List.length_append, List.length_singleton, pow_succ]
    ring

/-- The low `len` bytes of an integer in two's complement. -/
def bigEndianInt (len : Nat) (i : Int) : List UInt8 := bigEndian len (i % 256 ^ len).toNat

/-- The integer that the bytes are the two's complement of. -/
def ofBigEndianInt (bytes : List UInt8) : Int := (ofBigEndian bytes : Int).bmod (256 ^ bytes.length)

@[simp] theorem length_bigEndianInt (len : Nat) (i : Int) : (bigEndianInt len i).length = len :=
  length_bigEndian _ _

theorem ofBigEndianInt_bigEndianInt (len : Nat) (i : Int) :
    ofBigEndianInt (bigEndianInt len i) = i.bmod (256 ^ len) := by
  have hPos : (0 : Int) < 256 ^ len := by positivity
  have hNat : ((i % 256 ^ len).toNat : Int) = i % 256 ^ len :=
    Int.toNat_of_nonneg (Int.emod_nonneg i hPos.ne')
  rw [ofBigEndianInt, length_bigEndianInt, bigEndianInt, ofBigEndian_bigEndian]
  push_cast
  rw [hNat, Int.emod_emod_of_dvd i dvd_rfl]
  have hCast : ((256 ^ len : Nat) : Int) = 256 ^ len := by push_cast; rfl
  rw [← hCast, Int.emod_bmod]

/-- Half of the range of `len` bytes, on either side of zero. -/
def FitsSigned (len : Nat) (i : Int) : Prop := -(256 ^ len / 2 : Int) ≤ i ∧ i < 256 ^ len / 2

theorem ofBigEndianInt_of_fits {len : Nat} {i : Int} (hLen : len ≠ 0) (h : FitsSigned len i) :
    ofBigEndianInt (bigEndianInt len i) = i := by
  obtain ⟨m, rfl⟩ := Nat.exists_eq_succ_of_ne_zero hLen
  rw [ofBigEndianInt_bigEndianInt]
  obtain ⟨hLow, hHigh⟩ := h
  have hEven : (256 : Int) ^ (m + 1) = 2 * (128 * 256 ^ m) := by ring
  have hCast : ((256 ^ (m + 1) : Nat) : Int) = 2 * (128 * 256 ^ m) := by push_cast; ring
  apply Int.bmod_eq_of_le
  · rw [hCast]
    rw [hEven] at hLow
    omega
  · rw [hCast]
    rw [hEven] at hHigh
    omega

/-! ### Reading from the front -/

def takeBytes (len : Nat) (bytes : List UInt8) : Option (List UInt8 × List UInt8) :=
  if len ≤ bytes.length then some (bytes.take len, bytes.drop len) else none

theorem takeBytes_append {len : Nat} {front : List UInt8} (h : front.length = len)
    (rest : List UInt8) : takeBytes len (front ++ rest) = some (front, rest) := by
  subst h
  simp [takeBytes]

def readInt (len : Nat) (bytes : List UInt8) : Option (Int × List UInt8) :=
  (takeBytes len bytes).map fun taken => (ofBigEndianInt taken.1, taken.2)

theorem readInt_append {len : Nat} {i : Int} (hLen : len ≠ 0) (h : FitsSigned len i)
    (rest : List UInt8) : readInt len (bigEndianInt len i ++ rest) = some (i, rest) := by
  rw [readInt, takeBytes_append (length_bigEndianInt len i), Option.map_some,
    ofBigEndianInt_of_fits hLen h]

end Rindexer.Lib
