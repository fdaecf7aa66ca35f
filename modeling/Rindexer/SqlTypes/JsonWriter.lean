import Rindexer.SqlTypes.TupleArrays

/-! A writer of JSON without numbers whose bytes tell the values apart, and the reader of what it wrote:
one of the encoders that a column of JSON can have. -/

namespace Rindexer.SqlTypes

open Rindexer.Filter (JsonValue)

/-- A number by that many bytes and an end. -/
def writeCount (n : Nat) : List UInt8 := List.replicate n 1 ++ [0]

def writeText : List Char → List UInt8
  | [] => [0]
  | c :: s => 1 :: (writeCount c.toNat ++ writeText s)

mutual

def writeJson : JsonValue → List UInt8
  | .null | .number _ => [0]
  | .bool b => [1, if b then 1 else 0]
  | .string s => 2 :: writeText s
  | .array items => 3 :: writeItems items
  | .object entries => 4 :: writeEntries entries

def writeItems : List JsonValue → List UInt8
  | [] => [0]
  | value :: values => 1 :: (writeJson value ++ writeItems values)

def writeEntries : List (List Char × JsonValue) → List UInt8
  | [] => [0]
  | (name, value) :: entries => 1 :: (writeText name ++ (writeJson value ++ writeEntries entries))

end

theorem writeCount_prefix {m n : Nat} {rest rest' : List UInt8}
    (h : writeCount m ++ rest = writeCount n ++ rest') : m = n ∧ rest = rest' := by
  induction m generalizing n with
  | zero =>
    cases n with
    | zero => exact ⟨rfl, (List.cons.inj h).2⟩
    | succ n => exact absurd (List.cons.inj h).1 (by decide)
  | succ m ih =>
    cases n with
    | zero => exact absurd (List.cons.inj h).1 (by decide)
    | succ n =>
      obtain ⟨hSame, hRest⟩ := ih (List.cons.inj h).2
      exact ⟨congrArg Nat.succ hSame, hRest⟩

theorem writeText_prefix {s t : List Char} {rest rest' : List UInt8}
    (h : writeText s ++ rest = writeText t ++ rest') : s = t ∧ rest = rest' := by
  induction s generalizing t with
  | nil =>
    cases t with
    | nil => exact ⟨rfl, (List.cons.inj h).2⟩
    | cons d t => exact absurd (List.cons.inj h).1 (by decide)
  | cons c s ih =>
    cases t with
    | nil => exact absurd (List.cons.inj h).1 (by decide)
    | cons d t =>
      have hTail : writeCount c.toNat ++ writeText s ++ rest = writeCount d.toNat ++ writeText t ++ rest' :=
        (List.cons.inj h).2
      simp only [List.append_assoc] at hTail
      obtain ⟨hCount, hText⟩ := writeCount_prefix hTail
      obtain ⟨hSame, hRest⟩ := ih hText
      rw [Char.toNat_inj.mp hCount, hSame]
      exact ⟨rfl, hRest⟩

mutual

theorem writeJson_prefix : ∀ (value value' : JsonValue) (rest rest' : List UInt8),
    Numberless value → Numberless value' → writeJson value ++ rest = writeJson value' ++ rest' →
    value = value' ∧ rest = rest'
  | .null, value', rest, rest', _, hNumber, h => by
    cases value' with
    | null => exact ⟨rfl, (List.cons.inj h).2⟩
    | number n => exact absurd hNumber id
    | _ => exact absurd (List.cons.inj h).1 (by decide)
  | .number n, value', rest, rest', hNumber, _, h => absurd hNumber id
  | .bool b, value', rest, rest', _, hNumber, h => by
    cases value' with
    | bool b' =>
      obtain ⟨hBit, hRest⟩ := List.cons.inj (List.cons.inj h).2
      refine ⟨?_, hRest⟩
      cases b <;> cases b' <;> first | rfl | exact absurd hBit (by decide)
    | number n => exact absurd hNumber id
    | _ => exact absurd (List.cons.inj h).1 (by decide)
  | .string s, value', rest, rest', _, hNumber, h => by
    cases value' with
    | string s' =>
      obtain ⟨hSame, hRest⟩ := writeText_prefix (List.cons.inj h).2
      exact ⟨congrArg _ hSame, hRest⟩
    | number n => exact absurd hNumber id
    | _ => exact absurd (List.cons.inj h).1 (by decide)
  | .array items, value', rest, rest', hItems, hNumber, h => by
    cases value' with
    | array items' =>
      obtain ⟨hSame, hRest⟩ := writeItems_prefix items items' rest rest' hItems hNumber (List.cons.inj h).2
      exact ⟨congrArg _ hSame, hRest⟩
    | number n => exact absurd hNumber id
    | _ => exact absurd (List.cons.inj h).1 (by decide)
  | .object entries, value', rest, rest', hEntries, hNumber, h => by
    cases value' with
    | object entries' =>
      obtain ⟨hSame, hRest⟩ :=
        writeEntries_prefix entries entries' rest rest' hEntries hNumber (List.cons.inj h).2
      exact ⟨congrArg _ hSame, hRest⟩
    | number n => exact absurd hNumber id
    | _ => exact absurd (List.cons.inj h).1 (by decide)

theorem writeItems_prefix : ∀ (items items' : List JsonValue) (rest rest' : List UInt8),
    EveryItem (fun _ => True) False items → EveryItem (fun _ => True) False items' →
    writeItems items ++ rest = writeItems items' ++ rest' → items = items' ∧ rest = rest'
  | [], items', rest, rest', _, _, h => by
    cases items' with
    | nil => exact ⟨rfl, (List.cons.inj h).2⟩
    | cons value' items' => exact absurd (List.cons.inj h).1 (by decide)
  | value :: items, items', rest, rest', hItems, hItems', h => by
    cases items' with
    | nil => exact absurd (List.cons.inj h).1 (by decide)
    | cons value' items' =>
      have hTail : writeJson value ++ writeItems items ++ rest =
          writeJson value' ++ writeItems items' ++ rest' := (List.cons.inj h).2
      simp only [List.append_assoc] at hTail
      obtain ⟨rfl, hItem⟩ := writeJson_prefix value value' _ _ hItems.1 hItems'.1 hTail
      obtain ⟨rfl, hRest⟩ := writeItems_prefix items items' rest rest' hItems.2 hItems'.2 hItem
      exact ⟨rfl, hRest⟩

theorem writeEntries_prefix : ∀ (entries entries' : List (List Char × JsonValue))
    (rest rest' : List UInt8), EveryEntry (fun _ => True) False entries →
    EveryEntry (fun _ => True) False entries' →
    writeEntries entries ++ rest = writeEntries entries' ++ rest' → entries = entries' ∧ rest = rest'
  | [], entries', rest, rest', _, _, h => by
    cases entries' with
    | nil => exact ⟨rfl, (List.cons.inj h).2⟩
    | cons entry' entries' => exact absurd (List.cons.inj h).1 (by decide)
  | (name, value) :: entries, entries', rest, rest', hEntries, hEntries', h => by
    cases entries' with
    | nil => exact absurd (List.cons.inj h).1 (by decide)
    | cons entry' entries' =>
      obtain ⟨name', value'⟩ := entry'
      have hTail : writeText name ++ (writeJson value ++ writeEntries entries) ++ rest =
          writeText name' ++ (writeJson value' ++ writeEntries entries') ++ rest' := (List.cons.inj h).2
      simp only [List.append_assoc] at hTail
      obtain ⟨rfl, hValue⟩ := writeText_prefix hTail
      obtain ⟨rfl, hEntry⟩ := writeJson_prefix value value' _ _ hEntries.1.2 hEntries'.1.2 hValue
      obtain ⟨rfl, hRest⟩ := writeEntries_prefix entries entries' rest rest' hEntries.2 hEntries'.2 hEntry
      exact ⟨rfl, hRest⟩

end

open Classical in
/-- The value that was written, if it has no zero character. -/
noncomputable def readWritten (bytes : List UInt8) : Option JsonValue :=
  if h : ∃ value, writeJson value = bytes ∧ Numberless value ∧ ZeroFree value then some h.choose
  else none

theorem documented_writeJson (decimal : Nat → List UInt8) :
    Encoders.JsonDocumented ⟨decimal, writeJson⟩ readWritten where
  read value hNumberless hZero := by
    have hWritten : ∃ written, writeJson written = writeJson value ∧ Numberless written ∧
        ZeroFree written := ⟨value, rfl, hNumberless, hZero⟩
    obtain ⟨hBytes, hOther, -⟩ := hWritten.choose_spec
    have hSame := writeJson_prefix hWritten.choose value [] [] hOther hNumberless
      (congrArg (· ++ []) hBytes)
    change readWritten (writeJson value) = some value
    rw [readWritten, dif_pos hWritten, hSame.1]
  refused value hNumberless hZero := by
    change readWritten (writeJson value) = none
    refine dif_neg ?_
    rintro ⟨written, hBytes, hOther, hFree⟩
    have hSame := writeJson_prefix written value [] [] hOther hNumberless (congrArg (· ++ []) hBytes)
    rw [hSame.1] at hFree
    exact hZero hFree

end Rindexer.SqlTypes
