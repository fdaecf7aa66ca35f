import Rindexer.Manifest.Contract

/-! The types of Solidity and the entry of an ABI that an event has.  The signature that is read off an
entry is the canonical one of its event. -/

namespace Rindexer.Manifest

open Rindexer.Lib

inductive Elementary
  | uint (bits : Nat)
  | int (bits : Nat)
  | fixed (bits decimals : Nat)
  | ufixed (bits decimals : Nat)
  | fixedBytes (length : Nat)
  | address
  | bool
  | bytes
  | string
  | function
deriving DecidableEq, Repr

def Elementary.word : Elementary → String
  | uint _ => "uint"
  | int _ => "int"
  | fixed _ _ => "fixed"
  | ufixed _ _ => "ufixed"
  | fixedBytes _ => "bytes"
  | address => "address"
  | bool => "bool"
  | bytes => "bytes"
  | string => "string"
  | function => "function"

def Elementary.size : Elementary → List Char
  | uint bits | int bits => Nat.toDigits 10 bits
  | fixed bits decimals | ufixed bits decimals =>
    Nat.toDigits 10 bits ++ 'x' :: Nat.toDigits 10 decimals
  | fixedBytes length => Nat.toDigits 10 length
  | address | bool | bytes | string | function => []

def Elementary.text (type : Elementary) : List Char := type.word.toList ++ type.size

/-- A type: the components of a tuple have names, and an array may have a length. -/
inductive SolType
  | elementary (type : Elementary)
  | array (element : SolType) (length : Option Nat)
  | tuple (components : List (List Char × SolType))

def brackets (length : Option Nat) : List Char :=
  '[' :: (length.elim [] (Nat.toDigits 10) ++ [']'])

namespace SolType

mutual

def canonical : SolType → List Char
  | elementary type => type.text
  | array element length => element.canonical ++ brackets length
  | tuple components => '(' :: joinWith ',' (canonicals components) ++ [')']

def canonicals : List (List Char × SolType) → List (List Char)
  | [] => []
  | (_, type) :: rest => type.canonical :: canonicals rest

end

/-! ### The entry of an ABI -/

/-- The text of the type in an ABI. -/
def typeText : SolType → List Char
  | elementary type => type.text
  | array element length => element.typeText ++ brackets length
  | tuple _ => "tuple".toList

mutual

def componentInputs : SolType → Option (List ABIInput)
  | elementary _ => none
  | array element _ => element.componentInputs
  | tuple components => some (inputsOf components)

def inputsOf : List (List Char × SolType) → List ABIInput
  | [] => []
  | (name, type) :: rest => .mk name type.typeText none type.componentInputs :: inputsOf rest

end

end SolType

structure EventParam where
  name : List Char
  type : SolType
  indexed : Bool

def EventParam.toInput (param : EventParam) : ABIInput :=
  .mk param.name param.type.typeText (some param.indexed) param.type.componentInputs

structure SolEvent where
  name : List Char
  params : List EventParam

namespace SolEvent

def canonicalSignature (event : SolEvent) : List Char :=
  event.name ++ '(' :: joinWith ',' (event.params.map fun param => param.type.canonical) ++ [')']

def toItem (event : SolEvent) : ABIItem := ⟨event.params.map EventParam.toInput, event.name, "event".toList⟩

end SolEvent

/-! ### The signature that is read off -/

theorem not_bracket_of_mem_digits {n : Nat} {c : Char} (h : c ∈ Nat.toDigits 10 n) : c ≠ '[' := by
  rintro rfl
  exact absurd (Nat.isDigit_of_mem_toDigits (by omega) (by omega) h) (by decide)

/-- A text without opening bracket. -/
def Unbracketed (text : List Char) : Prop := ∀ c ∈ text, c ≠ '['

theorem unbracketed_digits (n : Nat) : Unbracketed (Nat.toDigits 10 n) :=
  fun _ => not_bracket_of_mem_digits

theorem Unbracketed.append {s t : List Char} (hs : Unbracketed s) (ht : Unbracketed t) :
    Unbracketed (s ++ t) :=
  List.forall_mem_append.mpr ⟨hs, ht⟩

theorem Unbracketed.cons {c : Char} {s : List Char} (hc : c ≠ '[') (hs : Unbracketed s) :
    Unbracketed (c :: s) :=
  List.forall_mem_cons.mpr ⟨hc, hs⟩

theorem unbracketed_toList {word : String} (h : word.toList.all (· ≠ '[') = true) :
    Unbracketed word.toList :=
  fun c hc => by simpa using List.all_eq_true.mp h c hc

theorem Elementary.unbracketed_word (type : Elementary) : Unbracketed type.word.toList := by
  cases type <;> exact unbracketed_toList (by simp [word])

theorem Elementary.unbracketed_size (type : Elementary) : Unbracketed type.size := by
  have hLong := fun bits decimals => (unbracketed_digits bits).append
    ((unbracketed_digits decimals).cons (show 'x' ≠ '[' by decide))
  cases type with
  | uint bits => exact unbracketed_digits bits
  | int bits => exact unbracketed_digits bits
  | fixed bits decimals => exact hLong bits decimals
  | ufixed bits decimals => exact hLong bits decimals
  | fixedBytes length => exact unbracketed_digits length
  | address => exact nofun
  | bool => exact nofun
  | bytes => exact nofun
  | string => exact nofun
  | function => exact nofun

theorem Elementary.unbracketed (type : Elementary) : Unbracketed type.text :=
  type.unbracketed_word.append type.unbracketed_size

theorem Elementary.text_ne_tuple (type : Elementary) : type.text ≠ "tuple".toList := by
  intro h
  have hHead : type.text.head? = some 't' := by
    rw [h]
    simp only [String.reduceToList, List.head?_cons]
  cases type <;> simp [text, word] at hHead

/-- What follows the base of a type: nothing, or brackets. -/
def IsSuffix (suffix : List Char) : Prop := suffix = [] ∨ suffix.head? = some '['

theorem isSuffix_brackets (length : Option Nat) (suffix : List Char) :
    IsSuffix (brackets length ++ suffix) := Or.inr rfl

theorem takeWhile_base {base suffix : List Char} (hBase : Unbracketed base)
    (hSuffix : IsSuffix suffix) : (base ++ suffix).takeWhile (· ≠ '[') = base ∧
      (base ++ suffix).dropWhile (· ≠ '[') = suffix := by
  have hAll : ∀ c ∈ base, decide (c ≠ '[') = true := fun c hc => decide_eq_true (hBase c hc)
  have hRest : suffix.takeWhile (fun c => decide (c ≠ '[')) = [] ∧
      suffix.dropWhile (fun c => decide (c ≠ '[')) = suffix := by
    cases suffix with
    | nil => exact ⟨rfl, rfl⟩
    | cons c suffix =>
      obtain rfl : c = '[' := by simpa [IsSuffix] using hSuffix
      exact ⟨rfl, rfl⟩
  rw [List.takeWhile_append_of_pos hAll, List.dropWhile_append_of_pos hAll, hRest.1, hRest.2,
    List.append_nil]
  exact ⟨rfl, rfl⟩

mutual

theorem formatParamType_typeText (name : List Char) (indexed : Option Bool) :
    ∀ (type : SolType) (suffix : List Char), IsSuffix suffix →
      formatParamType (.mk name (type.typeText ++ suffix) indexed type.componentInputs) =
        .ok (type.canonical ++ suffix)
  | .elementary type, suffix, hSuffix => by
    obtain ⟨hTake, hDrop⟩ := takeWhile_base type.unbracketed hSuffix
    simp only [SolType.typeText, SolType.componentInputs, SolType.canonical, formatParamType, hTake,
      hDrop, if_neg type.text_ne_tuple]
  | .array element length, suffix, hSuffix => by
    have h := formatParamType_typeText name indexed element _ (isSuffix_brackets length suffix)
    simpa only [SolType.typeText, SolType.componentInputs, SolType.canonical,
      List.append_assoc] using h
  | .tuple components, suffix, hSuffix => by
    have hTuple : Unbracketed "tuple".toList := unbracketed_toList (by simp)
    obtain ⟨hTake, hDrop⟩ := takeWhile_base hTuple hSuffix
    simp only [SolType.typeText, SolType.componentInputs, SolType.canonical, formatParamType, hTake,
      hDrop, if_true, formatParamTypes_inputsOf components]
    simp [bind, Except.bind, pure, Except.pure]

theorem formatParamTypes_inputsOf :
    ∀ components : List (List Char × SolType),
      formatParamTypes (SolType.inputsOf components) = .ok (SolType.canonicals components)
  | [] => rfl
  | (name, type) :: rest => by
    have hHead := formatParamType_typeText name none type [] (Or.inl rfl)
    rw [List.append_nil, List.append_nil] at hHead
    rw [SolType.inputsOf, SolType.canonicals, formatParamTypes, hHead,
      formatParamTypes_inputsOf rest]
    rfl

end

theorem formatParamTypes_params (params : List EventParam) :
    formatParamTypes (params.map EventParam.toInput) =
      .ok (params.map fun param => param.type.canonical) := by
  induction params with
  | nil => rfl
  | cons param params ih =>
    have hHead := formatParamType_typeText param.name (some param.indexed) param.type [] (Or.inl rfl)
    rw [List.append_nil, List.append_nil] at hHead
    rw [List.map_cons, EventParam.toInput, formatParamTypes, hHead, ih]
    rfl

/-- The signature of an event's entry is its canonical one. -/
theorem formatEventSignature_toItem (event : SolEvent) :
    event.toItem.formatEventSignature = .ok event.canonicalSignature := by
  rw [ABIItem.formatEventSignature, SolEvent.toItem, formatParamTypes_params]
  rfl

end Rindexer.Manifest
