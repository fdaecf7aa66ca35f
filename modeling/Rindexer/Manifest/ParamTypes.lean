import Rindexer.Manifest.Signature

/-! The two formatters of parameter types.  The one of the inputs takes a tuple apart only if it is no
array, so that the texts are the same without arrays of tuples. -/

namespace Rindexer.Manifest

open Rindexer.Lib

mutual

def ABIInput.formatParamType : ABIInput → Except ParamTypeError (List Char)
  | .mk _ type _ components =>
    if type = "tuple".toList then
      match components with
      | none => .error .missingComponents
      | some components => do
        let formattedComponents ← ABIInput.formatParamTypes components
        return '(' :: joinWith ',' formattedComponents ++ [')']
    else .ok type

def ABIInput.formatParamTypes : List ABIInput → Except ParamTypeError (List (List Char))
  | [] => .ok []
  | input :: inputs => do
    let text ← ABIInput.formatParamType input
    let texts ← ABIInput.formatParamTypes inputs
    return text :: texts

end

theorem ABIInput.formatParamType_plain {name type : List Char} {indexed : Option Bool}
    {components : Option (List ABIInput)} (h : type ≠ "tuple".toList) :
    ABIInput.formatParamType (.mk name type indexed components) = .ok type := by
  rw [ABIInput.formatParamType.eq_def]
  exact if_neg h

theorem ABIInput.formatParamType_tuple {name : List Char} {indexed : Option Bool}
    {components : List ABIInput} :
    ABIInput.formatParamType (.mk name "tuple".toList indexed (some components)) =
      (ABIInput.formatParamTypes components).map fun texts => '(' :: joinWith ',' texts ++ [')'] := by
  rw [ABIInput.formatParamType.eq_def]
  refine (if_pos rfl).trans ?_
  simp only
  cases ABIInput.formatParamTypes components with
  | error e => rfl
  | ok texts => rfl

def EventInfo.topicId {Hash : Type} (keccak256 : List Char → Hash) (event : EventInfo) : Hash :=
  keccak256 event.signature

namespace SolType

/-- A tuple, or an array of such. -/
def isTupleBased : SolType → Bool
  | elementary _ => false
  | array element _ => element.isTupleBased
  | tuple _ => true

mutual

/-- An array of tuples, or a tuple with one at any depth. -/
def hasTupleArray : SolType → Bool
  | elementary _ => false
  | array element _ => element.isTupleBased
  | tuple components => anyTupleArray components

def anyTupleArray : List (List Char × SolType) → Bool
  | [] => false
  | (_, type) :: rest => type.hasTupleArray || anyTupleArray rest

end

mutual

/-- The text in which arrays are as the ABI has them. -/
def inputText : SolType → List Char
  | elementary type => type.text
  | array element length => element.typeText ++ brackets length
  | tuple components => '(' :: joinWith ',' (inputTexts components) ++ [')']

def inputTexts : List (List Char × SolType) → List (List Char)
  | [] => []
  | (_, type) :: rest => type.inputText :: inputTexts rest

end

theorem array_ne_tuple (element : SolType) (length : Option Nat) :
    (array element length).typeText ≠ "tuple".toList := by
  intro h
  have hMem : '[' ∈ (array element length).typeText := by simp [typeText, brackets]
  rw [h] at hMem
  exact absurd hMem (by decide)

mutual

theorem formatParamType_input (name : List Char) (indexed : Option Bool) :
    ∀ type : SolType, ABIInput.formatParamType (.mk name type.typeText indexed type.componentInputs) =
      .ok type.inputText
  | .elementary type => ABIInput.formatParamType_plain type.text_ne_tuple
  | .array element length => ABIInput.formatParamType_plain (array_ne_tuple element length)
  | .tuple components => by
    have hTexts := formatParamTypes_input components
    rw [typeText, componentInputs, ABIInput.formatParamType_tuple, hTexts, inputText]
    rfl

theorem formatParamTypes_input : ∀ components : List (List Char × SolType),
    ABIInput.formatParamTypes (inputsOf components) = .ok (inputTexts components)
  | [] => rfl
  | (name, type) :: rest => by
    rw [inputsOf, ABIInput.formatParamTypes, formatParamType_input name none type,
      formatParamTypes_input rest]
    rfl

end

/-! ### The same text -/

theorem typeText_eq_canonical : ∀ type : SolType, type.isTupleBased = false →
    type.typeText = type.canonical
  | .elementary type, _ => by rw [typeText, canonical]
  | .array element length, h => by
    rw [typeText, canonical, typeText_eq_canonical element h]

theorem typeText_of_tupleBased : ∀ type : SolType, type.isTupleBased = true →
    type.typeText.head? = some 't' ∧ type.canonical.head? = some '('
  | .array element length, h => by
    obtain ⟨hText, hCanonical⟩ := typeText_of_tupleBased element h
    rw [typeText, canonical, List.head?_append, List.head?_append, hText, hCanonical]
    exact ⟨rfl, rfl⟩
  | .tuple components, _ => by
    rw [typeText, canonical]
    exact ⟨rfl, rfl⟩

mutual

theorem inputText_eq : ∀ type : SolType, type.hasTupleArray = false →
    type.inputText = type.canonical
  | .elementary type, _ => by rw [inputText, canonical]
  | .array element length, h => by
    rw [inputText, canonical, typeText_eq_canonical element h]
  | .tuple components, h => by rw [inputText, canonical, inputTexts_eq components h]

theorem inputTexts_eq : ∀ components : List (List Char × SolType),
    anyTupleArray components = false → inputTexts components = canonicals components
  | [], _ => rfl
  | (_, type) :: rest, h => by
    obtain ⟨hType, hRest⟩ := Bool.or_eq_false_iff.mp h
    rw [inputTexts, canonicals, inputText_eq type hType, inputTexts_eq rest hRest]

end

mutual

/-- The texts of an array of tuples part at its beginning, and what follows them does not matter. -/
theorem inputText_ne : ∀ type : SolType, type.hasTupleArray = true → ∀ rest rest',
    type.inputText ++ rest ≠ type.canonical ++ rest'
  | .array element length, h, rest, rest' => by
    obtain ⟨hText, hCanonical⟩ := typeText_of_tupleBased (.array element length) h
    rw [typeText] at hText
    intro hSame
    have hHead := congrArg List.head? hSame
    rw [inputText, List.head?_append, hText, List.head?_append, hCanonical] at hHead
    cases hHead
  | .tuple components, h, rest, rest' => by
    rw [inputText, canonical]
    intro hSame
    simp only [List.cons_append, List.append_assoc, List.cons.injEq, true_and] at hSame
    exact inputTexts_ne components h _ _ hSame

theorem inputTexts_ne : ∀ components : List (List Char × SolType),
    anyTupleArray components = true → ∀ rest rest',
      joinWith ',' (inputTexts components) ++ rest ≠ joinWith ',' (canonicals components) ++ rest'
  | [(_, type)], h, rest, rest' => by
    have hType : type.hasTupleArray = true := by simpa [anyTupleArray] using h
    exact inputText_ne type hType rest rest'
  | (_, type) :: (name, next) :: components, h, rest, rest' => by
    rw [inputTexts, canonicals, joinWith_cons _ _ (by simp [inputTexts]),
      joinWith_cons _ _ (by simp [canonicals]), List.append_assoc, List.append_assoc]
    cases hType : type.hasTupleArray with
    | true => exact inputText_ne type hType _ _
    | false =>
      rw [inputText_eq type hType]
      intro hSame
      have hTail := (List.cons.inj (List.append_cancel_left hSame)).2
      rw [anyTupleArray, hType, Bool.false_or] at h
      exact inputTexts_ne ((name, next) :: components) h _ _ hTail

end

/-- The formatters agree on a parameter exactly without arrays of tuples in it. -/
theorem formatters_agree_iff (name : List Char) (indexed : Option Bool) (type : SolType) :
    ABIInput.formatParamType (.mk name type.typeText indexed type.componentInputs) =
        formatParamType (.mk name type.typeText indexed type.componentInputs) ↔
      type.hasTupleArray = false := by
  have hCanonical := formatParamType_typeText name indexed type [] (Or.inl rfl)
  rw [List.append_nil, List.append_nil] at hCanonical
  rw [formatParamType_input, hCanonical, Except.ok.injEq]
  cases hArray : type.hasTupleArray with
  | true =>
    refine iff_of_false (fun hSame => inputText_ne type hArray [] [] (by rw [hSame])) ?_
    exact Bool.noConfusion
  | false => exact iff_of_true (inputText_eq type hArray) rfl

end SolType

/-! ### Events -/

/-- The signature and the topic of an event are the chain's, and the formatters agree on each
parameter. -/
structure SignedCanonically {Hash : Type} (keccak256 : List Char → Hash) (event : SolEvent) : Prop where
  signature : ∃ info, EventInfo.new event.toItem = .ok info ∧
    info.signature = event.canonicalSignature ∧
      info.topicId keccak256 = keccak256 event.canonicalSignature
  formatters : ∀ param ∈ event.params,
    ABIInput.formatParamType param.toInput = formatParamType param.toInput

theorem signedCanonically_iff {Hash : Type} (keccak256 : List Char → Hash) (event : SolEvent) :
    SignedCanonically keccak256 event ↔ ∀ param ∈ event.params, param.type.hasTupleArray = false := by
  have hNew : EventInfo.new event.toItem =
      .ok ⟨event.name, event.params.map EventParam.toInput, event.canonicalSignature⟩ := by
    rw [EventInfo.new, formatEventSignature_toItem]
    rfl
  constructor
  · intro h param hParam
    exact (SolType.formatters_agree_iff _ _ _).mp (h.formatters param hParam)
  · intro h
    refine ⟨⟨_, hNew, rfl, rfl⟩, fun param hParam => ?_⟩
    exact (SolType.formatters_agree_iff _ _ _).mpr (h param hParam)

/-- An event with a list of pairs. -/
def pairsEvent : SolEvent where
  name := "Pairs".toList
  params := [⟨"pairs".toList, .array (.tuple [("a".toList, .elementary .address),
    ("b".toList, .elementary (.uint 256))]) none, false⟩]

theorem pairs_not_signedCanonically : ¬ SignedCanonically id pairsEvent := by
  intro h
  have hText := congrArg Except.toOption (h.formatters _ (List.mem_singleton.mpr rfl))
  exact absurd hText (by decide)

end Rindexer.Manifest
