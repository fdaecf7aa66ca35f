import Rindexer.Indexer.Decoding

/-! What `parse_log` makes of a log: the values of topics and of data, which the decoder returns as two
lists, go back to the inputs of the event in the order of their declaration. -/

namespace Rindexer.Indexer

open Rindexer.Manifest

def isIndexed (input : ABIInput) : Bool := input.indexed = some true

/-- The slot of an input: of the topics after the signature, or of the data, the first that none of the
inputs before it takes. -/
def slotValue {Value : Type} (topicValue dataValue : Nat → Value) (inputs : List ABIInput) (i : Nat)
    (input : ABIInput) : Value :=
  if isIndexed input then topicValue ((inputs.take i).countP isIndexed)
  else dataValue ((inputs.take i).countP fun input => !isIndexed input)

/-- There is one parameter for each input, with the input's name and components and the value of its
own slot. -/
structure InDeclaredOrder {Value : Type} (topicValue dataValue : Nat → Value)
    (inputs : List ABIInput) (params : List (LogParam Value)) : Prop where
  length : params.length = inputs.length
  values : ∀ i input, inputs[i]? = some input →
    params[i]? = some
      (LogParam.mk input.name (slotValue topicValue dataValue inputs i input) input.components)

section Parsing

variable {Hash Data Value : Type}

/-- A decoder returns the values of all topics after the signature, and those of all data slots, each
in order. -/
def DecodesInOrder (decodeLog : ABIItem → Log Hash Data → Option (DecodedEvent Value))
    (topicValue dataValue : ABIItem → Log Hash Data → Nat → Value) : Prop :=
  ∀ event log decoded, decodeLog event log = some decoded →
    decoded.indexed = (List.range (event.inputs.countP isIndexed)).map (topicValue event log) ∧
    decoded.body = (List.range (event.inputs.countP fun input => !isIndexed input)).map
      (dataValue event log)

/-- A log is parsed without a panic; and where its topics match the event and its values can be
decoded, into one parameter for each input, in the order of the declaration. -/
structure ParsesInOrder (overflowChecks : Bool)
    (decodeLog : ABIItem → Log Hash Data → Option (DecodedEvent Value))
    (topicValue dataValue : ABIItem → Log Hash Data → Nat → Value) (event : ABIItem)
    (log : Log Hash Data) : Prop where
  returns : parseLogIn overflowChecks decodeLog event log ≠ none
  ordered : log.topics.length = event.inputs.countP isIndexed + 1 →
    (decodeLog event log).isSome → ∃ params,
      parseLogIn overflowChecks decodeLog event log = some (some params) ∧
        InDeclaredOrder (topicValue event log) (dataValue event log) event.inputs params

end Parsing

section Pairing

variable {Value : Type}

/-- After an input the slots of its kind count from the next one. -/
theorem slotValue_succ (topicValue dataValue : Nat → Value) (first : ABIInput)
    (inputs : List ABIInput) (i : Nat) (input : ABIInput) :
    slotValue topicValue dataValue (first :: inputs) (i + 1) input =
      if isIndexed first then slotValue (fun k => topicValue (k + 1)) dataValue inputs i input
      else slotValue topicValue (fun k => dataValue (k + 1)) inputs i input := by
  cases hFirst : isIndexed first with
  | true => simp [slotValue, hFirst]
  | false => simp [slotValue, hFirst]

theorem InDeclaredOrder.cons {topicValue dataValue topicValue' dataValue' : Nat → Value}
    {first : ABIInput} {inputs : List ABIInput} {params : List (LogParam Value)} {value : Value}
    (hFirst : slotValue topicValue dataValue (first :: inputs) 0 first = value)
    (hRest : ∀ i input, slotValue topicValue dataValue (first :: inputs) (i + 1) input =
      slotValue topicValue' dataValue' inputs i input)
    (h : InDeclaredOrder topicValue' dataValue' inputs params) :
    InDeclaredOrder topicValue dataValue (first :: inputs)
      (⟨first.name, value, first.components⟩ :: params) := by
  refine ⟨by simp [h.length], fun i input hInput => ?_⟩
  cases i with
  | zero =>
    cases hInput
    rw [hFirst]
    rfl
  | succ i =>
    rw [hRest]
    exact h.values i input hInput

theorem takeParams_indexed {input : ABIInput} (h : input.indexed = some true)
    (inputs : List ABIInput) (value : Value) (indexed body : List Value) :
    takeParams (input :: inputs) (value :: indexed) body =
      (takeParams inputs indexed body).map (⟨input.name, value, input.components⟩ :: ·) := by
  simp [takeParams, h]

theorem takeParams_body {input : ABIInput} (h : ¬ input.indexed = some true)
    (inputs : List ABIInput) (value : Value) (indexed body : List Value) :
    takeParams (input :: inputs) indexed (value :: body) =
      (takeParams inputs indexed body).map (⟨input.name, value, input.components⟩ :: ·) := by
  simp [takeParams, h]

/-- Taking the parameters from the values of all slots gives each input its own. -/
theorem takeParams_slots (topicValue dataValue : Nat → Value) (inputs : List ABIInput) :
    ∃ params,
      takeParams inputs ((List.range (inputs.countP isIndexed)).map topicValue)
          ((List.range (inputs.countP fun input => !isIndexed input)).map dataValue) =
        some params ∧
      InDeclaredOrder topicValue dataValue inputs params := by
  induction inputs generalizing topicValue dataValue with
  | nil => exact ⟨[], rfl, rfl, fun i input h => by cases i <;> cases h⟩
  | cons input inputs ih =>
    cases hIndexed : isIndexed input with
    | true =>
      obtain ⟨params, hTake, hOrder⟩ := ih (fun k => topicValue (k + 1)) dataValue
      have hFlag : input.indexed = some true := of_decide_eq_true hIndexed
      refine ⟨_ :: params, ?_, InDeclaredOrder.cons (?_ : _ = topicValue 0) ?_ hOrder⟩
      · simp only [List.countP_cons, hIndexed, if_true, Bool.not_true, Bool.false_eq_true, if_false,
          Nat.add_zero, List.range_succ_eq_map, List.map_cons, List.map_map]
        rw [takeParams_indexed hFlag]
        exact congrArg (Option.map _) hTake
      · simp [slotValue, hIndexed]
      · exact fun i input' => by rw [slotValue_succ, if_pos hIndexed]
    | false =>
      obtain ⟨params, hTake, hOrder⟩ := ih topicValue fun k => dataValue (k + 1)
      have hFlag : ¬ input.indexed = some true := of_decide_eq_false hIndexed
      refine ⟨_ :: params, ?_, InDeclaredOrder.cons (?_ : _ = dataValue 0) ?_ hOrder⟩
      · simp only [List.countP_cons, hIndexed, if_true, Bool.not_false, Bool.false_eq_true, if_false,
          Nat.add_zero, List.range_succ_eq_map, List.map_cons, List.map_map]
        rw [takeParams_body hFlag]
        exact congrArg (Option.map _) hTake
      · simp [slotValue, hIndexed]
      · exact fun i input' => by rw [slotValue_succ, if_neg (by simp [hIndexed])]

end Pairing

section Results

variable {Hash Data Value : Type} {decodeLog : ABIItem → Log Hash Data → Option (DecodedEvent Value)}
  {topicValue dataValue : ABIItem → Log Hash Data → Nat → Value}

/-- Where the decoder returns values, they are enough for all inputs. -/
theorem parseLogIn_of_length (hDecodes : DecodesInOrder decodeLog topicValue dataValue)
    {overflowChecks : Bool} {event : ABIItem} {log : Log Hash Data} {n : Nat}
    (hLength : topicsLength overflowChecks log.topics = some n) :
    parseLogIn overflowChecks decodeLog event log ≠ none ∧
      (n = event.inputs.countP isIndexed → (decodeLog event log).isSome → ∃ params,
        parseLogIn overflowChecks decodeLog event log = some (some params) ∧
          InDeclaredOrder (topicValue event log) (dataValue event log) event.inputs params) := by
  have hCount : indexedInputsAbiLength event = event.inputs.countP isIndexed := rfl
  unfold parseLogIn
  rw [hLength, Option.bind_some, hCount]
  by_cases hEq : n = event.inputs.countP isIndexed
  · rw [if_pos hEq]
    cases hDecoded : decodeLog event log with
    | none => exact ⟨nofun, fun _ hSome => nomatch hSome⟩
    | some decoded =>
      obtain ⟨hTopics, hData⟩ := hDecodes event log decoded hDecoded
      obtain ⟨params, hTake, hOrder⟩ :=
        takeParams_slots (topicValue event log) (dataValue event log) event.inputs
      dsimp only
      rw [hTopics, hData, hTake]
      exact ⟨nofun, fun _ _ => ⟨params, rfl, hOrder⟩⟩
  · rw [if_neg hEq]
    exact ⟨nofun, fun h => absurd h hEq⟩

/-- A log is parsed in order unless it has no topics and the build checks for overflow. -/
theorem parsesInOrder_iff (hDecodes : DecodesInOrder decodeLog topicValue dataValue)
    (overflowChecks : Bool) (event : ABIItem) (log : Log Hash Data) :
    ParsesInOrder overflowChecks decodeLog topicValue dataValue event log ↔
      ¬ (overflowChecks = true ∧ log.topics = []) := by
  cases hTopics : log.topics with
  | nil =>
    cases overflowChecks with
    | true =>
      have hPanics : topicsLength true log.topics = none := by rw [hTopics]; rfl
      refine iff_of_false (fun h => h.returns ?_) (by simp)
      rw [parseLogIn, hPanics]
      rfl
    | false =>
      have hWraps : topicsLength false log.topics = some (2 ^ 64 - 1) := by rw [hTopics]; rfl
      refine iff_of_true ⟨(parseLogIn_of_length hDecodes hWraps).1, fun hLength => ?_⟩ (by simp)
      rw [hTopics] at hLength
      cases hLength
  | cons signature topics =>
    have hLength : topicsLength overflowChecks log.topics = some topics.length := by
      rw [hTopics]
      rfl
    obtain ⟨hReturns, hOrdered⟩ := parseLogIn_of_length hDecodes hLength
    refine iff_of_true ⟨hReturns, fun hCount => hOrdered ?_⟩ (by simp)
    rw [hTopics, List.length_cons] at hCount
    exact Nat.succ_injective hCount

end Results

/-! ### Logs of words -/

def topicWord (_ : ABIItem) (log : Log Nat (List Nat)) (k : Nat) : Nat := log.topics.getD (k + 1) 0

def dataWord (_ : ABIItem) (log : Log Nat (List Nat)) (k : Nat) : Nat := log.data.getD k 0

/-- Values of one word each.  Logs with other numbers of words than the event are refused. -/
def decodeWords (event : ABIItem) (log : Log Nat (List Nat)) : Option (DecodedEvent Nat) :=
  let indexed := event.inputs.countP isIndexed
  let body := event.inputs.countP fun input => !isIndexed input
  if log.topics.length = indexed + 1 ∧ log.data.length = body then
    some ⟨(List.range indexed).map (topicWord event log), (List.range body).map (dataWord event log)⟩
  else none

theorem decodesInOrder_words : DecodesInOrder decodeWords topicWord dataWord := by
  intro event log decoded h
  obtain ⟨-, h⟩ := Option.ite_none_right_eq_some.mp h
  obtain rfl := Option.some.inj h
  exact ⟨rfl, rfl⟩

/-- `Swap(uint256 sold, address indexed seller, uint256 bought, address indexed buyer)` -/
def swapEvent : ABIItem :=
  SolEvent.toItem
    { name := "Swap".toList
      params := [⟨"sold".toList, .elementary (.uint 256), false⟩,
        ⟨"seller".toList, .elementary .address, true⟩,
        ⟨"bought".toList, .elementary (.uint 256), false⟩,
        ⟨"buyer".toList, .elementary .address, true⟩] }

example : parseLogIn true decodeWords swapEvent ⟨[9, 1, 2], [30, 40]⟩ =
    some (some [⟨"sold".toList, 30, none⟩, ⟨"seller".toList, 1, none⟩, ⟨"bought".toList, 40, none⟩,
      ⟨"buyer".toList, 2, none⟩]) :=
  rfl

theorem parsesInOrder_swap :
    ¬ (true = true ∧ [9, 1, 2] = ([] : List Nat)) ∧
      ParsesInOrder true decodeWords topicWord dataWord swapEvent ⟨[9, 1, 2], [30, 40]⟩ :=
  have hTopics : ¬ (true = true ∧ [9, 1, 2] = ([] : List Nat)) := by decide
  ⟨hTopics, (parsesInOrder_iff decodesInOrder_words true swapEvent ⟨[9, 1, 2], [30, 40]⟩).mpr hTopics⟩

/-- A log that was emitted without topics panics where the build checks for overflow. -/
theorem log_without_topics_panics :
    ¬ ParsesInOrder true decodeWords topicWord dataWord swapEvent ⟨[], [30, 40]⟩ :=
  fun h => h.returns rfl

end Rindexer.Indexer
