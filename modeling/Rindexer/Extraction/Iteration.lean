import Rindexer.Extraction.Columns

/-! The parameters of the elements of an iteration, and the data that expressions are evaluated on. -/

namespace Rindexer.Extraction

open Rindexer.Lib
open Rindexer.Filter hiding parseUsize
open Rindexer.Factory (Param)
open Rindexer.Manifest (IterateBinding)
open Rindexer.Tables (Panic)

/-! ### Iterate bindings -/

/-- The components of a name, one behind the other.  A name on a value that has none panics. -/
def componentAt : Located → List (List Char) → Except Panic (Option DynSolValue)
  | current, [] => .ok (some current.1)
  | current, part :: rest =>
    match findComponent part current.2 with
    | none => .ok none
    | some (nested, idx) =>
      match current.1.asFixedSeq.bind (·[idx]?) with
      | none => .error ⟨⟩
      | some value => componentAt (value, nested.components) rest

def LogParam.getParamValue (param : LogParam) (name : List Char) :
    Except Panic (Option DynSolValue) :=
  if param.components = [] then .ok none
  else componentAt (param.value, param.components) (name.splitOn '.')

def bindingValue (arrayField : List Char) (logParams : List LogParam) :
    Except Panic (Option DynSolValue) :=
  match arrayField.dropWhile (· != '.') with
  | [] => .ok ((findParam arrayField logParams).map LogParam.value)
  | _ :: rest =>
    match findParam (arrayField.takeWhile (· != '.')) logParams with
    | none => .ok none
    | some param => param.getParamValue rest

def DynSolValue.elements : DynSolValue → Option (List DynSolValue)
  | array items => some items
  | fixedArray items => some items
  | _ => none

/-- The arrays of the bindings, with the names of their elements. -/
def bindingArrays (logParams : List LogParam) :
    List IterateBinding → Except Panic (Option (List (List Char × List DynSolValue)))
  | [] => .ok (some [])
  | binding :: rest => do
    match (← bindingValue binding.arrayField.toList logParams).bind DynSolValue.elements with
    | none => return none
    | some items =>
      let arrays ← bindingArrays logParams rest
      return arrays.map ((binding.elementAlias.toList, items) :: ·)

/-- The parameters of an element: those of the event, and behind them one for each binding. -/
def elementParams (logParams : List LogParam) (arrays : List (List Char × List DynSolValue))
    (idx : Nat) : List LogParam :=
  logParams ++ arrays.filterMap fun a => a.2[idx]?.map fun value => ⟨a.1, value, []⟩

def expandIterateBindings (bindings : List IterateBinding) (logParams : List LogParam) :
    Except Panic (Option (List (List LogParam))) := do
  match ← bindingArrays logParams bindings with
  | none => return none
  | some [] => return some [logParams]
  | some (first :: others) =>
    if ∃ a ∈ others, a.2.length ≠ first.2.length then return none
    return some ((List.range first.2.length).map (elementParams logParams (first :: others)))

/-- The parameters of an element are those of the event and names without components. -/
theorem mem_expandIterateBindings {bindings : List IterateBinding} {logParams params : List LogParam}
    {elements : List (List LogParam)}
    (h : expandIterateBindings bindings logParams = .ok (some elements)) (hMem : params ∈ elements) :
    ∀ p ∈ params, p ∈ logParams ∨ p.components = [] := by
  unfold expandIterateBindings at h
  rcases hArrays : bindingArrays logParams bindings with e | arrays
  · simp [hArrays, bind, Except.bind] at h
  · simp only [hArrays, bind, Except.bind, pure, Except.pure] at h
    match arrays, h with
    | some [], h =>
      cases h
      rw [List.mem_singleton.mp hMem]
      exact fun p hp => Or.inl hp
    | some (first :: others), h =>
      simp only at h
      split at h
      · cases h
      · cases h
        obtain ⟨idx, -, rfl⟩ := List.mem_map.mp hMem
        intro p hp
        rcases List.mem_append.mp hp with hp | hp
        · exact Or.inl hp
        · obtain ⟨a, -, ha⟩ := List.mem_filterMap.mp hp
          obtain ⟨value, -, rfl⟩ := Option.map_eq_some_iff.mp ha
          exact Or.inr rfl

/-! ### The data of expressions -/

/-- Where an expression is evaluated: a condition of an operation, the condition of a `$if`, or the
value of a column, without or with calls in it. -/
inductive Reader
  | condition
  | conditionalValue
  | arithmetic
  | arithmeticWithCalls
deriving DecidableEq, Repr

def metadataNames : List (List Char) :=
  ["rindexer_contract_address".toList, "rindexer_block_hash".toList, "rindexer_tx_hash".toList,
    "rindexer_block_timestamp".toList, "rindexer_log_index".toList, "rindexer_tx_index".toList,
    "rindexer_block_number".toList]

/-- The JSON of the metadata, where conditions have it. -/
def metadataJson (m : TxMetadata) (name : List Char) : Option JsonValue :=
  if name = "rindexer_block_number".toList then some (u64Json m.blockNumber)
  else if name = "rindexer_block_timestamp".toList then m.blockTimestamp.map jsonNumber
  else if name = "rindexer_tx_hash".toList then some (.string (hexText m.txHash))
  else if name = "rindexer_block_hash".toList then some (.string (hexText m.blockHash))
  else if name = "rindexer_contract_address".toList then some (.string (hexText m.contractAddress))
  else if name = "rindexer_log_index".toList then some (jsonNumber m.logIndex)
  else if name = "rindexer_tx_index".toList then some (u64Json m.txIndex)
  else none

/-- The metadata that a reader has besides the parameters. -/
def Reader.shows : Reader → List (List Char)
  | condition => metadataNames
  | conditionalValue => []
  | arithmetic => ["rindexer_block_timestamp".toList, "rindexer_log_index".toList,
      "rindexer_tx_index".toList, "rindexer_block_number".toList]
  | arithmeticWithCalls => ["rindexer_log_index".toList, "rindexer_tx_index".toList,
      "rindexer_block_number".toList]

section Data

variable (lib : Library)

/-- The data of the conditions of operations. -/
def conditionData (logParams : List LogParam) (m : TxMetadata) : Except Panic JsonMap := do
  let data ← arithmeticData lib logParams m
  return ((data.insert "rindexer_tx_hash".toList (.string (hexText m.txHash))).insert
    "rindexer_block_hash".toList (.string (hexText m.blockHash))).insert
      "rindexer_contract_address".toList (.string (hexText m.contractAddress))

def Reader.data (reader : Reader) (logParams : List LogParam) (m : TxMetadata) :
    Except Panic JsonMap :=
  match reader with
  | condition => conditionData lib logParams m
  | conditionalValue => .ok (logParamsMap lib logParams)
  | arithmetic => arithmeticData lib logParams m
  | arithmeticWithCalls => positionData lib logParams m

/-- `evaluate_filter`: a condition that fails holds of no event. -/
def evaluateFilter (filterExpr : List Char) (logParams : List LogParam) (m : TxMetadata) :
    Except Panic Bool := do
  let data ← conditionData lib logParams m
  match filterByExpression lib.readers filterExpr (.object data.entries) with
  | some (.ok result) => return result
  | _ => return false

variable {lib} {m : TxMetadata} {logParams : List LogParam}

/-- The last parameter of a name. -/
def lastParam (name : List Char) (logParams : List LogParam) : Option LogParam :=
  findParam name logParams.reverse

theorem get?_insertAll {m : JsonMap} {l : List (List Char × JsonValue)} {k : List Char} :
    (m.insertAll l).get? k = ((l.reverse.find? fun e => e.1 = k).map Prod.snd).or (m.get? k) := by
  induction l generalizing m with
  | nil => rfl
  | cons e l ih =>
    rw [OrderedMap.insertAll_cons, ih, OrderedMap.get?_insert, List.reverse_cons, List.find?_append]
    cases l.reverse.find? fun e => e.1 = k with
    | some value => rfl
    | none =>
      by_cases hk : k = e.1
      · simp [hk]
      · simp [hk, Ne.symm hk]

theorem get?_logParamsMap (name : List Char) :
    (logParamsMap lib logParams).get? name =
      (lastParam name logParams).map fun p => dynSolValueToJson lib p.value := by
  rw [logParamsMap, get?_insertAll, OrderedMap.get?_empty, Option.or_none, ← List.map_reverse, lastParam,
    findParam, List.find?_map, Option.map_map]
  rfl

section Shown

/-- The data shows the metadata of some names, and behind them the parameters. -/
def Shows (lib : Library) (logParams : List LogParam) (m : TxMetadata) (names : List (List Char))
    (data : JsonMap) : Prop :=
  ∀ name, data.get? name = (if name ∈ names then metadataJson m name else none).or
    ((lastParam name logParams).map fun p => dynSolValueToJson lib p.value)

variable {names : List (List Char)} {data : JsonMap} {name : List Char}

theorem Shows.insert (h : Shows lib logParams m names data) {value : JsonValue}
    (hValue : metadataJson m name = some value) :
    Shows lib logParams m (name :: names) (data.insert name value) := by
  intro other
  rw [OrderedMap.get?_insert]
  by_cases hName : other = name
  · subst hName
    simp [hValue]
  · rw [if_neg hName, h other]
    simp [hName]

theorem Shows.absent (h : Shows lib logParams m names data) (hValue : metadataJson m name = none) :
    Shows lib logParams m (name :: names) data := by
  intro other
  by_cases hName : other = name
  · subst hName
    rw [h other, hValue]
    simp
  · rw [h other]
    simp [hName]

theorem toU64_of_lt {n : U256} (h : n.val < 2 ^ 64) : ∃ k, toU64 n = .ok k ∧ jsonNumber n = u64Json k := by
  refine ⟨⟨n.val, h⟩, dif_pos h, ?_⟩
  rw [jsonNumber, dif_pos h]
  rfl

variable (hLogIndex : m.logIndex.val < 2 ^ 64)
  (hTimestamp : ∀ ts, m.blockTimestamp = some ts → ts.val < 2 ^ 64)
include hLogIndex

theorem positionData_shows : ∃ data, positionData lib logParams m = .ok data ∧
    Shows lib logParams m Reader.arithmeticWithCalls.shows data := by
  obtain ⟨k, hk, hIndex⟩ := toU64_of_lt hLogIndex
  refine ⟨_, by simp only [positionData, hk, bind, Except.bind, pure, Except.pure]; rfl, ?_⟩
  have hStart : Shows lib logParams m [] (logParamsMap lib logParams) := fun name => by
    rw [get?_logParamsMap]
    rfl
  exact ((hStart.insert (by rfl)).insert (by rfl)).insert (by rw [← hIndex]; rfl)

include hTimestamp

theorem arithmeticData_shows : ∃ data, arithmeticData lib logParams m = .ok data ∧
    Shows lib logParams m Reader.arithmetic.shows data := by
  obtain ⟨data, hData, hShows⟩ :
      ∃ data, positionData lib logParams m = .ok data ∧ _ := positionData_shows hLogIndex
  cases hTs : m.blockTimestamp with
  | none =>
    refine ⟨data, by simp only [arithmeticData, hData, hTs, bind, Except.bind, pure, Except.pure], ?_⟩
    refine hShows.absent ?_
    show m.blockTimestamp.map jsonNumber = none
    rw [hTs]
    rfl
  | some ts =>
    obtain ⟨k, hk, hJson⟩ := toU64_of_lt (hTimestamp ts hTs)
    refine ⟨_, by simp only [arithmeticData, hData, hTs, hk, bind, Except.bind, pure, Except.pure]; rfl, ?_⟩
    refine hShows.insert ?_
    show m.blockTimestamp.map jsonNumber = _
    rw [hTs, Option.map_some, hJson]

/-- A reader sees its metadata, and behind them the last parameter of a name. -/
theorem data_shows (reader : Reader) : ∃ data, reader.data lib logParams m = .ok data ∧
    Shows lib logParams m reader.shows data := by
  obtain ⟨data, hData, hShows⟩ :
      ∃ data, arithmeticData lib logParams m = .ok data ∧ _ := arithmeticData_shows hLogIndex hTimestamp
  cases reader with
  | condition =>
    refine ⟨_, by simp only [Reader.data, conditionData, hData, bind, Except.bind, pure, Except.pure]; rfl, ?_⟩
    exact ((hShows.insert (by rfl)).insert (by rfl)).insert (by rfl)
  | conditionalValue =>
    refine ⟨_, rfl, fun name => ?_⟩
    rw [get?_logParamsMap]
    rfl
  | arithmetic => exact ⟨data, hData, hShows⟩
  | arithmeticWithCalls => exact positionData_shows hLogIndex

end Shown

end Data

end Rindexer.Extraction
