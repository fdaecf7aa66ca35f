import Rindexer.Extraction.Templates
import Rindexer.Lib.Transition
import Rindexer.ViewCalls.Execution

/-! What the prefetch of view calls leaves in the caches, and where a value computed from them is the one
that the call itself gives. -/

namespace Rindexer.ViewCalls

open Rindexer.Lib Rindexer.Extraction
open Rindexer.Filter hiding parseUsize applyAccessor
open Rindexer.Manifest (ColumnType)
open Rindexer.Tables (Panic ViewCall LowerCase parseViewCall findCallPatterns sliceTo sliceFrom)

/-! ### Prefetching -/

/-- What the prefetch has: the nodes of the networks, and where Multicall3 is on them. -/
structure Networks where
  provider : List Char → ChainProvider
  multicall3 : List Char → List UInt8

/-- The calls of a batch are of one network, and of one block where they are not static. -/
inductive PrefetchAct
  | batch (network : List Char) (blockNumber : Fin (2 ^ 64)) (calls : List (List UInt8 × List UInt8))
  | staticBatch (network : List Char) (blockNumber : Fin (2 ^ 64))
      (calls : List (List UInt8 × List UInt8))
  | evict (cutoffBlock : Fin (2 ^ 64))

def pendingCalls (network : List Char) (blockNumber : Fin (2 ^ 64))
    (calls : List (List UInt8 × List UInt8)) : List PendingViewCall :=
  calls.map fun c => ⟨c.1, c.2, blockNumber, network⟩

section Prefetch

variable (lib : Library) (evm : Evm) (net : Networks)

def prefetchStep (caches : CallCaches) : PrefetchAct → Option CallCaches
  | .batch network blockNumber calls =>
    some (executeMulticall3Batch evm (net.provider network) network blockNumber
      (pendingCalls network blockNumber calls) (net.multicall3 network) caches)
  | .staticBatch network blockNumber calls =>
    some (executeStaticMulticall3Batch evm (net.provider network) network
      (pendingCalls network blockNumber calls) (net.multicall3 network) caches)
  | .evict cutoffBlock => some (evictOldViewCallCacheEntries cutoffBlock caches)

/-! ### The answers of nodes -/

def answerBytes : Except (List Char) (List Char) → Option (List UInt8)
  | .ok resultHex => evm.hexDecode (trimHex resultHex)
  | .error _ => none

/-- A result that Multicall3 gives for a call that has succeeded is the node's answer to the call. -/
def AnswersAlike (ask : List UInt8 → List UInt8 → Except (List Char) (List Char))
    (multicallAddress : List UInt8) : Prop :=
  ∀ (calls : List PendingViewCall) (results : List DynSolValue), ((answerBytes evm (ask multicallAddress (aggregate3Calldata evm calls))).bind
      (evm.abiDecode aggregate3Result)) = some (.array results) →
    ∀ (i : Nat) (call : PendingViewCall) (returnData : List UInt8) (more : List DynSolValue),
      calls[i]? = some call →
      results[i]? = some (.tuple (.bool true :: .bytes returnData :: more)) →
        answerBytes evm (ask call.target call.calldata) = some returnData

/-- The nodes answer calls and Multicall3 consistently. -/
structure Consistent : Prop where
  calls : ∀ network blockNumber, AnswersAlike evm
    (fun target calldata => (net.provider network).ethCall target calldata blockNumber)
    (net.multicall3 network)
  staticCalls : ∀ network, AnswersAlike evm (net.provider network).ethCallLatest (net.multicall3 network)

/-! ### What the caches have -/

/-- A value is what detection makes of an answer. -/
def Detected (answer : Except (List Char) (List Char)) (value : DynSolValue) : Prop :=
  ∃ bytes, answerBytes evm answer = some bytes ∧ tryDecodeReturnValue evm bytes = .ok (some value)

structure PrefetchInv (caches : CallCaches) : Prop where
  viewCalls : ∀ network target calldata blockNumber value,
    caches.viewCalls (network, target, calldata, blockNumber) = some value →
      Detected evm ((net.provider network).ethCall target calldata blockNumber) value
  staticCalls : ∀ network target calldata value,
    caches.staticCalls (network, target, calldata) = some value →
      Detected evm ((net.provider network).ethCallLatest target calldata) value

variable {evm net}

theorem remember_eq_some {κ : Type} [DecidableEq κ] {cache : κ → Option DynSolValue} {key k : κ}
    {entry : Option DynSolValue} {value : DynSolValue} (h : remember cache key entry k = some value) :
    (k = key ∧ entry = some value) ∨ cache k = some value := by
  cases entry with
  | none => exact Or.inr h
  | some v =>
    by_cases hKey : k = key
    · subst hKey
      exact Or.inl ⟨rfl, by simpa [remember] using h⟩
    · exact Or.inr (by simpa [remember, Function.update_of_ne hKey] using h)

/-- Each new entry is what detection makes of the result of one call. -/
theorem cacheResults_eq_some {κ : Type} [DecidableEq κ] {key : PendingViewCall → κ}
    {cache : κ → Option DynSolValue} {calls : List PendingViewCall} {results : List DynSolValue} {k : κ}
    {value : DynSolValue} (h : cacheResults evm key cache calls results k = some value) :
    cache k = some value ∨ ∃ (i : Nat) (call : PendingViewCall) (result : DynSolValue),
      calls[i]? = some call ∧ results[i]? = some result ∧ key call = k ∧
        resultValue evm result = .ok (some value) := by
  induction calls generalizing cache results with
  | nil => exact Or.inl h
  | cons call calls ih =>
    cases results with
    | nil => exact Or.inl h
    | cons result results =>
      rw [cacheResults] at h
      cases hResult : resultValue evm result with
      | error e =>
        rw [hResult] at h
        exact Or.inl h
      | ok entry =>
        rw [hResult] at h
        rcases ih h with hOld | ⟨i, call', result', hCall, hRes, hRest⟩
        · rcases remember_eq_some hOld with ⟨rfl, rfl⟩ | hCache
          · exact Or.inr ⟨0, call, result, rfl, rfl, rfl, hResult⟩
          · exact Or.inl hCache
        · exact Or.inr ⟨i + 1, call', result', hCall, hRes, hRest⟩

theorem cacheResults_single {κ : Type} [DecidableEq κ] {key : PendingViewCall → κ}
    {cache : κ → Option DynSolValue} {call : PendingViewCall} {result value : DynSolValue}
    (h : resultValue evm result = .ok (some value)) :
    cacheResults evm key cache [call] [result] (key call) = some value := by
  rw [cacheResults, h]
  simp only [cacheResults, remember, Function.update_self]

theorem resultValue_eq_some {result : DynSolValue} {value : DynSolValue}
    (h : resultValue evm result = .ok (some value)) : ∃ returnData more,
      result = .tuple (.bool true :: .bytes returnData :: more) ∧
        tryDecodeReturnValue evm returnData = .ok (some value) := by
  unfold resultValue at h
  split at h
  · exact ⟨_, _, rfl, h⟩
  · cases h

/-- Each new entry of a batch is what detection makes of the node's answer to the call itself. -/
theorem cacheAnswer_eq_some {κ : Type} [DecidableEq κ] {key : PendingViewCall → κ}
    {ask : List UInt8 → List UInt8 → Except (List Char) (List Char)} {multicallAddress : List UInt8}
    (hAlike : AnswersAlike evm ask multicallAddress) {calls : List PendingViewCall}
    {cache : κ → Option DynSolValue} {resultHex : List Char}
    (hAnswer : ask multicallAddress (aggregate3Calldata evm calls) = .ok resultHex) {k : κ}
    {value : DynSolValue} (h : cacheAnswer evm key calls cache resultHex k = some value) :
    cache k = some value ∨
      ∃ call ∈ calls, key call = k ∧ Detected evm (ask call.target call.calldata) value := by
  have hCases : cacheAnswer evm key calls cache resultHex = cache ∨ ∃ results,
      (evm.hexDecode (trimHex resultHex)).bind (evm.abiDecode aggregate3Result) =
        some (.array results) ∧
      cacheAnswer evm key calls cache resultHex = cacheResults evm key cache calls results := by
    unfold cacheAnswer
    split
    · next results hResults => exact Or.inr ⟨results, hResults, rfl⟩
    · exact Or.inl rfl
  rcases hCases with hNone | ⟨results, hResults, hCached⟩
  · rw [hNone] at h
    exact Or.inl h
  · rw [hCached] at h
    rcases cacheResults_eq_some h with hOld | ⟨i, call, result, hCall, hResult, hKey, hValue⟩
    · exact Or.inl hOld
    · obtain ⟨returnData, more, rfl, hDecode⟩ := resultValue_eq_some hValue
      refine Or.inr ⟨call, List.mem_of_getElem? hCall, hKey, returnData, ?_, hDecode⟩
      refine hAlike calls results ?_ i call returnData more hCall hResult
      rw [hAnswer]
      exact hResults

theorem markNoMulticall_inv {caches : CallCaches} (h : PrefetchInv evm net caches)
    (network error : List Char) : PrefetchInv evm net (markNoMulticall network error caches) := by
  unfold markNoMulticall
  split
  · exact ⟨h.viewCalls, h.staticCalls⟩
  · exact h

theorem pendingCalls_mem {network : List Char} {blockNumber : Fin (2 ^ 64)}
    {calls : List (List UInt8 × List UInt8)} {call : PendingViewCall}
    (h : call ∈ pendingCalls network blockNumber calls) :
    call.network = network ∧ call.blockNumber = blockNumber := by
  obtain ⟨c, -, rfl⟩ := List.mem_map.mp h
  exact ⟨rfl, rfl⟩

theorem prefetchStep_inv (hConsistent : Consistent evm net) {caches caches' : CallCaches}
    {act : PrefetchAct} (h : PrefetchInv evm net caches)
    (hStep : prefetchStep evm net caches act = some caches') : PrefetchInv evm net caches' := by
  cases act with
  | batch network blockNumber calls =>
    cases hStep
    unfold executeMulticall3Batch
    split
    · exact h
    · split
      · exact markNoMulticall_inv h _ _
      · next resultHex hAnswer =>
        refine ⟨fun network' target calldata blockNumber' value hEntry => ?_, h.staticCalls⟩
        rcases cacheAnswer_eq_some (hConsistent.calls network blockNumber) hAnswer hEntry with
          hOld | ⟨call, hMem, hKey, hDetected⟩
        · exact h.viewCalls _ _ _ _ _ hOld
        · obtain ⟨hNetwork, hBlock⟩ := pendingCalls_mem hMem
          cases hKey
          rw [hNetwork, hBlock]
          exact hDetected
  | staticBatch network blockNumber calls =>
    cases hStep
    unfold executeStaticMulticall3Batch
    split
    · exact h
    · split
      · exact markNoMulticall_inv h _ _
      · next resultHex hAnswer =>
        refine ⟨h.viewCalls, fun network' target calldata value hEntry => ?_⟩
        rcases cacheAnswer_eq_some (hConsistent.staticCalls network) hAnswer hEntry with
          hOld | ⟨call, hMem, hKey, hDetected⟩
        · exact h.staticCalls _ _ _ _ hOld
        · obtain ⟨hNetwork, -⟩ := pendingCalls_mem hMem
          cases hKey
          rw [hNetwork]
          exact hDetected
  | evict cutoffBlock =>
    cases hStep
    refine ⟨fun network target calldata blockNumber value hEntry => ?_, h.staticCalls⟩
    simp only [evictOldViewCallCacheEntries] at hEntry
    split at hEntry
    · exact h.viewCalls _ _ _ _ _ hEntry
    · cases hEntry

theorem prefetch_inv (hConsistent : Consistent evm net) (acts : List PrefetchAct) :
    Always (prefetchStep evm net) (PrefetchInv evm net) .empty acts :=
  always_of_kept (fun _ _ _ h hStep => prefetchStep_inv hConsistent h hStep)
    ⟨fun _ _ _ _ _ h => (nomatch h), fun _ _ _ _ h => (nomatch h)⟩

/-! ### Values of calls -/

/-- What a call is about: its expression, the event, and the network with its constants. -/
structure CallSite where
  network : List Char
  constants : List Char → Option (List Char)
  call : ViewCall
  logParams : List LogParam
  metadata : TxMetadata

namespace CallSite

variable (evm net) (site : CallSite)

def resolve : Except Panic (Option (List UInt8 × List UInt8)) :=
  resolveCall lib evm site.constants site.call site.logParams site.metadata

def answer (target calldata : List UInt8) : Except (List Char) (List Char) :=
  if site.call.isStatic then (net.provider site.network).ethCallLatest target calldata
  else (net.provider site.network).ethCall target calldata site.metadata.blockNumber

def cached (caches : CallCaches) (target calldata : List UInt8) : Option DynSolValue :=
  if site.call.isStatic then caches.staticCalls (site.network, target, calldata)
  else caches.viewCalls (site.network, target, calldata, site.metadata.blockNumber)

/-- The value of the call, with what the caches have. -/
def value (caches : CallCaches) : Except Panic (Option DynSolValue) :=
  (executeViewCall lib evm (net.provider site.network) site.network site.constants site.call
    site.logParams site.metadata caches).map Prod.snd

/-- What is read of a result: the accessor's part, in the way `use` takes it. -/
def read {α : Type} (use : Option DynSolValue → Except Panic α) (result : Option DynSolValue) :
    Except Panic α :=
  use (result.bind (applyAccessorIfPresent · site.call))

/-- Detection reads of an answer what the declared types read of it. -/
def DetectedAsDeclared {α : Type} (use : Option DynSolValue → Except Panic α) (bytes : List UInt8) :
    Prop :=
  (tryDecodeReturnValue evm bytes).bind (site.read use) =
    (decodeViewCallResult evm bytes site.call).bind (site.read use)

/-- The call declares no types, or its result is not in the caches, or detection reads of the node's
answer what the declared types read of it. -/
def Undisturbed {α : Type} (use : Option DynSolValue → Except Panic α) (caches : CallCaches) : Prop :=
  site.call.returnFields = [] ∨ ∀ target calldata bytes,
    site.resolve lib evm = .ok (some (target, calldata)) →
      (site.cached caches target calldata).isSome →
        answerBytes evm (site.answer net target calldata) = some bytes →
          site.DetectedAsDeclared evm use bytes

variable {lib evm net site}

theorem value_eq (caches : CallCaches) : site.value lib evm net caches =
    (site.resolve lib evm).bind fun resolved =>
      match resolved with
      | none => .ok none
      | some (target, calldata) =>
        (fetchResult evm site.call (site.cached caches target calldata)
          (site.answer net target calldata)).map fun result =>
            result.bind (applyAccessorIfPresent · site.call) := by
  rw [value, executeViewCall, resolve]
  cases resolveCall lib evm site.constants site.call site.logParams site.metadata with
  | error e => rfl
  | ok resolved =>
    cases resolved with
    | none => rfl
    | some request =>
      obtain ⟨target, calldata⟩ := request
      simp only [bind, Except.bind, cached, answer]
      cases hStatic : site.call.isStatic with
      | true =>
        simp only [if_true]
        cases fetchResult evm site.call (caches.staticCalls (site.network, target, calldata))
          ((net.provider site.network).ethCallLatest target calldata) <;> rfl
      | false =>
        simp only [if_false, Bool.false_eq_true]
        cases fetchResult evm site.call
          (caches.viewCalls (site.network, target, calldata, site.metadata.blockNumber))
          ((net.provider site.network).ethCall target calldata site.metadata.blockNumber) <;> rfl

theorem cached_detected {caches : CallCaches} (h : PrefetchInv evm net caches)
    {target calldata : List UInt8} {v : DynSolValue} (hCached : site.cached caches target calldata = some v) :
    Detected evm (site.answer net target calldata) v := by
  rw [cached] at hCached
  rw [answer]
  split at hCached
  · next hStatic =>
    rw [if_pos hStatic]
    exact h.staticCalls _ _ _ _ hCached
  · next hStatic =>
    rw [if_neg hStatic]
    exact h.viewCalls _ _ _ _ _ hCached

/-- After a prefetch, what is read of a call is what is read of it with empty caches, exactly if the
call is undisturbed. -/
theorem value_undisturbed_iff {caches : CallCaches} (h : PrefetchInv evm net caches) {α : Type}
    (use : Option DynSolValue → Except Panic α) :
    (site.value lib evm net caches).bind use = (site.value lib evm net .empty).bind use ↔
      site.Undisturbed lib evm net use caches := by
  rw [value_eq, value_eq, Undisturbed]
  cases hResolve : site.resolve lib evm with
  | error e =>
    refine iff_of_true rfl (Or.inr fun target calldata bytes hResolved => ?_)
    cases hResolved
  | ok resolved =>
    cases resolved with
    | none =>
      refine iff_of_true rfl (Or.inr fun target calldata bytes hResolved => ?_)
      cases hResolved
    | some request =>
      obtain ⟨target, calldata⟩ := request
      have hEmpty : site.cached .empty target calldata = none := by
        rw [cached]
        split <;> rfl
      simp only [Except.bind, hEmpty]
      cases hCached : site.cached caches target calldata with
      | none =>
        refine iff_of_true rfl (Or.inr fun target' calldata' bytes hResolved hSome => ?_)
        cases hResolved
        rw [hCached] at hSome
        cases hSome
      | some v =>
        obtain ⟨bytes, hAnswer, hDetected⟩ := cached_detected h hCached
        have hRead : site.DetectedAsDeclared evm use bytes ↔ site.read use (some v) =
            (decodeViewCallResult evm bytes site.call).bind (site.read use) := by
          rw [DetectedAsDeclared, hDetected]
          rfl
        have hFetch : fetchResult evm site.call none (site.answer net target calldata) =
            decodeViewCallResult evm bytes site.call := by
          cases hNode : site.answer net target calldata with
          | error e =>
            rw [hNode] at hAnswer
            cases hAnswer
          | ok resultHex =>
            rw [hNode] at hAnswer
            simp only [fetchResult]
            rw [show evm.hexDecode (trimHex resultHex) = some bytes from hAnswer]
        have hSlow : ((decodeViewCallResult evm bytes site.call).map fun result =>
            result.bind (applyAccessorIfPresent · site.call)).bind use =
              (decodeViewCallResult evm bytes site.call).bind (site.read use) := by
          cases decodeViewCallResult evm bytes site.call <;> rfl
        show site.read use (some v) = (Except.map _ (fetchResult evm site.call none _)).bind use ↔ _
        rw [hFetch, hSlow, ← hRead]
        constructor
        · intro hAgree
          refine Or.inr fun target' calldata' bytes' hResolved _ hAnswer' => ?_
          cases hResolved
          rw [hAnswer] at hAnswer'
          cases hAnswer'
          exact hAgree
        · rintro (hFields | hAll)
          · rw [hRead, decodeViewCallResult, hFields]
            simp only
            rw [hDetected]
            rfl
          · exact hAll target calldata bytes rfl (by rw [hCached]; rfl) hAnswer

end CallSite

/-! ### Columns -/

/-- A column takes the wrapper of a result. -/
def columnUse (columnType : ColumnType) :
    Option DynSolValue → Except Panic (Option EthereumSqlTypeWrapper)
  | none => .ok none
  | some result => (dynSolValueToWrapper lib result columnType).map some

/-- An expression takes the text of a result. -/
def operandUse (result : Option DynSolValue) : Except Panic (Option (List Char)) :=
  .ok (result.bind callResultText)

/-- The calls that are parsed within a value: the value itself, and those that are found in it. -/
def CallIn (lower : LowerCase) (value : List Char) (call : ViewCall) : Prop :=
  parseViewCall lower value = .ok (some call) ∨ ∃ patterns, findCallPatterns value = .ok patterns ∧
    ∃ pattern ∈ patterns, parseViewCall lower pattern.2.2 = .ok (some call)

def calling (x : Sources) (execute : ViewCall → Except Panic (Option DynSolValue)) : Sources :=
  { x with executeViewCall := some execute }

section Congruence

variable {x : Sources} {execute execute' : ViewCall → Except Panic (Option DynSolValue)}

theorem callValue_congr {α : Type} {use : Option DynSolValue → Except Panic α} {text : List Char}
    (h : ∀ call, parseViewCall x.lower text = .ok (some call) →
      (execute call).bind use = (execute' call).bind use) :
    (callValue (calling x execute) execute text).bind use =
      (callValue (calling x execute') execute' text).bind use := by
  rw [callValue, callValue]
  show (Except.bind (parseViewCall x.lower text) _).bind use =
    (Except.bind (parseViewCall x.lower text) _).bind use
  cases hParse : parseViewCall x.lower text with
  | error e => rfl
  | ok parsed =>
    cases parsed with
    | none => rfl
    | some call => exact h call hParse

theorem replaceCalls_cons (x : Sources) (start stop : Nat) (callExpr result : List Char)
    (earlier : List (Nat × Nat × List Char)) :
    replaceCalls x execute ((start, stop, callExpr) :: earlier) result =
      ((callValue x execute callExpr).bind operandUse).bind fun text =>
        match text with
        | none => .ok none
        | some valueStr => (sliceTo result start).bind fun before =>
          (sliceFrom result stop).bind fun after =>
            replaceCalls x execute earlier (before ++ valueStr ++ after) := by
  rw [replaceCalls]
  cases callValue x execute callExpr with
  | error e => rfl
  | ok value =>
    cases hText : value.bind callResultText <;>
      simp [bind, Except.bind, pure, Except.pure, operandUse, hText]

theorem replaceCalls_congr {patterns : List (Nat × Nat × List Char)} {result : List Char}
    (h : ∀ pattern ∈ patterns, ∀ call, parseViewCall x.lower pattern.2.2 = .ok (some call) →
      (execute call).bind operandUse = (execute' call).bind operandUse) :
    replaceCalls (calling x execute) execute patterns result =
      replaceCalls (calling x execute') execute' patterns result := by
  induction patterns generalizing result with
  | nil => rfl
  | cons pattern earlier ih =>
    obtain ⟨start, stop, callExpr⟩ := pattern
    rw [replaceCalls_cons, replaceCalls_cons, callValue_congr (h _ List.mem_cons_self)]
    refine congrArg _ (funext fun text => ?_)
    cases text with
    | none => rfl
    | some valueStr =>
      simp only [ih fun pattern hMem => h pattern (List.mem_cons_of_mem _ hMem)]

/-- A value is computed from the texts and the columns of its calls alone. -/
theorem extractResolved_congr {value : List Char} {logParams : List LogParam} {m : TxMetadata}
    {columnType : ColumnType} (h : ∀ call, CallIn x.lower value call →
      (execute call).bind operandUse = (execute' call).bind operandUse ∧
        (execute call).bind (columnUse lib columnType) =
          (execute' call).bind (columnUse lib columnType)) :
    extractResolved lib (calling x execute) logParams m columnType value =
      extractResolved lib (calling x execute') logParams m columnType value := by
  have hExpression : resolveCallsInArithmeticExpression (calling x execute) execute value =
      resolveCallsInArithmeticExpression (calling x execute') execute' value := by
    rw [resolveCallsInArithmeticExpression, resolveCallsInArithmeticExpression]
    cases hPatterns : findCallPatterns value with
    | error e => rfl
    | ok patterns =>
      refine replaceCalls_congr fun pattern hMem call hCall => ?_
      exact (h call (Or.inr ⟨patterns, hPatterns, pattern, List.mem_reverse.mp hMem, hCall⟩)).1
  have hColumn : (callValue (calling x execute) execute value).bind (columnUse lib columnType) =
      (callValue (calling x execute') execute' value).bind (columnUse lib columnType) :=
    callValue_congr fun call hCall => (h call (Or.inl hCall)).2
  have hUse : ∀ e : ViewCall → Except Panic (Option DynSolValue),
      (do match ← callValue (calling x e) e value with
          | none => return none
          | some result => (dynSolValueToWrapper lib result columnType).map some) =
        (callValue (calling x e) e value).bind (columnUse lib columnType) := by
    intro e
    cases callValue (calling x e) e value with
    | error _ => rfl
    | ok result => cases result <;> rfl
  unfold extractResolved
  show (if _ then _ else if _ then _ else _) = (if _ then _ else if _ then _ else _)
  split
  · show Except.bind (resolveCallsInArithmeticExpression _ execute value) _ =
      Except.bind (resolveCallsInArithmeticExpression _ execute' value) _
    rw [hExpression]
  · split
    · exact (hUse execute).trans (hColumn.trans (hUse execute').symm)
    · rfl

end Congruence

/-- An unsigned number is read alike with any number of bits, so a call that declares one and has no
accessor is undisturbed where detection takes the word for a number. -/
theorem detectedAsDeclared_uint {evm : Evm} {site : CallSite} {bytes : List UInt8} {n : U256}
    {bits bits' : Nat} (hAccessor : site.call.accessor = none)
    (hDetected : tryDecodeReturnValue evm bytes = .ok (some (.uint n bits)))
    (hDeclared : decodeViewCallResult evm bytes site.call = .ok (some (.uint n bits')))
    (columnType : ColumnType) :
    site.DetectedAsDeclared evm (columnUse lib columnType) bytes ∧
      site.DetectedAsDeclared evm operandUse bytes := by
  simp only [CallSite.DetectedAsDeclared, hDetected, hDeclared, Except.bind, CallSite.read,
    Option.bind_some, applyAccessorIfPresent, hAccessor]
  exact ⟨rfl, rfl⟩

/-- The execution of the calls of a value, from the caches. -/
def executeFrom (evm : Evm) (net : Networks) (caches : CallCaches) (x : Sources) (network : List Char)
    (logParams : List LogParam) (m : TxMetadata) (call : ViewCall) :
    Except Panic (Option DynSolValue) :=
  CallSite.value lib evm net ⟨network, x.constants, call, logParams, m⟩ caches

/-- A prefetch changes no value of a call, exactly if the call is undisturbed; and none of an expression
whose calls are. -/
structure ChangesNothing (evm : Evm) (net : Networks) (caches : CallCaches) : Prop where
  column : ∀ (site : CallSite) columnType,
    (site.value lib evm net caches).bind (columnUse lib columnType) =
        (site.value lib evm net .empty).bind (columnUse lib columnType) ↔
      site.Undisturbed lib evm net (columnUse lib columnType) caches
  operand : ∀ site : CallSite,
    (site.value lib evm net caches).bind operandUse = (site.value lib evm net .empty).bind operandUse ↔
      site.Undisturbed lib evm net operandUse caches
  expression : ∀ (x : Sources) network logParams m columnType value,
    (∀ call, CallIn x.lower value call →
      CallSite.Undisturbed lib evm net ⟨network, x.constants, call, logParams, m⟩ operandUse caches ∧
        CallSite.Undisturbed lib evm net ⟨network, x.constants, call, logParams, m⟩
          (columnUse lib columnType) caches) →
    extractResolved lib (calling x (executeFrom lib evm net caches x network logParams m)) logParams m
        columnType value =
      extractResolved lib (calling x (executeFrom lib evm net .empty x network logParams m)) logParams
        m columnType value

end Prefetch

/-! ### A domain separator -/

def separatorContract : List UInt8 := List.replicate 20 0x11

def multicallContract : List UInt8 := List.replicate 20 0xca

def separatorSelector : List UInt8 := [0x36, 0x44, 0xe5, 0x15]

def separatorWord : List UInt8 := List.replicate 32 0xab

def word (n : UInt8) : List UInt8 := List.replicate 31 0 ++ [n]

/-- In front of the one word that one successful call returns, in the encoding of `(bool, bytes)[]`. -/
def resultHeader : List UInt8 := word 32 ++ word 1 ++ word 32 ++ word 1 ++ word 64 ++ word 32

def decodeOneResult (bytes : List UInt8) : Option DynSolValue :=
  if bytes = resultHeader ++ bytes.drop 192 then
    some (.array [.tuple [.bool true, .bytes (bytes.drop 192)]])
  else none

/-- The encoding of the calls of a batch that has the call of the separator alone. -/
def encodeSeparatorCalls : DynSolValue → List UInt8
  | .array [.tuple [.address target, .bool true, .bytes calldata]] =>
    if target = separatorContract ∧ calldata = separatorSelector then
      word 32 ++ word 1 ++ word 32 ++ (List.replicate 12 0 ++ target) ++ word 1 ++ word 96 ++ word 4 ++
        (calldata ++ List.replicate 28 0)
    else []
  | _ => []

def hexNibble (c : Char) : Option UInt8 :=
  if c.isDigit then some (UInt8.ofNat (c.toNat - 48))
  else if 'a' ≤ c ∧ c ≤ 'f' then some (UInt8.ofNat (c.toNat - 87))
  else none

def hexDecodeText : List Char → Option (List UInt8)
  | [] => some []
  | [_] => none
  | high :: low :: s => do
    let h ← hexNibble high
    let l ← hexNibble low
    let rest ← hexDecodeText s
    return (16 * h + l) :: rest

/-- The library on the texts and bytes of the separator's call. -/
def separatorEvm : Evm where
  parseType typeStr := if typeStr = "bytes32".toList then some (.fixedBytes 32) else none
  abiDecode
    | .fixedBytes 32, bytes => if bytes.length = 32 then some (.fixedBytes bytes 32) else none
    | .uint 256, bytes => (u256 (Tables.bigEndian bytes)).bind fun n =>
        if bytes.length = 32 then some (.uint n 256) else none
    | .array (.tuple [.bool, .bytes]), bytes => decodeOneResult bytes
    | _, _ => none
  abiEncodeParams := encodeSeparatorCalls
  keccak256 bytes :=
    if bytes = "DOMAIN_SEPARATOR()".toList.flatMap String.utf8EncodeChar then separatorSelector else []
  hexDecode := hexDecodeText

def askSeparator (target calldata : List UInt8) : Except (List Char) (List Char) :=
  if target = multicallContract then
    if calldata.length = 260 then .ok (hexText (resultHeader ++ separatorWord)) else .ok "0x".toList
  else if target = separatorContract ∧ calldata = separatorSelector then .ok (hexText separatorWord)
  else .error "execution reverted".toList

def separatorNet : Networks where
  provider _ := ⟨fun target calldata _ => askSeparator target calldata, askSeparator⟩
  multicall3 _ := multicallContract

theorem hexNibble_hexDigit : ∀ n < 16, hexNibble (hexDigit n) = some (UInt8.ofNat n) := by
  decide

theorem hexDecodeText_hexEncode (bytes : List UInt8) : hexDecodeText (hexEncode bytes) = some bytes := by
  induction bytes with
  | nil => rfl
  | cons b bytes ih =>
    have hHigh := hexNibble_hexDigit (b.toNat / 16) (by have := b.toNat_lt; omega)
    have hLow := hexNibble_hexDigit (b.toNat % 16) (by omega)
    have hByte : 16 * UInt8.ofNat (b.toNat / 16) + UInt8.ofNat (b.toNat % 16) = b := by
      refine UInt8.toNat_inj.mp ?_
      have hBound := b.toNat_lt
      simp [UInt8.toNat_add, UInt8.toNat_mul]
      omega
    rw [hexEncode, List.flatMap_cons, List.cons_append, List.cons_append, List.nil_append, hexDecodeText,
      hHigh, hLow, ← hexEncode, ih]
    simp [hByte]

theorem trimHex_hexText (bytes : List UInt8) : trimHex (hexText bytes) = hexEncode bytes := by
  have hNot : ∀ n < 16, hexDigit n ≠ 'x' := by decide
  rw [hexText, trimHex]
  cases bytes with
  | nil => rfl
  | cons b bytes =>
    rw [hexEncode, List.flatMap_cons, List.cons_append, List.cons_append, trimHex]
    intro s hText
    simp only [List.cons.injEq] at hText
    exact hNot _ (by omega) hText.2.1

theorem answer_hexText (bytes : List UInt8) :
    answerBytes separatorEvm (.ok (hexText bytes)) = some bytes := by
  rw [answerBytes, trimHex_hexText]
  exact hexDecodeText_hexEncode bytes

theorem word_length (n : UInt8) : (word n).length = 32 := by
  rw [word, List.length_append, List.length_replicate]
  rfl

theorem decodeOneResult_eq (data : List UInt8) : decodeOneResult (resultHeader ++ data) =
    some (.array [.tuple [.bool true, .bytes data]]) := by
  have hHeader : resultHeader.length = 192 := by
    simp only [resultHeader, List.length_append, word_length]
  have hDrop : (resultHeader ++ data).drop 192 = data := List.drop_left' hHeader
  rw [decodeOneResult, hDrop, if_pos rfl]

theorem encodeSeparatorCalls_eq {v : DynSolValue} (h : encodeSeparatorCalls v ≠ []) :
    v = .array [.tuple [.address separatorContract, .bool true, .bytes separatorSelector]] := by
  unfold encodeSeparatorCalls at h
  split at h
  · split at h
    · next hCall => rw [hCall.1, hCall.2]
    · exact absurd rfl h
  · exact absurd rfl h

theorem decode_aggregate3 (bytes : List UInt8) :
    separatorEvm.abiDecode aggregate3Result bytes = decodeOneResult bytes := rfl

theorem askSeparator_alike : AnswersAlike separatorEvm askSeparator multicallContract := by
  intro calls results hResults i call returnData more hCall hResult
  by_cases hLength : (aggregate3Calldata separatorEvm calls).length = 260
  · have hAsk : askSeparator multicallContract (aggregate3Calldata separatorEvm calls) =
        .ok (hexText (resultHeader ++ separatorWord)) := by
      rw [askSeparator, if_pos rfl, if_pos hLength]
    rw [hAsk, answer_hexText, Option.bind_some, decode_aggregate3, decodeOneResult_eq] at hResults
    cases hResults
    have hEncoded : encodeSeparatorCalls (.array (calls.map fun c =>
        .tuple [.address c.target, .bool true, .bytes c.calldata])) ≠ [] := by
      intro hNil
      rw [aggregate3Calldata, show separatorEvm.abiEncodeParams = encodeSeparatorCalls from rfl, hNil] at hLength
      cases hLength
    have hCalls := encodeSeparatorCalls_eq hEncoded
    simp only [DynSolValue.array.injEq, List.map_eq_singleton_iff, DynSolValue.tuple.injEq,
      List.cons.injEq, DynSolValue.address.injEq, DynSolValue.bytes.injEq, true_and, and_true] at hCalls
    obtain ⟨c, rfl, hTarget, hCalldata⟩ := hCalls
    cases i with
    | succ i => cases hCall
    | zero =>
      cases hCall
      cases hResult
      rw [askSeparator, hTarget, hCalldata, if_neg (by decide), if_pos ⟨rfl, rfl⟩, answer_hexText]
  · have hAsk : askSeparator multicallContract (aggregate3Calldata separatorEvm calls) =
        .ok "0x".toList := by
      rw [askSeparator, if_pos rfl, if_neg hLength]
    rw [hAsk] at hResults
    cases hResults

theorem separatorNet_consistent : Consistent separatorEvm separatorNet :=
  ⟨fun _ _ => askSeparator_alike, fun _ => askSeparator_alike⟩

def separatorBatch : PrefetchAct :=
  .batch "ethereum".toList 7 [(separatorContract, separatorSelector)]

def separatorCall : ViewCall where
  contractAddress := "$rindexer_contract_address".toList
  functionSig := "DOMAIN_SEPARATOR()".toList
  args := []
  accessor := none
  returnFields := [.mk "" "bytes32" []]
  isStatic := false

def separatorSite : CallSite where
  network := "ethereum".toList
  constants _ := none
  call := separatorCall
  logParams := []
  metadata := { transferMetadata with contractAddress := separatorContract }

theorem separatorSite_resolve : separatorSite.resolve asciiLibrary separatorEvm =
    .ok (some (separatorContract, separatorSelector)) := by
  rfl

def separatorPending : List PendingViewCall :=
  pendingCalls "ethereum".toList 7 [(separatorContract, separatorSelector)]

theorem askSeparator_batch :
    askSeparator multicallContract (aggregate3Calldata separatorEvm separatorPending) =
      .ok (hexText (resultHeader ++ separatorWord)) := by
  have hLength : (aggregate3Calldata separatorEvm separatorPending).length = 260 := by
    have hEncoded : separatorEvm.abiEncodeParams (.array (separatorPending.map fun c =>
        .tuple [.address c.target, .bool true, .bytes c.calldata])) =
          encodeSeparatorCalls (.array
            [.tuple [.address separatorContract, .bool true, .bytes separatorSelector]]) := rfl
    rw [aggregate3Calldata, hEncoded, encodeSeparatorCalls, if_pos ⟨rfl, rfl⟩]
    simp only [List.length_append, word_length, List.length_replicate]
    rfl
  rw [askSeparator, if_pos rfl, if_pos hLength]

theorem separatorWord_detected : tryDecodeReturnValue separatorEvm separatorWord =
    .ok (some (.uint 0xabababababababababababababababababababababababababababababababab 256)) := by
  rfl

theorem separatorNet_ethCall (network : List Char) (target calldata : List UInt8)
    (blockNumber : Fin (2 ^ 64)) :
    (separatorNet.provider network).ethCall target calldata blockNumber = askSeparator target calldata :=
  rfl

theorem separatorBatch_cached : ∃ caches,
    run (prefetchStep separatorEvm separatorNet) .empty [separatorBatch] = some caches ∧
      separatorSite.cached caches separatorContract separatorSelector =
        some (.uint 0xabababababababababababababababababababababababababababababababab 256) := by
  refine ⟨executeMulticall3Batch separatorEvm (separatorNet.provider "ethereum".toList)
    "ethereum".toList 7 separatorPending multicallContract .empty, rfl, ?_⟩
  have hAnswer : (separatorEvm.hexDecode (trimHex (hexText (resultHeader ++ separatorWord)))).bind
      (separatorEvm.abiDecode aggregate3Result) =
        some (.array [.tuple [.bool true, .bytes separatorWord]]) := by
    have hBytes := answer_hexText (resultHeader ++ separatorWord)
    rw [answerBytes] at hBytes
    rw [hBytes, Option.bind_some, decode_aggregate3, decodeOneResult_eq]
  have hNonempty : separatorPending ≠ [] := List.cons_ne_nil _ _
  rw [executeMulticall3Batch, if_neg hNonempty, separatorNet_ethCall, askSeparator_batch]
  simp only [CallSite.cached, cacheAnswer, hAnswer]
  have hStatic : separatorSite.call.isStatic = false := rfl
  have hResult : resultValue separatorEvm (.tuple [.bool true, .bytes separatorWord]) =
      .ok (some (.uint 0xabababababababababababababababababababababababababababababababab 256)) :=
    separatorWord_detected
  rw [hStatic, if_neg (by simp)]
  exact cacheResults_single hResult

end Rindexer.ViewCalls
