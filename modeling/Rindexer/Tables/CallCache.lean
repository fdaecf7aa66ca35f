import Rindexer.Chain
import Rindexer.Lib.Transition

/-! The caches of chain reads that table processing shares: the results of view calls and the timestamps
of blocks, over fills, evictions and reorgs. -/

namespace Rindexer.Tables

open Rindexer.Lib

/-! ### Decoding a result -/

inductive DynSolType
  | uint256
  | string
  | bytes
  | tuple (types : List DynSolType)
  | other (name : String)

inductive DynSolValue
  | uint (value : Nat)
  | string (value : List Char)
  | bytes (value : List UInt8)
  | tuple (values : List DynSolValue)
  | other (text : String)

inductive ReturnField
  | mk (name typeStr : String) (children : List ReturnField)

/-- The parser of types and the ABI decoder, which are not in the repository. -/
structure Abi where
  parse : String → Option DynSolType
  abiDecode : DynSolType → List UInt8 → Option DynSolValue

def bigEndian (bytes : List UInt8) : Nat := bytes.foldl (fun n b => 256 * n + b.toNat) 0

def isAsciiText (c : Char) : Bool :=
  (0x21 ≤ c.toNat && c.toNat ≤ 0x7e) || [' ', '\t', '\n', '\x0c', '\r'].contains c

/-- Bytes up to the first zero, when they are text. -/
def tryBytes32AsString (bytes : List UInt8) : Option DynSolValue :=
  let trimmed := (bytes.takeWhile (· ≠ 0)).map fun b => Char.ofNat b.toNat
  if bytes.length = 32 ∧ trimmed ≠ [] ∧ trimmed.all isAsciiText then some (.string trimmed) else none

/-- A string or bytes, where the words look like those of a dynamic type.  A length past 64 bits panics,
and gives no value either. -/
def tryDynamic (abi : Abi) (bytes : List UInt8) : Option DynSolValue :=
  let length := bigEndian ((bytes.drop 32).take 32)
  if 64 ≤ bytes.length ∧ bigEndian (bytes.take 32) = 32 ∧ length < 10000 ∧
      64 + length ≤ bytes.length then
    match abi.abiDecode .string bytes with
    | some (.string s) =>
      if s.all isAsciiText then some (.string s) else abi.abiDecode .bytes bytes
    | _ => abi.abiDecode .bytes bytes
  else none

/-- Words of a result that declares no types: as many `uint256` as it has. -/
def tryWords (abi : Abi) (bytes : List UInt8) : Option DynSolValue :=
  if 32 < bytes.length ∧ 32 ∣ bytes.length then
    abi.abiDecode (.tuple (List.replicate (bytes.length / 32) .uint256)) bytes
  else none

def tryDecodeReturnValue (abi : Abi) (bytes : List UInt8) : Option DynSolValue :=
  if bytes = [] then none
  else (tryDynamic abi bytes).or ((tryBytes32AsString bytes).or
    ((tryWords abi bytes).or (abi.abiDecode .uint256 bytes)))

mutual

def typeOfField (abi : Abi) : ReturnField → DynSolType
  | .mk _ typeStr [] => (abi.parse typeStr).getD .uint256
  | .mk _ _ [.mk _ typeStr []] => (abi.parse typeStr).getD .uint256
  | .mk _ _ children => .tuple (typesOfFields abi children)

def typesOfFields (abi : Abi) : List ReturnField → List DynSolType
  | [] => []
  | field :: rest => typeOfField abi field :: typesOfFields abi rest

end

def buildReturnTypeFromFields (abi : Abi) : List ReturnField → DynSolType
  | [.mk _ typeStr []] => (abi.parse typeStr).getD .uint256
  | fields => .tuple (typesOfFields abi fields)

/-- The result of a call as its expression declares it, or as it looks when nothing is declared. -/
def decodeViewCallResult (abi : Abi) (returnFields : List ReturnField) (bytes : List UInt8) :
    Option DynSolValue :=
  match returnFields with
  | [] => tryDecodeReturnValue abi bytes
  | fields => (abi.abiDecode (buildReturnTypeFromFields abi fields) bytes).or
      (tryBytes32AsString bytes)

/-! ### The caches -/

structure ViewCallCacheKey where
  network : String
  contractAddress : BitVec 160
  calldata : List UInt8
  blockNumber : Nat
deriving DecidableEq

structure BlockTimestampCacheKey where
  network : String
  blockNumber : Nat
deriving DecidableEq, Repr

/-- What the providers answer for the canonical chains. -/
structure ChainReads where
  ethCall : ViewCallCacheKey → Option (List UInt8)
  timestamp : BlockTimestampCacheKey → Option Nat

/-- The caches, and the answers that are on their way to them, by request. -/
structure ReadCaches (ρ : Type) where
  node : ChainReads
  viewCalls : ViewCallCacheKey → Option DynSolValue
  timestamps : BlockTimestampCacheKey → Option Nat
  calls : ρ → Option (ViewCallCacheKey × List UInt8)
  blocks : ρ → Option (BlockTimestampCacheKey × Nat)

inductive CacheAct (ρ : Type)
  | call (request : ρ) (key : ViewCallCacheKey)
  /-- An expression caches the result that it has called for, for events or for cron. -/
  | cacheDeclared (request : ρ) (returnFields : List ReturnField)
  /-- The multicall caches a result, which it decodes without an expression. -/
  | cacheDetected (request : ρ)
  | getBlock (request : ρ) (key : BlockTimestampCacheKey)
  | cacheTimestamp (request : ρ)
  /-- Entries of old blocks are evicted. -/
  | evict (cutoffBlock : Nat)
  | reorg (node : ChainReads)

section Caches

variable {ρ : Type} [DecidableEq ρ]

namespace ReadCaches

def start (node : ChainReads) : ReadCaches ρ :=
  ⟨node, fun _ => none, fun _ => none, fun _ => none, fun _ => none⟩

def cacheResult (s : ReadCaches ρ) (request : ρ) (decode : List UInt8 → Option DynSolValue) :
    Option (ReadCaches ρ) :=
  (s.calls request).map fun (key, bytes) =>
    match decode bytes with
    | none => { s with calls := Function.update s.calls request none }
    | some value => { s with
        calls := Function.update s.calls request none
        viewCalls := Function.update s.viewCalls key (some value) }

def step (abi : Abi) (s : ReadCaches ρ) : CacheAct ρ → Option (ReadCaches ρ)
  | .call request key => (s.node.ethCall key).map fun bytes =>
      { s with calls := Function.update s.calls request (some (key, bytes)) }
  | .cacheDeclared request returnFields =>
    s.cacheResult request (decodeViewCallResult abi returnFields)
  | .cacheDetected request => s.cacheResult request (tryDecodeReturnValue abi)
  | .getBlock request key => (s.node.timestamp key).map fun timestamp =>
      { s with blocks := Function.update s.blocks request (some (key, timestamp)) }
  | .cacheTimestamp request => (s.blocks request).map fun (key, timestamp) => { s with
      blocks := Function.update s.blocks request none
      timestamps := Function.update s.timestamps key (some timestamp) }
  | .evict cutoffBlock => some { s with
      viewCalls := fun key => if cutoffBlock < key.blockNumber then s.viewCalls key else none
      timestamps := fun key => if cutoffBlock < key.blockNumber then s.timestamps key else none }
  | .reorg node => some { s with node := node }

end ReadCaches

/-- Whatever an expression of the project would take from the caches is what the canonical chain answers
now, decoded as the expression declares it.  `declares` says what the expressions that make a call
declare. -/
structure FollowsChain (abi : Abi) (declares : ViewCallCacheKey → List ReturnField → Prop)
    (s : ReadCaches ρ) : Prop where
  viewCalls : ∀ key value returnFields, s.viewCalls key = some value → declares key returnFields →
    (s.node.ethCall key).bind (decodeViewCallResult abi returnFields) = some value
  timestamps : ∀ key timestamp, s.timestamps key = some timestamp →
    s.node.timestamp key = some timestamp

/-- A result is cached as every expression that makes the call decodes it; and a reorg replaces no block
that an entry, or a result on its way, is about. -/
def SparesCaches (abi : Abi) (declares : ViewCallCacheKey → List ReturnField → Prop)
    (s : ReadCaches ρ) : CacheAct ρ → Prop
  | .cacheDeclared request returnFields => ∀ key bytes, s.calls request = some (key, bytes) →
      ∀ other, declares key other →
        decodeViewCallResult abi other bytes = decodeViewCallResult abi returnFields bytes
  | .cacheDetected request => ∀ key bytes, s.calls request = some (key, bytes) →
      ∀ other, declares key other →
        decodeViewCallResult abi other bytes = tryDecodeReturnValue abi bytes
  | .reorg node =>
    (∀ key, (s.viewCalls key).isSome ∨ (∃ request bytes, s.calls request = some (key, bytes)) →
        node.ethCall key = s.node.ethCall key) ∧
      ∀ key, (s.timestamps key).isSome ∨ (∃ request ts, s.blocks request = some (key, ts)) →
        node.timestamp key = s.node.timestamp key
  | _ => True

/-! ### What the caches have -/

/-- The entries, and the answers on their way, are of the canonical chain. -/
structure CachesInv (abi : Abi) (declares : ViewCallCacheKey → List ReturnField → Prop)
    (s : ReadCaches ρ) : Prop where
  follows : FollowsChain abi declares s
  calls : ∀ request key bytes, s.calls request = some (key, bytes) →
    s.node.ethCall key = some bytes
  blocks : ∀ request key timestamp, s.blocks request = some (key, timestamp) →
    s.node.timestamp key = some timestamp

variable {abi : Abi} {declares : ViewCallCacheKey → List ReturnField → Prop} {s s' : ReadCaches ρ}

/-- A map after an update has the new value at its key and the old ones elsewhere. -/
theorem update_eq_some {α β : Type} [DecidableEq α] {f : α → Option β} {a a' : α} {v : Option β}
    {b : β} (h : Function.update f a v a' = some b) : a' = a ∧ v = some b ∨ f a' = some b := by
  by_cases hSame : a' = a
  · subst hSame
    rw [Function.update_self] at h
    exact Or.inl ⟨rfl, h⟩
  · rw [Function.update_of_ne hSame] at h
    exact Or.inr h

/-- A result is cached when all its expressions decode it so. -/
theorem cacheResult_inv (hInv : CachesInv abi declares s) {request : ρ}
    {decode : List UInt8 → Option DynSolValue}
    (hDecode : ∀ key bytes, s.calls request = some (key, bytes) → ∀ other, declares key other →
      decodeViewCallResult abi other bytes = decode bytes)
    (h : s.cacheResult request decode = some s') : CachesInv abi declares s' := by
  obtain ⟨⟨key, bytes⟩, hCall, hEq⟩ := Option.map_eq_some_iff.mp h
  have hCalls : ∀ request' key' bytes',
      Function.update s.calls request none request' = some (key', bytes') →
        s.node.ethCall key' = some bytes' := by
    intro request' key' bytes' hUpdated
    rcases update_eq_some hUpdated with ⟨-, hNone⟩ | hOld
    · cases hNone
    · exact hInv.calls request' key' bytes' hOld
  dsimp only at hEq
  split at hEq
  case h_1 =>
    rw [← hEq]
    exact ⟨⟨hInv.follows.viewCalls, hInv.follows.timestamps⟩, hCalls, hInv.blocks⟩
  case h_2 value hValue =>
    rw [← hEq]
    refine ⟨⟨fun key' value' other hEntry hDeclares => ?_, hInv.follows.timestamps⟩, hCalls,
      hInv.blocks⟩
    rcases update_eq_some hEntry with ⟨rfl, hNew⟩ | hOld
    · show (s.node.ethCall key').bind _ = _
      rw [hInv.calls request key' bytes hCall, Option.bind_some, hDecode key' bytes hCall other
        hDeclares, hValue, hNew]
    · exact hInv.follows.viewCalls key' value' other hOld hDeclares

theorem step_cachesInv {act : CacheAct ρ} (hInv : CachesInv abi declares s)
    (hAct : SparesCaches abi declares s act) (h : s.step abi act = some s') :
    CachesInv abi declares s' := by
  cases act with
  | call request key =>
    obtain ⟨bytes, hBytes, rfl⟩ := Option.map_eq_some_iff.mp h
    refine ⟨⟨hInv.follows.viewCalls, hInv.follows.timestamps⟩, fun request' key' bytes' hCall => ?_,
      hInv.blocks⟩
    rcases update_eq_some hCall with ⟨-, hNew⟩ | hOld
    · cases hNew
      exact hBytes
    · exact hInv.calls request' key' bytes' hOld
  | cacheDeclared request returnFields => exact cacheResult_inv hInv hAct h
  | cacheDetected request => exact cacheResult_inv hInv hAct h
  | getBlock request key =>
    obtain ⟨timestamp, hTimestamp, rfl⟩ := Option.map_eq_some_iff.mp h
    refine ⟨⟨hInv.follows.viewCalls, hInv.follows.timestamps⟩, hInv.calls,
      fun request' key' timestamp' hBlock => ?_⟩
    rcases update_eq_some hBlock with ⟨-, hNew⟩ | hOld
    · cases hNew
      exact hTimestamp
    · exact hInv.blocks request' key' timestamp' hOld
  | cacheTimestamp request =>
    obtain ⟨⟨key, timestamp⟩, hBlock, rfl⟩ := Option.map_eq_some_iff.mp h
    refine ⟨⟨hInv.follows.viewCalls, fun key' timestamp' hEntry => ?_⟩, hInv.calls,
      fun request' key' timestamp' hOther => ?_⟩
    · rcases update_eq_some hEntry with ⟨rfl, hNew⟩ | hOld
      · cases hNew
        exact hInv.blocks request key' timestamp hBlock
      · exact hInv.follows.timestamps key' timestamp' hOld
    · rcases update_eq_some hOther with ⟨-, hNone⟩ | hOld
      · cases hNone
      · exact hInv.blocks request' key' timestamp' hOld
  | evict cutoffBlock =>
    cases h
    refine ⟨⟨fun key value other hEntry hDeclares => ?_, fun key timestamp hEntry => ?_⟩, hInv.calls,
      hInv.blocks⟩
    · dsimp only at hEntry
      split at hEntry
      · exact hInv.follows.viewCalls key value other hEntry hDeclares
      · cases hEntry
    · dsimp only at hEntry
      split at hEntry
      · exact hInv.follows.timestamps key timestamp hEntry
      · cases hEntry
  | reorg node =>
    cases h
    obtain ⟨hCalls, hBlocks⟩ := hAct
    refine ⟨⟨fun key value other hEntry hDeclares => ?_, fun key timestamp hEntry => ?_⟩,
      fun request key bytes hCall => ?_, fun request key timestamp hBlock => ?_⟩
    · show (node.ethCall key).bind _ = _
      rw [hCalls key (Or.inl (Option.isSome_iff_exists.mpr ⟨value, hEntry⟩))]
      exact hInv.follows.viewCalls key value other hEntry hDeclares
    · show node.timestamp key = _
      rw [hBlocks key (Or.inl (Option.isSome_iff_exists.mpr ⟨timestamp, hEntry⟩))]
      exact hInv.follows.timestamps key timestamp hEntry
    · show node.ethCall key = _
      rw [hCalls key (Or.inr ⟨request, bytes, hCall⟩)]
      exact hInv.calls request key bytes hCall
    · show node.timestamp key = _
      rw [hBlocks key (Or.inr ⟨request, timestamp, hBlock⟩)]
      exact hInv.blocks request key timestamp hBlock

/-- In a run that spares the caches they follow the canonical chain. -/
theorem caches_follow_chain (abi : Abi) (declares : ViewCallCacheKey → List ReturnField → Prop)
    (node : ChainReads) (acts : List (CacheAct ρ))
    (hActs : Meets (ReadCaches.step abi) (SparesCaches abi declares) (.start node) acts) :
    Always (ReadCaches.step abi) (FollowsChain abi declares) (.start node) acts := by
  have hStart : CachesInv abi declares (.start node : ReadCaches ρ) :=
    ⟨⟨fun _ _ _ h => (nomatch h), fun _ _ h => (nomatch h)⟩, fun _ _ _ h => (nomatch h),
      fun _ _ _ h => (nomatch h)⟩
  exact (always_of_invariant (fun s act s' hInv hAct h => step_cachesInv hInv hAct h) hStart
    hActs).mono fun s hInv => hInv.follows

end Caches

/-! ### One call and one block -/

/-- The decoder for results of one word. -/
def wordAbi : Abi where
  parse typeStr := if typeStr = "uint256" then some .uint256 else none
  abiDecode
    | .uint256, bytes => if bytes.length = 32 then some (.uint (bigEndian bytes)) else none
    | _, _ => none

def totalSupply : ViewCallCacheKey := ⟨"ethereum", 1, [0x18, 0x16, 0x0d, 0xdd], 10⟩

def supplyField : ReturnField := .mk "supply" "uint256" []

/-- A chain on which the supply is 7, with the given time of block 10. -/
def suppliedChain (timestamp : Nat) : ChainReads where
  ethCall key := if key = totalSupply then some (List.replicate 31 0 ++ [7]) else none
  timestamp key := if key.blockNumber = 10 then some timestamp else none

theorem caches_follow_chain_supply :
    Always (ReadCaches.step wordAbi) (FollowsChain wordAbi fun _ fields => fields = [supplyField])
      (.start (suppliedChain 1000) : ReadCaches Bool)
      [.call true totalSupply, .cacheDetected true, .reorg (suppliedChain 1001),
        .getBlock false ⟨"ethereum", 10⟩, .cacheTimestamp false, .evict 9] := by
  apply caches_follow_chain
  refine .cons rfl trivial (.cons rfl ?_ (.cons rfl ⟨fun _ _ => rfl, ?_⟩ (.cons rfl trivial
    (.cons rfl trivial (.cons rfl trivial trivial)))))
  · rintro key bytes hCall other rfl
    cases hCall
    rfl
  · rintro key (hEntry | ⟨request, timestamp, hBlock⟩)
    · cases hEntry
    · cases hBlock

/-- The time of an orphaned block stays in the cache. -/
theorem orphaned_timestamp_used :
    ¬ ∀ (abi : Abi) (declares : ViewCallCacheKey → List ReturnField → Prop) (node : ChainReads)
        (acts : List (CacheAct Bool)),
      Always (ReadCaches.step abi) (FollowsChain abi declares) (.start node) acts := by
  intro hClaim
  have hRun := hClaim wordAbi (fun _ _ => False) (suppliedChain 1000)
    [.getBlock true ⟨"ethereum", 10⟩, .cacheTimestamp true, .reorg (suppliedChain 1001)]
  have hLast := ((hRun.2 _ rfl).2 _ rfl).2 _ rfl
  have hTime := hLast.timestamps ⟨"ethereum", 10⟩ 1000 rfl
  exact absurd hTime (by decide)

end Rindexer.Tables
