import Mathlib.Data.List.Basic
import Mathlib.Data.Nat.Basic
import Mathlib.Tactic.Common
import Mathlib.Tactic.NormNum

/-! Blocks and the provider that serves them.  Of a block, reorg handling reads the number, the hash,
and the hash of the parent. -/

namespace Rindexer

/-- A 256-bit hash. -/
abbrev B256 := BitVec 256

/-- The header fields of a block that reorg handling reads. -/
structure Header where
  number : Nat
  hash : B256
  parentHash : B256
deriving DecidableEq, Repr

/-- The largest value of an `i64`, the type of the `BIGINT` columns. -/
def i64Max : Nat := 2 ^ 63 - 1

/-- What `get_block_by_number_batch` answers: an error, or the blocks that the node has among those
requested, in the order of the request.  A block that the node answers with null is left out. -/
structure ChainProvider where
  getBlockByNumberBatch : List Nat → Option (List Header)
  requested : ∀ {numbers blocks}, getBlockByNumberBatch numbers = some blocks →
    (blocks.map Header.number).Sublist numbers

/-- A provider whose node has block `chain n` at each height `n` below `height`. -/
def ChainProvider.ofChain (chain : Nat → B256 × B256) (height : Nat) : ChainProvider where
  getBlockByNumberBatch numbers :=
    some ((numbers.filter (· < height)).map fun n => ⟨n, (chain n).1, (chain n).2⟩)
  requested := by
    rintro numbers blocks h
    cases h
    simp only [List.map_map, Function.comp_def, List.map_id']
    exact List.filter_sublist

/-- A provider that answers every request with an error. -/
def ChainProvider.failing : ChainProvider where
  getBlockByNumberBatch _ := none
  requested h := nomatch h

/-- The blocks belong to one chain: each has the hash of its height on the chain and, above height
zero, names as its parent the hash of the height below. -/
def OneChain (blocks : List Header) : Prop :=
  ∃ hashAt : Nat → B256, ∀ b ∈ blocks, b.hash = hashAt b.number ∧
    ∀ n, b.number = n + 1 → b.parentHash = hashAt n

/-- Each batch call answers from one linked chain.  Two calls may see two chains. -/
def ChainProvider.AnswersFromOneChain (p : ChainProvider) : Prop :=
  ∀ numbers blocks, p.getBlockByNumberBatch numbers = some blocks → OneChain blocks

theorem OneChain.sublist {blocks blocks' : List Header} (h : OneChain blocks)
    (hSub : ∀ b ∈ blocks', b ∈ blocks) : OneChain blocks' := by
  obtain ⟨hashAt, hAt⟩ := h
  exact ⟨hashAt, fun b hMem => hAt b (hSub b hMem)⟩

/-- On one chain, a block names as its parent the block below it. -/
theorem OneChain.parent {blocks : List Header} (h : OneChain blocks) {a b : Header}
    (ha : a ∈ blocks) (hb : b ∈ blocks) (hNext : b.number = a.number + 1) :
    b.parentHash = a.hash := by
  obtain ⟨hashAt, hAt⟩ := h
  rw [(hAt b hb).2 a.number hNext, (hAt a ha).1]

end Rindexer
