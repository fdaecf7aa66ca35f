import Rindexer.Chain
import Rindexer.Lib.OrderedMap

/-! The sliding window of block hashes: `BlockChainWindow` and its operations, what each does to the
stored hashes, and `Linked`, that stored neighbours are parent and child. -/

namespace Rindexer.Reorg

open Rindexer.Lib

/-- The latest blocks seen, by number: the hash and the parent hash of each. -/
structure BlockChainWindow where
  entries : OrderedMap Nat (B256 × B256)
  maxWindowSize : Nat
  sizePositive : 0 < maxWindowSize

/-- The default size is one. -/
theorem hundred_pos : 0 < 100 := by decide

inductive ParentValidation
  | valid
  | mismatch (expected got : B256)
  | noPreviousBlock
deriving DecidableEq, Repr

namespace BlockChainWindow

def tryNew (maxWindowSize : Nat) : Except String BlockChainWindow :=
  if h : 0 < maxWindowSize then .ok ⟨∅, maxWindowSize, h⟩
  else .error "window_size must be > 0"

/-- The loop of `prune`: the least key goes while the window exceeds its size. -/
def pruneLoop (maxWindowSize : Nat) : Nat → OrderedMap Nat (B256 × B256) →
    OrderedMap Nat (B256 × B256)
  | 0, entries => entries
  | fuel + 1, entries =>
    if entries.size > maxWindowSize then pruneLoop maxWindowSize fuel entries.popFirst else entries

def prune (w : BlockChainWindow) : BlockChainWindow :=
  { w with entries := pruneLoop w.maxWindowSize w.entries.size w.entries }

def insert (w : BlockChainWindow) (blockNumber : Nat) (blockHash parentHash : B256) :
    BlockChainWindow :=
  { w with entries := w.entries.insert blockNumber (blockHash, parentHash) }.prune

def get (w : BlockChainWindow) (blockNumber : Nat) : Option (B256 × B256) :=
  w.entries.get? blockNumber

def len (w : BlockChainWindow) : Nat := w.entries.size

def isEmpty (w : BlockChainWindow) : Bool := w.len == 0

/-- Whether `parentHash` is the stored hash of the block below `blockNumber`. -/
def validateParent (w : BlockChainWindow) (blockNumber : Nat) (parentHash : B256) :
    ParentValidation :=
  match blockNumber with
  | 0 => .noPreviousBlock
  | prev + 1 =>
    match w.get prev with
    | none => .noPreviousBlock
    | some (storedHash, _) =>
      if storedHash = parentHash then .valid else .mismatch storedHash parentHash

/-- The last block of `canonicalBlocks` whose hash is the stored one. -/
def findForkPoint (w : BlockChainWindow) (canonicalBlocks : List (Nat × B256)) : Option Nat :=
  (canonicalBlocks.reverse.find? fun b =>
    match w.get b.1 with
    | some (storedHash, _) => storedHash == b.2
    | none => false).map Prod.fst

/-- Overwrites entries for the given block numbers.  Unlike `insert`, it does not prune. -/
def updateRange (w : BlockChainWindow) (blocks : List Header) : BlockChainWindow :=
  { w with entries := w.entries.insertAll (blocks.map fun b => (b.number, b.hash, b.parentHash)) }

def removeFrom (w : BlockChainWindow) (start : Nat) : BlockChainWindow :=
  { w with entries := w.entries.restrict (· < start) }

def blockNumbersFrom (w : BlockChainWindow) (start : Nat) : List Nat :=
  (w.entries.restrict (start ≤ ·)).keys

def blockNumbers (w : BlockChainWindow) : List Nat := w.entries.keys

def oldestBlock (w : BlockChainWindow) : Option Nat := w.entries.first?

def latestBlock (w : BlockChainWindow) : Option Nat := w.entries.last?

/-! ### What the operations do to stored hashes -/

theorem pruneLoop_eq {maxWindowSize fuel : Nat} {entries : OrderedMap Nat (B256 × B256)}
    (h : entries.size ≤ fuel) :
    pruneLoop maxWindowSize fuel entries = entries.dropFirst (entries.size - maxWindowSize) := by
  induction fuel generalizing entries with
  | zero => simp [pruneLoop, Nat.le_zero.mp h]
  | succ fuel ih =>
    rw [pruneLoop]
    split
    · rename_i hOver
      have hSize : entries.popFirst.size = entries.size - 1 := by
        simp [OrderedMap.size, OrderedMap.popFirst]
      rw [ih (by omega), hSize, OrderedMap.popFirst_dropFirst]
      congr 1
      omega
    · rename_i hFits
      rw [show entries.size - maxWindowSize = 0 by omega, OrderedMap.dropFirst_zero]

theorem prune_entries (w : BlockChainWindow) :
    w.prune.entries = w.entries.dropFirst (w.entries.size - w.maxWindowSize) :=
  pruneLoop_eq le_rfl

/-- The window never holds more than its size after a prune. -/
theorem prune_len_le (w : BlockChainWindow) : w.prune.len ≤ w.maxWindowSize := by
  have h : w.prune.len = w.len - (w.len - w.maxWindowSize) := by
    rw [len, prune_entries, OrderedMap.size_dropFirst, len]
  omega

theorem get_of_get_prune {w : BlockChainWindow} {n : Nat} {e : B256 × B256}
    (h : w.prune.get n = some e) : w.get n = some e := by
  rw [get, prune_entries] at h
  exact OrderedMap.get?_of_get?_dropFirst h

/-- Inserting a block leaves at each height the block, or what was there. -/
theorem get_insert_cases {w : BlockChainWindow} {number n : Nat} {hash parentHash : B256}
    {e : B256 × B256} (h : (w.insert number hash parentHash).get n = some e) :
    n = number ∧ e = (hash, parentHash) ∨ n ≠ number ∧ w.get n = some e := by
  have hGet := get_of_get_prune h
  rw [get, OrderedMap.get?_insert] at hGet
  split at hGet
  · rename_i heq
    exact .inl ⟨heq, (Option.some.inj hGet).symm⟩
  · rename_i hne
    exact .inr ⟨hne, hGet⟩

/-- How many heights the window holds above `n`. -/
def heightsAbove (w : BlockChainWindow) (n : Nat) : Nat := (w.entries.keys.filter (n < ·)).length

/-- Where fewer heights lie above a block than the window holds, inserting it changes nothing from
its height on but its own entry. -/
theorem get_insert_of_fits {w : BlockChainWindow} {number n : Nat} (hash parentHash : B256)
    (h : w.heightsAbove number < w.maxWindowSize) (hn : number ≤ n) :
    (w.insert number hash parentHash).get n =
      if n = number then some (hash, parentHash) else w.get n := by
  have hPerm := (w.entries.keys_insert_from number (hash, parentHash)).length_eq
  have hMono : ((w.entries.insert number (hash, parentHash)).keys.filter (n ≤ ·)).length ≤
      ((w.entries.insert number (hash, parentHash)).keys.filter (number ≤ ·)).length := by
    refine (List.monotone_filter_right _ fun k hk => ?_).length_le
    have hLe : n ≤ k := by simpa using hk
    simp only [decide_eq_true_eq]
    omega
  have hAll := List.length_filter_le (n ≤ ·) (w.entries.insert number (hash, parentHash)).keys
  have hSize : (w.entries.insert number (hash, parentHash)).keys.length =
      (w.entries.insert number (hash, parentHash)).size := List.length_map _
  unfold heightsAbove at h
  rw [List.length_cons] at hPerm
  unfold insert get
  rw [prune_entries]
  simp only
  rw [OrderedMap.get?_dropFirst_of_count (by omega), OrderedMap.get?_insert]

/-- Where as many heights lie above a block as the window holds, the block does not stay. -/
theorem get_insert_of_full {w : BlockChainWindow} {number : Nat} {hash parentHash : B256}
    (h : w.maxWindowSize ≤ w.heightsAbove number) :
    (w.insert number hash parentHash).get number = none := by
  have hAbove := (w.entries.keys_insert_above number (hash, parentHash)).length_eq
  unfold heightsAbove at h
  unfold insert get
  rw [prune_entries]
  apply OrderedMap.get?_dropFirst_eq_none
  simp only
  omega

theorem get_eq_none_of_latest_lt {w : BlockChainWindow} {latest n : Nat}
    (h : w.latestBlock = some latest) (hlt : latest < n) : w.get n = none :=
  OrderedMap.get?_eq_none_iff.mpr fun hMem => absurd (OrderedMap.le_last? h hMem) (by omega)

/-- `validateParent` reports a mismatch exactly when the height below holds another hash. -/
theorem validateParent_mismatch_iff {w : BlockChainWindow} {number : Nat} {parentHash : B256} :
    (∃ expected got, w.validateParent number parentHash = .mismatch expected got) ↔
      ∃ prev h p, number = prev + 1 ∧ w.get prev = some (h, p) ∧ h ≠ parentHash := by
  cases number with
  | zero => simp [validateParent]
  | succ prev =>
    rw [validateParent]
    split
    · rename_i h
      simp [h]
    · rename_i storedHash p h
      by_cases hEq : storedHash = parentHash <;> simp [h, hEq]

theorem get_updateRange_of_notMem {w : BlockChainWindow} {blocks : List Header} {n : Nat}
    (h : n ∉ blocks.map Header.number) : (w.updateRange blocks).get n = w.get n :=
  OrderedMap.get?_insertAll_of_notMem (by simpa [Function.comp_def] using h)

theorem get_updateRange_of_mem {w : BlockChainWindow} {blocks : List Header}
    (hNodup : (blocks.map Header.number).Nodup) {b : Header} (h : b ∈ blocks) :
    (w.updateRange blocks).get b.number = some (b.hash, b.parentHash) := by
  refine OrderedMap.get?_insertAll_of_mem (by simpa [Function.comp_def] using hNodup) ?_
  exact List.mem_map_of_mem (f := fun b : Header => (b.number, b.hash, b.parentHash)) h

theorem get_removeFrom (w : BlockChainWindow) (start n : Nat) :
    (w.removeFrom start).get n = if n < start then w.get n else none := by
  simp only [get, removeFrom, OrderedMap.get?_restrict, decide_eq_true_eq]

/-- The fork search returns a listed height whose stored hash is the listed one. -/
theorem findForkPoint_some {w : BlockChainWindow} {blocks : List (Nat × B256)} {n : Nat}
    (h : w.findForkPoint blocks = some n) :
    ∃ hash p, (n, hash) ∈ blocks ∧ w.get n = some (hash, p) := by
  obtain ⟨b, hFind, rfl⟩ := Option.map_eq_some_iff.mp h
  have hTest := List.find?_some hFind
  have hMem := List.mem_reverse.mp (List.mem_of_find?_eq_some hFind)
  split at hTest
  · rename_i storedHash p hGet
    obtain rfl := eq_of_beq hTest
    exact ⟨b.2, p, hMem, hGet⟩
  · exact absurd hTest (by decide)

/-! ### Links -/

/-- Of two stored neighbours, the higher names the lower as its parent. -/
def Linked (w : BlockChainWindow) : Prop :=
  ∀ n h p h' p', w.get n = some (h, p) → w.get (n + 1) = some (h', p') → p' = h

/-- No height stored in both windows has two hashes. -/
def KeepsHashes (before after : BlockChainWindow) : Prop :=
  ∀ n h p h' p', before.get n = some (h, p) → after.get n = some (h', p') → h' = h

/-- A window with no entries but those of a linked one is linked. -/
theorem Linked.of_subset {w w' : BlockChainWindow} (h : w.Linked)
    (hSub : ∀ n e, w'.get n = some e → w.get n = some e) : w'.Linked :=
  fun n hash p hash' p' hLow hHigh => h n hash p hash' p' (hSub _ _ hLow) (hSub _ _ hHigh)

theorem KeepsHashes.of_subset {w w' : BlockChainWindow}
    (hSub : ∀ n e, w'.get n = some e → w.get n = some e) : KeepsHashes w w' := by
  intro n hash p hash' p' hBefore hAfter
  have hSame := hSub n _ hAfter
  rw [hBefore] at hSame
  cases hSame
  rfl

/-- A block fits the entries of a window: its height holds no other hash, and the block above names
it as the parent. -/
structure Fits (w : BlockChainWindow) (number : Nat) (hash : B256) : Prop where
  same : ∀ hash' p', w.get number = some (hash', p') → hash' = hash
  successor : ∀ hash' p', w.get (number + 1) = some (hash', p') → p' = hash

/-- The height below holds the parent, or nothing. -/
def ParentFits (w : BlockChainWindow) (number : Nat) (parentHash : B256) : Prop :=
  ∀ prev hash p, number = prev + 1 → w.get prev = some (hash, p) → hash = parentHash

theorem parentFits_iff {w : BlockChainWindow} {number : Nat} {parentHash : B256} :
    w.ParentFits number parentHash ↔
      ∀ expected got, w.validateParent number parentHash ≠ .mismatch expected got := by
  have h := @validateParent_mismatch_iff w number parentHash
  constructor
  · intro hFits expected got hMismatch
    obtain ⟨prev, hash, p, hPrev, hGet, hne⟩ := h.mp ⟨expected, got, hMismatch⟩
    exact hne (hFits prev hash p hPrev hGet)
  · intro hNever prev hash p hPrev hGet
    by_contra hne
    obtain ⟨expected, got, hMismatch⟩ := h.mpr ⟨prev, hash, p, hPrev, hGet, hne⟩
    exact hNever expected got hMismatch

/-- Inserting a block whose parent fits leaves a linked window that keeps its hashes exactly when the
block fits the window too, or does not stay in it. -/
theorem insert_linked_iff {w : BlockChainWindow} {number : Nat} {hash parentHash : B256}
    (hLinked : w.Linked) (hParent : w.ParentFits number parentHash) :
    (w.insert number hash parentHash).Linked ∧ KeepsHashes w (w.insert number hash parentHash) ↔
      w.maxWindowSize ≤ w.heightsAbove number ∨ w.Fits number hash := by
  by_cases hFull : w.maxWindowSize ≤ w.heightsAbove number
  · have hSub : ∀ n e, (w.insert number hash parentHash).get n = some e → w.get n = some e := by
      intro n e hGet
      rcases get_insert_cases hGet with ⟨rfl, -⟩ | ⟨-, hOld⟩
      · rw [get_insert_of_full hFull] at hGet
        cases hGet
      · exact hOld
    simp only [hFull, true_or, iff_true]
    exact ⟨hLinked.of_subset hSub, .of_subset hSub⟩
  · have hStays := get_insert_of_fits hash parentHash (not_le.mp hFull) (le_refl number)
    rw [if_pos rfl] at hStays
    have hNext := get_insert_of_fits hash parentHash (not_le.mp hFull) (Nat.le_succ number)
    rw [if_neg (by omega)] at hNext
    simp only [hFull, false_or]
    constructor
    · rintro ⟨hLinkedAfter, hKeeps⟩
      refine ⟨fun hash' p' hGet => ?_, fun hash' p' hGet => ?_⟩
      · exact (hKeeps number _ _ _ _ hGet hStays).symm
      · exact hLinkedAfter number _ _ _ _ hStays (hNext.trans hGet)
    · intro hFits
      constructor
      · intro n hash1 p1 hash2 p2 hLow hHigh
        rcases get_insert_cases hLow with ⟨rfl, hEq⟩ | ⟨-, hLowOld⟩
        · cases hEq
          rw [hNext] at hHigh
          exact hFits.successor hash2 p2 hHigh
        · rcases get_insert_cases hHigh with ⟨hEqN, hEq⟩ | ⟨-, hHighOld⟩
          · cases hEq
            exact (hParent n hash1 p1 hEqN.symm hLowOld).symm
          · exact hLinked n hash1 p1 hash2 p2 hLowOld hHighOld
      · intro n hash1 p1 hash2 p2 hBefore hAfter
        rcases get_insert_cases hAfter with ⟨rfl, hEq⟩ | ⟨-, hOld⟩
        · cases hEq
          exact (hFits.same hash1 p1 hBefore).symm
        · rw [hBefore] at hOld
          cases hOld
          rfl

theorem linked_of_empty {w : BlockChainWindow} (h : ∀ n, w.get n = none) : w.Linked := by
  intro n hash p h' p' hGet _
  rw [h n] at hGet
  exact absurd hGet (by simp)

end BlockChainWindow

end Rindexer.Reorg
