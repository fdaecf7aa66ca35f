import Rindexer.Blockclock.Lookup

/-! The batch lookup against the lookup of one block: the two read the same clock, but the walk of a
batch starts at the checkpoint of its greatest block and ends before the last block of the runs. -/

namespace Rindexer.Blockclock.DeltaEncoder

open Rindexer.Lib
open scoped UInt64.CommRing

variable {encoder : DeltaEncoder}

/-- The number of blocks after the first one that the runs cover. -/
def encodedBlocks (encoder : DeltaEncoder) : Nat := (Run.steps encoder.encodedDeltas.runs).length

/-- The timestamp of a block from the runs. -/
noncomputable def runClock (encoder : DeltaEncoder) (genesis : UInt64) (block : Nat) : UInt64 :=
  Run.clock genesis (Run.steps encoder.encodedDeltas.runs) block

/-! ### Where a walk starts -/

/-- A walk starts at the greatest checkpoint up to its block, or at the first run. -/
theorem checkpoint_cases (encoder : DeltaEncoder) (genesis : UInt64) (block : Nat) :
    (∃ bnum idx ts, (bnum, (idx, ts)) ∈ encoder.index.entries ∧ bnum ≤ block ∧
      (∀ k ∈ encoder.index.keys, k ≤ block → k ≤ bnum) ∧
      encoder.checkpoint genesis block = (bnum, ts, idx)) ∨
    ((∀ k ∈ encoder.index.keys, block < k) ∧ encoder.checkpoint genesis block = (0, genesis, 0)) := by
  cases hLast : (encoder.index.entries.filter fun entry => entry.1 ≤ block).getLast? with
  | none =>
    refine .inr ⟨fun k hk => ?_, by simp [checkpoint, hLast]⟩
    obtain ⟨entry, hEntry, rfl⟩ := List.mem_map.mp hk
    rw [List.getLast?_eq_none_iff, List.filter_eq_nil_iff] at hLast
    simpa using hLast entry hEntry
  | some entry =>
    obtain ⟨bnum, idx, ts⟩ := entry
    obtain ⟨init, hInit⟩ := List.getLast?_eq_some_iff.mp hLast
    have hMem : (bnum, (idx, ts)) ∈ encoder.index.entries.filter fun entry => entry.1 ≤ block := by
      rw [hInit]
      simp
    obtain ⟨hEntry, hLe⟩ := List.mem_filter.mp hMem
    refine .inl ⟨bnum, idx, ts, hEntry, by simpa using hLe, ?_, by simp [checkpoint, hLast]⟩
    intro k hk hkBlock
    obtain ⟨other, hOther, rfl⟩ := List.mem_map.mp hk
    have hOtherMem : other ∈ init ++ [(bnum, (idx, ts))] := by
      rw [← hInit]
      exact List.mem_filter.mpr ⟨hOther, by simpa using hkBlock⟩
    have hAscending : (init ++ [(bnum, (idx, ts))]).Pairwise fun a b => a.1 < b.1 := by
      rw [← hInit]
      exact encoder.index.ascending.filter _
    rcases List.mem_append.mp hOtherMem with hBefore | hSame
    · exact ((List.pairwise_append.mp hAscending).2.2 other hBefore _ List.mem_cons_self).le
    · rw [List.mem_singleton.mp hSame]

/-- A walk starts on the clock, in front of what is left of the runs. -/
theorem checkpoint_spec (hSound : IndexSound encoder) {genesis : UInt64}
    (hGenesis : encoder.encodedDeltas.genesisTimestamp = some genesis) (block : Nat) :
    ∃ bnum idx, encoder.checkpoint genesis block = (bnum, encoder.runClock genesis bnum, idx) ∧
      bnum ≤ block ∧ bnum = (Run.steps (encoder.encodedDeltas.runs.take idx)).length ∧
      (encoder.encodedDeltas.runs.drop idx = [] ↔ encoder.encodedDeltas.runs = []) := by
  rcases checkpoint_cases encoder genesis block with
    ⟨bnum, idx, ts, hEntry, hLe, -, hEq⟩ | ⟨-, hEq⟩
  · obtain ⟨genesis', hGenesis', hIdx, hBnum, hTs⟩ := hSound bnum idx ts hEntry
    cases hGenesis.symm.trans hGenesis'
    have hClock : ts = encoder.runClock genesis bnum := by
      rw [hTs, runClock, ← List.take_append_drop idx encoder.encodedDeltas.runs, Run.steps_append,
        Run.clock_append_left _ hBnum.le, List.take_append_drop]
    refine ⟨bnum, idx, by rw [hEq, hClock], hLe, hBnum, ?_⟩
    rw [List.drop_eq_nil_iff]
    constructor
    · intro h
      omega
    · intro h
      rw [h] at hIdx
      cases hIdx
  · exact ⟨0, 0, by rw [hEq, runClock, Run.clock_zero], Nat.zero_le _, by simp, by simp⟩

/-- The start of a walk is at most `b` if no checkpoint lies after `b` up to the block walked to. -/
theorem checkpoint_le_iff (encoder : DeltaEncoder) (genesis : UInt64) (block b : Nat) :
    (encoder.checkpoint genesis block).1 ≤ b ↔ ∀ k ∈ encoder.index.keys, k ≤ block → k ≤ b := by
  rcases checkpoint_cases encoder genesis block with
    ⟨bnum, idx, ts, hEntry, hLe, hGreatest, hEq⟩ | ⟨hNone, hEq⟩
  · rw [hEq]
    constructor
    · exact fun h k hk hkBlock => (hGreatest k hk hkBlock).trans h
    · exact fun h => h bnum (List.mem_map_of_mem hEntry) hLe
  · rw [hEq]
    refine ⟨fun _ k hk hkBlock => ?_, fun _ => Nat.zero_le b⟩
    exact absurd hkBlock (Nat.not_le.mpr (hNone k hk))

/-! ### The lookups -/

/-- The clock past the runs before run `idx` is the clock of the runs from there. -/
theorem runClock_split {genesis : UInt64} {idx bnum block : Nat}
    (hBnum : bnum = (Run.steps (encoder.encodedDeltas.runs.take idx)).length) (h : bnum ≤ block) :
    Run.clock (encoder.runClock genesis bnum) (Run.steps (encoder.encodedDeltas.runs.drop idx))
      (block - bnum) = encoder.runClock genesis block := by
  have hRight := Run.clock_append_right genesis (Run.steps (encoder.encodedDeltas.runs.take idx))
    (Run.steps (encoder.encodedDeltas.runs.drop idx)) (block - bnum)
  rw [← Run.steps_append, List.take_append_drop, ← hBnum, Nat.add_sub_cancel' h] at hRight
  rw [runClock, runClock, hRight]
  congr 1
  conv_lhs => rw [← List.take_append_drop idx encoder.encodedDeltas.runs, Run.steps_append,
    Run.clock_append_left _ hBnum.le]

theorem encodedBlocks_split {idx bnum : Nat}
    (hBnum : bnum = (Run.steps (encoder.encodedDeltas.runs.take idx)).length) :
    bnum + (Run.steps (encoder.encodedDeltas.runs.drop idx)).length = encoder.encodedBlocks := by
  rw [encodedBlocks, hBnum, ← List.length_append, ← Run.steps_append, List.take_append_drop]

theorem getBlockTimestamp_eq (hSound : IndexSound encoder) {genesis : UInt64}
    (hGenesis : encoder.encodedDeltas.genesisTimestamp = some genesis) (block : Nat) :
    encoder.getBlockTimestamp block =
      if block ≤ encoder.encodedDeltas.maxBlock ∧ encoder.encodedDeltas.runs ≠ [] ∧
          block ≤ encoder.encodedBlocks then
        some (encoder.runClock genesis block)
      else none := by
  obtain ⟨bnum, idx, hEq, hLe, hBnum, hNil⟩ := checkpoint_spec hSound hGenesis block
  rw [getBlockTimestamp, hGenesis, Option.bind_some, hEq]
  by_cases hMax : encoder.encodedDeltas.maxBlock < block
  · rw [if_pos hMax, if_neg (by omega)]
  · rw [if_neg hMax]
    simp only
    rw [walk_eq hLe, encodedBlocks_split hBnum, runClock_split hBnum hLe]
    refine if_congr ?_ rfl rfl
    rw [Ne, hNil]
    exact ⟨fun h => ⟨by omega, h⟩, fun h => h.2⟩

theorem mem_destutter'_iff {l : List Nat} {a b : Nat} :
    b ∈ l.destutter' (· ≠ ·) a ↔ b = a ∨ b ∈ l := by
  induction l generalizing a with
  | nil => simp
  | cons c l ih =>
    rw [List.destutter'_cons]
    by_cases hSame : a = c
    · rw [if_neg (not_not.mpr hSame), ih, hSame]
      simp
    · rw [if_pos hSame, List.mem_cons, ih, List.mem_cons]

/-- Dropping repeats drops no block. -/
theorem mem_destutter_iff {l : List Nat} {b : Nat} : b ∈ l.destutter (· ≠ ·) ↔ b ∈ l := by
  cases l with
  | nil => rfl
  | cons a l => rw [List.destutter_cons', mem_destutter'_iff, List.mem_cons]

theorem mem_requested {blockNumbers : List Nat} {b : Nat} :
    b ∈ encoder.requested blockNumbers ↔ b ∈ blockNumbers ∧ b ≤ encoder.encodedDeltas.maxBlock := by
  rw [requested, mem_destutter_iff, (List.perm_insertionSort _ _).mem_iff, List.mem_filter]
  simp

theorem requested_sorted (encoder : DeltaEncoder) (blockNumbers : List Nat) :
    (encoder.requested blockNumbers).Pairwise (· ≤ ·) :=
  (List.pairwise_insertionSort _ _).sublist (List.destutter_sublist _ _)

/-- The last request is the greatest. -/
theorem le_of_getLast_requested {blockNumbers : List Nat} {startBlock b : Nat}
    (hStart : (encoder.requested blockNumbers).getLast? = some startBlock)
    (hb : b ∈ encoder.requested blockNumbers) : b ≤ startBlock := by
  obtain ⟨init, hInit⟩ := List.getLast?_eq_some_iff.mp hStart
  have hSorted := requested_sorted encoder blockNumbers
  rw [hInit] at hSorted hb
  rcases List.mem_append.mp hb with hBefore | hSame
  · exact (List.pairwise_append.mp hSorted).2.2 b hBefore startBlock List.mem_cons_self
  · exact (List.mem_singleton.mp hSame).le

/-- The batch lookup knows the blocks before the end of the runs that no checkpoint separates from
a greater block of the batch. -/
theorem get?_getBlockTimestamps (hSound : IndexSound encoder) {genesis : UInt64}
    (hGenesis : encoder.encodedDeltas.genesisTimestamp = some genesis) (blockNumbers : List Nat)
    (b : Nat) :
    (encoder.getBlockTimestamps blockNumbers).get? b =
      if b ∈ blockNumbers ∧ b ≤ encoder.encodedDeltas.maxBlock ∧ b < encoder.encodedBlocks ∧
          ∀ c ∈ blockNumbers, c ≤ encoder.encodedDeltas.maxBlock →
            ∀ k ∈ encoder.index.keys, k ≤ c → k ≤ b then
        some (encoder.runClock genesis b)
      else none := by
  cases hStart : (encoder.requested blockNumbers).getLast? with
  | none =>
    have hNone : (encoder.getBlockTimestamps blockNumbers).get? b = none := by
      rw [getBlockTimestamps, hGenesis]
      simp only
      rw [hStart]
      rfl
    rw [hNone, if_neg]
    rintro ⟨hMem, hMax, -⟩
    have hRequested := mem_requested.mpr ⟨hMem, hMax⟩
    rw [List.getLast?_eq_none_iff.mp hStart] at hRequested
    cases hRequested
  | some startBlock =>
    obtain ⟨bnum, idx, hEq, hLe, hBnum, -⟩ := checkpoint_spec hSound hGenesis startBlock
    have hWalk : (encoder.getBlockTimestamps blockNumbers).get? b =
        (walkRequests bnum (encoder.runClock genesis bnum) (encoder.encodedDeltas.runs.drop idx)
          (encoder.requested blockNumbers) ∅).get? b := by
      rw [getBlockTimestamps, hGenesis]
      simp only
      rw [hStart]
      simp only
      rw [hEq]
    rw [hWalk, walkRequests_eq _ (requested_sorted encoder blockNumbers), encodedBlocks_split hBnum]
    simp only [mem_requested]
    have hStartMem := mem_requested.mp (List.mem_of_getLast? hStart)
    have hFrom : bnum ≤ b ↔ ∀ c ∈ blockNumbers, c ≤ encoder.encodedDeltas.maxBlock →
        ∀ k ∈ encoder.index.keys, k ≤ c → k ≤ b := by
      have hIff := checkpoint_le_iff encoder genesis startBlock b
      rw [hEq] at hIff
      rw [hIff]
      constructor
      · intro h c hc hcMax k hk hkc
        exact h k hk (hkc.trans (le_of_getLast_requested hStart (mem_requested.mpr ⟨hc, hcMax⟩)))
      · exact fun h => h startBlock hStartMem.1 hStartMem.2
    by_cases hAll : (b ∈ blockNumbers ∧ b ≤ encoder.encodedDeltas.maxBlock) ∧ bnum ≤ b ∧
        b < encoder.encodedBlocks
    · obtain ⟨⟨hMem, hMax⟩, hAfter, hBefore⟩ := hAll
      rw [if_pos ⟨⟨hMem, hMax⟩, hAfter, hBefore⟩, if_pos ⟨hMem, hMax, hBefore, hFrom.mp hAfter⟩,
        runClock_split hBnum hAfter]
    · rw [if_neg hAll, if_neg]
      · rfl
      · exact fun h => hAll ⟨⟨h.1, h.2.1⟩, hFrom.mpr h.2.2.2, h.2.2.1⟩

/-- The batch lookup is the lookup of each block exactly if no block of the batch is the last one of
the runs, and no checkpoint separates a block that is known from a greater block of the batch. -/
theorem get_block_timestamps_iff (format : FileFormat) (hReached : Reached format encoder) (blockNumbers : List Nat) :
    (∀ b, (encoder.getBlockTimestamps blockNumbers).get? b =
      if b ∈ blockNumbers then encoder.getBlockTimestamp b else none) ↔
    ∀ b ∈ blockNumbers, encoder.encodedDeltas.genesisTimestamp ≠ none →
      encoder.encodedDeltas.runs ≠ [] → b ≤ encoder.encodedDeltas.maxBlock →
      b ≤ encoder.encodedBlocks →
      b ≠ encoder.encodedBlocks ∧
        ∀ c ∈ blockNumbers, c ≤ encoder.encodedDeltas.maxBlock →
          ∀ k ∈ encoder.index.keys, b < k → c < k := by
  have hSound := hReached.indexSound
  cases hGenesis : encoder.encodedDeltas.genesisTimestamp with
  | none =>
    have hSame : ∀ b, (encoder.getBlockTimestamps blockNumbers).get? b =
        if b ∈ blockNumbers then encoder.getBlockTimestamp b else none := by
      intro b
      rw [getBlockTimestamps, getBlockTimestamp, hGenesis, Option.bind_none, ite_self]
      rfl
    exact ⟨fun _ b _ hNone => absurd rfl hNone, fun _ => hSame⟩
  | some genesis =>
    have hBatch := get?_getBlockTimestamps hSound hGenesis blockNumbers
    have hOne := getBlockTimestamp_eq hSound hGenesis
    constructor
    · intro h b hMem _ hRuns hMax hCovered
      have hb := h b
      have hKnown : b ≤ encoder.encodedDeltas.maxBlock ∧ encoder.encodedDeltas.runs ≠ [] ∧
          b ≤ encoder.encodedBlocks := ⟨hMax, hRuns, hCovered⟩
      rw [hBatch, if_pos hMem, hOne, if_pos hKnown] at hb
      split at hb
      · rename_i hKnown
        obtain ⟨-, -, hBefore, hStart⟩ := hKnown
        refine ⟨by omega, fun c hc hcMax k hk hbk => ?_⟩
        by_contra hkc
        exact absurd (hStart c hc hcMax k hk (by omega)) (by omega)
      · cases hb
    · intro h b
      rw [hBatch]
      by_cases hMem : b ∈ blockNumbers
      · rw [if_pos hMem, hOne]
        by_cases hKnown : b ≤ encoder.encodedDeltas.maxBlock ∧ encoder.encodedDeltas.runs ≠ [] ∧
            b ≤ encoder.encodedBlocks
        · obtain ⟨hLast, hApart⟩ := h b hMem (by simp) hKnown.2.1 hKnown.1 hKnown.2.2
          rw [if_pos hKnown, if_pos]
          obtain ⟨hMax, -, hCovered⟩ := hKnown
          refine ⟨hMem, hMax, by omega, fun c hc hcMax k hk hkc => ?_⟩
          by_contra hbk
          exact absurd (hApart c hc hcMax k hk (by omega)) (by omega)
        · rw [if_neg hKnown, if_neg]
          rintro ⟨-, hMax, hBefore, -⟩
          refine hKnown ⟨hMax, ?_, hBefore.le⟩
          intro hRuns
          rw [encodedBlocks, hRuns] at hBefore
          exact absurd hBefore (Nat.not_lt_zero b)
      · rw [if_neg hMem, if_neg fun hAll => hMem hAll.1]

/-- A file that holds the deltas as they are. -/
def plainFormat : FileFormat := ⟨EncodedDeltas, id, some⟩

/-- Polygon from its genesis, with blocks `1` to `3`. -/
def threeBlocks : DeltaEncoder :=
  ((new 137).withGenesis.encodeDeltas [(1, 10), (2, 20), (3, 31)]).1

theorem inner_blocks_agree : (threeBlocks.getBlockTimestamps [2, 1, 2]).get? = fun b =>
    if b ∈ [2, 1, 2] then threeBlocks.getBlockTimestamp b else none :=
  funext <| (get_block_timestamps_iff plainFormat (.encode (.genesis (.new 137)) _) [2, 1, 2]).mpr
    (by decide)

/-- The last block encoded is known on its own and missing from a batch. -/
theorem last_block_missing : ¬ ∀ b, (threeBlocks.getBlockTimestamps [3]).get? b =
    if b ∈ [3] then threeBlocks.getBlockTimestamp b else none := by
  intro h
  have hLast := h 3
  revert hLast
  decide

end Rindexer.Blockclock.DeltaEncoder
