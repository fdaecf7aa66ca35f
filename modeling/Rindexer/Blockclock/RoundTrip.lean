import Mathlib.Data.List.Chain
import Rindexer.Blockclock.Pointwise

/-! The timestamps that an encoder gives back.  The batches of a sequence of blocks leave the runs of
its saturated deltas, whatever the split; the clock over these is the sequence itself exactly if it
never decreases.  A batch is refused in one case only. -/

namespace Rindexer.Blockclock.DeltaEncoder

open Rindexer.Lib
open scoped UInt64.CommRing

variable {encoder : DeltaEncoder} {genesis : UInt64} {ts part : List UInt64}
  {batch : List (Nat × UInt64)} {batches : List (List (Nat × UInt64))}

/-- The blocks from `first` on, with these timestamps. -/
def blocksFrom : Nat → List UInt64 → List (Nat × UInt64)
  | _, [] => []
  | first, t :: ts => (first, t) :: blocksFrom (first + 1) ts

/-- The batches are the blocks from `first` on, split in any way and each batch in any order. -/
inductive Splits : Nat → List UInt64 → List (List (Nat × UInt64)) → Prop
  | nil (first : Nat) : Splits first [] []
  | cons {first : Nat} {part ts : List UInt64} {batch : List (Nat × UInt64)}
      {batches : List (List (Nat × UInt64))} (hPart : batch.Perm (blocksFrom first part))
      (hRest : Splits (first + part.length) ts batches) :
      Splits first (part ++ ts) (batch :: batches)

/-- The encoder of a network whose genesis timestamp is set, before any batch. -/
def start (network : Nat) (genesis : UInt64) : DeltaEncoder :=
  ⟨network, { EncodedDeltas.new network with genesisTimestamp := some genesis }, ∅⟩

/-- The batches one after another, up to one that is refused. -/
def encodeAll (encoder : DeltaEncoder) :
    List (List (Nat × UInt64)) → DeltaEncoder × Except EncodeError Unit
  | [] => (encoder, .ok ())
  | batch :: batches =>
    match encoder.encodeDeltas batch with
    | (encoder, .ok ()) => encodeAll encoder batches
    | (encoder, .error error) => (encoder, .error error)

/-- Each block has its timestamp and no other block has one. -/
def Gives (encoder : DeltaEncoder) (genesis : UInt64) (ts : List UInt64) : Prop :=
  ∀ block, encoder.getBlockTimestamp block = (genesis :: ts)[block]?

/-- A batch is refused, or the timestamps come back from the encoder and from its file. -/
def KeepsTimestamps (format : FileFormat) (network interval : Nat) (genesis : UInt64)
    (ts : List UInt64) (batches : List (List (Nat × UInt64))) : Prop :=
  match encodeAll (start network genesis) batches with
  | (_, .error _) => True
  | (encoder, .ok ()) =>
    Gives encoder genesis ts ∧
      ∃ loaded, fromFileInner format network interval (serializeToFile format encoder) = some loaded ∧
        Gives loaded genesis ts

/-- The blocks of the batch are those after block `maxBlock` up to some last one. -/
def Continues (maxBlock : Nat) (batch : List (Nat × UInt64)) : Prop :=
  ∃ last, ∀ block, block ∈ batch.map Prod.fst ↔ maxBlock < block ∧ block ≤ last

/-- A batch that does not continue is refused, and the encoder is what it was. -/
def RefusesGap (encoder : DeltaEncoder) (batch : List (Nat × UInt64)) : Prop :=
  ¬ Continues encoder.encodedDeltas.maxBlock batch →
    ∃ error, encoder.encodeDeltas batch = (encoder, .error error)

/-! ### Deltas and the clock -/

/-- The deltas that are encoded for timestamps that follow `previous`. -/
def deltas : UInt64 → List UInt64 → List UInt64
  | _, [] => []
  | previous, t :: ts => saturatingSub t previous :: deltas t ts

theorem length_deltas (previous : UInt64) (ts : List UInt64) :
    (deltas previous ts).length = ts.length := by
  induction ts generalizing previous with
  | nil => rfl
  | cons t ts ih => simp [deltas, ih]

theorem deltas_append (previous : UInt64) (ts part : List UInt64) :
    deltas previous (ts ++ part) =
      deltas previous ts ++ deltas (ts.getLast?.getD previous) part := by
  induction ts generalizing previous with
  | nil => rfl
  | cons t ts ih =>
    simp only [List.cons_append, deltas]
    rw [ih, List.getLast?_cons]
    rfl

/-- The clock over the deltas shows the timestamps exactly if none is before the one in front. -/
theorem clock_deltas_iff (genesis : UInt64) (ts : List UInt64) :
    (∀ i, i ≤ ts.length → some (Run.clock genesis (deltas genesis ts) i) = (genesis :: ts)[i]?) ↔
      (genesis :: ts).IsChain (· ≤ ·) := by
  induction ts generalizing genesis with
  | nil => simp
  | cons t ts ih =>
    have hStep : ∀ i, Run.clock genesis (deltas genesis (t :: ts)) (i + 1) =
        Run.clock (genesis + saturatingSub t genesis) (deltas t ts) i := by
      intro i
      simp [Run.clock, deltas, add_assoc]
    rw [List.isChain_cons_cons]
    by_cases hLe : genesis ≤ t
    · have hNext : genesis + saturatingSub t genesis = t := by
        rw [saturatingSub, if_pos hLe, add_sub_cancel]
      rw [hNext] at hStep
      rw [← ih]
      constructor
      · intro h
        refine ⟨hLe, fun i hi => ?_⟩
        rw [← hStep]
        exact h (i + 1) (by simpa using hi)
      · rintro ⟨-, h⟩ i hi
        cases i with
        | zero => simp
        | succ i =>
          rw [hStep]
          exact h i (by simpa using hi)
    · -- the delta is cut to zero, so the block gets the timestamp in front of it
      constructor
      · intro h
        have hFirst := h 1 (by simp)
        rw [hStep 0, Run.clock_zero, saturatingSub, if_neg hLe, add_zero] at hFirst
        have hSame : genesis = t := by simpa using hFirst
        exact absurd (hSame ▸ UInt64.le_refl genesis) hLe
      · exact fun h => absurd h.1 hLe

/-! ### Batches -/

theorem lt_of_mem_blocksFrom {first : Nat} {block : Nat × UInt64}
    (h : block ∈ blocksFrom first ts) : first ≤ block.1 := by
  induction ts generalizing first with
  | nil => cases h
  | cons t ts ih =>
    rcases List.mem_cons.mp h with rfl | h
    · exact Nat.le_refl _
    · exact (Nat.le_succ first).trans (ih h)

theorem blocksFrom_sorted (first : Nat) (ts : List UInt64) :
    (blocksFrom first ts).Pairwise fun a b => a.1 < b.1 := by
  induction ts generalizing first with
  | nil => exact List.Pairwise.nil
  | cons t ts ih => exact List.pairwise_cons.mpr ⟨fun _ h => lt_of_mem_blocksFrom h, ih (first + 1)⟩

theorem getLast?_blocksFrom (first : Nat) (ts : List UInt64) :
    (blocksFrom first ts).getLast? = ts.getLast?.map fun t => (first + ts.length - 1, t) := by
  induction ts generalizing first with
  | nil => rfl
  | cons t ts ih =>
    rw [blocksFrom, List.getLast?_cons, ih, List.getLast?_cons]
    cases hLast : ts.getLast? with
    | none =>
      rw [List.getLast?_eq_none_iff] at hLast
      simp [hLast]
    | some last => simp [Nat.add_comm]

/-- After a timestamp, each block adds its delta to the runs. -/
theorem foldl_encodeBlock (first : Nat) (previous : UInt64) (ts : List UInt64)
    (runs : List DeltaRunLen) :
    Run.steps ((blocksFrom first ts).foldl encodeBlock (runs, some previous)).1 =
      Run.steps runs ++ deltas previous ts := by
  induction ts generalizing first previous runs with
  | nil => simp [blocksFrom, deltas]
  | cons t ts ih =>
    rw [blocksFrom, List.foldl_cons, encodeBlock, ih, Run.steps_push, deltas]
    simp

/-- The encoder holds exactly these timestamps. -/
structure Encoded (encoder : DeltaEncoder) (genesis : UInt64) (ts : List UInt64) : Prop where
  genesisTimestamp : encoder.encodedDeltas.genesisTimestamp = some genesis
  maxBlock : encoder.encodedDeltas.maxBlock = ts.length
  maxBlockTimestamp : encoder.encodedDeltas.maxBlockTimestamp = ts.getLast?
  steps : Run.steps encoder.encodedDeltas.runs = deltas genesis ts
  runs : encoder.encodedDeltas.runs = [] ↔ ts = []
  sound : IndexSound encoder

theorem encoded_start (network : Nat) (genesis : UInt64) : Encoded (start network genesis) genesis [] :=
  ⟨rfl, rfl, rfl, rfl, by simp [start, EncodedDeltas.new], fun _ _ _ hMem => nomatch hMem⟩

theorem Encoded.previous (h : Encoded encoder genesis ts) :
    (if encoder.encodedDeltas.maxBlock = 0 then encoder.encodedDeltas.genesisTimestamp
      else encoder.encodedDeltas.maxBlockTimestamp) = some (ts.getLast?.getD genesis) := by
  rw [h.maxBlock, h.maxBlockTimestamp, h.genesisTimestamp]
  rcases List.eq_nil_or_concat ts with rfl | ⟨init, last, rfl⟩
  · rfl
  · simp

/-- Only a first batch with the first block of the chain is refused. -/
theorem encodeDeltas_refused_iff (encoder : DeltaEncoder) (batch : List (Nat × UInt64)) :
    (∃ error, encoder.encodeDeltas batch = (encoder, .error error)) ↔
      encoder.encodedDeltas.maxBlock = 0 ∧ ∃ block ∈ batch, block.1 = 0 := by
  have hPerm := sortByKey_perm Prod.fst batch
  have hSorted := sortByKey_sorted Prod.fst batch
  cases hBlocks : sortByKey Prod.fst batch with
  | nil =>
    rw [hBlocks] at hPerm
    have hEq : encoder.encodeDeltas batch = (encoder, .ok ()) := by simp [encodeDeltas, hBlocks]
    rw [hEq, hPerm.symm.eq_nil]
    simp
  | cons first rest =>
    obtain ⟨last, hLast⟩ : ∃ last, (first :: rest).getLast? = some last :=
      ⟨_, List.getLast?_eq_some_getLast (List.cons_ne_nil first rest)⟩
    rw [hBlocks] at hPerm hSorted
    -- the sort puts the least block first
    have hLeast : (∃ block ∈ batch, block.1 = 0) ↔ first.1 = 0 := by
      constructor
      · rintro ⟨block, hMem, hZero⟩
        rcases List.mem_cons.mp (hPerm.mem_iff.mpr hMem) with rfl | hRest
        · exact hZero
        · have := (List.pairwise_cons.mp hSorted).1 block hRest
          omega
      · exact fun h => ⟨first, hPerm.mem_iff.mp List.mem_cons_self, h⟩
    rw [hLeast]
    simp only [encodeDeltas, hBlocks, List.head?_cons, hLast]
    by_cases hRefused : first.1 ≠ encoder.encodedDeltas.maxBlock + 1 ∧
        encoder.encodedDeltas.maxBlock = 0 ∧ first.1 < 2
    · rw [if_pos hRefused]
      exact iff_of_true ⟨_, rfl⟩ ⟨hRefused.2.1, by omega⟩
    · rw [if_neg hRefused]
      refine iff_of_false ?_ (by omega)
      rintro ⟨error, hEq⟩
      cases congrArg Prod.snd hEq

/-- A batch of the blocks that come next is encoded. -/
theorem Encoded.encodeBatch (h : Encoded encoder genesis ts)
    (hPart : batch.Perm (blocksFrom (1 + ts.length) part)) :
    (encoder.encodeDeltas batch).2 = .ok () ∧
      Encoded (encoder.encodeDeltas batch).1 genesis (ts ++ part) := by
  have hSorted := sortByKey_eq hPart (blocksFrom_sorted _ _)
  rcases encodeDeltas_cases encoder batch with
    ⟨error, hEq⟩ | ⟨rfl, hEq⟩ | ⟨firstBlock, lastBlock, hFirst, hLast, -, hEq⟩
  · obtain ⟨-, block, hMem, hZero⟩ := (encodeDeltas_refused_iff encoder batch).mp ⟨error, hEq⟩
    have := lt_of_mem_blocksFrom (hPart.mem_iff.mp hMem)
    omega
  · cases part with
    | nil =>
      rw [hEq, List.append_nil]
      exact ⟨rfl, h⟩
    | cons t part => exact absurd hPart.symm.eq_nil (by simp [blocksFrom])
  · rw [hSorted, h.previous] at hEq
    rw [hSorted, getLast?_blocksFrom] at hLast
    obtain ⟨last, hLastPart, rfl⟩ := Option.map_eq_some_iff.mp hLast
    have hSteps : Run.steps ((blocksFrom (1 + ts.length) part).foldl encodeBlock
        (encoder.encodedDeltas.runs, some (ts.getLast?.getD genesis))).1 =
        deltas genesis (ts ++ part) := by
      rw [foldl_encodeBlock, h.steps, deltas_append]
    have hNotNil : ts ++ part ≠ [] := by
      rintro hNil
      rw [(List.append_eq_nil_iff.mp hNil).2] at hLastPart
      cases hLastPart
    have hSound := h.sound.encodeDeltas batch
    rw [hEq] at hSound ⊢
    refine ⟨rfl, h.genesisTimestamp, ?_, ?_, hSteps, ?_, hSound⟩
    · simp
      omega
    · simp [List.getLast?_append, hLastPart]
    · refine iff_of_false (fun hNil => hNotNil ?_) hNotNil
      simp only at hNil
      rw [hNil] at hSteps
      have hLength := congrArg List.length hSteps
      rw [length_deltas] at hLength
      exact List.length_eq_zero_iff.mp hLength.symm

theorem Encoded.encodeAll {first : Nat} (h : Encoded encoder genesis ts)
    (hSplit : Splits first part batches) (hFirst : first = 1 + ts.length) :
    ∃ encoder', DeltaEncoder.encodeAll encoder batches = (encoder', .ok ()) ∧ Encoded encoder' genesis (ts ++ part) := by
  induction hSplit generalizing encoder ts with
  | nil first => exact ⟨encoder, rfl, by rwa [List.append_nil]⟩
  | @cons first part rest batch batches hPart _ ih =>
    subst hFirst
    obtain ⟨hOk, hNext⟩ := h.encodeBatch hPart
    obtain ⟨encoder', hAll, hDone⟩ := ih hNext (by simp; omega)
    refine ⟨encoder', ?_, by rwa [← List.append_assoc]⟩
    rw [DeltaEncoder.encodeAll]
    split
    · rename_i next hEq
      rw [hEq] at hAll
      exact hAll
    · rename_i next error hEq
      rw [hEq] at hOk
      cases hOk

/-! ### What comes back -/

theorem gives_iff (h : Encoded encoder genesis ts) :
    Gives encoder genesis ts ↔ ts ≠ [] ∧ (genesis :: ts).IsChain (· ≤ ·) := by
  have hBlocks : encoder.encodedBlocks = ts.length := by
    rw [encodedBlocks, h.steps, length_deltas]
  have hLookup : ∀ block, encoder.getBlockTimestamp block =
      if block ≤ ts.length ∧ ts ≠ [] then some (Run.clock genesis (deltas genesis ts) block)
      else none := by
    intro block
    rw [getBlockTimestamp_eq h.sound h.genesisTimestamp, hBlocks, h.maxBlock, runClock, h.steps]
    refine if_congr ?_ rfl rfl
    rw [Ne, h.runs]
    exact ⟨fun hAll => ⟨hAll.1, hAll.2.1⟩, fun hAll => ⟨hAll.1, hAll.2, hAll.1⟩⟩
  rw [← clock_deltas_iff, Gives]
  constructor
  · intro hGives
    have hSome : ts ≠ [] := by
      rintro rfl
      have hFirst := hGives 0
      rw [hLookup] at hFirst
      simp at hFirst
    refine ⟨hSome, fun i hi => ?_⟩
    have hIndex := hGives i
    rwa [hLookup, if_pos ⟨hi, hSome⟩] at hIndex
  · rintro ⟨hSome, hClock⟩ block
    rw [hLookup]
    by_cases hi : block ≤ ts.length
    · rw [if_pos ⟨hi, hSome⟩, hClock block hi]
    · rw [if_neg fun hAll => hi hAll.1, List.getElem?_eq_none (by simp; omega)]

/-- Only an interval of zero keeps an index from being built, and only over runs. -/
theorem indexRuns_isSome_iff (interval i bnum : Nat) (aggTs : UInt64) (runs : List DeltaRunLen)
    (index : OrderedMap Nat (Nat × UInt64)) :
    (∃ index', indexRuns interval i bnum aggTs runs index = some index') ↔
      runs = [] ∨ interval ≠ 0 := by
  induction runs generalizing i bnum aggTs index with
  | nil => simp [indexRuns]
  | cons run runs ih =>
    rw [indexRuns]
    by_cases hZero : interval = 0
    · simp [hZero]
    · rw [if_neg hZero, ih]
      simp [hZero]

theorem fromFileInner_iff {format : FileFormat} {network interval : Nat}
    (hFormat : ∀ deltas, format.decode (format.encode deltas) = some deltas)
    (h : Encoded encoder genesis ts) :
    (∃ loaded, fromFileInner format network interval (serializeToFile format encoder) = some loaded ∧
        Gives loaded genesis ts) ↔
      (ts = [] ∨ interval ≠ 0) ∧ ts ≠ [] ∧ (genesis :: ts).IsChain (· ≤ ·) := by
  have hLoad : fromFileInner format network interval (serializeToFile format encoder) =
      (indexRuns interval 0 0 genesis encoder.encodedDeltas.runs ∅).map
        fun index => ⟨network, encoder.encodedDeltas, index⟩ := by
    rw [fromFileInner, serializeToFile, hFormat, Option.bind_some, buildIndex, h.genesisTimestamp]
  have hBuilt : ∀ loaded,
      fromFileInner format network interval (serializeToFile format encoder) = some loaded →
        (Gives loaded genesis ts ↔ ts ≠ [] ∧ (genesis :: ts).IsChain (· ≤ ·)) := by
    intro loaded hLoaded
    have hSound : IndexSound loaded := Reached.indexSound (.load hLoaded)
    rw [hLoad] at hLoaded
    obtain ⟨index, -, rfl⟩ := Option.map_eq_some_iff.mp hLoaded
    exact gives_iff ⟨h.genesisTimestamp, h.maxBlock, h.maxBlockTimestamp, h.steps, h.runs, hSound⟩
  rw [← h.runs, ← indexRuns_isSome_iff interval 0 0 genesis _ ∅]
  constructor
  · rintro ⟨loaded, hLoaded, hGives⟩
    have hChain := (hBuilt loaded hLoaded).mp hGives
    rw [hLoad] at hLoaded
    obtain ⟨index, hIndex, -⟩ := Option.map_eq_some_iff.mp hLoaded
    exact ⟨⟨index, hIndex⟩, hChain⟩
  · rintro ⟨⟨index, hIndex⟩, hSome, hChain⟩
    refine ⟨⟨network, encoder.encodedDeltas, index⟩, by rw [hLoad, hIndex]; rfl, ?_⟩
    exact (hBuilt _ (by rw [hLoad, hIndex]; rfl)).mpr ⟨hSome, hChain⟩

/-- The timestamps of a sequence of blocks come back exactly if there is a block after the first one
and no timestamp is before the one in front of it; a batch that leaves a gap is refused exactly if it
holds the first block of the chain and nothing is encoded yet. -/
theorem block_clock_round_trip_iff (format : FileFormat)
    (hFormat : ∀ deltas, format.decode (format.encode deltas) = some deltas)
    (network interval : Nat) (genesis : UInt64) {ts : List UInt64}
    {batches : List (List (Nat × UInt64))} (hSplit : Splits 1 ts batches) (encoder : DeltaEncoder)
    (batch : List (Nat × UInt64)) :
    (KeepsTimestamps format network interval genesis ts batches ↔
      ts ≠ [] ∧ (genesis :: ts).IsChain (· ≤ ·) ∧ interval ≠ 0) ∧
    (RefusesGap encoder batch ↔ Continues encoder.encodedDeltas.maxBlock batch ∨
      encoder.encodedDeltas.maxBlock = 0 ∧ ∃ block ∈ batch, block.1 = 0) := by
  constructor
  · obtain ⟨encoded, hAll, hEncoded⟩ := (encoded_start network genesis).encodeAll hSplit rfl
    rw [List.nil_append] at hEncoded
    rw [KeepsTimestamps, hAll]
    simp only
    rw [gives_iff hEncoded, fromFileInner_iff hFormat hEncoded]
    constructor
    · rintro ⟨⟨hSome, hChain⟩, hInterval, -, -⟩
      exact ⟨hSome, hChain, hInterval.resolve_left hSome⟩
    · rintro ⟨hSome, hChain, hInterval⟩
      exact ⟨⟨hSome, hChain⟩, .inr hInterval, hSome, hChain⟩
  · rw [RefusesGap, encodeDeltas_refused_iff]
    exact or_iff_not_imp_left.symm

theorem five_blocks_come_back : KeepsTimestamps plainFormat 99 2 0 [10, 20, 30, 31, 32]
    [[(2, 20), (1, 10)], [], [(3, 30), (4, 31), (5, 32)]] := by
  refine (block_clock_round_trip_iff plainFormat (fun _ => rfl) 99 2 0
    (@Splits.cons _ [10, 20] [30, 31, 32] _ _ ?_ (@Splits.cons _ [] _ _ _ ?_
      (@Splits.cons _ [30, 31, 32] [] _ _ ?_ (.nil _)))) (new 99) []).1.mpr ?_
  · exact List.Perm.swap _ _ _
  · exact List.Perm.refl _
  · exact List.Perm.refl _
  · decide

/-- Block `2` was mined before block `1` and gets its timestamp; and a batch far past the first block
is taken. -/
theorem earlier_block_lost : ¬ KeepsTimestamps plainFormat 10 2 0 [10, 5] [[(1, 10), (2, 5)]] ∧
    ¬ RefusesGap (start 10 0) [(100, 1000), (104, 1051)] := by
  constructor
  · intro h
    have hSecond := h.1 2
    revert hSecond
    decide
  · intro h
    have hGap : ¬ Continues 0 [(100, (1000 : UInt64)), (104, 1051)] := by
      rintro ⟨last, hLast⟩
      have hFirst := (hLast 1).mpr ⟨by omega, ?_⟩
      · simp at hFirst
      · have := (hLast 100).mp (by simp)
        omega
    obtain ⟨error, hEq⟩ := h hGap
    cases congrArg Prod.snd hEq

end Rindexer.Blockclock.DeltaEncoder
