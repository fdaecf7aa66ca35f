import Rindexer.Blockclock.Encoder

/-! What the two lookups return.  A checkpoint of the index stands at the start of a run and holds the
value of the clock there, in every state the encoder reaches; so each lookup reads the clock of the
deltas, one block at a time or for sorted requests in one walk. -/

namespace Rindexer.Blockclock.DeltaEncoder

open Rindexer.Lib
open scoped UInt64.CommRing

variable {encoder : DeltaEncoder} {format : FileFormat}

theorem nsmul_eq (n : Nat) (delta : UInt64) : n • delta = delta * UInt64.ofNat n := by
  rw [nsmul_eq_mul, mul_comm]
  rfl

/-! ### The walks -/

/-- The walk ends at the clock's value, unless the block is past all runs. -/
theorem walk_eq {blockNumber bnum : Nat} (h : bnum ≤ blockNumber) (aggTs : UInt64)
    (runs : List DeltaRunLen) :
    walk blockNumber bnum aggTs runs =
      if runs ≠ [] ∧ blockNumber ≤ bnum + (Run.steps runs).length then
        some (Run.clock aggTs (Run.steps runs) (blockNumber - bnum))
      else none := by
  induction runs generalizing bnum aggTs with
  | nil => simp [walk]
  | cons run runs ih =>
    simp only [walk]
    by_cases hRun : blockNumber ≤ bnum + run.len
    · have hClock := Run.clock_run_left aggTs run runs
        (show blockNumber - bnum ≤ run.len by omega)
      rw [if_pos hRun, if_pos ⟨by simp, by simp; omega⟩, hClock, nsmul_eq]
    · have hClock := Run.clock_run_right aggTs run runs (blockNumber - (bnum + run.len))
      rw [show run.len + (blockNumber - (bnum + run.len)) = blockNumber - bnum by omega] at hClock
      rw [if_neg hRun, ih (by omega), hClock, nsmul_eq]
      by_cases hRuns : runs = []
      · subst hRuns
        rw [if_neg (by simp), if_neg (by simp; omega)]
      · have hSame : (runs ≠ [] ∧ blockNumber ≤ bnum + run.len + (Run.steps runs).length) ↔
            (run :: runs ≠ [] ∧ blockNumber ≤ bnum + (Run.steps (run :: runs)).length) := by
          simp [hRuns, Nat.add_assoc]
        rw [if_congr hSame rfl rfl]

/-- One run answers the requests before its end and leaves the others. -/
theorem assignRun_eq {bnum stop : Nat} (aggTs delta : UInt64) (hRun : bnum ≤ stop) {reqs : List Nat}
    (hSorted : reqs.Pairwise (· ≤ ·)) (output : OrderedMap Nat UInt64) :
    (assignRun bnum stop aggTs delta reqs output).1 = reqs.filter (fun blk => stop ≤ blk) ∧
    ∀ blk, (assignRun bnum stop aggTs delta reqs output).2.get? blk =
      if blk ∈ reqs ∧ bnum ≤ blk ∧ blk < stop then
        some (aggTs + delta * UInt64.ofNat (blk - bnum))
      else output.get? blk := by
  induction reqs generalizing output with
  | nil => simp [assignRun]
  | cons first rest ih =>
    obtain ⟨hFirst, hRest⟩ := List.pairwise_cons.mp hSorted
    simp only [assignRun]
    by_cases hBefore : first < bnum
    · obtain ⟨hLeft, hOut⟩ := ih hRest output
      rw [if_pos hBefore]
      refine ⟨?_, fun blk => ?_⟩
      · rw [hLeft, List.filter_cons_of_neg (by simpa using by omega)]
      · rw [hOut]
        refine if_congr ?_ rfl rfl
        simp only [List.mem_cons]
        constructor
        · exact fun h => ⟨.inr h.1, h.2⟩
        · rintro ⟨rfl | h, hRange⟩
          · omega
          · exact ⟨h, hRange⟩
    · rw [if_neg hBefore]
      by_cases hStop : first < stop
      · obtain ⟨hLeft, hOut⟩ := ih hRest (output.insert first (aggTs + delta * UInt64.ofNat (first - bnum)))
        rw [if_pos hStop]
        refine ⟨?_, fun blk => ?_⟩
        · rw [hLeft, List.filter_cons_of_neg (by simpa using by omega)]
        · rw [hOut, OrderedMap.get?_insert]
          by_cases hSame : blk = first
          · subst hSame
            have hHere : blk ∈ blk :: rest ∧ bnum ≤ blk ∧ blk < stop :=
              ⟨List.mem_cons_self, by omega, hStop⟩
            rw [if_pos hHere, if_pos rfl, ite_self]
          · rw [if_neg hSame]
            exact if_congr (by simp [hSame]) rfl rfl
      · rw [if_neg hStop]
        have hAll : ∀ blk ∈ first :: rest, stop ≤ blk := by
          intro blk hMem
          rcases List.mem_cons.mp hMem with rfl | hMem
          · omega
          · have := hFirst blk hMem
            omega
        refine ⟨?_, fun blk => ?_⟩
        · rw [List.filter_eq_self.mpr fun blk hMem => by simpa using hAll blk hMem]
        · rw [if_neg]
          rintro ⟨hMem, -, hLt⟩
          have := hAll blk hMem
          omega

/-- The walk answers the requests from where it starts to the end of the last run. -/
theorem walkRequests_eq {bnum : Nat} {aggTs : UInt64} (runs : List DeltaRunLen) {reqs : List Nat}
    (hSorted : reqs.Pairwise (· ≤ ·)) (output : OrderedMap Nat UInt64) (blk : Nat) :
    (walkRequests bnum aggTs runs reqs output).get? blk =
      if blk ∈ reqs ∧ bnum ≤ blk ∧ blk < bnum + (Run.steps runs).length then
        some (Run.clock aggTs (Run.steps runs) (blk - bnum))
      else output.get? blk := by
  induction runs generalizing bnum aggTs reqs output with
  | nil =>
    rw [walkRequests, if_neg]
    rintro ⟨-, hStart, hEnd⟩
    simp at hEnd
    omega
  | cons run runs ih =>
    obtain ⟨hLeft, hOut⟩ := assignRun_eq aggTs run.delta (Nat.le_add_right bnum run.len) hSorted output
    simp only [walkRequests]
    rw [hLeft, ih (hSorted.filter _), hOut, Run.steps_cons, List.length_append, List.length_replicate]
    by_cases hMem : blk ∈ reqs
    · by_cases hRun : blk < bnum + run.len
      · rw [if_neg (by omega)]
        by_cases hStart : bnum ≤ blk
        · have hClock := Run.clock_run_left aggTs run runs
            (show blk - bnum ≤ run.len by omega)
          rw [if_pos ⟨hMem, hStart, hRun⟩, if_pos ⟨hMem, hStart, by omega⟩, ← Run.steps_cons, hClock,
            nsmul_eq]
        · rw [if_neg (by omega), if_neg (by omega)]
      · have hClock := Run.clock_run_right aggTs run runs (blk - (bnum + run.len))
        rw [show run.len + (blk - (bnum + run.len)) = blk - bnum by omega] at hClock
        rw [if_neg (show ¬ (blk ∈ reqs ∧ bnum ≤ blk ∧ blk < bnum + run.len) by omega), ← Run.steps_cons,
          hClock, nsmul_eq]
        refine if_congr ?_ rfl rfl
        simp only [List.mem_filter, decide_eq_true_iff, hMem, true_and]
        omega
    · rw [if_neg (by simp [hMem]), if_neg (by simp [hMem]), if_neg (by simp [hMem])]

/-! ### The index -/

/-- Each checkpoint stands at the start of a run with the timestamp of that block. -/
def IndexSound (encoder : DeltaEncoder) : Prop :=
  ∀ block i ts, (block, (i, ts)) ∈ encoder.index.entries →
    ∃ genesis, encoder.encodedDeltas.genesisTimestamp = some genesis ∧
      i < encoder.encodedDeltas.runs.length ∧
      block = (Run.steps (encoder.encodedDeltas.runs.take i)).length ∧
      ts = Run.clock genesis (Run.steps (encoder.encodedDeltas.runs.take i)) block

/-- The states of the encoder: a new one or one loaded from any file with any interval, given its
genesis and any batches after that. -/
inductive Reached (format : FileFormat) : DeltaEncoder → Prop
  | new (network : Nat) : Reached format (new network)
  | load {network interval : Nat} {file : format.File} {encoder : DeltaEncoder}
      (h : fromFileInner format network interval file = some encoder) : Reached format encoder
  | genesis {encoder : DeltaEncoder} (h : Reached format encoder) : Reached format encoder.withGenesis
  | encode {encoder : DeltaEncoder} (h : Reached format encoder) (batch : List (Nat × UInt64)) :
      Reached format (encoder.encodeDeltas batch).1

theorem indexSound_new (network : Nat) : IndexSound (new network) := by
  intro block i ts hMem
  exact absurd hMem (by simp [new, EmptyCollection.emptyCollection, OrderedMap.empty])

/-- Runs that go on from others leave the checkpoints where they are. -/
theorem IndexSound.of_take {encoder' : DeltaEncoder} (h : IndexSound encoder)
    (hIndex : encoder'.index = encoder.index)
    (hGenesis : encoder'.encodedDeltas.genesisTimestamp = encoder.encodedDeltas.genesisTimestamp)
    (hLength : encoder.encodedDeltas.runs.length ≤ encoder'.encodedDeltas.runs.length)
    (hTake : ∀ i < encoder.encodedDeltas.runs.length,
      encoder'.encodedDeltas.runs.take i = encoder.encodedDeltas.runs.take i) :
    IndexSound encoder' := by
  intro block i ts hMem
  rw [hIndex] at hMem
  obtain ⟨genesis, hg, hi, hBlock, hTs⟩ := h block i ts hMem
  refine ⟨genesis, hGenesis.trans hg, by omega, ?_, ?_⟩
  · rw [hTake i hi]
    exact hBlock
  · rw [hTake i hi]
    exact hTs

theorem IndexSound.withGenesis (h : IndexSound encoder) : IndexSound encoder.withGenesis := by
  intro block i ts hMem
  cases hGenesis : encoder.encodedDeltas.genesisTimestamp with
  | some genesis =>
    rw [DeltaEncoder.withGenesis, hGenesis] at hMem ⊢
    exact h block i ts hMem
  | none =>
    -- without a genesis there is no checkpoint
    rw [DeltaEncoder.withGenesis, hGenesis] at hMem
    obtain ⟨genesis, hSome, -⟩ := h block i ts hMem
    rw [hGenesis] at hSome
    cases hSome

/-- A block adds at most a step. -/
theorem encodeBlock_take (state : List DeltaRunLen × Option UInt64) (block : Nat × UInt64) :
    state.1.length ≤ (encodeBlock state block).1.length ∧
      ∀ i < state.1.length, (encodeBlock state block).1.take i = state.1.take i := by
  obtain ⟨runs, previous⟩ := state
  cases previous with
  | none => exact ⟨Nat.le_refl _, fun _ _ => rfl⟩
  | some prevTs => exact ⟨Run.length_le_length_push _ _, fun i hi => Run.take_push _ hi⟩

theorem foldl_encodeBlock_take (blocks : List (Nat × UInt64))
    (state : List DeltaRunLen × Option UInt64) :
    state.1.length ≤ (blocks.foldl encodeBlock state).1.length ∧
      ∀ i < state.1.length, (blocks.foldl encodeBlock state).1.take i = state.1.take i := by
  induction blocks generalizing state with
  | nil => exact ⟨Nat.le_refl _, fun _ _ => rfl⟩
  | cons block blocks ih =>
    obtain ⟨hStep, hStepTake⟩ := encodeBlock_take state block
    obtain ⟨hRest, hRestTake⟩ := ih (encodeBlock state block)
    refine ⟨hStep.trans hRest, fun i hi => ?_⟩
    exact (hRestTake i (hi.trans_le hStep)).trans (hStepTake i hi)

/-- What a batch can do: it is refused, it is empty, or its blocks are encoded in their order. -/
theorem encodeDeltas_cases (encoder : DeltaEncoder) (batch : List (Nat × UInt64)) :
    (∃ error, encoder.encodeDeltas batch = (encoder, .error error)) ∨
    (batch = [] ∧ encoder.encodeDeltas batch = (encoder, .ok ())) ∨
    ∃ firstBlock lastBlock, (sortByKey Prod.fst batch).head? = some firstBlock ∧
      (sortByKey Prod.fst batch).getLast? = some lastBlock ∧
      ¬ (firstBlock.1 ≠ encoder.encodedDeltas.maxBlock + 1 ∧ encoder.encodedDeltas.maxBlock = 0 ∧
        firstBlock.1 < 2) ∧
      encoder.encodeDeltas batch =
        ({ encoder with encodedDeltas := { encoder.encodedDeltas with
            runs := ((sortByKey Prod.fst batch).foldl encodeBlock (encoder.encodedDeltas.runs,
              if encoder.encodedDeltas.maxBlock = 0 then encoder.encodedDeltas.genesisTimestamp
              else encoder.encodedDeltas.maxBlockTimestamp)).1
            maxBlock := lastBlock.1
            maxBlockTimestamp := some lastBlock.2 } }, .ok ()) := by
  cases hSorted : sortByKey Prod.fst batch with
  | nil =>
    have hBatch : batch = [] := by
      have hPerm := sortByKey_perm Prod.fst batch
      rw [hSorted] at hPerm
      exact hPerm.symm.eq_nil
    exact .inr (.inl ⟨hBatch, by simp [encodeDeltas, hSorted]⟩)
  | cons first rest =>
    obtain ⟨last, hLast⟩ : ∃ last, (first :: rest).getLast? = some last :=
      ⟨_, List.getLast?_eq_some_getLast (List.cons_ne_nil first rest)⟩
    by_cases hRefused : first.1 ≠ encoder.encodedDeltas.maxBlock + 1 ∧
        encoder.encodedDeltas.maxBlock = 0 ∧ first.1 < 2
    · refine .inl ⟨.notSequential (encoder.encodedDeltas.maxBlock + 1) first.1, ?_⟩
      simp only [encodeDeltas, hSorted, List.head?_cons, hLast]
      rw [if_pos hRefused]
    · refine .inr (.inr ⟨first, last, rfl, hLast, hRefused, ?_⟩)
      simp only [encodeDeltas, hSorted, List.head?_cons, hLast]
      rw [if_neg hRefused]

theorem IndexSound.encodeDeltas (h : IndexSound encoder) (batch : List (Nat × UInt64)) :
    IndexSound (encoder.encodeDeltas batch).1 := by
  rcases encodeDeltas_cases encoder batch with ⟨error, hEq⟩ | ⟨-, hEq⟩ | ⟨_, _, -, -, -, hEq⟩
  · rw [hEq]
    exact h
  · rw [hEq]
    exact h
  · rw [hEq]
    obtain ⟨hLength, hTake⟩ := foldl_encodeBlock_take (sortByKey Prod.fst batch)
      (encoder.encodedDeltas.runs,
        if encoder.encodedDeltas.maxBlock = 0 then encoder.encodedDeltas.genesisTimestamp
        else encoder.encodedDeltas.maxBlockTimestamp)
    exact h.of_take rfl rfl hLength hTake

/-- The checkpoints of the runs `runs` that follow `done`. -/
theorem indexRuns_sound {interval : Nat} (genesis : UInt64) (runs before : List DeltaRunLen)
    (index : OrderedMap Nat (Nat × UInt64)) {index' : OrderedMap Nat (Nat × UInt64)}
    (hIndex : ∀ block i ts, (block, (i, ts)) ∈ index.entries → i < before.length ∧
      block = (Run.steps (before.take i)).length ∧
      ts = Run.clock genesis (Run.steps (before.take i)) block)
    (h : indexRuns interval before.length (Run.steps before).length
      (Run.clock genesis (Run.steps before) (Run.steps before).length) runs index = some index') :
    ∀ block i ts, (block, (i, ts)) ∈ index'.entries → i < (before ++ runs).length ∧
      block = (Run.steps ((before ++ runs).take i)).length ∧
      ts = Run.clock genesis (Run.steps ((before ++ runs).take i)) block := by
  induction runs generalizing before index with
  | nil =>
    cases h
    rw [List.append_nil]
    exact hIndex
  | cons run runs ih =>
    simp only [indexRuns] at h
    split at h
    · cases h
    · have hStart : (Run.steps before).length + run.len = (Run.steps (before ++ [run])).length := by
        simp
      have hClock : Run.clock genesis (Run.steps before) (Run.steps before).length +
          run.delta * UInt64.ofNat run.len =
          Run.clock genesis (Run.steps (before ++ [run])) (Run.steps (before ++ [run])).length := by
        have hRight := Run.clock_append_right genesis (Run.steps before) (Run.steps [run]) run.len
        rw [Run.clock_run_left _ run [] (Nat.le_refl _), nsmul_eq] at hRight
        rw [← hRight, Run.steps_append, List.length_append]
        simp
      rw [hStart, hClock, show before.length + 1 = (before ++ [run]).length by simp] at h
      rw [show before ++ run :: runs = (before ++ [run]) ++ runs by simp]
      refine ih _ _ ?_ h
      intro block i ts hMem
      have hOld : (block, (i, ts)) ∈ index.entries → i < (before ++ [run]).length ∧
          block = (Run.steps ((before ++ [run]).take i)).length ∧
          ts = Run.clock genesis (Run.steps ((before ++ [run]).take i)) block := by
        intro hMem
        obtain ⟨hi, hBlock, hTs⟩ := hIndex block i ts hMem
        rw [List.take_append_of_le_length hi.le]
        exact ⟨by simp; omega, hBlock, hTs⟩
      split at hMem
      · rcases OrderedMap.mem_insertEntry hMem with hNew | hMem
        · cases hNew
          have hTake : (before ++ [run]).take before.length = before := by simp
          rw [hTake]
          exact ⟨by simp, rfl, rfl⟩
        · exact hOld hMem
      · exact hOld hMem

theorem indexSound_buildIndex {network interval : Nat} {encodedDeltas : EncodedDeltas}
    (h : buildIndex interval ⟨network, encodedDeltas, ∅⟩ = some encoder) : IndexSound encoder := by
  intro block i ts hMem
  simp only [buildIndex] at h
  cases hGenesis : encodedDeltas.genesisTimestamp with
  | none =>
    rw [hGenesis] at h
    cases h
    exact absurd hMem (by simp [EmptyCollection.emptyCollection, OrderedMap.empty])
  | some genesis =>
    rw [hGenesis] at h
    obtain ⟨index, hIndex, rfl⟩ := Option.map_eq_some_iff.mp h
    have hSound := indexRuns_sound genesis encodedDeltas.runs [] ∅
      (by simp [EmptyCollection.emptyCollection, OrderedMap.empty]) (by simpa using hIndex)
    exact ⟨genesis, hGenesis, hSound block i ts hMem⟩

theorem Reached.indexSound (h : Reached format encoder) : IndexSound encoder := by
  induction h with
  | new network => exact indexSound_new network
  | load h =>
    obtain ⟨encodedDeltas, -, hBuild⟩ := Option.bind_eq_some_iff.mp h
    exact indexSound_buildIndex hBuild
  | genesis _ ih => exact ih.withGenesis
  | encode _ batch ih => exact ih.encodeDeltas batch

end Rindexer.Blockclock.DeltaEncoder
