import Mathlib.Data.List.Destutter
import Mathlib.Data.UInt
import Rindexer.Lib.OrderedMap
import Rindexer.Lib.RunLength
import Rindexer.Lib.Sorting

/-! The run-length encoder of block timestamps: how batches of blocks become runs of deltas, the index
of checkpoints over the runs, the file that holds them, and the two lookups.  Timestamps are words of
64 bits with arithmetic that wraps; block numbers and the lengths of runs are counters. -/

namespace Rindexer.Blockclock

open Rindexer.Lib

/-- A timestamp delta run length. -/
abbrev DeltaRunLen := Run UInt64

structure EncodedDeltas where
  network : Nat
  genesisTimestamp : Option UInt64
  maxBlock : Nat
  maxBlockTimestamp : Option UInt64
  runs : List DeltaRunLen
deriving DecidableEq

def EncodedDeltas.new (network : Nat) : EncodedDeltas := ⟨network, none, 0, none, []⟩

/-- The encoder; `index` gives for some blocks the run that starts there and the timestamp. -/
structure DeltaEncoder where
  network : Nat
  encodedDeltas : EncodedDeltas
  index : OrderedMap Nat (Nat × UInt64)

namespace DeltaEncoder

def new (network : Nat) : DeltaEncoder := ⟨network, EncodedDeltas.new network, ∅⟩

/-! ### Encoding -/

/-- `Deltas must be encoded in sequential order, expected .. got ..` -/
inductive EncodeError
  | notSequential (expected got : Nat)
deriving DecidableEq, Repr

/-- `u64::saturating_sub`. -/
def saturatingSub (a b : UInt64) : UInt64 := if b ≤ a then a - b else 0

/-- One block of a batch: the runs with its delta, and the timestamp the next one is compared to. -/
def encodeBlock (state : List DeltaRunLen × Option UInt64) (block : Nat × UInt64) :
    List DeltaRunLen × Option UInt64 :=
  match state.2 with
  | some prevTs => (Run.push state.1 (saturatingSub block.2 prevTs), some block.2)
  | none => (state.1, some block.2)

def encodeDeltas (encoder : DeltaEncoder) (batch : List (Nat × UInt64)) :
    DeltaEncoder × Except EncodeError Unit :=
  let blocks := sortByKey Prod.fst batch
  match blocks.head?, blocks.getLast? with
  | some firstBlock, some lastBlock =>
    let expectedBlock := encoder.encodedDeltas.maxBlock + 1
    if firstBlock.1 ≠ expectedBlock ∧ encoder.encodedDeltas.maxBlock = 0 ∧ firstBlock.1 < 2 then
      (encoder, .error (.notSequential expectedBlock firstBlock.1))
    else
      let previousTimestamp :=
        if encoder.encodedDeltas.maxBlock = 0 then encoder.encodedDeltas.genesisTimestamp
        else encoder.encodedDeltas.maxBlockTimestamp
      let runs := (blocks.foldl encodeBlock (encoder.encodedDeltas.runs, previousTimestamp)).1
      ({ encoder with
          encodedDeltas := { encoder.encodedDeltas with
            runs := runs, maxBlock := lastBlock.1, maxBlockTimestamp := some lastBlock.2 } },
        .ok ())
  | _, _ => (encoder, .ok ())

/-- Some nodes give no timestamp for block `0`, so these are fixed. -/
def genesisTime (encoder : DeltaEncoder) : Option UInt64 :=
  if encoder.network = 1 then some 1438269973
  else if encoder.network = 10 then some 1610639500
  else if encoder.network = 42161 then some 1622240000
  else some 0

/-- The first step of `fetch_encode_persist`: the genesis timestamp, where there is none yet. -/
def withGenesis (encoder : DeltaEncoder) : DeltaEncoder :=
  match encoder.encodedDeltas.genesisTimestamp with
  | some _ => encoder
  | none =>
    { encoder with
      encodedDeltas := { encoder.encodedDeltas with genesisTimestamp := encoder.genesisTime } }

/-! ### The index and the file -/

/-- The checkpoints of `runs`, the first of which is run `i` and starts at block `bnum`; none where
the remainder by an interval of zero is taken, which panics. -/
def indexRuns (interval : Nat) :
    Nat → Nat → UInt64 → List DeltaRunLen → OrderedMap Nat (Nat × UInt64) →
      Option (OrderedMap Nat (Nat × UInt64))
  | _, _, _, [], index => some index
  | i, bnum, aggTs, run :: runs, index =>
    if interval = 0 then none
    else indexRuns interval (i + 1) (bnum + run.len) (aggTs + run.delta * UInt64.ofNat run.len) runs
      (if bnum % interval = 0 then index.insert bnum (i, aggTs) else index)

def buildIndex (interval : Nat) (encoder : DeltaEncoder) : Option DeltaEncoder :=
  match encoder.encodedDeltas.genesisTimestamp with
  | none => some encoder
  | some genesis =>
    (indexRuns interval 0 0 genesis encoder.encodedDeltas.runs encoder.index).map
      fun index => { encoder with index := index }

/-- How the deltas are written to a file and read back. -/
structure FileFormat where
  File : Type
  encode : EncodedDeltas → File
  decode : File → Option EncodedDeltas

def serializeToFile (format : FileFormat) (encoder : DeltaEncoder) : format.File :=
  format.encode encoder.encodedDeltas

/-- `from_file_inner` on a file that exists, with the interval of its index. -/
def fromFileInner (format : FileFormat) (network interval : Nat) (file : format.File) :
    Option DeltaEncoder :=
  (format.decode file).bind fun encodedDeltas => buildIndex interval ⟨network, encodedDeltas, ∅⟩

/-! ### Lookups -/

/-- Where a walk to a block starts: the block, its timestamp and the run that starts there. -/
def checkpoint (encoder : DeltaEncoder) (genesis : UInt64) (block : Nat) : Nat × UInt64 × Nat :=
  match (encoder.index.entries.filter fun entry => entry.1 ≤ block).getLast? with
  | some (bnum, idx, ts) => (bnum, ts, idx)
  | none => (0, genesis, 0)

/-- The walk of `get_block_timestamp`. -/
def walk (blockNumber : Nat) : Nat → UInt64 → List DeltaRunLen → Option UInt64
  | _, _, [] => none
  | bnum, aggTs, run :: runs =>
    if blockNumber ≤ bnum + run.len then
      some (aggTs + run.delta * UInt64.ofNat (blockNumber - bnum))
    else walk blockNumber (bnum + run.len) (aggTs + run.delta * UInt64.ofNat run.len) runs

def getBlockTimestamp (encoder : DeltaEncoder) (blockNumber : Nat) : Option UInt64 :=
  encoder.encodedDeltas.genesisTimestamp.bind fun genesis =>
    if encoder.encodedDeltas.maxBlock < blockNumber then none
    else
      let (bnum, aggTs, runIdx) := encoder.checkpoint genesis blockNumber
      walk blockNumber bnum aggTs (encoder.encodedDeltas.runs.drop runIdx)

/-- The requests that one run answers, and those that are left. -/
def assignRun (bnum stop : Nat) (aggTs delta : UInt64) :
    List Nat → OrderedMap Nat UInt64 → List Nat × OrderedMap Nat UInt64
  | [], output => ([], output)
  | blk :: rest, output =>
    if blk < bnum then assignRun bnum stop aggTs delta rest output
    else if blk < stop then
      assignRun bnum stop aggTs delta rest
        (output.insert blk (aggTs + delta * UInt64.ofNat (blk - bnum)))
    else (blk :: rest, output)

/-- The walk of `get_block_timestamps`. -/
def walkRequests : Nat → UInt64 → List DeltaRunLen → List Nat → OrderedMap Nat UInt64 →
    OrderedMap Nat UInt64
  | _, _, [], _, output => output
  | bnum, aggTs, run :: runs, requested, output =>
    let assigned := assignRun bnum (bnum + run.len) aggTs run.delta requested output
    walkRequests (bnum + run.len) (aggTs + run.delta * UInt64.ofNat run.len) runs assigned.1 assigned.2

/-- The requested blocks that are encoded, sorted and each one once. -/
def requested (encoder : DeltaEncoder) (blockNumbers : List Nat) : List Nat :=
  ((blockNumbers.filter fun block => block ≤ encoder.encodedDeltas.maxBlock).insertionSort
    (· ≤ ·)).destutter (· ≠ ·)

def getBlockTimestamps (encoder : DeltaEncoder) (blockNumbers : List Nat) :
    OrderedMap Nat UInt64 :=
  match encoder.encodedDeltas.genesisTimestamp with
  | none => ∅
  | some genesis =>
    match (encoder.requested blockNumbers).getLast? with
    | none => ∅
    | some startBlock =>
      let (bnum, aggTs, runIdx) := encoder.checkpoint genesis startBlock
      walkRequests bnum aggTs (encoder.encodedDeltas.runs.drop runIdx)
        (encoder.requested blockNumbers) ∅

end DeltaEncoder

end Rindexer.Blockclock
