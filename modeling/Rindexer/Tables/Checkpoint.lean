import Rindexer.Tables.Processing

/-! What the checkpoint of a shutdown may say: the block that it saves against the operations that have
been applied to the events up to it. -/

namespace Rindexer.Tables

open Rindexer.Database Rindexer.Manifest

variable {ε σ : Type}

/-- When the first `done` operations are applied to the batch, every operation is to the events of a
network up to a block: the others have no rows from them. -/
def AppliedUpTo (x : Extraction ε) (events : List (EventData ε)) (ops : List Operation) (done : Nat)
    (network : String) (block : Nat) : Prop :=
  ∀ op ∈ ops.drop done, ∀ e ∈ events, e.network = network → e.txMetadata.blockNumber ≤ block →
    op.eventRows x e = .ok []

/-- No operation after the first `done` has rows at or below a block that one of these has written. -/
def NoneLeftBelow (x : Extraction ε) (events : List (EventData ε)) (ops : List Operation)
    (done : Nat) : Prop :=
  ∀ op ∈ ops.take done, ∀ row ∈ op.batchRows x events,
    AppliedUpTo x events ops done row.network row.blockNumber

/-- The block saved is that of a row written. -/
theorem savedBlocks_eq_some_iff {x : Extraction ε} {events : List (EventData ε)}
    {done : List Operation} {s : Progress σ} {stop : Option Stop} {checkpointConfig : Bool}
    {network : String} {block : Nat} (h : Frontier x events done s) :
    savedBlocks checkpointConfig (s, stop) network = some block ↔
      (checkpointConfig = true ∧ stop = some .shutdown) ∧
        (∃ op ∈ done, ∃ row ∈ op.batchRows x events,
          row.network = network ∧ row.blockNumber = block) ∧
        ∀ op ∈ done, ∀ row ∈ op.batchRows x events, row.network = network →
          row.blockNumber ≤ block := by
  unfold savedBlocks
  split
  · rename_i hSaved
    rw [h.written, highestBlock_eq_some_iff]
    simp only [List.mem_flatMap]
    constructor
    · rintro ⟨⟨row, ⟨op, hOp, hRow⟩, hReached⟩, hAbove⟩
      exact ⟨hSaved, ⟨op, hOp, row, hRow, hReached⟩, fun op hOp row hRow => hAbove row ⟨op, hOp, hRow⟩⟩
    · rintro ⟨-, ⟨op, hOp, row, hRow, hReached⟩, hAbove⟩
      refine ⟨⟨row, ⟨op, hOp, hRow⟩, hReached⟩, ?_⟩
      rintro r ⟨op, hOp, hR⟩
      exact hAbove op hOp r hR
  · rename_i hSaved
    exact ⟨fun hSome => (by cases hSome), fun hAll => absurd hAll.1 hSaved⟩

/-- Some row is the highest of its network. -/
theorem exists_highest {rows : List TableRowData} {row : TableRowData} (h : row ∈ rows) :
    ∃ block, highestBlock rows row.network = some block ∧ row.blockNumber ≤ block := by
  cases hHighest : highestBlock rows row.network with
  | some block => exact ⟨block, rfl, (highestBlock_eq_some_iff.mp hHighest).2 row h rfl⟩
  | none =>
    rw [highestBlock, List.max?_eq_none_iff, List.map_eq_nil_iff, List.filter_eq_nil_iff] at hHighest
    exact absurd (beq_self_eq_true row.network) (hHighest row h)

/-- A checkpoint is sound, that is every operation has been applied up to the block saved, exactly when
the check that finds the flag down leaves no operation with rows at or below a block written. -/
theorem checkpoint_sound_iff (x : Extraction ε)
    (execute : Operation → List TableRowData → σ → σ × Option String) (events : List (EventData ε))
    (shutdown : Option ShutdownPoint) (tables : List Table) (eventName : String) (store : σ)
    (checkpointConfig : Bool) :
    (∀ network block,
      savedBlocks checkpointConfig
          (processTableOperations x execute events shutdown tables eventName store) network =
        some block →
      AppliedUpTo x events (operationsFor eventName tables)
        (processTableOperations x execute events shutdown tables eventName store).1.finished
        network block) ↔
    (checkpointConfig = true →
      (processTableOperations x execute events shutdown tables eventName store).2 =
        some .shutdown →
      ∀ point, shutdown = some point →
        NoneLeftBelow x events (operationsFor eventName tables) (point.done eventName tables)) := by
  have hEnds : Ends x events (operationsFor eventName tables) _
    (processTableOperations x execute events shutdown tables eventName store) :=
    processTableOperations_ends execute shutdown tables eventName store
  generalize processTableOperations x execute events shutdown tables eventName store = result at *
  obtain ⟨s, stop⟩ := result
  cases stop with
  | none =>
    refine ⟨fun _ _ hStop => (by cases hStop), fun _ network block hSaved => ?_⟩
    have hEnds : Frontier x events (operationsFor eventName tables) s := hEnds
    intro op hOp
    rw [hEnds.finished, List.drop_length] at hOp
    cases hOp
  | some stop =>
    obtain ⟨k, hk, hFrontier, hPoint⟩ := hEnds
    have hFinished : s.finished = k := by
      rw [hFrontier.finished, List.length_take, Nat.min_eq_left hk]
    constructor
    · intro hSound hConfig hStop point hShutdown
      obtain ⟨point', hShutdown', rfl⟩ := hPoint (Option.some.inj hStop)
      cases Option.some.inj (hShutdown.symm.trans hShutdown')
      intro op hOp row hRow later hLater e hE hNetwork hBlock
      have hWritten : row ∈ ((operationsFor eventName tables).take
          (point.done eventName tables)).flatMap fun op => op.batchRows x events :=
        List.mem_flatMap.mpr ⟨op, hOp, hRow⟩
      obtain ⟨block, hHighest, hLe⟩ := exists_highest hWritten
      refine hSound row.network block ?_ later (by rwa [hFinished]) e hE hNetwork (by omega)
      unfold savedBlocks
      rw [if_pos ⟨hConfig, hStop⟩, hFrontier.written]
      exact hHighest
    · intro hNone network block hSaved
      rw [savedBlocks_eq_some_iff hFrontier] at hSaved
      obtain ⟨⟨hConfig, hStop⟩, ⟨op, hOp, row, hRow, rfl, rfl⟩, -⟩ := hSaved
      obtain ⟨point, hShutdown, rfl⟩ := hPoint (Option.some.inj hStop)
      show AppliedUpTo x events _ s.finished _ _
      rw [hFinished]
      exact hNone hConfig hStop point hShutdown op hOp row hRow

def debit : TableOperation :=
  ⟨.upsert, [("holder", "$from")], none, none, [⟨"balance", .subtract, some "$value"⟩]⟩

def credit : TableOperation :=
  ⟨.upsert, [("holder", "$to")], none, none, [⟨"balance", .add, some "$value"⟩]⟩

/-- A table of balances, which a transfer debits and then credits. -/
def balances : Table where
  name := "balances"
  global := false
  crossChain := false
  columns := [⟨"holder", .address, false, none⟩, ⟨"balance", .uint256, false, some "0"⟩]
  events := [⟨"Transfer", [], [debit, credit]⟩]
  cronOperations := []
  timestamp := false

/-- A transfer at a position of the chain. -/
def transferEvent (source target : String) (value : Int) (blockNumber logIndex : Nat) :
    EventData (List (String × SqlValue)) where
  logParams := [("$from", .text source), ("$to", .text target), ("$value", .num value)]
  network := "ethereum"
  txMetadata := ⟨blockNumber, none, "", "", "", logIndex, 0⟩

/-- A shutdown between the debit and the credit of a transfer in block 5 saves block 5. -/
theorem credit_skipped : ¬∀ network block,
    savedBlocks true
        (processTableOperations .byName (fun _ _ (store : Unit) => (store, none))
          [transferEvent "alice" "bob" 7 5 0] (some (.event 1 0)) [balances] "Transfer" ()) network =
      some block →
    AppliedUpTo .byName [transferEvent "alice" "bob" 7 5 0] (operationsFor "Transfer" [balances])
      (processTableOperations .byName (fun _ _ (store : Unit) => (store, none))
        [transferEvent "alice" "bob" 7 5 0] (some (.event 1 0)) [balances] "Transfer" ()).1.finished
      network block := by
  intro hSound
  have hApplied := hSound "ethereum" 5 (by decide)
  have hRows := hApplied ⟨balances, ⟨"Transfer", [], [debit, credit]⟩, credit⟩ (by decide) _
    List.mem_cons_self rfl (Nat.le_refl 5)
  cases hRows

end Rindexer.Tables
