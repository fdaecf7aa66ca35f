import Rindexer.Lib.Transition
import Rindexer.Reorg.Detection

/-! Runs of a coordinator: calls on new blocks, handled reorgs, prunes and restarts in any order.
Detection is complete along every run of calls that are harmless where they are made. -/

namespace Rindexer.Reorg

open Rindexer.Lib Rindexer.Database

/-- What happens to a coordinator: a poll hands it a block, and a reorg that it detects is handled; a
notification, removed logs or the startup validation name a range to roll back; a spawned prune
runs; the process restarts and loads the window. -/
inductive Call
  | newBlock (env : Surroundings) (number : Nat) (hash parentHash : B256)
  | handle (env : Surroundings) (forkPoint detectionPoint : Nat)
  | prune (olderThan : Nat)
  | restart

def Call.provider : Call → Option ChainProvider
  | newBlock env _ _ _ => env.provider
  | handle env _ _ => env.provider
  | _ => none

namespace ReorgCoordinator

/-- A prune in the background, once it runs. -/
def runPrune (c : ReorgCoordinator) (olderThan : Nat) : ReorgCoordinator :=
  { c with
    store := { c.store with
      db := ReorgBlockHashPersistence.prune c.store.db c.network olderThan }
    spawnedPrunes := c.spawnedPrunes.erase olderThan }

/-- A restart: the connections are gone, and the window is loaded. -/
def restart (c : ReorgCoordinator) : Option ReorgCoordinator :=
  match ReorgBlockHashPersistence.load c.store.db c.network c.window.maxWindowSize with
  | .error _ => none
  | .ok window =>
    some { c with
      window := window
      blocksSinceFlush := 0
      store := { c.store with temps := [] }
      spawnedPrunes := [] }

def step (c : ReorgCoordinator) : Call → Option ReorgCoordinator
  | .newBlock env number hash parentHash => some (c.detectAndHandleReorg env number hash parentHash).1
  | .handle env forkPoint detectionPoint =>
    match c.tryCreateReorgTaskForBlockRange forkPoint detectionPoint with
    | .error _ => none
    | .ok task => some (c.handleReorg env task).1
  | .prune olderThan => if olderThan ∈ c.spawnedPrunes then some (c.runPrune olderThan) else none
  | .restart => c.restart

end ReorgCoordinator

/-- A call that can do no harm: its block fits the window, unless the check of its parent turns it
down; a list that repairs the window fits it; the rows that a restart loads are linked. -/
def Harmless (c : ReorgCoordinator) : Call → Prop
  | .newBlock env number hash parentHash =>
    (c.window.ParentFits number parentHash →
      c.window.maxWindowSize ≤ c.window.heightsAbove number ∨ c.window.Fits number hash) ∧
    ∀ task, (c.onNewBlock env number hash parentHash).2 = .ok (some task) →
      task.selectCanonical env.provider = [] ∨
        ∀ n e, task.forkPoint ≤ n →
          (c.onNewBlock env number hash parentHash).1.window.get n = some e →
            n ∈ (task.selectCanonical env.provider).map Header.number
  | .handle env forkPoint detectionPoint =>
    ∀ task, c.tryCreateReorgTaskForBlockRange forkPoint detectionPoint = .ok task →
      task.selectCanonical env.provider = [] ∨
        RepairFits (task.selectCanonical env.provider) forkPoint c.window
  | .prune _ => True
  | .restart => ∀ n hash p hash' p',
      (c.store.db.blockHashes c.network).get? n = some (hash, p) →
      (c.store.db.blockHashes c.network).get? (n + 1) = some (hash', p') → p' = hash

/-- A call of `on_new_block` that reports no reorg leaves stored neighbours parent and child, and
changes no stored hash. -/
def DetectsAll (c : ReorgCoordinator) : Call → Prop
  | .newBlock env number hash parentHash =>
    (c.onNewBlock env number hash parentHash).2 = .ok none →
      (c.onNewBlock env number hash parentHash).1.window.Linked ∧
        c.window.KeepsHashes (c.onNewBlock env number hash parentHash).1.window
  | _ => True

theorem detectAndHandleReorg_linked {env : Surroundings} {c : ReorgCoordinator} {number : Nat}
    {hash parentHash : B256} (hLinked : c.window.Linked)
    (hProvider : ∀ p ∈ env.provider, p.AnswersFromOneChain)
    (hHarmless : Harmless c (.newBlock env number hash parentHash)) :
    (c.detectAndHandleReorg env number hash parentHash).1.window.Linked := by
  have hAfter := ReorgCoordinator.onNewBlock_linked env hLinked hHarmless.1
  unfold ReorgCoordinator.detectAndHandleReorg
  split
  · rename_i c' e hCall
    rw [hCall] at hAfter
    exact hAfter
  · rename_i c' hCall
    rw [hCall] at hAfter
    exact hAfter
  · rename_i c' task hCall
    have hReported : (c.onNewBlock env number hash parentHash).2 = .ok (some task) := by rw [hCall]
    have hTask := ReorgCoordinator.onNewBlock_some hReported
    have hCovered := hHarmless.2 task hReported
    rw [hCall] at hAfter hTask hCovered
    simp only at hAfter hTask hCovered
    unfold ReorgCoordinator.handleMismatch at hTask
    split at hTask
    · cases hTask
    · rename_i forkPoint blocks hFork
      obtain ⟨hChain, hBoundary⟩ := findForkPoint_boundary hFork hProvider
      cases hTask
      have hHandled := handleReorg_linked hAfter (selectCanonical_oneChain hChain hProvider)
        (hCovered.imp_right fun hAll => ⟨hAll, fun b hb n hash' p hNumber hNext hGet => by
          refine hBoundary b n hash' p ?_ hNumber hNext hGet
          by_cases hNil : blocks = []
          · exact .inl hNil
          · unfold ReorgTask.selectCanonical at hb
            rw [if_pos hNil] at hb
            exact .inr (List.mem_filter.mp hb).1⟩)
      split <;> rename_i hEq <;> rw [hEq] at hHandled <;> exact hHandled

/-- A harmless call keeps the window linked and detects what it should. -/
theorem step_linked {c c' : ReorgCoordinator} {call : Call} (hLinked : c.window.Linked)
    (hProvider : ∀ p ∈ call.provider, p.AnswersFromOneChain) (hHarmless : Harmless c call)
    (hStep : c.step call = some c') : c'.window.Linked ∧ DetectsAll c call := by
  cases call with
  | newBlock env number hash parentHash =>
    cases hStep
    refine ⟨detectAndHandleReorg_linked hLinked hProvider hHarmless, fun hNone => ?_⟩
    refine (ReorgCoordinator.onNewBlock_none_iff hLinked hNone).mpr ?_
    rcases ReorgCoordinator.onNewBlock_window env number hash parentHash hLinked with
      ⟨-, -, hSome⟩ | ⟨hFits, -⟩ | ⟨latest, hLatest, hAbove, -⟩
    · exact absurd hNone hSome
    · exact hHarmless.1 hFits
    · exact .inr (ReorgCoordinator.fits_above_latest hLatest hAbove)
  | handle env forkPoint detectionPoint =>
    simp only [ReorgCoordinator.step] at hStep
    split at hStep
    · cases hStep
    · rename_i task hTask
      cases hStep
      have hFits := hHarmless task hTask
      unfold ReorgCoordinator.tryCreateReorgTaskForBlockRange at hTask
      split at hTask
      · cases hTask
        have hEmpty : OneChain ([] : List Header) := ⟨fun _ => 0, by simp⟩
        exact ⟨handleReorg_linked hLinked (selectCanonical_oneChain hEmpty hProvider) hFits,
          trivial⟩
      · cases hTask
  | prune olderThan =>
    simp only [ReorgCoordinator.step] at hStep
    split at hStep
    · cases hStep
      exact ⟨hLinked, trivial⟩
    · cases hStep
  | restart =>
    simp only [ReorgCoordinator.step, ReorgCoordinator.restart] at hStep
    split at hStep
    · cases hStep
    · rename_i window hLoad
      cases hStep
      have hEntries := (ReorgBlockHashPersistence.load_ok hLoad).2
      refine ⟨fun n hash p hash' p' hLow hHigh => ?_, trivial⟩
      simp only [BlockChainWindow.get, hEntries] at hLow hHigh
      exact hHarmless n hash p hash' p' (OrderedMap.get?_of_get?_dropFirst hLow)
        (OrderedMap.get?_of_get?_dropFirst hHigh)

/-- Along a run of harmless calls from a linked window, every call of `on_new_block` that reports no
reorg leaves stored neighbours parent and child and changes no stored hash. -/
theorem detection_complete {c : ReorgCoordinator} {calls : List Call}
    (hProvider : ∀ call ∈ calls, ∀ p ∈ call.provider, p.AnswersFromOneChain)
    (hLinked : c.window.Linked) (hHarmless : Meets ReorgCoordinator.step Harmless c calls) :
    EveryStep ReorgCoordinator.step (fun c call c' => c'.window.Linked ∧ DetectsAll c call) c
      calls := by
  induction calls generalizing c with
  | nil => trivial
  | cons call calls ih =>
    intro c' hStep
    obtain ⟨hCall, hRest⟩ := hHarmless c' hStep
    have hOne := step_linked hLinked (hProvider call List.mem_cons_self) hCall hStep
    exact ⟨hOne, ih (fun call' hMem => hProvider call' (List.mem_cons_of_mem _ hMem)) hOne.1 hRest⟩

/-- A chain that grows by two blocks. -/
theorem detection_complete_growing :
    EveryStep ReorgCoordinator.step (fun c call c' => c'.window.Linked ∧ DetectsAll c call)
      (.fresh "ethereum") [.newBlock .calm 10 10 9, .newBlock .calm 11 11 10] := by
  refine detection_complete (by simp [Call.provider, Surroundings.calm])
    (BlockChainWindow.linked_of_empty fun _ => rfl) ?_
  intro c1 h1
  cases h1
  refine ⟨⟨fun _ => .inr ⟨?_, ?_⟩, ?_⟩, fun c2 h2 => ?_⟩
  · intro hash' p' hGet
    cases hGet
  · intro hash' p' hGet
    cases hGet
  · intro task hTask
    cases hTask
  · cases h2
    refine ⟨⟨fun _ => .inr ⟨?_, ?_⟩, ?_⟩, trivial⟩
    · intro hash' p' hGet
      cases hGet
    · intro hash' p' hGet
      cases hGet
    · intro task hTask
      cases hTask

/-- Block 11 seen again with another hash and the same parent overwrites the stored hash, and the
call reports no reorg. -/
theorem same_height_overwritten :
    ¬ ∀ (c : ReorgCoordinator) (calls : List Call),
      (∀ call ∈ calls, ∀ p ∈ call.provider, p.AnswersFromOneChain) → c.window.Linked →
      EveryStep ReorgCoordinator.step (fun c call _ => DetectsAll c call) c calls := by
  intro hClaim
  have hRun := hClaim (.fresh "ethereum")
    [.newBlock .calm 10 10 9, .newBlock .calm 11 11 10, .newBlock .calm 11 21 10]
    (by simp [Call.provider, Surroundings.calm]) (BlockChainWindow.linked_of_empty fun _ => rfl)
  have hLast := ((((hRun _ rfl).2) _ rfl).2 _ rfl).1
  have hKeeps := (hLast rfl).2
  have hSame := hKeeps 11 11 10 21 10 rfl rfl
  exact absurd hSame (by decide)

end Rindexer.Reorg
