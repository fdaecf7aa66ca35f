import Rindexer.Reorg.Coordinator

/-! Detection and the window: what a call of `on_new_block` and a handled reorg do to it, and when a
window whose neighbours are parent and child stays one. -/

namespace Rindexer.Reorg

open Rindexer.Lib Rindexer.Database

namespace ReorgCoordinator

@[simp] theorem persistAndMaybePrune_window (env : Surroundings) (c : ReorgCoordinator) (n : Nat)
    (hash parentHash : B256) :
    (c.persistAndMaybePrune env n hash parentHash).1.window = c.window := by
  unfold persistAndMaybePrune
  simp only
  split
  · rfl
  · split
    · rfl
    · split <;> rfl

@[simp] theorem insertBlock_window (env : Surroundings) (c : ReorgCoordinator) (n : Nat)
    (hash parentHash : B256) :
    (c.insertBlock env n hash parentHash).1.window = c.window.insert n hash parentHash := by
  unfold insertBlock
  rw [persistAndMaybePrune_window]

@[simp] theorem insertOrFail_window (env : Surroundings) (c : ReorgCoordinator) (n : Nat)
    (hash parentHash : B256) :
    (c.insertOrFail env n hash parentHash).1.window = c.window.insert n hash parentHash := by
  rw [← insertBlock_window env c n hash parentHash]
  unfold insertOrFail
  split <;> rename_i h <;> rw [h]

theorem handleMismatch_ne_none (env : Surroundings) (c : ReorgCoordinator) (n : Nat) :
    c.handleMismatch env n ≠ .ok none := by
  unfold handleMismatch
  split <;> simp

/-! ### Gaps -/

theorem fetchGap_ascending (env : Surroundings) (latest n : Nat) :
    ((fetchGap env latest n).map Header.number).Pairwise (· < ·) ∧
      ∀ b ∈ fetchGap env latest n, latest < b.number ∧ b.number < n := by
  unfold fetchGap
  split
  · cases env.provider with
    | none => simp
    | some provider =>
      simp only
      cases hAnswer : provider.getBlockByNumberBatch
        (List.range' (latest + 1) (n - (latest + 1))) with
      | none => simp
      | some blocks =>
        rw [Option.getD_some]
        have hSub := provider.requested hAnswer
        refine ⟨List.Pairwise.sublist hSub List.pairwise_lt_range', fun b hb => ?_⟩
        have hAsked := hSub.subset (List.mem_map_of_mem (f := Header.number) hb)
        rw [List.mem_range'_1] at hAsked
        omega
  · simp

/-- The blocks of a gap that lie in order above the window leave it linked, and add only their own
heights to it. -/
theorem fillGap_window (env : Surroundings) (n : Nat) {c : ReorgCoordinator}
    {blocks : List Header} (hLinked : c.window.Linked)
    (hAsc : (blocks.map Header.number).Pairwise (· < ·))
    (hAbove : ∀ k e, c.window.get k = some e → ∀ b ∈ blocks, k < b.number) :
    (fillGap env n c blocks).1.window.Linked ∧
      ∀ k e, (fillGap env n c blocks).1.window.get k = some e →
        c.window.get k = some e ∨ k ∈ blocks.map Header.number := by
  induction blocks generalizing c with
  | nil => exact ⟨hLinked, fun k e h => .inl h⟩
  | cons b blocks ih =>
    rw [List.map_cons, List.pairwise_cons] at hAsc
    -- Nothing is stored at the height of the first block or above it.
    have hFits : c.window.Fits b.number b.hash := by
      constructor
      · intro hash' p' hGet
        have := hAbove b.number _ hGet b List.mem_cons_self
        omega
      · intro hash' p' hGet
        have := hAbove (b.number + 1) _ hGet b List.mem_cons_self
        omega
    have hCases : ∀ k e, (c.window.insert b.number b.hash b.parentHash).get k = some e →
        c.window.get k = some e ∨ k = b.number := by
      intro k e hGet
      rcases BlockChainWindow.get_insert_cases hGet with ⟨rfl, -⟩ | ⟨-, hOld⟩
      · exact .inr rfl
      · exact .inl hOld
    have hWindow := insertBlock_window env c b.number b.hash b.parentHash
    rw [fillGap]
    split
    · exact ⟨hLinked, fun k e h => .inl h⟩
    · rename_i hValid
      have hParent := BlockChainWindow.parentFits_iff.mpr hValid
      have hInserted := ((BlockChainWindow.insert_linked_iff hLinked hParent).mpr (.inr hFits)).1
      split
      · rename_i c' e hInsert
        rw [hInsert] at hWindow
        simp only at hWindow ⊢
        rw [hWindow]
        refine ⟨hInserted, fun k e hGet => (hCases k e hGet).imp_right fun hEq => ?_⟩
        rw [hEq]
        exact List.mem_cons_self
      · rename_i c' hInsert
        rw [hInsert] at hWindow
        simp only at hWindow
        obtain ⟨hRest, hOld⟩ := ih (c := c') (hWindow ▸ hInserted) hAsc.2 (by
          intro k e hGet b' hb'
          rw [hWindow] at hGet
          have hLow := hAsc.1 b'.number (List.mem_map_of_mem hb')
          rcases hCases k e hGet with hGet | rfl
          · have := hAbove k e hGet b List.mem_cons_self
            omega
          · exact hLow)
        refine ⟨hRest, fun k e hGet => ?_⟩
        rcases hOld k e hGet with hGet | hMem
        · rw [hWindow] at hGet
          refine (hCases k e hGet).imp_right fun hEq => ?_
          rw [hEq]
          exact List.mem_cons_self
        · exact .inr (List.mem_cons_of_mem _ hMem)

/-- The window has gained blocks above a height only, and is linked. -/
structure GrownAbove (latest : Nat) (w w' : BlockChainWindow) : Prop where
  linked : w'.Linked
  old : ∀ k e, w'.get k = some e → w.get k = some e ∨ latest < k

/-- A block and the blocks of the gap below it, all above the window, leave it linked and change no
height up to the latest. -/
theorem onGap_grown (env : Surroundings) {c : ReorgCoordinator} {latest n : Nat}
    (hash parentHash : B256) (hLinked : c.window.Linked)
    (hLatest : c.window.latestBlock = some latest) (hAbove : latest < n) :
    GrownAbove latest c.window (c.onGap env latest n hash parentHash).1.window := by
  obtain ⟨hAsc, hGap⟩ := fetchGap_ascending env latest n
  have hBelow : ∀ k e, c.window.get k = some e → k ≤ latest := by
    intro k e hGet
    by_contra hHigh
    rw [BlockChainWindow.get_eq_none_of_latest_lt hLatest (by omega)] at hGet
    cases hGet
  obtain ⟨hFilled, hOld⟩ := fillGap_window env n hLinked hAsc fun k e hGet b hb => by
    have hLow := hBelow k e hGet
    have hHigh := (hGap b hb).1
    omega
  have hGrown : ∀ k e, (fillGap env n c (fetchGap env latest n)).1.window.get k = some e →
      k < n ∧ (c.window.get k = some e ∨ latest < k) := by
    intro k e hGet
    rcases hOld k e hGet with hGet | hMem
    · have hLow := hBelow k e hGet
      exact ⟨by omega, .inl hGet⟩
    · obtain ⟨b, hb, rfl⟩ := List.mem_map.mp hMem
      exact ⟨(hGap b hb).2, .inr (hGap b hb).1⟩
  unfold onGap
  split
  · rename_i c' detection hFill
    rw [hFill] at hFilled hGrown
    exact ⟨hFilled, fun k e hGet => (hGrown k e hGet).2⟩
  · rename_i c' hFill
    rw [hFill] at hFilled hGrown
    simp only at hFilled hGrown
    unfold insertOrDetectReorg
    split
    · exact ⟨hFilled, fun k e hGet => (hGrown k e hGet).2⟩
    · rename_i hValid
      have hParent := BlockChainWindow.parentFits_iff.mpr hValid
      have hFits : c'.window.Fits n hash := by
        constructor
        · intro hash' p' hGet
          have := (hGrown n _ hGet).1
          omega
        · intro hash' p' hGet
          have := (hGrown (n + 1) _ hGet).1
          omega
      rw [insertOrFail_window]
      refine ⟨((BlockChainWindow.insert_linked_iff hFilled hParent).mpr (.inr hFits)).1,
        fun k e hGet => ?_⟩
      rcases BlockChainWindow.get_insert_cases hGet with ⟨rfl, -⟩ | ⟨-, hGet⟩
      · exact .inr hAbove
      · exact (hGrown k e hGet).2

/-! ### One call -/

/-- What a call does to a linked window: nothing, when the stored parent has another hash; the insert
of the block; or, above the latest block, a linked extension. -/
theorem onNewBlock_window (env : Surroundings) {c : ReorgCoordinator} (n : Nat)
    (hash parentHash : B256) (hLinked : c.window.Linked) :
    (¬ c.window.ParentFits n parentHash ∧ (c.onNewBlock env n hash parentHash).1 = c ∧
      (c.onNewBlock env n hash parentHash).2 ≠ .ok none) ∨
    (c.window.ParentFits n parentHash ∧
      (c.onNewBlock env n hash parentHash).1.window = c.window.insert n hash parentHash) ∨
    ∃ latest, c.window.latestBlock = some latest ∧ latest < n ∧
      GrownAbove latest c.window (c.onNewBlock env n hash parentHash).1.window := by
  have hParentFits : (∀ expected got, c.window.validateParent n parentHash ≠
      .mismatch expected got) → c.window.ParentFits n parentHash :=
    BlockChainWindow.parentFits_iff.mpr
  unfold onNewBlock
  split
  · rename_i hValid
    exact .inr (.inl ⟨hParentFits (by simp [hValid]), insertOrFail_window ..⟩)
  · rename_i expected got hMismatch
    refine .inl ⟨fun hFits => ?_, rfl, handleMismatch_ne_none env c n⟩
    exact BlockChainWindow.parentFits_iff.mp hFits expected got hMismatch
  · rename_i hNoPrevious
    have hFits := hParentFits (by simp [hNoPrevious])
    split
    · exact .inr (.inl ⟨hFits, insertOrFail_window ..⟩)
    · rename_i latest hLatest
      split
      · exact .inr (.inl ⟨hFits, insertOrFail_window ..⟩)
      · by_cases hGap : latest + 1 < n
        · have hAbove : latest < n := by omega
          exact .inr (.inr ⟨latest, hLatest, hAbove, onGap_grown env hash parentHash hLinked
            hLatest hAbove⟩)
        · simp only [onGap, fetchGap, if_neg hGap, fillGap, insertOrDetectReorg, hNoPrevious]
          exact .inr (.inl ⟨hFits, insertOrFail_window ..⟩)

/-- Nothing is stored above the latest block, so any block fits there. -/
theorem fits_above_latest {w : BlockChainWindow} {latest n : Nat} {hash : B256}
    (hLatest : w.latestBlock = some latest) (hAbove : latest < n) : w.Fits n hash := by
  constructor
  · intro hash' p' hGet
    rw [BlockChainWindow.get_eq_none_of_latest_lt hLatest hAbove] at hGet
    cases hGet
  · intro hash' p' hGet
    rw [BlockChainWindow.get_eq_none_of_latest_lt hLatest (by omega)] at hGet
    cases hGet

/-- A call that reports no reorg leaves a linked window linked and its hashes as they were exactly
when the block fits the window, or lies below all that the window keeps. -/
theorem onNewBlock_none_iff {env : Surroundings} {c : ReorgCoordinator} {n : Nat}
    {hash parentHash : B256} (hLinked : c.window.Linked)
    (hNone : (c.onNewBlock env n hash parentHash).2 = .ok none) :
    (c.onNewBlock env n hash parentHash).1.window.Linked ∧
        c.window.KeepsHashes (c.onNewBlock env n hash parentHash).1.window ↔
      c.window.maxWindowSize ≤ c.window.heightsAbove n ∨ c.window.Fits n hash := by
  rcases onNewBlock_window env n hash parentHash hLinked with
    ⟨-, -, hSome⟩ | ⟨hFits, hWindow⟩ | ⟨latest, hLatest, hAbove, hGrown⟩
  · exact absurd hNone hSome
  · rw [hWindow]
    exact BlockChainWindow.insert_linked_iff hLinked hFits
  · simp only [fits_above_latest hLatest hAbove, or_true, iff_true]
    refine ⟨hGrown.linked, fun k hash1 p1 hash2 p2 hBefore hGet => ?_⟩
    rcases hGrown.old k _ hGet with hSame | hHigh
    · rw [hBefore] at hSame
      cases hSame
      rfl
    · rw [BlockChainWindow.get_eq_none_of_latest_lt hLatest hHigh] at hBefore
      cases hBefore

/-- A call leaves a linked window linked, whatever it reports, when its block fits or is turned down
by the check of its parent. -/
theorem onNewBlock_linked (env : Surroundings) {c : ReorgCoordinator} {n : Nat}
    {hash parentHash : B256} (hLinked : c.window.Linked)
    (hFits : c.window.ParentFits n parentHash →
      c.window.maxWindowSize ≤ c.window.heightsAbove n ∨ c.window.Fits n hash) :
    (c.onNewBlock env n hash parentHash).1.window.Linked := by
  rcases onNewBlock_window env n hash parentHash hLinked with
    ⟨-, hSame, -⟩ | ⟨hParent, hWindow⟩ | ⟨_, _, _, hGrown⟩
  · rw [hSame]
    exact hLinked
  · rw [hWindow]
    exact ((BlockChainWindow.insert_linked_iff hLinked hParent).mpr (hFits hParent)).1
  · exact hGrown.linked

/-! ### Handled reorgs -/

/-- What a call reports is what the fork search reports on the window it leaves. -/
theorem onNewBlock_some {env : Surroundings} {c : ReorgCoordinator} {n : Nat}
    {hash parentHash : B256} {task : ReorgTask}
    (h : (c.onNewBlock env n hash parentHash).2 = .ok (some task)) :
    (c.onNewBlock env n hash parentHash).1.handleMismatch env n = .ok (some task) := by
  have hInsert : ∀ c' : ReorgCoordinator,
      (c'.insertOrFail env n hash parentHash).2 ≠ .ok (some task) := by
    intro c'
    unfold insertOrFail
    split <;> simp
  have hFill : ∀ (blocks : List Header) (c' c'' : ReorgCoordinator) (detection : Detection),
      fillGap env n c' blocks = (c'', some detection) → detection = .ok (some task) →
      c''.handleMismatch env n = .ok (some task) := by
    intro blocks
    induction blocks with
    | nil =>
      intro c' c'' detection hEq
      simp [fillGap] at hEq
    | cons b blocks ih =>
      intro c' c'' detection hEq hDetection
      rw [fillGap] at hEq
      split at hEq
      · cases hEq
        exact hDetection
      · split at hEq
        · cases hEq
          simp at hDetection
        · exact ih _ _ _ hEq hDetection
  unfold onNewBlock at h ⊢
  split
  · rename_i hValid
    rw [hValid] at h
    exact absurd h (hInsert c)
  · rename_i hMismatch
    rw [hMismatch] at h
    exact h
  · rename_i hNoPrevious
    rw [hNoPrevious] at h
    simp only at h
    split at h
    · exact absurd h (hInsert c)
    · rename_i latest hLatest
      split at h
      · exact absurd h (hInsert c)
      · rename_i hPositive
        simp only [if_neg hPositive]
        unfold onGap at h ⊢
        split
        · rename_i c' detection hEq
          rw [hEq] at h
          exact hFill _ _ _ _ hEq h
        · rename_i c' hEq
          rw [hEq] at h
          simp only at h
          unfold insertOrDetectReorg at h ⊢
          split
          · rename_i hMismatch
            rw [hMismatch] at h
            exact h
          · rename_i hValid
            split at h
            · rename_i hMismatch
              exact absurd hMismatch (hValid _ _)
            · exact absurd h (hInsert c')

end ReorgCoordinator

/-- The canonical list of a task fits the entries that it leaves in the window: it reaches every
height from the fork point on, and its block at the fork point names the stored block below. -/
structure RepairFits (canonical : List Header) (forkPoint : Nat) (w : BlockChainWindow) : Prop where
  covered : ∀ n e, forkPoint ≤ n → w.get n = some e → n ∈ canonical.map Header.number
  boundary : ∀ b ∈ canonical, ∀ n hash p, b.number = forkPoint → forkPoint = n + 1 →
    w.get n = some (hash, p) → b.parentHash = hash

/-- A window repaired with blocks of one chain stays linked where they fit it. -/
theorem repairWindow_linked {task : ReorgTask} {canonical : List Header} {w : BlockChainWindow}
    (hLinked : w.Linked) (hNodup : (canonical.map Header.number).Nodup)
    (hRange : ∀ b ∈ canonical, task.forkPoint ≤ b.number)
    (hChain : OneChain canonical)
    (hFits : canonical = [] ∨ RepairFits canonical task.forkPoint w) :
    (repairWindow task canonical w).Linked := by
  unfold repairWindow
  by_cases hNil : canonical = []
  · rw [if_neg (by simp [hNil])]
    refine hLinked.of_subset fun n e hGet => ?_
    rw [BlockChainWindow.get_removeFrom] at hGet
    split at hGet
    · exact hGet
    · cases hGet
  · rw [if_pos hNil]
    obtain ⟨hCovered, hBoundary⟩ := hFits.resolve_left hNil
    -- An entry of the repaired window is a canonical block, or lies below the fork point.
    have hCases : ∀ n e, (w.updateRange canonical).get n = some e →
        (∃ b ∈ canonical, b.number = n ∧ e = (b.hash, b.parentHash)) ∨
          n ∉ canonical.map Header.number ∧ n < task.forkPoint ∧ w.get n = some e := by
      intro n e hGet
      by_cases hMem : n ∈ canonical.map Header.number
      · obtain ⟨b, hb, rfl⟩ := List.mem_map.mp hMem
        rw [BlockChainWindow.get_updateRange_of_mem hNodup hb] at hGet
        exact .inl ⟨b, hb, rfl, (Option.some.inj hGet).symm⟩
      · rw [BlockChainWindow.get_updateRange_of_notMem hMem] at hGet
        refine .inr ⟨hMem, ?_, hGet⟩
        by_contra hHigh
        exact hMem (hCovered n e (not_lt.mp hHigh) hGet)
    intro n hash p hash' p' hLow hHigh
    rcases hCases n _ hLow with ⟨b, hb, hbn, hEq⟩ | ⟨-, hBelow, hOld⟩
    · cases hEq
      rcases hCases (n + 1) _ hHigh with ⟨b', hb', hbn', hEq'⟩ | ⟨-, hBelow', -⟩
      · cases hEq'
        exact hChain.parent hb hb' (by omega)
      · have := hRange b hb
        omega
    · rcases hCases (n + 1) _ hHigh with ⟨b', hb', hbn', hEq'⟩ | ⟨-, -, hOld'⟩
      · cases hEq'
        have := hRange b' hb'
        exact hBoundary b' hb' n hash p (by omega) (by omega) hOld
      · exact hLinked n hash p hash' p' hOld hOld'

/-- The blocks that a task selects come from one answer of the provider, when its pre-fetched blocks
do. -/
theorem selectCanonical_oneChain {task : ReorgTask} {provider : Option ChainProvider}
    (hFetched : OneChain task.canonicalBlocks)
    (hProvider : ∀ p ∈ provider, p.AnswersFromOneChain) :
    OneChain (task.selectCanonical provider) := by
  unfold ReorgTask.selectCanonical
  split
  · exact hFetched.sublist fun b hb => (List.mem_filter.mp hb).1
  · have hEmpty : OneChain ([] : List Header) := ⟨fun _ => 0, by simp⟩
    unfold ReorgTask.fetchRange
    cases hEq : provider with
    | none => exact hEmpty
    | some p =>
      simp only
      cases hAnswer : p.getBlockByNumberBatch
        (List.range' task.forkPoint (task.detectionPoint + 1 - task.forkPoint)) with
      | none => exact hEmpty
      | some blocks => exact hProvider p (hEq ▸ rfl) _ _ hAnswer

/-- A handled reorg leaves a linked window linked where the canonical list fits, whether or not the
handling succeeds. -/
theorem handleReorg_linked {env : Surroundings} {c : ReorgCoordinator} {task : ReorgTask}
    (hLinked : c.window.Linked) (hChain : OneChain (task.selectCanonical env.provider))
    (hFits : task.selectCanonical env.provider = [] ∨
      RepairFits (task.selectCanonical env.provider) task.forkPoint c.window) :
    (c.handleReorg env task).1.window.Linked := by
  unfold ReorgCoordinator.handleReorg
  cases hExec : task.execute env.postgres env.sessions env.provider c.store c.window with
  | mk m' rest =>
    obtain ⟨w', outcome⟩ := rest
    cases outcome with
    | none =>
      obtain ⟨-, rfl, db1, db2, -, -, hCommit⟩ := execute_ok hExec
      obtain ⟨-, hNodup, -, -⟩ := insertCorrected_ok_iff.mp hCommit.inserted
      exact repairWindow_linked hLinked hNodup (fun b hb => (selectCanonical_range hb).1) hChain
        hFits
    | some e =>
      have hSame : w' = c.window := by
        unfold ReorgTask.execute at hExec
        split at hExec
        · cases hExec
          rfl
        · simp only at hExec
          split at hExec
          · cases hExec
            rfl
          · simp at hExec
      simp only
      rw [hSame]
      exact hLinked

/-- The block at a fork point that the search finds names the stored block below it. -/
theorem findForkPoint_boundary {env : Surroundings} {c : ReorgCoordinator} {forkPoint : Nat}
    {blocks : List Header} (h : c.findForkPoint env = .ok (forkPoint, blocks))
    (hProvider : ∀ p ∈ env.provider, p.AnswersFromOneChain) :
    OneChain blocks ∧ ∀ (b : Header) (n : Nat) (hash p : B256), (blocks = [] ∨ b ∈ blocks) →
      b.number = forkPoint → forkPoint = n + 1 → c.window.get n = some (hash, p) →
        b.parentHash = hash := by
  unfold ReorgCoordinator.findForkPoint at h
  split at h
  · cases h
  · rename_i oldest rest hKeys
    split at h
    · cases h
    · rename_i provider hEnv
      split at h
      · cases h
      · rename_i answer hAnswer
        have hChain := hProvider provider hEnv _ _ hAnswer
        split at h
        · rename_i last hMatch
          cases h
          refine ⟨hChain, fun b n hash p hb hNumber hNext hGet => ?_⟩
          -- The highest match is listed with the hash that the window holds.
          obtain ⟨hash', p', hMem, hStored⟩ := BlockChainWindow.findForkPoint_some hMatch
          obtain ⟨b', hb', hEq⟩ := List.mem_map.mp hMem
          obtain ⟨rfl, rfl⟩ := Prod.mk.inj hEq
          have hn : n = b'.number := by omega
          rw [hn, hStored] at hGet
          cases hGet
          exact hChain.parent hb' (hb.resolve_left (List.ne_nil_of_mem hb')) (by omega)
        · cases h
          refine ⟨hChain, fun b n hash p hb hNumber hNext hGet => ?_⟩
          have hOldest := OrderedMap.head_le hKeys (OrderedMap.mem_keys.mpr ⟨_, hGet⟩)
          omega

/-- A reorg that has been handled has been committed, from the fork point that is reported. -/
theorem committedTask_of_handled {env : Surroundings} {c : ReorgCoordinator} {number : Nat}
    {hash parentHash : B256} {forkPoint : Nat}
    (h : (c.detectAndHandleReorg env number hash parentHash).2 = .ok (some forkPoint)) :
    ∃ task, c.committedTask env number hash parentHash = some task ∧ task.forkPoint = forkPoint := by
  unfold ReorgCoordinator.detectAndHandleReorg at h
  unfold ReorgCoordinator.committedTask
  split at h
  · cases h
  · cases h
  · rename_i c' task hDetected
    split at h
    · cases h
    · rename_i c'' hHandled
      cases h
      refine ⟨task, ?_, rfl⟩
      have hCommits : task.commits env.postgres env.sessions env.provider c'.store = true := by
        refine commits_of_execute_ok (w := c'.window) ?_
        exact congrArg Prod.snd hHandled
      simp only [hDetected]
      rw [if_pos hCommits]

/-- A call that commits a rollback reports its fork point, or fails after it. -/
theorem handled_of_committedTask {env : Surroundings} {c : ReorgCoordinator} {number : Nat}
    {hash parentHash : B256} {task : ReorgTask}
    (h : c.committedTask env number hash parentHash = some task) :
    (c.detectAndHandleReorg env number hash parentHash).2 = .ok (some task.forkPoint) ∨
      ∃ e, (c.detectAndHandleReorg env number hash parentHash).2 = .error e := by
  unfold ReorgCoordinator.committedTask at h
  unfold ReorgCoordinator.detectAndHandleReorg
  split at h
  · rename_i c' found hDetected
    obtain ⟨-, hTask⟩ := Option.ite_none_right_eq_some.mp h
    cases hTask
    simp only [hDetected]
    split
    · exact .inr ⟨_, rfl⟩
    · exact .inl rfl
  · cases h

/-- The parent check of a block, or of the first block of the gap below it, fails. -/
def ReorgCoordinator.SeesBreak (env : Surroundings) (c : ReorgCoordinator) (number : Nat)
    (parentHash : B256) : Prop :=
  (∃ stored, c.window.validateParent number parentHash = .mismatch stored parentHash) ∨
    c.window.validateParent number parentHash = .noPreviousBlock ∧ number ≠ 0 ∧
      ∃ latest b rest stored, c.window.latestBlock = some latest ∧
        ReorgCoordinator.fetchGap env latest number = b :: rest ∧
        c.window.validateParent b.number b.parentHash = .mismatch stored b.parentHash

/-- A break that is seen is reported, or fails. -/
theorem onNewBlock_ne_none_of_seesBreak {env : Surroundings} {c : ReorgCoordinator} {number : Nat}
    {parentHash : B256} (h : c.SeesBreak env number parentHash) (hash : B256) :
    (c.onNewBlock env number hash parentHash).2 ≠ .ok none := by
  unfold ReorgCoordinator.onNewBlock
  rcases h with ⟨stored, hMismatch⟩ | ⟨hNone, hNumber, latest, b, rest, stored, hLatest, hGap, hFirst⟩
  · rw [hMismatch]
    exact ReorgCoordinator.handleMismatch_ne_none env c number
  · rw [hNone]
    simp only [hLatest, if_neg hNumber, ReorgCoordinator.onGap, hGap, ReorgCoordinator.fillGap,
      hFirst]
    exact ReorgCoordinator.handleMismatch_ne_none env c number

/-- A reorg that is handled leaves no event of its range in the tables of the coordinator. -/
theorem handleReorg_deletes {env : Surroundings} {c c' : ReorgCoordinator} {task : ReorgTask}
    (h : c.handleReorg env task = (c', none)) {table : EventTableInfo}
    (hTable : table ∈ task.eventTables) {r : EventRow}
    (hr : r ∈ (c'.store.db.events table.fullName).rows) :
    ¬(r.network = task.network ∧ task.forkPoint ≤ r.blockNumber ∧
      r.blockNumber ≤ task.detectionPoint) := by
  have hDone : task.execute env.postgres env.sessions env.provider c.store c.window =
      (c'.store, c'.window, none) := by
    simp only [ReorgCoordinator.handleReorg, Prod.mk.injEq] at h
    obtain ⟨rfl, hNone⟩ := h
    rw [← hNone]
  obtain ⟨-, -, db1, db2, -, hAfter, hCommit⟩ := execute_ok hDone
  rw [hAfter.events, hCommit.events, if_pos (List.mem_map_of_mem hTable)] at hr
  exact (mem_deleteStaleEvents.mp hr).2

/-- No event table of a coordinator has an event of its network in a range of blocks. -/
def ReorgCoordinator.Cleared (c : ReorgCoordinator) (forkPoint detectionPoint : Nat) : Prop :=
  ∀ table ∈ c.eventTables, ∀ r ∈ (c.store.db.events table.fullName).rows,
    ¬(r.network = c.network ∧ forkPoint ≤ r.blockNumber ∧ r.blockNumber ≤ detectionPoint)

theorem handleReorg_cleared {env : Surroundings} {c c' : ReorgCoordinator} {task : ReorgTask}
    (h : c.handleReorg env task = (c', none)) (hTables : task.eventTables = c.eventTables)
    (hNetwork : task.network = c.network) : c'.Cleared task.forkPoint task.detectionPoint := by
  have hSame : c'.eventTables = c.eventTables ∧ c'.network = c.network := by
    unfold ReorgCoordinator.handleReorg at h
    rw [← (Prod.mk.inj h).1]
    exact ⟨rfl, rfl⟩
  intro table hTable r hr
  rw [hSame.2, ← hNetwork]
  refine handleReorg_deletes h ?_ hr
  rw [hTables, ← hSame.1]
  exact hTable

/-- A detection that is handled clears the range from the fork point to the block. -/
theorem detectAndHandleReorg_cleared {env : Surroundings} {c c' : ReorgCoordinator} {number : Nat}
    {hash parentHash : B256} {forkPoint : Nat}
    (h : c.detectAndHandleReorg env number hash parentHash = (c', .ok (some forkPoint))) :
    c'.Cleared forkPoint number := by
  unfold ReorgCoordinator.detectAndHandleReorg at h
  split at h
  · cases h
  · cases h
  rename_i c1 task hDetected
  split at h
  · cases h
  rename_i c2 hHandled
  cases h
  have hTask := ReorgCoordinator.onNewBlock_some (show (c.onNewBlock env number hash parentHash).2 =
    .ok (some task) by rw [hDetected])
  rw [hDetected] at hTask
  simp only [ReorgCoordinator.handleMismatch] at hTask
  split at hTask
  · cases hTask
  cases hTask
  exact handleReorg_cleared hHandled rfl rfl

/-- A block that is handled without a reorg has been reported as none. -/
theorem onNewBlock_none_of_clear {env : Surroundings} {c c' : ReorgCoordinator} {number : Nat}
    {hash parentHash : B256}
    (h : c.detectAndHandleReorg env number hash parentHash = (c', .ok none)) :
    (c.onNewBlock env number hash parentHash).2 = .ok none := by
  unfold ReorgCoordinator.detectAndHandleReorg at h
  split at h
  · cases h
  · rename_i c1 hClear
    rw [hClear]
  · split at h
    · cases h
    · cases h

/-- A task of the startup validation is about the tables of the coordinator. -/
theorem validateOnStartup_task {env : Surroundings} {c : ReorgCoordinator} {task : ReorgTask}
    (h : c.validateOnStartup env = .ok (some task)) :
    task.eventTables = c.eventTables ∧ task.network = c.network := by
  unfold ReorgCoordinator.validateOnStartup at h
  split at h
  · cases h
  split at h
  · cases h
  split at h
  · cases h
  simp only at h
  split at h
  · split at h
    · cases h
    · cases h
      exact ⟨rfl, rfl⟩
  · cases h
    exact ⟨rfl, rfl⟩

end Rindexer.Reorg
