import Rindexer.Reorg.Coordinator
import Mathlib.Order.Bounds.Basic

/-! Where a reorg is found to start: the search over the answer of the provider, against the chain that
the provider sees and the chain that the window was filled from. -/

namespace Rindexer.Reorg

open Rindexer.Lib

/-- A chain up to its tip.  The hash of a block determines the hash of its parent. -/
structure HashChain (parentOf : B256 → B256) where
  hashAt : Nat → B256
  tip : Nat
  linked : ∀ n < tip, parentOf (hashAt (n + 1)) = hashAt n

namespace HashChain

variable {parentOf : B256 → B256}

def Has (chain : HashChain parentOf) (n : Nat) (hash : B256) : Prop :=
  n ≤ chain.tip ∧ chain.hashAt n = hash

/-- Two chains that share a block share the blocks below it. -/
theorem agree_below {a b : HashChain parentOf} {n m : Nat} (h : a.hashAt m = b.hashAt m)
    (hn : n ≤ m) (ha : m ≤ a.tip) (hb : m ≤ b.tip) : a.hashAt n = b.hashAt n := by
  induction m with
  | zero => rwa [Nat.le_zero.mp hn]
  | succ m ih =>
    rcases Nat.lt_or_eq_of_le hn with hLess | rfl
    · apply ih
      · rw [← a.linked m (by omega), ← b.linked m (by omega), h]
      · omega
      · omega
      · omega
    · exact h

/-- The header of a height. -/
def header (chain : HashChain parentOf) (n : Nat) : Header where
  number := n
  hash := chain.hashAt n
  parentHash := parentOf (chain.hashAt n)

end HashChain

namespace BlockChainWindow

def Stored (w : BlockChainWindow) (n : Nat) : Prop := n ∈ w.blockNumbers

/-- The stored blocks are blocks of one chain. -/
def OnChain {parentOf : B256 → B256} (w : BlockChainWindow) (chain : HashChain parentOf) : Prop :=
  ∀ n hash p, w.get n = some (hash, p) → chain.Has n hash

theorem Stored.get {w : BlockChainWindow} {n : Nat} (h : w.Stored n) :
    ∃ hash p, w.get n = some (hash, p) := by
  obtain ⟨⟨hash, p⟩, hGet⟩ := OrderedMap.mem_keys.mp h
  exact ⟨hash, p, hGet⟩

theorem blockNumbers_eq_cons {w : BlockChainWindow} {oldest : Nat} (h : w.oldestBlock = some oldest) :
    ∃ rest, w.blockNumbers = oldest :: rest := by
  obtain ⟨entry, hHead, rfl⟩ := Option.map_eq_some_iff.mp h
  obtain ⟨rest, hEntries⟩ := List.head?_eq_some_iff.mp hHead
  refine ⟨rest.map Prod.fst, ?_⟩
  rw [blockNumbers, OrderedMap.keys, hEntries, List.map_cons]

theorem Stored.oldest_le {w : BlockChainWindow} {oldest n : Nat} (h : w.Stored n)
    (hOldest : w.oldestBlock = some oldest) : oldest ≤ n := by
  obtain ⟨rest, hKeys⟩ := blockNumbers_eq_cons hOldest
  exact OrderedMap.head_le hKeys h

theorem Stored.le_latest {w : BlockChainWindow} {latest n : Nat} (h : w.Stored n)
    (hLatest : w.latestBlock = some latest) : n ≤ latest := OrderedMap.le_last? hLatest h

end BlockChainWindow

/-- A height of the answer whose hash is the stored one. -/
def Confirmed (w : BlockChainWindow) (blocks : List Header) (n : Nat) : Prop :=
  ∃ b ∈ blocks, b.number = n ∧ ∃ p, w.get n = some (b.hash, p)

def forkPointOf (w : BlockChainWindow) (oldest : Nat) (blocks : List Header) : Nat :=
  match w.findForkPoint (blocks.map fun b => (b.number, b.hash)) with
  | some lastMatch => lastMatch + 1
  | none => oldest

section Search

variable {w : BlockChainWindow} {blocks : List Header}

theorem confirmed_iff {n : Nat} : Confirmed w blocks n ↔
    ∃ e ∈ blocks.map (fun b => (b.number, b.hash)), e.1 = n ∧ ∃ p, w.get e.1 = some (e.2, p) := by
  constructor
  · rintro ⟨b, hb, rfl, h⟩
    exact ⟨_, List.mem_map_of_mem hb, rfl, h⟩
  · rintro ⟨e, he, rfl, h⟩
    obtain ⟨b, hb, rfl⟩ := List.mem_map.mp he
    exact ⟨b, hb, rfl, h⟩

theorem confirmed_stored {n : Nat} (hn : Confirmed w blocks n) : w.Stored n := by
  obtain ⟨b, -, -, p, hGet⟩ := hn
  exact OrderedMap.mem_keys.mpr ⟨_, hGet⟩

theorem confirmed_answered {n : Nat} (hn : Confirmed w blocks n) :
    n ∈ blocks.map Header.number := by
  obtain ⟨b, hb, rfl, -⟩ := hn
  exact List.mem_map_of_mem hb

theorem findForkPoint_cons (first : Nat × B256) (rest : List (Nat × B256)) :
    w.findForkPoint (first :: rest) = (w.findForkPoint rest).or (w.findForkPoint [first]) := by
  simp only [BlockChainWindow.findForkPoint, List.reverse_cons, List.find?_append, Option.map_or,
    List.reverse_nil, List.nil_append]

theorem findForkPoint_single {e : Nat × B256} {p : B256} (h : w.get e.1 = some (e.2, p)) :
    w.findForkPoint [e] = some e.1 := by
  simp [BlockChainWindow.findForkPoint, h]

/-- The search finds the highest height that is confirmed. -/
theorem findForkPoint_highest (hAscending : (blocks.map Header.number).Pairwise (· < ·)) {n : Nat}
    (hn : Confirmed w blocks n) :
    ∃ m, w.findForkPoint (blocks.map fun b => (b.number, b.hash)) = some m ∧ n ≤ m := by
  obtain ⟨e, he, rfl, p, hGet⟩ := confirmed_iff.mp hn
  have hKeys : ((blocks.map fun b => (b.number, b.hash)).map Prod.fst).Pairwise (· < ·) := by
    rw [List.map_map]
    exact hAscending
  generalize blocks.map (fun b => (b.number, b.hash)) = listed at he hKeys ⊢
  induction listed with
  | nil => cases he
  | cons first rest ih =>
    rw [findForkPoint_cons]
    rw [List.map_cons, List.pairwise_cons] at hKeys
    rcases List.mem_cons.mp he with rfl | he
    · cases hRest : w.findForkPoint rest with
      | none => exact ⟨e.1, findForkPoint_single hGet, Nat.le_refl _⟩
      | some later =>
        obtain ⟨hash, -, hLater, -⟩ := BlockChainWindow.findForkPoint_some hRest
        exact ⟨later, rfl, (hKeys.1 later (List.mem_map_of_mem hLater)).le⟩
    · obtain ⟨m, hFind, hle⟩ := ih he hKeys.2
      exact ⟨m, by rw [hFind]; rfl, hle⟩

theorem findForkPoint_confirmed {m : Nat}
    (h : w.findForkPoint (blocks.map fun b => (b.number, b.hash)) = some m) :
    Confirmed w blocks m := by
  obtain ⟨hash, p, hMem, hGet⟩ := BlockChainWindow.findForkPoint_some h
  exact confirmed_iff.mpr ⟨_, hMem, rfl, p, hGet⟩

/-- One past the highest confirmed height, or the oldest height. -/
theorem forkPointOf_cases (oldest : Nat) (hAscending : (blocks.map Header.number).Pairwise (· < ·)) :
    (∃ m, Confirmed w blocks m ∧ forkPointOf w oldest blocks = m + 1 ∧
        ∀ n, Confirmed w blocks n → n ≤ m) ∨
      forkPointOf w oldest blocks = oldest ∧ ∀ n, ¬ Confirmed w blocks n := by
  rw [forkPointOf]
  cases hFind : w.findForkPoint (blocks.map fun b => (b.number, b.hash)) with
  | some m =>
    refine Or.inl ⟨m, findForkPoint_confirmed hFind, rfl, fun n hn => ?_⟩
    obtain ⟨m', hFind', hle⟩ := findForkPoint_highest hAscending hn
    rw [hFind] at hFind'
    cases hFind'
    exact hle
  | none =>
    refine Or.inr ⟨rfl, fun n hn => ?_⟩
    obtain ⟨m, hFind', -⟩ := findForkPoint_highest hAscending hn
    rw [hFind] at hFind'
    cases hFind'

end Search

/-- What a call finds out: the window with its first and last heights, and what the provider answers
for its heights. -/
structure Asked {parentOf : B256 → B256} (env : Surroundings) (c : ReorgCoordinator)
    (stored canonical : HashChain parentOf) (oldest latest : Nat) (blocks : List Header) : Prop where
  onChain : c.window.OnChain stored
  oldest : c.window.oldestBlock = some oldest
  latest : c.window.latestBlock = some latest
  answered : ∃ provider, env.provider = some provider ∧
    provider.getBlockByNumberBatch c.window.blockNumbers = some blocks
  canonical : ∀ b ∈ blocks, canonical.Has b.number b.hash

namespace Asked

variable {parentOf : B256 → B256} {env : Surroundings} {c : ReorgCoordinator}
  {stored canonical : HashChain parentOf} {oldest latest : Nat} {blocks : List Header}

theorem ascending (h : Asked env c stored canonical oldest latest blocks) :
    (blocks.map Header.number).Pairwise (· < ·) := by
  obtain ⟨provider, -, hAnswer⟩ := h.answered
  exact (OrderedMap.keys_ascending c.window.entries).sublist (provider.requested hAnswer)

/-- An answered height is confirmed exactly if its stored block is on the canonical chain. -/
theorem confirmed_iff (h : Asked env c stored canonical oldest latest blocks) {n : Nat}
    (hStored : c.window.Stored n) (hAnswered : n ∈ blocks.map Header.number) :
    Confirmed c.window blocks n ↔ canonical.Has n (stored.hashAt n) := by
  obtain ⟨hash, p, hGet⟩ := hStored.get
  have hHash := (h.onChain n hash p hGet).2
  constructor
  · rintro ⟨b, hb, rfl, p', hGet'⟩
    rw [hGet] at hGet'
    cases hGet'
    rw [hHash]
    exact h.canonical b hb
  · intro hHas
    obtain ⟨b, hb, rfl⟩ := List.mem_map.mp hAnswered
    refine ⟨b, hb, rfl, p, ?_⟩
    rw [hGet, (h.canonical b hb).2.symm, hHas.2, hHash]

/-- Stored blocks at and below a confirmed height are on the canonical chain. -/
theorem has_of_le_confirmed (h : Asked env c stored canonical oldest latest blocks) {n m : Nat}
    (hm : Confirmed c.window blocks m) (hle : n ≤ m) : canonical.Has n (stored.hashAt n) := by
  have hStored := confirmed_stored hm
  obtain ⟨hash, p, hGet⟩ := hStored.get
  have hHas := (h.confirmed_iff hStored (confirmed_answered hm)).mp hm
  refine ⟨hle.trans hHas.1, ?_⟩
  exact HashChain.agree_below hHas.2 hle hHas.1 (h.onChain m hash p hGet).1

theorem findForkPoint (h : Asked env c stored canonical oldest latest blocks) :
    c.findForkPoint env = .ok (forkPointOf c.window oldest blocks, blocks) := by
  obtain ⟨provider, hProvider, hAnswer⟩ := h.answered
  obtain ⟨rest, hKeys⟩ := BlockChainWindow.blockNumbers_eq_cons h.oldest
  rw [hKeys] at hAnswer
  simp only [ReorgCoordinator.findForkPoint, hKeys, hProvider, hAnswer, forkPointOf]
  cases c.window.findForkPoint (blocks.map fun b => (b.number, b.hash)) with
  | some lastMatch => rfl
  | none => rfl

theorem validateOnStartup (h : Asked env c stored canonical oldest latest blocks) :
    c.validateOnStartup env =
      if latest < forkPointOf c.window oldest blocks then .ok none
      else .ok (some (c.rangeTask (forkPointOf c.window oldest blocks) latest)) := by
  obtain ⟨provider, hProvider, hAnswer⟩ := h.answered
  obtain ⟨rest, hKeys⟩ := BlockChainWindow.blockNumbers_eq_cons h.oldest
  have hOldest : oldest ≤ latest :=
    BlockChainWindow.Stored.le_latest (show oldest ∈ c.window.blockNumbers by
      rw [hKeys]
      exact List.mem_cons_self) h.latest
  rw [hKeys] at hAnswer
  simp only [ReorgCoordinator.validateOnStartup, hKeys, hProvider, hAnswer, forkPointOf, h.latest,
    Option.getD_some]
  rcases Option.eq_none_or_eq_some
    (c.window.findForkPoint (blocks.map fun b => (b.number, b.hash))) with hFind | ⟨m, hFind⟩
  · simp only [hFind]
    rw [if_neg (Nat.not_lt.mpr hOldest)]
    rfl
  · simp only [hFind, Nat.lt_succ_iff]
    rfl

end Asked

/-- What is found of the start of a reorg. -/
structure ForkPointFound {parentOf : B256 → B256} (w : BlockChainWindow)
    (stored canonical : HashChain parentOf) (oldest latest : Nat) (blocks : List Header)
    (forkPoint : Nat) : Prop where
  /-- Stored blocks below it are on the canonical chain. -/
  below : ∀ n, w.Stored n → n < forkPoint → canonical.Has n (stored.hashAt n)
  /-- Answered blocks from it on are not. -/
  above : ∀ n, w.Stored n → forkPoint ≤ n → n ∈ blocks.map Header.number →
    ¬ canonical.Has n (stored.hashAt n)
  exact : ∀ d, IsLeast {n | w.Stored n ∧ ¬ canonical.Has n (stored.hashAt n)} d → forkPoint ≤ d ∧
    (forkPoint = d ↔ d = oldest ∨
      ∃ m, d = m + 1 ∧ w.Stored m ∧ m ∈ blocks.map Header.number)
  unmatched : (∀ n, w.Stored n → n ∈ blocks.map Header.number →
    ¬ canonical.Has n (stored.hashAt n)) → forkPoint = oldest
  /-- It is at most a height above a stored one unless a stored block from that height on is
  confirmed. -/
  detection : ∀ number, (∃ prev < number, w.Stored prev) → (forkPoint ≤ number ↔
    ∀ n, number ≤ n → w.Stored n → n ∈ blocks.map Header.number →
      ¬ canonical.Has n (stored.hashAt n))
  latest : forkPoint ≤ latest + 1

theorem Asked.found {parentOf : B256 → B256} {env : Surroundings} {c : ReorgCoordinator}
    {stored canonical : HashChain parentOf} {oldest latest : Nat} {blocks : List Header}
    (h : Asked env c stored canonical oldest latest blocks) :
    ForkPointFound c.window stored canonical oldest latest blocks
      (forkPointOf c.window oldest blocks) := by
  obtain ⟨rest, hKeys⟩ := BlockChainWindow.blockNumbers_eq_cons h.oldest
  have hOldest : c.window.Stored oldest := by
    rw [BlockChainWindow.Stored, hKeys]
    exact List.mem_cons_self
  rcases forkPointOf_cases oldest h.ascending with ⟨m, hm, hFork, hHighest⟩ | ⟨hFork, hNone⟩
  · have hStored := confirmed_stored hm
    have hAbove : ∀ n, c.window.Stored n → m < n → n ∈ blocks.map Header.number →
        ¬ canonical.Has n (stored.hashAt n) := by
      intro n hn hLess hAnswered hHas
      have := hHighest n ((h.confirmed_iff hn hAnswered).mpr hHas)
      omega
    rw [hFork]
    constructor
    · exact fun n _ hn => h.has_of_le_confirmed hm (by omega)
    · exact fun n hn hle => hAbove n hn hle
    · rintro d ⟨⟨hdStored, hdNot⟩, hLeast⟩
      have hLess : m < d := by
        by_contra hle
        exact hdNot (h.has_of_le_confirmed hm (by omega))
      refine ⟨hLess, ?_, ?_⟩
      · rintro rfl
        exact Or.inr ⟨m, rfl, hStored, confirmed_answered hm⟩
      · rintro (rfl | ⟨k, rfl, hk, hAnswered⟩)
        · have := hStored.oldest_le h.oldest
          omega
        · have hHas : canonical.Has k (stored.hashAt k) := by
            by_contra hNot
            have := hLeast ⟨hk, hNot⟩
            omega
          have := hHighest k ((h.confirmed_iff hk hAnswered).mpr hHas)
          omega
    · intro hNever
      exact absurd ((h.confirmed_iff hStored (confirmed_answered hm)).mp hm)
        (hNever m hStored (confirmed_answered hm))
    · intro number _
      constructor
      · exact fun hle n hn hnStored => hAbove n hnStored (by omega)
      · intro hNever
        by_contra hle
        exact hNever m (by omega) hStored (confirmed_answered hm)
          ((h.confirmed_iff hStored (confirmed_answered hm)).mp hm)
    · have := hStored.le_latest h.latest
      omega
  · have hNever : ∀ n, c.window.Stored n → n ∈ blocks.map Header.number →
        ¬ canonical.Has n (stored.hashAt n) :=
      fun n hn hAnswered hHas => hNone n ((h.confirmed_iff hn hAnswered).mpr hHas)
    rw [hFork]
    constructor
    · intro n hn hLess
      have := hn.oldest_le h.oldest
      omega
    · exact fun n hn _ => hNever n hn
    · rintro d ⟨⟨hdStored, -⟩, hLeast⟩
      have hle := hdStored.oldest_le h.oldest
      refine ⟨hle, fun hEq => Or.inl hEq.symm, ?_⟩
      rintro (rfl | ⟨k, rfl, hk, hAnswered⟩)
      · rfl
      · have hNot := hNever k hk hAnswered
        have := hLeast ⟨hk, hNot⟩
        omega
    · exact fun _ => rfl
    · rintro number ⟨prev, hPrev, hPrevStored⟩
      refine ⟨fun _ n _ hn => hNever n hn, fun _ => ?_⟩
      have := hPrevStored.oldest_le h.oldest
      omega
    · have := hOldest.le_latest h.latest
      omega

/-- The handling of a mismatch and the validation at startup find the same start of a reorg: every
stored block below it is canonical, and no answered one from it on. -/
theorem fork_point_found {parentOf : B256 → B256} {env : Surroundings} {c : ReorgCoordinator}
    {stored canonical : HashChain parentOf} {oldest latest : Nat} {blocks : List Header}
    (h : Asked env c stored canonical oldest latest blocks) :
    ∃ forkPoint, ForkPointFound c.window stored canonical oldest latest blocks forkPoint ∧
      (∀ number, c.handleMismatch env number =
        .ok (some { c.rangeTask forkPoint number with canonicalBlocks := blocks })) ∧
      c.validateOnStartup env =
        if latest < forkPoint then .ok none else .ok (some (c.rangeTask forkPoint latest)) := by
  refine ⟨_, h.found, fun number => ?_, h.validateOnStartup⟩
  rw [ReorgCoordinator.handleMismatch, h.findForkPoint]
  rfl

/-! A window of blocks 1 to 3, of which the provider has another block 3 and leaves out block 2. -/

def halved (hash : B256) : B256 := hash >>> 1

def oldChain : HashChain halved where
  hashAt n := [1, 2, 4, 8].getD n 0
  tip := 3
  linked := by decide

def newChain : HashChain halved where
  hashAt n := [1, 2, 4, 9].getD n 0
  tip := 3
  linked := by decide

def oneLeftOut : ChainProvider where
  getBlockByNumberBatch numbers := some ((numbers.filter (· ≠ 2)).map newChain.header)
  requested := by
    rintro numbers blocks h
    cases h
    rw [List.map_map, show Header.number ∘ newChain.header = id from rfl, List.map_id]
    exact List.filter_sublist

def threeBlocks : ReorgCoordinator :=
  { ReorgCoordinator.fresh "mainnet" with
    window := (((⟨∅, 100, hundred_pos⟩ : BlockChainWindow).insert 1 2 1).insert 2 4 2).insert 3 8 4 }

def withOneLeftOut : Surroundings := { Surroundings.calm with provider := some oneLeftOut }

theorem threeBlocks_asked : Asked withOneLeftOut threeBlocks oldChain newChain 1 3
    [newChain.header 1, newChain.header 3] where
  onChain := by
    intro n hash p hGet
    have hMem := OrderedMap.get?_eq_some_iff.mp hGet
    have hEntries : threeBlocks.window.entries.entries = [(1, 2, 1), (2, 4, 2), (3, 8, 4)] := by
      decide
    rw [hEntries] at hMem
    simp only [List.mem_cons, Prod.mk.injEq, List.not_mem_nil, or_false] at hMem
    rcases hMem with ⟨rfl, rfl, rfl⟩ | ⟨rfl, rfl, rfl⟩ | ⟨rfl, rfl, rfl⟩
    · exact ⟨by decide, by decide⟩
    · exact ⟨by decide, by decide⟩
    · exact ⟨by decide, by decide⟩
  oldest := by decide
  latest := by decide
  answered := ⟨oneLeftOut, rfl, by decide⟩
  canonical := by
    intro b hb
    simp only [List.mem_cons, List.not_mem_nil, or_false] at hb
    rcases hb with rfl | rfl
    · exact ⟨by decide, by decide⟩
    · exact ⟨by decide, by decide⟩

theorem fork_point_found_one_left_out :
    ∃ forkPoint, ForkPointFound threeBlocks.window oldChain newChain 1 3
        [newChain.header 1, newChain.header 3] forkPoint ∧
      (∀ number, threeBlocks.handleMismatch withOneLeftOut number =
        .ok (some { threeBlocks.rangeTask forkPoint number with
          canonicalBlocks := [newChain.header 1, newChain.header 3] })) ∧
      threeBlocks.validateOnStartup withOneLeftOut =
        if 3 < forkPoint then .ok none else .ok (some (threeBlocks.rangeTask forkPoint 3)) :=
  fork_point_found threeBlocks_asked

/-- A height that the provider leaves out is taken for reorged. -/
theorem left_out_height_reorged :
    ¬ ∀ (parentOf : B256 → B256) (stored canonical : HashChain parentOf) (env : Surroundings)
      (c : ReorgCoordinator) (oldest latest : Nat) (blocks : List Header),
      Asked env c stored canonical oldest latest blocks →
        ∀ task, c.validateOnStartup env = .ok (some task) →
          IsLeast {n | c.window.Stored n ∧ ¬ canonical.Has n (stored.hashAt n)} task.forkPoint := by
  intro h
  have hTask : threeBlocks.validateOnStartup withOneLeftOut =
      .ok (some (threeBlocks.rangeTask 2 3)) := by rfl
  obtain ⟨⟨-, hDiffers⟩, -⟩ := h _ _ _ _ _ _ _ _ threeBlocks_asked _ hTask
  exact hDiffers ⟨by decide, by decide⟩

end Rindexer.Reorg
