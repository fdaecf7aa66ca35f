import Rindexer.Factory.Recording

/-! The addresses of a factory filter over reorgs: factory events are processed and rolled back, and the
children are fetched with the addresses that are known. -/

namespace Rindexer.Factory

open Rindexer.Lib

/-- A factory event: its block, and a child that it names. -/
structure Creation (Address : Type) where
  blockNumber : Nat
  child : KnownFactoryDeployedAddress Address
deriving DecidableEq, Repr

/-- The store and the cache of a factory filter.  No code reads `processed`: the factory events that
were processed and not rolled back. -/
structure FactoryChildren (Address : Type) where
  stored : Option (List (KnownFactoryDeployedAddress Address))
  cache : Option (List Address)
  processed : List (Creation Address)

inductive ChildrenAct (Address : Type)
  /-- A batch of factory events, and their update. -/
  | process (batch : List (Creation Address))
  /-- Child events are fetched. -/
  | fetch
  | rollback (forkPoint : Nat)
  | restart

section Children

variable {Address : Type} [DecidableEq Address]

namespace FactoryChildren

def start (storage : Storage) : FactoryChildren Address := ⟨storage.new, none, []⟩

/-- `contract_addresses` of a factory filter: the cache, or what the store has. -/
def contractAddresses (s : FactoryChildren Address) : Option (List Address) :=
  s.cache.or (knownDeployed s.stored)

def process (storage : Storage) (emptyInsert : Bool) (s : FactoryChildren Address)
    (batch : List (Creation Address)) : FactoryChildren Address :=
  match storage.insert emptyInsert s.stored (batch.map Creation.child).dedup with
  | .error _ => { s with cache := none }
  | .ok stored => ⟨stored, none, s.processed ++ batch⟩

def fetch (s : FactoryChildren Address) : FactoryChildren Address :=
  { s with cache := s.contractAddresses }

/-- The rollback deletes events, and knows neither the table of the children nor the cache. -/
def rollback (s : FactoryChildren Address) (forkPoint : Nat) : FactoryChildren Address :=
  { s with processed := s.processed.filter fun c => c.blockNumber < forkPoint }

def step (storage : Storage) (emptyInsert : Bool) (s : FactoryChildren Address) :
    ChildrenAct Address → Option (FactoryChildren Address)
  | .process batch => some (s.process storage emptyInsert batch)
  | .fetch => some s.fetch
  | .rollback forkPoint => some (s.rollback forkPoint)
  | .restart => some { s with cache := none }

/-- The children of the canonical factory events that were processed. -/
def canonical (s : FactoryChildren Address) : List Address :=
  s.processed.map fun c => c.child.address

end FactoryChildren

/-- `JsonRpcCachedProvider::get_logs` over the logs of the range: without addresses the request has no
constraint on them. -/
def getLogs {Log : Type} (address : Log → Address) (addresses : Option (List Address))
    (logs : List Log) : List Log :=
  match addresses with
  | some [] => []
  | some addresses => logs.filter fun log => address log ∈ addresses
  | none => logs

/-- Child events are fetched with the canonical children, and so the logs of others never are. -/
structure FetchesCanonical (s : FactoryChildren Address) : Prop where
  addresses : ∃ known ∈ s.contractAddresses, ∀ a, a ∈ known ↔ a ∈ s.canonical
  logs : ∀ logs : List (Address × String), getLogs Prod.fst s.contractAddresses logs =
    logs.filter fun log => log.1 ∈ s.canonical

/-- A rollback takes back no creation of a child but those that an earlier event repeats. -/
def SparesChildren (s : FactoryChildren Address) : ChildrenAct Address → Prop
  | .rollback forkPoint => ∀ c ∈ s.processed, forkPoint ≤ c.blockNumber →
      ∃ earlier ∈ s.processed, earlier.blockNumber < forkPoint ∧
        earlier.child.address = c.child.address
  | _ => True

/-! ### What the store and the cache know -/

/-- The cache has what the store has, and the store exists. -/
structure CacheInv (s : FactoryChildren Address) : Prop where
  exists_stored : ∃ rows, s.stored = some rows
  cache : ∀ cache ∈ s.cache, ∀ a, a ∈ cache ↔ ∃ x ∈ s.stored.getD [], x.address = a

variable {storage : Storage} {emptyInsert : Bool} {s s' : FactoryChildren Address}

/-- What a fetch uses is what the store has. -/
theorem CacheInv.contractAddresses (h : CacheInv s) : ∃ known, s.contractAddresses = some known ∧
    ∀ a, a ∈ known ↔ ∃ x ∈ s.stored.getD [], x.address = a := by
  cases hCache : s.cache with
  | some cache => exact ⟨cache, by simp [FactoryChildren.contractAddresses, hCache],
      h.cache cache hCache⟩
  | none =>
    obtain ⟨rows, hRows⟩ := h.exists_stored
    refine ⟨(rows.map KnownFactoryDeployedAddress.address).dedup, ?_, ?_⟩
    · simp [FactoryChildren.contractAddresses, hCache, hRows, knownDeployed]
    · simp [hRows]

theorem getLogs_some {Log : Type} (address : Log → Address) (known : List Address)
    (logs : List Log) :
    getLogs address (some known) logs = logs.filter fun log => address log ∈ known := by
  cases known with
  | nil => simp [getLogs]
  | cons a known => rfl

/-- A fetch is right exactly if the store has the canonical children. -/
theorem CacheInv.fetches_iff (h : CacheInv s) :
    FetchesCanonical s ↔ ∀ a, (∃ x ∈ s.stored.getD [], x.address = a) ↔ a ∈ s.canonical := by
  obtain ⟨known, hKnown, hStored⟩ := h.contractAddresses
  constructor
  · rintro ⟨⟨known', hKnown', hCanonical⟩, -⟩ a
    cases hKnown.symm.trans hKnown'
    rw [← hStored, hCanonical]
  · intro hCanonical
    have hSame : ∀ a, a ∈ known ↔ a ∈ s.canonical := fun a => (hStored a).trans (hCanonical a)
    refine ⟨⟨known, hKnown, hSame⟩, fun logs => ?_⟩
    rw [hKnown, getLogs_some]
    simp only [hSame]

theorem insert_exists {addresses rows : List (KnownFactoryDeployedAddress Address)}
    {stored' : Option (List (KnownFactoryDeployedAddress Address))}
    (h : storage.insert emptyInsert (some rows) addresses = .ok stored') :
    ∃ rows', stored' = some rows' := by
  cases storage with
  | postgres =>
    simp only [Storage.insert] at h
    split at h
    case isTrue => exact ⟨rows, (Except.ok.inj h).symm⟩
    case isFalse =>
      split at h
      case isTrue => cases h
      case isFalse => exact ⟨_, (Except.ok.inj h).symm⟩
  | clickhouse =>
    simp only [Storage.insert] at h
    split at h
    case isTrue => cases h
    case isFalse => exact ⟨_, (Except.ok.inj h).symm⟩
  | csv => exact ⟨_, (Except.ok.inj h).symm⟩

/-- A batch is processed and its children are added to the store, or its update fails. -/
theorem process_cases (batch : List (Creation Address)) :
    (s.process storage emptyInsert batch = { s with cache := none }) ∨
      ∃ stored, storage.insert emptyInsert s.stored (batch.map Creation.child).dedup = .ok stored ∧
        s.process storage emptyInsert batch = ⟨stored, none, s.processed ++ batch⟩ := by
  unfold FactoryChildren.process
  split
  case h_1 => exact Or.inl rfl
  case h_2 stored hInsert => exact Or.inr ⟨stored, hInsert, rfl⟩

theorem step_cacheInv {act : ChildrenAct Address} (hInv : CacheInv s)
    (h : s.step storage emptyInsert act = some s') : CacheInv s' := by
  cases act with
  | process batch =>
    cases h
    rcases @process_cases Address _ storage emptyInsert s batch with hEq | ⟨stored, hInsert, hEq⟩
    · rw [hEq]
      exact ⟨hInv.exists_stored, fun _ hCache => nomatch hCache⟩
    · rw [hEq]
      obtain ⟨rows, hRows⟩ := hInv.exists_stored
      rw [hRows] at hInsert
      exact ⟨insert_exists hInsert, fun _ hCache => nomatch hCache⟩
  | fetch =>
    cases h
    obtain ⟨known, hKnown, hStored⟩ := hInv.contractAddresses
    refine ⟨hInv.exists_stored, fun cache hCache => ?_⟩
    cases hKnown.symm.trans hCache
    exact hStored
  | rollback forkPoint =>
    cases h
    exact ⟨hInv.exists_stored, hInv.cache⟩
  | restart =>
    cases h
    exact ⟨hInv.exists_stored, fun _ hCache => nomatch hCache⟩

/-- A step keeps the fetches right exactly if it spares the children. -/
theorem step_fetches_iff {act : ChildrenAct Address} (hInv : CacheInv s) (hRight : FetchesCanonical s)
    (h : s.step storage emptyInsert act = some s') :
    FetchesCanonical s' ↔ SparesChildren s act := by
  have hNow := hInv.fetches_iff.mp hRight
  rw [(step_cacheInv hInv h).fetches_iff]
  cases act with
  | process batch =>
    cases h
    refine ⟨fun _ => trivial, fun _ a => ?_⟩
    rcases @process_cases Address _ storage emptyInsert s batch with hEq | ⟨stored, hInsert, hEq⟩
    · rw [hEq]
      exact hNow a
    · rw [hEq]
      have hMem := mem_of_insert hInsert
      have hCanonical : a ∈ FactoryChildren.canonical ⟨stored, none, s.processed ++ batch⟩ ↔
          a ∈ s.canonical ∨ ∃ c ∈ batch, c.child.address = a := by
        simp [FactoryChildren.canonical]
      rw [hCanonical, ← hNow]
      simp only [hMem, List.mem_dedup, List.mem_map]
      constructor
      · rintro ⟨x, hOld | ⟨c, hc, rfl⟩, rfl⟩
        · exact Or.inl ⟨x, hOld, rfl⟩
        · exact Or.inr ⟨c, hc, rfl⟩
      · rintro (⟨x, hOld, rfl⟩ | ⟨c, hc, rfl⟩)
        · exact ⟨x, Or.inl hOld, rfl⟩
        · exact ⟨c.child, Or.inr ⟨c, hc, rfl⟩, rfl⟩
  | fetch =>
    cases h
    exact ⟨fun _ => trivial, fun _ => hNow⟩
  | rollback forkPoint =>
    cases h
    have hLeft : ∀ a, a ∈ (s.rollback forkPoint).canonical ↔
        ∃ c ∈ s.processed, c.blockNumber < forkPoint ∧ c.child.address = a := by
      intro a
      simp [FactoryChildren.rollback, FactoryChildren.canonical, and_assoc]
    constructor
    · intro hThen c hc hFork
      have hIn : c.child.address ∈ s.canonical := List.mem_map_of_mem hc
      exact (hLeft _).mp ((hThen _).mp ((hNow _).mpr hIn))
    · intro hSpared a
      rw [hLeft]
      refine (hNow a).trans ⟨fun ha => ?_, fun ha => ?_⟩
      · obtain ⟨c, hc, rfl⟩ := List.mem_map.mp ha
        by_cases hBefore : c.blockNumber < forkPoint
        · exact ⟨c, hc, hBefore, rfl⟩
        · exact hSpared c hc (Nat.not_lt.mp hBefore)
      · obtain ⟨c, hc, -, rfl⟩ := ha
        exact List.mem_map_of_mem hc
  | restart =>
    cases h
    exact ⟨fun _ => trivial, fun _ => hNow⟩

/-- Child events are always fetched with the canonical children exactly where the store is not CSV and
every rollback spares the children. -/
theorem fetchesCanonical_iff (storage : Storage) (emptyInsert : Bool)
    (acts : List (ChildrenAct Address)) :
    Always (FactoryChildren.step storage emptyInsert) FetchesCanonical (.start storage) acts ↔
      storage ≠ .csv ∧
        Meets (FactoryChildren.step storage emptyInsert) SparesChildren (.start storage) acts := by
  by_cases hStorage : storage = .csv
  · constructor
    · intro h
      obtain ⟨⟨known, hKnown, -⟩, -⟩ := h.start
      subst hStorage
      cases hKnown
    · exact fun h => absurd hStorage h.1
  · have hStart : CacheInv (.start storage : FactoryChildren Address) := by
      refine ⟨?_, fun _ hCache => nomatch hCache⟩
      cases storage with
      | postgres => exact ⟨[], rfl⟩
      | clickhouse => exact ⟨[], rfl⟩
      | csv => exact absurd rfl hStorage
    have hStartRight : FetchesCanonical (.start storage : FactoryChildren Address) := by
      rw [hStart.fetches_iff]
      cases storage with
      | postgres => simp [FactoryChildren.start, Storage.new, FactoryChildren.canonical]
      | clickhouse => simp [FactoryChildren.start, Storage.new, FactoryChildren.canonical]
      | csv => exact absurd rfl hStorage
    have hBoth : Always (FactoryChildren.step storage emptyInsert)
        (fun s => CacheInv s ∧ FetchesCanonical s) (.start storage) acts ↔
          Meets (FactoryChildren.step storage emptyInsert) SparesChildren (.start storage) acts := by
      refine always_iff_meets (fun s act s' hInv h => ?_) ⟨hStart, hStartRight⟩
      rw [← step_fetches_iff hInv.1 hInv.2 h]
      exact and_iff_right (step_cacheInv hInv.1 h)
    have hCache : Always (FactoryChildren.step storage emptyInsert) CacheInv
        (.start storage : FactoryChildren Address) acts :=
      always_of_kept (fun s act s' hInv h => step_cacheInv hInv h) hStart
    rw [and_iff_right hStorage, ← hBoth]
    exact ⟨fun h => hCache.and h, fun h => h.mono fun s hs => hs.2⟩

/-- A child whose creation is rolled back is fetched on. -/
theorem orphan_fetched :
    ¬ ∀ (storage : Storage) (acts : List (ChildrenAct Nat)),
      Always (FactoryChildren.step storage true) FetchesCanonical (.start storage) acts := by
  intro hClaim
  have hRun := hClaim .postgres [.process [⟨10, ⟨1, 7⟩⟩], .rollback 10]
  obtain ⟨⟨known, hKnown, hCanonical⟩, -⟩ := (hRun.2 _ rfl).2 _ rfl
  cases hKnown
  have hLeft := (hCanonical 7).mp (by decide)
  cases hLeft

end Children

end Rindexer.Factory
