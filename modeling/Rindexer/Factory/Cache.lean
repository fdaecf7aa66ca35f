import Rindexer.Factory.Recording

/-! The in-memory cache of a factory's children: updates and gets of one key, whose reads and writes of
the store and the cache are steps of their own. -/

namespace Rindexer.Factory

open Rindexer.Lib

inductive UpdatePhase
  | called
  /-- The cache is invalidated, and the store is not written yet. -/
  | invalidated
  | ok
  | failed
deriving DecidableEq, Repr

/-- A get, with the children that completed updates had recorded when it started. -/
inductive GetPhase (Address : Type)
  | called
  | missed (recorded : List Address)
  /-- The store is read, and the cache is not filled yet. -/
  | read (recorded values : List Address)
  | returned (recorded : List Address) (values : Option (List Address))

section Interleaving

variable {Address υ κ : Type} [DecidableEq Address] [DecidableEq υ] [DecidableEq κ]

/-- The store and the cache of one key, and where each call is.  No code reads `recorded`: the children
of the updates that have returned `Ok`. -/
structure Shared (Address υ κ : Type) where
  stored : Option (List (KnownFactoryDeployedAddress Address))
  cache : Option (List Address)
  updates : υ → UpdatePhase
  gets : κ → GetPhase Address
  recorded : List Address

inductive SharedAct (Address υ κ : Type)
  | invalidate (u : υ)
  | write (u : υ)
  /-- The write fails, with some of the rows in the store. -/
  | writeFails (u : υ) (kept : List (KnownFactoryDeployedAddress Address))
  | get (g : κ)
  | read (g : κ)
  | fill (g : κ)

namespace Shared

def start (storage : Storage) : Shared Address υ κ where
  stored := storage.new
  cache := none
  updates _ := .called
  gets _ := .called
  recorded := []

def setUpdate (s : Shared Address υ κ) (u : υ) (phase : UpdatePhase) : Shared Address υ κ :=
  { s with updates := Function.update s.updates u phase }

def setGet (s : Shared Address υ κ) (g : κ) (phase : GetPhase Address) : Shared Address υ κ :=
  { s with gets := Function.update s.gets g phase }

section Steps

variable (storage : Storage) (emptyInsert : Bool)
  (addresses : υ → List (KnownFactoryDeployedAddress Address))

/-- `update_known_factory_deployed_addresses` invalidates the cache when the logs are parsed. -/
def invalidate (s : Shared Address υ κ) (u : υ) : Option (Shared Address υ κ) :=
  if s.updates u = .called then some { s.setUpdate u .invalidated with cache := none } else none

def write (s : Shared Address υ κ) (u : υ) : Option (Shared Address υ κ) :=
  if s.updates u = .invalidated then
    match storage.insert emptyInsert s.stored (addresses u) with
    | .error _ => some (s.setUpdate u .failed)
    | .ok stored => some { s.setUpdate u .ok with
        stored := stored
        recorded := s.recorded ++ (addresses u).map KnownFactoryDeployedAddress.address }
  else none

def writeFails (s : Shared Address υ κ) (u : υ)
    (kept : List (KnownFactoryDeployedAddress Address)) : Option (Shared Address υ κ) :=
  if s.updates u = .invalidated then
    some { s.setUpdate u .failed with
      stored := if kept = [] then s.stored else some (s.stored.getD [] ++ kept) }
  else none

/-- `get_known_factory_deployed_addresses` looks into the cache first. -/
def get (s : Shared Address υ κ) (g : κ) : Option (Shared Address υ κ) :=
  match s.gets g with
  | .called =>
    match s.cache with
    | some cache => some (s.setGet g (.returned s.recorded (some cache)))
    | none => some (s.setGet g (.missed s.recorded))
  | _ => none

/-- A CSV file that does not exist is not cached. -/
def read (s : Shared Address υ κ) (g : κ) : Option (Shared Address υ κ) :=
  match s.gets g with
  | .missed recorded =>
    match knownDeployed s.stored with
    | none => some (s.setGet g (.returned recorded none))
    | some values => some (s.setGet g (.read recorded values))
  | _ => none

def fill (s : Shared Address υ κ) (g : κ) : Option (Shared Address υ κ) :=
  match s.gets g with
  | .read recorded values =>
    some { s.setGet g (.returned recorded (some values)) with cache := some values }
  | _ => none

def step (s : Shared Address υ κ) : SharedAct Address υ κ → Option (Shared Address υ κ)
  | .invalidate u => s.invalidate u
  | .write u => s.write storage emptyInsert addresses u
  | .writeFails u kept => s.writeFails u kept
  | .get g => s.get g
  | .read g => s.read g
  | .fill g => s.fill g

end Steps

end Shared

/-- Every get has returned the children that were recorded when it started, and one that started now
and found the cache filled would. -/
structure NeverHides (s : Shared Address υ κ) : Prop where
  returned : ∀ g recorded values, s.gets g = .returned recorded values →
    ∀ a ∈ recorded, ∃ known ∈ values, a ∈ known
  cached : ∀ cache ∈ s.cache, ∀ a ∈ s.recorded, a ∈ cache

/-- A write finds the cache empty, or filled with the children of its update; and a get fills the cache
with a set that no completed update has added to. -/
def Fresh (addresses : υ → List (KnownFactoryDeployedAddress Address)) (storage : Storage)
    (emptyInsert : Bool) (s : Shared Address υ κ) : SharedAct Address υ κ → Prop
  | .write u => (∃ stored, storage.insert emptyInsert s.stored (addresses u) = .ok stored) →
      ∀ cache ∈ s.cache, ∀ x ∈ addresses u, x.address ∈ cache
  | .fill g => ∀ recorded values, s.gets g = .read recorded values →
      ∀ a ∈ s.recorded, a ∈ values
  | _ => True

/-! ### What holds in any interleaving -/

/-- The store has what was recorded, and what a get has read has what was recorded when it started. -/
structure StoreInv (s : Shared Address υ κ) : Prop where
  stored : ∀ a ∈ s.recorded, ∃ known ∈ knownDeployed s.stored, a ∈ known
  missed : ∀ g recorded, s.gets g = .missed recorded → ∀ a ∈ recorded, a ∈ s.recorded
  read : ∀ g recorded values, s.gets g = .read recorded values → ∀ a ∈ recorded, a ∈ values

section Steps

variable {storage : Storage} {emptyInsert : Bool}
  {addresses : υ → List (KnownFactoryDeployedAddress Address)} {s s' : Shared Address υ κ}

omit [DecidableEq υ] [DecidableEq κ] in
theorem mem_knownDeployed {stored : Option (List (KnownFactoryDeployedAddress Address))}
    {a : Address} :
    (∃ known ∈ knownDeployed stored, a ∈ known) ↔ ∃ x ∈ stored.getD [], x.address = a := by
  cases stored with
  | none => simp [knownDeployed]
  | some rows => simp [knownDeployed]

omit [DecidableEq υ] [DecidableEq κ] in
/-- A store that grows keeps its children. -/
theorem knownDeployed_mono {stored stored' : Option (List (KnownFactoryDeployedAddress Address))}
    (h : ∀ x ∈ stored.getD [], x ∈ stored'.getD []) {a : Address}
    (ha : ∃ known ∈ knownDeployed stored, a ∈ known) :
    ∃ known ∈ knownDeployed stored', a ∈ known := by
  obtain ⟨x, hx, rfl⟩ := mem_knownDeployed.mp ha
  exact mem_knownDeployed.mpr ⟨x, h x hx, rfl⟩

omit [DecidableEq Address] [DecidableEq υ] in
theorem setGet_gets {g g' : κ} {phase phase' : GetPhase Address}
    (h : (s.setGet g phase).gets g' = phase') :
    g' = g ∧ phase = phase' ∨ g' ≠ g ∧ s.gets g' = phase' := by
  simp only [Shared.setGet] at h
  by_cases hSame : g' = g
  · subst hSame
    rw [Function.update_self] at h
    exact Or.inl ⟨rfl, h⟩
  · rw [Function.update_of_ne hSame] at h
    exact Or.inr ⟨hSame, h⟩

omit [DecidableEq υ] in
theorem StoreInv.setGet (hInv : StoreInv s) (g : κ) (phase : GetPhase Address)
    (hMissed : ∀ recorded, phase = .missed recorded → ∀ a ∈ recorded, a ∈ s.recorded)
    (hRead : ∀ recorded values, phase = .read recorded values → ∀ a ∈ recorded, a ∈ values) :
    StoreInv (s.setGet g phase) := by
  refine ⟨hInv.stored, fun g' recorded hg => ?_, fun g' recorded values hg => ?_⟩
  · rcases setGet_gets hg with ⟨-, hPhase⟩ | ⟨-, hOld⟩
    · exact hMissed recorded hPhase
    · exact hInv.missed g' recorded hOld
  · rcases setGet_gets hg with ⟨-, hPhase⟩ | ⟨-, hOld⟩
    · exact hRead recorded values hPhase
    · exact hInv.read g' recorded values hOld

theorem step_storeInv {act : SharedAct Address υ κ} (hInv : StoreInv s)
    (h : s.step storage emptyInsert addresses act = some s') : StoreInv s' := by
  cases act with
  | invalidate u =>
    replace h : s.invalidate u = some s' := h
    unfold Shared.invalidate at h
    split at h
    case isFalse => cases h
    case isTrue =>
      cases h
      exact ⟨hInv.stored, hInv.missed, hInv.read⟩
  | write u =>
    replace h : s.write storage emptyInsert addresses u = some s' := h
    unfold Shared.write at h
    split at h
    case isFalse => cases h
    case isTrue =>
      split at h
      case h_1 =>
        cases h
        exact ⟨hInv.stored, hInv.missed, hInv.read⟩
      case h_2 stored hInsert =>
        cases h
        have hMem := mem_of_insert hInsert
        refine ⟨fun a ha => ?_, fun g recorded hg a ha => ?_, hInv.read⟩
        · rcases List.mem_append.mp ha with hOld | hNew
          · exact knownDeployed_mono (fun x hx => (hMem x).mpr (Or.inl hx)) (hInv.stored a hOld)
          · obtain ⟨x, hx, rfl⟩ := List.mem_map.mp hNew
            exact mem_knownDeployed.mpr ⟨x, (hMem x).mpr (Or.inr hx), rfl⟩
        · exact List.mem_append_left _ (hInv.missed g recorded hg a ha)
  | writeFails u kept =>
    replace h : s.writeFails u kept = some s' := h
    unfold Shared.writeFails at h
    split at h
    case isFalse => cases h
    case isTrue =>
      cases h
      refine ⟨fun a ha => knownDeployed_mono ?_ (hInv.stored a ha), hInv.missed, hInv.read⟩
      intro x hx
      dsimp only
      split
      · exact hx
      · exact List.mem_append_left _ hx
  | get g =>
    replace h : s.get g = some s' := h
    unfold Shared.get at h
    split at h
    case h_2 => cases h
    case h_1 =>
      split at h
      case h_1 =>
        cases h
        exact hInv.setGet g _ (fun _ hPhase => nomatch hPhase) fun _ _ hPhase => nomatch hPhase
      case h_2 =>
        cases h
        refine hInv.setGet g _ (fun recorded hPhase a ha => ?_) fun _ _ hPhase => nomatch hPhase
        cases hPhase
        exact ha
  | read g =>
    replace h : s.read g = some s' := h
    unfold Shared.read at h
    split at h
    case h_2 => cases h
    case h_1 recorded0 hMissed =>
      split at h
      case h_1 =>
        cases h
        exact hInv.setGet g _ (fun _ hPhase => nomatch hPhase) fun _ _ hPhase => nomatch hPhase
      case h_2 values0 hKnown =>
        cases h
        refine hInv.setGet g _ (fun _ hPhase => nomatch hPhase) fun recorded values hPhase a ha => ?_
        cases hPhase
        obtain ⟨known, hIn, hMem⟩ := hInv.stored a (hInv.missed g _ hMissed a ha)
        rw [hKnown] at hIn
        cases hIn
        exact hMem
  | fill g =>
    replace h : s.fill g = some s' := h
    unfold Shared.fill at h
    split at h
    case h_2 => cases h
    case h_1 recorded0 values0 _ =>
      cases h
      have hSet := hInv.setGet g (.returned recorded0 (some values0))
        (fun _ hPhase => nomatch hPhase) fun _ _ hPhase => nomatch hPhase
      exact ⟨hSet.stored, hSet.missed, hSet.read⟩

omit [DecidableEq Address] [DecidableEq υ] in
/-- A get that returns what was recorded when it started hides nothing. -/
theorem NeverHides.setGet (hHides : NeverHides s) (g : κ) (phase : GetPhase Address)
    (h : ∀ recorded values, phase = .returned recorded values →
      ∀ a ∈ recorded, ∃ known ∈ values, a ∈ known) : NeverHides (s.setGet g phase) := by
  refine ⟨fun g' recorded values hg => ?_, hHides.cached⟩
  rcases setGet_gets hg with ⟨-, hPhase⟩ | ⟨-, hOld⟩
  · exact h recorded values hPhase
  · exact hHides.returned g' recorded values hOld

/-- A step hides a child exactly if it leaves the cache filled with a set that lacks one. -/
theorem step_hides_iff {act : SharedAct Address υ κ} (hInv : StoreInv s) (hHides : NeverHides s)
    (h : s.step storage emptyInsert addresses act = some s') :
    NeverHides s' ↔ Fresh addresses storage emptyInsert s act := by
  cases act with
  | invalidate u =>
    replace h : s.invalidate u = some s' := h
    unfold Shared.invalidate at h
    split at h
    case isFalse => cases h
    case isTrue =>
      cases h
      exact ⟨fun _ => trivial, fun _ => ⟨hHides.returned, fun _ hCache => (nomatch hCache)⟩⟩
  | write u =>
    replace h : s.write storage emptyInsert addresses u = some s' := h
    unfold Shared.write at h
    split at h
    case isFalse => cases h
    case isTrue =>
      split at h
      case h_1 e hInsert =>
        cases h
        refine ⟨fun _ hOk => ?_, fun _ => ⟨hHides.returned, hHides.cached⟩⟩
        obtain ⟨stored, hStored⟩ := hOk
        cases hInsert.symm.trans hStored
      case h_2 stored hInsert =>
        cases h
        constructor
        · intro hNow _ cache hCache x hx
          exact hNow.cached cache hCache x.address
            (List.mem_append_right _ (List.mem_map_of_mem hx))
        · intro hFresh
          refine ⟨hHides.returned, fun cache hCache a ha => ?_⟩
          rcases List.mem_append.mp ha with hOld | hNew
          · exact hHides.cached cache hCache a hOld
          · obtain ⟨x, hx, rfl⟩ := List.mem_map.mp hNew
            exact hFresh ⟨stored, hInsert⟩ cache hCache x hx
  | writeFails u kept =>
    replace h : s.writeFails u kept = some s' := h
    unfold Shared.writeFails at h
    split at h
    case isFalse => cases h
    case isTrue =>
      cases h
      exact ⟨fun _ => trivial, fun _ => ⟨hHides.returned, hHides.cached⟩⟩
  | get g =>
    replace h : s.get g = some s' := h
    unfold Shared.get at h
    split at h
    case h_2 => cases h
    case h_1 =>
      split at h
      case h_1 cache hCache =>
        cases h
        refine ⟨fun _ => trivial, fun _ => hHides.setGet g _ fun recorded values hPhase a ha => ?_⟩
        cases hPhase
        exact ⟨cache, rfl, hHides.cached cache hCache a ha⟩
      case h_2 =>
        cases h
        exact ⟨fun _ => trivial, fun _ => hHides.setGet g _ fun _ _ hPhase => nomatch hPhase⟩
  | read g =>
    replace h : s.read g = some s' := h
    unfold Shared.read at h
    split at h
    case h_2 => cases h
    case h_1 recorded0 hMissed =>
      split at h
      case h_1 hKnown =>
        cases h
        refine ⟨fun _ => trivial, fun _ => hHides.setGet g _ fun recorded values hPhase a ha => ?_⟩
        cases hPhase
        -- a store with nothing recorded is not missing
        obtain ⟨known, hIn, -⟩ := hInv.stored a (hInv.missed g _ hMissed a ha)
        rw [hKnown] at hIn
        cases hIn
      case h_2 =>
        cases h
        exact ⟨fun _ => trivial, fun _ => hHides.setGet g _ fun _ _ hPhase => nomatch hPhase⟩
  | fill g =>
    replace h : s.fill g = some s' := h
    unfold Shared.fill at h
    split at h
    case h_2 => cases h
    case h_1 recorded0 values0 hRead =>
      cases h
      constructor
      · intro hNow recorded values hPhase a ha
        cases hRead.symm.trans hPhase
        exact hNow.cached values0 rfl a ha
      · intro hFresh
        have hReturned := hHides.setGet g (.returned recorded0 (some values0))
          fun recorded values hPhase a ha => by
            cases hPhase
            exact ⟨values0, rfl, hInv.read g _ _ hRead a ha⟩
        refine ⟨hReturned.returned, fun cache hCache a ha => ?_⟩
        cases hCache
        exact hFresh recorded0 values0 hRead a ha

end Steps

/-- Along an interleaving no child is hidden exactly if every write and every fill is fresh. -/
theorem neverHides_iff_fresh (storage : Storage) (emptyInsert : Bool)
    (addresses : υ → List (KnownFactoryDeployedAddress Address))
    (acts : List (SharedAct Address υ κ)) :
    Always (Shared.step storage emptyInsert addresses) NeverHides (.start storage) acts ↔
      Meets (Shared.step storage emptyInsert addresses) (Fresh addresses storage emptyInsert)
        (.start storage) acts := by
  have hStart : StoreInv (.start storage : Shared Address υ κ) :=
    ⟨fun _ ha => (nomatch ha), fun _ _ h => (nomatch h), fun _ _ _ h => (nomatch h)⟩
  have hStartHides : NeverHides (.start storage : Shared Address υ κ) :=
    ⟨fun _ _ _ h => (nomatch h), fun _ h => (nomatch h)⟩
  have hBoth : Always (Shared.step storage emptyInsert addresses)
      (fun s => StoreInv s ∧ NeverHides s) (.start storage) acts ↔
        Meets (Shared.step storage emptyInsert addresses) (Fresh addresses storage emptyInsert)
          (.start storage) acts := by
    refine always_iff_meets (fun s act s' hInv h => ?_) ⟨hStart, hStartHides⟩
    rw [← step_hides_iff hInv.1 hInv.2 h]
    exact and_iff_right (step_storeInv hInv.1 h)
  have hStore : Always (Shared.step storage emptyInsert addresses) StoreInv
      (.start storage : Shared Address υ κ) acts :=
    always_of_kept (fun s act s' hInv h => step_storeInv hInv h) hStart
  rw [← hBoth]
  exact ⟨fun h => hStore.and h, fun h => h.mono fun s hs => hs.2⟩

/-- A get that reads the store while an update is under way hides the new child afterwards. -/
theorem late_write_hides :
    ¬ ∀ (storage : Storage) (addresses : Unit → List (KnownFactoryDeployedAddress Nat))
        (acts : List (SharedAct Nat Unit Bool)),
      Always (Shared.step storage true addresses)
        (fun s => ∀ g recorded values, s.gets g = .returned recorded values →
          ∀ a ∈ recorded, ∃ known ∈ values, a ∈ known) (.start storage) acts := by
  intro hClaim
  have hRun := hClaim .postgres (fun _ => [⟨1, 7⟩])
    [.invalidate (), .get true, .read true, .fill true, .write (), .get false]
  have hLast := ((((((hRun.2 _ rfl).2 _ rfl).2 _ rfl).2 _ rfl).2 _ rfl).2 _ rfl)
  obtain ⟨known, hKnown, hIn⟩ := hLast false [7] (some []) rfl 7 (List.mem_singleton.mpr rfl)
  cases hKnown
  cases hIn

end Interleaving

end Rindexer.Factory
