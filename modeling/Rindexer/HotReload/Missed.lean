import Rindexer.HotReload.Completeness

/-! Which edits hot reload misses.  Components are built from more settings than the difference reads,
and a hash map may iterate in another order when a manifest is read again. -/

namespace Rindexer.HotReload

/-- The settings from which providers, coordinators, pipelines and tables are built are alike. -/
structure BuiltAlike (old new : Manifest) : Prop where
  networks : ∀ n, named Network.name old.networks n = named Network.name new.networks n
  contracts : ∀ n, List.Forall₂ (fun contract contract' => contract.yaml.Same contract'.yaml)
    (named Contract.name old.contracts n) (named Contract.name new.contracts n)
  timestamps : old.timestamps = new.timestamps
  constants : old.constants.Same new.constants
  storage : old.storage.Same new.storage
  nativeTransfers : old.nativeTransfers.Same new.nativeTransfers

/-- Two manifests are equal, hash maps compared as maps. -/
structure Manifest.Equal (old new : Manifest) : Prop where
  name : old.name = new.name
  projectType : old.projectType = new.projectType
  networks : old.networks = new.networks
  contracts : List.Forall₂
    (fun contract contract' => contract.name = contract'.name ∧ contract.yaml.Same contract'.yaml)
    old.contracts new.contracts
  timestamps : old.timestamps = new.timestamps
  constants : old.constants.Same new.constants
  config : old.config.Same new.config
  storage : old.storage.Same new.storage
  nativeTransfers : old.nativeTransfers.Same new.nativeTransfers
  global : old.global.Same new.global
  graphql : old.graphql.Same new.graphql

/-- An edit of a setting that components are built from is noticed and not taken as one that running
components can take, and equal manifests make no change. -/
def MissesNothing (toString? : Yaml → Option String) (old new : Manifest) : Prop :=
  (¬ BuiltAlike old new →
    (computeDiff toString? old new).action ≠ .noChange ∧
      (computeDiff toString? old new).action ≠ .hotApply) ∧
  (old.Equal new → (computeDiff toString? old new).action = .noChange)

/-! ### What is read and what is not -/

/-- Everything whose difference asks for a restart agrees: of each name the last entry. -/
structure ComparedAlike (old new : Manifest) : Prop where
  name : old.name = new.name
  projectType : old.projectType = new.projectType
  networks : ∀ n, (named Network.name old.networks n).getLast?.map Network.compared =
    (named Network.name new.networks n).getLast?.map Network.compared
  contracts : ∀ n, (named Contract.name old.contracts n).getLast?.map Contract.yaml =
    (named Contract.name new.contracts n).getLast?.map Contract.yaml
  storage : old.storage = new.storage
  nativeTransfers : old.nativeTransfers = new.nativeTransfers

/-- Everything that no comparison reads is alike: the other fields of networks, the entries before the
last one of a name, the timestamps and the constants. -/
structure UnreadAlike (old new : Manifest) : Prop where
  networks : ∀ n, (named Network.name old.networks n).dropLast =
      (named Network.name new.networks n).dropLast ∧
    (named Network.name old.networks n).getLast?.map Network.unread =
      (named Network.name new.networks n).getLast?.map Network.unread
  contracts : ∀ n, List.Forall₂ (fun contract contract' => contract.yaml.Same contract'.yaml)
    (named Contract.name old.contracts n).dropLast (named Contract.name new.contracts n).dropLast
  timestamps : old.timestamps = new.timestamps
  constants : old.constants.Same new.constants

/-- The hash maps in the sections that are compared iterate in the same order. -/
structure SameOrder (old new : Manifest) : Prop where
  contracts : ∀ n, (named Contract.name old.contracts n).getLast?.map Contract.yaml =
    (named Contract.name new.contracts n).getLast?.map Contract.yaml
  config : old.config = new.config
  storage : old.storage = new.storage
  nativeTransfers : old.nativeTransfers = new.nativeTransfers
  global : old.global = new.global
  graphql : old.graphql = new.graphql

/-- The sections that are compared by their texts. -/
def Manifest.sections (manifest : Manifest) : List Yaml :=
  [manifest.config, manifest.storage, manifest.nativeTransfers, manifest.global,
    manifest.graphql] ++ manifest.contracts.map Contract.yaml

theorem Contract.yaml_mem_sections {manifest : Manifest} {contract : Contract}
    (h : contract ∈ manifest.contracts) : contract.yaml ∈ manifest.sections :=
  List.mem_append_right _ (List.mem_map_of_mem h)

/-! ### Last entries -/

theorem lastNetwork_eq_iff {networks networks' : List Network} {n : String}
    (hCompared : (named Network.name networks n).getLast?.map Network.compared =
      (named Network.name networks' n).getLast?.map Network.compared) :
    named Network.name networks n = named Network.name networks' n ↔
      (named Network.name networks n).dropLast = (named Network.name networks' n).dropLast ∧
        (named Network.name networks n).getLast?.map Network.unread =
          (named Network.name networks' n).getLast?.map Network.unread := by
  constructor
  · intro hEq
    rw [hEq]
    exact ⟨rfl, rfl⟩
  · rintro ⟨hBefore, hUnread⟩
    rw [← List.forall₂_eq_eq_eq, forall₂_iff_dropLast, hBefore]
    refine ⟨List.forall₂_same.mpr fun _ _ => rfl, ?_⟩
    cases hLast : (named Network.name networks n).getLast? with
    | none =>
      cases hLast' : (named Network.name networks' n).getLast? with
      | none => exact .none
      | some network' => simp [hLast, hLast'] at hCompared
    | some network =>
      cases hLast' : (named Network.name networks' n).getLast? with
      | none => simp [hLast, hLast'] at hCompared
      | some network' =>
        rw [hLast, hLast', Option.map_some, Option.map_some, Option.some_inj] at hCompared hUnread
        have hName := name_of_mem_named (List.mem_of_getLast? hLast)
        have hName' := name_of_mem_named (List.mem_of_getLast? hLast')
        exact .some (Network.eq_of_parts (hName.trans hName'.symm) hCompared hUnread)

theorem lastContract_same {contracts contracts' : List Contract} {n : String}
    (hCompared : (named Contract.name contracts n).getLast?.map Contract.yaml =
      (named Contract.name contracts' n).getLast?.map Contract.yaml) :
    Option.Rel (fun contract contract' => contract.yaml.Same contract'.yaml)
      (named Contract.name contracts n).getLast? (named Contract.name contracts' n).getLast? := by
  cases hLast : (named Contract.name contracts n).getLast? with
  | none =>
    cases hLast' : (named Contract.name contracts' n).getLast? with
    | none => exact .none
    | some contract' => simp [hLast, hLast'] at hCompared
  | some contract =>
    cases hLast' : (named Contract.name contracts' n).getLast? with
    | none => simp [hLast, hLast'] at hCompared
    | some contract' =>
      rw [hLast, hLast', Option.map_some, Option.map_some, Option.some_inj] at hCompared
      refine .some ?_
      rw [hCompared]
      exact Yaml.Same.refl _

/-- Where everything compared agrees, what components are built from is alike exactly if what no
comparison reads is. -/
theorem builtAlike_iff {old new : Manifest} (h : ComparedAlike old new) :
    BuiltAlike old new ↔ UnreadAlike old new := by
  constructor
  · intro hBuilt
    exact ⟨fun n => (lastNetwork_eq_iff (h.networks n)).mp (hBuilt.networks n),
      fun n => (forall₂_iff_dropLast.mp (hBuilt.contracts n)).1, hBuilt.timestamps,
      hBuilt.constants⟩
  · intro hUnread
    refine ⟨fun n => (lastNetwork_eq_iff (h.networks n)).mpr (hUnread.networks n), fun n => ?_,
      hUnread.timestamps, hUnread.constants, ?_, ?_⟩
    · exact forall₂_iff_dropLast.mpr ⟨hUnread.contracts n, lastContract_same (h.contracts n)⟩
    · exact h.storage ▸ Yaml.Same.refl _
    · exact h.nativeTransfers ▸ Yaml.Same.refl _

/-! ### Texts and values -/

section Texts

variable {toString? : Yaml → Option String} {old new : Manifest}

theorem lastText_eq_iff (hTells : ∀ value ∈ old.sections, ∀ value' ∈ new.sections,
    TellsApart toString? value value') (n : String) :
    (named Contract.name old.contracts n).getLast?.map (Contract.text toString?) =
        (named Contract.name new.contracts n).getLast?.map (Contract.text toString?) ↔
      (named Contract.name old.contracts n).getLast?.map Contract.yaml =
        (named Contract.name new.contracts n).getLast?.map Contract.yaml := by
  cases hLast : (named Contract.name old.contracts n).getLast? with
  | none => simp
  | some contract =>
    cases hLast' : (named Contract.name new.contracts n).getLast? with
    | none => simp
    | some contract' =>
      have hMem : contract ∈ old.contracts :=
        (List.mem_filter.mp (List.mem_of_getLast? hLast)).1
      have hMem' : contract' ∈ new.contracts :=
        (List.mem_filter.mp (List.mem_of_getLast? hLast')).1
      have hTell := hTells _ (Contract.yaml_mem_sections hMem) _ (Contract.yaml_mem_sections hMem')
      simpa [Contract.text] using hTell.yamlText_eq_iff

/-- The action is one for running components exactly if everything else that is compared agrees. -/
theorem light_iff_comparedAlike (hTells : ∀ value ∈ old.sections, ∀ value' ∈ new.sections,
    TellsApart toString? value value') :
    ((computeDiff toString? old new).action = .noChange ∨
        (computeDiff toString? old new).action = .hotApply) ↔ ComparedAlike old new := by
  have hStorage := (hTells old.storage (by simp [Manifest.sections]) new.storage
    (by simp [Manifest.sections])).yamlText_eq_iff
  have hNative := (hTells old.nativeTransfers (by simp [Manifest.sections]) new.nativeTransfers
    (by simp [Manifest.sections])).yamlText_eq_iff
  rw [action_light_iff]
  constructor
  · rintro ⟨⟨hName, hType⟩, h⟩
    exact ⟨hName, hType, h.networks, fun n => (lastText_eq_iff hTells n).mp (h.contracts n),
      hStorage.mp h.storage, hNative.mp h.nativeTransfers⟩
  · intro h
    exact ⟨⟨h.name, h.projectType⟩, h.networks,
      fun n => (lastText_eq_iff hTells n).mpr (h.contracts n), hStorage.mpr h.storage,
      hNative.mpr h.nativeTransfers⟩

/-- Equal manifests make no change exactly if their hash maps iterate in the same order. -/
theorem noChange_iff_sameOrder (hTells : ∀ value ∈ old.sections, ∀ value' ∈ new.sections,
    TellsApart toString? value value') (hEqual : old.Equal new) :
    (computeDiff toString? old new).action = .noChange ↔ SameOrder old new := by
  have hTell {value value' : Yaml} (hMem : value ∈ old.sections) (hMem' : value' ∈ new.sections) :=
    (hTells value hMem value' hMem').yamlText_eq_iff
  rw [action_eq_noChange_iff, and_iff_right ⟨hEqual.name, hEqual.projectType⟩]
  constructor
  · rintro ⟨hRestart, hHot⟩
    exact
      { contracts := fun n => (lastText_eq_iff hTells n).mp (hRestart.contracts n)
        config := (hTell (by simp [Manifest.sections]) (by simp [Manifest.sections])).mp hHot.config
        storage := (hTell (by simp [Manifest.sections])
          (by simp [Manifest.sections])).mp hRestart.storage
        nativeTransfers := (hTell (by simp [Manifest.sections])
          (by simp [Manifest.sections])).mp hRestart.nativeTransfers
        global := (hTell (by simp [Manifest.sections]) (by simp [Manifest.sections])).mp hHot.global
        graphql := (hTell (by simp [Manifest.sections])
          (by simp [Manifest.sections])).mp hHot.graphql }
  · intro h
    refine ⟨⟨fun n => by rw [hEqual.networks],
      fun n => (lastText_eq_iff hTells n).mpr (h.contracts n), ?_, ?_⟩, ?_, ?_, ?_⟩
    · rw [h.storage]
    · rw [h.nativeTransfers]
    · rw [h.config]
    · rw [h.graphql]
    · rw [h.global]

/-- Nothing is missed exactly if the two manifests do not differ in unread settings alone, and, being
equal, iterate their hash maps in the same order. -/
theorem missesNothing_iff (hTells : ∀ value ∈ old.sections, ∀ value' ∈ new.sections,
    TellsApart toString? value value') :
    MissesNothing toString? old new ↔
      (ComparedAlike old new → UnreadAlike old new) ∧ (old.Equal new → SameOrder old new) := by
  refine and_congr ?_ (forall_congr' fun hEqual => noChange_iff_sameOrder hTells hEqual)
  rw [← not_or, light_iff_comparedAlike hTells, not_imp_not]
  exact forall_congr' fun hCompared => builtAlike_iff hCompared

end Texts

/-- Texts of the values of `manifestWith`. -/
def fieldText : Yaml → Option String
  | .scalar text => some (text ++ "\n")
  | .map [] => some "\x7b\x7d\n"
  | .map [(key, .scalar text)] => some (key ++ ": " ++ text ++ "\n")
  | _ => none

/-- A manifest of one network and no contracts. -/
def manifestWith (rpc : String) (reorgHandling : Option ReorgHandlingConfig) : Manifest where
  name := "indexer"
  projectType := .noCode
  config := .map []
  constants := .map []
  timestamps := none
  networks :=
    [{ name := "ethereum"
       chainId := 1
       rpc
       blockPollFrequency := none
       computeUnitsPerSecond := none
       maxBlockRange := none
       getLogsSettings := none
       disableLogsBloomChecks := none
       hypersync := none
       multicall3Address := none
       reth := none
       reorgHandling }]
  storage := .map []
  nativeTransfers := .map [("enabled", .scalar "false")]
  contracts := []
  global := .map [("health_port", .scalar "8080")]
  graphql := .scalar "null"

theorem manifestWith_tells (rpc rpc' : String) (reorg reorg' : Option ReorgHandlingConfig) :
    ∀ value ∈ (manifestWith rpc reorg).sections, ∀ value' ∈ (manifestWith rpc' reorg').sections,
      TellsApart fieldText value value' := by
  intro value hValue value' hValue'
  simp only [Manifest.sections, manifestWith, List.map_nil, List.append_nil, List.mem_cons,
    List.not_mem_nil, or_false] at hValue hValue'
  rcases hValue with rfl | rfl | rfl | rfl | rfl <;>
    rcases hValue' with rfl | rfl | rfl | rfl | rfl <;>
    exact ⟨_, _, rfl, rfl, fun h => by first | rfl | exact absurd h (by decide)⟩

theorem missesNothing_rpc :
    MissesNothing fieldText (manifestWith "https://one" none) (manifestWith "https://two" none) :=
  (missesNothing_iff (manifestWith_tells _ _ _ _)).mpr
    ⟨fun h => absurd (h.networks "ethereum") (by simp [named, manifestWith, Network.compared]),
      fun h => absurd h.networks (by simp [manifestWith])⟩

theorem reorgHandling_missed :
    ¬ MissesNothing fieldText (manifestWith "https://one" none)
      (manifestWith "https://one" (some ⟨false, none⟩)) := by
  intro h
  have hBuilt : ¬ BuiltAlike (manifestWith "https://one" none)
      (manifestWith "https://one" (some ⟨false, none⟩)) :=
    fun hAlike => absurd (hAlike.networks "ethereum") (by decide)
  have hCompared : ComparedAlike (manifestWith "https://one" none)
      (manifestWith "https://one" (some ⟨false, none⟩)) :=
    { name := rfl
      projectType := rfl
      networks := fun n => by
        by_cases hName : "ethereum" = n <;> simp [named, manifestWith, hName, Network.compared]
      contracts := fun _ => rfl
      storage := rfl
      nativeTransfers := rfl }
  rcases (light_iff_comparedAlike (manifestWith_tells _ _ _ _)).mpr hCompared with hNone | hHot
  · exact (h.1 hBuilt).1 hNone
  · exact (h.1 hBuilt).2 hHot

end Rindexer.HotReload
