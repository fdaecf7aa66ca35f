import Mathlib.Data.List.Forall2
import Rindexer.HotReload.Diff

/-! What the difference of two manifests finds: each comparison of a section writes nothing where its
two sides are alike and marks a change where they are not, so the action is known by what is compared
alone.  Settings that no comparison reads are missed. -/

namespace Rindexer.HotReload

open Rindexer.Lib

/-! ### Values that serde may write in different orders -/

/-- Two serialised values are the same up to the order of the entries of maps. -/
inductive Yaml.Same : Yaml → Yaml → Prop
  | scalar (text : String) : Same (.scalar text) (.scalar text)
  | seq {items items' : List Yaml} :
      List.Forall₂ Same items items' → Same (.seq items) (.seq items')
  | map {entries order entries' : List (String × Yaml)} :
      entries.Perm order → order.map Prod.fst = entries'.map Prod.fst →
      List.Forall₂ Same (order.map Prod.snd) (entries'.map Prod.snd) →
      Same (.map entries) (.map entries')

theorem Yaml.Same.refl : (value : Yaml) → value.Same value
  | .scalar text => .scalar text
  | .seq items => .seq (List.forall₂_same.mpr fun value _ => Same.refl value)
  | .map entries => by
    refine .map (List.Perm.refl entries) rfl ?_
    rw [List.forall₂_map_left_iff, List.forall₂_map_right_iff]
    refine List.forall₂_same.mpr fun entry hEntry => ?_
    have hLt := List.sizeOf_lt_of_mem hEntry
    have : sizeOf entry.2 < 1 + sizeOf entries := by
      obtain ⟨key, value⟩ := entry
      simp only [Prod.mk.sizeOf_spec] at hLt ⊢
      omega
    exact Same.refl entry.2

/-- The text of each of two values can be written, and tells the two apart. -/
def TellsApart (toString? : Yaml → Option String) (value value' : Yaml) : Prop :=
  ∃ text text', toString? value = some text ∧ toString? value' = some text' ∧
    (text = text' → value = value')

theorem TellsApart.yamlText_eq_iff {toString? : Yaml → Option String} {value value' : Yaml}
    (h : TellsApart toString? value value') :
    yamlText toString? value = yamlText toString? value' ↔ value = value' := by
  obtain ⟨text, text', hText, hText', hEq⟩ := h
  constructor
  · intro hTexts
    rw [yamlText, yamlText, hText, hText'] at hTexts
    exact hEq hTexts
  · rintro rfl
    rfl

/-! ### Entries of one name -/

section Named

variable {α β : Type} {name : α → String}

/-- The entries of a list that have a name. -/
def named (name : α → String) (items : List α) (n : String) : List α :=
  items.filter fun item => name item = n

theorem name_of_mem_named {items : List α} {n : String} {item : α}
    (h : item ∈ named name items n) : name item = n := by
  simpa using (List.mem_filter.mp h).2

theorem get?_byName (items : List α) (n : String) :
    (byName name items).get? n = (named name items n).getLast? := by
  rw [byName, OrderedMap.get?_insertAll, OrderedMap.get?_empty, Option.or_none, List.filter_map,
    List.getLast?_map, Option.map_map]
  exact Option.map_id_fun ▸ rfl

/-- Two maps have alike values at every key if neither has a key that the other lacks, and the keys
they share have alike values. -/
theorem alike_iff_lookups {m m' : OrderedMap String α} (f : α → β) :
    ((∀ n ∈ m'.keys, ¬ (m.get? n).isNone) ∧ (∀ n ∈ m.keys, ¬ (m'.get? n).isNone) ∧
      ∀ e ∈ m.entries, ∀ v, m'.get? e.1 = some v → f e.2 = f v) ↔
    ∀ n, (m.get? n).map f = (m'.get? n).map f := by
  constructor
  · rintro ⟨hNew, hOld, hShared⟩ n
    cases hGet : m.get? n with
    | none =>
      cases hGet' : m'.get? n with
      | none => rfl
      | some v' =>
        exact absurd (by rw [hGet]; rfl) (hNew n (OrderedMap.mem_keys.mpr ⟨v', hGet'⟩))
    | some v =>
      cases hGet' : m'.get? n with
      | none => exact absurd (by rw [hGet']; rfl) (hOld n (OrderedMap.mem_keys.mpr ⟨v, hGet⟩))
      | some v' =>
        have hMem : (n, v) ∈ m.entries := OrderedMap.get?_eq_some_iff.mp hGet
        rw [Option.map_some, Option.map_some, hShared (n, v) hMem v' hGet']
  · intro hAlike
    refine ⟨fun n hKey hNone => ?_, fun n hKey hNone => ?_, fun e hMem v hGet => ?_⟩
    · obtain ⟨v, hGet⟩ := OrderedMap.mem_keys.mp hKey
      have := hAlike n
      rw [Option.isNone_iff_eq_none.mp hNone, hGet] at this
      cases this
    · obtain ⟨v, hGet⟩ := OrderedMap.mem_keys.mp hKey
      have := hAlike n
      rw [Option.isNone_iff_eq_none.mp hNone, hGet] at this
      cases this
    · have := hAlike e.1
      rw [OrderedMap.get?_eq_some_iff.mpr hMem, hGet] at this
      exact Option.some.inj this

/-- Two lists agree entry by entry if they agree before their last entries and there. -/
theorem forall₂_iff_dropLast {R : α → β → Prop} {items : List α} {items' : List β} :
    List.Forall₂ R items items' ↔
      List.Forall₂ R items.dropLast items'.dropLast ∧
        Option.Rel R items.getLast? items'.getLast? := by
  obtain ⟨flipped, rfl⟩ : ∃ l : List α, items = l.reverse := ⟨_, (List.reverse_reverse items).symm⟩
  obtain ⟨flipped', rfl⟩ : ∃ l : List β, items' = l.reverse := ⟨_, (List.reverse_reverse items').symm⟩
  rw [List.forall₂_reverse_iff, List.dropLast_reverse, List.dropLast_reverse,
    List.forall₂_reverse_iff, List.getLast?_reverse, List.getLast?_reverse]
  cases flipped with
  | nil =>
    cases flipped' with
    | nil => simp
    | cons last' rest' => exact ⟨nofun, fun h => nomatch h.2⟩
  | cons last rest =>
    cases flipped' with
    | nil => exact ⟨nofun, fun h => nomatch h.2⟩
    | cons last' rest' =>
      rw [List.forall₂_cons, List.head?_cons, List.head?_cons, List.tail_cons, List.tail_cons,
        and_comm]
      refine and_congr_right fun _ => ⟨.some, fun h => ?_⟩
      cases h with
      | some h => exact h

end Named

/-! ### Comparisons -/

/-- A later state of the search has every change of the earlier one. -/
structure Found.Grows (found found' : Found) : Prop where
  changes : found.changes <+: found'.changes
  configOnly : found.configOnly = false → found'.configOnly = false

theorem Found.Grows.refl (found : Found) : found.Grows found := ⟨List.prefix_rfl, id⟩

theorem Found.Grows.trans {f1 f2 f3 : Found} (h1 : f1.Grows f2) (h2 : f2.Grows f3) : f1.Grows f3 :=
  ⟨h1.changes.trans h2.changes, h2.configOnly ∘ h1.configOnly⟩

/-- Some change is found. -/
def Found.Changed (found : Found) : Prop := found.changes ≠ []

/-- Some change is found that running components cannot take. -/
def Found.Restarts (found : Found) : Prop := found.changes ≠ [] ∧ found.configOnly = false

theorem Found.Grows.changed {found found' : Found} (h : found.Grows found')
    (hChanged : found.Changed) : found'.Changed :=
  fun hNil => hChanged (List.prefix_nil.mp (hNil ▸ h.changes))

theorem Found.Grows.restarts {found found' : Found} (h : found.Grows found')
    (hRestarts : found.Restarts) : found'.Restarts :=
  ⟨h.changed hRestarts.1, h.configOnly hRestarts.2⟩

/-- A comparison writes nothing if its two sides are alike, marks what is found if they are not, and
takes nothing back. -/
structure Compares (Mark : Found → Prop) (step : Found → Found) (Alike : Prop) : Prop where
  unchanged : Alike → ∀ found, step found = found
  marked : ¬ Alike → ∀ found, Mark (step found)
  grows : ∀ found : Found, found.Grows (step found)

namespace Compares

variable {Mark : Found → Prop} {f g : Found → Found} {A B : Prop}

theorem comp (hf : Compares Mark f A) (hg : Compares Mark g B)
    (hMark : ∀ {found found' : Found}, found.Grows found' → Mark found → Mark found') :
    Compares Mark (fun found => g (f found)) (A ∧ B) where
  unchanged := by
    intro hBoth found
    rw [hf.unchanged hBoth.1, hg.unchanged hBoth.2]
  marked := by
    intro hNot found
    by_cases hA : A
    · exact hg.marked (fun hB => hNot ⟨hA, hB⟩) _
    · exact hMark (hg.grows _) (hf.marked hA found)
  grows found := (hf.grows found).trans (hg.grows _)

theorem congr (hAlike : A ↔ B) (h : Compares Mark f A) : Compares Mark f B :=
  propext hAlike ▸ h

theorem foldl {β : Type} {step : Found → β → Found} {Alike : β → Prop} (items : List β)
    (hMark : ∀ {found found' : Found}, found.Grows found' → Mark found → Mark found')
    (h : ∀ item ∈ items, Compares Mark (fun found => step found item) (Alike item)) :
    Compares Mark (fun found => items.foldl step found) (∀ item ∈ items, Alike item) := by
  induction items with
  | nil => exact ⟨fun _ _ => rfl, fun hNot => (hNot (by simp)).elim, Found.Grows.refl⟩
  | cons item items ih =>
    have hTail := ih fun item' hMem => h item' (List.mem_cons_of_mem _ hMem)
    have hAll := (h item List.mem_cons_self).comp hTail hMark
    exact hAll.congr List.forall_mem_cons.symm

end Compares

/-- The form of every comparison that asks for a restart. -/
theorem compares_restart (p : Prop) [Decidable p] (change : ManifestChange)
    (plan : Found → RestartPlan) :
    Compares Found.Restarts
      (fun found => if p then found.restart change (plan found) else found) ¬ p where
  unchanged hNot found := if_neg hNot
  marked := by
    intro hNot found
    rw [if_pos (not_not.mp hNot)]
    exact ⟨by simp [Found.restart], rfl⟩
  grows := by
    intro found
    split
    · exact ⟨List.prefix_append _ _, fun _ => rfl⟩
    · exact Found.Grows.refl found

/-- The form of every comparison of a section that running components can take. -/
theorem compares_push (p : Prop) [Decidable p] (change : ManifestChange) :
    Compares Found.Changed (fun found => if p then found.push change else found) ¬ p where
  unchanged hNot found := if_neg hNot
  marked := by
    intro hNot found
    rw [if_pos (not_not.mp hNot)]
    simp [Found.Changed, Found.push]
  grows := by
    intro found
    split
    · exact ⟨List.prefix_append _ _, id⟩
    · exact Found.Grows.refl found

/-- A comparison of the entries that two maps share at a key compares nothing where the second map
lacks the key. -/
theorem compares_shared {α : Type} {step : Found → Found} {Alike : α → Prop} (value? : Option α)
    (hNone : value? = none → ∀ found, step found = found)
    (hSome : ∀ value, value? = some value → Compares Found.Restarts step (Alike value)) :
    Compares Found.Restarts step (∀ value, value? = some value → Alike value) := by
  rcases value? with _ | value
  · refine ⟨fun _ => hNone rfl, fun hNot => (hNot fun _ h => nomatch h).elim, fun found => ?_⟩
    rw [hNone rfl]
    exact Found.Grows.refl found
  · refine (hSome value rfl).congr ⟨fun hAlike _ h => ?_, fun hAlike => hAlike value rfl⟩
    cases h
    exact hAlike

/-! ### Networks -/

/-- The fields of a network that the difference reads. -/
def Network.compared (network : Network) :=
  (network.rpc, network.chainId, network.blockPollFrequency, network.computeUnitsPerSecond,
    network.maxBlockRange, network.hypersync)

/-- The fields of a network that the difference does not read. -/
def Network.unread (network : Network) :=
  (network.getLogsSettings, network.disableLogsBloomChecks, network.multicall3Address,
    network.reth, network.reorgHandling)

theorem Network.eq_of_parts {network network' : Network} (hName : network.name = network'.name)
    (hCompared : network.compared = network'.compared)
    (hUnread : network.unread = network'.unread) : network = network' := by
  cases network
  cases network'
  simp_all [Network.compared, Network.unread]

theorem compared_eq_iff (network network' : Network) :
    network.compared = network'.compared ↔
      ¬ network.rpc ≠ network'.rpc ∧ ¬ otherChanged network network' = true := by
  simp [Network.compared, otherChanged, and_assoc]

theorem networkModified_compares (newNetworks : OrderedMap String Network)
    (entry : String × Network) :
    Compares Found.Restarts (fun found => networkModified newNetworks found entry)
      (∀ newNet, newNetworks.get? entry.1 = some newNet →
        entry.2.compared = newNet.compared) := by
  refine compares_shared _ (fun hNone found => by rw [networkModified, hNone])
    fun newNet hNew => ?_
  have hStep : (fun found => networkModified newNetworks found entry) =
      fun found => otherModified entry.1 entry.2 newNet (rpcModified entry.1 entry.2 newNet found) :=
    funext fun found => by rw [networkModified, hNew]
  rw [hStep]
  have hRpc : Compares Found.Restarts (rpcModified entry.1 entry.2 newNet)
      ¬ entry.2.rpc ≠ newNet.rpc :=
    compares_restart (entry.2.rpc ≠ newNet.rpc) (.networkRpcChanged entry.1) _
  have hOther : Compares Found.Restarts (otherModified entry.1 entry.2 newNet)
      ¬ otherChanged entry.2 newNet = true :=
    compares_restart (otherChanged entry.2 newNet = true) (.networkConfigChanged entry.1) Found.plan
  exact (hRpc.comp hOther Found.Grows.restarts).congr (compared_eq_iff entry.2 newNet).symm

theorem diffNetworks_compares (old new : Manifest) :
    Compares Found.Restarts (diffNetworks old new)
      (∀ n, (named Network.name old.networks n).getLast?.map Network.compared =
        (named Network.name new.networks n).getLast?.map Network.compared) := by
  simp only [← get?_byName]
  have hAdded (oldNetworks : OrderedMap String Network) (names : List String) :=
    Compares.foldl names Found.Grows.restarts fun name _ =>
      show Compares Found.Restarts (fun found => networkAdded oldNetworks found name) _ from
        compares_restart ((oldNetworks.get? name).isNone = true) _ _
  have hRemoved (newNetworks : OrderedMap String Network) (names : List String) :=
    Compares.foldl names Found.Grows.restarts fun name _ =>
      show Compares Found.Restarts (fun found => networkRemoved newNetworks found name) _ from
        compares_restart ((newNetworks.get? name).isNone = true) _ _
  have hModified (newNetworks : OrderedMap String Network) (entries : List (String × Network)) :=
    Compares.foldl entries Found.Grows.restarts fun entry _ =>
      networkModified_compares newNetworks entry
  exact ((hAdded _ _).comp ((hRemoved _ _).comp (hModified _ _) Found.Grows.restarts)
    Found.Grows.restarts).congr (alike_iff_lookups Network.compared)

/-! ### The other sections -/

section Texts

variable (toString? : Yaml → Option String)

/-- The text by which a contract is compared. -/
def Contract.text (contract : Contract) : String := yamlText toString? contract.yaml

theorem contractModified_compares (newContracts : OrderedMap String Contract)
    (entry : String × Contract) :
    Compares Found.Restarts (fun found => contractModified toString? newContracts found entry)
      (∀ newContract, newContracts.get? entry.1 = some newContract →
        entry.2.text toString? = newContract.text toString?) := by
  refine compares_shared _ (fun hNone found => by rw [contractModified, hNone])
    fun newContract hNew => ?_
  simp only [contractModified, hNew]
  exact (compares_restart (yamlText toString? entry.2.yaml ≠ yamlText toString? newContract.yaml)
    _ _).congr not_not

theorem diffContracts_compares (old new : Manifest) :
    Compares Found.Restarts (diffContracts toString? old new)
      (∀ n, (named Contract.name old.contracts n).getLast?.map (Contract.text toString?) =
        (named Contract.name new.contracts n).getLast?.map (Contract.text toString?)) := by
  simp only [← get?_byName]
  have hAdded (oldContracts : OrderedMap String Contract) (names : List String) :=
    Compares.foldl names Found.Grows.restarts fun name _ =>
      show Compares Found.Restarts (fun found => contractAdded oldContracts found name) _ from
        compares_restart ((oldContracts.get? name).isNone = true) _ _
  have hRemoved (newContracts : OrderedMap String Contract) (names : List String) :=
    Compares.foldl names Found.Grows.restarts fun name _ =>
      show Compares Found.Restarts (fun found => contractRemoved newContracts found name) _ from
        compares_restart ((newContracts.get? name).isNone = true) _ _
  have hModified (newContracts : OrderedMap String Contract)
      (entries : List (String × Contract)) :=
    Compares.foldl entries Found.Grows.restarts fun entry _ =>
      contractModified_compares toString? newContracts entry
  exact ((hAdded _ _).comp ((hRemoved _ _).comp (hModified _ _) Found.Grows.restarts)
    Found.Grows.restarts).congr (alike_iff_lookups (Contract.text toString?))

theorem diffStorage_compares (old new : Manifest) :
    Compares Found.Restarts (diffStorage toString? old new)
      (yamlText toString? old.storage = yamlText toString? new.storage) :=
  (compares_restart (yamlText toString? old.storage ≠ yamlText toString? new.storage)
    .storageChanged fun found => { found.plan with storageChanged := true }).congr not_not

theorem diffNativeTransfers_compares (old new : Manifest) :
    Compares Found.Restarts (diffNativeTransfers toString? old new)
      (yamlText toString? old.nativeTransfers = yamlText toString? new.nativeTransfers) :=
  (compares_restart (yamlText toString? old.nativeTransfers ≠
    yamlText toString? new.nativeTransfers) .nativeTransfersChanged Found.plan).congr not_not

theorem diffSection_compares (change : ManifestChange) (old new : Yaml) :
    Compares Found.Changed (diffSection toString? change old new)
      (yamlText toString? old = yamlText toString? new) :=
  (compares_push (yamlText toString? old ≠ yamlText toString? new) change).congr not_not

/-- A section that running components can take leaves the plan alone. -/
theorem diffSection_keeps (change : ManifestChange) (old new : Yaml) (found : Found) :
    (diffSection toString? change old new found).plan = found.plan ∧
      (diffSection toString? change old new found).configOnly = found.configOnly := by
  unfold diffSection
  split
  · exact ⟨rfl, rfl⟩
  · exact ⟨rfl, rfl⟩

/-! ### The action -/

/-- The texts and fields whose differences ask for a restart agree. -/
structure RestartAlike (old new : Manifest) : Prop where
  networks : ∀ n, (named Network.name old.networks n).getLast?.map Network.compared =
    (named Network.name new.networks n).getLast?.map Network.compared
  contracts : ∀ n, (named Contract.name old.contracts n).getLast?.map (Contract.text toString?) =
    (named Contract.name new.contracts n).getLast?.map (Contract.text toString?)
  storage : yamlText toString? old.storage = yamlText toString? new.storage
  nativeTransfers : yamlText toString? old.nativeTransfers = yamlText toString? new.nativeTransfers

/-- The texts of the sections that running components can take agree. -/
structure HotAlike (old new : Manifest) : Prop where
  config : yamlText toString? old.config = yamlText toString? new.config
  graphql : yamlText toString? old.graphql = yamlText toString? new.graphql
  global : yamlText toString? old.global = yamlText toString? new.global

variable {toString?}

/-- A difference that asks for a restart is found, and stays found. -/
theorem diffSections_restarts {old new : Manifest} (h : ¬ RestartAlike toString? old new) :
    (diffSections toString? old new).Restarts := by
  have hConfig := (diffSection_compares toString? .configChanged old.config new.config).grows
  have hGraphql := (diffSection_compares toString? .graphqlChanged old.graphql new.graphql).grows
  have hGlobal := (diffSection_compares toString? .globalChanged old.global new.global).grows
  have hContracts := diffContracts_compares toString? old new
  have hStorage := diffStorage_compares toString? old new
  have hNative := diffNativeTransfers_compares toString? old new
  unfold diffSections
  refine (hGlobal _).restarts ?_
  by_cases hNativeAlike : yamlText toString? old.nativeTransfers =
      yamlText toString? new.nativeTransfers
  · refine (hNative.grows _).restarts ((hGraphql _).restarts ?_)
    by_cases hStorageAlike : yamlText toString? old.storage = yamlText toString? new.storage
    · refine (hStorage.grows _).restarts ((hConfig _).restarts ?_)
      by_cases hContractsAlike : ∀ n,
          (named Contract.name old.contracts n).getLast?.map (Contract.text toString?) =
            (named Contract.name new.contracts n).getLast?.map (Contract.text toString?)
      · refine (hContracts.grows _).restarts ((diffNetworks_compares old new).marked ?_ _)
        exact fun hNetworks => h ⟨hNetworks, hContractsAlike, hStorageAlike, hNativeAlike⟩
      · exact hContracts.marked hContractsAlike _
    · exact hStorage.marked hStorageAlike _
  · exact hNative.marked hNativeAlike _

/-- Without one, only the sections that running components can take are compared. -/
theorem diffSections_of_restartAlike {old new : Manifest} (h : RestartAlike toString? old new) :
    diffSections toString? old new =
      diffGlobal toString? old new (diffGraphql toString? old new
        (diffConfig toString? old new {})) := by
  rw [diffSections, (diffNetworks_compares old new).unchanged h.networks,
    (diffContracts_compares toString? old new).unchanged h.contracts,
    (diffStorage_compares toString? old new).unchanged h.storage,
    (diffNativeTransfers_compares toString? old new).unchanged h.nativeTransfers]

theorem hotSections_compares (old new : Manifest) :
    Compares Found.Changed (fun found => diffGlobal toString? old new
      (diffGraphql toString? old new (diffConfig toString? old new found)))
      (HotAlike toString? old new) :=
  (((diffSection_compares toString? .configChanged old.config new.config).comp
    (diffSection_compares toString? .graphqlChanged old.graphql new.graphql)
      Found.Grows.changed).comp
    (diffSection_compares toString? .globalChanged old.global new.global)
      Found.Grows.changed).congr
    ⟨fun h => ⟨h.1.1, h.1.2, h.2⟩, fun h => ⟨⟨h.config, h.graphql⟩, h.global⟩⟩

theorem changes_eq_nil_iff {old new : Manifest} :
    (diffSections toString? old new).changes = [] ↔
      RestartAlike toString? old new ∧ HotAlike toString? old new := by
  constructor
  · intro hNil
    have hRestart : RestartAlike toString? old new :=
      not_not.mp fun hNot => (diffSections_restarts hNot).1 hNil
    rw [diffSections_of_restartAlike hRestart] at hNil
    exact ⟨hRestart, not_not.mp fun hNot => (hotSections_compares old new).marked hNot {} hNil⟩
  · rintro ⟨hRestart, hHot⟩
    rw [diffSections_of_restartAlike hRestart]
    exact congrArg Found.changes ((hotSections_compares old new).unchanged hHot {})

theorem configOnly_iff {old new : Manifest} :
    ((diffSections toString? old new).configOnly && (diffSections toString? old new).plan.isEmpty) =
      true ↔ RestartAlike toString? old new := by
  constructor
  · intro hOnly
    refine not_not.mp fun hNot => ?_
    rw [(diffSections_restarts hNot).2] at hOnly
    cases hOnly
  · intro hRestart
    rw [diffSections_of_restartAlike hRestart]
    simp only [diffGlobal, diffGraphql, diffConfig, (diffSection_keeps ..).1,
      (diffSection_keeps ..).2]
    rfl

/-- Another name or another type is a restart of the process. -/
theorem action_of_renamed {old new : Manifest}
    (h : ¬ (old.name = new.name ∧ old.projectType = new.projectType)) :
    ∃ reason, (computeDiff toString? old new).action = .requiresFullRestart reason := by
  unfold computeDiff
  split
  · exact ⟨_, rfl⟩
  · rename_i hName
    rw [if_pos fun hType => h ⟨not_not.mp hName, hType⟩]
    exact ⟨_, rfl⟩

theorem action_of_same {old new : Manifest} (hName : old.name = new.name)
    (hType : old.projectType = new.projectType) :
    (computeDiff toString? old new).action =
      let found := diffSections toString? old new
      if found.changes.isEmpty then .noChange
      else if found.configOnly && found.plan.isEmpty then .hotApply
      else .selectiveRestart found.plan := by
  rw [computeDiff, if_neg (not_not.mpr hName), if_neg (not_not.mpr hType)]
  dsimp only
  split
  · rfl
  · split <;> rfl

/-- Nothing is done exactly if the names, the types and everything that is compared agree. -/
theorem action_eq_noChange_iff {old new : Manifest} :
    (computeDiff toString? old new).action = .noChange ↔
      (old.name = new.name ∧ old.projectType = new.projectType) ∧
        RestartAlike toString? old new ∧ HotAlike toString? old new := by
  rw [← changes_eq_nil_iff]
  by_cases hSame : old.name = new.name ∧ old.projectType = new.projectType
  · rw [action_of_same hSame.1 hSame.2, and_iff_right hSame]
    dsimp only
    split
    · rename_i hEmpty
      exact ⟨fun _ => List.isEmpty_iff.mp hEmpty, fun _ => rfl⟩
    · rename_i hSome
      refine ⟨fun h => ?_, fun h => absurd (List.isEmpty_iff.mpr h) hSome⟩
      split at h <;> cases h
  · obtain ⟨reason, hAction⟩ := @action_of_renamed toString? old new hSame
    rw [hAction]
    exact ⟨nofun, fun h => absurd h.1 hSame⟩

/-- Running components take the change, if any, exactly if the names, the types and everything whose
difference asks for a restart agree. -/
theorem action_light_iff {old new : Manifest} :
    ((computeDiff toString? old new).action = .noChange ∨
        (computeDiff toString? old new).action = .hotApply) ↔
      (old.name = new.name ∧ old.projectType = new.projectType) ∧
        RestartAlike toString? old new := by
  by_cases hSame : old.name = new.name ∧ old.projectType = new.projectType
  · rw [action_of_same hSame.1 hSame.2, and_iff_right hSame]
    dsimp only
    split
    · rename_i hEmpty
      exact ⟨fun _ => (changes_eq_nil_iff.mp (List.isEmpty_iff.mp hEmpty)).1, fun _ => .inl rfl⟩
    · rw [← configOnly_iff]
      split
      · rename_i hOnly
        exact ⟨fun _ => hOnly, fun _ => .inr rfl⟩
      · rename_i hMore
        exact ⟨nofun, fun hOnly => absurd hOnly hMore⟩
  · obtain ⟨reason, hAction⟩ := action_of_renamed hSame
    rw [hAction]
    exact ⟨nofun, fun h => absurd h.1 hSame⟩

end Texts

end Rindexer.HotReload
