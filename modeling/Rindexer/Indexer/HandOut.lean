import Rindexer.Indexer.Attachment

/-! What the hand-out of the coordinators does, part by part: the coordinators of the networks, the
map that the dependency groups take from, and the groups that the finished block tasks make. -/

namespace Rindexer.Indexer.Protection

open Rindexer.Indexer ContractEventsDependenciesConfig

/-! ### Coordinators of networks -/

section Networks

variable (naming : Naming) (m : Manifest) (noLiveIndexingForced : Bool)

theorem foldl_update {α : Type} (keys : List String) (p : String → Bool) (value : String → α)
    (entries : String → Option α) (k : String) :
    keys.foldl (fun acc key => if p key then Function.update acc key (some (value key)) else acc)
        entries k =
      if k ∈ keys ∧ p k = true then some (value k) else entries k := by
  induction keys generalizing entries with
  | nil => simp
  | cons key keys ih =>
    rw [List.foldl_cons, ih]
    by_cases hKey : k = key
    · subst hKey
      by_cases hp : p k
      · simp [hp]
      · simp [hp]
    · by_cases hp : p key
      · simp [hp, hKey]
      · simp [hp, hKey]

theorem networkCoordinators_eq (network : String) :
    networkCoordinators naming m noLiveIndexingForced network =
      if network ∈ reorgConfigs m ∧ configured m network ≠ [] ∧ noLiveIndexingForced = false then
        some (newCoordinator naming m .startup network)
      else none := by
  have hProvider : ((detailsOf m.registry).any (fun d => d.2.network == network) ||
      (detailsOf m.traceRegistry).any fun d => d.2.network == network) = true ↔
        configured m network ≠ [] := by
    rw [← List.any_append, List.any_eq_true, configured, ne_eq, List.map_eq_nil_iff,
      List.filter_eq_nil_iff]
    simp
  unfold networkCoordinators
  rw [foldl_update (reorgConfigs m) (fun network =>
    ((detailsOf m.registry).any (fun d => d.2.network == network) ||
      (detailsOf m.traceRegistry).any fun d => d.2.network == network) && !noLiveIndexingForced)]
  simp only [Bool.and_eq_true, hProvider, Bool.not_eq_true']

/-- Sharing leaves alone what the networks have, and hands it to the dependency events. -/
theorem shareOrBuild_spec (groups : List ContractEventsDependenciesConfig) {network : String}
    {coord : SharedCoordinator} (networks : List String) {s : Coordinators × Coordinators}
    (h : s.2 network = some coord) :
    (networks.foldl (shareOrBuild naming m groups) s).2 network = some coord ∧
      (networks.foldl (shareOrBuild naming m groups) s).1 network =
        if network ∈ networks then some coord else s.1 network := by
  induction networks generalizing s with
  | nil => exact ⟨h, by simp⟩
  | cons key keys ih =>
    have hStep : (shareOrBuild naming m groups s key).2 network = some coord ∧
        (shareOrBuild naming m groups s key).1 network =
          if network = key then some coord else s.1 network := by
      unfold shareOrBuild
      by_cases hKey : network = key
      · subst hKey
        simp [h]
      · cases hOwn : s.2 key with
        | some other => simp [h, hOwn, hKey]
        | none =>
          simp only [hOwn]
          split
          · simp [h, hKey]
          · simp [h]
    obtain ⟨hNet, hDep⟩ := ih hStep.1
    refine ⟨hNet, ?_⟩
    rw [List.foldl_cons, hDep, hStep.2]
    by_cases hKey : network = key
    · simp [hKey]
    · simp [hKey]

end Networks

/-! ### Taking from the map -/

theorem takeCoordinator_spec (networks : List String) (s : Coordinators × Coordinators)
    (k : String) :
    (networks.foldl takeCoordinator s).1 k = (if k ∈ networks then none else s.1 k) ∧
      (networks.foldl takeCoordinator s).2 k =
        if k ∈ networks then (s.1 k).or (s.2 k) else s.2 k := by
  induction networks generalizing s with
  | nil => simp
  | cons key keys ih =>
    have hStep : (takeCoordinator s key).1 k = (if k = key then none else s.1 k) ∧
        (takeCoordinator s key).2 k = if k = key then (s.1 k).or (s.2 k) else s.2 k := by
      unfold takeCoordinator
      by_cases hKey : k = key
      · subst hKey
        cases hOwn : s.1 k with
        | some coord => simp
        | none => simp [hOwn]
      · cases hOwn : s.1 key with
        | some coord => simp [hKey]
        | none => simp [hKey]
    obtain ⟨hRest, hTaken⟩ := ih (takeCoordinator s key)
    rw [List.foldl_cons, hRest, hTaken, hStep.1, hStep.2]
    by_cases hKey : k = key
    · simp [hKey]
    · simp [hKey]

section Inject

/-- What the hand-out leaves of the map and of a group's coordinators. -/
theorem inject_cons (depCoordinators : Coordinators) (group : ContractEventsDependenciesConfig)
    (groups : List ContractEventsDependenciesConfig) :
    ∃ rest taken, inject depCoordinators (group :: groups) =
        { group with reorgCoordinators := taken } :: inject rest groups ∧
      (∀ k, rest k = if k ∈ group.liveNetworks then none else depCoordinators k) ∧
      ∀ k, taken k = if k ∈ group.liveNetworks then
        (depCoordinators k).or (group.reorgCoordinators k) else group.reorgCoordinators k :=
  ⟨_, _, rfl, fun k => (takeCoordinator_spec _ _ k).1, fun k => (takeCoordinator_spec _ _ k).2⟩

/-- A group without its coordinators. -/
def bare (group : ContractEventsDependenciesConfig) : ContractEventsDependenciesConfig :=
  { group with reorgCoordinators := fun _ => none }

theorem inject_bare (depCoordinators : Coordinators)
    (groups : List ContractEventsDependenciesConfig) :
    (inject depCoordinators groups).map bare = groups.map bare := by
  induction groups generalizing depCoordinators with
  | nil => rfl
  | cons group groups ih =>
    obtain ⟨rest, taken, hEq, -, -⟩ := inject_cons depCoordinators group groups
    rw [hEq, List.map_cons, List.map_cons, ih]
    rfl

/-- The map still holds the coordinator, and no group has taken it. -/
theorem inject_none {depCoordinators : Coordinators}
    {groups : List ContractEventsDependenciesConfig} {k : String} (hDep : depCoordinators k = none)
    (hEmpty : ∀ g ∈ groups, g.reorgCoordinators k = none) :
    ∀ g ∈ inject depCoordinators groups, g.reorgCoordinators k = none := by
  induction groups generalizing depCoordinators with
  | nil => intro g hg; cases hg
  | cons group groups ih =>
    obtain ⟨rest, taken, hEq, hRest, hTaken⟩ := inject_cons depCoordinators group groups
    intro g hg
    rw [hEq, List.mem_cons] at hg
    rcases hg with rfl | hg
    · show taken k = none
      rw [hTaken, hDep, hEmpty group (List.mem_cons_self ..)]
      simp
    · apply ih _ (fun g hg => hEmpty g (List.mem_cons_of_mem _ hg)) g hg
      rw [hRest, hDep]
      simp

/-- The first group that follows a network takes its coordinator, and no other group has it. -/
theorem inject_spec {depCoordinators : Coordinators}
    {groups : List ContractEventsDependenciesConfig} {k : String} {coord : SharedCoordinator}
    (hDep : depCoordinators k = some coord) (hEmpty : ∀ g ∈ groups, g.reorgCoordinators k = none) :
    ((inject depCoordinators groups).Pairwise fun g1 g2 =>
        g1.reorgCoordinators k = none ∨ g2.reorgCoordinators k = none) ∧
      (∀ g ∈ inject depCoordinators groups, g.reorgCoordinators k ≠ none →
        g.reorgCoordinators k = some coord ∧ k ∈ g.liveNetworks) ∧
      ((∃ g ∈ groups, k ∈ g.liveNetworks) →
        ∃ g ∈ inject depCoordinators groups, g.reorgCoordinators k = some coord) := by
  induction groups generalizing depCoordinators with
  | nil => simp [inject]
  | cons group groups ih =>
    obtain ⟨rest, taken, hEq, hRest, hTaken⟩ := inject_cons depCoordinators group groups
    have hTail : ∀ g ∈ groups, g.reorgCoordinators k = none :=
      fun g hg => hEmpty g (List.mem_cons_of_mem _ hg)
    have hOwn : group.reorgCoordinators k = none := hEmpty group (List.mem_cons_self ..)
    rw [hEq]
    by_cases hLive : k ∈ group.liveNetworks
    · -- taken here, so that the map has nothing left for the groups that follow
      have hGone : rest k = none := by rw [hRest, if_pos hLive]
      have hGot : taken k = some coord := by rw [hTaken, if_pos hLive, hDep, Option.some_or]
      have hNone := inject_none hGone hTail
      refine ⟨?_, ?_, fun _ => ⟨_, List.mem_cons_self .., hGot⟩⟩
      · rw [List.pairwise_cons]
        refine ⟨fun g hg => Or.inr (hNone g hg), ?_⟩
        exact List.Pairwise.imp_of_mem (fun h1 _ _ => Or.inl (hNone _ h1))
          (List.pairwise_of_forall (R := fun _ _ => True) fun _ _ => trivial)
      · intro g hg hSome
        rcases List.mem_cons.mp hg with rfl | hg
        · exact ⟨hGot, hLive⟩
        · exact absurd (hNone g hg) hSome
    · have hKept : rest k = some coord := by rw [hRest, if_neg hLive, hDep]
      have hNot : taken k = none := by rw [hTaken, if_neg hLive, hOwn]
      obtain ⟨hPair, hFrom, hFirst⟩ := ih hKept hTail
      refine ⟨?_, ?_, ?_⟩
      · rw [List.pairwise_cons]
        exact ⟨fun g _ => Or.inl hNot, hPair⟩
      · intro g hg hSome
        rcases List.mem_cons.mp hg with rfl | hg
        · exact absurd hNot hSome
        · exact hFrom g hg hSome
      · rintro ⟨g, hg, hFollows⟩
        rcases List.mem_cons.mp hg with rfl | hg
        · exact absurd hFollows hLive
        · obtain ⟨g', hg', hCoord⟩ := hFirst ⟨g, hg, hFollows⟩
          exact ⟨g', List.mem_cons_of_mem _ hg', hCoord⟩

end Inject

/-! ### Joining the groups -/

section Groups

def extend (name : String) (config : EventProcessingConfig)
    (group : ContractEventsDependenciesConfig) : ContractEventsDependenciesConfig :=
  if group.contractName = name then
    { group with eventsConfig := group.eventsConfig ++ [config] }
  else group

@[simp] theorem extend_contractName (name : String) (config : EventProcessingConfig)
    (group : ContractEventsDependenciesConfig) :
    (extend name config group).contractName = group.contractName := by
  unfold extend
  split <;> rfl

@[simp] theorem extend_eventDependencies (name : String) (config : EventProcessingConfig)
    (group : ContractEventsDependenciesConfig) :
    (extend name config group).eventDependencies = group.eventDependencies := by
  unfold extend
  split <;> rfl

@[simp] theorem extend_reorgCoordinators (name : String) (config : EventProcessingConfig)
    (group : ContractEventsDependenciesConfig) :
    (extend name config group).reorgCoordinators = group.reorgCoordinators := by
  unfold extend
  split <;> rfl

theorem mem_extend {name : String} {config : EventProcessingConfig}
    {group : ContractEventsDependenciesConfig} {c : EventProcessingConfig} :
    c ∈ (extend name config group).eventsConfig ↔
      c ∈ group.eventsConfig ∨ group.contractName = name ∧ c = config := by
  unfold extend
  by_cases hName : group.contractName = name
  · simp [hName]
  · simp [hName]

/-- A configuration joins the group of the name, or the groups end with what was missing. -/
theorem addEventConfig_cases {missing : Option (List ContractEventsDependenciesConfig)}
    {name : String} {config : EventProcessingConfig}
    {groups groups' : List ContractEventsDependenciesConfig}
    (h : addEventConfig missing name config groups = some groups')
    (hNames : (groups.map ContractEventsDependenciesConfig.contractName).Nodup) :
    ((∃ g ∈ groups, g.contractName = name) ∧ groups' = groups.map (extend name config)) ∨
      (∀ g ∈ groups, g.contractName ≠ name) ∧ ∃ new, missing = some new ∧ groups' = groups ++ new := by
  induction groups generalizing groups' with
  | nil => exact Or.inr ⟨by simp, groups', h, rfl⟩
  | cons group groups ih =>
    rw [List.map_cons, List.nodup_cons] at hNames
    unfold addEventConfig at h
    by_cases hName : group.contractName = name
    · rw [if_pos hName, Option.some_inj] at h
      refine Or.inl ⟨⟨group, List.mem_cons_self .., hName⟩, ?_⟩
      have hRest : groups.map (extend name config) = groups := by
        refine (List.map_congr_left fun g hg => ?_).trans (List.map_id groups)
        have hOther : g.contractName ≠ name := fun h' =>
          hNames.1 (List.mem_map.mpr ⟨g, hg, h'.trans hName.symm⟩)
        exact if_neg hOther
      rw [List.map_cons, hRest, ← h]
      simp [extend, hName]
    · rw [if_neg hName, Option.map_eq_some_iff] at h
      obtain ⟨rest, hRest, rfl⟩ := h
      rcases ih hRest hNames.2 with ⟨⟨g, hg, hFound⟩, rfl⟩ | ⟨hAbsent, new, hNew, rfl⟩
      · refine Or.inl ⟨⟨g, List.mem_cons_of_mem _ hg, hFound⟩, ?_⟩
        rw [List.map_cons]
        simp [extend, hName]
      · refine Or.inr ⟨?_, new, hNew, rfl⟩
        intro g hg
        rcases List.mem_cons.mp hg with rfl | hg
        · exact hName
        · exact hAbsent g hg

/-- The groups with the events that joined them late, and no other change. -/
theorem addToEventOrPanic_run {late : List (String × EventProcessingConfig)}
    {groups groups' : List ContractEventsDependenciesConfig}
    (h : late.foldlM addToEventOrPanic groups = some groups')
    (hNames : (groups.map ContractEventsDependenciesConfig.contractName).Nodup) :
    (∀ l ∈ late, ∃ g ∈ groups, g.contractName = l.1) ∧
      ∃ joined : ContractEventsDependenciesConfig → ContractEventsDependenciesConfig,
        groups' = groups.map joined ∧ ∀ g, (joined g).contractName = g.contractName ∧
          (joined g).eventDependencies = g.eventDependencies ∧
          (joined g).reorgCoordinators = g.reorgCoordinators ∧
          ∀ c, c ∈ (joined g).eventsConfig ↔ c ∈ g.eventsConfig ∨ (g.contractName, c) ∈ late := by
  induction late generalizing groups with
  | nil =>
    cases h
    exact ⟨by simp, id, by simp, fun g => by simp⟩
  | cons l late ih =>
    rw [List.foldlM_cons, Option.bind_eq_bind, Option.bind_eq_some_iff] at h
    obtain ⟨middle, hFirst, hRest⟩ := h
    rcases addEventConfig_cases hFirst hNames with ⟨hFound, rfl⟩ | ⟨-, new, hNew, -⟩
    · have hSame : (groups.map (extend l.1 l.2)).map
          ContractEventsDependenciesConfig.contractName =
          groups.map ContractEventsDependenciesConfig.contractName := by
        simp [Function.comp_def]
      obtain ⟨hAll, joined, rfl, hJoined⟩ := ih hRest (hSame ▸ hNames)
      refine ⟨?_, joined ∘ extend l.1 l.2, by simp, ?_⟩
      · intro l' hl'
        rcases List.mem_cons.mp hl' with rfl | hl'
        · exact hFound
        · obtain ⟨g, hg, hName⟩ := hAll l' hl'
          obtain ⟨g0, hg0, rfl⟩ := List.mem_map.mp hg
          exact ⟨g0, hg0, by simpa using hName⟩
      · intro g
        obtain ⟨hName, hDeps, hCoords, hMem⟩ := hJoined (extend l.1 l.2 g)
        refine ⟨by simpa using hName, by simpa using hDeps, by simpa using hCoords, ?_⟩
        intro c
        rw [Function.comp_apply, hMem, mem_extend, extend_contractName, List.mem_cons]
        have hPair : (g.contractName, c) = l ↔ g.contractName = l.1 ∧ c = l.2 := by
          rw [Prod.ext_iff]
        rw [hPair]
        tauto
    · cases hNew

end Groups

/-! ### The groups of a start -/

section Collect

variable (dependencies : Dependencies)

def statusOf (c : EventProcessingConfig) : DependencyStatus :=
  dependenciesStatus c.source.contractName c.source.eventName dependencies.entries

/-- The contract whose dependency group an event belongs to. -/
def groupOf (c : EventProcessingConfig) : Option String :=
  match (statusOf dependencies c).dependenciesInOtherContracts with
  | [] => if (statusOf dependencies c).hasDependencyInOwnContract then some c.source.contractName
    else none
  | other :: _ => some other

theorem contractName_ne {c : EventProcessingConfig} {name : String}
    (h : name ∈ (statusOf dependencies c).dependenciesInOtherContracts) :
    ∃ d ∈ dependencies.entries, d.contractName = name ∧ d.contractName ≠ c.source.contractName ∧
      (⟨c.source.contractName, c.source.eventName⟩ ∈ d.eventDependencies.dependencyEvents ∨
        ⟨withoutFilter c.source.contractName, c.source.eventName⟩ ∈
          d.eventDependencies.dependencyEvents) := by
  simp only [statusOf, dependenciesStatus, List.mem_map, List.mem_filter, decide_eq_true_eq] at h
  obtain ⟨d, ⟨hd, hOther, hMem⟩, hName⟩ := h
  exact ⟨d, hd, hName, hOther, hMem⟩

theorem own_event {c : EventProcessingConfig}
    (h : (statusOf dependencies c).hasDependencyInOwnContract = true) :
    ∃ d ∈ dependencies.entries, d.contractName = c.source.contractName ∧
      ⟨c.source.contractName, c.source.eventName⟩ ∈ d.eventDependencies.dependencyEvents := by
  simp only [statusOf, dependenciesStatus, Option.any_eq_true, decide_eq_true_eq] at h
  obtain ⟨d, hFind, hMem⟩ := h
  have hName := List.find?_some hFind
  rw [decide_eq_true_eq] at hName
  exact ⟨d, List.mem_of_find?_eq_some hFind, hName, hName ▸ hMem⟩

/-- The group of an event has a tree, and a node of the tree selects the event. -/
theorem selects_of_groupOf {c : EventProcessingConfig} {name : String}
    (h : groupOf dependencies c = some name) :
    ∃ d ∈ dependencies.entries, d.contractName = name ∧
      ∃ e ∈ d.eventDependencies.tree.collectDependencyEvents, selects e c = true := by
  unfold groupOf at h
  split at h
  · split at h
    case isTrue hOwn =>
      cases h
      obtain ⟨d, hd, hName, hMem⟩ := own_event dependencies hOwn
      exact ⟨d, hd, hName, _, dependencies.events_in_tree d hd _ hMem, by simp [selects]⟩
    · cases h
  case h_2 other others hOthers =>
    have hIn : other ∈ (statusOf dependencies c).dependenciesInOtherContracts := by
      rw [hOthers]
      exact List.mem_cons_self ..
    obtain ⟨d, hd, hName, -, hMem⟩ := contractName_ne dependencies hIn
    cases h
    rcases hMem with hMem | hMem
    · exact ⟨d, hd, hName, _, dependencies.events_in_tree d hd _ hMem, by simp [selects]⟩
    · exact ⟨d, hd, hName, _, dependencies.events_in_tree d hd _ hMem, by simp [selects]⟩

/-- An event joins its group late exactly when that is the group of another contract. -/
theorem groupOf_own_iff {c : EventProcessingConfig} :
    groupOf dependencies c = some c.source.contractName ↔
      (statusOf dependencies c).dependenciesInOtherContracts = [] ∧
        (statusOf dependencies c).hasDependencyInOwnContract = true := by
  unfold groupOf
  split
  case h_1 hOthers => simp [hOthers]
  case h_2 other others hOthers =>
    have hIn : other ∈ (statusOf dependencies c).dependenciesInOtherContracts := by
      rw [hOthers]
      exact List.mem_cons_self ..
    obtain ⟨d, -, hName, hNe, -⟩ := contractName_ne dependencies hIn
    simp [hOthers, ← hName, hNe]

/-- What the loop has collected from the block tasks that it has seen. -/
structure CollectedFrom (noLiveIndexingForced : Bool) (coordinators : Coordinators)
    (seen : List EventProcessingConfig) (s : Collected) : Prop where
  nonBlocking : ∀ p, p ∈ s.nonBlocking ↔ p.1 ∈ seen ∧ groupOf dependencies p.1 = none ∧
    p.2 = if p.1.liveIndexing && !noLiveIndexingForced then coordinators p.1.network else none
  late : ∀ l, l ∈ s.applyAfterProcessing ↔ l.2 ∈ seen ∧ groupOf dependencies l.2 = some l.1 ∧
    l.1 ≠ l.2.source.contractName
  names_nodup : (s.groups.map ContractEventsDependenciesConfig.contractName).Nodup
  empty : ∀ g ∈ s.groups, g.reorgCoordinators = fun _ => none
  tree : ∀ g ∈ s.groups, ∃ d ∈ dependencies.entries, d.contractName = g.contractName ∧
    d.eventDependencies = g.eventDependencies
  members : ∀ g ∈ s.groups, ∀ c, c ∈ g.eventsConfig ↔ c ∈ seen ∧
    groupOf dependencies c = some g.contractName ∧ c.source.contractName = g.contractName
  complete : ∀ c ∈ seen, groupOf dependencies c = some c.source.contractName →
    ∃ g ∈ s.groups, g.contractName = c.source.contractName

variable {dependencies} {noLiveIndexingForced : Bool} {coordinators : Coordinators}
  {seen : List EventProcessingConfig} {s s' : Collected}

theorem collectedFrom_nil : CollectedFrom dependencies noLiveIndexingForced coordinators []
    ⟨[], [], []⟩ where
  nonBlocking := by simp
  late := by simp
  names_nodup := List.nodup_nil
  empty := by simp
  tree := by simp
  members := by simp
  complete := by simp

/-- What one finished block task does, by the group of its event. -/
theorem receive_cases {c : EventProcessingConfig}
    (h : receive dependencies noLiveIndexingForced coordinators s c = some s') :
    (groupOf dependencies c = none ∧ s' = { s with nonBlocking := s.nonBlocking ++ [(c,
        if c.liveIndexing && !noLiveIndexingForced then coordinators c.network else none)] }) ∨
      (∃ other, groupOf dependencies c = some other ∧ other ≠ c.source.contractName ∧
        s' = { s with applyAfterProcessing := s.applyAfterProcessing ++ [(other, c)] }) ∨
      groupOf dependencies c = some c.source.contractName ∧
        ∃ groups, addToEventOrNewEntry dependencies.entries c s.groups = some groups ∧
          s' = { s with groups := groups } := by
  unfold receive at h
  simp only at h
  split at h
  case h_1 hOthers =>
    have hOthers' : (statusOf dependencies c).dependenciesInOtherContracts = [] := hOthers
    split at h
    case isTrue hOwn =>
      obtain ⟨groups, hGroups, rfl⟩ := Option.map_eq_some_iff.mp h
      refine Or.inr (Or.inr ⟨?_, groups, hGroups, rfl⟩)
      exact (groupOf_own_iff dependencies).mpr ⟨hOthers', hOwn⟩
    case isFalse hOwn =>
      cases h
      refine Or.inl ⟨?_, rfl⟩
      have hOwn' : ¬ (statusOf dependencies c).hasDependencyInOwnContract = true := hOwn
      simp [groupOf, hOthers', hOwn']
  case h_2 other hOthers =>
    cases h
    have hOthers' : (statusOf dependencies c).dependenciesInOtherContracts = [other] := hOthers
    have hIn : other ∈ (statusOf dependencies c).dependenciesInOtherContracts := by simp [hOthers']
    obtain ⟨d, -, hName, hNe, -⟩ := contractName_ne dependencies hIn
    exact Or.inr (Or.inl ⟨other, by simp [groupOf, hOthers'], hName ▸ hNe, rfl⟩)
  · cases h

theorem seen_of_not {c x : EventProcessingConfig} {P : EventProcessingConfig → Prop} (h : ¬ P c) :
    x ∈ seen ++ [c] ∧ P x ↔ x ∈ seen ∧ P x := by
  rw [List.mem_append, List.mem_singleton]
  constructor
  · rintro ⟨hx | rfl, hP⟩
    · exact ⟨hx, hP⟩
    · exact absurd hP h
  · rintro ⟨hx, hP⟩
    exact ⟨Or.inl hx, hP⟩

theorem seen_of {c x : EventProcessingConfig} {P : EventProcessingConfig → Prop} (h : P c) :
    x ∈ seen ++ [c] ∧ P x ↔ (x ∈ seen ∧ P x) ∨ x = c := by
  rw [List.mem_append, List.mem_singleton]
  constructor
  · rintro ⟨hx | rfl, hP⟩
    · exact Or.inl ⟨hx, hP⟩
    · exact Or.inr rfl
  · rintro (⟨hx, hP⟩ | rfl)
    · exact ⟨Or.inl hx, hP⟩
    · exact ⟨Or.inr rfl, h⟩

theorem receive_collected (hInv : CollectedFrom dependencies noLiveIndexingForced coordinators seen s)
    {c : EventProcessingConfig}
    (h : receive dependencies noLiveIndexingForced coordinators s c = some s') :
    CollectedFrom dependencies noLiveIndexingForced coordinators (seen ++ [c]) s' := by
  -- what the event is not, so that the parts of the collection it does not join stay as they are
  have hSpawned (hNot : groupOf dependencies c ≠ none) (p) :
      p ∈ s.nonBlocking ↔ p.1 ∈ seen ++ [c] ∧ groupOf dependencies p.1 = none ∧ p.2 =
        if p.1.liveIndexing && !noLiveIndexingForced then coordinators p.1.network else none := by
    rw [hInv.nonBlocking, ← and_assoc, ← and_assoc,
      seen_of_not (P := fun x => groupOf dependencies x = none) hNot]
  have hLate (hNot : ∀ name, groupOf dependencies c = some name → name = c.source.contractName)
      (l) : l ∈ s.applyAfterProcessing ↔ l.2 ∈ seen ++ [c] ∧
        groupOf dependencies l.2 = some l.1 ∧ l.1 ≠ l.2.source.contractName := by
    rw [hInv.late, seen_of_not
      (P := fun x => groupOf dependencies x = some l.1 ∧ l.1 ≠ x.source.contractName)]
    exact fun hBoth => hBoth.2 (hNot l.1 hBoth.1)
  have hMembers (hNot : groupOf dependencies c ≠ some c.source.contractName) :
      ∀ g ∈ s.groups, ∀ c', c' ∈ g.eventsConfig ↔ c' ∈ seen ++ [c] ∧
        groupOf dependencies c' = some g.contractName ∧
        c'.source.contractName = g.contractName := by
    intro g hg c'
    rw [hInv.members g hg, seen_of_not (P := fun x =>
      groupOf dependencies x = some g.contractName ∧ x.source.contractName = g.contractName)]
    exact fun hBoth => hNot (hBoth.1.trans (congrArg some hBoth.2.symm))
  have hComplete (hNot : groupOf dependencies c ≠ some c.source.contractName) :
      ∀ c' ∈ seen ++ [c], groupOf dependencies c' = some c'.source.contractName →
        ∃ g ∈ s.groups, g.contractName = c'.source.contractName := by
    intro c' hc' hGroup
    have hOld := (seen_of_not (P := fun x => groupOf dependencies x = some x.source.contractName)
      hNot).mp ⟨hc', hGroup⟩
    exact hInv.complete c' hOld.1 hGroup
  rcases receive_cases h with ⟨hNone, rfl⟩ | ⟨other, hOther, hNe, rfl⟩ | ⟨hOwn, groups, hAdd, rfl⟩
  · have hNotOwn : groupOf dependencies c ≠ some c.source.contractName := by simp [hNone]
    refine ⟨?_, hLate (by simp [hNone]), hInv.names_nodup, hInv.empty, hInv.tree,
      hMembers hNotOwn, hComplete hNotOwn⟩
    rintro ⟨c', coord⟩
    rw [List.mem_append, hInv.nonBlocking, ← and_assoc, ← and_assoc,
      seen_of (P := fun x => groupOf dependencies x = none) hNone, List.mem_singleton, Prod.ext_iff]
    dsimp only
    constructor
    · rintro (hOld | ⟨hSame, hCoord⟩)
      · exact ⟨Or.inl hOld.1, hOld.2⟩
      · exact ⟨Or.inr hSame, hSame ▸ hCoord⟩
    · rintro ⟨hOld | rfl, hCoord⟩
      · exact Or.inl ⟨hOld, hCoord⟩
      · exact Or.inr ⟨rfl, hCoord⟩
  · have hNotOwn : groupOf dependencies c ≠ some c.source.contractName := by
      rw [hOther, ne_eq, Option.some_inj]
      exact hNe
    refine ⟨hSpawned (by simp [hOther]), ?_, hInv.names_nodup, hInv.empty, hInv.tree,
      hMembers hNotOwn, hComplete hNotOwn⟩
    rintro ⟨name, c'⟩
    rw [List.mem_append, hInv.late, List.mem_singleton, Prod.ext_iff]
    by_cases hName : name = other
    · subst hName
      rw [seen_of (P := fun x => groupOf dependencies x = some name ∧ name ≠ x.source.contractName)
        ⟨hOther, hNe⟩]
      simp
    · rw [seen_of_not
        (P := fun x => groupOf dependencies x = some name ∧ name ≠ x.source.contractName)]
      · simp [hName]
      · rintro ⟨hGroup, -⟩
        exact hName (Option.some.inj (hGroup.symm.trans hOther))
  · have hNames := hInv.names_nodup
    have hSpawned' := hSpawned (by simp [hOwn])
    have hLate' := hLate fun name hName => Option.some.inj (hName.symm.trans hOwn)
    have hFrom : ∀ c' ∈ seen ++ [c], groupOf dependencies c' = some c'.source.contractName →
        (∃ g ∈ s.groups, g.contractName = c'.source.contractName) ∨ c' = c := by
      intro c' hc' hGroup
      rcases List.mem_append.mp hc' with hOld | hNew
      · exact Or.inl (hInv.complete c' hOld hGroup)
      · exact Or.inr (List.mem_singleton.mp hNew)
    rcases addEventConfig_cases hAdd hNames with ⟨hFound, rfl⟩ | ⟨hAbsent, new, hNew, rfl⟩
    · refine ⟨hSpawned', hLate', ?_, ?_, ?_, ?_, ?_⟩
      · simpa [Function.comp_def] using hNames
      · intro g hg
        obtain ⟨g0, hg0, rfl⟩ := List.mem_map.mp hg
        rw [extend_reorgCoordinators, hInv.empty g0 hg0]
      · intro g hg
        obtain ⟨g0, hg0, rfl⟩ := List.mem_map.mp hg
        simpa using hInv.tree g0 hg0
      · intro g hg c'
        obtain ⟨g0, hg0, rfl⟩ := List.mem_map.mp hg
        rw [mem_extend, hInv.members g0 hg0, extend_contractName]
        by_cases hName : g0.contractName = c.source.contractName
        · rw [seen_of (P := fun x => groupOf dependencies x = some g0.contractName ∧
            x.source.contractName = g0.contractName) ⟨hName ▸ hOwn, hName.symm⟩]
          simp [hName]
        · rw [seen_of_not (P := fun x => groupOf dependencies x = some g0.contractName ∧
            x.source.contractName = g0.contractName) fun hBoth => hName hBoth.2.symm]
          simp [hName]
      · intro c' hc' hGroup
        obtain ⟨g, hg, hName⟩ : ∃ g ∈ s.groups, g.contractName = c'.source.contractName := by
          rcases hFrom c' hc' hGroup with hOld | rfl
          · exact hOld
          · exact hFound
        exact ⟨_, List.mem_map_of_mem hg, by simpa using hName⟩
    · obtain ⟨d, hd, rfl⟩ := Option.map_eq_some_iff.mp hNew
      have hEntry := List.find?_some hd
      rw [decide_eq_true_eq] at hEntry
      refine ⟨hSpawned', hLate', ?_, ?_, ?_, ?_, ?_⟩
      · rw [List.map_append, List.map_singleton, List.nodup_append]
        refine ⟨hNames, List.nodup_singleton _, ?_⟩
        intro a ha b hb
        obtain ⟨g, hg, rfl⟩ := List.mem_map.mp ha
        rw [List.mem_singleton.mp hb]
        exact hAbsent g hg
      · intro g hg
        rcases List.mem_append.mp hg with hg | hg
        · exact hInv.empty g hg
        · rw [List.mem_singleton.mp hg]
      · intro g hg
        rcases List.mem_append.mp hg with hg | hg
        · exact hInv.tree g hg
        · rw [List.mem_singleton.mp hg]
          exact ⟨d, List.mem_of_find?_eq_some hd, hEntry, rfl⟩
      · intro g hg c'
        rcases List.mem_append.mp hg with hg | hg
        · rw [hInv.members g hg, seen_of_not (P := fun x => groupOf dependencies x =
            some g.contractName ∧ x.source.contractName = g.contractName)
            fun hBoth => hAbsent g hg hBoth.2.symm]
        · rw [List.mem_singleton.mp hg, seen_of (P := fun x => groupOf dependencies x =
            some c.source.contractName ∧ x.source.contractName = c.source.contractName)
            ⟨hOwn, rfl⟩, List.mem_singleton]
          -- an earlier event of the contract would have made the group
          have hNone : ¬ (c' ∈ seen ∧ groupOf dependencies c' = some c.source.contractName ∧
              c'.source.contractName = c.source.contractName) := by
            rintro ⟨hSeen, hGroup, hName⟩
            obtain ⟨g, hg, hSame⟩ := hInv.complete c' hSeen (hName ▸ hGroup)
            exact hAbsent g hg (hSame.trans hName)
          simp [hNone]
      · intro c' hc' hGroup
        rcases hFrom c' hc' hGroup with ⟨g, hg, hName⟩ | rfl
        · exact ⟨g, List.mem_append_left _ hg, hName⟩
        · exact ⟨_, List.mem_append_right _ (List.mem_singleton_self _), rfl⟩

theorem receive_run {arrivals : List EventProcessingConfig}
    (hInv : CollectedFrom dependencies noLiveIndexingForced coordinators seen s)
    (h : arrivals.foldlM (receive dependencies noLiveIndexingForced coordinators) s = some s') :
    CollectedFrom dependencies noLiveIndexingForced coordinators (seen ++ arrivals) s' := by
  induction arrivals generalizing seen s with
  | nil =>
    cases h
    rwa [List.append_nil]
  | cons c arrivals ih =>
    rw [List.foldlM_cons, Option.bind_eq_bind, Option.bind_eq_some_iff] at h
    obtain ⟨middle, hFirst, hRest⟩ := h
    have hStep := ih (receive_collected hInv hFirst) hRest
    rwa [List.append_assoc] at hStep

end Collect

end Rindexer.Indexer.Protection
