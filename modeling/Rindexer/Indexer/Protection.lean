import Rindexer.Indexer.HandOut

/-! When reorg protection covers the live pipelines of a network: each pipeline runs with the one
coordinator of the network, and the coordinator has each table that the pipeline writes once. -/

namespace Rindexer.Indexer.Protection

open Rindexer.Indexer ContractEventsDependenciesConfig

/-! ### Tables -/

section Tables

variable (naming : Naming)

/-- The event table once, and the event's contributions to each derived table once. -/
structure RegisteredOnce (coordinator : SharedCoordinator) (e : EventSource) : Prop where
  eventTable : coordinator.eventTables.countP (fun t => t.fullName = e.fullName naming) = 1
  rollbackOps : ∀ fullTableName,
    ((registeredOps coordinator.derivedTables fullTableName).filter fun op =>
      op.eventTable = e.fullName naming) = contributions naming e fullTableName

/-- Of the details on the network, one is of an event with this table. -/
def OneDetail (m : Manifest) (network : String) (e : EventSource) : Prop :=
  (configured m network).countP (fun other => other.fullName naming = e.fullName naming) = 1

instance (m : Manifest) (network : String) (e : EventSource) :
    Decidable (OneDetail naming m network e) := inferInstanceAs (Decidable (_ = _))

variable {naming} {m : Manifest} {network : String} {stage : Stage} {e : EventSource}

theorem filter_contributions (e other : EventSource) (name : String) :
    ((contributions naming other name).filter fun op => op.eventTable = e.fullName naming) =
      if other.fullName naming = e.fullName naming then contributions naming other name else [] := by
  by_cases hName : other.fullName naming = e.fullName naming
  · rw [if_pos hName, List.filter_eq_self]
    intro op hOp
    rw [decide_eq_true_eq, eventTable_of_contributed naming hOp, hName]
  · rw [if_neg hName, List.filter_eq_nil_iff]
    intro op hOp
    rw [decide_eq_true_eq, eventTable_of_contributed naming hOp]
    exact hName

theorem registeredOnce_iff (hMem : e ∈ configured m network) :
    RegisteredOnce naming (newCoordinator naming m stage network) e ↔
      OneDetail naming m network e := by
  have hCount : (newCoordinator naming m stage network).eventTables.countP
      (fun t => t.fullName = e.fullName naming) =
        (configured m network).countP fun other => other.fullName naming = e.fullName naming := by
    show (networkEventTables naming m network).countP _ = _
    rw [networkEventTables_eq, List.countP_map]
    rfl
  refine ⟨fun h => hCount.symm.trans h.eventTable, fun hOne => ⟨hCount.trans hOne, fun name => ?_⟩⟩
  have hFilter : ((configured m network).filter fun other =>
      other.fullName naming = e.fullName naming) = [e] := by
    have hLength : ((configured m network).filter fun other =>
        other.fullName naming = e.fullName naming).length = 1 := by
      rw [← List.countP_eq_length_filter]
      exact hOne
    obtain ⟨single, hSingle⟩ := List.length_eq_one_iff.mp hLength
    have hIn : e ∈ (configured m network).filter fun other =>
        other.fullName naming = e.fullName naming := List.mem_filter.mpr ⟨hMem, by simp⟩
    rw [hSingle, List.mem_singleton] at hIn
    rw [hSingle, hIn]
  have hFlat : ∀ sources : List EventSource,
      ((sources.flatMap fun other => contributions naming other name).filter fun op =>
        op.eventTable = e.fullName naming) =
      (sources.filter fun other => other.fullName naming = e.fullName naming).flatMap
        fun other => contributions naming other name := by
    intro sources
    induction sources with
    | nil => rfl
    | cons other sources ih =>
      rw [List.flatMap_cons, List.filter_append, ih, filter_contributions, List.filter_cons]
      by_cases hName : other.fullName naming = e.fullName naming
      · simp [hName]
      · simp [hName]
  show ((registeredOps (networkDerivedTables naming m network) name).filter _) = _
  rw [networkDerivedTables_ops, hFlat, hFilter]
  simp

end Tables

/-! ### The groups after the hand-out -/

section Groups

variable {naming : Naming} {m : Manifest} {dependencies : Dependencies}
  {groups : List ContractEventsDependenciesConfig} {coordinators : Coordinators} {network : String}
  {coord : SharedCoordinator}

theorem mem_liveNetworks {group : ContractEventsDependenciesConfig} {network : String} :
    network ∈ group.liveNetworks ↔
      ∃ c ∈ group.eventsConfig, c.liveIndexing = true ∧ c.network = network := by
  simp [liveNetworks, and_assoc]

theorem mem_of_bare_eq {groups groups' : List ContractEventsDependenciesConfig}
    (h : groups'.map bare = groups.map bare) {group : ContractEventsDependenciesConfig}
    (hMem : group ∈ groups') : ∃ g ∈ groups, g.contractName = group.contractName ∧
      g.eventDependencies = group.eventDependencies ∧ g.eventsConfig = group.eventsConfig := by
  have hBare : bare group ∈ groups.map bare := h ▸ List.mem_map_of_mem hMem
  obtain ⟨g, hg, hEq⟩ := List.mem_map.mp hBare
  simp only [bare, ContractEventsDependenciesConfig.mk.injEq, and_true] at hEq
  exact ⟨g, hg, hEq⟩

/-- Before the late events join: who has the coordinator of a network. -/
structure HandedTo (groups handed : List ContractEventsDependenciesConfig) (network : String)
    (coord : SharedCoordinator) : Prop where
  same : handed.map bare = groups.map bare
  unique : ∀ g1 ∈ handed, ∀ g2 ∈ handed, g1.reorgCoordinators network ≠ none →
    g2.reorgCoordinators network ≠ none → g1 = g2
  taken : ∀ g ∈ handed, g.reorgCoordinators network ≠ none →
    g.reorgCoordinators network = some coord ∧ network ∈ g.liveNetworks
  first : (∃ g ∈ groups, network ∈ g.liveNetworks) →
    ∃ g ∈ handed, g.reorgCoordinators network = some coord

theorem handOut_spec (hCoord : coordinators network = some coord)
    (hEmpty : ∀ g ∈ groups, g.reorgCoordinators = fun _ => none) :
    (handOut naming m false coordinators groups).2 network = some coord ∧
      HandedTo groups (handOut naming m false coordinators groups).1 network coord := by
  obtain ⟨hNet, hDep⟩ := shareOrBuild_spec naming m groups (groups.flatMap liveNetworks).dedup
    (s := (fun _ => none, coordinators)) hCoord
  have hNone : ∀ g ∈ groups, g.reorgCoordinators network = none :=
    fun g hg => congrFun (hEmpty g hg) network
  refine ⟨hNet, inject_bare _ groups, ?_, ?_, ?_⟩
  · intro g1 hg1 g2 hg2 hSome1 hSome2
    by_cases hFollowed : network ∈ (groups.flatMap liveNetworks).dedup
    · rw [if_pos hFollowed] at hDep
      obtain ⟨hPair, -, -⟩ := inject_spec hDep hNone
      by_contra hNe
      have hSymm : Std.Symm fun g1 g2 : ContractEventsDependenciesConfig =>
        g1.reorgCoordinators network = none ∨ g2.reorgCoordinators network = none :=
          ⟨fun _ _ hOr => hOr.symm⟩
      have hOr := hPair.forall hg1 hg2 hNe
      exact hOr.elim hSome1 hSome2
    · rw [if_neg hFollowed] at hDep
      exact absurd (inject_none hDep hNone g1 hg1) hSome1
  · intro g hg hSome
    by_cases hFollowed : network ∈ (groups.flatMap liveNetworks).dedup
    · rw [if_pos hFollowed] at hDep
      exact (inject_spec hDep hNone).2.1 g hg hSome
    · rw [if_neg hFollowed] at hDep
      exact absurd (inject_none hDep hNone g hg) hSome
  · intro hSomeGroup
    have hFollowed : network ∈ (groups.flatMap liveNetworks).dedup := by
      obtain ⟨g, hg, hLive⟩ := hSomeGroup
      exact List.mem_dedup.mpr (List.mem_flatMap.mpr ⟨g, hg, hLive⟩)
    rw [if_pos hFollowed] at hDep
    exact (inject_spec hDep hNone).2.2 hSomeGroup

/-- The dependency groups that a start runs. -/
structure Grouped (dependencies : Dependencies) (arrivals : List EventProcessingConfig)
    (groups : List ContractEventsDependenciesConfig) (network : String)
    (coord : SharedCoordinator) : Prop where
  members : ∀ g ∈ groups, ∀ c, c ∈ liveIndexingEvents g ↔
    c ∈ arrivals ∧ groupOf dependencies c = some g.contractName ∧ c.liveIndexing = true
  complete : ∀ c ∈ arrivals, ∀ name, groupOf dependencies c = some name →
    ∃ g ∈ groups, g.contractName = name
  unique : ∀ g1 ∈ groups, ∀ g2 ∈ groups, g1.reorgCoordinators network ≠ none →
    g2.reorgCoordinators network ≠ none → g1 = g2
  names : ∀ g1 ∈ groups, ∀ g2 ∈ groups, g1.contractName = g2.contractName → g1 = g2
  taken : ∀ g ∈ groups, g.reorgCoordinators network ≠ none →
    g.reorgCoordinators network = some coord ∧ ∃ c ∈ arrivals, c.liveIndexing = true ∧
      c.network = network ∧ c.source.contractName = g.contractName ∧
      groupOf dependencies c = some g.contractName
  first : ∀ c ∈ arrivals, c.liveIndexing = true → c.network = network →
    groupOf dependencies c = some c.source.contractName →
    ∃ g ∈ groups, g.reorgCoordinators network = some coord

theorem grouped_of_collected {arrivals : List EventProcessingConfig} {s : Collected}
    {handed groups' : List ContractEventsDependenciesConfig}
    (hInv : CollectedFrom dependencies false coordinators arrivals s)
    (hHanded : HandedTo s.groups handed network coord)
    (h : s.applyAfterProcessing.foldlM addToEventOrPanic handed = some groups') :
    Grouped dependencies arrivals groups' network coord := by
  have hNames : (handed.map ContractEventsDependenciesConfig.contractName).Nodup := by
    have hSame := congrArg (List.map ContractEventsDependenciesConfig.contractName) hHanded.same
    rw [List.map_map, List.map_map] at hSame
    have hNodup := hInv.names_nodup
    rwa [show handed.map ContractEventsDependenciesConfig.contractName =
      s.groups.map ContractEventsDependenciesConfig.contractName from hSame]
  obtain ⟨hLate, joined, rfl, hJoined⟩ := addToEventOrPanic_run h hNames
  have hConfigs : ∀ g ∈ handed, ∀ c, c ∈ (joined g).eventsConfig ↔
      c ∈ arrivals ∧ groupOf dependencies c = some g.contractName := by
    intro g hg c
    obtain ⟨g0, hg0, hName, -, hEvents⟩ := mem_of_bare_eq hHanded.same hg
    rw [(hJoined g).2.2.2, ← hEvents, hInv.members g0 hg0, hInv.late, hName]
    constructor
    · rintro (⟨hc, hGroup, -⟩ | ⟨hc, hGroup, -⟩)
      · exact ⟨hc, hGroup⟩
      · exact ⟨hc, hGroup⟩
    · rintro ⟨hc, hGroup⟩
      by_cases hOwn : c.source.contractName = g.contractName
      · exact Or.inl ⟨hc, hGroup, hOwn⟩
      · exact Or.inr ⟨hc, hGroup, fun hSame => hOwn hSame.symm⟩
  have hSelects : ∀ g ∈ handed, ∀ c, groupOf dependencies c = some g.contractName →
      ∃ e ∈ (joined g).eventDependencies.tree.collectDependencyEvents, selects e c = true := by
    intro g hg c hGroup
    obtain ⟨g0, hg0, hName, hDeps, -⟩ := mem_of_bare_eq hHanded.same hg
    obtain ⟨d0, hd0, hEntry0, hTree⟩ := hInv.tree g0 hg0
    obtain ⟨d, hd, hEntry, e, he, hSel⟩ := selects_of_groupOf dependencies hGroup
    have hSame : d = d0 := List.inj_on_of_nodup_map dependencies.names_nodup hd hd0
      (hEntry.trans (hName.symm.trans hEntry0.symm))
    rw [(hJoined g).2.1, ← hDeps, ← hTree, ← hSame]
    exact ⟨e, he, hSel⟩
  have hUniqueName : ∀ g1 ∈ handed, ∀ g2 ∈ handed,
      g1.contractName = g2.contractName → g1 = g2 :=
    fun g1 hg1 g2 hg2 => List.inj_on_of_nodup_map hNames hg1 hg2
  have hFrom : ∀ g0 ∈ s.groups, ∃ g ∈ handed, g.contractName = g0.contractName := by
    intro g0 hg0
    obtain ⟨g, hg, hName, -, -⟩ := mem_of_bare_eq hHanded.same.symm hg0
    exact ⟨g, hg, hName⟩
  refine ⟨?_, ?_, ?_, ?_, ?_, ?_⟩
  · intro g' hg' c
    obtain ⟨g, hg, rfl⟩ := List.mem_map.mp hg'
    simp only [liveIndexingEvents, List.mem_flatMap, List.mem_filter, Bool.and_eq_true,
      hConfigs g hg, (hJoined g).1]
    constructor
    · rintro ⟨e, -, ⟨hc, hGroup⟩, -, hLive⟩
      exact ⟨hc, hGroup, hLive⟩
    · rintro ⟨hc, hGroup, hLive⟩
      obtain ⟨e, he, hSel⟩ := hSelects g hg c hGroup
      exact ⟨e, he, ⟨hc, hGroup⟩, hSel, hLive⟩
  · intro c hc name hGroup
    obtain ⟨g, hg, hName⟩ : ∃ g ∈ handed, g.contractName = name := by
      by_cases hOwn : name = c.source.contractName
      · subst hOwn
        obtain ⟨g0, hg0, hName0⟩ := hInv.complete c hc hGroup
        obtain ⟨g, hg, hName⟩ := hFrom g0 hg0
        exact ⟨g, hg, hName.trans hName0⟩
      · exact hLate (name, c) ((hInv.late _).mpr ⟨hc, hGroup, hOwn⟩)
    exact ⟨joined g, List.mem_map_of_mem hg, (hJoined g).1.trans hName⟩
  · intro g1' hg1' g2' hg2' hSome1 hSome2
    obtain ⟨g1, hg1, rfl⟩ := List.mem_map.mp hg1'
    obtain ⟨g2, hg2, rfl⟩ := List.mem_map.mp hg2'
    rw [(hJoined g1).2.2.1] at hSome1
    rw [(hJoined g2).2.2.1] at hSome2
    rw [hHanded.unique g1 hg1 g2 hg2 hSome1 hSome2]
  · intro g1' hg1' g2' hg2' hName
    obtain ⟨g1, hg1, rfl⟩ := List.mem_map.mp hg1'
    obtain ⟨g2, hg2, rfl⟩ := List.mem_map.mp hg2'
    rw [(hJoined g1).1, (hJoined g2).1] at hName
    rw [hUniqueName g1 hg1 g2 hg2 hName]
  · intro g' hg' hSome
    obtain ⟨g, hg, rfl⟩ := List.mem_map.mp hg'
    rw [(hJoined g).2.2.1] at hSome ⊢
    obtain ⟨hCoord, hLive⟩ := hHanded.taken g hg hSome
    refine ⟨hCoord, ?_⟩
    obtain ⟨c, hc, hLive, hNetwork⟩ := mem_liveNetworks.mp hLive
    obtain ⟨g0, hg0, hName, -, hEvents⟩ := mem_of_bare_eq hHanded.same hg
    rw [← hEvents, hInv.members g0 hg0, hName] at hc
    rw [(hJoined g).1]
    exact ⟨c, hc.1, hLive, hNetwork, hc.2.2, hc.2.1⟩
  · intro c hc hLive hNetwork hOwn
    obtain ⟨g0, hg0, hName0⟩ := hInv.complete c hc hOwn
    have hIn : c ∈ g0.eventsConfig := by
      rw [hInv.members g0 hg0, hName0]
      exact ⟨hc, hOwn, rfl⟩
    obtain ⟨g, hg, hCoord⟩ := hHanded.first
      ⟨g0, hg0, mem_liveNetworks.mpr ⟨c, hIn, hLive, hNetwork⟩⟩
    exact ⟨joined g, List.mem_map_of_mem hg, (hJoined g).2.2.1 ▸ hCoord⟩

end Groups

/-! ### Coverage -/

section Coverage

variable (naming : Naming) (m : Manifest) (dependencies : Dependencies)
  (noLiveIndexingForced : Bool)

/-- The block tasks of the contract events. -/
def blockTasks : List EventProcessingConfig :=
  (detailsOf m.registry).map (configOf noLiveIndexingForced)

/-- Every live pipeline on the network has the network's coordinator, which has the pipeline's
tables once. -/
def Protected (run : Run) (network : String) : Prop :=
  ∀ p ∈ run.pipelines, p.liveIndexing = true → p.network = network →
    ∃ coordinator, run.networkCoordinators network = some coordinator ∧
      p.coordinator = some coordinator ∧ ∀ e ∈ p.events, RegisteredOnce naming coordinator e

/-- The contract events that are live on a network. -/
def Follows (network : String) (c : EventProcessingConfig) : Prop :=
  c ∈ blockTasks m false ∧ c.liveIndexing = true ∧ c.network = network

instance (network : String) (c : EventProcessingConfig) : Decidable (Follows m network c) :=
  inferInstanceAs (Decidable (_ ∧ _ ∧ _))

/-- Whether the first entry of the network in the native transfers is live. -/
def NativeLive (network : String) : Prop :=
  ((detailsOf m.traceRegistry).find? fun d => d.2.network = network).any
    (fun d => d.2.isLiveIndexing) = true

/-- The live events on the network that depend on others are all of one group, the group has an
event of its own contract among them, and every live event has the one detail on the network that
has its table. -/
structure Covered (network : String) : Prop where
  one_group : ∀ c1 c2, Follows m network c1 → Follows m network c2 → ∀ name1 name2,
    groupOf dependencies c1 = some name1 → groupOf dependencies c2 = some name2 → name1 = name2
  own_event : ∀ c, Follows m network c → ∀ name, groupOf dependencies c = some name →
    ∃ own, Follows m network own ∧ own.source.contractName = name ∧
      groupOf dependencies own = some name
  contracts : ∀ c, Follows m network c → OneDetail naming m network c.source
  native : NativeLive m network → ∀ d ∈ detailsOf m.traceRegistry, d.2.network = network →
    OneDetail naming m network d.1

variable {naming m dependencies noLiveIndexingForced}
  {arrivals : List EventProcessingConfig} {run : Run} {network : String}

theorem startIndexing_cases
    (h : startIndexing naming m dependencies noLiveIndexingForced arrivals = some run) :
    ∃ s handed groups, CollectedFrom dependencies noLiveIndexingForced
        (networkCoordinators naming m noLiveIndexingForced) arrivals s ∧
      handOut naming m noLiveIndexingForced (networkCoordinators naming m noLiveIndexingForced)
        s.groups = (handed, run.networkCoordinators) ∧
      s.applyAfterProcessing.foldlM addToEventOrPanic handed = some groups ∧
      run.pipelines = s.nonBlocking.map processNonBlockingEvent ++
        startIndexingTraces m noLiveIndexingForced run.networkCoordinators ++
        groups.flatMap processContractEventsWithDependencies := by
  simp only [startIndexing, Option.bind_eq_bind, Option.bind_eq_some_iff] at h
  obtain ⟨s, hCollect, groups, hLate, hRun⟩ := h
  cases hRun
  have hInv := receive_run collectedFrom_nil hCollect
  rw [List.nil_append] at hInv
  exact ⟨s, _, groups, hInv, rfl, hLate, rfl⟩

theorem configured_of_task {c : EventProcessingConfig}
    (h : c ∈ blockTasks m noLiveIndexingForced) : c.source ∈ configured m c.network := by
  obtain ⟨d, hd, rfl⟩ := List.mem_map.mp h
  exact List.mem_map.mpr ⟨d, List.mem_filter.mpr ⟨List.mem_append_left _ hd, by simp [configOf]⟩, rfl⟩

theorem configured_of_trace {d : EventSource × NetworkContract}
    (h : d ∈ detailsOf m.traceRegistry) : d.1 ∈ configured m d.2.network :=
  List.mem_map.mpr ⟨d, List.mem_filter.mpr ⟨List.mem_append_right _ h, by simp⟩, rfl⟩

/-- The pipeline of the native transfers of a network. -/
def nativePipeline (m : Manifest) (coordinators : Coordinators) (network : String) : Pipeline where
  network := network
  liveIndexing := ((detailsOf m.traceRegistry).find? fun d => d.2.network = network).any
    fun d => d.2.isLiveIndexing
  events := ((detailsOf m.traceRegistry).filter fun d => d.2.network = network).map Prod.fst
  coordinator := coordinators network

/-- The pipeline of a group on a network. -/
def groupPipeline (group : ContractEventsDependenciesConfig) (network : String) : Pipeline where
  network := network
  liveIndexing := true
  events := ((liveIndexingEvents group).filter fun c => c.network = network).map
    EventProcessingConfig.source
  coordinator := group.reorgCoordinators network

theorem mem_startIndexingTraces {coordinators : Coordinators} {p : Pipeline} :
    p ∈ startIndexingTraces m false coordinators ↔
      ∃ d ∈ detailsOf m.traceRegistry, p = nativePipeline m coordinators d.2.network := by
  unfold startIndexingTraces
  by_cases hEnabled : m.nativeTransfers.enabled
  · simp only [hEnabled, Bool.not_true, Bool.false_and, Bool.false_eq_true, if_false, List.mem_map,
      List.mem_dedup]
    constructor
    · rintro ⟨n, ⟨d, hd, rfl⟩, rfl⟩
      exact ⟨d, hd, rfl⟩
    · rintro ⟨d, hd, rfl⟩
      exact ⟨_, ⟨d, hd, rfl⟩, rfl⟩
  · have hNone : detailsOf m.traceRegistry = [] := by
      simp [Manifest.traceRegistry, hEnabled, detailsOf]
    simp [hEnabled, hNone]

theorem mem_processContractEvents {group : ContractEventsDependenciesConfig} {p : Pipeline} :
    p ∈ processContractEventsWithDependencies group ↔
      ∃ c ∈ liveIndexingEvents group, p = groupPipeline group c.network := by
  unfold processContractEventsWithDependencies
  simp only [List.mem_map, List.mem_dedup]
  constructor
  · rintro ⟨n, ⟨c, hc, rfl⟩, rfl⟩
    exact ⟨c, hc, rfl⟩
  · rintro ⟨c, hc, rfl⟩
    exact ⟨_, ⟨c, hc, rfl⟩, rfl⟩

theorem handOut_bare (coordinators : Coordinators)
    (groups : List ContractEventsDependenciesConfig) :
    (handOut naming m noLiveIndexingForced coordinators groups).1.map bare = groups.map bare := by
  unfold handOut
  split
  · rfl
  · exact inject_bare _ groups

/-- Every event of a group is one of a finished block task. -/
theorem arrived_of_live {coordinators : Coordinators} {s : Collected}
    {handed groups : List ContractEventsDependenciesConfig}
    (hInv : CollectedFrom dependencies noLiveIndexingForced coordinators arrivals s)
    (hBare : handed.map bare = s.groups.map bare)
    (hLate : s.applyAfterProcessing.foldlM addToEventOrPanic handed = some groups)
    {g : ContractEventsDependenciesConfig} (hg : g ∈ groups) {c : EventProcessingConfig}
    (hc : c ∈ liveIndexingEvents g) : c ∈ arrivals ∧ c.liveIndexing = true := by
  have hNames : handed.map ContractEventsDependenciesConfig.contractName =
      s.groups.map ContractEventsDependenciesConfig.contractName := by
    have hSame := congrArg (List.map ContractEventsDependenciesConfig.contractName) hBare
    rwa [List.map_map, List.map_map] at hSame
  obtain ⟨-, joined, rfl, hJoined⟩ := addToEventOrPanic_run hLate (hNames ▸ hInv.names_nodup)
  obtain ⟨g1, hg1, rfl⟩ := List.mem_map.mp hg
  simp only [liveIndexingEvents, List.mem_flatMap, List.mem_filter, Bool.and_eq_true] at hc
  obtain ⟨e, -, hIn, -, hLive⟩ := hc
  refine ⟨?_, hLive⟩
  rcases ((hJoined g1).2.2.2 c).mp hIn with hEarly | hLateJoin
  · obtain ⟨g0, hg0, -, -, hEvents⟩ := mem_of_bare_eq hBare hg1
    rw [← hEvents] at hEarly
    exact ((hInv.members g0 hg0 c).mp hEarly).1
  · exact ((hInv.late _).mp hLateJoin).1

/-- No pipeline of a historical pass is live. -/
theorem historical_not_live (hArrivals : arrivals.Perm (blockTasks m true))
    (h : startIndexing naming m dependencies true arrivals = some run) :
    ∀ p ∈ run.pipelines, p.liveIndexing = false := by
  obtain ⟨s, handed, groups, hInv, hHanded, hLate, hPipelines⟩ := startIndexing_cases h
  have hTask : ∀ c ∈ arrivals, c.liveIndexing = false := by
    intro c hc
    obtain ⟨d, -, rfl⟩ := List.mem_map.mp (hArrivals.mem_iff.mp hc)
    simp [configOf]
  intro p hp
  rw [hPipelines, List.mem_append, List.mem_append] at hp
  rcases hp with (hp | hp) | hp
  · obtain ⟨x, hx, rfl⟩ := List.mem_map.mp hp
    exact hTask x.1 ((hInv.nonBlocking x).mp hx).1
  · unfold startIndexingTraces at hp
    by_cases hEnabled : m.nativeTransfers.enabled
    · by_cases hAny : m.hasAnyLiveIndexing
      · simp [hEnabled, hAny] at hp
      · simp only [hEnabled, hAny, Bool.not_true, Bool.and_false, Bool.false_eq_true, if_false,
          List.mem_map] at hp
        obtain ⟨n, -, rfl⟩ := hp
        rw [Option.any_eq_false]
        intro d hd
        have hMem := List.mem_of_find?_eq_some hd
        simp only [detailsOf, Manifest.traceRegistry, hEnabled, if_true, List.flatMap_singleton,
          List.mem_map] at hMem
        obtain ⟨detail, hDetail, rfl⟩ := hMem
        cases hNetworks : m.nativeTransfers.networks with
        | none => simp [hNetworks] at hDetail
        | some networks =>
          rw [hNetworks, Option.getD_some] at hDetail
          simp only [Manifest.hasAnyLiveIndexing, hEnabled, hNetworks, Bool.true_and,
            Bool.or_eq_true, List.any_eq_true, not_or, not_exists, not_and] at hAny
          exact Bool.eq_false_iff.mpr (hAny.2 detail hDetail)
    · simp [hEnabled] at hp
  · obtain ⟨g', hg', hp⟩ := List.mem_flatMap.mp hp
    obtain ⟨c, hc, rfl⟩ := mem_processContractEvents.mp hp
    have hBare := @handOut_bare naming m true (networkCoordinators naming m true) s.groups
    rw [hHanded] at hBare
    obtain ⟨hArrived, hLive⟩ := arrived_of_live hInv hBare hLate hg' hc
    rw [hTask c hArrived] at hLive
    cases hLive

/-- A live pass as it stands after its start, on a network with a coordinator. -/
structure LiveStart (naming : Naming) (m : Manifest) (dependencies : Dependencies)
    (arrivals : List EventProcessingConfig) (run : Run) (network : String)
    (nonBlocking : List (EventProcessingConfig × Option SharedCoordinator))
    (groups : List ContractEventsDependenciesConfig) : Prop where
  arrived : arrivals.Perm (blockTasks m false)
  pipelines : run.pipelines = nonBlocking.map processNonBlockingEvent ++
    startIndexingTraces m false run.networkCoordinators ++
    groups.flatMap processContractEventsWithDependencies
  coordinator : run.networkCoordinators network = some (newCoordinator naming m .startup network)
  spawned : ∀ x, x ∈ nonBlocking ↔ x.1 ∈ arrivals ∧ groupOf dependencies x.1 = none ∧
    x.2 = if x.1.liveIndexing && !false then networkCoordinators naming m false x.1.network else none
  attached : networkCoordinators naming m false network =
    some (newCoordinator naming m .startup network)
  grouped : Grouped dependencies arrivals groups network (newCoordinator naming m .startup network)

section LiveStart

variable {nonBlocking : List (EventProcessingConfig × Option SharedCoordinator)}
  {groups : List ContractEventsDependenciesConfig}

/-- A pipeline for each event that is live on the network. -/
theorem pipeline_of_follows
    (h : LiveStart naming m dependencies arrivals run network nonBlocking groups)
    {c : EventProcessingConfig} (hFollows : Follows m network c) :
    ∃ p ∈ run.pipelines, p.liveIndexing = true ∧ p.network = network ∧ c.source ∈ p.events ∧
      ∀ name, groupOf dependencies c = some name →
        ∃ g ∈ groups, g.contractName = name ∧ p.coordinator = g.reorgCoordinators network := by
  obtain ⟨hTask, hLive, rfl⟩ := hFollows
  have hc := h.arrived.mem_iff.mpr hTask
  rw [h.pipelines]
  cases hGroup : groupOf dependencies c with
  | none =>
    have hSpawned : (c, if c.liveIndexing && !false then
        networkCoordinators naming m false c.network else none) ∈ nonBlocking :=
      (h.spawned _).mpr ⟨hc, hGroup, rfl⟩
    refine ⟨processNonBlockingEvent _, List.mem_append_left _ (List.mem_append_left _
      (List.mem_map_of_mem hSpawned)), hLive, rfl, List.mem_singleton_self _, ?_⟩
    intro name hName
    cases hName
  | some name =>
    obtain ⟨g, hg, hName⟩ := h.grouped.complete c hc name hGroup
    have hIn : c ∈ liveIndexingEvents g :=
      (h.grouped.members g hg c).mpr ⟨hc, hName ▸ hGroup, hLive⟩
    refine ⟨groupPipeline g c.network, List.mem_append_right _ (List.mem_flatMap.mpr ⟨g, hg,
      mem_processContractEvents.mpr ⟨c, hIn, rfl⟩⟩), rfl, rfl, ?_, ?_⟩
    · exact List.mem_map.mpr ⟨c, List.mem_filter.mpr ⟨hIn, by simp⟩, rfl⟩
    · intro name' hName'
      cases hName'
      exact ⟨g, hg, hName, rfl⟩

theorem covered_of_protected
    (h : LiveStart naming m dependencies arrivals run network nonBlocking groups)
    (hProtected : Protected naming run network) : Covered naming m dependencies network := by
  have hPipe : ∀ c, Follows m network c →
      RegisteredOnce naming (newCoordinator naming m .startup network) c.source ∧
        ∀ name, groupOf dependencies c = some name → ∃ g ∈ groups, g.contractName = name ∧
          g.reorgCoordinators network ≠ none := by
    intro c hFollows
    obtain ⟨p, hp, hLive, hNetwork, hEvent, hGroup⟩ := pipeline_of_follows h hFollows
    obtain ⟨coordinator, hOwn, hAttached, hTables⟩ := hProtected p hp hLive hNetwork
    rw [h.coordinator, Option.some_inj] at hOwn
    subst hOwn
    refine ⟨hTables _ hEvent, fun name hName => ?_⟩
    obtain ⟨g, hg, hSame, hHas⟩ := hGroup name hName
    exact ⟨g, hg, hSame, by simp [← hHas, hAttached]⟩
  refine ⟨?_, ?_, ?_, ?_⟩
  · intro c1 c2 hFollows1 hFollows2 name1 name2 hName1 hName2
    obtain ⟨g1, hg1, rfl, hSome1⟩ := (hPipe c1 hFollows1).2 name1 hName1
    obtain ⟨g2, hg2, rfl, hSome2⟩ := (hPipe c2 hFollows2).2 name2 hName2
    rw [h.grouped.unique g1 hg1 g2 hg2 hSome1 hSome2]
  · intro c hFollows name hName
    obtain ⟨g, hg, rfl, hSome⟩ := (hPipe c hFollows).2 name hName
    obtain ⟨-, own, hOwn, hLive, hNetwork, hSame, hGroup⟩ := h.grouped.taken g hg hSome
    exact ⟨own, ⟨h.arrived.mem_iff.mp hOwn, hLive, hNetwork⟩, hSame, hGroup⟩
  · rintro c ⟨hTask, hLive, rfl⟩
    exact (registeredOnce_iff (configured_of_task hTask)).mp (hPipe c ⟨hTask, hLive, rfl⟩).1
  · rintro hNative d hd rfl
    have hp : nativePipeline m run.networkCoordinators d.2.network ∈ run.pipelines := by
      rw [h.pipelines]
      exact List.mem_append_left _ (List.mem_append_right _
        (mem_startIndexingTraces.mpr ⟨d, hd, rfl⟩))
    obtain ⟨coordinator, hOwn, -, hTables⟩ := hProtected _ hp hNative rfl
    rw [h.coordinator, Option.some_inj] at hOwn
    subst hOwn
    exact (registeredOnce_iff (configured_of_trace hd)).mp
      (hTables d.1 (List.mem_map.mpr ⟨d, List.mem_filter.mpr ⟨hd, by simp⟩, rfl⟩))

theorem protected_of_covered
    (h : LiveStart naming m dependencies arrivals run network nonBlocking groups)
    (hCovered : Covered naming m dependencies network) : Protected naming run network := by
  have hOnce : ∀ c, Follows m network c →
      RegisteredOnce naming (newCoordinator naming m .startup network) c.source := by
    rintro c ⟨hTask, hLive, rfl⟩
    exact (registeredOnce_iff (configured_of_task hTask)).mpr
      (hCovered.contracts c ⟨hTask, hLive, rfl⟩)
  intro p hp hLive hNetwork
  refine ⟨_, h.coordinator, ?_⟩
  rw [h.pipelines, List.mem_append, List.mem_append] at hp
  rcases hp with (hp | hp) | hp
  · obtain ⟨x, hx, rfl⟩ := List.mem_map.mp hp
    obtain ⟨hc, -, hAttached⟩ := (h.spawned x).mp hx
    have hLive' : x.1.liveIndexing = true := hLive
    have hNetwork' : x.1.network = network := hNetwork
    refine ⟨?_, ?_⟩
    · show x.2 = _
      rw [hAttached, hLive', hNetwork', h.attached]
      rfl
    · intro e he
      rw [List.mem_singleton.mp he]
      exact hOnce x.1 ⟨h.arrived.mem_iff.mp hc, hLive', hNetwork'⟩
  · obtain ⟨d, hd, rfl⟩ := mem_startIndexingTraces.mp hp
    have hNetwork' : d.2.network = network := hNetwork
    subst hNetwork'
    refine ⟨h.coordinator, ?_⟩
    intro e he
    obtain ⟨d', hd', rfl⟩ := List.mem_map.mp he
    obtain ⟨hIn, hOn⟩ := List.mem_filter.mp hd'
    rw [decide_eq_true_eq] at hOn
    exact (registeredOnce_iff (hOn ▸ configured_of_trace hIn)).mpr
      (hCovered.native hLive d' hIn hOn)
  · obtain ⟨g, hg, hp⟩ := List.mem_flatMap.mp hp
    obtain ⟨c, hc, rfl⟩ := mem_processContractEvents.mp hp
    have hNetwork' : c.network = network := hNetwork
    have hFollows : ∀ c' ∈ liveIndexingEvents g, c'.network = network →
        Follows m network c' ∧ groupOf dependencies c' = some g.contractName := by
      intro c' hc' hOn
      obtain ⟨hArrived, hGroup, hLive⟩ := (h.grouped.members g hg c').mp hc'
      exact ⟨⟨h.arrived.mem_iff.mp hArrived, hLive, hOn⟩, hGroup⟩
    refine ⟨?_, ?_⟩
    · -- the group of the own event has taken the coordinator, and it is this group
      obtain ⟨hHere, hGroup⟩ := hFollows c hc hNetwork'
      obtain ⟨own, hOwn, hName, hOwnGroup⟩ := hCovered.own_event c hHere _ hGroup
      obtain ⟨g', hg', hHas⟩ := h.grouped.first own (h.arrived.mem_iff.mpr hOwn.1) hOwn.2.1
        hOwn.2.2 (hName ▸ hOwnGroup)
      obtain ⟨-, other, hOther, hOtherLive, hOtherOn, -, hOtherGroup⟩ :=
        h.grouped.taken g' hg' (by simp [hHas])
      have hSame := hCovered.one_group c other hHere
        ⟨h.arrived.mem_iff.mp hOther, hOtherLive, hOtherOn⟩ _ _ hGroup hOtherGroup
      rw [h.grouped.names g hg g' hg' hSame]
      exact hNetwork' ▸ hHas
    · intro e he
      obtain ⟨c', hc', rfl⟩ := List.mem_map.mp he
      obtain ⟨hIn, hOn⟩ := List.mem_filter.mp hc'
      rw [decide_eq_true_eq, hNetwork'] at hOn
      exact hOnce c' (hFollows c' hIn hOn).1

end LiveStart

/-- The rollbacks cover the live pipelines of a network exactly when its dependency groups are one,
with an event of their own contract, and each of its tables is written for one detail. -/
theorem protected_iff (hReorg : network ∈ reorgConfigs m)
    (hArrivals : arrivals.Perm (blockTasks m noLiveIndexingForced))
    (hStart : startIndexing naming m dependencies noLiveIndexingForced arrivals = some run) :
    Protected naming run network ↔
      noLiveIndexingForced = true ∨ Covered naming m dependencies network := by
  cases noLiveIndexingForced with
  | true =>
    refine ⟨fun _ => Or.inl rfl, fun _ p hp hLive _ => ?_⟩
    rw [historical_not_live hArrivals hStart p hp] at hLive
    cases hLive
  | false =>
    rw [or_iff_right Bool.false_ne_true]
    obtain ⟨s, handed, groups, hInv, hHanded, hLate, hPipelines⟩ := startIndexing_cases hStart
    have hBare := @handOut_bare naming m false (networkCoordinators naming m false) s.groups
    rw [hHanded] at hBare
    by_cases hConfigured : configured m network = []
    · -- nothing is configured there, and nothing runs there
      have hTask : ∀ c ∈ arrivals, c.network ≠ network := by
        rintro c hc rfl
        have hIn := configured_of_task (hArrivals.mem_iff.mp hc)
        rw [hConfigured] at hIn
        cases hIn
      have hTrace : ∀ d ∈ detailsOf m.traceRegistry, d.2.network ≠ network := by
        rintro d hd rfl
        have hIn := configured_of_trace hd
        rw [hConfigured] at hIn
        cases hIn
      have hNoTask : ∀ c, ¬ Follows m network c := fun c hFollows =>
        hTask c (hArrivals.mem_iff.mpr hFollows.1) hFollows.2.2
      refine iff_of_true ?_ ⟨fun c _ h => absurd h (hNoTask c), fun c h => absurd h (hNoTask c),
        fun c h => absurd h (hNoTask c), fun _ d hd h => absurd h (hTrace d hd)⟩
      intro p hp _ hNetwork
      rw [hPipelines, List.mem_append, List.mem_append] at hp
      rcases hp with (hp | hp) | hp
      · obtain ⟨x, hx, rfl⟩ := List.mem_map.mp hp
        exact absurd hNetwork (hTask x.1 ((hInv.nonBlocking x).mp hx).1)
      · obtain ⟨d, hd, rfl⟩ := mem_startIndexingTraces.mp hp
        exact absurd hNetwork (hTrace d hd)
      · obtain ⟨g, hg, hp⟩ := List.mem_flatMap.mp hp
        obtain ⟨c, hc, rfl⟩ := mem_processContractEvents.mp hp
        exact absurd hNetwork (hTask c (arrived_of_live hInv hBare hLate hg hc).1)
    · have hCoord : networkCoordinators naming m false network =
          some (newCoordinator naming m .startup network) := by
        rw [networkCoordinators_eq, if_pos ⟨hReorg, hConfigured, rfl⟩]
      have hSpec := @handOut_spec naming m _ _ _ _ hCoord hInv.empty
      rw [hHanded] at hSpec
      have hLiveStart : LiveStart naming m dependencies arrivals run network s.nonBlocking groups :=
        { arrived := hArrivals
          pipelines := hPipelines
          coordinator := hSpec.1
          spawned := hInv.nonBlocking
          attached := hCoord
          grouped := grouped_of_collected hInv hSpec.2 hLate }
      exact ⟨covered_of_protected hLiveStart, protected_of_covered hLiveStart⟩

end Coverage

/-! ### Two manifests -/

/-- The names of the examples are in snake case and short. -/
def plainNames : Naming where
  camelToSnake := id
  generateInternalEventTableName := fun schema event => s!"{schema}_{event}"

def dexEvent (contractName eventName : String) : RegistryEvent :=
  ⟨⟨"dex", contractName, eventName, []⟩, [⟨"ethereum", none⟩]⟩

/-- A pool with a dependency tree, a token without one, and native transfers. -/
def onePool : Manifest where
  name := "dex"
  networks := [⟨"ethereum", true⟩, ⟨"base", false⟩]
  nativeTransfers := ⟨true, some [⟨"ethereum", none⟩, ⟨"base", none⟩], []⟩
  contractDetails := [⟨"ethereum", none⟩]
  registry := [dexEvent "pool" "created", dexEvent "token" "transfer", dexEvent "pool" "swapped"]

def poolTrees : Dependencies :=
  .parse [("pool", some (.followed [⟨"pool", "created"⟩] (.last [⟨"pool", "swapped"⟩]))),
    ("token", none)] (by decide)

theorem protected_iff_onePool : ∃ run,
    startIndexing plainNames onePool poolTrees false (blockTasks onePool false) = some run ∧
      Protected plainNames run "ethereum" := by
  have hStarts : (startIndexing plainNames onePool poolTrees false
      (blockTasks onePool false)).isSome = true := by decide
  obtain ⟨run, hRun⟩ := Option.isSome_iff_exists.mp hStarts
  have hGroup : ∀ c ∈ blockTasks onePool false,
      groupOf poolTrees c = none ∨ groupOf poolTrees c = some "pool" := by decide
  have hDetail : ∀ e ∈ configured onePool "ethereum",
      OneDetail plainNames onePool "ethereum" e := by decide
  refine ⟨run, hRun, (protected_iff (by decide) (List.Perm.refl _) hRun).mpr (Or.inr ?_)⟩
  refine ⟨?_, ?_, ?_, ?_⟩
  · intro c1 c2 h1 h2 name1 name2 hName1 hName2
    have hPool1 := (hGroup c1 h1.1).resolve_left (by simp [hName1])
    have hPool2 := (hGroup c2 h2.1).resolve_left (by simp [hName2])
    exact Option.some.inj ((hName1.symm.trans hPool1).trans (hPool2.symm.trans hName2))
  · intro c h name hName
    have hPool := (hGroup c h.1).resolve_left (by simp [hName])
    cases hPool.symm.trans hName
    exact ⟨configOf false (⟨"dex", "pool", "created", []⟩, ⟨"ethereum", none⟩),
      by decide, rfl, by decide⟩
  · rintro c ⟨hTask, -, hNetwork⟩
    exact hDetail _ (hNetwork ▸ configured_of_task hTask)
  · intro _ d hd hNetwork
    exact hDetail _ (hNetwork ▸ configured_of_trace hd)

/-- A pool and a vault, each with a dependency tree. -/
def poolAndVault : Manifest where
  name := "dex"
  networks := [⟨"ethereum", true⟩]
  nativeTransfers := ⟨false, none, []⟩
  contractDetails := [⟨"ethereum", none⟩]
  registry := [dexEvent "pool" "created", dexEvent "vault" "opened"]

def twoTrees : Dependencies :=
  .parse [("pool", some (.last [⟨"pool", "created"⟩])),
    ("vault", some (.last [⟨"vault", "opened"⟩]))] (by decide)

/-- The group of the pool takes the coordinator, and the group of the vault runs without. -/
theorem second_group_unprotected : "ethereum" ∈ reorgConfigs poolAndVault ∧ ∃ run,
    startIndexing plainNames poolAndVault twoTrees false (blockTasks poolAndVault false) =
      some run ∧ ¬ Protected plainNames run "ethereum" := by
  have hStarts : (startIndexing plainNames poolAndVault twoTrees false
      (blockTasks poolAndVault false)).map (fun run => run.pipelines.map fun p =>
        (p.network, p.liveIndexing, p.coordinator.isSome)) =
      some [("ethereum", true, true), ("ethereum", true, false)] := by decide
  obtain ⟨run, hRun, hPipelines⟩ := Option.map_eq_some_iff.mp hStarts
  refine ⟨by decide, run, hRun, fun hProtected => ?_⟩
  have hVault : ("ethereum", true, false) ∈ run.pipelines.map fun p =>
      (p.network, p.liveIndexing, p.coordinator.isSome) := by simp [hPipelines]
  obtain ⟨p, hp, hEq⟩ := List.mem_map.mp hVault
  simp only [Prod.mk.injEq] at hEq
  obtain ⟨hNetwork, hLive, hNone⟩ := hEq
  obtain ⟨coordinator, -, hSome, -⟩ := hProtected p hp hLive hNetwork
  simp [hSome] at hNone

end Rindexer.Indexer.Protection
