import Rindexer.Indexer.Dependency
import Rindexer.Indexer.Registration

/-! How the coordinators reach the pipelines: one is built for each network, the events that depend
on nothing get it when they are spawned, the dependency groups take it from a map of its own, and the
events that depend on another contract join their group after that. -/

namespace Rindexer.Indexer.Protection

open Rindexer.Indexer

/-- The dependency trees of the contracts, as `parse` and the relationships give them. -/
structure Dependencies where
  entries : List ContractEventDependencies
  names_nodup : (entries.map ContractEventDependencies.contractName).Nodup
  events_in_tree : ∀ d ∈ entries, ∀ e ∈ d.eventDependencies.dependencyEvents,
    e ∈ d.eventDependencies.tree.collectDependencyEvents

/-- `ContractEventDependencies::parse`, over the names and the trees of the contracts. -/
def Dependencies.parse (contracts : List (String × Option EventsDependencyTree))
    (hNames : (contracts.map Prod.fst).Nodup) : Dependencies where
  entries := contracts.filterMap fun contract => contract.2.map fun tree =>
    ⟨contract.1, ⟨tree, tree.collectDependencyEvents⟩⟩
  names_nodup := by
    have hMap : ∀ contracts : List (String × Option EventsDependencyTree),
        ((contracts.filterMap fun contract => contract.2.map fun tree =>
          (⟨contract.1, ⟨tree, tree.collectDependencyEvents⟩⟩ : ContractEventDependencies)).map
            ContractEventDependencies.contractName).Sublist (contracts.map Prod.fst) := by
      intro contracts
      induction contracts with
      | nil => exact List.Sublist.refl _
      | cons contract rest ih =>
        rcases contract with ⟨name, _ | tree⟩
        · exact ih.cons name
        · exact ih.cons_cons name
    exact (hMap contracts).nodup hNames
  events_in_tree := by
    intro d hd e he
    obtain ⟨contract, -, hTree⟩ := List.mem_filterMap.mp hd
    obtain ⟨tree, -, rfl⟩ := Option.map_eq_some_iff.mp hTree
    exact he

/-- An event on one of its details. -/
structure EventProcessingConfig where
  source : EventSource
  network : String
  liveIndexing : Bool
deriving DecidableEq, Repr

def configOf (noLiveIndexingForced : Bool) (d : EventSource × NetworkContract) :
    EventProcessingConfig :=
  ⟨d.1, d.2.network, !noLiveIndexingForced && d.2.isLiveIndexing⟩

/-- Every text `Filter` removed. -/
def removeFilter : List Char → List Char
  | 'F' :: 'i' :: 'l' :: 't' :: 'e' :: 'r' :: rest => removeFilter rest
  | c :: rest => c :: removeFilter rest
  | [] => []

def withoutFilter (contractName : String) : String :=
  String.ofList (removeFilter contractName.toList)

structure DependencyStatus where
  hasDependencyInOwnContract : Bool
  dependenciesInOtherContracts : List String
deriving DecidableEq, Repr

def dependenciesStatus (contractName eventName : String)
    (dependencies : List ContractEventDependencies) : DependencyStatus where
  hasDependencyInOwnContract :=
    (dependencies.find? fun d => d.contractName = contractName).any fun d =>
      ⟨d.contractName, eventName⟩ ∈ d.eventDependencies.dependencyEvents
  dependenciesInOtherContracts :=
    (dependencies.filter fun d => d.contractName ≠ contractName ∧
      (⟨contractName, eventName⟩ ∈ d.eventDependencies.dependencyEvents ∨
        ⟨withoutFilter contractName, eventName⟩ ∈ d.eventDependencies.dependencyEvents)).map
      ContractEventDependencies.contractName

/-- Where a coordinator was built. -/
inductive Stage
  | startup
  | dependency
deriving DecidableEq, Repr

/-- A coordinator behind its mutex.  Two handles with one stage and one network are one object. -/
structure SharedCoordinator where
  network : String
  stage : Stage
  eventTables : List Reorg.EventTableInfo
  derivedTables : List Reorg.DerivedTableInfo

abbrev Coordinators := String → Option SharedCoordinator

structure ContractEventsDependenciesConfig where
  contractName : String
  eventDependencies : EventDependencies
  eventsConfig : List EventProcessingConfig
  reorgCoordinators : Coordinators

namespace ContractEventsDependenciesConfig

/-- Adds a configuration to the first group of a name. -/
def addEventConfig (missing : Option (List ContractEventsDependenciesConfig)) (name : String)
    (config : EventProcessingConfig) :
    List ContractEventsDependenciesConfig → Option (List ContractEventsDependenciesConfig)
  | [] => missing
  | group :: groups =>
    if group.contractName = name then
      some ({ group with eventsConfig := group.eventsConfig ++ [config] } :: groups)
    else (addEventConfig missing name config groups).map (group :: ·)

/-- `none` is the failed `expect`. -/
def addToEventOrNewEntry (dependencies : List ContractEventDependencies)
    (config : EventProcessingConfig) (groups : List ContractEventsDependenciesConfig) :
    Option (List ContractEventsDependenciesConfig) :=
  let newEntry := (dependencies.find? fun d => d.contractName = config.source.contractName).map
    fun d => [⟨config.source.contractName, d.eventDependencies, [config], fun _ => none⟩]
  addEventConfig newEntry config.source.contractName config groups

/-- `none` is the panic. -/
def addToEventOrPanic (groups : List ContractEventsDependenciesConfig)
    (apply : String × EventProcessingConfig) : Option (List ContractEventsDependenciesConfig) :=
  addEventConfig none apply.1 apply.2 groups

/-- The networks that a group follows when the coordinators are handed out. -/
def liveNetworks (group : ContractEventsDependenciesConfig) : List String :=
  ((group.eventsConfig.filter fun c => c.liveIndexing).map EventProcessingConfig.network).dedup

end ContractEventsDependenciesConfig

open ContractEventsDependenciesConfig

/-- What the loop over the finished block tasks collects. -/
structure Collected where
  nonBlocking : List (EventProcessingConfig × Option SharedCoordinator)
  applyAfterProcessing : List (String × EventProcessingConfig)
  groups : List ContractEventsDependenciesConfig

/-- A task that indexes its events on one network, and the coordinator that it has. -/
structure Pipeline where
  network : String
  liveIndexing : Bool
  events : List EventSource
  coordinator : Option SharedCoordinator

structure Run where
  networkCoordinators : Coordinators
  pipelines : List Pipeline

section Start

variable (naming : Naming) (m : Manifest) (dependencies : Dependencies)
  (noLiveIndexingForced : Bool)

/-- The networks with reorg handling. -/
def reorgConfigs : List String :=
  ((m.networks.filter Network.reorgHandling).map Network.name).dedup

def newCoordinator (stage : Stage) (network : String) : SharedCoordinator :=
  ⟨network, stage, networkEventTables naming m network, networkDerivedTables naming m network⟩

/-- The first loop that builds coordinators, after which a historical pass drops them. -/
def networkCoordinators : Coordinators :=
  (reorgConfigs m).foldl (fun coordinators network =>
    let hasProvider := (detailsOf m.registry).any (fun d => d.2.network == network) ||
      (detailsOf m.traceRegistry).any fun d => d.2.network == network
    if hasProvider && !noLiveIndexingForced then
      Function.update coordinators network (some (newCoordinator naming m .startup network))
    else coordinators) fun _ => none

/-- One finished block task.  `none` is a panic. -/
def receive (coordinators : Coordinators) (s : Collected) (config : EventProcessingConfig) :
    Option Collected :=
  let status :=
    dependenciesStatus config.source.contractName config.source.eventName dependencies.entries
  match status.dependenciesInOtherContracts with
  | [] =>
    if status.hasDependencyInOwnContract then
      (addToEventOrNewEntry dependencies.entries config s.groups).map fun groups =>
        { s with groups := groups }
    else
      let reorgCoordinator :=
        if config.liveIndexing && !noLiveIndexingForced then coordinators config.network else none
      some { s with nonBlocking := s.nonBlocking ++ [(config, reorgCoordinator)] }
  | [other] => some { s with applyAfterProcessing := s.applyAfterProcessing ++ [(other, config)] }
  | _ :: _ :: _ => none

/-- One network of the dependency events: the coordinator that it has, or a fresh one. -/
def shareOrBuild (groups : List ContractEventsDependenciesConfig)
    (s : Coordinators × Coordinators) (network : String) : Coordinators × Coordinators :=
  let (depCoordinators, coordinators) := s
  match coordinators network with
  | some coord => (Function.update depCoordinators network (some coord), coordinators)
  | none =>
    let hasProvider := (groups.any fun g => g.eventsConfig.any fun c => c.network == network) ||
      (detailsOf m.traceRegistry).any fun d => d.2.network == network
    if network ∈ reorgConfigs m ∧ hasProvider then
      let shared := some (newCoordinator naming m .dependency network)
      (Function.update depCoordinators network shared, Function.update coordinators network shared)
    else s

/-- Moves the coordinator of a network from the map to a group. -/
def takeCoordinator (s : Coordinators × Coordinators) (network : String) :
    Coordinators × Coordinators :=
  match s.1 network with
  | some coord => (Function.update s.1 network none, Function.update s.2 network (some coord))
  | none => s

/-- The groups take the coordinators of their networks, one group after the other. -/
def inject : Coordinators → List ContractEventsDependenciesConfig →
    List ContractEventsDependenciesConfig
  | _, [] => []
  | depCoordinators, group :: groups =>
    let (rest, taken) :=
      group.liveNetworks.foldl takeCoordinator (depCoordinators, group.reorgCoordinators)
    { group with reorgCoordinators := taken } :: inject rest groups

/-- The dependency groups after the hand-out, with the coordinators of the networks. -/
def handOut (coordinators : Coordinators) (groups : List ContractEventsDependenciesConfig) :
    List ContractEventsDependenciesConfig × Coordinators :=
  if noLiveIndexingForced then (groups, coordinators)
  else
    let depNetworks := (groups.flatMap liveNetworks).dedup
    let (depCoordinators, coordinators) :=
      depNetworks.foldl (shareOrBuild naming m groups) (fun _ => none, coordinators)
    (inject depCoordinators groups, coordinators)

/-- `start_indexing_traces`: one pipeline for each network of the native transfers. -/
def startIndexingTraces (coordinators : Coordinators) : List Pipeline :=
  if !m.nativeTransfers.enabled then []
  else if noLiveIndexingForced && m.hasAnyLiveIndexing then []
  else
    let details := detailsOf m.traceRegistry
    (details.map fun d => d.2.network).dedup.map fun network =>
      { network := network
        liveIndexing :=
          (details.find? fun d => d.2.network = network).any fun d => d.2.isLiveIndexing
        events := (details.filter fun d => d.2.network = network).map Prod.fst
        coordinator := coordinators network }

/-- Whether a node of the tree selects a configuration. -/
def selects (dependency : ContractEventMapping) (config : EventProcessingConfig) : Bool :=
  (config.source.contractName == dependency.contractName ||
    withoutFilter config.source.contractName == dependency.contractName) &&
      config.source.eventName == dependency.eventName

/-- The events that a group follows live, in the order of its tree. -/
def liveIndexingEvents (group : ContractEventsDependenciesConfig) : List EventProcessingConfig :=
  group.eventDependencies.tree.collectDependencyEvents.flatMap fun dependency =>
    group.eventsConfig.filter fun c => selects dependency c && c.liveIndexing

/-- `process_contract_events_with_dependencies` when the history has gone well: one pipeline for each
network that the group follows. -/
def processContractEventsWithDependencies (group : ContractEventsDependenciesConfig) :
    List Pipeline :=
  ((liveIndexingEvents group).map EventProcessingConfig.network).dedup.map fun network =>
    { network := network
      liveIndexing := true
      events := ((liveIndexingEvents group).filter fun c => c.network = network).map
        EventProcessingConfig.source
      coordinator := group.reorgCoordinators network }

def processNonBlockingEvent (spawned : EventProcessingConfig × Option SharedCoordinator) :
    Pipeline where
  network := spawned.1.network
  liveIndexing := spawned.1.liveIndexing
  events := [spawned.1.source]
  coordinator := spawned.2

/-- `start_indexing`, for block tasks that finish in the order of `arrivals`. -/
def startIndexing (arrivals : List EventProcessingConfig) : Option Run := do
  let coordinators := networkCoordinators naming m noLiveIndexingForced
  let collected ← arrivals.foldlM (receive dependencies noLiveIndexingForced coordinators)
    ⟨[], [], []⟩
  let handed := handOut naming m noLiveIndexingForced coordinators collected.groups
  let groups ← collected.applyAfterProcessing.foldlM addToEventOrPanic handed.1
  some ⟨handed.2, collected.nonBlocking.map processNonBlockingEvent ++
    startIndexingTraces m noLiveIndexingForced handed.2 ++
    groups.flatMap processContractEventsWithDependencies⟩

end Start

end Rindexer.Indexer.Protection
