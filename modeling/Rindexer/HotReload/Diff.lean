import Mathlib.Data.String.Basic
import Rindexer.Indexer.LogProvider
import Rindexer.Lib.OrderedMap

/-! The difference of two manifests as hot reload computes it, and the action it takes.  A section of
the manifest that is compared by its text stands as the YAML value that serde makes of it. -/

namespace Rindexer.HotReload

open Rindexer.Lib Rindexer.Provider

/-- A serialised value.  The entries of a hash map stand in the order in which the map iterates. -/
inductive Yaml
  | scalar (text : String)
  | seq (items : List Yaml)
  | map (entries : List (String × Yaml))

/-! ### Manifests -/

inductive ProjectType
  | rust
  | noCode
deriving DecidableEq, Repr

inductive BlockPollFrequency
  | pollRateMs (millis : Nat)
  | division (divisor : Nat)
  | rapid
  | rpcOptimized
deriving DecidableEq, Repr

structure HypersyncConfig where
  url : Option String
  apiToken : Option String
  maxBlockRange : Option Nat
  streamConcurrency : Option Nat
  batchSize : Option Nat
  maxBatchSize : Option Nat
  responseBytesTarget : Option Nat
deriving DecidableEq, Repr

structure ReorgHandlingConfig where
  enabled : Bool
  windowSize : Option Nat
deriving DecidableEq, Repr

structure RethConfig where
  enabled : Bool
  logging : Bool
  cliArgs : List String
deriving DecidableEq, Repr

structure GetLogsSettings where
  addressFiltering : AddressFiltering
deriving DecidableEq, Repr

structure Network where
  name : String
  chainId : Nat
  rpc : String
  blockPollFrequency : Option BlockPollFrequency
  computeUnitsPerSecond : Option Nat
  maxBlockRange : Option Nat
  getLogsSettings : Option GetLogsSettings
  disableLogsBloomChecks : Option Bool
  hypersync : Option HypersyncConfig
  multicall3Address : Option String
  reth : Option RethConfig
  reorgHandling : Option ReorgHandlingConfig
deriving DecidableEq, Repr

/-- A contract: its name, and the whole of it serialised. -/
structure Contract where
  name : String
  yaml : Yaml

structure Manifest where
  name : String
  projectType : ProjectType
  config : Yaml
  constants : Yaml
  timestamps : Option Bool
  networks : List Network
  storage : Yaml
  nativeTransfers : Yaml
  contracts : List Contract
  global : Yaml
  graphql : Yaml

/-! ### Changes, plans and actions -/

inductive ManifestChange
  | projectNameChanged
  | projectTypeChanged
  | contractAdded (name : String)
  | contractRemoved (name : String)
  | contractModified (name : String)
  | networkAdded (name : String)
  | networkRemoved (name : String)
  | networkRpcChanged (name : String)
  | networkConfigChanged (name : String)
  | configChanged
  | storageChanged
  | streamsChanged (name : String)
  | graphqlChanged
  | nativeTransfersChanged
  | globalChanged
deriving DecidableEq, Repr

structure RestartPlan where
  contractsToAdd : List String := []
  contractsToRemove : List String := []
  contractsToRestart : List String := []
  networksToReconnect : List String := []
  storageChanged : Bool := false
deriving DecidableEq, Repr

def RestartPlan.isEmpty (plan : RestartPlan) : Bool :=
  plan.contractsToAdd.isEmpty && plan.contractsToRemove.isEmpty &&
    plan.contractsToRestart.isEmpty && plan.networksToReconnect.isEmpty && !plan.storageChanged

inductive ReloadAction
  | noChange
  | hotApply
  | selectiveRestart (plan : RestartPlan)
  | requiresFullRestart (reason : String)
deriving DecidableEq, Repr

structure ManifestDiff where
  action : ReloadAction
  changes : List ManifestChange
deriving DecidableEq, Repr

/-- What the comparisons of the sections write: the changes, the plan, and whether only the
configuration has changed. -/
structure Found where
  changes : List ManifestChange := []
  plan : RestartPlan := {}
  configOnly : Bool := true
deriving DecidableEq, Repr

namespace Found

/-- A change that running components can take. -/
def push (found : Found) (change : ManifestChange) : Found :=
  { found with changes := found.changes ++ [change] }

/-- A change that needs a restart according to `plan`. -/
def restart (found : Found) (change : ManifestChange) (plan : RestartPlan) : Found :=
  { changes := found.changes ++ [change], plan, configOnly := false }

end Found

/-! ### Comparison by section -/

/-- The hash map of a list by name: of two entries with one name the later one stays.  In the source
the order of iteration is not fixed. -/
def byName {α : Type} (name : α → String) (items : List α) : OrderedMap String α :=
  OrderedMap.insertAll ∅ (items.map fun item => (name item, item))

/-- The comparison of a network other than by its URL.  The source compares the `Debug` texts of the
poll frequency, the block range and HyperSync's settings, which tell such values apart. -/
def otherChanged (oldNet newNet : Network) : Bool :=
  oldNet.chainId ≠ newNet.chainId ||
    oldNet.blockPollFrequency ≠ newNet.blockPollFrequency ||
    oldNet.computeUnitsPerSecond ≠ newNet.computeUnitsPerSecond ||
    oldNet.maxBlockRange ≠ newNet.maxBlockRange ||
    oldNet.hypersync ≠ newNet.hypersync

def networkAdded (oldNetworks : OrderedMap String Network) (found : Found) (name : String) : Found :=
  if (oldNetworks.get? name).isNone then found.restart (.networkAdded name) found.plan else found

def networkRemoved (newNetworks : OrderedMap String Network) (found : Found) (name : String) :
    Found :=
  if (newNetworks.get? name).isNone then found.restart (.networkRemoved name) found.plan else found

def rpcModified (name : String) (oldNet newNet : Network) (found : Found) : Found :=
  if oldNet.rpc ≠ newNet.rpc then
    found.restart (.networkRpcChanged name)
      { found.plan with networksToReconnect := found.plan.networksToReconnect ++ [name] }
  else found

def otherModified (name : String) (oldNet newNet : Network) (found : Found) : Found :=
  if otherChanged oldNet newNet then found.restart (.networkConfigChanged name) found.plan
  else found

def networkModified (newNetworks : OrderedMap String Network) (found : Found)
    (entry : String × Network) : Found :=
  match newNetworks.get? entry.1 with
  | none => found
  | some newNet => otherModified entry.1 entry.2 newNet (rpcModified entry.1 entry.2 newNet found)

def diffNetworks (old new : Manifest) (found : Found) : Found :=
  let oldNetworks := byName Network.name old.networks
  let newNetworks := byName Network.name new.networks
  let found := newNetworks.keys.foldl (networkAdded oldNetworks) found
  let found := oldNetworks.keys.foldl (networkRemoved newNetworks) found
  oldNetworks.entries.foldl (networkModified newNetworks) found

section Texts

-- `toString?` is `serde_yaml::to_string`, which may fail.
variable (toString? : Yaml → Option String)

/-- The text by which a section is compared: an empty one if it cannot be written. -/
def yamlText (value : Yaml) : String := (toString? value).getD ""

def contractAdded (oldContracts : OrderedMap String Contract) (found : Found) (name : String) :
    Found :=
  if (oldContracts.get? name).isNone then
    found.restart (.contractAdded name)
      { found.plan with contractsToAdd := found.plan.contractsToAdd ++ [name] }
  else found

def contractRemoved (newContracts : OrderedMap String Contract) (found : Found) (name : String) :
    Found :=
  if (newContracts.get? name).isNone then
    found.restart (.contractRemoved name)
      { found.plan with contractsToRemove := found.plan.contractsToRemove ++ [name] }
  else found

def contractModified (newContracts : OrderedMap String Contract) (found : Found)
    (entry : String × Contract) : Found :=
  match newContracts.get? entry.1 with
  | none => found
  | some newContract =>
    if yamlText toString? entry.2.yaml ≠ yamlText toString? newContract.yaml then
      found.restart (.contractModified entry.1)
        { found.plan with contractsToRestart := found.plan.contractsToRestart ++ [entry.1] }
    else found

def diffContracts (old new : Manifest) (found : Found) : Found :=
  let oldContracts := byName Contract.name old.contracts
  let newContracts := byName Contract.name new.contracts
  let found := newContracts.keys.foldl (contractAdded oldContracts) found
  let found := oldContracts.keys.foldl (contractRemoved newContracts) found
  oldContracts.entries.foldl (contractModified toString? newContracts) found

/-- The comparison of a section that running components can take. -/
def diffSection (change : ManifestChange) (old new : Yaml) (found : Found) : Found :=
  if yamlText toString? old ≠ yamlText toString? new then found.push change else found

def diffConfig (old new : Manifest) : Found → Found :=
  diffSection toString? .configChanged old.config new.config

def diffStorage (old new : Manifest) (found : Found) : Found :=
  if yamlText toString? old.storage ≠ yamlText toString? new.storage then
    found.restart .storageChanged { found.plan with storageChanged := true }
  else found

def diffGraphql (old new : Manifest) : Found → Found :=
  diffSection toString? .graphqlChanged old.graphql new.graphql

def diffNativeTransfers (old new : Manifest) (found : Found) : Found :=
  if yamlText toString? old.nativeTransfers ≠ yamlText toString? new.nativeTransfers then
    found.restart .nativeTransfersChanged found.plan
  else found

def diffGlobal (old new : Manifest) : Found → Found :=
  diffSection toString? .globalChanged old.global new.global

/-- What the sections of two manifests of one name and type differ in. -/
def diffSections (old new : Manifest) : Found :=
  diffGlobal toString? old new <|
  diffNativeTransfers toString? old new <|
  diffGraphql toString? old new <|
  diffStorage toString? old new <|
  diffConfig toString? old new <|
  diffContracts toString? old new <|
  diffNetworks old new {}

def computeDiff (old new : Manifest) : ManifestDiff :=
  if old.name ≠ new.name then
    ⟨.requiresFullRestart
      "Indexer name changed -- this affects DB schema naming. Restart required.",
      [.projectNameChanged]⟩
  else if old.projectType ≠ new.projectType then
    ⟨.requiresFullRestart "Project type changed (rust <-> no-code). Restart required.",
      [.projectTypeChanged]⟩
  else
    let found := diffSections toString? old new
    if found.changes.isEmpty then ⟨.noChange, found.changes⟩
    else if found.configOnly && found.plan.isEmpty then ⟨.hotApply, found.changes⟩
    else ⟨.selectiveRestart found.plan, found.changes⟩

end Texts

end Rindexer.HotReload
