import Mathlib.Data.Nat.Digits.Defs
import Rindexer.Lib.Joined
import Rindexer.Manifest

/-! The contracts of a manifest and their ABIs: which events of an ABI a contract needs, which of them
it stores, and the signature of an event.  A name is the characters of a string. -/

namespace Rindexer.Manifest

open Rindexer.Lib

/-- A parameter of an entry of an ABI, or a component of a tuple. -/
inductive ABIInput
  | mk (name type : List Char) (indexed : Option Bool) (components : Option (List ABIInput))

namespace ABIInput

def name : ABIInput → List Char
  | mk name _ _ _ => name

def type : ABIInput → List Char
  | mk _ type _ _ => type

def indexed : ABIInput → Option Bool
  | mk _ _ indexed _ => indexed

def components : ABIInput → Option (List ABIInput)
  | mk _ _ _ components => components

end ABIInput

structure ABIItem where
  inputs : List ABIInput
  name : List Char
  type : List Char

inductive ParamTypeError
  | missingComponents
deriving DecidableEq, Repr

mutual

/-- The type of a parameter as a signature has it: a tuple by its components, followed by the brackets
of an array. -/
def formatParamType : ABIInput → Except ParamTypeError (List Char)
  | .mk _ type _ components =>
    let baseType := type.takeWhile (· ≠ '[')
    let arraySuffix := type.dropWhile (· ≠ '[')
    if baseType = "tuple".toList then
      match components with
      | none => .error .missingComponents
      | some components => do
        let inner ← formatParamTypes components
        return '(' :: joinWith ',' inner ++ ')' :: arraySuffix
    else .ok (baseType ++ arraySuffix)

def formatParamTypes : List ABIInput → Except ParamTypeError (List (List Char))
  | [] => .ok []
  | input :: inputs => do
    let text ← formatParamType input
    let texts ← formatParamTypes inputs
    return text :: texts

end

def ABIItem.formatEventSignature (item : ABIItem) : Except ParamTypeError (List Char) := do
  let params ← formatParamTypes item.inputs
  return item.name ++ '(' :: joinWith ',' params ++ [')']

structure EventInfo where
  name : List Char
  inputs : List ABIInput
  signature : List Char

def EventInfo.new (item : ABIItem) : Except ParamTypeError EventInfo := do
  let signature ← item.formatEventSignature
  return ⟨item.name, item.inputs, signature⟩

def extractEventNamesAndSignaturesFromAbi : List ABIItem → Except ParamTypeError (List EventInfo)
  | [] => .ok []
  | item :: items =>
    if item.type = "event".toList then do
      let event ← EventInfo.new item
      let events ← extractEventNamesAndSignaturesFromAbi items
      return event :: events
    else extractEventNamesAndSignaturesFromAbi items

/-- An event of the list is the one of an entry. -/
theorem exists_item_of_mem_extract {items : List ABIItem} {events : List EventInfo}
    (h : extractEventNamesAndSignaturesFromAbi items = .ok events) {event : EventInfo}
    (hEvent : event ∈ events) :
    ∃ item ∈ items, item.type = "event".toList ∧ EventInfo.new item = .ok event := by
  induction items generalizing events with
  | nil =>
    cases h
    exact absurd hEvent List.not_mem_nil
  | cons item items ih =>
    rw [extractEventNamesAndSignaturesFromAbi] at h
    split at h
    next hType =>
      cases hNew : EventInfo.new item with
      | error e =>
        rw [hNew] at h
        exact nomatch h
      | ok first =>
        cases hRest : extractEventNamesAndSignaturesFromAbi items with
        | error e =>
          rw [hNew, hRest] at h
          exact nomatch h
        | ok rest =>
          rw [hNew, hRest] at h
          cases h
          rcases List.mem_cons.mp hEvent with rfl | hEvent
          · exact ⟨item, List.mem_cons_self, hType, hNew⟩
          · obtain ⟨item', hItem, hSpec⟩ := ih hRest hEvent
            exact ⟨item', List.mem_cons_of_mem _ hItem, hSpec⟩
    next =>
      obtain ⟨item', hItem, hSpec⟩ := ih h hEvent
      exact ⟨item', List.mem_cons_of_mem _ hItem, hSpec⟩

theorem EventInfo.eq_of_new {item : ABIItem} {event : EventInfo} (h : EventInfo.new item = .ok event) :
    event.name = item.name ∧ event.inputs = item.inputs ∧
      item.formatEventSignature = .ok event.signature := by
  rw [EventInfo.new] at h
  cases hSignature : item.formatEventSignature with
  | error e =>
    rw [hSignature] at h
    exact nomatch h
  | ok signature =>
    rw [hSignature] at h
    cases h
    exact ⟨rfl, rfl, rfl⟩

/-! ### Contracts -/

structure FactoryDetailsYaml where
  name : List Char
  eventName : List Char
  inputNames : List (List Char)
deriving DecidableEq, Repr

structure ContractDetails where
  network : List Char
  /-- The names of the events of its filter. -/
  filter : Option (List (List Char))
  factory : Option FactoryDetailsYaml
deriving DecidableEq, Repr

structure CronEntry where
  network : Option (List Char)
  startBlock : Option Nat
deriving DecidableEq, Repr

/-- A custom table with the schema it is to live in and its cron triggers. -/
structure ContractTable where
  definition : Table
  database : Option (List Char)
  cron : Option (List CronEntry)
deriving DecidableEq, Repr

namespace ContractTable

def name (table : ContractTable) : List Char := table.definition.name.toList

def hasCron (table : ContractTable) : Bool := table.cron.any fun entries => !entries.isEmpty

def eventNames (table : ContractTable) : List (List Char) :=
  table.definition.events.map fun mapping => mapping.event.toList

end ContractTable

/-- A contract, with the entries that its ABI files have. -/
structure Contract where
  name : List Char
  details : List ContractDetails
  abi : List ABIItem
  includeEvents : Option (List (List Char))
  tables : Option (List ContractTable)

namespace Contract

/-- Whether the contract is one of filters.  That details are mixed is an error before. -/
def isFilter (contract : Contract) : Bool := contract.details.any fun detail => detail.filter.isSome

def contractNameToFilterName (contract : Contract) : List Char := contract.name ++ "Filter".toList

def beforeModifyNameIfFilterReadonly (contract : Contract) : List Char :=
  if contract.isFilter then contract.contractNameToFilterName else contract.name

/-- The contract as it is registered for indexing. -/
def identifyAndModifyFilter (contract : Contract) : Contract :=
  if contract.isFilter then { contract with name := contract.contractNameToFilterName }
  else contract

def getTableEventNames (contract : Contract) : List (List Char) :=
  (contract.tables.getD []).flatMap ContractTable.eventNames

def isEventInIncludeEvents (contract : Contract) (eventName : List Char) : Bool :=
  match contract.includeEvents with
  | some events => events.contains eventName
  | none => false

/-- Whether the raw events of this name are stored. -/
def storesRawEvents (contract : Contract) (eventName : List Char) : Bool :=
  contract.isEventInIncludeEvents eventName ||
    contract.tables.any fun tables => tables.any fun table => table.eventNames.contains eventName

/-- The entries of the ABI that the contract needs: all of them if it names no event. -/
def readAbiItems (contract : Contract) : List ABIItem :=
  let included := contract.includeEvents.getD []
  let ofTables := contract.getTableEventNames
  if included = [] ∧ ofTables = [] then contract.abi
  else contract.abi.filter fun item =>
    item.type ≠ "event".toList || (included ++ ofTables).contains item.name

/-- The entries that are registered, those of its filters if it is a contract of filters. -/
def getAbiItems (contract : Contract) (isFilter : Bool) : List ABIItem :=
  if isFilter then
    let filterEventNames := contract.details.flatMap fun detail => detail.filter.getD []
    contract.readAbiItems.filter fun item =>
      item.type = "event".toList && filterEventNames.contains item.name
  else contract.readAbiItems

theorem identifyAndModifyFilter_eq (contract : Contract) :
    contract.identifyAndModifyFilter =
      { contract with name := contract.beforeModifyNameIfFilterReadonly } := by
  rw [identifyAndModifyFilter, beforeModifyNameIfFilterReadonly]
  split <;> rfl

end Contract

end Rindexer.Manifest
