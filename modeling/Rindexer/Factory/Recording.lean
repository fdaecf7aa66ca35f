import Mathlib.Data.List.Dedup
import Rindexer.Lib.Transition

/-! The children of a factory: how they are taken from the decoded logs of its event, and how an update
adds them to the store. -/

namespace Rindexer.Factory

open Rindexer.Lib

/-! ### Decoded logs -/

inductive DynSolValue (Address : Type)
  | address (a : Address)
  /-- A tuple or an array of fixed length. -/
  | fixedSeq (values : List (DynSolValue Address))
  | other

def DynSolValue.asAddress {Address : Type} : DynSolValue Address → Option Address
  | .address a => some a
  | _ => none

inductive Param
  | mk (name : List Char) (components : List Param)

def Param.name : Param → List Char
  | mk name _ => name

def Param.components : Param → List Param
  | mk _ components => components

structure LogParam (Address : Type) where
  name : List Char
  value : DynSolValue Address
  components : List Param

structure ParsedLog (Address : Type) where
  params : List (LogParam Address)

section Values

variable {Address : Type}

/-- The value at a path of component names.  Where the source panics, there is none either. -/
def valueAt : List Param → DynSolValue Address → List (List Char) → Option (DynSolValue Address)
  | _, value, [] => some value
  | components, value, part :: path =>
    match components.zipIdx.find? fun c => c.1.name = part, value with
    | some (component, idx), .fixedSeq values =>
      values[idx]?.bind fun value => valueAt component.components value path
    | _, _ => none

def LogParam.getParamValue (param : LogParam Address) (name : List Char) :
    Option (DynSolValue Address) :=
  if param.components = [] then none
  else valueAt param.components param.value (name.splitOn '.')

def ParsedLog.getParamValue (log : ParsedLog Address) (name : List Char) :
    Option (DynSolValue Address) :=
  match name.dropWhile (· ≠ '.') with
  | _ :: c :: rest =>
    (log.params.find? fun param => param.name = name.takeWhile (· ≠ '.')).bind fun param =>
      param.getParamValue (c :: rest)
  | _ => (log.params.find? fun param => param.name = name).map LogParam.value

end Values

/-! ### Updates -/

structure KnownFactoryDeployedAddress (Address : Type) where
  factoryAddress : Address
  address : Address
deriving DecidableEq, Repr

/-- A log of the factory, and the address that emitted it. -/
structure EventResult (Address Log : Type) where
  log : Log
  address : Address

/-- Where the children are kept: the first of these that the manifest sets up. -/
inductive Storage
  | postgres
  | clickhouse
  | csv
deriving DecidableEq, Repr

inductive UpdateKnownFactoryDeployedAddressesError
  | logsParse
  | postgresWrite
  | clickhouseWrite
deriving DecidableEq, Repr

section Updates

variable {Address Log : Type} [DecidableEq Address]

/-- The children in the logs of a batch, each once: one for each input name and log. -/
def knownAddresses (parseLog : Log → Option (ParsedLog Address)) (inputNames : List (List Char))
    (events : List (EventResult Address Log)) :
    Option (List (KnownFactoryDeployedAddress Address)) :=
  (events.mapM fun event => (parseLog event.log).bind fun log =>
    inputNames.mapM fun name => ((log.getParamValue name).bind DynSolValue.asAddress).map fun a =>
      ⟨event.address, a⟩).map fun items => items.flatten.dedup

/-- The rows of a store that nothing was written to: a CSV file that does not exist has none. -/
def Storage.new : Storage → Option (List (KnownFactoryDeployedAddress Address))
  | .csv => none
  | _ => some []

/-- The insert of an update.  The Postgres table has all its columns in its primary key, and the insert
is a plain one; whether ClickHouse takes an insert without rows is up to ClickHouse. -/
def Storage.insert (emptyInsert : Bool) (stored : Option (List (KnownFactoryDeployedAddress Address)))
    (addresses : List (KnownFactoryDeployedAddress Address)) : Storage →
    Except UpdateKnownFactoryDeployedAddressesError
      (Option (List (KnownFactoryDeployedAddress Address)))
  | .postgres =>
    if addresses = [] then .ok stored
    else if ∃ a ∈ addresses, a ∈ stored.getD [] then .error .postgresWrite
    else .ok (some (stored.getD [] ++ addresses))
  | .clickhouse =>
    if addresses = [] ∧ emptyInsert = false then .error .clickhouseWrite
    else .ok (some (stored.getD [] ++ addresses))
  | .csv => .ok (some (stored.getD [] ++ addresses))

/-- The children that a read of the store gives. -/
def knownDeployed (stored : Option (List (KnownFactoryDeployedAddress Address))) :
    Option (List Address) :=
  stored.map fun rows => (rows.map KnownFactoryDeployedAddress.address).dedup

def updateKnownFactoryDeployedAddresses (storage : Storage) (emptyInsert : Bool)
    (parseLog : Log → Option (ParsedLog Address)) (inputNames : List (List Char))
    (stored : Option (List (KnownFactoryDeployedAddress Address)))
    (events : List (EventResult Address Log)) :
    Except UpdateKnownFactoryDeployedAddressesError
      (Option (List (KnownFactoryDeployedAddress Address))) :=
  match knownAddresses parseLog inputNames events with
  | none => .error .logsParse
  | some addresses => storage.insert emptyInsert stored addresses

/-- Updates go on as long as they are `Ok`. -/
def updateStep (storage : Storage) (emptyInsert : Bool)
    (parseLog : Log → Option (ParsedLog Address)) (inputNames : List (List Char))
    (stored : Option (List (KnownFactoryDeployedAddress Address)))
    (events : List (EventResult Address Log)) :
    Option (Option (List (KnownFactoryDeployedAddress Address))) :=
  (updateKnownFactoryDeployedAddresses storage emptyInsert parseLog inputNames stored events).toOption

/-! ### What updates record -/

section Recorded

variable (storage : Storage) (emptyInsert : Bool) (parseLog : Log → Option (ParsedLog Address))
  (inputNames : List (List Char))

/-- The children of a batch of well-formed logs. -/
def children (events : List (EventResult Address Log)) :
    List (KnownFactoryDeployedAddress Address) :=
  (knownAddresses parseLog inputNames events).getD []

/-- All the updates are `Ok`, and then the store has the children of all the batches. -/
def RecordsAll (batches : List (List (EventResult Address Log))) : Prop :=
  ∃ stored, run (updateStep storage emptyInsert parseLog inputNames) storage.new batches = some stored ∧
    ∀ a, a ∈ stored.getD [] ↔ ∃ events ∈ batches, a ∈ children parseLog inputNames events

variable {storage emptyInsert parseLog inputNames}
  {stored stored' : Option (List (KnownFactoryDeployedAddress Address))}

theorem toOption_eq_some_iff {ε α : Type} {x : Except ε α} {a : α} :
    x.toOption = some a ↔ x = .ok a := by
  cases x with
  | error e => simp [Except.toOption]
  | ok b => simp [Except.toOption]

theorem mem_of_insert {addresses : List (KnownFactoryDeployedAddress Address)}
    (h : storage.insert emptyInsert stored addresses = .ok stored')
    (a : KnownFactoryDeployedAddress Address) :
    a ∈ stored'.getD [] ↔ a ∈ stored.getD [] ∨ a ∈ addresses := by
  cases storage with
  | postgres =>
    simp only [Storage.insert] at h
    split at h
    case isTrue hEmpty =>
      cases h
      simp [hEmpty]
    case isFalse =>
      split at h
      case isTrue => cases h
      case isFalse =>
        cases h
        simp
  | clickhouse =>
    simp only [Storage.insert] at h
    split at h
    case isTrue => cases h
    case isFalse =>
      cases h
      simp
  | csv =>
    cases h
    simp

/-- An insert is refused by the primary key of the Postgres table, or for want of rows. -/
theorem insert_ok_iff {addresses : List (KnownFactoryDeployedAddress Address)} :
    (∃ stored', storage.insert emptyInsert stored addresses = .ok stored') ↔
      (storage = .postgres → ∀ a ∈ addresses, a ∉ stored.getD []) ∧
        (storage = .clickhouse → addresses = [] → emptyInsert = true) := by
  cases storage with
  | postgres =>
    simp only [Storage.insert]
    by_cases hEmpty : addresses = []
    · simp [hEmpty]
    · by_cases hOld : ∃ a ∈ addresses, a ∈ stored.getD []
      · simp only [if_neg hEmpty, if_pos hOld]
        obtain ⟨a, ha, hIn⟩ := hOld
        simpa using ⟨a, ha, hIn⟩
      · simp only [if_neg hEmpty, if_neg hOld]
        push Not at hOld
        simpa using hOld
  | clickhouse =>
    simp only [Storage.insert]
    by_cases hEmpty : addresses = []
    · cases emptyInsert with
      | false => simp [hEmpty]
      | true => simp [hEmpty]
    · simp [hEmpty]
  | csv => simp [Storage.insert]

/-- A well-formed batch goes to the insert. -/
theorem updateStep_eq {events : List (EventResult Address Log)}
    (h : (knownAddresses parseLog inputNames events).isSome) :
    updateStep storage emptyInsert parseLog inputNames stored events =
      (storage.insert emptyInsert stored (children parseLog inputNames events)).toOption := by
  obtain ⟨addresses, hAddresses⟩ := Option.isSome_iff_exists.mp h
  unfold updateStep updateKnownFactoryDeployedAddresses children
  rw [hAddresses]
  rfl

/-- After updates that are all `Ok` the store has what it had and the children of the batches. -/
theorem mem_of_run {batches : List (List (EventResult Address Log))}
    (hWell : ∀ events ∈ batches, (knownAddresses parseLog inputNames events).isSome)
    (h : run (updateStep storage emptyInsert parseLog inputNames) stored batches = some stored')
    (a : KnownFactoryDeployedAddress Address) :
    a ∈ stored'.getD [] ↔ a ∈ stored.getD [] ∨
      ∃ events ∈ batches, a ∈ children parseLog inputNames events := by
  induction batches generalizing stored with
  | nil =>
    cases h
    simp
  | cons events rest ih =>
    obtain ⟨mid, hStep, hRest⟩ := Option.bind_eq_some_iff.mp h
    rw [updateStep_eq (hWell events (List.mem_cons_self ..))] at hStep
    have hInsert := toOption_eq_some_iff.mp hStep
    rw [ih (fun events h => hWell events (List.mem_cons_of_mem _ h)) hRest, mem_of_insert hInsert]
    simp [or_assoc]

/-- Whether all the updates are `Ok`: on Postgres no child is handed over twice. -/
theorem run_some_iff {batches : List (List (EventResult Address Log))}
    (hWell : ∀ events ∈ batches, (knownAddresses parseLog inputNames events).isSome) :
    (∃ stored', run (updateStep storage emptyInsert parseLog inputNames) stored batches =
        some stored') ↔
      (storage = .postgres →
        (∀ events ∈ batches, ∀ a ∈ children parseLog inputNames events, a ∉ stored.getD []) ∧
          (batches.map (children parseLog inputNames)).Pairwise List.Disjoint) ∧
        (storage = .clickhouse → ∀ events ∈ batches, children parseLog inputNames events = [] →
          emptyInsert = true) := by
  induction batches generalizing stored with
  | nil => simp
  | cons events rest ih =>
    have hRest : ∀ events ∈ rest, (knownAddresses parseLog inputNames events).isSome :=
      fun events h => hWell events (List.mem_cons_of_mem _ h)
    have hStep := @updateStep_eq Address Log _ storage emptyInsert parseLog inputNames stored events
      (hWell events (List.mem_cons_self ..))
    have hSplit : (∃ stored', run (updateStep storage emptyInsert parseLog inputNames) stored
        (events :: rest) = some stored') ↔
          ∃ mid, storage.insert emptyInsert stored (children parseLog inputNames events) = .ok mid ∧
            ∃ stored', run (updateStep storage emptyInsert parseLog inputNames) mid rest =
              some stored' := by
      simp only [run, hStep, Option.bind_eq_some_iff, toOption_eq_some_iff]
      constructor
      · rintro ⟨stored', mid, hMid, hRun⟩
        exact ⟨mid, hMid, stored', hRun⟩
      · rintro ⟨mid, hMid, stored', hRun⟩
        exact ⟨stored', mid, hMid, hRun⟩
    rw [hSplit]
    constructor
    · rintro ⟨mid, hMid, hRun⟩
      obtain ⟨hNew, hRows⟩ := insert_ok_iff.mp ⟨mid, hMid⟩
      obtain ⟨hOld, hOldRows⟩ := (ih hRest).mp hRun
      have hMem := mem_of_insert hMid
      refine ⟨fun hStorage => ⟨?_, ?_⟩, fun hStorage => ?_⟩
      · intro batch hBatch a ha
        rcases List.mem_cons.mp hBatch with rfl | hBatch
        · exact hNew hStorage a ha
        · exact fun hIn => (hOld hStorage).1 batch hBatch a ha ((hMem a).mpr (Or.inl hIn))
      · rw [List.map_cons, List.pairwise_cons]
        refine ⟨fun later hLater => ?_, (hOld hStorage).2⟩
        obtain ⟨batch, hBatch, rfl⟩ := List.mem_map.mp hLater
        exact fun a ha hIn => (hOld hStorage).1 batch hBatch a hIn ((hMem a).mpr (Or.inr ha))
      · intro batch hBatch hEmpty
        rcases List.mem_cons.mp hBatch with rfl | hBatch
        · exact hRows hStorage hEmpty
        · exact hOldRows hStorage batch hBatch hEmpty
    · rintro ⟨hPostgres, hClickhouse⟩
      obtain ⟨mid, hMid⟩ := (@insert_ok_iff Address _ storage emptyInsert stored
        (children parseLog inputNames events)).mpr
          ⟨fun hStorage => (hPostgres hStorage).1 events (List.mem_cons_self ..),
            fun hStorage => hClickhouse hStorage events (List.mem_cons_self ..)⟩
      have hMem := mem_of_insert hMid
      refine ⟨mid, hMid, (ih hRest).mpr ⟨fun hStorage => ?_, fun hStorage batch hBatch =>
        hClickhouse hStorage batch (List.mem_cons_of_mem _ hBatch)⟩⟩
      obtain ⟨hFresh, hDisjoint⟩ := hPostgres hStorage
      rw [List.map_cons, List.pairwise_cons] at hDisjoint
      refine ⟨fun batch hBatch a ha hIn => ?_, hDisjoint.2⟩
      rcases (hMem a).mp hIn with hOld | hNew
      · exact hFresh batch (List.mem_cons_of_mem _ hBatch) a ha hOld
      · exact hDisjoint.1 _ (List.mem_map_of_mem hBatch) hNew ha

end Recorded

/-- Redelivered batches are recorded, except on Postgres, where none may name a child again. -/
theorem recordsAll_iff (storage : Storage) (emptyInsert : Bool)
    (parseLog : Log → Option (ParsedLog Address)) (inputNames : List (List Char))
    (batches : List (List (EventResult Address Log)))
    (hWell : ∀ events ∈ batches, (knownAddresses parseLog inputNames events).isSome) :
    RecordsAll storage emptyInsert parseLog inputNames batches ↔
      (storage = .postgres →
        (batches.map (children parseLog inputNames)).Pairwise List.Disjoint) ∧
        (storage = .clickhouse → ∀ events ∈ batches, children parseLog inputNames events = [] →
          emptyInsert = true) := by
  have hNew : (storage.new : Option (List (KnownFactoryDeployedAddress Address))).getD [] = [] := by
    cases storage with
    | postgres => rfl
    | clickhouse => rfl
    | csv => rfl
  have hRun := @run_some_iff Address Log _ storage emptyInsert parseLog inputNames storage.new batches
    hWell
  simp only [hNew, List.not_mem_nil, not_false_eq_true, implies_true, true_and] at hRun
  rw [← hRun]
  constructor
  · rintro ⟨stored, hStored, -⟩
    exact ⟨stored, hStored⟩
  · rintro ⟨stored, hStored⟩
    refine ⟨stored, hStored, fun a => ?_⟩
    rw [mem_of_run hWell hStored, hNew]
    simp

/-! ### A factory with one child -/

/-- Logs that are the address of a pool, under the name of the input. -/
def parsePool (pool : Nat) : Option (ParsedLog Nat) := some ⟨[⟨"pool".toList, .address pool, []⟩]⟩

def poolCreated (pool : Nat) : List (EventResult Nat Nat) := [⟨pool, 1⟩]

theorem recordsAll_iff_clickhouse :
    RecordsAll .clickhouse false parsePool ["pool".toList]
      [poolCreated 7, poolCreated 8, poolCreated 7] :=
  (recordsAll_iff .clickhouse false parsePool ["pool".toList] _ (by decide)).mpr
    ⟨nofun, fun _ => by decide⟩

/-- On Postgres the batch that a failed callback hands over again is refused. -/
theorem redelivered_refused :
    ¬ ∀ (storage : Storage) (emptyInsert : Bool) (parseLog : Nat → Option (ParsedLog Nat))
        (inputNames : List (List Char)) (batches : List (List (EventResult Nat Nat))),
      (∀ events ∈ batches, (knownAddresses parseLog inputNames events).isSome) →
        RecordsAll storage emptyInsert parseLog inputNames batches := by
  intro hClaim
  obtain ⟨stored, hStored, -⟩ := hClaim .postgres false parsePool ["pool".toList]
    [poolCreated 7, poolCreated 7] (by decide)
  have hRefused : run (updateStep .postgres false parsePool ["pool".toList]) Storage.postgres.new
      [poolCreated 7, poolCreated 7] = none := by decide
  rw [hRefused] at hStored
  cases hStored

end Updates

end Rindexer.Factory
