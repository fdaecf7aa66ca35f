import Mathlib.Data.Fintype.Basic
import Rindexer.Indexer.Live

/-! The run of a dependency group: the history of its events level by level, then a live loop on
each network that visits the events in the order in which their histories ended. -/

namespace Rindexer.Indexer.Layers

open Rindexer.Lib Rindexer.Database

/-- A configuration that a node of the dependency tree selects. -/
structure EventTask (γ : Type) where
  /-- The event and the detail that are indexed. -/
  config : γ
  /-- The level of the node in the tree. -/
  level : Nat
  network : String
  processorId : B256
  startBlock : Nat
  /-- The snapshot that the history goes up to. -/
  toBlock : Nat
  /-- The end block of the manifest, none for live indexing. -/
  endBlock : Option Nat
  indexingDistanceFromHead : Nat
  originalMaxLimit : Option Nat
  disableLogsBloomChecks : Bool

def EventTask.liveIndexing {γ : Type} (task : EventTask γ) : Bool := task.endBlock.isNone

/-- A call of the callback of an event, and whether it has completed. -/
structure Call (ι : Type) where
  task : ι
  rows : List EventRow
  completed : Bool

/-- The history of a task: the fetch, how many of its logs the callback has had, and how it ended. -/
structure History where
  fetch : Historic
  handled : Nat
  failed : Bool
  finished : Bool

structure OrderedLiveIndexingDetails where
  fromBlock : Nat
  lastSeenBlockNumber : Nat
deriving DecidableEq, Repr

/-- What the surroundings answer to one event in a poll: whether the logs are fetched, whether the
callback and the cursor go well, and whether the last log has its block number. -/
structure Answer where
  fetched : Bool
  callback : Bool
  cursor : Bool
  numbered : Bool
deriving DecidableEq, Repr

def Answer.good : Answer := ⟨true, true, true, true⟩

section Runs

variable {ι γ : Type} [DecidableEq ι] [Fintype ι]

/-- The group between two steps.  `node` is what the providers answer for each task, and no code reads
`calls` and `polled`. -/
structure GroupRun (task : ι → EventTask γ) where
  layer : Nat
  history : ι → History
  /-- The events to index live, in the order in which they were pushed. -/
  events : List ι
  live : Bool
  details : String → B256 → Option OrderedLiveIndexingDetails
  node : ∀ i, BloomedLogs (task i).network
  calls : List (Call ι)
  polled : List (String × Nat)

inductive GroupAct (task : ι → EventTask γ)
  /-- A round of the historical fetch of a task. -/
  | round (i : ι) (response : Response) (reset : Bool)
  /-- The callback takes the next logs that the history has fetched. -/
  | callback (i : ι) (count : Nat) (callback cursor : Bool)
  | finish (i : ι)
  | nextLayer
  | goLive
  /-- A turn of the live loop of a network, with the head that the provider answers. -/
  | poll (network : String) (latestBlockNumber : Nat) (answers : ι → Answer)
  /-- The chain is replaced, and the coordinator finds it and rolls back before the next fetch. -/
  | reorg (network : String) (forkPoint : Nat) (node : ∀ i, BloomedLogs (task i).network)

variable {task : ι → EventTask γ}

namespace GroupRun

variable (task) in
def start (node : ∀ i, BloomedLogs (task i).network) : GroupRun task where
  layer := 0
  history i := ⟨.start (task i).startBlock (task i).toBlock (task i).originalMaxLimit, 0, false, false⟩
  events := []
  live := false
  details _ _ := none
  node := node
  calls := []
  polled := []

/-- A task of the current level that goes on. -/
def active (s : GroupRun task) (i : ι) : Bool :=
  !s.live && (task i).level == s.layer && !(s.history i).failed && !(s.history i).finished

def setHistory (s : GroupRun task) (i : ι) (history : History) : GroupRun task :=
  { s with history := Function.update s.history i history }

def round (s : GroupRun task) (i : ι) (response : Response) (reset : Bool) :
    Option (GroupRun task) :=
  if s.active i then
    some (s.setHistory i { s.history i with
      fetch := (s.history i).fetch.round (s.node i).toNodeLogs (task i).toBlock
        (task i).originalMaxLimit response reset })
  else none

/-- A failed callback or cursor ends the task with an error. -/
def callback (s : GroupRun task) (i : ι) (count : Nat) (callback cursor : Bool) :
    Option (GroupRun task) :=
  let history := s.history i
  let rows := (history.fetch.delivered.drop history.handled).take count
  if s.active i ∧ rows ≠ [] then
    some { s.setHistory i { history with
        handled := if callback then history.handled + rows.length else history.handled
        failed := !(callback && cursor) } with
      calls := s.calls ++ [⟨i, rows, callback⟩] }
  else none

/-- The history of a task is through, and a live event joins the live loop of its network. -/
def finish (s : GroupRun task) (i : ι) : Option (GroupRun task) :=
  let history := s.history i
  if s.active i ∧ (task i).toBlock < history.fetch.fromBlock ∧
      history.handled = history.fetch.delivered.length then
    some { s.setHistory i { history with finished := true } with
      events := if (task i).liveIndexing then s.events ++ [i] else s.events }
  else none

/-- The tasks of a level are joined before the next level starts. -/
def nextLayer (s : GroupRun task) : Option (GroupRun task) :=
  if s.live = false ∧ ∀ i, (task i).level = s.layer → (s.history i).finished = true then
    some { s with layer := s.layer + 1 }
  else none

/-- The details of an event before its first poll. -/
def initialDetails (task : EventTask γ) : OrderedLiveIndexingDetails :=
  ⟨task.toBlock + 1, task.toBlock⟩

/-- Each event inserts its details under its processor id, in order. -/
def goLive (s : GroupRun task) : Option (GroupRun task) :=
  if s.live = false ∧ ∀ i, (s.history i).finished = true then
    some { s with
      live := true
      details := fun network id => (s.events.reverse.find? fun i =>
        (task i).network = network ∧ (task i).processorId = id).map fun i =>
          initialDetails (task i) }
  else none

def setDetails (s : GroupRun task) (i : ι) (details : OrderedLiveIndexingDetails) :
    GroupRun task :=
  { s with details := fun network id =>
      if network = (task i).network ∧ id = (task i).processorId then some details
      else s.details network id }

/-- One event of a poll, and whether the loop goes on to the next. -/
def pollEvent (s : GroupRun task) (latestBlockNumber : Nat) (answer : Answer) (i : ι) :
    GroupRun task × Bool :=
  match s.details (task i).network (task i).processorId with
  | none => (s, false)
  | some details =>
    if details.lastSeenBlockNumber = latestBlockNumber then (s, true)
    else
      let safeBlockNumber := latestBlockNumber - (task i).indexingDistanceFromHead
      let fromBlock := details.fromBlock
      if safeBlockNumber < fromBlock then (s, true)
      else
        let toBlock := safeBlockNumber
        let bloomCheckApplies := fromBlock = latestBlockNumber ∧ fromBlock = toBlock ∧
          !(task i).disableLogsBloomChecks
        if bloomCheckApplies ∧ (s.node i).isRelevantBlock latestBlockNumber = false then
          if answer.cursor then (s.setDetails i ⟨toBlock + 1, toBlock⟩, true) else (s, false)
        else if !answer.fetched then (s, false)
        else
          let logs := (s.node i).range fromBlock toBlock
          match logs.getLast? with
          | none =>
            -- no logs, and no callback, only the cursor
            if answer.cursor then (s.setDetails i ⟨toBlock + 1, toBlock⟩, true) else (s, false)
          | some lastLog =>
            let called := { s with calls := s.calls ++ [⟨i, logs, answer.callback⟩] }
            if answer.callback && answer.cursor then
              (called.setDetails i
                ⟨if answer.numbered then lastLog.blockNumber + 1 else fromBlock, toBlock⟩, true)
            else (called, false)

/-- The events of a poll, up to the first that fails. -/
def pollEvents (latestBlockNumber : Nat) (answers : ι → Answer) :
    GroupRun task → List ι → GroupRun task
  | s, [] => s
  | s, i :: rest =>
    match s.pollEvent latestBlockNumber (answers i) i with
    | (s', true) => pollEvents latestBlockNumber answers s' rest
    | (s', false) => s'

def poll (s : GroupRun task) (network : String) (latestBlockNumber : Nat) (answers : ι → Answer) :
    Option (GroupRun task) :=
  if s.live then
    some { pollEvents latestBlockNumber answers s
        (s.events.filter fun i => (task i).network = network) with
      polled := s.polled ++ [(network, latestBlockNumber)] }
  else none

/-- The rollback removes the rows of the network from the fork point on. -/
def rollbackCall (task : ι → EventTask γ) (network : String) (forkPoint : Nat) (call : Call ι) :
    Call ι :=
  if (task call.task).network = network then
    { call with rows := call.rows.filter fun r => r.blockNumber < forkPoint }
  else call

def reorg (s : GroupRun task) (network : String) (forkPoint : Nat)
    (node : ∀ i, BloomedLogs (task i).network) : Option (GroupRun task) :=
  if s.live then
    some { s with
      node := fun i => if (task i).network = network then node i else s.node i
      calls := s.calls.map (rollbackCall task network forkPoint)
      details := fun network' id =>
        if network' = network then
          (s.details network' id).map fun _ => ⟨forkPoint, forkPoint - 1⟩
        else s.details network' id }
  else none

def step (s : GroupRun task) : GroupAct task → Option (GroupRun task)
  | .round i response reset => s.round i response reset
  | .callback i count callback cursor => s.callback i count callback cursor
  | .finish i => s.finish i
  | .nextLayer => s.nextLayer
  | .goLive => s.goLive
  | .poll network latestBlockNumber answers => s.poll network latestBlockNumber answers
  | .reorg network forkPoint node => s.reorg network forkPoint node

/-! ### What is promised -/

/-- The rows that completed callbacks of a task have had. -/
def completedRows (s : GroupRun task) (i : ι) : List EventRow :=
  (s.calls.filter fun call => call.task = i ∧ call.completed).flatMap Call.rows

end GroupRun

/-- An event depends on the events of the earlier levels, each on its network. -/
def DependsOn (task : ι → EventTask γ) (child parent : ι) : Prop :=
  (task parent).level < (task child).level ∧ (task parent).network = (task child).network

/-- The first block of the run for a task: with no history, live indexing starts after the snapshot. -/
def EventTask.base (task : EventTask γ) : Nat := min task.startBlock (task.toBlock + 1)

/-- The blocks that a task has to index. -/
def EventTask.Due (task : EventTask γ) (n : Nat) : Prop :=
  task.base ≤ n ∧ ∀ endBlock ∈ task.endBlock, n ≤ endBlock

/-- A callback for a block runs after the callbacks of every event it depends on have completed for all
blocks up to that one. -/
def DependenciesFirst (task : ι → EventTask γ) (s : GroupRun task) : Prop :=
  ∀ before call after, s.calls = before ++ call :: after → ∀ row ∈ call.rows,
    ∀ parent, DependsOn task call.task parent → ∀ n ≤ row.blockNumber, (task parent).Due n →
      ∀ r ∈ (s.node parent).logs n,
        ∃ earlier ∈ before, earlier.task = parent ∧ earlier.completed = true ∧ r ∈ earlier.rows

/-- The completed callbacks of a configuration have had its logs in order, none twice and none left
out: all those up to the snapshot when its history is through, and, live, up to the safe head of every
poll. -/
structure DeliveredOnce [DecidableEq γ] (task : ι → EventTask γ) (s : GroupRun task) (i : ι) :
    Prop where
  once : ∃ below, ((s.calls.filter fun call =>
      (task call.task).config = (task i).config ∧ call.completed).flatMap Call.rows) <+:
    (s.node i).span (task i).base below
  history : (s.history i).finished = true → (s.node i).span (task i).base ((task i).toBlock + 1) <+:
    (s.calls.filter fun call =>
      (task call.task).config = (task i).config ∧ call.completed).flatMap Call.rows
  polled : (task i).liveIndexing = true → ∀ head, ((task i).network, head) ∈ s.polled →
    (s.node i).span (task i).base (head - (task i).indexingDistanceFromHead + 1) <+:
      (s.calls.filter fun call =>
        (task call.task).config = (task i).config ∧ call.completed).flatMap Call.rows

end Runs

end Rindexer.Indexer.Layers
