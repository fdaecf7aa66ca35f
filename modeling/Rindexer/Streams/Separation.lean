import Mathlib.Data.List.Induction
import Mathlib.Data.List.Infix
import Rindexer.Lib.Transition
import Rindexer.Streams.MessageId

/-! What is published over a run of the indexer, and when its identifiers tell different messages
apart. -/

namespace Rindexer.Streams

open Rindexer.Lib

/-- What happens to the streams of one event: a batch reaches its callback, its network has a new
block or a reorg, or the process starts again. -/
inductive Action (V : Type)
  | callback (batch : StreamBatch V)
  | newBlock (network : List Char) (headBlock : Nat)
  | discard (network : List Char) (forkPoint detectionPoint : Nat)
  | reorg (network : List Char) (forkBlock : Nat) (reorgPayload : V)
  | restart

/-- Each event has its own clients, with the targets of its contract. -/
structure Setting (ι V : Type) where
  size : V → Nat
  event : ι → StreamedEvent
  config : ι → StreamsConfig V
  reorgSafeDistance : ι → List Char → Nat

/-- An action, and which of the publications it tries are successful. -/
structure StreamLabel (ι V : Type) where
  event : ι
  action : Action V
  reaches : Publication V → Bool

structure StreamState (ι V : Type) where
  buffers : ι → Buffers V
  published : List (Publication V)

section Machine

variable {ι V : Type} (setting : Setting ι V)

def StreamState.start : StreamState ι V := ⟨fun _ => Buffers.empty, []⟩

def act (event : ι) (action : Action V) (buffers : Buffers V) : Buffers V × List (Dispatch V) :=
  let size := setting.size
  let config := setting.config event
  match action with
  | .callback batch => noCodeCallback size config (setting.event event) batch buffers
  | .newBlock network headBlock =>
    flushFinalized size config (setting.reorgSafeDistance event network) network headBlock buffers
  | .discard network forkPoint detectionPoint =>
    (discardFinalized network forkPoint detectionPoint buffers, [])
  | .reorg network forkBlock reorgPayload =>
    streamReorg size config network forkBlock reorgPayload buffers
  | .restart => (Buffers.empty, [])

/-- The successful publications of a step. -/
def published (state : StreamState ι V) (label : StreamLabel ι V) : List (Publication V) :=
  ((act setting label.event label.action (state.buffers label.event)).2.flatMap
    Dispatch.publications).filter label.reaches

variable [DecidableEq ι]

def streamStep (state : StreamState ι V) (label : StreamLabel ι V) : Option (StreamState ι V) :=
  some
    { buffers := Function.update state.buffers label.event
        (act setting label.event label.action (state.buffers label.event)).1
      published := state.published ++ published setting state label }

end Machine

/-! ### Topics that drop repetitions -/

section Deduplication

variable {V : Type} (lower : Lowercase)

/-- Whether the identifier is sent along as the deduplication identifier. -/
def isFifo (topicArn : String) : Bool := decide (".fifo".toList <:+: topicArn.toList)

/-- What a topic that drops repeated identifiers delivers. -/
def deduplicated (publications : List (Publication V)) : List (Publication V) :=
  publications.foldl
    (fun delivered publication =>
      if delivered.any fun d => d.id lower = publication.id lower then delivered
      else delivered ++ [publication]) []

/-- Different messages have different identifiers, and so a topic delivers every message that it is
sent.  Of all targets, those in `scope` are looked at. -/
structure Separates (scope : String → Prop) (publications : List (Publication V)) : Prop where
  id_ne : ∀ p ∈ publications, ∀ q ∈ publications, scope p.endpoint → scope q.endpoint →
    p.message ≠ q.message → p.id lower ≠ q.id lower
  delivers : ∀ topicArn, scope topicArn → isFifo topicArn → ∀ p ∈ publications,
    p.endpoint = topicArn →
      ∃ d ∈ deduplicated lower (publications.filter (·.endpoint = topicArn)),
        d.id lower = p.id lower ∧ d.message = p.message

theorem deduplicated_append (publications1 publications2 : List (Publication V)) :
    deduplicated lower (publications1 ++ publications2) = publications2.foldl
      (fun delivered publication =>
        if delivered.any fun d => d.id lower = publication.id lower then delivered
        else delivered ++ [publication]) (deduplicated lower publications1) :=
  List.foldl_append

theorem deduplicated_concat (publications : List (Publication V)) (p : Publication V) :
    deduplicated lower (publications ++ [p]) =
      if (deduplicated lower publications).any fun d => d.id lower = p.id lower then
        deduplicated lower publications
      else deduplicated lower publications ++ [p] :=
  deduplicated_append lower publications [p]

/-- A topic delivers only what it is sent, and something with each identifier. -/
theorem deduplicated_spec (publications : List (Publication V)) :
    (∀ d ∈ deduplicated lower publications, d ∈ publications) ∧
      ∀ p ∈ publications, ∃ d ∈ deduplicated lower publications, d.id lower = p.id lower := by
  induction publications using List.reverseRecOn with
  | nil => exact ⟨fun _ h => h, fun _ h => nomatch h⟩
  | append_singleton publications last ih =>
    obtain ⟨hSent, hAll⟩ := ih
    rw [deduplicated_concat]
    split
    next hSeen =>
      constructor
      · intro d hd
        exact List.mem_append_left _ (hSent d hd)
      · intro p hp
        rcases List.mem_append.mp hp with h | h
        · exact hAll p h
        · obtain rfl := List.mem_singleton.mp h
          obtain ⟨d, hd, hId⟩ := List.any_eq_true.mp hSeen
          exact ⟨d, hd, of_decide_eq_true hId⟩
    next =>
      constructor
      · intro d hd
        rcases List.mem_append.mp hd with h | h
        · exact List.mem_append_left _ (hSent d h)
        · exact List.mem_append_right _ h
      · intro p hp
        rcases List.mem_append.mp hp with h | h
        · obtain ⟨d, hd, hId⟩ := hAll p h
          exact ⟨d, List.mem_append_left _ hd, hId⟩
        · exact ⟨p, List.mem_append_right _ h, rfl⟩

variable {lower}

theorem separates_of_id_ne {scope : String → Prop} {publications : List (Publication V)}
    (h : ∀ p ∈ publications, ∀ q ∈ publications, scope p.endpoint → scope q.endpoint →
      p.message ≠ q.message → p.id lower ≠ q.id lower) : Separates lower scope publications := by
  refine ⟨h, fun topicArn hScope _ p hp hEndpoint => ?_⟩
  obtain ⟨hSent, hAll⟩ := deduplicated_spec lower (publications.filter (·.endpoint = topicArn))
  obtain ⟨d, hd, hId⟩ := hAll p (List.mem_filter.mpr ⟨hp, by simpa using hEndpoint⟩)
  obtain ⟨hMem, hSame⟩ := List.mem_filter.mp (hSent d hd)
  refine ⟨d, hd, hId, ?_⟩
  by_contra hMessage
  have hdScope : scope d.endpoint := by simpa [of_decide_eq_true hSame] using hScope
  exact h d hMem p hp hdScope (hEndpoint ▸ hScope) hMessage hId

end Deduplication

/-! ### Runs -/

section Runs

variable {ι V : Type} (setting : Setting ι V) (lower : Lowercase) (scope : String → Prop)

/-- What a step publishes has the message of everything published before or with it under the same
names, blocks and position. -/
def SameMessages (state : StreamState ι V) (label : StreamLabel ι V) : Prop :=
  ∀ p ∈ published setting state label, ∀ q ∈ state.published ++ published setting state label,
    scope p.endpoint → scope q.endpoint → SameIdentity lower p q → p.message = q.message

variable [DecidableEq ι] {setting lower scope}

theorem separates_step_iff {state state' : StreamState ι V} {label : StreamLabel ι V}
    (hState : Separates lower scope state.published)
    (hStep : streamStep setting state label = some state') :
    Separates lower scope state'.published ↔ SameMessages setting lower scope state label := by
  obtain rfl := Option.some.inj hStep
  constructor
  · intro h p hp q hq hpScope hqScope hIdentity
    by_contra hMessage
    exact h.id_ne p (List.mem_append_right _ hp) q hq hpScope hqScope hMessage
      ((id_eq_iff lower).mpr hIdentity)
  · intro h
    apply separates_of_id_ne
    intro p hp q hq hpScope hqScope hMessage hId
    have hIdentity := (id_eq_iff lower).mp hId
    rcases List.mem_append.mp hp with hpOld | hpNew
    · rcases List.mem_append.mp hq with hqOld | hqNew
      · exact hState.id_ne p hpOld q hqOld hpScope hqScope hMessage hId
      · exact hMessage (h q hqNew p hp hqScope hpScope ((id_eq_iff lower).mp hId.symm)).symm
    · exact hMessage (h p hpNew q hq hpScope hqScope hIdentity)

/-- A topic that two events of a contract share, for blocks that are final. -/
def sharedTopic : StreamTarget Nat where
  endpoint := "arn:aws:sns:us-east-1:000000000000:token.fifo"
  prefixId := none
  networks := ["ethereum".toList]
  events := [⟨"Transfer".toList, none, none⟩, ⟨"Approval".toList, none, none⟩]
  delivery := some .finalized

def tokenStreams : Setting Bool Nat where
  size _ := 100
  event isApproval :=
    ⟨"Token".toList, (if isApproval then "Approval" else "Transfer").toList,
      if isApproval then 2 else 1, false⟩
  config _ streamType := if streamType = .sns then [sharedTopic] else []
  reorgSafeDistance _ _ := 12

/-- Both events are in block 100, which becomes final. -/
def finalizedRun : List (StreamLabel Bool Nat) :=
  let batch (log : Nat) : StreamBatch Nat := ⟨"ethereum".toList, 91, 100, [(100, log)]⟩
  [⟨false, .callback (batch 0), fun _ => true⟩, ⟨true, .callback (batch 1), fun _ => true⟩,
    ⟨false, .newBlock "ethereum".toList 112, fun _ => true⟩,
    ⟨true, .newBlock "ethereum".toList 112, fun _ => true⟩]

/-- The message of one event in block 100. -/
def finalizedPublication (eventName : List Char) (eventSignatureHash : B256) (log : Nat) :
    Publication Nat :=
  ⟨.sns, 0, sharedTopic.endpoint, [], .finalized .sns 0 "ethereum".toList 100, 0,
    ⟨eventName, [log], eventSignatureHash, "ethereum".toList, 100⟩⟩

end Runs

end Rindexer.Streams
