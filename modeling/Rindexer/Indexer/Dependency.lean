import Rindexer.Lib.Search
import Mathlib.Data.List.Destutter
import Mathlib.Data.List.Sort
import Mathlib.Data.List.Dedup

/-! The dependency tree of the events of a contract: levels of events, built from the relationships
by a depth-first search with one set of visited events for all the roots. -/

namespace Rindexer.Indexer

open Rindexer.Lib

structure ContractEventMapping where
  contractName : String
  eventName : String
deriving DecidableEq, Repr

/-- A foreign key of the table of `event` into the table of the event `linkedTo`. -/
structure Relationship where
  contractName : String
  event : String
  linkedToContractName : String
  linkedToEvent : String
deriving DecidableEq, Repr

namespace Relationship

def mapping (r : Relationship) : ContractEventMapping := ⟨r.contractName, r.event⟩

def linkedTo (r : Relationship) : ContractEventMapping := ⟨r.linkedToContractName, r.linkedToEvent⟩

end Relationship

def hasCrossContractDependency (relationships : List Relationship) : Bool :=
  relationships.any fun r => r.linkedToContractName != r.contractName

/-- The events of one level, and the levels after it if there are any. -/
inductive EventsDependencyTree
  | last (contractEvents : List ContractEventMapping)
  | followed (contractEvents : List ContractEventMapping) (rest : EventsDependencyTree)
deriving DecidableEq, Repr

namespace EventsDependencyTree

def contractEvents : EventsDependencyTree → List ContractEventMapping
  | last events => events
  | followed events _ => events

/-- The events of level `i`, the root level being level 0. -/
def level : EventsDependencyTree → Nat → List ContractEventMapping
  | last events, 0 => events
  | last _, _ + 1 => []
  | followed events _, 0 => events
  | followed _ rest, i + 1 => rest.level i

def collectDependencyEvents : EventsDependencyTree → List ContractEventMapping
  | last events => events
  | followed events rest => events ++ rest.collectDependencyEvents

@[simp] theorem collect_last (events : List ContractEventMapping) :
    (last events).collectDependencyEvents = events := rfl

@[simp] theorem collect_followed (events : List ContractEventMapping)
    (rest : EventsDependencyTree) : (followed events rest).collectDependencyEvents =
      events ++ rest.collectDependencyEvents := rfl

/-- The events of two levels, by name, without repetitions that stand side by side. -/
def mergeLevels (events1 events2 : List ContractEventMapping) : List ContractEventMapping :=
  ((events1 ++ events2).insertionSort fun a b => a.eventName ≤ b.eventName).destutter (· ≠ ·)

/-- A tree merged with the empty tree that stands for levels the other side does not have. -/
def mergeEmpty : EventsDependencyTree → EventsDependencyTree
  | last events => last (mergeLevels [] events)
  | followed events rest => followed (mergeLevels [] events) rest.mergeEmpty

def mergeTrees : EventsDependencyTree → EventsDependencyTree → EventsDependencyTree
  | last events1, last events2 => last (mergeLevels events1 events2)
  | last events1, followed events2 rest2 =>
    followed (mergeLevels events1 events2) rest2.mergeEmpty
  | followed events1 rest1, last events2 =>
    followed (mergeLevels events1 events2) rest1.mergeEmpty
  | followed events1 rest1, followed events2 rest2 =>
    followed (mergeLevels events1 events2) (mergeTrees rest1 rest2)

/-- Levels without a common event are merged without loss. -/
theorem mergeLevels_perm {events1 events2 : List ContractEventMapping}
    (h : (events1 ++ events2).Nodup) : (mergeLevels events1 events2).Perm (events1 ++ events2) := by
  have hPerm := List.perm_insertionSort
    (fun a b : ContractEventMapping => a.eventName ≤ b.eventName) (events1 ++ events2)
  have hNodup := hPerm.nodup_iff.mpr h
  rw [mergeLevels, List.destutter_of_isChain _ _ hNodup.isChain]
  exact hPerm

theorem collect_mergeEmpty {tree : EventsDependencyTree}
    (h : tree.collectDependencyEvents.Nodup) :
    tree.mergeEmpty.collectDependencyEvents.Perm tree.collectDependencyEvents := by
  induction tree with
  | last events => exact @mergeLevels_perm [] _ h
  | followed events rest ih =>
    obtain ⟨hEvents, hRest, -⟩ := List.nodup_append.mp h
    exact (@mergeLevels_perm [] _ hEvents).append (ih hRest)

theorem level_mergeEmpty {tree : EventsDependencyTree}
    (h : tree.collectDependencyEvents.Nodup) (i : Nat) :
    (tree.mergeEmpty.level i).Perm (tree.level i) := by
  induction tree generalizing i with
  | last events =>
    cases i with
    | zero => exact @mergeLevels_perm [] _ h
    | succ i => rfl
  | followed events rest ih =>
    obtain ⟨hEvents, hRest, -⟩ := List.nodup_append.mp h
    cases i with
    | zero => exact @mergeLevels_perm [] _ hEvents
    | succ i => exact ih hRest i

theorem interchange_perm (events1 rest1 events2 rest2 : List ContractEventMapping) :
    ((events1 ++ rest1) ++ (events2 ++ rest2)).Perm ((events1 ++ events2) ++ (rest1 ++ rest2)) := by
  rw [List.append_assoc, List.append_assoc]
  apply List.Perm.append_left
  rw [← List.append_assoc, ← List.append_assoc]
  exact List.perm_append_comm.append_right _

/-- The parts of two trees without a common event have none either. -/
theorem nodup_parts {events1 events2 rest1 rest2 : List ContractEventMapping}
    (h : ((events1 ++ rest1) ++ (events2 ++ rest2)).Nodup) :
    (events1 ++ events2).Nodup ∧ (rest1 ++ rest2).Nodup := by
  obtain ⟨hEvents, hRest, -⟩ := List.nodup_append.mp ((interchange_perm ..).nodup_iff.mp h)
  exact ⟨hEvents, hRest⟩

/-- Trees without a common event are merged level by level. -/
theorem level_mergeTrees {tree1 tree2 : EventsDependencyTree}
    (h : (tree1.collectDependencyEvents ++ tree2.collectDependencyEvents).Nodup) (i : Nat) :
    ((mergeTrees tree1 tree2).level i).Perm (tree1.level i ++ tree2.level i) := by
  induction tree1 generalizing tree2 i with
  | last events1 =>
    cases tree2 with
    | last events2 =>
      cases i with
      | zero => exact mergeLevels_perm h
      | succ i => rfl
    | followed events2 rest2 =>
      obtain ⟨hEvents, hRest⟩ := @nodup_parts _ _ [] _ (by simpa only [List.append_nil, collect_last, collect_followed] using h)
      cases i with
      | zero => exact mergeLevels_perm hEvents
      | succ i => exact level_mergeEmpty hRest i
  | followed events1 rest1 ih =>
    cases tree2 with
    | last events2 =>
      obtain ⟨hEvents, hRest⟩ :=
        @nodup_parts _ events2 _ [] (by simpa only [List.append_nil, collect_last, collect_followed] using h)
      rw [List.append_nil] at hRest
      cases i with
      | zero => exact mergeLevels_perm hEvents
      | succ i => simpa [mergeTrees, level] using level_mergeEmpty hRest i
    | followed events2 rest2 =>
      obtain ⟨hEvents, hRest⟩ := nodup_parts h
      cases i with
      | zero => exact mergeLevels_perm hEvents
      | succ i => exact ih hRest i

theorem collect_mergeTrees {tree1 tree2 : EventsDependencyTree}
    (h : (tree1.collectDependencyEvents ++ tree2.collectDependencyEvents).Nodup) :
    (mergeTrees tree1 tree2).collectDependencyEvents.Perm
      (tree1.collectDependencyEvents ++ tree2.collectDependencyEvents) := by
  induction tree1 generalizing tree2 with
  | last events1 =>
    cases tree2 with
    | last events2 => exact mergeLevels_perm h
    | followed events2 rest2 =>
      obtain ⟨hEvents, hRest⟩ := @nodup_parts _ _ [] _ (by simpa only [List.append_nil, collect_last, collect_followed] using h)
      simpa [mergeTrees] using (mergeLevels_perm hEvents).append (collect_mergeEmpty hRest)
  | followed events1 rest1 ih =>
    cases tree2 with
    | last events2 =>
      obtain ⟨hEvents, hRest⟩ :=
        @nodup_parts _ events2 _ [] (by simpa only [List.append_nil, collect_last, collect_followed] using h)
      rw [List.append_nil] at hRest
      refine ((mergeLevels_perm hEvents).append (collect_mergeEmpty hRest)).trans ?_
      simpa using (interchange_perm events1 rest1.collectDependencyEvents events2 []).symm
    | followed events2 rest2 =>
      obtain ⟨hEvents, hRest⟩ := nodup_parts h
      exact ((mergeLevels_perm hEvents).append (ih hRest)).trans (interchange_perm ..).symm

/-- The next levels after one more linked event's tree. -/
def addNext (nextTree : Option EventsDependencyTree) (tree : EventsDependencyTree) :
    EventsDependencyTree :=
  match nextTree with
  | none => tree
  | some next => mergeTrees next tree

/-- The tree of an event over the trees of the events linked to it. -/
def ofEvent (event : ContractEventMapping) : Option EventsDependencyTree → EventsDependencyTree
  | none => last [event]
  | some next => followed [event] next

end EventsDependencyTree

open EventsDependencyTree

/-- The events linked to an event, in the order of the relationships: its entry of the
relationships map. -/
def linkedEvents (relationships : List Relationship) (event : ContractEventMapping) :
    List ContractEventMapping :=
  (relationships.filter (·.linkedTo = event)).map Relationship.mapping

/-- The keys of the relationships map, in one of the orders that the map may give. -/
def relationshipKeys (relationships : List Relationship) : List ContractEventMapping :=
  (relationships.map Relationship.linkedTo).dedup

/-- Every event of a relationship. -/
def relationshipEvents (relationships : List Relationship) : List ContractEventMapping :=
  relationships.map Relationship.linkedTo ++ relationships.map Relationship.mapping

/-- One turn of the loop over the linked events, `build` building a tree. -/
def visitLinked (build : ContractEventMapping → List ContractEventMapping →
      Option (EventsDependencyTree × List ContractEventMapping)) :
    Option EventsDependencyTree × List ContractEventMapping → ContractEventMapping →
      Option (Option EventsDependencyTree × List ContractEventMapping)
  | (nextTree, visited), linkedEvent => do
    let (tree, visited) ← build linkedEvent visited
    some (some (addNext nextTree tree), visited)

/-- Fuel bounds the depth of the search. -/
def buildDependencyTree (relationships : List Relationship) :
    Nat → ContractEventMapping → List ContractEventMapping →
      Option (EventsDependencyTree × List ContractEventMapping)
  | 0, _, _ => none
  | fuel + 1, event, visited =>
    if event ∈ visited then some (last [], visited)
    else do
      let (nextTree, visited) ← (linkedEvents relationships event).foldlM
        (visitLinked fun e v => buildDependencyTree relationships fuel e v) (none, event :: visited)
      some (ofEvent event nextTree, visited)

structure EventDependencies where
  tree : EventsDependencyTree
  dependencyEvents : List ContractEventMapping
deriving DecidableEq, Repr

structure ContractEventDependencies where
  contractName : String
  eventDependencies : EventDependencies
deriving DecidableEq, Repr

/-- Merges the tree of a root into the entry of its contract, or starts the entry with it. -/
def addRoot (contractName : String) (tree : EventsDependencyTree) :
    List ContractEventDependencies → List ContractEventDependencies
  | [] => [⟨contractName, ⟨tree, tree.collectDependencyEvents⟩⟩]
  | entry :: entries =>
    if entry.contractName = contractName then
      ⟨contractName, ⟨mergeTrees entry.eventDependencies.tree tree,
        entry.eventDependencies.dependencyEvents ++ tree.collectDependencyEvents⟩⟩ :: entries
    else entry :: addRoot contractName tree entries

/-- One turn of the loop over the keys of the relationships map. -/
def visitRoot (relationships : List Relationship) (fuel : Nat) :
    List ContractEventDependencies × List ContractEventMapping → ContractEventMapping →
      Option (List ContractEventDependencies × List ContractEventMapping)
  | (entries, visited), event => do
    let (tree, visited) ← buildDependencyTree relationships fuel event visited
    some (addRoot event.contractName tree entries, visited)

/-- The trees of the contracts, the keys of the relationships map being visited in `order`.  No
search is deeper than the events of the relationships are many. -/
def mapAllDependencies (relationships : List Relationship) (order : List ContractEventMapping) :
    Option (List ContractEventDependencies) := do
  let (entries, _) ← order.foldlM
    (visitRoot relationships ((relationshipEvents relationships).length + 1)) ([], [])
  some entries

/-! ### Termination -/

theorem linkedEvents_subset {relationships : List Relationship} {event : ContractEventMapping} :
    linkedEvents relationships event ⊆ relationshipEvents relationships := by
  intro e he
  obtain ⟨r, hr, rfl⟩ := List.mem_map.mp he
  exact List.mem_append_right _ (List.mem_map_of_mem (List.mem_of_mem_filter hr))

/-- A loop over linked events ends when each of its turns does, and forgets no visited event. -/
theorem visitLinked_total {build : ContractEventMapping → List ContractEventMapping →
      Option (EventsDependencyTree × List ContractEventMapping)}
    (visited : List ContractEventMapping) {events : List ContractEventMapping}
    (hBuild : ∀ e ∈ events, ∀ v, visited ⊆ v → ∃ tree v', build e v = some (tree, v') ∧ v ⊆ v')
    (nextTree : Option EventsDependencyTree) {v : List ContractEventMapping} (hv : visited ⊆ v) :
    ∃ nextTree' v', events.foldlM (visitLinked build) (nextTree, v) = some (nextTree', v') ∧
      v ⊆ v' := by
  induction events generalizing nextTree v with
  | nil => exact ⟨nextTree, v, rfl, fun _ h => h⟩
  | cons e events ih =>
    obtain ⟨tree, v1, hTree, hv1⟩ := hBuild e List.mem_cons_self v hv
    obtain ⟨nextTree', v', hRest, hv'⟩ := ih (fun e' he' => hBuild e' (List.mem_cons_of_mem _ he'))
      (some (addNext nextTree tree)) (fun _ h => hv1 (hv h))
    refine ⟨nextTree', v', ?_, fun _ h => hv' (hv1 h)⟩
    rw [List.foldlM_cons, visitLinked, hTree]
    exact hRest

/-- The search ends, with more fuel than there are events to visit. -/
theorem buildDependencyTree_total {relationships : List Relationship} {fuel : Nat}
    {event : ContractEventMapping} {visited : List ContractEventMapping}
    (hEvent : event ∈ relationshipEvents relationships)
    (hFuel : unvisited (relationshipEvents relationships) visited < fuel) :
    ∃ tree visited', buildDependencyTree relationships fuel event visited = some (tree, visited') ∧
      visited ⊆ visited' := by
  induction fuel generalizing event visited with
  | zero => exact absurd hFuel (Nat.not_lt_zero _)
  | succ fuel ih =>
    rw [buildDependencyTree]
    split
    · exact ⟨_, visited, rfl, fun _ h => h⟩
    · rename_i hFresh
      have hLess := unvisited_cons_lt hEvent hFresh
      obtain ⟨nextTree, visited', hLoop, hSub⟩ := visitLinked_total
        (event :: visited) (fun e he v hv => ih (linkedEvents_subset he) (by
          have := unvisited_mono (relationshipEvents relationships) hv
          omega))
        none (fun _ h => h)
      refine ⟨ofEvent event nextTree, visited', ?_, fun _ h => hSub (List.mem_cons_of_mem _ h)⟩
      rw [hLoop]
      rfl

theorem relationshipKeys_subset {relationships : List Relationship} :
    relationshipKeys relationships ⊆ relationshipEvents relationships :=
  fun _ h => List.mem_append_left _ (List.mem_dedup.mp h)

/-- The construction ends for every set of relationships, cyclic or not. -/
theorem mapAllDependencies_total {relationships : List Relationship}
    {order : List ContractEventMapping} (hOrder : order ⊆ relationshipEvents relationships) :
    ∃ entries, mapAllDependencies relationships order = some entries := by
  have hLoop : ∀ (start : List ContractEventDependencies × List ContractEventMapping), ∃ result,
      order.foldlM (visitRoot relationships ((relationshipEvents relationships).length + 1)) start =
        some result := by
    induction order with
    | nil => exact fun start => ⟨start, rfl⟩
    | cons event order ih =>
      rintro ⟨entries, visited⟩
      have hFuel : unvisited (relationshipEvents relationships) visited <
          (relationshipEvents relationships).length + 1 := Nat.lt_succ_of_le List.countP_le_length
      obtain ⟨tree, visited', hTree, -⟩ := buildDependencyTree_total (hOrder List.mem_cons_self) hFuel
      obtain ⟨result, hRest⟩ := ih (fun _ h => hOrder (List.mem_cons_of_mem _ h))
        (addRoot event.contractName tree entries, visited')
      refine ⟨result, ?_⟩
      rw [List.foldlM_cons, visitRoot, hTree]
      exact hRest
  obtain ⟨⟨entries, visited⟩, hResult⟩ := hLoop ([], [])
  exact ⟨entries, by rw [mapAllDependencies, hResult]; rfl⟩

/-! ### What the search finds -/

/-- The events of the next levels, if there are any. -/
def nextEvents : Option EventsDependencyTree → List ContractEventMapping
  | none => []
  | some tree => tree.collectDependencyEvents

/-- Level `i` of the next levels. -/
def nextLevel (nextTree : Option EventsDependencyTree) (i : Nat) : List ContractEventMapping :=
  match nextTree with
  | none => []
  | some tree => tree.level i

theorem collect_addNext {nextTree : Option EventsDependencyTree} {tree : EventsDependencyTree}
    (h : (nextEvents nextTree ++ tree.collectDependencyEvents).Nodup) :
    (addNext nextTree tree).collectDependencyEvents.Perm
      (nextEvents nextTree ++ tree.collectDependencyEvents) := by
  cases nextTree with
  | none => exact List.Perm.refl _
  | some next => exact collect_mergeTrees h

theorem mem_level_addNext {nextTree : Option EventsDependencyTree} {tree : EventsDependencyTree}
    (h : (nextEvents nextTree ++ tree.collectDependencyEvents).Nodup) {i : Nat}
    {e : ContractEventMapping} :
    e ∈ (addNext nextTree tree).level i ↔ e ∈ nextLevel nextTree i ∨ e ∈ tree.level i := by
  cases nextTree with
  | none => simp [addNext, nextLevel]
  | some next => exact (level_mergeTrees h i).mem_iff.trans List.mem_append

@[simp] theorem collect_ofEvent (event : ContractEventMapping)
    (nextTree : Option EventsDependencyTree) :
    (ofEvent event nextTree).collectDependencyEvents = event :: nextEvents nextTree := by
  cases nextTree <;> rfl

theorem mem_level_ofEvent {event e : ContractEventMapping} {nextTree : Option EventsDependencyTree}
    {i : Nat} : e ∈ (ofEvent event nextTree).level i ↔
      (i = 0 ∧ e = event) ∨ ∃ j, i = j + 1 ∧ e ∈ nextLevel nextTree j := by
  cases nextTree <;> cases i <;> simp [ofEvent, level, nextLevel]

/-- What a loop over linked events finds, and where: `place` says where the events of the trees that
`build` builds may stand. -/
theorem visitLinked_explored {next : ContractEventMapping → List ContractEventMapping}
    {build : ContractEventMapping → List ContractEventMapping →
      Option (EventsDependencyTree × List ContractEventMapping)}
    (place : Nat → ContractEventMapping → Prop) {events : List ContractEventMapping}
    (hBuild : ∀ e ∈ events, ∀ v tree v', v.Nodup → build e v = some (tree, v') →
      Explored next [e] v tree.collectDependencyEvents v' ∧ ∀ i x, x ∈ tree.level i → place i x)
    {nextTree nextTree' : Option EventsDependencyTree} {v v' : List ContractEventMapping}
    (hLoop : events.foldlM (visitLinked build) (nextTree, v) = some (nextTree', v'))
    (hv : v.Nodup) (hNext : (nextEvents nextTree).Nodup) (hSub : nextEvents nextTree ⊆ v) :
    ∃ found, Explored next events v found v' ∧
      (nextEvents nextTree').Perm (nextEvents nextTree ++ found) ∧
      ∀ i x, x ∈ nextLevel nextTree' i → x ∈ nextLevel nextTree i ∨ place i x := by
  induction events generalizing nextTree v with
  | nil =>
    cases hLoop
    exact ⟨[], Explored.nil hv, by simp, fun _ _ h => .inl h⟩
  | cons e events ih =>
    rw [List.foldlM_cons, visitLinked] at hLoop
    cases hTree : build e v with
    | none => simp [hTree] at hLoop
    | some built =>
      obtain ⟨tree, v1⟩ := built
      obtain ⟨hFirst, hPlace⟩ := hBuild e List.mem_cons_self v tree v1 hv hTree
      have hNodup : (nextEvents nextTree ++ tree.collectDependencyEvents).Nodup :=
        List.nodup_append.mpr ⟨hNext, hFirst.found_nodup,
          fun x hx y hy hxy => hFirst.found_fresh hy (hxy ▸ hSub hx)⟩
      have hPerm := collect_addNext hNodup
      rw [hTree] at hLoop
      obtain ⟨found, hRest, hNext', hLevel⟩ := ih
        (fun e' he' => hBuild e' (List.mem_cons_of_mem _ he')) hLoop hFirst.nodup
        (hPerm.nodup_iff.mpr hNodup) (fun x hx => by
          rcases List.mem_append.mp (hPerm.mem_iff.mp hx) with hx | hx
          · exact hFirst.subset (hSub hx)
          · exact hFirst.found_subset hx)
      refine ⟨tree.collectDependencyEvents ++ found, hFirst.append hRest, ?_, ?_⟩
      · rw [← List.append_assoc]
        exact hNext'.trans (hPerm.append_right _)
      · intro i x hx
        rcases hLevel i x hx with hx | hx
        · rcases (mem_level_addNext hNodup).mp hx with hx | hx
          · exact .inl hx
          · exact .inr (hPlace i x hx)
        · exact .inr hx

/-- A search from an event: nothing if the event is visited, else the event over the trees of the
events linked to it. -/
theorem buildDependencyTree_cases {relationships : List Relationship} {fuel : Nat}
    {event : ContractEventMapping} {visited visited' : List ContractEventMapping}
    {tree : EventsDependencyTree}
    (h : buildDependencyTree relationships (fuel + 1) event visited = some (tree, visited')) :
    (event ∈ visited ∧ tree = last [] ∧ visited' = visited) ∨
    (event ∉ visited ∧ ∃ nextTree, tree = ofEvent event nextTree ∧
      (linkedEvents relationships event).foldlM
        (visitLinked fun e v => buildDependencyTree relationships fuel e v)
        (none, event :: visited) = some (nextTree, visited')) := by
  rw [buildDependencyTree] at h
  split at h
  · rename_i hOld
    cases h
    exact .inl ⟨hOld, rfl, rfl⟩
  · rename_i hFresh
    cases hLoop : (linkedEvents relationships event).foldlM
        (visitLinked fun e v => buildDependencyTree relationships fuel e v)
        (none, event :: visited) with
    | none => simp [hLoop] at h
    | some result =>
      obtain ⟨nextTree, v⟩ := result
      rw [hLoop] at h
      cases h
      exact .inr ⟨hFresh, nextTree, rfl, rfl⟩

theorem buildDependencyTree_explored {relationships : List Relationship} {fuel : Nat}
    {event : ContractEventMapping} {visited visited' : List ContractEventMapping}
    {tree : EventsDependencyTree} (hv : visited.Nodup)
    (h : buildDependencyTree relationships fuel event visited = some (tree, visited')) :
    Explored (linkedEvents relationships) [event] visited tree.collectDependencyEvents visited' := by
  induction fuel generalizing event visited visited' tree with
  | zero => cases h
  | succ fuel ih =>
    rcases buildDependencyTree_cases h with ⟨hOld, rfl, rfl⟩ | ⟨hFresh, nextTree, rfl, hLoop⟩
    · exact Explored.old hv hOld
    · obtain ⟨found, hFound, hPerm, -⟩ := visitLinked_explored (fun _ _ => True)
        (fun e _ v tree v' hv h => ⟨ih hv h, fun _ _ _ => trivial⟩) hLoop
        (List.nodup_cons.mpr ⟨hFresh, hv⟩) List.nodup_nil (List.nil_subset _)
      rw [collect_ofEvent]
      exact hFound.fresh.of_perm (hPerm.cons event)

/-- A fresh event is the root of its tree. -/
theorem mem_level_zero {relationships : List Relationship} {fuel : Nat}
    {event : ContractEventMapping} {visited visited' : List ContractEventMapping}
    {tree : EventsDependencyTree} (hFresh : event ∉ visited)
    (h : buildDependencyTree relationships fuel event visited = some (tree, visited')) :
    event ∈ tree.level 0 := by
  cases fuel with
  | zero => cases h
  | succ fuel =>
    rcases buildDependencyTree_cases h with ⟨hOld, -, -⟩ | ⟨-, nextTree, rfl, -⟩
    · exact absurd hOld hFresh
    · exact mem_level_ofEvent.mpr (.inl ⟨rfl, rfl⟩)

/-- The tree of an event whose linked events have no linked events has two levels at most. -/
theorem level_of_flat {relationships : List Relationship} {fuel : Nat}
    {event : ContractEventMapping} {visited visited' : List ContractEventMapping}
    {tree : EventsDependencyTree} (hv : visited.Nodup)
    (hFlat : ∀ e ∈ linkedEvents relationships event, linkedEvents relationships e = [])
    (h : buildDependencyTree relationships fuel event visited = some (tree, visited')) {i : Nat}
    {x : ContractEventMapping} (hx : x ∈ tree.level i) :
    (i = 0 ∧ x = event) ∨ (i = 1 ∧ x ∈ linkedEvents relationships event) := by
  induction fuel generalizing event visited visited' tree i x with
  | zero => cases h
  | succ fuel ih =>
    rcases buildDependencyTree_cases h with ⟨-, rfl, -⟩ | ⟨hFresh, nextTree, rfl, hLoop⟩
    · cases i <;> cases hx
    · obtain ⟨-, -, -, hPlace⟩ := visitLinked_explored
        (fun i x => i = 0 ∧ x ∈ linkedEvents relationships event)
        (fun e he v tree v' hv h => ⟨buildDependencyTree_explored hv h, fun i x hx => by
          rcases ih hv (fun y hy => by simp [hFlat e he] at hy) h hx with ⟨hi, rfl⟩ | ⟨-, hy⟩
          · exact ⟨hi, he⟩
          · simp [hFlat e he] at hy⟩)
        hLoop (List.nodup_cons.mpr ⟨hFresh, hv⟩) List.nodup_nil (List.nil_subset _)
      rcases mem_level_ofEvent.mp hx with hRoot | ⟨j, rfl, hNext⟩
      · exact .inl hRoot
      · rcases hPlace j x hNext with hNone | ⟨rfl, hLinked⟩
        · cases hNone
        · exact .inr ⟨rfl, hLinked⟩

/-! ### The trees of the contracts -/

/-- The tree of a contract, if it has one. -/
def treeOf (entries : List ContractEventDependencies) (contractName : String) :
    Option EventsDependencyTree :=
  (entries.find? (·.contractName = contractName)).map (·.eventDependencies.tree)

theorem treeOf_addRoot (entries : List ContractEventDependencies) (contractName : String)
    (tree : EventsDependencyTree) (name : String) :
    treeOf (addRoot contractName tree entries) name =
      if name = contractName then some (addNext (treeOf entries contractName) tree)
      else treeOf entries name := by
  induction entries with
  | nil =>
    by_cases hName : name = contractName
    · subst hName
      simp [addRoot, treeOf, addNext]
    · simp [addRoot, treeOf, hName, Ne.symm hName]
  | cons entry entries ih =>
    rw [addRoot]
    by_cases hEntry : entry.contractName = contractName
    · rw [if_pos hEntry]
      by_cases hName : name = contractName
      · subst hName
        simp [treeOf, hEntry, addNext]
      · simp [treeOf, hName, Ne.symm hName, hEntry]
    · rw [if_neg hEntry]
      by_cases hSame : entry.contractName = name
      · have hName : name ≠ contractName := hSame ▸ hEntry
        simp [treeOf, hSame, hName]
      · have hTail : ∀ es, treeOf (entry :: es) name = treeOf es name := fun es => by
          simp [treeOf, hSame]
        have hTail' : treeOf (entry :: entries) contractName = treeOf entries contractName := by
          simp [treeOf, hEntry]
        rw [hTail, hTail, hTail', ih]

theorem mem_linkedEvents {relationships : List Relationship} {a b : ContractEventMapping} :
    b ∈ linkedEvents relationships a ↔
      ∃ r ∈ relationships, r.linkedTo = a ∧ r.mapping = b := by
  simp [linkedEvents, and_assoc]

/-- Relationships within contracts stay in the contract. -/
theorem contractName_of_reached {relationships : List Relationship}
    (hWithin : hasCrossContractDependency relationships = false) {a b : ContractEventMapping}
    (h : Relation.ReflTransGen (Follows (linkedEvents relationships)) a b) :
    b.contractName = a.contractName := by
  induction h with
  | refl => rfl
  | tail _ hStep ih =>
    obtain ⟨r, hr, hFrom, hTo⟩ := mem_linkedEvents.mp hStep
    have hSame : r.linkedToContractName = r.contractName := by
      have := List.any_eq_false.mp hWithin r hr
      simpa using this
    rw [← ih, ← hFrom, ← hTo]
    exact hSame.symm

/-- The state of the loop over the keys, after the keys `done`: the trees hold the visited events,
each in the tree of its contract. -/
structure Placed (relationships : List Relationship) (done : List ContractEventMapping)
    (entries : List ContractEventDependencies) (visited : List ContractEventMapping) : Prop where
  explored : Explored (linkedEvents relationships) done [] visited visited
  trees : ∀ c, (nextEvents (treeOf entries c)).Perm (visited.filter (·.contractName = c))

section Roots

variable {relationships : List Relationship} {fuel : Nat}
  {done order : List ContractEventMapping} {entries entries' : List ContractEventDependencies}
  {visited visited' : List ContractEventMapping}

/-- One key adds its tree to the tree of its contract, level by level. -/
theorem visitRoot_placed (hWithin : hasCrossContractDependency relationships = false)
    (hPlaced : Placed relationships done entries visited) {event : ContractEventMapping}
    (h : visitRoot relationships fuel (entries, visited) event = some (entries', visited')) :
    ∃ tree, buildDependencyTree relationships fuel event visited = some (tree, visited') ∧
      Placed relationships (done ++ [event]) entries' visited' ∧
      ∀ c i x, x ∈ nextLevel (treeOf entries' c) i ↔
        x ∈ nextLevel (treeOf entries c) i ∨ (c = event.contractName ∧ x ∈ tree.level i) := by
  rw [visitRoot] at h
  cases hTree : buildDependencyTree relationships fuel event visited with
  | none => simp [hTree] at h
  | some built =>
    obtain ⟨tree, v⟩ := built
    rw [hTree] at h
    cases h
    have hFound := buildDependencyTree_explored hPlaced.explored.nodup hTree
    have hContract : ∀ x ∈ tree.collectDependencyEvents, x.contractName = event.contractName := by
      intro x hx
      obtain ⟨r, hr, hPath⟩ := hFound.reached x hx
      rw [contractName_of_reached hWithin hPath, List.mem_singleton.mp hr]
    have hNodup : (nextEvents (treeOf entries event.contractName) ++
        tree.collectDependencyEvents).Nodup := by
      have hOld := hPlaced.trees event.contractName
      refine List.nodup_append.mpr ⟨hOld.nodup_iff.mpr (hPlaced.explored.nodup.filter _),
        hFound.found_nodup, fun x hx y hy hxy => hFound.found_fresh hy ?_⟩
      exact hxy ▸ List.mem_of_mem_filter (hOld.mem_iff.mp hx)
    refine ⟨tree, rfl, ⟨?_, ?_⟩, ?_⟩
    · exact (hPlaced.explored.append hFound).of_perm
        (hFound.perm.trans List.perm_append_comm)
    · intro c
      refine List.Perm.trans ?_ (hFound.perm.filter _).symm
      rw [List.filter_append, treeOf_addRoot]
      by_cases hc : c = event.contractName
      · subst hc
        have hAll : tree.collectDependencyEvents.filter
            (fun x => decide (x.contractName = event.contractName)) =
              tree.collectDependencyEvents :=
          List.filter_eq_self.mpr fun x hx => by simpa using hContract x hx
        rw [if_pos rfl, hAll]
        exact (collect_addNext hNodup).trans (((hPlaced.trees _).append_right _).trans
          List.perm_append_comm)
      · have hNone : tree.collectDependencyEvents.filter
            (fun x => decide (x.contractName = c)) = [] :=
          List.filter_eq_nil_iff.mpr fun x hx => by simpa [hContract x hx] using Ne.symm hc
        rw [if_neg hc, hNone, List.nil_append]
        exact hPlaced.trees c
    · intro c i x
      rw [treeOf_addRoot]
      by_cases hc : c = event.contractName
      · subst hc
        simp only [if_true, true_and]
        exact mem_level_addNext hNodup
      · simp [hc]

/-- The loop over the keys: the visited events are in the trees, the events of a level stay on it,
and new ones come from the trees of the keys. -/
theorem visitRoots_placed (hWithin : hasCrossContractDependency relationships = false)
    (place : Nat → ContractEventMapping → Prop)
    (hPlace : ∀ event ∈ order, ∀ v tree v', v.Nodup →
      buildDependencyTree relationships fuel event v = some (tree, v') →
        ∀ i x, x ∈ tree.level i → place i x)
    (hPlaced : Placed relationships done entries visited)
    (h : order.foldlM (visitRoot relationships fuel) (entries, visited) = some (entries', visited')) :
    Placed relationships (done ++ order) entries' visited' ∧
      (∀ c i x, x ∈ nextLevel (treeOf entries c) i → x ∈ nextLevel (treeOf entries' c) i) ∧
      ∀ c i x, x ∈ nextLevel (treeOf entries' c) i →
        x ∈ nextLevel (treeOf entries c) i ∨ place i x := by
  induction order generalizing done entries visited with
  | nil =>
    cases h
    rw [List.append_nil]
    exact ⟨hPlaced, fun _ _ _ h => h, fun _ _ _ h => .inl h⟩
  | cons event order ih =>
    rw [List.foldlM_cons] at h
    cases hFirst : visitRoot relationships fuel (entries, visited) event with
    | none => simp [hFirst] at h
    | some result =>
      obtain ⟨entries1, visited1⟩ := result
      rw [hFirst] at h
      obtain ⟨tree, hTree, hPlaced1, hLevel1⟩ := visitRoot_placed hWithin hPlaced hFirst
      obtain ⟨hRest, hKeep, hNew⟩ := ih (fun e he => hPlace e (List.mem_cons_of_mem _ he)) hPlaced1 h
      rw [List.append_assoc] at hRest
      refine ⟨hRest, fun c i x hx => hKeep c i x ((hLevel1 c i x).mpr (.inl hx)), ?_⟩
      intro c i x hx
      rcases hNew c i x hx with hx | hx
      · rcases (hLevel1 c i x).mp hx with hx | ⟨-, hx⟩
        · exact .inl hx
        · exact .inr (hPlace event List.mem_cons_self visited tree visited1
            hPlaced.explored.nodup hTree i x hx)
      · exact .inr hx

end Roots

/-! ### Schedules -/

/-- Every event of a relationship of the contract stands in the tree once, and deeper than every
event that it is linked to. -/
structure ValidSchedule (relationships : List Relationship) (contractName : String)
    (tree : EventsDependencyTree) : Prop where
  once : ∀ e ∈ relationshipEvents relationships, e.contractName = contractName →
    tree.collectDependencyEvents.count e = 1
  deeper : ∀ r ∈ relationships, r.contractName = contractName →
    ∀ i j, r.linkedTo ∈ tree.level i → r.mapping ∈ tree.level j → i < j

/-- With the keys of the relationships map in this order, every contract of a relationship has a
tree, and the tree is a valid schedule. -/
def Scheduled (relationships : List Relationship) (order : List ContractEventMapping) : Prop :=
  ∃ entries, mapAllDependencies relationships order = some entries ∧
    ∀ e ∈ relationshipEvents relationships, ∃ tree, treeOf entries e.contractName = some tree ∧
      ValidSchedule relationships e.contractName tree

/-- No event is linked to itself, directly or through others. -/
def Acyclic (relationships : List Relationship) : Prop :=
  ∀ e, ¬Relation.TransGen (Follows (linkedEvents relationships)) e e

theorem mem_relationshipKeys {relationships : List Relationship} {e : ContractEventMapping} :
    e ∈ relationshipKeys relationships ↔ ∃ r ∈ relationships, r.linkedTo = e := by
  rw [relationshipKeys, List.mem_dedup, List.mem_map]

theorem placed_nil (relationships : List Relationship) : Placed relationships [] [] [] where
  explored := Explored.nil List.nodup_nil
  trees := fun _ => List.Perm.refl _

section Schedules

variable {relationships : List Relationship} {order : List ContractEventMapping}

/-- The run over all the keys. -/
theorem mapAllDependencies_run (hOrder : order.Perm (relationshipKeys relationships)) :
    ∃ entries visited, mapAllDependencies relationships order = some entries ∧
      order.foldlM (visitRoot relationships ((relationshipEvents relationships).length + 1))
        ([], []) = some (entries, visited) := by
  have hSub : order ⊆ relationshipEvents relationships := fun _ h =>
    relationshipKeys_subset (hOrder.mem_iff.mp h)
  obtain ⟨entries, hEntries⟩ := mapAllDependencies_total hSub
  refine ⟨entries, ?_⟩
  rw [mapAllDependencies] at hEntries
  cases hRun : order.foldlM
      (visitRoot relationships ((relationshipEvents relationships).length + 1)) ([], []) with
  | none => simp [hRun] at hEntries
  | some result =>
    obtain ⟨entries', visited⟩ := result
    rw [hRun] at hEntries
    cases hEntries
    exact ⟨visited, by rw [mapAllDependencies, hRun]; rfl, rfl⟩

/-- All the events of the relationships are visited in the end. -/
theorem mem_visited (hOrder : order.Perm (relationshipKeys relationships))
    {entries : List ContractEventDependencies} {visited : List ContractEventMapping}
    (hPlaced : Placed relationships order entries visited) {e : ContractEventMapping}
    (he : e ∈ relationshipEvents relationships) : e ∈ visited := by
  have hKey : ∀ r ∈ relationships, r.linkedTo ∈ visited := fun r hr =>
    hPlaced.explored.roots_mem _ (hOrder.mem_iff.mpr (mem_relationshipKeys.mpr ⟨r, hr, rfl⟩))
  rcases List.mem_append.mp he with he | he
  · obtain ⟨r, hr, rfl⟩ := List.mem_map.mp he
    exact hKey r hr
  · obtain ⟨r, hr, rfl⟩ := List.mem_map.mp he
    exact hPlaced.explored.closed _ (hKey r hr) _ (mem_linkedEvents.mpr ⟨r, hr, rfl, rfl⟩)

/-- Every event of a relationship stands in the tree of its contract once. -/
theorem count_eq_one (hOrder : order.Perm (relationshipKeys relationships))
    {entries : List ContractEventDependencies} {visited : List ContractEventMapping}
    (hPlaced : Placed relationships order entries visited) {e : ContractEventMapping}
    (he : e ∈ relationshipEvents relationships) :
    (nextEvents (treeOf entries e.contractName)).count e = 1 := by
  have hPerm := hPlaced.trees e.contractName
  rw [hPerm.count_eq]
  exact List.count_eq_one_of_mem (hPlaced.explored.nodup.filter _)
    (List.mem_filter.mpr ⟨mem_visited hOrder hPlaced he, by simp⟩)

/-- With chains of one relationship only, every order of the keys gives valid schedules. -/
theorem scheduled_of_flat (hWithin : hasCrossContractDependency relationships = false)
    (hFlat : ∀ r ∈ relationships, ∀ r' ∈ relationships, r.mapping ≠ r'.linkedTo)
    (hOrder : order.Perm (relationshipKeys relationships)) : Scheduled relationships order := by
  have hLeaf : ∀ r ∈ relationships, linkedEvents relationships r.mapping = [] := by
    intro r hr
    rw [List.eq_nil_iff_forall_not_mem]
    intro b hb
    obtain ⟨r', hr', hFrom, -⟩ := mem_linkedEvents.mp hb
    exact hFlat r hr r' hr' hFrom.symm
  have hPlace : ∀ event ∈ order, ∀ v tree v', v.Nodup →
      buildDependencyTree relationships ((relationshipEvents relationships).length + 1) event v =
        some (tree, v') → ∀ i x, x ∈ tree.level i →
          (i = 0 ∧ x ∈ relationshipKeys relationships) ∨
            (i = 1 ∧ x ∉ relationshipKeys relationships) := by
    intro event hEvent v tree v' hv hTree i x hx
    rcases level_of_flat hv (fun e he => by
      obtain ⟨r, hr, -, rfl⟩ := mem_linkedEvents.mp he
      exact hLeaf r hr) hTree hx with ⟨hi, rfl⟩ | ⟨hi, hLinked⟩
    · exact .inl ⟨hi, hOrder.mem_iff.mp hEvent⟩
    · refine .inr ⟨hi, fun hKey => ?_⟩
      obtain ⟨r, hr, -, rfl⟩ := mem_linkedEvents.mp hLinked
      obtain ⟨r', hr', hFrom⟩ := mem_relationshipKeys.mp hKey
      exact hFlat r hr r' hr' hFrom.symm
  obtain ⟨entries, visited, hEntries, hRun⟩ := mapAllDependencies_run hOrder
  obtain ⟨hPlaced, -, hLevel⟩ :=
    visitRoots_placed hWithin _ hPlace (placed_nil relationships) hRun
  rw [List.nil_append] at hPlaced
  refine ⟨entries, hEntries, fun e he => ?_⟩
  have hCount := count_eq_one hOrder hPlaced he
  cases hTree : treeOf entries e.contractName with
  | none => simp [hTree, nextEvents] at hCount
  | some tree =>
    refine ⟨tree, rfl, ⟨fun e' he' hName => ?_, fun r hr hName i j hi hj => ?_⟩⟩
    · have hCount' := count_eq_one hOrder hPlaced he'
      rwa [hName, hTree] at hCount'
    · have hTier : ∀ k x, x ∈ tree.level k → _ := fun k x hx =>
        (hLevel e.contractName k x (by rw [hTree]; exact hx)).resolve_left
          (by simp [treeOf, nextLevel])
      have hFrom : r.linkedTo ∈ relationshipKeys relationships :=
        mem_relationshipKeys.mpr ⟨r, hr, rfl⟩
      have hTo : r.mapping ∉ relationshipKeys relationships := fun hKey => by
        obtain ⟨r', hr', hSame⟩ := mem_relationshipKeys.mp hKey
        exact hFlat r hr r' hr' hSame.symm
      rcases hTier i _ hi with ⟨rfl, -⟩ | ⟨-, hNot⟩
      · rcases hTier j _ hj with ⟨-, hKey⟩ | ⟨rfl, -⟩
        · exact absurd hKey hTo
        · exact Nat.zero_lt_one
      · exact absurd hFrom hNot

/-- The middle of a chain, visited first, and then its head share the root level. -/
theorem not_scheduled_of_chain (hWithin : hasCrossContractDependency relationships = false)
    (hAcyclic : Acyclic relationships) {r r' : Relationship} (hr : r ∈ relationships)
    (hr' : r' ∈ relationships) (hChain : r.mapping = r'.linkedTo) :
    ∃ order, order.Perm (relationshipKeys relationships) ∧ ¬Scheduled relationships order := by
  have hStep : Follows (linkedEvents relationships) r.linkedTo r.mapping :=
    mem_linkedEvents.mpr ⟨r, hr, rfl, rfl⟩
  have hNe : r.linkedTo ≠ r.mapping := fun h =>
    hAcyclic r.linkedTo (Relation.TransGen.single (h ▸ hStep))
  have hMiddle : r.mapping ∈ relationshipKeys relationships :=
    mem_relationshipKeys.mpr ⟨r', hr', hChain.symm⟩
  have hHead : r.linkedTo ∈ (relationshipKeys relationships).erase r.mapping :=
    (List.mem_erase_of_ne hNe).mpr (mem_relationshipKeys.mpr ⟨r, hr, rfl⟩)
  have hOrder : (r.mapping :: r.linkedTo ::
      ((relationshipKeys relationships).erase r.mapping).erase r.linkedTo).Perm
        (relationshipKeys relationships) :=
    ((List.perm_cons_erase hHead).symm.cons _).trans (List.perm_cons_erase hMiddle).symm
  refine ⟨_, hOrder, ?_⟩
  rintro ⟨entries, hEntries, hValid⟩
  obtain ⟨entries', visited, hEntries', hRun⟩ := mapAllDependencies_run hOrder
  rw [hEntries] at hEntries'
  cases hEntries'
  rw [List.foldlM_cons] at hRun
  cases hFirst : visitRoot relationships ((relationshipEvents relationships).length + 1) ([], [])
      r.mapping with
  | none => simp [hFirst] at hRun
  | some state1 =>
    obtain ⟨entries1, visited1⟩ := state1
    rw [hFirst] at hRun
    simp only [Option.bind_eq_bind, Option.bind_some, List.foldlM_cons] at hRun
    obtain ⟨tree1, hTree1, hPlaced1, hLevel1⟩ :=
      visitRoot_placed hWithin (placed_nil relationships) hFirst
    cases hSecond : visitRoot relationships ((relationshipEvents relationships).length + 1)
        (entries1, visited1) r.linkedTo with
    | none => simp [hSecond] at hRun
    | some state2 =>
      obtain ⟨entries2, visited2⟩ := state2
      rw [hSecond] at hRun
      obtain ⟨tree2, hTree2, hPlaced2, hLevel2⟩ := visitRoot_placed hWithin hPlaced1 hSecond
      obtain ⟨-, hKeep, -⟩ := visitRoots_placed hWithin (fun _ _ => True)
        (fun _ _ _ _ _ _ _ _ _ _ => trivial) hPlaced2 hRun
      have hFresh : r.linkedTo ∉ visited1 := fun hOld => by
        obtain ⟨root, hRoot, hPath⟩ := hPlaced1.explored.reached _ hOld
        rw [List.mem_singleton.mp hRoot] at hPath
        exact hAcyclic _ (Relation.TransGen.head' hStep hPath)
      have hSame : r.mapping.contractName = r.linkedTo.contractName := contractName_of_reached
        hWithin (Relation.ReflTransGen.single hStep)
      have hMiddle0 := hKeep r.contractName 0 _ ((hLevel2 r.contractName 0 _).mpr (.inl
        ((hLevel1 r.contractName 0 r.mapping).mpr
          (.inr ⟨rfl, mem_level_zero List.not_mem_nil hTree1⟩))))
      have hHead0 := hKeep r.contractName 0 _ ((hLevel2 r.contractName 0 r.linkedTo).mpr
        (.inr ⟨hSame, mem_level_zero hFresh hTree2⟩))
      obtain ⟨tree, hTree, hSchedule⟩ := hValid r.mapping
        (List.mem_append_right _ (List.mem_map_of_mem hr))
      have hTree' : treeOf entries r.contractName = some tree := hTree
      rw [hTree'] at hMiddle0 hHead0
      exact Nat.lt_irrefl 0 (hSchedule.deeper r hr rfl 0 0 hHead0 hMiddle0)

end Schedules

/-- The construction ends for every set of relationships, cyclic or not.  On an acyclic one within
contracts, every order of the keys gives valid schedules if and only if no event is both linked to
another event and linked to by one. -/
theorem scheduled_iff_flat (relationships : List Relationship) :
    (∀ order, order.Perm (relationshipKeys relationships) →
      ∃ entries, mapAllDependencies relationships order = some entries) ∧
    (hasCrossContractDependency relationships = false → Acyclic relationships →
      ((∀ order, order.Perm (relationshipKeys relationships) → Scheduled relationships order) ↔
        ∀ r ∈ relationships, ∀ r' ∈ relationships, r.mapping ≠ r'.linkedTo)) := by
  refine ⟨fun order hOrder => ?_, fun hWithin hAcyclic => ⟨fun hAll r hr r' hr' hChain => ?_, ?_⟩⟩
  · exact mapAllDependencies_total fun _ h => relationshipKeys_subset (hOrder.mem_iff.mp h)
  · obtain ⟨order, hOrder, hNot⟩ := not_scheduled_of_chain hWithin hAcyclic hr hr' hChain
    exact hNot (hAll order hOrder)
  · exact fun hFlat order hOrder => scheduled_of_flat hWithin hFlat hOrder

theorem acyclic_of_rank {relationships : List Relationship} (rank : ContractEventMapping → Nat)
    (h : ∀ r ∈ relationships, rank r.linkedTo < rank r.mapping) : Acyclic relationships := by
  have hLess : ∀ a b, Relation.TransGen (Follows (linkedEvents relationships)) a b →
      rank a < rank b := by
    intro a b hPath
    induction hPath with
    | single hStep =>
      obtain ⟨r, hr, rfl, rfl⟩ := mem_linkedEvents.mp hStep
      exact h r hr
    | tail _ hStep ih =>
      obtain ⟨r, hr, rfl, rfl⟩ := mem_linkedEvents.mp hStep
      exact Nat.lt_trans ih (h r hr)
  exact fun e hPath => Nat.lt_irrefl _ (hLess e e hPath)

/-- Swaps and burns that are linked to the creation of their pool. -/
def poolRelationships : List Relationship :=
  [⟨"Pool", "Swap", "Pool", "Created"⟩, ⟨"Pool", "Burn", "Pool", "Created"⟩]

theorem scheduled_iff_flat_pool :
    (∀ order, order.Perm (relationshipKeys poolRelationships) →
      Scheduled poolRelationships order) ∧
    ∃ entries, mapAllDependencies poolRelationships [⟨"Pool", "Created"⟩] = some entries :=
  ⟨((scheduled_iff_flat poolRelationships).2 (by decide)
      (acyclic_of_rank (fun e => if e.eventName = "Created" then 0 else 1) (by decide))).mpr
    (by decide), (scheduled_iff_flat poolRelationships).1 _ (by decide)⟩

/-- Fees that are linked to swaps, which are linked to the creation of their pool. -/
def chainRelationships : List Relationship :=
  [⟨"Pool", "Swap", "Pool", "Created"⟩, ⟨"Pool", "Fee", "Pool", "Swap"⟩]

/-- When the map gives the swaps first, they stand on the level of the creation of their pool. -/
theorem late_root_shares_level :
    hasCrossContractDependency chainRelationships = false ∧ Acyclic chainRelationships ∧
    [⟨"Pool", "Swap"⟩, ⟨"Pool", "Created"⟩].Perm (relationshipKeys chainRelationships) ∧
    ¬Scheduled chainRelationships [⟨"Pool", "Swap"⟩, ⟨"Pool", "Created"⟩] := by
  refine ⟨by decide, acyclic_of_rank (fun e => if e.eventName = "Created" then 0 else
    if e.eventName = "Swap" then 1 else 2) (by decide), by decide, ?_⟩
  rintro ⟨entries, hEntries, hValid⟩
  have hRun : mapAllDependencies chainRelationships [⟨"Pool", "Swap"⟩, ⟨"Pool", "Created"⟩] =
      some [⟨"Pool", ⟨.followed [⟨"Pool", "Created"⟩, ⟨"Pool", "Swap"⟩] (.last [⟨"Pool", "Fee"⟩]),
        [⟨"Pool", "Swap"⟩, ⟨"Pool", "Fee"⟩, ⟨"Pool", "Created"⟩]⟩⟩] := by decide
  rw [hRun] at hEntries
  cases hEntries
  obtain ⟨tree, hTree, hSchedule⟩ := hValid ⟨"Pool", "Swap"⟩ (by decide)
  cases hTree
  exact absurd (hSchedule.deeper ⟨"Pool", "Swap", "Pool", "Created"⟩ (by decide) rfl 0 0 (by decide)
    (by decide)) (by decide)

end Rindexer.Indexer
