import Rindexer.Database.Constraints

/-! Constraints and indexes over the starts of an indexer.  A start takes away what the last known
statements name, saves the statements of its own manifest, indexes, and only then applies what the
manifest asks for.  Between any two statements the process may stop, and the manifest may change before
the next start. -/

namespace Rindexer.Database

open Rindexer.Lib
open Rindexer.Manifest (Contract)

/-- What a start takes from its manifest. -/
structure RelationshipSettings where
  name : List Char
  contracts : List Contract
  relationships : Option (List ForeignKeys)
  indexes : Option PostgresIndexes

inductive StartPhase
  | droppingRelationships (rest : List DroppingSql)
  | creatingRelationships
  /-- The last known indexes are dropped at the same time; an error counts once all are done. -/
  | droppingIndexes (relationships : List Relationship) (rest : List DroppingSql) (failed : Bool)
  | preparingIndexes (relationships : List Relationship)
  | indexing (relationships : List Relationship) (indexes : List PostgresIndexResult)
  | applyingIndexes (relationships : List Relationship) (rest : List PostgresIndexResult)
  | applyingRelationships (relationships : List Relationship) (rest : List ApplyingSql)
  | live (relationships : List Relationship)

/-- The database with the two lists of last known statements, and the process, if one runs. -/
structure RelationshipServer where
  tables : List TableName
  constraints : Constraints
  relationshipDrops : List DroppingSql
  indexDrops : List DroppingSql
  process : Option (RelationshipSettings × StartPhase)

inductive StartEvent
  | createTables (tables : List TableName)
  | start (settings : RelationshipSettings)
  /-- The process goes on; `choice` is the place of the index that is dropped next. -/
  | next (choice : Nat)
  /-- The process stops, or the database refuses its next statement. -/
  | stop

namespace RelationshipServer

def initial (tables : List TableName) : RelationshipServer := ⟨tables, .none, [], [], none⟩

variable (classes : UnicodeClasses) (s : RelationshipServer)

def enter (settings : RelationshipSettings) (phase : StartPhase) : RelationshipServer :=
  { s with process := some (settings, phase) }

def stopped : RelationshipServer := { s with process := none }

/-- The statement is done and the process enters the phase, or it fails and ends the process. -/
def executed (settings : RelationshipSettings) (phase : StartPhase) (result : Option Constraints) :
    RelationshipServer :=
  match result with
  | none => s.stopped
  | some constraints => { s with constraints := constraints }.enter settings phase

/-- A process in a phase goes on. -/
def proceed (settings : RelationshipSettings) (choice : Nat) :
    StartPhase → Option RelationshipServer
  | .droppingRelationships [] => some (s.enter settings .creatingRelationships)
  | .droppingRelationships (code :: rest) =>
    some (s.executed settings (.droppingRelationships rest) (s.constraints.drop s.tables code))
  | .creatingRelationships =>
    match settings.relationships with
    | none => some (s.enter settings (.droppingIndexes [] s.indexDrops false))
    | some foreignKeys =>
      match createRelationships classes settings.name settings.contracts foreignKeys with
      | some (.ok relationships) =>
        some ({ s with relationshipDrops := relationships.flatMap Relationship.dropSql }.enter settings
          (.droppingIndexes relationships s.indexDrops false))
      | _ => some s.stopped
  | .droppingIndexes relationships [] failed =>
    some (if failed then s.stopped else s.enter settings (.preparingIndexes relationships))
  | .droppingIndexes relationships (code :: rest) failed =>
    (code :: rest)[choice]?.map fun chosen =>
      let left := (code :: rest).eraseIdx choice
      match s.constraints.drop s.tables chosen with
      | none => s.enter settings (.droppingIndexes relationships left true)
      | some constraints =>
        { s with constraints := constraints }.enter settings
          (.droppingIndexes relationships left failed)
  | .preparingIndexes relationships =>
    match settings.indexes with
    | none => some (s.enter settings (.indexing relationships []))
    | some indexes =>
      match prepareIndexes classes settings.name settings.contracts indexes with
      | some (.ok results) =>
        some ({ s with indexDrops := results.map PostgresIndexResult.dropIndexSql }.enter settings
          (.indexing relationships results))
      | _ => some s.stopped
  | .indexing relationships indexes => some (s.enter settings (.applyingIndexes relationships indexes))
  | .applyingIndexes relationships [] =>
    some (s.enter settings
      (.applyingRelationships relationships (relationships.flatMap Relationship.applySql)))
  | .applyingIndexes relationships (index :: rest) =>
    some (s.executed settings (.applyingIndexes relationships rest)
      (s.constraints.apply s.tables (.createIndex index)))
  | .applyingRelationships relationships [] => some (s.enter settings (.live relationships))
  | .applyingRelationships relationships (statement :: rest) =>
    some (s.executed settings (.applyingRelationships relationships rest)
      (s.constraints.apply s.tables statement))
  | .live _ => none

def step : StartEvent → Option RelationshipServer
  | .createTables tables => some { s with tables := s.tables ++ tables }
  | .start settings =>
    if s.process.isSome then none
    else some (s.enter settings (.droppingRelationships s.relationshipDrops))
  | .next choice => s.process.bind fun process => s.proceed classes process.1 choice process.2
  | .stop => some s.stopped

end RelationshipServer

/-! ### Every run -/

namespace RelationshipServer

/-- The relationships of the start are those whose dropping statements are saved. -/
structure Saved (drops : List DroppingSql) (settings : RelationshipSettings) (rs : List Relationship) :
    Prop where
  given : settings.relationships.isSome → drops = rs.flatMap Relationship.dropSql
  absent : settings.relationships = none → rs = []

def IndexesSaved (s : RelationshipServer) (indexes : List PostgresIndexResult) : Prop :=
  ∀ index ∈ indexes, index.dropIndexSql ∈ s.indexDrops

/-- What a phase can rely on. -/
def OnWay (s : RelationshipServer) (settings : RelationshipSettings) : StartPhase → Prop
  | .droppingRelationships rest => s.constraints.Covered (rest ++ s.indexDrops)
  | .creatingRelationships => s.constraints.Covered s.indexDrops
  | .droppingIndexes rs rest failed =>
    Saved s.relationshipDrops settings rs ∧ (failed = false → s.constraints.Covered rest)
  | .preparingIndexes rs => Saved s.relationshipDrops settings rs ∧ s.constraints = .none
  | .indexing rs indexes =>
    Saved s.relationshipDrops settings rs ∧ s.IndexesSaved indexes ∧ s.constraints = .none
  | .applyingIndexes rs rest =>
    Saved s.relationshipDrops settings rs ∧ s.IndexesSaved rest ∧ Applied s.tables [] s.constraints
  | .applyingRelationships rs rest =>
    Saved s.relationshipDrops settings rs ∧ ∃ done, rs.flatMap Relationship.applySql = done ++ rest ∧
      Applied s.tables done s.constraints
  | .live rs =>
    Saved s.relationshipDrops settings rs ∧ Applied s.tables (rs.flatMap Relationship.applySql) s.constraints

/-- Every constraint and index is one that the saved statements take away, and a process can rely on its
phase. -/
structure Safe (s : RelationshipServer) : Prop where
  covered : s.constraints.Covered (s.relationshipDrops ++ s.indexDrops)
  onWay : ∀ settings phase, s.process = some (settings, phase) → s.OnWay settings phase

variable {s s' : RelationshipServer} {settings : RelationshipSettings}

theorem initial_safe (tables : List TableName) : (initial tables).Safe :=
  ⟨Constraints.none_covered _, fun _ _ h => by cases h⟩

theorem Safe.stopped (h : s.Safe) : s.stopped.Safe := ⟨h.covered, fun _ _ hEq => by cases hEq⟩

theorem safe_enter {phase : StartPhase}
    (hCovered : s.constraints.Covered (s.relationshipDrops ++ s.indexDrops))
    (hOnWay : s.OnWay settings phase) : (s.enter settings phase).Safe := by
  refine ⟨hCovered, fun settings' phase' hEq => ?_⟩
  cases hEq
  cases phase <;> exact hOnWay

/-- A statement that is executed keeps what it keeps when it succeeds. -/
theorem Safe.executed {phase : StartPhase} {result : Option Constraints} (h : s.Safe)
    (hSuccess : ∀ c, result = some c → c.Covered (s.relationshipDrops ++ s.indexDrops) ∧
      OnWay { s with constraints := c } settings phase) : (s.executed settings phase result).Safe := by
  cases result with
  | none => exact h.stopped
  | some c =>
    obtain ⟨hCovered, hOnWay⟩ := hSuccess c rfl
    exact safe_enter hCovered hOnWay

theorem Saved.drops_subset {rs : List Relationship} (h : Saved s.relationshipDrops settings rs)
    {r : Relationship} (hr : r ∈ rs) :
    r.dropSql ⊆ s.relationshipDrops ++ s.indexDrops := by
  cases hGiven : settings.relationships with
  | none =>
    rw [h.absent hGiven] at hr
    cases hr
  | some foreignKeys =>
    rw [h.given (by rw [hGiven]; rfl)]
    exact fun code hCode => List.mem_append_left _ (List.mem_flatMap.mpr ⟨r, hr, hCode⟩)

theorem drops_of_mem_applySql {rs : List Relationship} {statement : ApplyingSql}
    (h : statement ∈ rs.flatMap Relationship.applySql) : ∃ r ∈ rs, statement.drops = r.dropSql := by
  obtain ⟨r, hr, hMem⟩ := List.mem_flatMap.mp h
  simp only [Relationship.applySql, List.mem_cons, List.not_mem_nil, or_false] at hMem
  obtain rfl | rfl | rfl := hMem <;> exact ⟨r, hr, rfl⟩

variable {classes : UnicodeClasses} {choice : Nat}

theorem creating_safe (h : s.Safe) (hWay : s.constraints.Covered s.indexDrops)
    (hNext : s.proceed classes settings choice .creatingRelationships = some s') : s'.Safe := by
  rw [proceed] at hNext
  split at hNext
  · rename_i hNone
    cases hNext
    refine safe_enter h.covered ⟨⟨fun hSome => ?_, fun _ => rfl⟩, fun _ => hWay⟩
    rw [hNone] at hSome
    cases hSome
  · rename_i foreignKeys hSome
    split at hNext
    · cases hNext
      refine safe_enter (hWay.mono (List.subset_append_right _ _))
        ⟨⟨fun _ => rfl, fun hNone => ?_⟩, fun _ => hWay⟩
      rw [hSome] at hNone
      cases hNone
    · cases hNext
      exact h.stopped

theorem droppingIndexes_safe (h : s.Safe) {rs : List Relationship} {rest : List DroppingSql} {failed : Bool}
    (hWay : s.OnWay settings (.droppingIndexes rs rest failed))
    (hNext : s.proceed classes settings choice (.droppingIndexes rs rest failed) = some s') :
    s'.Safe := by
  obtain ⟨hSaved, hCovered⟩ := hWay
  cases rest with
  | nil =>
    cases hNext
    cases failed with
    | true => exact h.stopped
    | false => exact safe_enter h.covered ⟨hSaved, (hCovered rfl).eq_none⟩
  | cons code rest =>
    obtain ⟨chosen, hChosen, hTaken⟩ := Option.map_eq_some_iff.mp hNext
    dsimp only at hTaken
    split at hTaken
    · subst hTaken
      exact safe_enter h.covered ⟨hSaved, fun hFalse => by cases hFalse⟩
    · rename_i c hDrop
      subst hTaken
      refine safe_enter (h.covered.drop hDrop fun x hx => .inr hx)
        ⟨hSaved, fun hFailed => ?_⟩
      refine (hCovered hFailed).drop hDrop fun x hx => ?_
      by_cases hEq : x = chosen
      · exact .inl hEq
      · refine .inr (List.mem_eraseIdx_iff_getElem?.mpr ?_)
        obtain ⟨i, hi⟩ := List.mem_iff_getElem?.mp hx
        refine ⟨i, fun hSame => hEq ?_, hi⟩
        rw [hSame] at hi
        exact Option.some.inj (hi.symm.trans hChosen)

theorem preparing_safe (h : s.Safe) {rs : List Relationship}
    (hWay : s.OnWay settings (.preparingIndexes rs))
    (hNext : s.proceed classes settings choice (.preparingIndexes rs) = some s') : s'.Safe := by
  obtain ⟨hSaved, hNone⟩ := hWay
  rw [proceed] at hNext
  split at hNext
  · cases hNext
    exact safe_enter h.covered ⟨hSaved, fun _ hMem => absurd hMem List.not_mem_nil, hNone⟩
  · split at hNext
    · cases hNext
      refine safe_enter (hNone ▸ Constraints.none_covered _)
        ⟨hSaved, fun index hMem => ?_, hNone⟩
      exact List.mem_map.mpr ⟨index, hMem, rfl⟩
    · cases hNext
      exact h.stopped

theorem applying_safe (h : s.Safe) {rs : List Relationship} {statement : ApplyingSql}
    {rest : List ApplyingSql}
    (hWay : s.OnWay settings (.applyingRelationships rs (statement :: rest))) :
    (s.executed settings (.applyingRelationships rs rest)
      (s.constraints.apply s.tables statement)).Safe := by
  obtain ⟨hSaved, done, hDone, hApplied⟩ := hWay
  have hMem : statement ∈ rs.flatMap Relationship.applySql := by
    rw [hDone]
    exact List.mem_append_right _ (List.mem_cons_self ..)
  apply h.executed
  intro c hApply
  obtain ⟨r, hr, hDrops⟩ := drops_of_mem_applySql hMem
  refine ⟨h.covered.apply hApply (hDrops ▸ hSaved.drops_subset hr),
    ⟨hSaved, done ++ [statement], ?_, ?_⟩⟩
  · rw [hDone, List.append_assoc]
    rfl
  · obtain ⟨r', -, hStatement⟩ := List.mem_flatMap.mp hMem
    simp only [Relationship.applySql, List.mem_cons, List.not_mem_nil, or_false] at hStatement
    obtain rfl | rfl | rfl := hStatement
    · exact hApplied.unique hApply
    · exact hApplied.foreignKey hApply
    · exact hApplied.index hApply

theorem applyingIndexes_safe (h : s.Safe) {rs : List Relationship} {index : PostgresIndexResult}
    {rest : List PostgresIndexResult} (hWay : s.OnWay settings (.applyingIndexes rs (index :: rest))) :
    (s.executed settings (.applyingIndexes rs rest)
      (s.constraints.apply s.tables (.createIndex index))).Safe := by
  obtain ⟨hSaved, hIndexes, hApplied⟩ := hWay
  obtain ⟨hIndex, hRest⟩ := List.forall_mem_cons.mp hIndexes
  apply h.executed
  intro c hApply
  refine ⟨h.covered.apply hApply ?_, hSaved, hRest, ?_⟩
  · exact List.cons_subset.mpr ⟨List.mem_append_right _ hIndex, List.nil_subset _⟩
  · rcases Constraints.apply_some hApply with rfl | ⟨_, hEq, -⟩ | ⟨_, hEq, -⟩ | ⟨_, hEq, -⟩ |
      ⟨_, -, rfl⟩
    · exact hApplied
    · cases hEq
    · cases hEq
    · cases hEq
    · exact ⟨hApplied.foreignKeys, hApplied.uniques, hApplied.nodup, hApplied.tables⟩

theorem proceed_safe (h : s.Safe) {phase : StartPhase} (hPhase : s.process = some (settings, phase))
    (hNext : s.proceed classes settings choice phase = some s') : s'.Safe := by
  have hWay := h.onWay settings phase hPhase
  cases phase with
  | droppingRelationships rest =>
    cases rest with
    | nil =>
      cases hNext
      exact safe_enter h.covered hWay
    | cons code rest =>
      cases hNext
      apply h.executed
      intro c hDrop
      refine ⟨h.covered.drop hDrop fun x hx => .inr hx, ?_⟩
      refine Constraints.Covered.drop hWay hDrop fun x hx => ?_
      rwa [List.cons_append, List.mem_cons] at hx
  | creatingRelationships => exact creating_safe h hWay hNext
  | droppingIndexes rs rest failed => exact droppingIndexes_safe h hWay hNext
  | preparingIndexes rs => exact preparing_safe h hWay hNext
  | indexing rs indexes =>
    obtain ⟨hSaved, hIndexes, hNone⟩ := hWay
    cases hNext
    exact safe_enter h.covered ⟨hSaved, hIndexes, .start (hNone ▸ rfl) (hNone ▸ rfl)⟩
  | applyingIndexes rs rest =>
    cases rest with
    | nil =>
      cases hNext
      obtain ⟨hSaved, -, hApplied⟩ := hWay
      exact safe_enter h.covered ⟨hSaved, [], rfl, hApplied⟩
    | cons index rest =>
      cases hNext
      exact applyingIndexes_safe h hWay
  | applyingRelationships rs rest =>
    cases rest with
    | nil =>
      cases hNext
      obtain ⟨hSaved, done, hDone, hApplied⟩ := hWay
      rw [List.append_nil] at hDone
      exact safe_enter h.covered ⟨hSaved, hDone ▸ hApplied⟩
    | cons statement rest =>
      cases hNext
      exact applying_safe h hWay
  | live rs => cases hNext

/-- A phase can rely on the same when there are more tables. -/
theorem OnWay.more_tables {phase : StartPhase} (h : s.OnWay settings phase) (tables : List TableName) :
    OnWay { s with tables := s.tables ++ tables } settings phase := by
  have hSubset : s.tables ⊆ s.tables ++ tables := List.subset_append_left _ _
  cases phase with
  | droppingRelationships rest => exact h
  | creatingRelationships => exact h
  | droppingIndexes rs rest failed => exact ⟨h.1, h.2⟩
  | preparingIndexes rs => exact ⟨h.1, h.2⟩
  | indexing rs indexes => exact ⟨h.1, h.2⟩
  | applyingIndexes rs rest => exact ⟨h.1, h.2.1, h.2.2.mono hSubset⟩
  | applyingRelationships rs rest =>
    obtain ⟨hSaved, done, hDone, hApplied⟩ := h
    exact ⟨hSaved, done, hDone, hApplied.mono hSubset⟩
  | live rs => exact ⟨h.1, h.2.mono hSubset⟩

theorem step_safe {event : StartEvent} (h : s.Safe) (hStep : s.step classes event = some s') :
    s'.Safe := by
  cases event with
  | createTables tables =>
    cases hStep
    exact ⟨h.covered, fun settings phase hPhase => (h.onWay settings phase hPhase).more_tables tables⟩
  | start settings =>
    rw [step] at hStep
    split at hStep
    · cases hStep
    · cases hStep
      exact safe_enter h.covered h.covered
  | next choice =>
    obtain ⟨process, hProcess, hNext⟩ := Option.bind_eq_some_iff.mp hStep
    exact proceed_safe h hProcess hNext
  | stop =>
    cases hStep
    exact h.stopped

theorem always_safe (tables : List TableName) (events : List StartEvent) :
    Always (step classes) Safe (initial tables) events :=
  always_of_kept (fun _ _ _ h hStep => step_safe h hStep) (initial_safe tables)

theorem foreignKeys_of_applySql (rs : List Relationship) :
    (rs.flatMap Relationship.applySql).filterMap ApplyingSql.foreignKey? =
      rs.map Relationship.foreignKeyConstraint := by
  induction rs with
  | nil => rfl
  | cons r rs ih =>
    rw [List.flatMap_cons, List.filterMap_append, ih]
    rfl

theorem uniques_of_applySql (rs : List Relationship) :
    (rs.flatMap Relationship.applySql).filterMap ApplyingSql.unique? =
      rs.map Relationship.uniqueConstraint := by
  induction rs with
  | nil => rfl
  | cons r rs ih =>
    rw [List.flatMap_cons, List.filterMap_append, ih]
    rfl

theorem holds_of_applied {tables : List TableName} {rs : List Relationship} {c : Constraints}
    (h : Applied tables (rs.flatMap Relationship.applySql) c) : Holds tables rs c where
  foreignKeys := h.foreignKeys.trans (foreignKeys_of_applySql rs)
  uniques u := by rw [h.uniques, uniques_of_applySql]
  nodup := h.nodup
  tables r hr := by
    have hMem : .foreignKey r ∈ rs.flatMap Relationship.applySql :=
      List.mem_flatMap.mpr ⟨r, hr, .tail _ (.head _)⟩
    have hTables := h.tables _ hMem
    exact ⟨hTables (.head _), hTables (.tail _ (.head _))⟩

/-- A start gets past its first phase exactly if all statements succeed. -/
theorem run_dropping {rest : List DroppingSql}
    (hPhase : s.process = some (settings, .droppingRelationships rest)) :
    Lib.run (step classes) s (List.replicate (rest.length + 1) (.next choice)) =
      (s.constraints.dropAll s.tables rest).map fun c =>
        { s with constraints := c }.enter settings .creatingRelationships := by
  induction rest generalizing s with
  | nil =>
    rw [List.length_nil, List.replicate_succ, List.replicate_zero, Lib.run, step, hPhase]
    rfl
  | cons code rest ih =>
    rw [List.length_cons, List.replicate_succ, Lib.run, step, hPhase, Option.bind_some, proceed,
      Option.bind_some, Constraints.dropAll]
    cases hDrop : s.constraints.drop s.tables code with
    | none =>
      rw [List.replicate_succ]
      rfl
    | some c => exact ih rfl

/-- A manifest whose events `A` and `B` both refer to the column of `C`. -/
def twoReferences : RelationshipSettings where
  name := ['m']
  contracts := [⟨['t'], [], [⟨[.mk ['o'] ['a'] none none], ['A'], "event".toList⟩,
    ⟨[.mk ['o'] ['a'] none none], ['B'], "event".toList⟩,
    ⟨[.mk ['o'] ['a'] none none], ['C'], "event".toList⟩], none, none⟩]
  relationships := some [⟨['t'], ['A'], ['o'], [⟨['t'], ['C'], ['o']⟩]⟩,
    ⟨['t'], ['B'], ['o'], [⟨['t'], ['C'], ['o']⟩]⟩]
  indexes := none

def referenceTables : List TableName :=
  [⟨['m', '_', 't'], ['a']⟩, ⟨['m', '_', 't'], ['b']⟩, ⟨['m', '_', 't'], ['c']⟩]

def firstStart : List StartEvent := .start twoReferences :: List.replicate 13 (.next 0)

def references : List Relationship :=
  [⟨['t'], ['A'], ⟨['m', '_', 't'], ['a']⟩, ['o'], ⟨['t'], ['C'], ⟨['m', '_', 't'], ['c']⟩, ['o']⟩⟩,
    ⟨['t'], ['B'], ⟨['m', '_', 't'], ['b']⟩, ['o'], ⟨['t'], ['C'], ⟨['m', '_', 't'], ['c']⟩, ['o']⟩⟩]

/-- The server after the first start. -/
def liveServer : RelationshipServer :=
  (Lib.run (step asciiClasses) (initial referenceTables) firstStart).getD (initial [])

theorem run_firstStart :
    Lib.run (step asciiClasses) (initial referenceTables) firstStart = some liveServer :=
  rfl

theorem liveServer_process : liveServer.process = some (twoReferences, .live references) := rfl

end RelationshipServer

end Rindexer.Database
