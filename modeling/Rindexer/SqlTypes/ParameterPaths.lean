import Rindexer.SqlTypes.Leaves

/-! The parameters that relationships and indexes name by their paths, and the columns they are taken
for.  The walk ends at the first name that is the last one of the path. -/

namespace Rindexer.SqlTypes

open Rindexer.Database
open Rindexer.Lib
open Rindexer.Manifest (ABIInput ABIItem)

structure GetAbiItemWithDbMap where
  abiItem : ABIInput
  dbColumnName : List Char

inductive GetAbiItemWithDbMapError
  | parameterNotFound (text : List Char)
deriving DecidableEq, Repr

/-- A name of a column goes on with the name of the next entry. -/
def pushName (dbColumnName name : List Char) : List Char :=
  (if dbColumnName = [] then dbColumnName else dbColumnName ++ ['_']) ++ name

section Walk

variable (classes : UnicodeClasses) (eventName : List Char) (parameterMapping : List (List Char))

/-- The loop over the names that are left; `none` stands for a panic. -/
def mapParameters : List (List Char) → List ABIInput → List Char →
    Option (Except GetAbiItemWithDbMapError GetAbiItemWithDbMap)
  | [], _, _ => some (.error (.parameterNotFound ("Parameter ".toList ++
      joinWith '.' parameterMapping ++ " not found in event ".toList ++ eventName ++
      " of contract".toList)))
  | param :: params, currentInputs, dbColumnName =>
    match currentInputs.find? (·.name = param) with
    | none => some (.error (.parameterNotFound ("Parameter ".toList ++ param ++
        " not found in event ".toList ++ eventName ++ " of contract".toList)))
    | some input =>
      (camelToSnake classes input.name).bind fun name =>
        if some param = parameterMapping.getLast? then
          some (.ok ⟨input, pushName dbColumnName name⟩)
        else
          match if input.type = "tuple".toList then input.components else none with
          | none => some (.error (.parameterNotFound ("Parameter ".toList ++ param ++
              " is not a nested structure in event ".toList ++ eventName ++ " of contract".toList)))
          | some components => mapParameters params components (pushName dbColumnName name)

def getAbiItemWithDbMap (abiItems : List ABIItem) :
    Option (Except GetAbiItemWithDbMapError GetAbiItemWithDbMap) :=
  match abiItems.find? fun item => item.name = eventName ∧ item.type = "event".toList with
  | none => some (.error (.parameterNotFound
      ("Event ".toList ++ eventName ++ " not found in contract ABI".toList)))
  | some item => mapParameters classes eventName parameterMapping parameterMapping item.inputs []

end Walk

/-! ### Paths -/

namespace Leaf

/-- The names that lead to a leaf. -/
def parameterPath (leaf : Leaf) : List (List Char) := leaf.path ++ [leaf.input.name]

end Leaf

/-- The names lead to an entry, if of the entries of one name the first one counts. -/
inductive FirstLeads : List ABIInput → List (List Char) → ABIInput → Prop
  | last {inputs : List ABIInput} {name : List Char} {leaf : ABIInput}
      (hFirst : inputs.find? (·.name = name) = some leaf) : FirstLeads inputs [name] leaf
  | through {inputs components : List ABIInput} {name : List Char} {input leaf : ABIInput}
      {path : List (List Char)} (hFirst : inputs.find? (·.name = name) = some input)
      (hTuple : input.type = "tuple".toList) (hComponents : input.components = some components)
      (hRest : FirstLeads components path leaf) : FirstLeads inputs (name :: path) leaf

theorem name_of_find {inputs : List ABIInput} {name : List Char} {input : ABIInput}
    (h : inputs.find? (·.name = name) = some input) : input.name = name := by
  simpa using List.find?_some h

/-! ### Names of columns -/

theorem mapM_append_eq_some {α β : Type} {f : α → Option β} {l l' : List α} {names : List β} :
    (l ++ l').mapM f = some names ↔
      ∃ front back, l.mapM f = some front ∧ l'.mapM f = some back ∧ names = front ++ back := by
  rw [List.mapM_append]
  cases l.mapM f with
  | none => simp
  | some front =>
    cases l'.mapM f with
    | none => simp
    | some back => simp [eq_comm]

theorem ne_nil_of_mapM {α β : Type} {f : α → Option β} {l : List α} {names : List β}
    (h : l.mapM f = some names) (hNonempty : l ≠ []) : names ≠ [] := by
  rintro rfl
  obtain ⟨a, l, rfl⟩ := List.exists_cons_of_ne_nil hNonempty
  rw [List.mapM_cons] at h
  obtain ⟨b, -, hMore⟩ := Option.bind_eq_some_iff.mp h
  obtain ⟨bs, -, hBoth⟩ := Option.bind_eq_some_iff.mp hMore
  cases hBoth

theorem columnName_eq (classes : UnicodeClasses) (path : List (List Char)) (name : List Char) :
    columnName classes path name =
      ((path ++ [name]).mapM (camelToSnake classes)).map (joinWith '_') := by
  rw [columnName, List.mapM_append]
  cases hPath : path.mapM (camelToSnake classes) with
  | none => rfl
  | some names =>
    cases hName : camelToSnake classes name with
    | none => simp [hName]
    | some last =>
      simp only [Option.bind_some, Option.map_some, List.mapM_cons, List.mapM_nil, hName,
        Option.pure_def, Option.bind_eq_bind]
      by_cases hEmpty : path = []
      · subst hEmpty
        cases hPath
        simp
      · rw [if_neg hEmpty, joinWith_append '_' (ne_nil_of_mapM hPath hEmpty) (by simp),
          joinWith_singleton]

theorem foldl_pushName {column : List Char} (h : column ≠ []) (names : List (List Char)) :
    names.foldl pushName column = joinWith '_' (column :: names) := by
  induction names generalizing column with
  | nil => rfl
  | cons name names ih =>
    have hPush : pushName column name = column ++ '_' :: name := by simp [pushName, h]
    rw [List.foldl_cons, hPush, ih (by simp)]
    cases names with
    | nil => rfl
    | cons next names => simp [joinWith]

/-- Without a first name, an underscore is missing. -/
theorem length_foldl_pushName (names : List (List Char)) :
    (names.foldl pushName []).length ≤ (joinWith '_' names).length := by
  induction names with
  | nil => exact Nat.le_refl _
  | cons name names ih =>
    rw [List.foldl_cons, show pushName [] name = name from rfl]
    by_cases hName : name = []
    · subst hName
      cases names with
      | nil => exact ih
      | cons next names =>
        rw [joinWith_cons _ _ (List.cons_ne_nil _ _), List.nil_append, List.length_cons]
        exact Nat.le_succ_of_le ih
    · rw [foldl_pushName hName]

theorem foldl_pushName_eq_iff (names : List (List Char)) (last : List Char) :
    (names ++ [last]).foldl pushName [] = joinWith '_' (names ++ [last]) ↔ names.head? ≠ some [] := by
  cases names with
  | nil => simp [pushName]
  | cons name names =>
    rw [List.cons_append, List.foldl_cons, show pushName [] name = name from rfl]
    by_cases hName : name = []
    · subst hName
      have hLength := length_foldl_pushName (names ++ [last])
      rw [joinWith_cons _ _ (by simp), List.nil_append]
      simp only [List.head?_cons, ne_eq, not_true_eq_false, iff_false]
      intro hSame
      rw [hSame, List.length_cons] at hLength
      omega
    · rw [foldl_pushName hName]
      simpa using hName

theorem joinWith_longer (names : List (List Char)) {rest : List (List Char)} (h : names ≠ [])
    (hRest : rest ≠ []) :
    (joinWith '_' names).length < (joinWith '_' (names ++ rest)).length := by
  rw [joinWith_append '_' h hRest, List.length_append, List.length_cons]
  omega

/-! ### The walk -/

section Walk

variable {classes : UnicodeClasses} {eventName last : List Char} {mapping : List (List Char)}

theorem mapParameters_last (hLast : mapping.getLast? = some last) {params : List (List Char)}
    {inputs : List ABIInput} {column : List Char} {r : GetAbiItemWithDbMap} :
    mapParameters classes eventName mapping (last :: params) inputs column = some (.ok r) ↔
      inputs.find? (·.name = last) = some r.abiItem ∧ ∃ name, camelToSnake classes last = some name ∧
        r.dbColumnName = pushName column name := by
  rw [mapParameters]
  cases hFind : inputs.find? (·.name = last) with
  | none => simp
  | some input =>
    simp only [name_of_find hFind, hLast, if_true]
    cases hName : camelToSnake classes last with
    | none => simp
    | some name =>
      cases r
      simp [eq_comm]

theorem mapParameters_through (hLast : mapping.getLast? = some last) {param : List Char}
    (hParam : param ≠ last) {params : List (List Char)} {inputs : List ABIInput} {column : List Char}
    {r : GetAbiItemWithDbMap} :
    mapParameters classes eventName mapping (param :: params) inputs column = some (.ok r) ↔
      ∃ input components name, inputs.find? (·.name = param) = some input ∧
        input.type = "tuple".toList ∧ input.components = some components ∧
        camelToSnake classes param = some name ∧
        mapParameters classes eventName mapping params components (pushName column name) =
          some (.ok r) := by
  have hOther : ¬ some param = mapping.getLast? := by
    rw [hLast, Option.some.injEq]
    exact hParam
  rw [mapParameters]
  cases hFind : inputs.find? (·.name = param) with
  | none => simp
  | some input =>
    simp only [name_of_find hFind]
    cases hName : camelToSnake classes param with
    | none => simp
    | some name =>
      simp only [Option.bind_some, if_neg hOther]
      by_cases hTuple : input.type = "tuple".toList
      · rw [if_pos hTuple]
        cases hComponents : input.components with
        | none => simp [hComponents]
        | some components => simp [hTuple, hComponents]
      · rw [if_neg hTuple]
        constructor
        · intro h
          cases h
        · rintro ⟨input', components, name', hSame, hTuple', -⟩
          cases hSame
          exact absurd hTuple' hTuple

/-- A name that the path has once ends the walk at its entry.  The induction is on the tuples around
it. -/
theorem mapParameters_iff (hLast : mapping.getLast? = some last) {front : List (List Char)}
    (hOnce : last ∉ front) {inputs : List ABIInput} {column : List Char} {r : GetAbiItemWithDbMap} :
    mapParameters classes eventName mapping (front ++ [last]) inputs column = some (.ok r) ↔
      FirstLeads inputs (front ++ [last]) r.abiItem ∧
        ∃ names, (front ++ [last]).mapM (camelToSnake classes) = some names ∧
          r.dbColumnName = names.foldl pushName column := by
  induction front generalizing inputs column with
  | nil =>
    rw [List.nil_append, mapParameters_last hLast]
    constructor
    · rintro ⟨hFind, name, hName, hColumn⟩
      exact ⟨.last hFind, [name], by simp [hName], hColumn⟩
    · rintro ⟨hLeads, names, hNames, hColumn⟩
      cases hLeads with
      | last hFind =>
        cases hName : camelToSnake classes last with
        | none => simp [hName] at hNames
        | some name =>
          simp only [List.mapM_cons, hName, List.mapM_nil, Option.pure_def, Option.bind_eq_bind,
            Option.bind_some, Option.some.injEq] at hNames
          subst hNames
          exact ⟨hFind, name, rfl, hColumn⟩
      | through hFind hTuple hComponents hRest => cases hRest
  | cons param front ih =>
    obtain ⟨hParam, hRest⟩ := not_or.mp (List.mem_cons.not.mp hOnce)
    rw [List.cons_append, mapParameters_through hLast (Ne.symm hParam)]
    constructor
    · rintro ⟨input, components, name, hFind, hTuple, hComponents, hName, hWalk⟩
      obtain ⟨hLeads, names, hNames, hColumn⟩ := (ih hRest).mp hWalk
      exact ⟨.through hFind hTuple hComponents hLeads, name :: names, by
        rw [List.mapM_cons, hName, hNames]; rfl, hColumn⟩
    · rintro ⟨hLeads, names, hNames, hColumn⟩
      generalize hPath : front ++ [last] = path at hLeads
      cases hLeads with
      | last hFind => simp at hPath
      | @through _ components _ input _ _ hFind hTuple hComponents hLeads =>
        subst hPath
        rw [List.mapM_cons] at hNames
        obtain ⟨name, hName, hMore⟩ := Option.bind_eq_some_iff.mp hNames
        obtain ⟨names', hNames', hBoth⟩ := Option.bind_eq_some_iff.mp hMore
        cases hBoth
        exact ⟨input, components, name, hFind, hTuple, hComponents, hName,
          (ih hRest).mpr ⟨hLeads, names', hNames', hColumn⟩⟩

/-- A name that the path had before ends the walk too early. -/
theorem mapParameters_early (hLast : mapping.getLast? = some last) {front : List (List Char)}
    (hBefore : last ∈ front) {inputs : List ABIInput} {column : List Char} {r : GetAbiItemWithDbMap}
    (h : mapParameters classes eventName mapping (front ++ [last]) inputs column = some (.ok r)) :
    ∃ path rest names, front ++ [last] = path ++ rest ∧ path ≠ [] ∧ rest ≠ [] ∧
      path.mapM (camelToSnake classes) = some names ∧
      r.dbColumnName = names.foldl pushName column := by
  induction front generalizing inputs column with
  | nil => cases hBefore
  | cons param front ih =>
    rw [List.cons_append] at h ⊢
    by_cases hParam : param = last
    · subst hParam
      obtain ⟨-, name, hName, hColumn⟩ := (mapParameters_last hLast).mp h
      exact ⟨[param], front ++ [param], [name], rfl, by simp, by simp, by simp [hName], hColumn⟩
    · obtain ⟨input, components, name, -, -, -, hName, hWalk⟩ :=
        (mapParameters_through hLast hParam).mp h
      have hLater : last ∈ front := (List.mem_cons.mp hBefore).resolve_left (Ne.symm hParam)
      obtain ⟨path, rest, names, hPath, -, hRest, hNames, hColumn⟩ := ih hLater hWalk
      refine ⟨param :: path, rest, name :: names, by rw [hPath, List.cons_append], by simp, hRest, ?_,
        hColumn⟩
      rw [List.mapM_cons, hName, hNames]
      rfl

end Walk

/-! ### Columns of leaves -/

section Columns

variable {classes : UnicodeClasses} {abiItems : List ABIItem} {eventName : List Char}

/-- The path of a leaf leads to it and to its column. -/
def NamesColumn (classes : UnicodeClasses) (abiItems : List ABIItem) (eventName : List Char)
    (leaf : Leaf) (column : List Char) : Prop :=
  getAbiItemWithDbMap classes eventName leaf.parameterPath abiItems = some (.ok ⟨leaf.input, column⟩)

/-- The leaf's name is none of the tuples around it, the outermost tuple has letters or digits in its
name, and the first entries of these names are the tuples and the leaf. -/
structure NamedOnce (classes : UnicodeClasses) (inputs : List ABIInput) (leaf : Leaf) : Prop where
  once : leaf.input.name ∉ leaf.path
  outermost : ∀ name ∈ leaf.path.head?, camelToSnake classes name ≠ some []
  first : FirstLeads inputs leaf.parameterPath leaf.input

theorem column_of_mem_zip {leaves : List Leaf} {columns : List (List Char × List Char)}
    (h : leaves.mapM (Leaf.column classes) = some columns) {leaf : Leaf}
    {column : List Char × List Char} (hMem : (leaf, column) ∈ leaves.zip columns) :
    leaf.column classes = some column := by
  induction leaves generalizing columns with
  | nil => cases hMem
  | cons first leaves ih =>
    rw [List.mapM_cons] at h
    obtain ⟨c, hColumn, hMore⟩ := Option.bind_eq_some_iff.mp h
    obtain ⟨cs, hColumns, hBoth⟩ := Option.bind_eq_some_iff.mp hMore
    cases hBoth
    rcases List.mem_cons.mp hMem with hFirst | hRest
    · cases hFirst
      exact hColumn
    · exact ih hColumns hRest

/-- The name of the outermost tuple, in the column of a leaf. -/
theorem head?_snakes {path names : List (List Char)}
    (h : path.mapM (camelToSnake classes) = some names) :
    names.head? ≠ some [] ↔ ∀ name ∈ path.head?, camelToSnake classes name ≠ some [] := by
  cases path with
  | nil =>
    cases h
    simp
  | cons first path =>
    rw [List.mapM_cons] at h
    obtain ⟨name, hName, hMore⟩ := Option.bind_eq_some_iff.mp h
    obtain ⟨names', -, hBoth⟩ := Option.bind_eq_some_iff.mp hMore
    cases hBoth
    simp [hName]

theorem namesColumn_iff {item : ABIItem} {columns : List (List Char × List Char)} {leaf : Leaf}
    {column : List Char × List Char}
    (hEvent : abiItems.find? (fun item => item.name = eventName ∧ item.type = "event".toList) =
      some item)
    (hColumns : abiNamePropertiesOf classes [] item.inputs = some columns)
    (hLeaf : (leaf, column) ∈ (leavesFrom [] 0 item.inputs).zip columns) :
    NamesColumn classes abiItems eventName leaf column.1 ↔ NamedOnce classes item.inputs leaf := by
  rw [abiNamePropertiesOf_eq classes [] 0] at hColumns
  obtain ⟨name, hName, rfl⟩ := Option.map_eq_some_iff.mp (column_of_mem_zip hColumns hLeaf)
  rw [columnName_eq] at hName
  obtain ⟨names, hNames, rfl⟩ := Option.map_eq_some_iff.mp hName
  have hLast : leaf.parameterPath.getLast? = some leaf.input.name := by simp [Leaf.parameterPath]
  rw [NamesColumn, getAbiItemWithDbMap, hEvent]
  by_cases hOnce : leaf.input.name ∈ leaf.path
  · refine iff_of_false (fun h => ?_) fun h => h.once hOnce
    obtain ⟨path, rest, front, hPath, hNonempty, hRest, hFront, hColumn⟩ :=
      mapParameters_early hLast hOnce h
    rw [hPath] at hNames
    obtain ⟨front', back, hFront', hBack, rfl⟩ := mapM_append_eq_some.mp hNames
    obtain rfl : front = front' := Option.some.inj (hFront.symm.trans hFront')
    have hLonger := joinWith_longer front (ne_nil_of_mapM hFront hNonempty)
      (ne_nil_of_mapM hBack hRest)
    have hShort := length_foldl_pushName front
    simp only at hColumn
    rw [← hColumn] at hShort
    omega
  · obtain ⟨front, back, hFront, hBack, rfl⟩ := mapM_append_eq_some.mp hNames
    obtain ⟨last, rfl⟩ : ∃ last, back = [last] := by
      cases hName : camelToSnake classes leaf.input.name with
      | none => simp [hName] at hBack
      | some last =>
        simp only [List.mapM_cons, hName, List.mapM_nil, Option.pure_def, Option.bind_eq_bind,
          Option.bind_some, Option.some.injEq] at hBack
        exact ⟨last, hBack.symm⟩
    have hHead := (foldl_pushName_eq_iff front last).trans (head?_snakes hFront)
    refine (mapParameters_iff hLast hOnce).trans ⟨?_, fun h => ?_⟩
    · rintro ⟨hFirst, names, hSame, hColumn⟩
      obtain rfl := Option.some.inj (hSame.symm.trans hNames)
      exact ⟨hOnce, hHead.mp hColumn.symm, hFirst⟩
    · exact ⟨h.first, _, hNames, (hHead.mpr h.outermost).symm⟩

end Columns

/-- An event with an amount in a tuple. -/
def paidItem : ABIItem where
  inputs := [.mk "payer".toList "address".toList (some true) none,
    .mk "info".toList "tuple".toList (some false)
      (some [.mk "amountPaid".toList "uint256".toList none none])]
  name := "Paid".toList
  type := "event".toList

theorem namesColumn_paid :
    NamesColumn asciiClasses [paidItem] "Paid".toList
      ⟨["info".toList], .mk "amountPaid".toList "uint256".toList none none, [1, 0]⟩
      "info_amount_paid".toList :=
  (@namesColumn_iff _ _ _ paidItem _ _ ("info_amount_paid".toList, "uint256".toList) rfl rfl
    (.tail _ (.head _))).mpr ⟨by decide, by decide, .through rfl rfl rfl (.last rfl)⟩

/-- An event with a tuple, in which a parameter two levels deeper has its name. -/
def nestedItem : ABIItem where
  inputs := [.mk "a".toList "tuple".toList (some false)
    (some [.mk "b".toList "tuple".toList none
      (some [.mk "a".toList "uint256".toList none none])])]
  name := "Nested".toList
  type := "event".toList

/-- The path to the parameter names the tuple. -/
theorem repeated_name_not_column :
    abiNamePropertiesOf asciiClasses [] nestedItem.inputs =
        some [("a_b_a".toList, "uint256".toList)] ∧
      leavesFrom [] 0 nestedItem.inputs =
        [⟨["a".toList, "b".toList], .mk "a".toList "uint256".toList none none, [0, 0, 0]⟩] ∧
      ¬ NamesColumn asciiClasses [nestedItem] "Nested".toList
        ⟨["a".toList, "b".toList], .mk "a".toList "uint256".toList none none, [0, 0, 0]⟩
        "a_b_a".toList := by
  refine ⟨rfl, rfl, fun h => ?_⟩
  have hColumn := congrArg (Option.map fun r => r.toOption.map GetAbiItemWithDbMap.dbColumnName) h
  exact absurd hColumn (by decide)

end Rindexer.SqlTypes
