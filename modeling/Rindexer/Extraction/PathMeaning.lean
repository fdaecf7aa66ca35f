import Rindexer.Extraction.Iteration
import Rindexer.Extraction.Paths

/-! Field paths in columns and in conditions: the datum that each reads. -/

namespace Rindexer.Extraction

open Rindexer.Lib
open Rindexer.Filter hiding parseUsize
open Rindexer.Factory (Param)
open Rindexer.Manifest (IterateBinding)
open Rindexer.Tables (parseUsize)

/-! ### The datum at a path -/

/-- The number that a key is. -/
def position (k : List Char) : Option Nat :=
  if k ≠ [] ∧ k.all Char.isDigit then some (Nat.ofDigitChars 10 k 0) else none

/-- A key is a position in a tuple, or the name of one of its components; an index is for arrays. -/
def datumStep (current : Located) : Accessor → Option Located
  | .index i => indexValue current i.val
  | .key k =>
    match position k with
    | some idx => (tupleItem current.1 idx).map fun value =>
        (value, (current.2[idx]?.map Param.components).getD [])
    | none => (findComponent k current.2).bind fun c =>
        (tupleItem current.1 c.2).map fun value => (value, c.1.components)

def datumAt (current : Located) (accessors : List Accessor) : Option Located :=
  accessors.foldlM datumStep current

/-- No component has a number for its name. -/
inductive NamedComponents : Param → Prop
  | mk (name : List Char) (components : List Param) (hName : position name = none)
    (h : ∀ c ∈ components, NamedComponents c) : NamedComponents (.mk name components)

def WellNamed (components : List Param) : Prop := ∀ c ∈ components, NamedComponents c

theorem WellNamed.components {components : List Param} {c : Param} (h : WellNamed components)
    (hMem : c ∈ components) : WellNamed c.components := by
  cases h c hMem with
  | mk name inner hName hInner => exact hInner

theorem wellNamed_nil : WellNamed [] := fun c hc => by cases hc

theorem findComponent_mem {name : List Char} {components : List Param} {c : Param × Nat}
    (h : findComponent name components = some c) : c.1 ∈ components ∧ c.1.name = name := by
  refine ⟨?_, by simpa using List.find?_some h⟩
  exact (List.mem_zipIdx (List.mem_of_find?_eq_some h)).2.2 ▸ List.getElem_mem _

theorem findComponent_position {k : List Char} {components : List Param} (h : WellNamed components)
    {n : Nat} (hk : position k = some n) : findComponent k components = none := by
  cases hFind : findComponent k components with
  | none => rfl
  | some c =>
    obtain ⟨hMem, rfl⟩ := findComponent_mem hFind
    cases hc : c.1 with
    | mk name inner =>
      have hNamed := h c.1 hMem
      rw [hc] at hNamed hk
      cases hNamed with
      | mk _ _ hName _ =>
        rw [show position (Param.mk name inner).name = position name from rfl, hName] at hk
        cases hk

theorem datumStep_wellNamed {current next : Located} {a : Accessor} (h : WellNamed current.2)
    (hStep : datumStep current a = some next) : WellNamed next.2 := by
  cases a with
  | index i =>
    rw [datumStep, indexValue] at hStep
    split at hStep
    · obtain ⟨value, -, rfl⟩ := Option.map_eq_some_iff.mp hStep
      exact h
    · obtain ⟨value, -, rfl⟩ := Option.map_eq_some_iff.mp hStep
      exact h
    · cases hStep
  | key k =>
    rw [datumStep] at hStep
    split at hStep
    · next idx hk =>
      obtain ⟨value, -, rfl⟩ := Option.map_eq_some_iff.mp hStep
      cases hc : current.2[idx]? with
      | none => exact wellNamed_nil
      | some c => exact h.components (List.mem_of_getElem? hc)
    · obtain ⟨c, hc, hItem⟩ := Option.bind_eq_some_iff.mp hStep
      obtain ⟨value, -, rfl⟩ := Option.map_eq_some_iff.mp hItem
      exact h.components (findComponent_mem hc).1

/-! ### Columns -/

/-- Names stand in front of the first index, and the positions behind it fit 64 bits. -/
structure ColumnReadable (accessors : List Accessor) : Prop where
  leading : ∀ k ∈ leadingKeys accessors, position k = none
  fits : ∀ k n, Accessor.key k ∈ accessors → position k = some n → n < 2 ^ 64

theorem parseUsize_name {k : List Char} (h : IsName k) :
    parseUsize k = (position k).filter (· < 2 ^ 64) := by
  have hHead : k.head? ≠ some '+' := by
    intro hPlus
    have hMem := List.mem_of_mem_head? hPlus
    rcases h with ⟨d, ds, rfl, hStart, -⟩ | ⟨-, hDigits⟩
    · cases hPlus
      exact absurd hStart (by decide)
    · exact absurd (hDigits _ hMem) (by decide)
  simp only [parseUsize, if_neg hHead, position]
  by_cases hDigits : k ≠ [] ∧ k.all Char.isDigit
  · rw [if_pos hDigits]
    by_cases hFits : Nat.ofDigitChars 10 k 0 < 2 ^ 64
    · rw [if_pos ⟨hDigits.1, hDigits.2, hFits⟩, Option.filter, if_pos (by simpa using hFits)]
    · rw [if_neg fun h => hFits h.2.2, Option.filter, if_neg (by simpa using hFits)]
  · rw [if_neg hDigits, if_neg fun h => hDigits ⟨h.1, h.2.1⟩]
    rfl

/-- Where the positions fit, columns read a key as a datum has it. -/
theorem accessorStep_eq {current : Located} {a : Accessor} (hName : ∀ k, a = .key k → IsName k)
    (hFits : ∀ k n, a = .key k → position k = some n → n < 2 ^ 64) :
    accessorStep current a = datumStep current a := by
  cases a with
  | index i => rfl
  | key k =>
    rw [accessorStep, nameValue, datumStep, parseUsize_name (hName k rfl)]
    cases hk : position k with
    | none =>
      simp only [Option.filter_none]
      cases findComponent k current.2 with
      | none => rfl
      | some c => cases hItem : tupleItem current.1 c.2 <;> simp [hItem]
    | some n =>
      rw [Option.filter_some, if_pos (by simpa using hFits k n rfl hk)]
      cases hItem : tupleItem current.1 n <;> simp [hItem]

theorem accessorStep_too_large {current : Located} {k : List Char} {n : Nat} (hName : IsName k)
    (h : WellNamed current.2) (hk : position k = some n) (hLarge : ¬ n < 2 ^ 64) :
    accessorStep current (.key k) = none := by
  rw [accessorStep, nameValue, parseUsize_name hName, hk, Option.filter_some,
    if_neg (by simpa using hLarge), findComponent_position h hk]
  rfl

theorem foldlM_accessorStep {accessors : List Accessor} {current : Located}
    (hKeys : ∀ k, Accessor.key k ∈ accessors → IsName k) (h : WellNamed current.2) {x : Located} :
    accessors.foldlM accessorStep current = some x ↔
      (∀ k n, Accessor.key k ∈ accessors → position k = some n → n < 2 ^ 64) ∧
        datumAt current accessors = some x := by
  induction accessors generalizing current with
  | nil => simp [datumAt]
  | cons a accessors ih =>
    have hRest : ∀ k, Accessor.key k ∈ accessors → IsName k := fun k hk =>
      hKeys k (List.mem_cons_of_mem _ hk)
    have hName : ∀ k, a = .key k → IsName k := fun k hk => hKeys k (hk ▸ List.mem_cons_self)
    rw [List.foldlM_cons, datumAt, List.foldlM_cons]
    by_cases hFits : ∀ k n, a = .key k → position k = some n → n < 2 ^ 64
    · rw [accessorStep_eq hName hFits]
      cases hStep : datumStep current a with
      | none => simp
      | some next =>
        show accessors.foldlM accessorStep next = some x ↔ _ ∧ accessors.foldlM datumStep next = some x
        rw [ih hRest (datumStep_wellNamed h hStep), datumAt]
        refine and_congr_left fun _ => ⟨fun hAll k n hk => ?_, fun hAll k n hk => ?_⟩
        · rcases List.mem_cons.mp hk with hk | hk
          · exact hFits k n hk.symm
          · exact hAll k n hk
        · exact hAll k n (List.mem_cons_of_mem _ hk)
    · push Not at hFits
      obtain ⟨k, n, rfl, hk, hLarge⟩ := hFits
      rw [accessorStep_too_large (hName k rfl) h hk (not_lt.mpr hLarge)]
      constructor
      · intro hNone
        cases hNone
      · rintro ⟨hAll, -⟩
        exact absurd (hAll k n List.mem_cons_self hk) (not_lt.mpr hLarge)

/-- A name in front of the first index stands on an array of fixed length, and columns read on. -/
def EntersFixedArray : Located → List Accessor → Prop
  | (.fixedArray items, components), .key k :: rest =>
    (columnWalk (.fixedArray items, components) (.key k :: rest)).isSome
  | current, .key k :: rest =>
    position k = none ∧ ∃ next, datumStep current (.key k) = some next ∧ EntersFixedArray next rest
  | _, _ => False

theorem descend_number {current : Located} {k : List Char} {n : Nat} (h : WellNamed current.2)
    (hk : position k = some n) : descend current k = none := by
  rw [descend, findComponent_position h hk]
  rfl

/-- Elsewhere than on an array of fixed length, a name in front of the first index is a component. -/
theorem descend_eq {current : Located} {k : List Char} (hk : position k = none)
    (hValue : ∀ items, current.1 ≠ .fixedArray items) : descend current k = datumStep current (.key k) := by
  rw [descend, datumStep, hk]
  cases findComponent k current.2 with
  | none => rfl
  | some c =>
    show (current.1.asFixedSeq >>= fun items => _) = _
    cases hc : current.1 with
    | tuple items =>
      show (items[c.2]? >>= fun value => _) = (items[c.2]?).map _
      cases items[c.2]? <;> rfl
    | fixedArray items => exact absurd hc (hValue items)
    | _ => rfl

theorem enters_reads {current : Located} {accessors : List Accessor} (h : WellNamed current.2)
    (hEnters : EntersFixedArray current accessors) :
    (columnWalk current accessors).isSome ∧
      ∃ k rest, accessors = .key k :: rest ∧ position k = none := by
  fun_induction EntersFixedArray current accessors with
  | case1 items components k rest =>
    refine ⟨hEnters, k, rest, rfl, ?_⟩
    cases hk : position k with
    | none => rfl
    | some n =>
      rw [columnWalk, descend_number h hk] at hEnters
      cases hEnters
  | case2 current k rest hValue ih =>
    obtain ⟨hk, next, hStep, hNext⟩ := hEnters
    refine ⟨?_, k, rest, rfl, hk⟩
    rw [columnWalk, descend_eq hk fun items hItems => hValue items current.2 (Prod.ext hItems rfl) , hStep]
    exact (ih next (datumStep_wellNamed h hStep) hNext).1
  | case3 => exact hEnters.elim

theorem datumStep_fixedArray_key (items : List DynSolValue) (components : List Param) (k : List Char) :
    datumStep (.fixedArray items, components) (.key k) = none := by
  rw [datumStep]
  cases position k with
  | some n => rfl
  | none => cases findComponent k components <;> rfl

theorem enters_key {current : Located} {k : List Char} {rest : List Accessor}
    (hValue : ∀ items, current.1 ≠ .fixedArray items) :
    EntersFixedArray current (.key k :: rest) ↔
      position k = none ∧ ∃ next, datumStep current (.key k) = some next ∧ EntersFixedArray next rest := by
  rw [EntersFixedArray]
  exact fun items components h => hValue items (congrArg Prod.fst h)

theorem ColumnReadable.key_iff {k : List Char} {rest : List Accessor} :
    ColumnReadable (.key k :: rest) ↔ position k = none ∧ ColumnReadable rest := by
  constructor
  · intro h
    exact ⟨h.leading k List.mem_cons_self, fun k' hk' => h.leading k' (List.mem_cons_of_mem _ hk'),
      fun k' n hk' => h.fits k' n (List.mem_cons_of_mem _ hk')⟩
  · rintro ⟨hk, h⟩
    refine ⟨fun k' hk' => ?_, fun k' n hk' hn => ?_⟩
    · rcases List.mem_cons.mp hk' with rfl | hk'
      · exact hk
      · exact h.leading k' hk'
    · rcases List.mem_cons.mp hk' with hSame | hk'
      · cases hSame
        rw [hk] at hn
        cases hn
      · exact h.fits k' n hk' hn

/-- Unless it goes on through an array of fixed length, a column reads the datum at a path that is
readable for it, and nothing at others. -/
theorem columnWalk_iff {accessors : List Accessor} {current : Located}
    (hKeys : ∀ k, Accessor.key k ∈ accessors → IsName k) (h : WellNamed current.2)
    (hEnters : ¬ EntersFixedArray current accessors) {x : Located} :
    columnWalk current accessors = some x ↔
      ColumnReadable accessors ∧ datumAt current accessors = some x := by
  induction accessors generalizing current with
  | nil =>
    have hReadable : ColumnReadable [] := ⟨by simp [leadingKeys], by simp⟩
    simp [columnWalk, datumAt, hReadable]
  | cons a accessors ih =>
    cases a with
    | index i =>
      have hReadable : ColumnReadable (.index i :: accessors) ↔
          ∀ k n, Accessor.key k ∈ Accessor.index i :: accessors → position k = some n → n < 2 ^ 64 :=
        ⟨ColumnReadable.fits, fun hFits => ⟨by simp [leadingKeys], hFits⟩⟩
      rw [hReadable]
      exact foldlM_accessorStep hKeys h
    | key k =>
      have hRest : ∀ k, Accessor.key k ∈ accessors → IsName k := fun k hk =>
        hKeys k (List.mem_cons_of_mem _ hk)
      by_cases hValue : ∃ items, current.1 = .fixedArray items
      · obtain ⟨items, hItems⟩ := hValue
        obtain ⟨value, components⟩ := current
        cases hItems
        have hNone : columnWalk (.fixedArray items, components) (.key k :: accessors) = none := by
          simpa [EntersFixedArray] using hEnters
        rw [hNone, datumAt, List.foldlM_cons, datumStep_fixedArray_key]
        simp
      · push Not at hValue
        rw [columnWalk, datumAt, List.foldlM_cons, ColumnReadable.key_iff]
        cases hk : position k with
        | some n =>
          rw [descend_number h hk]
          simp
        | none =>
          rw [descend_eq hk hValue]
          cases hStep : datumStep current (.key k) with
          | none => simp
          | some next =>
            have hNext : ¬ EntersFixedArray next accessors := fun hNext =>
              hEnters ((enters_key hValue).mpr ⟨hk, next, hStep, hNext⟩)
            show columnWalk next accessors = some x ↔ _ ∧ datumAt next accessors = some x
            rw [ih hRest (datumStep_wellNamed h hStep) hNext]
            simp

/-! ### Conditions -/

/-- A key is written as a position is. -/
def Canonical (k : List Char) : Prop := ∃ n : Nat, k = (toString n).toList

/-- An index stands on an array of fixed length. -/
def IndexesFixedArray : Located → List Accessor → Prop
  | (.fixedArray _, _), .index _ :: _ => True
  | current, a :: rest => ∃ next, datumStep current a = some next ∧ IndexesFixedArray next rest
  | _, [] => False

/-- All keys are positions, and all arrays with an index are dynamic. -/
structure ConditionReadable (current : Located) (accessors : List Accessor) : Prop where
  canonical : ∀ k, Accessor.key k ∈ accessors → Canonical k
  dynamic : ¬ IndexesFixedArray current accessors

/-- The step of conditions on the value behind a JSON. -/
def jsonStep : DynSolValue → Accessor → Option DynSolValue
  | .tuple items, .key k =>
    (position k).bind fun n => if (toString n).toList = k then items[n]? else none
  | .array items, .index i => items[i.val]?
  | _, _ => none

theorem position_toString (n : Nat) : position (toString n).toList = some n := by
  have h := isDigits_toString n
  rw [position, if_pos ⟨h.1, List.all_eq_true.mpr h.2⟩]
  exact congrArg some (decimalValue_toString n)

section Rendering

variable {lib : Library}

theorem get?_tupleEntries (items : List DynSolValue) (j : Nat) (k : List Char) :
    (tupleEntries lib j items).get? k =
      (position k).bind fun n =>
        if (toString n).toList = k ∧ j ≤ n then (items[n - j]?).map (dynSolValueToJson lib) else none := by
  induction items generalizing j with
  | nil =>
    rw [tupleEntries, OrderedMap.get?_empty]
    cases position k <;> simp
  | cons value items ih =>
    rw [tupleEntries, OrderedMap.get?_insert, ih]
    by_cases hk : k = (toString j).toList
    · rw [if_pos hk, hk, position_toString]
      simp
    · rw [if_neg hk]
      cases hPosition : position k with
      | none => rfl
      | some n =>
        simp only [Option.bind_some]
        by_cases hText : (toString n).toList = k
        · have hNe : n ≠ j := by
            rintro rfl
            exact hk hText.symm
          by_cases hLe : j ≤ n
          · obtain ⟨d, rfl⟩ : ∃ d, n = j + 1 + d := ⟨n - (j + 1), by omega⟩
            rw [if_pos ⟨hText, by omega⟩, if_pos ⟨hText, hLe⟩, show j + 1 + d - j = d + 1 by omega,
              show j + 1 + d - (j + 1) = d by omega, List.getElem?_cons_succ]
          · rw [if_neg fun h => hLe (by omega), if_neg fun h => hLe h.2]
        · rw [if_neg fun h => hText h.1, if_neg fun h => hText h.1]

theorem get_object (m : JsonMap) (k : List Char) : m.entries.lookup k = m.get? k := by
  rw [OrderedMap.get?]
  induction m.entries with
  | nil => rfl
  | cons e l ih =>
    obtain ⟨k', v⟩ := e
    rw [OrderedMap.lookup_cons_eq_ite, ← ih]
    by_cases hk : k = k'
    · rw [if_pos hk, hk, List.lookup_cons_self]
    · rw [if_neg hk, List.lookup_cons, beq_eq_false_iff_ne.mpr hk]

theorem itemsToJson_getElem? (items : List DynSolValue) (i : Nat) :
    (itemsToJson lib items)[i]? = (items[i]?).map (dynSolValueToJson lib) := by
  induction items generalizing i with
  | nil => simp [itemsToJson]
  | cons value items ih =>
    rw [itemsToJson]
    cases i with
    | zero => rfl
    | succ i => exact ih i

/-- A condition takes the step of its value. -/
theorem applyAccessor_json (value : DynSolValue) (a : Accessor) :
    (applyAccessor a (dynSolValueToJson lib value)).toOption =
      (jsonStep value a).map (dynSolValueToJson lib) := by
  cases value with
  | uint n bits =>
    rw [dynSolValueToJson, jsonNumber]
    split <;> cases a <;> rfl
  | tuple items =>
    rw [dynSolValueToJson]
    cases a with
    | index i => rfl
    | key k =>
      rw [applyAccessor, get_object, get?_tupleEntries, jsonStep]
      cases position k with
      | none => rfl
      | some n =>
        simp only [Option.bind_some, Nat.zero_le, and_true, Nat.sub_zero]
        by_cases hText : (toString n).toList = k
        · rw [if_pos hText, if_pos hText]
          cases items[n]? <;> rfl
        · rw [if_neg hText, if_neg hText]
          rfl
  | array items =>
    rw [dynSolValueToJson]
    cases a with
    | key k => rfl
    | index i =>
      rw [applyAccessor, itemsToJson_getElem?, jsonStep]
      cases items[i.val]? <;> rfl
  | _ => cases a <;> rfl

theorem foldlM_applyAccessor (accessors : List Accessor) (value : DynSolValue) :
    (accessors.foldlM (fun current a => applyAccessor a current) (dynSolValueToJson lib value)).toOption =
      (accessors.foldlM jsonStep value).map (dynSolValueToJson lib) := by
  induction accessors generalizing value with
  | nil => rfl
  | cons a accessors ih =>
    have hStep := @applyAccessor_json lib value a
    rw [List.foldlM_cons, List.foldlM_cons]
    cases hApply : applyAccessor a (dynSolValueToJson lib value) with
    | error e =>
      rw [hApply] at hStep
      cases hJson : jsonStep value a with
      | none => rfl
      | some next =>
        rw [hJson] at hStep
        cases hStep
    | ok json =>
      rw [hApply] at hStep
      cases hJson : jsonStep value a with
      | none =>
        rw [hJson] at hStep
        cases hStep
      | some next =>
        rw [hJson] at hStep
        cases hStep
        exact ih next

end Rendering

/-- At positions and on dynamic arrays, the step of conditions is that of the datum. -/
theorem jsonStep_eq {current : Located} {a : Accessor} (hCanonical : ∀ k, a = .key k → Canonical k)
    (hDynamic : ∀ i, a = .index i → ∀ items, current.1 ≠ .fixedArray items) :
    jsonStep current.1 a = (datumStep current a).map Prod.fst := by
  obtain ⟨value, components⟩ := current
  cases a with
  | index i =>
    cases value with
    | array items =>
      show items[i.val]? = ((items[i.val]?).map _).map _
      cases items[i.val]? <;> rfl
    | fixedArray items => exact absurd rfl (hDynamic i rfl items)
    | _ => rfl
  | key k =>
    obtain ⟨n, rfl⟩ := hCanonical k rfl
    simp only [datumStep, position_toString, Option.map_map]
    cases value with
    | tuple items =>
      simp only [jsonStep, position_toString, Option.bind_some, if_true, tupleItem]
      cases items[n]? <;> rfl
    | _ => rfl

theorem jsonStep_not_canonical {value : DynSolValue} {k : List Char} (h : ¬ Canonical k) :
    jsonStep value (.key k) = none := by
  cases value with
  | tuple items =>
    rw [jsonStep]
    cases position k with
    | none => rfl
    | some n =>
      rw [Option.bind_some, if_neg]
      exact fun hText => h ⟨n, hText.symm⟩
  | _ => rfl

theorem indexes_cons {current : Located} {a : Accessor} {rest : List Accessor}
    (hDynamic : ∀ i, a = .index i → ∀ items, current.1 ≠ .fixedArray items) :
    IndexesFixedArray current (a :: rest) ↔
      ∃ next, datumStep current a = some next ∧ IndexesFixedArray next rest := by
  rw [IndexesFixedArray]
  rintro items components i hCurrent rfl
  exact hDynamic i rfl items (congrArg Prod.fst hCurrent)

/-- A condition reads the datum at a path that is readable for it, and nothing at others. -/
theorem foldlM_jsonStep {accessors : List Accessor} {current : Located} {value : DynSolValue} :
    accessors.foldlM jsonStep current.1 = some value ↔
      ConditionReadable current accessors ∧ (datumAt current accessors).map Prod.fst = some value := by
  induction accessors generalizing current with
  | nil =>
    have hReadable : ConditionReadable current [] := ⟨by simp, by simp [IndexesFixedArray]⟩
    simp [datumAt, hReadable]
  | cons a accessors ih =>
    rw [List.foldlM_cons, datumAt, List.foldlM_cons]
    by_cases hCanonical : ∀ k, a = .key k → Canonical k
    · by_cases hDynamic : ∀ i, a = .index i → ∀ items, current.1 ≠ .fixedArray items
      · rw [jsonStep_eq hCanonical hDynamic]
        cases hStep : datumStep current a with
        | none => simp
        | some next =>
          show accessors.foldlM jsonStep next.1 = some value ↔
            _ ∧ (datumAt next accessors).map Prod.fst = some value
          rw [ih]
          refine and_congr_left fun _ => ⟨fun h => ⟨fun k hk => ?_, fun hIndexes => ?_⟩,
            fun h => ⟨fun k hk => h.canonical k (List.mem_cons_of_mem _ hk), fun hIndexes => ?_⟩⟩
          · rcases List.mem_cons.mp hk with hk | hk
            · exact hCanonical k hk.symm
            · exact h.canonical k hk
          · obtain ⟨next', hNext, hRest⟩ := (indexes_cons hDynamic).mp hIndexes
            rw [hStep] at hNext
            cases hNext
            exact h.dynamic hRest
          · exact h.dynamic ((indexes_cons hDynamic).mpr ⟨next, hStep, hIndexes⟩)
      · push Not at hDynamic
        obtain ⟨i, rfl, items, hItems⟩ := hDynamic
        obtain ⟨v, components⟩ := current
        cases hItems
        have hReadable : ¬ ConditionReadable (.fixedArray items, components) (.index i :: accessors) :=
          fun h => h.dynamic trivial
        simp [hReadable, jsonStep]
    · push Not at hCanonical
      obtain ⟨k, rfl, hk⟩ := hCanonical
      have hReadable : ¬ ConditionReadable current (.key k :: accessors) := fun h =>
        hk (h.canonical k List.mem_cons_self)
      simp [hReadable, jsonStep_not_canonical hk]

end Rindexer.Extraction
