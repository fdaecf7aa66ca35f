import Rindexer.SqlTypes.Wrappers

/-! The leaves of parameters, which the columns of an event table are named after, and the values that
stand at the same places in a log. -/

namespace Rindexer.SqlTypes

open Rindexer.Database
open Rindexer.Manifest (ABIInput)
open Rindexer.Tables (Panic)

/-- A leaf: the names of the tuples around it, its entry, and its place in the tree. -/
structure Leaf where
  path : List (List Char)
  input : ABIInput
  position : List Nat

namespace Leaf

/-- The leaf, in the tuple of this index. -/
def under (idx : Nat) (leaf : Leaf) : Leaf := { leaf with position := idx :: leaf.position }

/-- The column named after the leaf, with its type. -/
def column (classes : UnicodeClasses) (leaf : Leaf) : Option (List Char × List Char) :=
  (columnName classes leaf.path leaf.input.name).map fun column => (column, leaf.input.type)

@[simp] theorem column_under (classes : UnicodeClasses) (idx : Nat) (leaf : Leaf) :
    (leaf.under idx).column classes = leaf.column classes := rfl

end Leaf

mutual

def leaves (path : List (List Char)) : ABIInput → List Leaf
  | .mk name type indexed (some components) =>
    if "tuple[".toList.isPrefixOf type then [⟨path, .mk name type indexed (some components), []⟩]
    else leavesFrom (path ++ [name]) 0 components
  | .mk name type indexed none => [⟨path, .mk name type indexed none, []⟩]

/-- The leaves of entries, of which the first has the index `idx`. -/
def leavesFrom (path : List (List Char)) (idx : Nat) : List ABIInput → List Leaf
  | [] => []
  | input :: inputs => (leaves path input).map (Leaf.under idx) ++ leavesFrom path (idx + 1) inputs

end

theorem mapM_column_under (classes : UnicodeClasses) (idx : Nat) (leaves : List Leaf) :
    (leaves.map (Leaf.under idx)).mapM (Leaf.column classes) = leaves.mapM (Leaf.column classes) := by
  induction leaves with
  | nil => rfl
  | cons leaf leaves ih => rw [List.map_cons, List.mapM_cons, List.mapM_cons, ih, Leaf.column_under]

mutual

theorem abiNameProperties_eq (classes : UnicodeClasses) (path : List (List Char)) :
    ∀ input, abiNameProperties classes path input = (leaves path input).mapM (Leaf.column classes)
  | .mk name type indexed (some components) => by
    rw [abiNameProperties, leaves]
    split
    · cases hColumn : columnName classes path name <;>
        simp [Leaf.column, ABIInput.name, ABIInput.type, hColumn]
    · exact abiNamePropertiesOf_eq classes (path ++ [name]) 0 components
  | .mk name type indexed none => by
    rw [abiNameProperties, leaves]
    cases hColumn : columnName classes path name <;>
      simp [Leaf.column, ABIInput.name, ABIInput.type, hColumn]

/-- The columns of an event table are those of the leaves, in their order. -/
theorem abiNamePropertiesOf_eq (classes : UnicodeClasses) (path : List (List Char)) (idx : Nat) :
    ∀ inputs, abiNamePropertiesOf classes path inputs =
      (leavesFrom path idx inputs).mapM (Leaf.column classes)
  | [] => rfl
  | input :: inputs => by
    rw [abiNamePropertiesOf, leavesFrom, List.mapM_append, mapM_column_under,
      abiNameProperties_eq classes path input, abiNamePropertiesOf_eq classes path (idx + 1) inputs]
    cases (leaves path input).mapM (Leaf.column classes) with
    | none => rfl
    | some columns =>
      cases (leavesFrom path (idx + 1) inputs).mapM (Leaf.column classes) <;> rfl

end

/-! ### Values at places -/

/-- The value at a place in a value. -/
def valueAt : List Nat → DynSolValue → Option DynSolValue
  | [], value => some value
  | idx :: position, value =>
    value.asTuple.bind fun items => items[idx]?.bind (valueAt position)

@[simp] theorem valueAt_nil (value : DynSolValue) : valueAt [] value = some value := rfl

theorem valueAt_tuple (front : List DynSolValue) (value : DynSolValue) (rest : List DynSolValue)
    (position : List Nat) :
    valueAt (front.length :: position) (.tuple (front ++ value :: rest)) = valueAt position value := by
  rw [valueAt]
  simp [DynSolValue.asTuple]

/-- Nothing stands inside of a value that is no tuple. -/
theorem valueAt_cons_of_asTuple {value : DynSolValue} (h : value.asTuple = none) (idx : Nat)
    (position : List Nat) : valueAt (idx :: position) value = none := by
  rw [valueAt, h, Option.bind_none]

/-! ### Conversions that follow the leaves -/

section Conversions

variable {α : Type} (convert : ABIInput → DynSolValue → Except Panic (List α))

/-- What a leaf has: the conversion of its own value, by its own entry. -/
def Filled (value : DynSolValue) (leaf : Leaf) (a : α) : Prop :=
  ∃ token, valueAt leaf.position value = some token ∧ convert leaf.input token = .ok [a]

/-- One value for each leaf, in the order of the leaves. -/
def Aligned (value : DynSolValue) (leaves : List Leaf) (as : List α) : Prop :=
  List.Forall₂ (Filled convert value) leaves as

/-- A conversion of entries and their values one after another, which a tuple is converted by. -/
structure Flattens (convertAll : List ABIInput → List DynSolValue → Except Panic (List α)) : Prop where
  nil : convertAll [] [] = .ok []
  cons : ∀ input inputs token tokens, convertAll (input :: inputs) (token :: tokens) =
    (convert input token).bind fun first => (convertAll inputs tokens).map fun rest => first ++ rest
  tuple : ∀ input components items, input.components = some components →
    convert input (.tuple items) = convertAll components items
  struct : ∀ input items, convert input (.customStruct items) = .error ⟨⟩

variable {convert}

theorem aligned_under {front rest : List DynSolValue} {value : DynSolValue} {leaves : List Leaf}
    {as : List α} :
    Aligned convert (.tuple (front ++ value :: rest)) (leaves.map (Leaf.under front.length)) as ↔
      Aligned convert value leaves as := by
  rw [Aligned, Aligned, List.forall₂_map_left_iff]
  have hFilled (leaf : Leaf) (a : α) :
      Filled convert (.tuple (front ++ value :: rest)) (leaf.under front.length) a ↔
        Filled convert value leaf a := by
    rw [Filled, Filled, Leaf.under, valueAt_tuple]
  simp only [hFilled]

end Conversions

end Rindexer.SqlTypes
