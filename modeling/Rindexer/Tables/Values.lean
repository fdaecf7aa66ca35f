import Mathlib.Algebra.BigOperators.Group.List.Basic
import Mathlib.Data.List.Perm.Basic
import Mathlib.Data.String.Basic
import Mathlib.Order.Defs.LinearOrder
import Rindexer.Reorg.Statements

/-! Values in the statements on custom tables: what Postgres computes from them, with its nulls. -/

namespace Rindexer.Tables

open Rindexer.Database Rindexer.Reorg

/-- A row of a custom table, or of a batch for it.  The columns that are addressed by a fixed name in
every statement are fields, the others a function of the name. -/
@[ext] structure TableRow where
  sequenceId : Nat
  fields : String → SqlValue

/-- What Postgres decides: the order of the values of a type, where text goes by the collation; and the
order in which it scans a group of rows, which decides ties. -/
structure Server where
  le : SqlValue → SqlValue → Bool
  le_total : ∀ a b, le a b = true ∨ le b a = true
  le_trans : ∀ a b c, le a b = true → le b c = true → le a c = true
  le_antisymm : ∀ a b, le a b = true → le b a = true → a = b
  le_num : ∀ m n : Int, le (.num m) (.num n) = decide (m ≤ n)
  scan : List TableRow → List TableRow
  scan_perm : ∀ rows, (scan rows).Perm rows

/-- An order of values: nulls, booleans, numbers and texts. -/
def plainLe : SqlValue → SqlValue → Bool
  | .null, _ => true
  | .bool a, .bool b => decide (a ≤ b)
  | .bool _, .num _ => true
  | .bool _, .text _ => true
  | .num m, .num n => decide (m ≤ n)
  | .num _, .text _ => true
  | .text s, .text t => decide (s ≤ t)
  | _, _ => false

/-- A server that compares texts by their characters and scans rows as they come. -/
def plainServer : Server where
  le := plainLe
  le_total a b := by
    cases a <;> cases b <;> simp [plainLe, le_total]
  le_trans a b c := by
    cases a <;> cases b <;> cases c <;> simp [plainLe] <;> exact le_trans
  le_antisymm a b := by
    cases a <;> cases b <;> simp [plainLe] <;> exact le_antisymm
  le_num _ _ := rfl
  scan rows := rows
  scan_perm _ := .refl _

/-- `COALESCE(value, 0)`. -/
def coalesceZero : SqlValue → SqlValue
  | .null => .num 0
  | value => value

def sqlAdd : SqlValue → SqlValue → SqlValue
  | .num m, .num n => .num (m + n)
  | _, _ => .null

def sqlSub : SqlValue → SqlValue → SqlValue
  | .num m, .num n => .num (m - n)
  | _, _ => .null

/-- `GREATEST`, which passes over nulls. -/
def greatest (sv : Server) : SqlValue → SqlValue → SqlValue
  | .null, b => b
  | a, .null => a
  | a, b => if sv.le a b then b else a

def least (sv : Server) : SqlValue → SqlValue → SqlValue
  | .null, b => b
  | a, .null => a
  | a, b => if sv.le a b then a else b

/-- `MAX` over the values of a group. -/
def sqlMax (sv : Server) (values : List SqlValue) : SqlValue := values.foldl (greatest sv) .null

def sqlMin (sv : Server) (values : List SqlValue) : SqlValue := values.foldl (least sv) .null

/-- The number of a numeric value. -/
def number : SqlValue → Int
  | .num n => n
  | _ => 0

@[simp] theorem sqlAdd_num (m n : Int) : sqlAdd (.num m) (.num n) = .num (m + n) := rfl

@[simp] theorem sqlSub_num (m n : Int) : sqlSub (.num m) (.num n) = .num (m - n) := rfl

@[simp] theorem coalesceZero_num (n : Int) : coalesceZero (.num n) = .num n := rfl

@[simp] theorem number_num (n : Int) : number (.num n) = n := rfl

theorem sqlSum_of_numeric {values : List SqlValue} (hNumeric : ∀ v ∈ values, ∃ n, v = .num n)
    (hNonempty : values ≠ []) : sqlSum values = .num (values.map number).sum := by
  obtain ⟨numbers, rfl⟩ : ∃ numbers : List Int, values = numbers.map SqlValue.num := by
    clear hNonempty
    induction values with
    | nil => exact ⟨[], rfl⟩
    | cons v values ih =>
      obtain ⟨n, rfl⟩ := hNumeric v List.mem_cons_self
      obtain ⟨numbers, rfl⟩ := ih fun w hw => hNumeric w (List.mem_cons_of_mem _ hw)
      exact ⟨n :: numbers, rfl⟩
  have hNumbers : numbers ≠ [] := by simpa using hNonempty
  simp [sqlSum, List.filterMap_map, Function.comp_def, hNumbers]

section Order

variable (sv : Server)

theorem le_refl (a : SqlValue) : sv.le a a = true := by
  rcases sv.le_total a a with h | h <;> exact h

@[simp] theorem greatest_null_left (b : SqlValue) : greatest sv .null b = b := rfl

@[simp] theorem greatest_null_right (a : SqlValue) : greatest sv a .null = a := by
  cases a <;> rfl

theorem greatest_of_ne_null {a b : SqlValue} (ha : a ≠ .null) (hb : b ≠ .null) :
    greatest sv a b = if sv.le a b then b else a := by
  cases a <;> cases b <;> first | rfl | contradiction

@[simp] theorem least_null_left (b : SqlValue) : least sv .null b = b := rfl

@[simp] theorem least_null_right (a : SqlValue) : least sv a .null = a := by
  cases a <;> rfl

theorem least_of_ne_null {a b : SqlValue} (ha : a ≠ .null) (hb : b ≠ .null) :
    least sv a b = if sv.le a b then a else b := by
  cases a <;> cases b <;> first | rfl | contradiction

/-- The greatest of two values is one of them, and above both. -/
theorem greatest_spec {a b : SqlValue} (ha : a ≠ .null) (hb : b ≠ .null) :
    (greatest sv a b = a ∨ greatest sv a b = b) ∧
      sv.le a (greatest sv a b) = true ∧ sv.le b (greatest sv a b) = true := by
  rw [greatest_of_ne_null sv ha hb]
  by_cases h : sv.le a b = true
  · rw [if_pos h]
    exact ⟨.inr rfl, h, le_refl sv b⟩
  · rw [if_neg h]
    exact ⟨.inl rfl, le_refl sv a, (sv.le_total a b).resolve_left h⟩

theorem least_spec {a b : SqlValue} (ha : a ≠ .null) (hb : b ≠ .null) :
    (least sv a b = a ∨ least sv a b = b) ∧
      sv.le (least sv a b) a = true ∧ sv.le (least sv a b) b = true := by
  rw [least_of_ne_null sv ha hb]
  by_cases h : sv.le a b = true
  · rw [if_pos h]
    exact ⟨.inl rfl, le_refl sv a, h⟩
  · rw [if_neg h]
    exact ⟨.inr rfl, (sv.le_total a b).resolve_left h, le_refl sv b⟩

/-- `v` is among the values and above them all. -/
def IsMax (values : List SqlValue) (v : SqlValue) : Prop :=
  v ∈ values ∧ ∀ w ∈ values, sv.le w v = true

def IsMin (values : List SqlValue) (v : SqlValue) : Prop :=
  v ∈ values ∧ ∀ w ∈ values, sv.le v w = true

variable {sv}

theorem IsMax.perm {values values' : List SqlValue} {v : SqlValue} (h : IsMax sv values v)
    (hPerm : values.Perm values') : IsMax sv values' v :=
  ⟨hPerm.mem_iff.mp h.1, fun w hw => h.2 w (hPerm.mem_iff.mpr hw)⟩

theorem IsMin.perm {values values' : List SqlValue} {v : SqlValue} (h : IsMin sv values v)
    (hPerm : values.Perm values') : IsMin sv values' v :=
  ⟨hPerm.mem_iff.mp h.1, fun w hw => h.2 w (hPerm.mem_iff.mpr hw)⟩

/-- The greatest of the maxima of two lists is the maximum of both. -/
theorem IsMax.append {values values' : List SqlValue} {a b : SqlValue} (ha : IsMax sv values a)
    (hb : IsMax sv values' b) (haNull : a ≠ .null) (hbNull : b ≠ .null) :
    IsMax sv (values ++ values') (greatest sv a b) := by
  obtain ⟨hOne, hLeft, hRight⟩ := greatest_spec sv haNull hbNull
  constructor
  · rcases hOne with h | h
    · rw [h]
      exact List.mem_append_left _ ha.1
    · rw [h]
      exact List.mem_append_right _ hb.1
  · intro w hw
    rcases List.mem_append.mp hw with hw | hw
    · exact sv.le_trans w a _ (ha.2 w hw) hLeft
    · exact sv.le_trans w b _ (hb.2 w hw) hRight

theorem IsMin.append {values values' : List SqlValue} {a b : SqlValue} (ha : IsMin sv values a)
    (hb : IsMin sv values' b) (haNull : a ≠ .null) (hbNull : b ≠ .null) :
    IsMin sv (values ++ values') (least sv a b) := by
  obtain ⟨hOne, hLeft, hRight⟩ := least_spec sv haNull hbNull
  constructor
  · rcases hOne with h | h
    · rw [h]
      exact List.mem_append_left _ ha.1
    · rw [h]
      exact List.mem_append_right _ hb.1
  · intro w hw
    rcases List.mem_append.mp hw with hw | hw
    · exact sv.le_trans _ a w hLeft (ha.2 w hw)
    · exact sv.le_trans _ b w hRight (hb.2 w hw)

theorem isMax_singleton (v : SqlValue) : IsMax sv [v] v := by
  refine ⟨List.mem_singleton.mpr rfl, fun w hw => ?_⟩
  rw [List.mem_singleton.mp hw]
  exact le_refl sv v

theorem isMin_singleton (v : SqlValue) : IsMin sv [v] v := by
  refine ⟨List.mem_singleton.mpr rfl, fun w hw => ?_⟩
  rw [List.mem_singleton.mp hw]
  exact le_refl sv v

theorem isMax_foldl {values seen : List SqlValue} {a : SqlValue} (h : IsMax sv seen a)
    (hSeen : ∀ v ∈ seen, v ≠ .null) (hValues : ∀ v ∈ values, v ≠ .null) :
    IsMax sv (seen ++ values) (values.foldl (greatest sv) a) := by
  induction values generalizing seen a with
  | nil => simpa using h
  | cons v values ih =>
    have hv := hValues v List.mem_cons_self
    have hNext := h.append (isMax_singleton v) (hSeen a h.1) hv
    have hAll := ih hNext (by simpa [or_imp, forall_and, hv] using hSeen)
      fun w hw => hValues w (List.mem_cons_of_mem _ hw)
    simpa using hAll

theorem isMin_foldl {values seen : List SqlValue} {a : SqlValue} (h : IsMin sv seen a)
    (hSeen : ∀ v ∈ seen, v ≠ .null) (hValues : ∀ v ∈ values, v ≠ .null) :
    IsMin sv (seen ++ values) (values.foldl (least sv) a) := by
  induction values generalizing seen a with
  | nil => simpa using h
  | cons v values ih =>
    have hv := hValues v List.mem_cons_self
    have hNext := h.append (isMin_singleton v) (hSeen a h.1) hv
    have hAll := ih hNext (by simpa [or_imp, forall_and, hv] using hSeen)
      fun w hw => hValues w (List.mem_cons_of_mem _ hw)
    simpa using hAll

theorem isMax_sqlMax (sv : Server) {values : List SqlValue} (hNonempty : values ≠ [])
    (hValues : ∀ v ∈ values, v ≠ .null) : IsMax sv values (sqlMax sv values) := by
  cases values with
  | nil => contradiction
  | cons v values =>
    exact isMax_foldl (isMax_singleton v) (by simpa using hValues v List.mem_cons_self)
      fun w hw => hValues w (List.mem_cons_of_mem _ hw)

theorem isMin_sqlMin (sv : Server) {values : List SqlValue} (hNonempty : values ≠ [])
    (hValues : ∀ v ∈ values, v ≠ .null) : IsMin sv values (sqlMin sv values) := by
  cases values with
  | nil => contradiction
  | cons v values =>
    exact isMin_foldl (isMin_singleton v) (by simpa using hValues v List.mem_cons_self)
      fun w hw => hValues w (List.mem_cons_of_mem _ hw)

end Order

end Rindexer.Tables
