import Mathlib.Data.List.Basic
import Mathlib.Tactic.Common
import Mathlib.Tactic.NormNum

/-! A grid of updates, in rows and columns, run row by row or column by column. -/

namespace Rindexer.Lib

variable {σ ι κ : Type} (f : ι → κ → σ → σ)

def rowMajor (rows : List ι) (columns : List κ) (s : σ) : σ :=
  rows.foldl (fun s i => columns.foldl (fun s j => f i j s) s) s

def columnMajor (rows : List ι) (columns : List κ) (s : σ) : σ :=
  columns.foldl (fun s j => rows.foldl (fun s i => f i j s) s) s

@[simp] theorem columnMajor_nil (rows : List ι) (s : σ) : columnMajor f rows [] s = s := rfl

theorem columnMajor_cons (rows : List ι) (j : κ) (columns : List κ) (s : σ) :
    columnMajor f rows (j :: columns) s =
      columnMajor f rows columns (rows.foldl (fun s i => f i j s) s) := rfl

theorem columnMajor_append (rows : List ι) (first second : List κ) (s : σ) :
    columnMajor f rows (first ++ second) s =
      columnMajor f rows second (columnMajor f rows first s) :=
  List.foldl_append

theorem rowMajor_cons (i : ι) (rows : List ι) (columns : List κ) (s : σ) :
    rowMajor f (i :: rows) columns s =
      rowMajor f rows columns (columns.foldl (fun s j => f i j s) s) := rfl

theorem rowMajor_nil (rows : List ι) (s : σ) : rowMajor f rows [] s = s := by
  induction rows with
  | nil => rfl
  | cons i rows ih => exact ih

section Commuting

variable {f} {P : σ → Prop}

theorem foldl_keeps {α : Type} {g : α → σ → σ} {items : List α}
    (hKeep : ∀ a ∈ items, ∀ s, P s → P (g a s)) {s : σ} (hs : P s) :
    P (items.foldl (fun s a => g a s) s) := by
  induction items generalizing s with
  | nil => exact hs
  | cons a items ih =>
    exact ih (fun b hb => hKeep b (List.mem_cons_of_mem _ hb)) (hKeep a List.mem_cons_self s hs)

theorem foldl_congr_keeps {α : Type} {g g' : α → σ → σ} {items : List α}
    (hKeep : ∀ a ∈ items, ∀ s, P s → P (g' a s)) (hEq : ∀ a ∈ items, ∀ s, P s → g a s = g' a s) {s : σ}
    (hs : P s) : items.foldl (fun s a => g a s) s = items.foldl (fun s a => g' a s) s := by
  induction items generalizing s with
  | nil => rfl
  | cons a items ih =>
    rw [List.foldl_cons, List.foldl_cons, hEq a List.mem_cons_self s hs]
    exact ih (fun b hb => hKeep b (List.mem_cons_of_mem _ hb))
      (fun b hb => hEq b (List.mem_cons_of_mem _ hb)) (hKeep a List.mem_cons_self s hs)

/-- An update that commutes with each of a list commutes with the list. -/
theorem foldl_comm {α : Type} {g : α → σ → σ} {u : σ → σ} {items : List α}
    (hKeep : ∀ a ∈ items, ∀ s, P s → P (g a s))
    (hComm : ∀ a ∈ items, ∀ s, P s → g a (u s) = u (g a s)) {s : σ} (hs : P s) :
    items.foldl (fun s a => g a s) (u s) = u (items.foldl (fun s a => g a s) s) := by
  induction items generalizing s with
  | nil => rfl
  | cons a items ih =>
    rw [List.foldl_cons, List.foldl_cons, hComm a List.mem_cons_self s hs]
    exact ih (fun b hb => hKeep b (List.mem_cons_of_mem _ hb))
      (fun b hb => hComm b (List.mem_cons_of_mem _ hb)) (hKeep a List.mem_cons_self s hs)

/-- The first column can be run before everything else, if what is in later rows of it commutes with
what is in the other columns of earlier rows. -/
theorem rowMajor_cons_column {rows : List ι} {j : κ} {columns : List κ}
    (hKeep : ∀ i ∈ rows, ∀ j' ∈ j :: columns, ∀ s, P s → P (f i j' s))
    (hComm : rows.Pairwise fun i i' => ∀ j' ∈ columns, ∀ s, P s →
      f i' j (f i j' s) = f i j' (f i' j s)) {s : σ} (hs : P s) :
    rowMajor f rows (j :: columns) s =
      rowMajor f rows columns (rows.foldl (fun s i => f i j s) s) := by
  induction rows generalizing s with
  | nil => rfl
  | cons i rows ih =>
    obtain ⟨hFirst, hRest⟩ := List.pairwise_cons.mp hComm
    have hKeepRest : ∀ i' ∈ rows, ∀ j' ∈ j :: columns, ∀ s, P s → P (f i' j' s) :=
      fun i' hi' => hKeep i' (List.mem_cons_of_mem _ hi')
    have hKeepFirst : ∀ j' ∈ columns, ∀ s, P s → P (f i j' s) := fun j' hj' =>
      hKeep i List.mem_cons_self j' (List.mem_cons_of_mem _ hj')
    have hNext : P (f i j s) := hKeep i List.mem_cons_self j List.mem_cons_self s hs
    have hSwap : rows.foldl (fun s i' => f i' j s) (columns.foldl (fun s j' => f i j' s) (f i j s)) =
        columns.foldl (fun s j' => f i j' s) (rows.foldl (fun s i' => f i' j s) (f i j s)) := by
      refine foldl_comm (P := P) (u := fun s => columns.foldl (fun s j' => f i j' s) s)
        (fun i' hi' => hKeepRest i' hi' j List.mem_cons_self) (fun i' hi' s hs => ?_) hNext
      exact (foldl_comm (P := P) (u := f i' j) hKeepFirst
        (fun j' hj' s hs => (hFirst i' hi' j' hj' s hs).symm) hs).symm
    rw [rowMajor_cons, rowMajor_cons, List.foldl_cons, List.foldl_cons,
      ih hKeepRest hRest (foldl_keeps (g := f i) hKeepFirst hNext), hSwap]

/-- Row by row is column by column, if what is in a later row of an earlier column commutes with what
is in an earlier row of a later column. -/
theorem rowMajor_eq_columnMajor {rows : List ι} {columns : List κ}
    (hKeep : ∀ i ∈ rows, ∀ j ∈ columns, ∀ s, P s → P (f i j s))
    (hComm : rows.Pairwise fun i i' => columns.Pairwise fun j j' => ∀ s, P s →
      f i' j (f i j' s) = f i j' (f i' j s)) {s : σ} (hs : P s) :
    rowMajor f rows columns s = columnMajor f rows columns s := by
  induction columns generalizing s with
  | nil => rw [rowMajor_nil, columnMajor_nil]
  | cons j columns ih =>
    rw [rowMajor_cons_column hKeep
      (hComm.imp fun h j' hj' => (List.pairwise_cons.mp h).1 j' hj') hs, columnMajor_cons]
    refine ih (fun i hi j' hj' => hKeep i hi j' (List.mem_cons_of_mem _ hj'))
      (hComm.imp fun h => (List.pairwise_cons.mp h).2) ?_
    exact foldl_keeps (g := fun i => f i j) (fun i hi => hKeep i hi j List.mem_cons_self) hs

theorem columnMajor_keeps {rows : List ι} {columns : List κ}
    (hKeep : ∀ i ∈ rows, ∀ j ∈ columns, ∀ s, P s → P (f i j s)) {s : σ} (hs : P s) :
    P (columnMajor f rows columns s) :=
  foldl_keeps (g := fun j s => rows.foldl (fun s i => f i j s) s)
    (fun j hj _ hs => foldl_keeps (g := fun i => f i j) (fun i hi => hKeep i hi j hj) hs) hs

/-- Running the columns in consecutive pieces, each row by row, is running them all row by row. -/
theorem foldl_rowMajor_flatten {rows : List ι} {pieces : List (List κ)}
    (hKeep : ∀ i ∈ rows, ∀ j ∈ pieces.flatten, ∀ s, P s → P (f i j s))
    (hComm : rows.Pairwise fun i i' => pieces.flatten.Pairwise fun j j' => ∀ s, P s →
      f i' j (f i j' s) = f i j' (f i' j s)) {s : σ} (hs : P s) :
    pieces.foldl (fun s columns => rowMajor f rows columns s) s = rowMajor f rows pieces.flatten s := by
  have hColumns : pieces.foldl (fun s columns => rowMajor f rows columns s) s =
      columnMajor f rows pieces.flatten s := by
    induction pieces generalizing s with
    | nil => rfl
    | cons columns pieces ih =>
      rw [List.flatten_cons] at hKeep hComm ⊢
      have hKeepFirst : ∀ i ∈ rows, ∀ j ∈ columns, ∀ s, P s → P (f i j s) := fun i hi j hj =>
        hKeep i hi j (List.mem_append_left _ hj)
      rw [List.foldl_cons, columnMajor_append, rowMajor_eq_columnMajor hKeepFirst
        (hComm.imp fun h => (List.pairwise_append.mp h).1) hs]
      exact ih (fun i hi j hj => hKeep i hi j (List.mem_append_right _ hj))
        (hComm.imp fun h => (List.pairwise_append.mp h).2.1) (columnMajor_keeps hKeepFirst hs)
  rw [hColumns, rowMajor_eq_columnMajor hKeep hComm hs]

end Commuting

end Rindexer.Lib
