import Rindexer.Extraction.Values
import Rindexer.Filter.RoundTrip

/-! Field paths as a name and accessors: what columns read at the text of a path, step by step. -/

namespace Rindexer.Extraction

open Rindexer.Lib
open Rindexer.Filter hiding parseUsize
open Rindexer.Factory (Param)
open Rindexer.Tables (parseUsize)

/-- The text of a path without its sign. -/
def pathText (base : List Char) (accessors : List Accessor) : List Char :=
  base ++ accessors.flatMap Accessor.text

/-- The names and accessors that conditions can read. -/
structure IsPath (base : List Char) (accessors : List Accessor) : Prop where
  base : IsName base
  keys : ∀ k, Accessor.key k ∈ accessors → IsName k

/-! ### The steps of columns -/

/-- An accessor behind the first index. -/
def accessorStep (current : Located) : Accessor → Option Located
  | .index i => indexValue current i.val
  | .key k => nameValue current k

/-- Keys in front of the first index are names of components; the rest is read one by one. -/
def columnWalk : Located → List Accessor → Option Located
  | current, .key k :: rest => (descend current k).bind fun next => columnWalk next rest
  | current, rest => rest.foldlM accessorStep current

/-! ### Scanning the text -/

theorem name_plain {name : List Char} (h : IsName name) :
    ∀ c ∈ name, c ≠ '[' ∧ c ≠ ']' ∧ c ≠ '.' := by
  have hIdent : ∀ c, isIdentChar c = true → c ≠ '[' ∧ c ≠ ']' ∧ c ≠ '.' := by
    intro c hc
    refine ⟨?_, ?_, ?_⟩ <;> (rintro rfl; exact absurd hc (by decide))
  intro c hc
  rcases h with ⟨d, ds, rfl, hStart, hRest⟩ | ⟨-, hDigits⟩
  · rcases List.mem_cons.mp hc with rfl | hc
    · refine hIdent c ?_
      simp only [isIdentStart, isIdentChar, Char.isAlphanum, Bool.or_eq_true] at hStart ⊢
      exact hStart.imp_left Or.inl
    · exact hIdent c (hRest c hc)
  · exact hIdent c (identChar_of_digit (hDigits c hc))

theorem name_ne_nil {name : List Char} (h : IsName name) : name ≠ [] := by
  rcases h with ⟨d, ds, rfl, -⟩ | ⟨hNonempty, -⟩
  · simp
  · exact hNonempty

namespace PathScan

theorem foldl_plain {name : List Char} (h : ∀ c ∈ name, c ≠ '[' ∧ c ≠ ']' ∧ c ≠ '.')
    (segments : List (List Char)) (current : List Char) :
    name.foldl step ⟨segments, current, false⟩ = ⟨segments, current ++ name, false⟩ := by
  induction name generalizing current with
  | nil => simp
  | cons c name ih =>
    obtain ⟨hOpen, -, hDot⟩ := h c List.mem_cons_self
    rw [List.foldl_cons, step, if_neg (by simp), if_neg hOpen, if_neg (by simp [hDot]),
      ih fun d hd => h d (List.mem_cons_of_mem _ hd), List.append_assoc, List.singleton_append]

theorem foldl_index {digits : List Char} (h : ∀ c ∈ digits, c ≠ ']') (segments : List (List Char))
    (current : List Char) :
    (digits ++ [']']).foldl step ⟨segments, current, true⟩ =
      ⟨segments ++ [current ++ digits ++ [']']], [], false⟩ := by
  induction digits generalizing current with
  | nil => simp [step]
  | cons c digits ih =>
    rw [List.cons_append, List.foldl_cons, step, if_pos rfl, if_neg (h c List.mem_cons_self),
      ih fun d hd => h d (List.mem_cons_of_mem _ hd)]
    simp

end PathScan

/-- The segment of an accessor behind the first index. -/
def segmentText : Accessor → List Char
  | .index i => Accessor.text (.index i)
  | .key k => k

theorem digits_not_bracket {n : Nat} : ∀ c ∈ Nat.toDigits 10 n, c ≠ ']' := by
  rintro c hc rfl
  exact absurd (Nat.isDigit_of_mem_toDigits (by decide) (by decide) hc) (by decide)

theorem PathScan.foldl_index_text (i : Fin (2 ^ 64)) (scan : PathScan) (h : scan.inIndex = false) :
    (Accessor.text (.index i)).foldl PathScan.step scan =
      ⟨scan.close.segments ++ [Accessor.text (.index i)], [], false⟩ := by
  rw [Accessor.text, List.foldl_cons, PathScan.step, h, if_neg (by simp), if_pos rfl,
    PathScan.foldl_index digits_not_bracket]
  rfl

/-- Behind an index each accessor is a segment. -/
theorem segments_behind_index {accessors : List Accessor}
    (h : ∀ k, Accessor.key k ∈ accessors → IsName k) {segments : List (List Char)}
    {current : List Char} (hIndex : ∃ s ∈ segments, s.head? = some '[') :
    ((accessors.flatMap Accessor.text).foldl PathScan.step ⟨segments, current, false⟩).close.segments =
      (PathScan.mk segments current false).close.segments ++ accessors.map segmentText := by
  induction accessors generalizing segments current with
  | nil => simp
  | cons a accessors ih =>
    have hRest : ∀ k, Accessor.key k ∈ accessors → IsName k := fun k hk =>
      h k (List.mem_cons_of_mem _ hk)
    have hClosed : ∃ s ∈ (PathScan.mk segments current false).close.segments, s.head? = some '[' := by
      obtain ⟨s, hs, hHead⟩ := hIndex
      refine ⟨s, ?_, hHead⟩
      unfold PathScan.close
      split
      · exact hs
      · exact List.mem_append_left _ hs
    rw [List.flatMap_cons, List.foldl_append]
    cases a with
    | index i =>
      rw [PathScan.foldl_index_text _ _ rfl, ih hRest]
      · simp [PathScan.close, segmentText]
      · obtain ⟨s, hs, hHead⟩ := hClosed
        exact ⟨s, List.mem_append_left _ hs, hHead⟩
    | key k =>
      have hName := h k List.mem_cons_self
      have hDot : PathScan.step ⟨segments, current, false⟩ '.' =
          ⟨(PathScan.mk segments current false).close.segments, [], false⟩ := by
        rw [PathScan.step, if_neg (by simp), if_neg (by decide), if_pos ⟨rfl, hIndex⟩]
        unfold PathScan.close
        split
        · next hNil => simp_all
        · rfl
      rw [Accessor.text, List.foldl_cons, hDot, PathScan.foldl_plain (name_plain hName), ih hRest hClosed,
        List.nil_append]
      generalize (PathScan.mk segments current false).close.segments = closed
      simp [PathScan.close, name_ne_nil hName, segmentText]

/-! ### Keys in front of the first index -/

def leadingKeys : List Accessor → List (List Char)
  | .key k :: rest => k :: leadingKeys rest
  | _ => []

def behindKeys : List Accessor → List Accessor
  | .key _ :: rest => behindKeys rest
  | rest => rest

theorem mem_leadingKeys {accessors : List Accessor} {k : List Char} (h : k ∈ leadingKeys accessors) :
    Accessor.key k ∈ accessors := by
  induction accessors with
  | nil => cases h
  | cons a accessors ih =>
    cases a with
    | index i => cases h
    | key k' =>
      rcases List.mem_cons.mp h with rfl | h
      · exact List.mem_cons_self
      · exact List.mem_cons_of_mem _ (ih h)

theorem mem_behindKeys {accessors : List Accessor} {a : Accessor} (h : a ∈ behindKeys accessors) :
    a ∈ accessors := by
  induction accessors with
  | nil => cases h
  | cons b accessors ih =>
    cases b with
    | index i => exact h
    | key k => exact List.mem_cons_of_mem _ (ih h)

theorem columnWalk_eq (accessors : List Accessor) (current : Located) :
    columnWalk current accessors = ((leadingKeys accessors).foldlM descend current).bind
      fun next => (behindKeys accessors).foldlM accessorStep next := by
  induction accessors generalizing current with
  | nil => rfl
  | cons a accessors ih =>
    cases a with
    | index i => rfl
    | key k =>
      rw [columnWalk, leadingKeys, behindKeys, List.foldlM_cons]
      show _ = ((descend current k).bind _).bind _
      rw [Option.bind_assoc]
      exact congrArg _ (funext fun next => ih next)

theorem segments_of_leading {accessors : List Accessor}
    (h : ∀ k, Accessor.key k ∈ accessors → IsName k) {current : List Char} (hCurrent : current ≠ []) :
    ((accessors.flatMap Accessor.text).foldl PathScan.step ⟨[], current, false⟩).close.segments =
      (current ++ (leadingKeys accessors).flatMap ('.' :: ·)) ::
        (behindKeys accessors).map segmentText := by
  induction accessors generalizing current with
  | nil => simp [PathScan.close, hCurrent, leadingKeys, behindKeys]
  | cons a accessors ih =>
    have hRest : ∀ k, Accessor.key k ∈ accessors → IsName k := fun k hk =>
      h k (List.mem_cons_of_mem _ hk)
    rw [List.flatMap_cons, List.foldl_append]
    cases a with
    | index i =>
      rw [PathScan.foldl_index_text _ _ rfl, segments_behind_index hRest
        ⟨Accessor.text (.index i), by simp, rfl⟩]
      simp [PathScan.close, hCurrent, leadingKeys, behindKeys, segmentText]
    | key k =>
      have hDot : PathScan.step ⟨[], current, false⟩ '.' = ⟨[], current ++ ['.'], false⟩ := by
        rw [PathScan.step, if_neg (by simp), if_neg (by decide), if_neg (by simp)]
      rw [Accessor.text, List.foldl_cons, hDot,
        PathScan.foldl_plain (name_plain (h k List.mem_cons_self)), ih hRest (by simp)]
      simp [leadingKeys, behindKeys]

theorem parsePathSegments_pathText {base : List Char} {accessors : List Accessor}
    (h : IsPath base accessors) : parsePathSegments (pathText base accessors) =
      (base ++ (leadingKeys accessors).flatMap ('.' :: ·)) ::
        (behindKeys accessors).map segmentText := by
  rw [parsePathSegments, pathText, List.foldl_append, PathScan.foldl_plain (name_plain h.base),
    List.nil_append, segments_of_leading h.keys (name_ne_nil h.base)]

theorem dotted_eq_intercalate (base : List Char) (keys : List (List Char)) :
    base ++ keys.flatMap ('.' :: ·) = ['.'].intercalate (base :: keys) := by
  induction keys generalizing base with
  | nil => simp [List.intercalate]
  | cons k keys ih =>
    rw [List.flatMap_cons, List.cons_append, ih, List.intercalate, List.intercalate,
      List.intersperse_cons_cons]
    simp

theorem parseUsize_digits (i : Fin (2 ^ 64)) : parseUsize (Nat.toDigits 10 i.val) = some i.val := by
  have hDigits : ∀ c ∈ Nat.toDigits 10 i.val, c.isDigit = true := fun c hc =>
    Nat.isDigit_of_mem_toDigits (by decide) (by decide) hc
  have hHead : (Nat.toDigits 10 i.val).head? ≠ some '+' := by
    intro hPlus
    exact absurd (hDigits '+' (List.mem_of_mem_head? hPlus)) (by decide)
  simp only [parseUsize, if_neg hHead, Nat.ofDigitChars_ten_toDigits]
  rw [if_pos ⟨Nat.toDigits_ne_nil, List.all_eq_true.mpr hDigits, i.isLt⟩]

theorem applySegment_segmentText (current : Located) {a : Accessor}
    (h : ∀ k, a = .key k → IsName k) : applySegment current (segmentText a) = accessorStep current a := by
  cases a with
  | index i =>
    have hLast : ('[' :: (Nat.toDigits 10 i.val ++ [']'])).getLast? = some ']' := by
      rw [← List.cons_append, List.getLast?_concat]
    rw [segmentText, Accessor.text, applySegment, if_pos ⟨rfl, hLast⟩]
    simp [parseUsize_digits, accessorStep]
  | key k =>
    rw [segmentText, applySegment, if_neg, accessorStep]
    rintro ⟨hHead, -⟩
    exact (name_plain (h k rfl) _ (List.mem_of_mem_head? hHead)).1 rfl

/-- What columns read at a path: a walk from the first parameter of the name. -/
theorem resolveFieldPath_pathText {base : List Char} {accessors : List Accessor}
    (h : IsPath base accessors) (logParams : List LogParam) :
    resolveFieldPath (pathText base accessors) logParams =
      (findParam base logParams).bind fun p =>
        (columnWalk (p.value, p.components) accessors).map Prod.fst := by
  have hHead : (base ++ (leadingKeys accessors).flatMap ('.' :: ·)).head? ≠ some '[' := by
    rw [List.head?_append_of_ne_nil _ (name_ne_nil h.base)]
    intro hOpen
    exact (name_plain h.base _ (List.mem_of_mem_head? hOpen)).1 rfl
  have hSplit : (base ++ (leadingKeys accessors).flatMap ('.' :: ·)).splitOn '.' =
      base :: leadingKeys accessors := by
    rw [dotted_eq_intercalate, List.splitOn_intercalate _ _ (by simp)]
    intro l hl hDot
    rcases List.mem_cons.mp hl with rfl | hl
    · exact (name_plain h.base _ hDot).2.2 rfl
    · exact (name_plain (h.keys l (mem_leadingKeys hl)) _ hDot).2.2 rfl
  have hSteps : ∀ current, ((behindKeys accessors).map segmentText).foldlM applySegment current =
      (behindKeys accessors).foldlM accessorStep current := by
    intro current
    rw [List.foldlM_map]
    have hKeys : ∀ a ∈ behindKeys accessors, ∀ k, a = .key k → IsName k := fun a ha k hk =>
      h.keys k (hk ▸ mem_behindKeys ha)
    generalize behindKeys accessors = rest at hKeys
    induction rest generalizing current with
    | nil => rfl
    | cons a rest ih =>
      rw [List.foldlM_cons, List.foldlM_cons, applySegment_segmentText current (hKeys a List.mem_cons_self)]
      exact congrArg _ (funext fun next => ih next fun b hb => hKeys b (List.mem_cons_of_mem _ hb))
  rw [resolveFieldPath, parsePathSegments_pathText h]
  simp only [if_neg hHead, rootValue, hSplit, hSteps]
  cases hParam : findParam base logParams with
  | none => rfl
  | some p =>
    simp only [Option.bind_eq_bind, Option.bind_some, columnWalk_eq]
    cases (leadingKeys accessors).foldlM descend (p.value, p.components) with
    | none => rfl
    | some next =>
      simp only [Option.bind_some]
      cases (behindKeys accessors).foldlM accessorStep next with
      | none => rfl
      | some last => rfl

end Rindexer.Extraction
