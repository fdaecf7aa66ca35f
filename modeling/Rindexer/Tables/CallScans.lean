import Rindexer.Tables.CallText

/-! What slices and the scanners of parentheses give on texts that are put together. -/

namespace Rindexer.Tables

open Rindexer.Lib Rindexer.Database Rindexer.Filter

section Panics

variable {α β : Type}

@[simp] theorem ok_bind (a : α) (f : α → Except Panic β) : (Except.ok a >>= f) = f a := rfl

@[simp] theorem error_bind (p : Panic) (f : α → Except Panic β) :
    ((Except.error p : Except Panic α) >>= f) = .error p := rfl

@[simp] theorem pure_eq_ok (a : α) : (pure a : Except Panic α) = .ok a := rfl

end Panics

/-! ### Slices -/

def IsAscii (s : List Char) : Prop := ∀ c ∈ s, c.toNat < 128

theorem utf8Size_eq_one_iff {c : Char} : c.utf8Size = 1 ↔ c.toNat < 128 := by
  rw [Char.utf8Size_eq_one_iff, UInt32.le_iff_toNat_le]
  exact Nat.lt_succ_iff.symm

theorem utf8Len_of_isAscii {s : List Char} (h : IsAscii s) : utf8Len s = s.length :=
  utf8Len_eq_length fun c hc => utf8Size_eq_one_iff.mpr (h c hc)

theorem isAscii_of_utf8Len_le {s : List Char} (h : utf8Len s ≤ s.length) : IsAscii s := by
  induction s with
  | nil => exact fun c hc => nomatch hc
  | cons c s ih =>
    have hRest := length_le_utf8Len s
    have hFirst := c.utf8Size_pos
    rw [utf8Len_cons, List.length_cons] at h
    intro d hd
    rcases List.mem_cons.mp hd with rfl | hd
    · exact utf8Size_eq_one_iff.mp (by omega)
    · exact ih (by omega) d hd

theorem sliceFrom_cons {c : Char} {s : List Char} {n : Nat} :
    sliceFrom (c :: s) (c.utf8Size + n) = sliceFrom s n := by
  have hPos := c.utf8Size_pos
  obtain ⟨k, hk⟩ : ∃ k, c.utf8Size + n = k + 1 := ⟨c.utf8Size + n - 1, by omega⟩
  rw [hk, sliceFrom, if_pos (by omega), show k + 1 - c.utf8Size = n by omega]

theorem sliceTo_cons {c : Char} {s : List Char} {n : Nat} :
    sliceTo (c :: s) (c.utf8Size + n) = (sliceTo s n).map (c :: ·) := by
  have hPos := c.utf8Size_pos
  obtain ⟨k, hk⟩ : ∃ k, c.utf8Size + n = k + 1 := ⟨c.utf8Size + n - 1, by omega⟩
  rw [hk, sliceTo, if_pos (by omega), show k + 1 - c.utf8Size = n by omega]

theorem sliceFrom_append (s t : List Char) : sliceFrom (s ++ t) (utf8Len s) = .ok t := by
  induction s with
  | nil => cases t <;> rfl
  | cons c s ih => rw [List.cons_append, utf8Len_cons, sliceFrom_cons, ih]

theorem sliceTo_append (s t : List Char) : sliceTo (s ++ t) (utf8Len s) = .ok s := by
  induction s with
  | nil => cases t <;> rfl
  | cons c s ih =>
    rw [List.cons_append, utf8Len_cons, sliceTo_cons, ih]
    rfl

theorem slice_append (s t u : List Char) :
    slice (s ++ t ++ u) (utf8Len s) (utf8Len (s ++ t)) = .ok t := by
  rw [slice, sliceTo_append]
  exact sliceFrom_append s t

/-- A slice that does not panic is what follows a part of that many bytes. -/
theorem eq_append_of_sliceFrom {s t : List Char} {n : Nat} (h : sliceFrom s n = .ok t) :
    ∃ u, s = u ++ t ∧ utf8Len u = n := by
  induction s generalizing n with
  | nil =>
    cases n with
    | zero =>
      cases h
      exact ⟨[], rfl, rfl⟩
    | succ n => cases h
  | cons c s ih =>
    cases n with
    | zero =>
      cases h
      exact ⟨[], rfl, rfl⟩
    | succ n =>
      rw [sliceFrom] at h
      split at h
      · next hSize =>
        obtain ⟨u, rfl, hu⟩ := ih h
        refine ⟨c :: u, rfl, ?_⟩
        rw [utf8Len_cons, hu]
        omega
      · cases h

theorem findText_append {needle s t : List Char}
    (h : ∀ u v, s = u ++ v → v ≠ [] → ¬needle <+: v ++ t) :
    findText needle (s ++ t) = (findText needle t).map (· + utf8Len s) := by
  induction s with
  | nil => simp
  | cons c s ih =>
    have hFirst : needle.isPrefixOf (c :: (s ++ t)) = false := by
      rw [Bool.eq_false_iff, Ne, List.isPrefixOf_iff_prefix]
      exact h [] (c :: s) rfl (List.cons_ne_nil _ _)
    rw [List.cons_append, findText, hFirst, if_neg Bool.false_ne_true,
      ih fun u v hs hv => h (c :: u) v (by rw [hs, List.cons_append]) hv, Option.map_map]
    congr 1
    funext n
    simp only [Function.comp, utf8Len_cons]
    omega

theorem findText_cases {needle s : List Char} {n : Nat} (h : findText needle s = some n) :
    ∃ u v, s = u ++ needle ++ v ∧ utf8Len u = n := by
  induction s generalizing n with
  | nil =>
    rw [findText] at h
    split at h
    · next hNil =>
      cases h
      exact ⟨[], [], by rw [hNil]; rfl, rfl⟩
    · cases h
  | cons c s ih =>
    rw [findText] at h
    split at h
    · next hHere =>
      cases h
      obtain ⟨v, hv⟩ := List.isPrefixOf_iff_prefix.mp hHere
      exact ⟨[], v, hv.symm, rfl⟩
    · obtain ⟨m, hm, rfl⟩ := Option.map_eq_some_iff.mp h
      obtain ⟨u, v, rfl, rfl⟩ := ih hm
      exact ⟨c :: u, v, rfl, by rw [utf8Len_cons, Nat.add_comm]⟩

/-- A text that starts a joined one is within its first part or goes on in the second. -/
theorem isPrefix_append_cases {n s t : List Char} (h : n <+: s ++ t) :
    n <+: s ∨ ∃ u, n = s ++ u ∧ u ≠ [] ∧ u <+: t := by
  obtain ⟨r, hr⟩ := h
  obtain ⟨u, rfl, hu⟩ | ⟨u, rfl, hu⟩ := List.append_eq_append_iff.mp hr
  · exact .inl ⟨u, rfl⟩
  · by_cases hNil : u = []
    · subst hNil
      exact .inl ⟨[], by simp⟩
    · exact .inr ⟨u, rfl, hNil, r, hu.symm⟩

/-! ### Trimming -/

theorem countP_dropWhile {p : Char → Bool} (s : List Char) :
    (s.dropWhile p).countP (! p ·) = s.countP (! p ·) := by
  induction s with
  | nil => rfl
  | cons c s ih =>
    rw [List.dropWhile_cons, List.countP_cons]
    split
    · next h => simp [ih, h]
    · next h => simp [h]

theorem countP_trim (s : List Char) :
    (trim s).countP (! isWhiteSpace ·) = s.countP (! isWhiteSpace ·) := by
  rw [trim, List.countP_reverse, countP_dropWhile, List.countP_reverse, countP_dropWhile]

/-- A character that is no whitespace survives. -/
theorem mem_trim {c : Char} {s : List Char} (hc : isWhiteSpace c = false) : c ∈ trim s ↔ c ∈ s := by
  have hDrop : ∀ t : List Char, c ∈ t.dropWhile isWhiteSpace ↔ c ∈ t := by
    intro t
    induction t with
    | nil => rfl
    | cons d t ih =>
      rw [List.dropWhile_cons]
      split
      · next hd =>
        rw [ih, List.mem_cons]
        exact ⟨.inr, fun h => h.resolve_left fun hEq => by rw [hEq, hd] at hc; cases hc⟩
      · rfl
  rw [trim, List.mem_reverse, hDrop, List.mem_reverse, hDrop]

theorem trim_space (s : List Char) : trim (' ' :: s) = trim s := rfl

theorem trim_of_ends {c d : Char} {s : List Char} (hc : isWhiteSpace c = false)
    (hd : isWhiteSpace d = false) (hHead : s.head? = some c) (hLast : s.getLast? = some d) :
    trim s = s := by
  cases s with
  | nil => cases hHead
  | cons a s =>
    cases hHead
    rw [trim, List.dropWhile_cons, if_neg (by rw [hc]; exact Bool.false_ne_true)]
    rw [← List.head?_reverse] at hLast
    cases hRev : (c :: s).reverse with
    | nil => rw [hRev] at hLast; cases hLast
    | cons b r =>
      rw [hRev] at hLast
      cases hLast
      rw [List.dropWhile_cons, if_neg (by rw [hd]; exact Bool.false_ne_true), ← hRev,
        List.reverse_reverse]

/-! ### Pieces -/

/-- The parts and the current one are the pieces. -/
theorem splitLoop_eq {σ : Type} [DecidableEq σ] (sp : Splitter Char σ) (parts : List (List Char))
    (current : List Char) (q : σ) (s : List Char) :
    (splitLoop sp parts current q s).1 ++ [(splitLoop sp parts current q s).2] =
      parts ++ (current ++ (sp.split q s).1) :: (sp.split q s).2 := by
  induction s generalizing parts current q with
  | nil => simp [splitLoop, Splitter.split]
  | cons c s ih =>
    rw [splitLoop, Splitter.split]
    split
    · rw [ih]
      simp
    · rw [ih]
      simp

theorem splitLoop_pieces {σ : Type} [DecidableEq σ] (sp : Splitter Char σ) (s : List Char) :
    (splitLoop sp [] [] sp.home s).1 ++ [(splitLoop sp [] [] sp.home s).2] =
      sp.pieces sp.home s :=
  splitLoop_eq sp [] [] sp.home s

/-- A trimmed part is read otherwise once a comma is in it or is not. -/
theorem settled_trim {σ : Type} (sp : Splitter Char σ) (hComma : sp.separator = ',') (p : List Char) :
    (⟨p, trim⟩ : Splitter.Part Char (List Char)).Settled sp ' ' := by
  refine ⟨trim_space, .inr ⟨fun t hRead => ?_, fun t u hText hRead => ?_⟩⟩
  · have hCount := congrArg (List.countP (! isWhiteSpace ·)) hRead
    rw [countP_trim, countP_trim, List.countP_append, List.countP_cons, hComma,
      if_pos (show (! isWhiteSpace ',') = true from rfl)] at hCount
    omega
  · have hCount := congrArg (List.countP (! isWhiteSpace ·)) hRead
    rw [countP_trim, countP_trim, hText, List.countP_append, List.countP_cons, hComma,
      if_pos (show (! isWhiteSpace ',') = true from rfl)] at hCount
    omega

theorem parenSplitter_steady : Splitter.Steady parenSplitter ' ' := ⟨rfl, rfl, by decide⟩

theorem argSplitter_steady : Splitter.Steady argSplitter ' ' := ⟨rfl, rfl, by decide⟩

/-! ### Parentheses -/

/-- How much deeper a text ends. -/
def depth (s : List Char) : Int := parenSplitter.run 0 s

/-- The text never ends the group it is in, and ends no other than it starts. -/
def Balanced (s : List Char) : Prop := (∀ u, u <+: s → 0 ≤ depth u) ∧ depth s = 0

theorem run_parenSplitter (d : Int) (s : List Char) : parenSplitter.run d s = d + depth s := by
  induction s generalizing d with
  | nil => exact (Int.add_zero d).symm
  | cons c s ih =>
    rw [Splitter.run_cons, ih, show depth (c :: s) = parenSplitter.run (parenSplitter.step 0 c) s from rfl,
      ih (parenSplitter.step 0 c)]
    simp only [parenSplitter, parenStep]
    split <;> [skip; split] <;> omega

@[simp] theorem depth_nil : depth [] = 0 := rfl

@[simp] theorem depth_append (s t : List Char) : depth (s ++ t) = depth s + depth t := by
  rw [depth, Splitter.run_append, run_parenSplitter]
  rfl

theorem depth_cons (c : Char) (s : List Char) : depth (c :: s) = depth [c] + depth s :=
  depth_append [c] s

@[simp] theorem depth_open : depth ['('] = 1 := rfl

@[simp] theorem depth_close : depth [')'] = -1 := rfl

theorem depth_of_no_paren {s : List Char} (h : ∀ c ∈ s, c ≠ '(' ∧ c ≠ ')') : depth s = 0 := by
  induction s with
  | nil => rfl
  | cons c s ih =>
    obtain ⟨hOpen, hClose⟩ := h c List.mem_cons_self
    rw [depth_cons, ih fun d hd => h d (List.mem_cons_of_mem _ hd)]
    simp [depth, parenSplitter, parenStep, hOpen, hClose]

theorem balanced_nil : Balanced [] :=
  ⟨fun u hu => by rw [List.prefix_nil.mp hu]; exact Int.le_refl 0, rfl⟩

theorem balanced_append {s t : List Char} (h : depth s = 0) :
    Balanced (s ++ t) ↔ Balanced s ∧ Balanced t := by
  constructor
  · rintro ⟨hPre, hEnd⟩
    rw [depth_append, h, Int.zero_add] at hEnd
    refine ⟨⟨fun u hu => hPre u (hu.trans (List.prefix_append s t)), h⟩, fun u hu => ?_, hEnd⟩
    have hLonger := hPre (s ++ u) ((List.prefix_append_right_inj s).mpr hu)
    rwa [depth_append, h, Int.zero_add] at hLonger
  · rintro ⟨⟨hFirst, -⟩, hSecond, hEnd⟩
    refine ⟨fun u hu => ?_, by rw [depth_append, h, hEnd]; rfl⟩
    rcases isPrefix_append_cases hu with hu | ⟨v, rfl, -, hv⟩
    · exact hFirst u hu
    · rw [depth_append, h, Int.zero_add]
      exact hSecond v hv

theorem balanced_of_no_paren {s : List Char} (h : ∀ c ∈ s, c ≠ '(' ∧ c ≠ ')') : Balanced s :=
  ⟨fun _ hu => (depth_of_no_paren fun c hc => h c (hu.subset hc)).ge, depth_of_no_paren h⟩

theorem balanced_parens {s : List Char} (h : Balanced s) : Balanced ('(' :: s ++ [')']) := by
  obtain ⟨hPre, hEnd⟩ := h
  refine ⟨fun u hu => ?_, ?_⟩
  · rcases isPrefix_append_cases hu with hu | ⟨v, rfl, -, hv⟩
    · cases u with
      | nil => exact Int.le_refl 0
      | cons c u =>
        obtain ⟨rfl, hRest⟩ := List.cons_prefix_cons.mp hu
        have := hPre u hRest
        rw [depth_cons, depth_open]
        omega
    · obtain rfl | rfl : v = [] ∨ v = [')'] := by
        rcases List.prefix_cons_iff.mp hv with rfl | ⟨w, rfl, hw⟩
        · exact .inl rfl
        · rw [List.prefix_nil.mp hw]
          exact .inr rfl
      · rw [List.append_nil, depth_cons, hEnd]
        decide
      · rw [depth_append, depth_cons, hEnd]
        decide
  · rw [depth_append, depth_cons, hEnd]
    decide

/-- The width of a text. -/
def widthOf (width : Char → Nat) (s : List Char) : Nat := (s.map width).sum

theorem widthOf_one (s : List Char) : widthOf (fun _ => 1) s = s.length := by
  simp [widthOf]

theorem closingParen_append {width : Char → Nat} {i : Nat} {d : Int} {s t : List Char}
    (hPre : ∀ u, u <+: s → 0 < d + depth u) (hEnd : d + depth s = 1) :
    closingParen width i d (s ++ ')' :: t) = some (i + widthOf width s) := by
  induction s generalizing i d with
  | nil =>
    rw [depth_nil] at hEnd
    rw [List.nil_append, closingParen, if_neg (by decide), if_pos rfl, if_pos (by omega)]
    rfl
  | cons c s ih =>
    have hNext : ∀ e : Int, d + depth [c] = e →
        closingParen width (i + width c) e (s ++ ')' :: t) = some (i + widthOf width (c :: s)) := by
      intro e he
      rw [ih]
      · simp only [widthOf, List.map_cons, List.sum_cons]
        congr 1
        omega
      · intro u hu
        have := hPre (c :: u) (List.cons_prefix_cons.mpr ⟨rfl, hu⟩)
        rw [depth_cons] at this
        omega
      · rw [depth_cons] at hEnd
        omega
    have hFirst := hPre [c] (List.cons_prefix_cons.mpr ⟨rfl, List.nil_prefix⟩)
    rw [List.cons_append, closingParen]
    split
    · next hc => exact hNext _ (by rw [hc, depth_open])
    · split
      · next hc =>
        rw [hc, depth_close] at hFirst
        rw [if_neg (by omega)]
        exact hNext _ (by rw [hc, depth_close]; omega)
      · next hOpen hClose => exact hNext _ (by simp [depth, parenSplitter, parenStep, hOpen, hClose])

/-- What is before the closing parenthesis that is found. -/
theorem closingParen_cases {width : Char → Nat} {i j : Nat} {d : Int} {s : List Char} (hd : 0 < d)
    (h : closingParen width i d s = some j) :
    ∃ u v, s = u ++ ')' :: v ∧ j = i + widthOf width u ∧ (∀ w, w <+: u → 0 < d + depth w) ∧
      d + depth u = 1 := by
  induction s generalizing i d with
  | nil => cases h
  | cons c s ih =>
    have hGoesOn : ∀ e : Int, 0 < e → d + depth [c] = e →
        closingParen width (i + width c) e s = some j →
        ∃ u v, c :: s = u ++ ')' :: v ∧ j = i + widthOf width u ∧
          (∀ w, w <+: u → 0 < d + depth w) ∧ d + depth u = 1 := by
      intro e hPos he hNext
      obtain ⟨u, v, rfl, rfl, hPre, hEnd⟩ := ih hPos hNext
      refine ⟨c :: u, v, rfl, ?_, fun w hw => ?_, ?_⟩
      · simp only [widthOf, List.map_cons, List.sum_cons]
        omega
      · cases w with
        | nil => rw [depth_nil]; omega
        | cons b w =>
          obtain ⟨rfl, hRest⟩ := List.cons_prefix_cons.mp hw
          have := hPre w hRest
          rw [depth_cons]
          omega
      · rw [depth_cons]
        omega
    rw [closingParen] at h
    split at h
    · next hc => exact hGoesOn _ (by omega) (by rw [hc, depth_open]) h
    · split at h
      · next hc =>
        split at h
        · cases h
          refine ⟨[], s, by rw [hc]; rfl, rfl, fun w hw => ?_, by rw [depth_nil]; omega⟩
          rw [List.prefix_nil.mp hw, depth_nil]
          omega
        · exact hGoesOn _ (by omega) (by rw [hc, depth_close]; omega) h
      · next hOpen hClose =>
        exact hGoesOn _ hd (by simp [depth, parenSplitter, parenStep, hOpen, hClose]) h

theorem closingParen_of_balanced {width : Char → Nat} {i : Nat} {s : List Char} (h : Balanced s)
    (t : List Char) : closingParen width i 1 (s ++ ')' :: t) = some (i + widthOf width s) :=
  closingParen_append (fun u hu => by have := h.1 u hu; omega) (by rw [h.2]; rfl)

theorem balanced_of_closing {s : List Char} (hPre : ∀ u, u <+: s → 0 < 1 + depth u)
    (hEnd : 1 + depth s = 1) : Balanced s :=
  ⟨fun u hu => by have := hPre u hu; omega, by omega⟩

theorem utf8Len_eq_zero {s : List Char} (h : utf8Len s = 0) : s = [] := by
  have := length_le_utf8Len s
  exact List.length_eq_zero_iff.mp (by omega)

/-- Of two texts that start one, that with as many bytes is the same. -/
theorem eq_of_append_of_utf8Len {s t u v : List Char} (h : s ++ u = t ++ v)
    (hLen : utf8Len s = utf8Len t) : s = t := by
  obtain ⟨w, rfl, -⟩ | ⟨w, rfl, -⟩ := List.append_eq_append_iff.mp h
  · rw [utf8Len_append] at hLen
    rw [utf8Len_eq_zero (by omega : utf8Len w = 0), List.append_nil]
  · rw [utf8Len_append] at hLen
    rw [utf8Len_eq_zero (by omega : utf8Len w = 0), List.append_nil]

end Rindexer.Tables
