import Mathlib.Data.List.Forall2
import Mathlib.Tactic.Common
import Mathlib.Tactic.NormNum

/-! Texts cut at a separator wherever a scanner is at home.  Parts that are joined again read back
exactly if no part is cut and the scanner is home behind each of them. -/

namespace Rindexer.Lib

structure Splitter (α σ : Type) where
  step : σ → α → σ
  home : σ
  separator : α

namespace Splitter

variable {α σ : Type} (sp : Splitter α σ)

def run (q : σ) (s : List α) : σ := s.foldl sp.step q

@[simp] theorem run_nil (q : σ) : sp.run q [] = q := rfl

@[simp] theorem run_cons (q : σ) (c : α) (s : List α) : sp.run q (c :: s) = sp.run (sp.step q c) s :=
  rfl

@[simp] theorem run_append (q : σ) (s t : List α) : sp.run q (s ++ t) = sp.run (sp.run q s) t :=
  List.foldl_append

variable [DecidableEq α] [DecidableEq σ]

/-- The pieces of a text, the first and the others. -/
def split (q : σ) : List α → List α × List (List α)
  | [] => ([], [])
  | c :: s =>
    if c = sp.separator ∧ q = sp.home then ([], (split (sp.step q c) s).1 :: (split (sp.step q c) s).2)
    else (c :: (split (sp.step q c) s).1, (split (sp.step q c) s).2)

def pieces (q : σ) (s : List α) : List (List α) := (sp.split q s).1 :: (sp.split q s).2

/-- No separator of the text is met at home. -/
def Uncut (q : σ) : List α → Prop
  | [] => True
  | c :: s => ¬(c = sp.separator ∧ q = sp.home) ∧ Uncut (sp.step q c) s

instance decidableUncut : (q : σ) → (s : List α) → Decidable (sp.Uncut q s)
  | _, [] => isTrue trivial
  | q, c :: s =>
    have := decidableUncut (sp.step q c) s
    inferInstanceAs (Decidable (_ ∧ _))

omit [DecidableEq α] [DecidableEq σ] in
theorem uncut_append {q : σ} {s t : List α} :
    sp.Uncut q (s ++ t) ↔ sp.Uncut q s ∧ sp.Uncut (sp.run q s) t := by
  induction s generalizing q with
  | nil => simp [Uncut]
  | cons c s ih =>
    simp only [List.cons_append, Uncut, run_cons, ih, and_assoc]

theorem split_append {q : σ} {s t : List α} (h : sp.Uncut q s) :
    sp.split q (s ++ t) = (s ++ (sp.split (sp.run q s) t).1, (sp.split (sp.run q s) t).2) := by
  induction s generalizing q with
  | nil => rfl
  | cons c s ih =>
    rw [List.cons_append, split, if_neg h.1, ih h.2]
    rfl

theorem pieces_of_uncut {q : σ} {s : List α} (h : sp.Uncut q s) : sp.pieces q s = [s] := by
  have hSplit := sp.split_append (t := []) h
  rw [List.append_nil] at hSplit
  simp only [pieces, hSplit, split, List.append_nil]

theorem pieces_separator {q : σ} {s t : List α} (h : sp.Uncut q s) (hHome : sp.run q s = sp.home) :
    sp.pieces q (s ++ sp.separator :: t) =
      s :: sp.pieces (sp.step sp.home sp.separator) t := by
  simp only [pieces, sp.split_append h, hHome, split, and_self, if_true, List.append_nil]

/-- What the first piece of a text is. -/
theorem pieces_cases {q : σ} {s t : List α} {ts : List (List α)} (h : sp.pieces q s = t :: ts) :
    sp.Uncut q t ∧ ((s = t ∧ ts = []) ∨
      ∃ r, s = t ++ sp.separator :: r ∧ sp.run q t = sp.home ∧
        ts = sp.pieces (sp.step sp.home sp.separator) r) := by
  induction s generalizing q t with
  | nil =>
    cases h
    exact ⟨trivial, .inl ⟨rfl, rfl⟩⟩
  | cons c s ih =>
    by_cases hCut : c = sp.separator ∧ q = sp.home
    · obtain ⟨rfl, rfl⟩ := hCut
      rw [pieces, split, if_pos ⟨rfl, rfl⟩] at h
      cases h
      exact ⟨trivial, .inr ⟨s, rfl, rfl, rfl⟩⟩
    · rw [pieces, split, if_neg hCut] at h
      cases h
      obtain ⟨hUncut, hRest⟩ := ih rfl
      refine ⟨⟨hCut, hUncut⟩, ?_⟩
      obtain ⟨hAll, hNone⟩ | ⟨r, hText, hHome, hPieces⟩ := hRest
      · exact .inl ⟨by rw [← hAll], hNone⟩
      · exact .inr ⟨r, by rw [List.cons_append, ← hText], hHome, hPieces⟩

end Splitter

/-! ### Parts that are joined -/

namespace Splitter

variable {α β σ : Type} [DecidableEq α] [DecidableEq σ] (sp : Splitter α σ) (gap : α)

/-- The parts in order, with a separator and a gap between them. -/
def joined (sp : Splitter α σ) (gap : α) : List (List α) → List α
  | [] => []
  | [p] => p
  | p :: q :: ps => p ++ sp.separator :: gap :: joined sp gap (q :: ps)

/-- No part is cut, and each but the last one ends at home. -/
def KeepsApart (sp : Splitter α σ) : List (List α) → Prop
  | [] => True
  | [p] => sp.Uncut sp.home p
  | p :: q :: ps => sp.Uncut sp.home p ∧ sp.run sp.home p = sp.home ∧ KeepsApart sp (q :: ps)

/-- A text and how it is read. -/
structure Part (α β : Type) where
  text : List α
  read : List α → β

/-- A part that is read otherwise once it is cut or grows behind a separator, and that a gap in front
does not change; or one that is not cut and ends at home. -/
structure Part.Settled (sp : Splitter α σ) (gap : α) (p : Part α β) : Prop where
  read_gap : ∀ t, p.read (gap :: t) = p.read t
  apart : (sp.Uncut sp.home p.text ∧ sp.run sp.home p.text = sp.home) ∨
    ((∀ t, p.read (p.text ++ sp.separator :: t) ≠ p.read p.text) ∧
      ∀ t u, p.text = t ++ sp.separator :: u → p.read t ≠ p.read p.text)

/-- The separator and the gap leave the scanner where it is when it is home. -/
structure Steady (sp : Splitter α σ) (gap : α) : Prop where
  separator : sp.step sp.home sp.separator = sp.home
  gap_step : sp.step sp.home gap = sp.home
  gap_ne : gap ≠ sp.separator

variable {sp gap}

theorem Steady.pieces_gap (h : Steady sp gap) (s : List α) :
    sp.pieces sp.home (gap :: s) = (gap :: (sp.split sp.home s).1) :: (sp.split sp.home s).2 := by
  rw [pieces, split, if_neg fun hGap => h.gap_ne hGap.1, h.gap_step]

theorem pieces_joined (h : Steady sp gap) {p : List α} {ps : List (List α)}
    (hApart : KeepsApart sp (p :: ps)) :
    sp.pieces sp.home (joined sp gap (p :: ps)) = p :: ps.map (gap :: ·) := by
  induction ps generalizing p with
  | nil => exact sp.pieces_of_uncut hApart
  | cons q ps ih =>
    obtain ⟨hUncut, hHome, hRest⟩ := hApart
    have hNext := List.cons.inj (ih hRest)
    rw [joined, sp.pieces_separator hUncut hHome, h.separator, h.pieces_gap, hNext.1, hNext.2]
    rfl

omit [DecidableEq α] [DecidableEq σ] in
/-- A piece that reads as the part that starts the text is that part. -/
theorem Part.Settled.piece_eq {p : Part α β} (hSettled : p.Settled sp gap) {t r s : List α}
    (hUncut : sp.Uncut sp.home t) (hHome : sp.run sp.home t = sp.home)
    (hText : p.text ++ sp.separator :: s = t ++ sp.separator :: r)
    (hRead : p.read t = p.read p.text) : t = p.text := by
  obtain ⟨u, hShort, hRest⟩ | ⟨u, hLong, hRest⟩ := List.append_eq_append_iff.mp hText
  · -- the piece is longer than the part
    cases u with
    | nil => simpa using hShort
    | cons c u =>
      obtain ⟨rfl, hTail⟩ := List.cons.inj hRest
      obtain ⟨hPart, hPartHome⟩ | ⟨hGrown, -⟩ := hSettled.apart
      · rw [hShort, sp.uncut_append, hPartHome] at hUncut
        exact absurd ⟨rfl, rfl⟩ hUncut.2.1
      · rw [hShort] at hRead
        exact absurd hRead (hGrown u)
  · cases u with
    | nil => simpa using hLong.symm
    | cons c u =>
      obtain ⟨rfl, hTail⟩ := List.cons.inj hRest
      obtain ⟨hPart, -⟩ | ⟨-, hCut⟩ := hSettled.apart
      · rw [hLong, sp.uncut_append, hHome] at hPart
        exact absurd ⟨rfl, rfl⟩ hPart.2.1
      · exact absurd hRead (hCut t u hLong)

/-- If the first pieces of the joined parts read as the parts, then there are no other pieces, and the
parts are kept apart. -/
theorem keepsApart_of_reads (h : Steady sp gap) {parts : List (Part α β)} (hNonempty : parts ≠ [])
    (hSettled : ∀ p ∈ parts, p.Settled sp gap) {ts extra : List (List α)}
    (hPieces : sp.pieces sp.home (joined sp gap (parts.map Part.text)) = ts ++ extra)
    (hReads : List.Forall₂ (fun t p => p.read t = p.read p.text) ts parts) :
    extra = [] ∧ KeepsApart sp (parts.map Part.text) := by
  induction parts generalizing ts with
  | nil => exact absurd rfl hNonempty
  | cons p parts ih =>
    obtain ⟨t, us, hRead, hOthersRead, rfl⟩ := List.forall₂_cons_right_iff.mp hReads
    have hPart := hSettled p List.mem_cons_self
    obtain ⟨hUncut, ⟨hText, hNone⟩ | ⟨r, hText, hHome, hRest⟩⟩ := sp.pieces_cases hPieces
    · obtain ⟨rfl, rfl⟩ := List.append_eq_nil_iff.mp hNone
      cases hOthersRead
      refine ⟨rfl, ?_⟩
      change p.text = t at hText
      rw [← hText] at hUncut
      exact hUncut
    · cases parts with
      | nil =>
        -- the only part would have been cut
        change p.text = t ++ sp.separator :: r at hText
        obtain ⟨hWhole, -⟩ | ⟨-, hCut⟩ := hPart.apart
        · rw [hText, sp.uncut_append, hHome] at hWhole
          exact absurd ⟨rfl, rfl⟩ hWhole.2.1
        · exact absurd hRead (hCut t r hText)
      | cons p2 parts =>
        obtain ⟨t2, vs, hRead2, hReads2, rfl⟩ := List.forall₂_cons_right_iff.mp hOthersRead
        have hEq := hPart.piece_eq hUncut hHome hText hRead
        subst hEq
        simp only [List.map_cons, joined, List.append_cancel_left_eq, List.cons.injEq, true_and] at hText
        subst hText
        rw [h.separator, h.pieces_gap] at hRest
        obtain ⟨rfl, hOthers⟩ := List.cons.inj hRest
        have hPart2 := hSettled p2 (List.mem_cons_of_mem _ List.mem_cons_self)
        rw [hPart2.read_gap] at hRead2
        obtain ⟨hExtra, hApart⟩ := ih (List.cons_ne_nil _ _)
          (fun q hq => hSettled q (List.mem_cons_of_mem _ hq))
          (congrArg _ hOthers.symm) (.cons hRead2 hReads2)
        exact ⟨hExtra, hUncut, hHome, hApart⟩

end Splitter

end Rindexer.Lib
