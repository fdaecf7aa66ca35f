import Mathlib.Data.List.Induction
import Rindexer.Extraction.Columns

/-! Templates: texts with references to fields in them.  A template is meant to be its text with the
string form of each field for its reference. -/

namespace Rindexer.Extraction

open Rindexer.Lib Rindexer.Lib.Parser
open Rindexer.Filter hiding parseUsize
open Rindexer.Manifest (ColumnType)
open Rindexer.Tables (findText)

/-! ### What a template means -/

inductive Part
  | char (c : Char)
  | reference (path : List Char)

def Part.text : Part → List Char
  | char c => [c]
  | reference path => '$' :: path

def templateText (parts : List Part) : List Char := parts.flatMap Part.text

/-- The text with each reference replaced by the string form of its field. -/
def fill (form : List Char → Option (List Char)) : List Part → Option (List Char)
  | [] => some []
  | .char c :: parts => (fill form parts).map (c :: ·)
  | .reference path :: parts => do
    let value ← form path
    let rest ← fill form parts
    return value ++ rest

/-- A dot at the end of a path that adds nothing to it is no part of it. -/
def LastDotCounts (path : List Char) : Prop :=
  ∀ shorter, path = shorter ++ ['.'] → parsePathSegments path ≠ parsePathSegments shorter

section Reading

variable (lib : Library) (form : List Char → Option (List Char))

def isNameChar (c : Char) : Bool := lib.isAlphanumeric c || c == '_'

def NamesField (path : List Char) : Prop := (form path).isSome ∧ LastDotCounts path

/-- The parts that a text is meant to have: each reference is the longest one that names a field and
ends where a name ends. -/
inductive Intended : List Part → Prop
  | nil : Intended []
  | char (c : Char) {parts : List Part} (h : Intended parts)
    (hSign : c = '$' → Stops (isFieldChar lib) (templateText parts)) : Intended (.char c :: parts)
  | reference {path : List Char} {parts : List Part} (h : Intended parts) (hNonempty : path ≠ [])
    (hPath : ∀ c ∈ path, isFieldChar lib c = true) (hField : NamesField form path)
    (hEnd : Stops (isNameChar lib) (templateText parts))
    (hLongest : ∀ t u, templateText parts = t ++ u → t ≠ [] → (∀ c ∈ t, isFieldChar lib c = true) →
      Stops (isNameChar lib) u → ¬ NamesField form (path ++ t)) :
    Intended (.reference path :: parts)

/-- No reference has a character of field paths right behind it. -/
def Apart : List Part → Prop
  | [] => True
  | .char _ :: parts => Apart parts
  | .reference _ :: parts => Stops (isFieldChar lib) (templateText parts) ∧ Apart parts

end Reading

/-- The text has a call, a constant or a condition, which are no templates. -/
def HasOtherForm (value : List Char) : Prop :=
  isConditionalValue value = true ∨ containsText "$constant(".toList value = true ∨
    containsText "$call(".toList value = true ∨ containsText "$call_static(".toList value = true

@[simp] theorem templateText_nil : templateText [] = [] := rfl

@[simp] theorem templateText_char (c : Char) (parts : List Part) :
    templateText (.char c :: parts) = c :: templateText parts := rfl

@[simp] theorem templateText_reference (path : List Char) (parts : List Part) :
    templateText (.reference path :: parts) = '$' :: (path ++ templateText parts) := rfl

theorem eq_nil_of_templateText {parts : List Part} (h : templateText parts = []) : parts = [] := by
  cases parts with
  | nil => rfl
  | cons part parts => cases part <;> cases h

/-! ### Expansion -/

section Expansion

variable {lib : Library} {logParams : List LogParam} {m : TxMetadata}

theorem stops_dropWhile (f : Char → Bool) (s : List Char) : Stops f (s.dropWhile f) := fun c hc => by
  have hNot := List.head?_dropWhile_not f s
  rw [hc] at hNot
  exact hNot

theorem stops_name {s : List Char} (h : Stops (isFieldChar lib) s) : Stops (isNameChar lib) s := by
  intro c hc
  have hNot := h c hc
  simp only [isFieldChar, Bool.or_eq_false_iff] at hNot
  simp only [isNameChar, Bool.or_eq_false_iff]
  exact ⟨hNot.1.1.1.1, hNot.1.1.2⟩

theorem expandFrom_fuel {n k : Nat} {s : List Char} (hn : s.length ≤ n) (hk : s.length ≤ k) :
    expandFrom lib logParams m n s = expandFrom lib logParams m k s := by
  induction n generalizing k s with
  | zero =>
    obtain rfl : s = [] := List.length_eq_zero_iff.mp (by omega)
    cases k <;> rfl
  | succ n ih =>
    cases s with
    | nil => cases k <;> rfl
    | cons c rest =>
      cases k with
      | zero => simp at hk
      | succ k =>
        simp only [List.length_cons] at hn hk
        have hDrop : (rest.dropWhile (isFieldChar lib)).length ≤ rest.length :=
          (List.dropWhile_suffix _).length_le
        rw [expandFrom, expandFrom, ih (k := k) (by omega) (by omega),
          ih (k := k) (s := rest.dropWhile (isFieldChar lib)) (by omega) (by omega)]

variable (lib logParams m) in
theorem expand_char {c : Char} {s : List Char}
    (h : c = '$' → Stops (isFieldChar lib) s) :
    expandStringTemplate lib (c :: s) logParams m =
      (expandStringTemplate lib s logParams m).map (c :: ·) := by
  rw [expandStringTemplate, List.length_cons, expandFrom]
  split
  · next hSign =>
    subst hSign
    have hRun : s.takeWhile (isFieldChar lib) = [] :=
      takeWhile_append_stops (l := []) (by simp) (h rfl)
    rw [hRun]
    rfl
  · rfl

variable (lib logParams m) in
theorem expand_run {run s : List Char} (hNonempty : run ≠ [])
    (hRun : ∀ c ∈ run, isFieldChar lib c = true) (hStops : Stops (isFieldChar lib) s) :
    expandStringTemplate lib ('$' :: (run ++ s)) logParams m = do
      let value ← resolveFieldToString lib run logParams m
      let rest ← expandStringTemplate lib s logParams m
      return value ++ rest := by
  rw [expandStringTemplate, List.length_cons, expandFrom, if_pos rfl]
  simp only [takeWhile_append_stops hRun hStops, dropWhile_append_stops hRun hStops, if_neg hNonempty]
  rw [expandFrom_fuel (k := s.length) (by simp) (Nat.le_refl _)]
  rfl

/-- Where the references stand apart, the expansion is what the template means. -/
theorem expand_apart {parts : List Part}
    (h : Intended lib (fun path => resolveFieldToString lib path logParams m) parts)
    (hApart : Apart lib parts) :
    expandStringTemplate lib (templateText parts) logParams m =
      fill (fun path => resolveFieldToString lib path logParams m) parts := by
  induction h with
  | nil => rfl
  | char c h hSign ih => rw [templateText_char, expand_char lib logParams m hSign, ih hApart, fill]
  | reference h hNonempty hPath hField hEnd hLongest ih =>
    rw [templateText_reference, expand_run lib logParams m hNonempty hPath hApart.1, ih hApart.2, fill]

theorem fill_isSome {form : List Char → Option (List Char)} {parts : List Part}
    (h : Intended lib form parts) : ∃ s, fill form parts = some s := by
  induction h with
  | nil => exact ⟨[], rfl⟩
  | char c h hSign ih =>
    obtain ⟨s, hs⟩ := ih
    exact ⟨c :: s, by rw [fill, hs]; rfl⟩
  | reference h hNonempty hPath hField hEnd hLongest ih =>
    obtain ⟨s, hs⟩ := ih
    obtain ⟨v, hv⟩ := Option.isSome_iff_exists.mp hField.1
    exact ⟨v ++ s, by rw [fill, hv, hs]; rfl⟩

/-! ### Dots behind references -/

theorem resolveFieldToString_dot {q : List Char}
    (h : parsePathSegments (q ++ ['.']) = parsePathSegments q) :
    resolveFieldToString lib (q ++ ['.']) logParams m = resolveFieldToString lib q logParams m := by
  have hDotted : ∀ name : List Char, name.getLast? ≠ some '.' → q ++ ['.'] ≠ name := by
    rintro name hLast rfl
    exact hLast (by simp)
  have hPlain : ∀ name : List Char, parsePathSegments (name ++ ['.']) ≠ parsePathSegments name →
      q ≠ name := by
    rintro name hSegments rfl
    exact hSegments h
  have hPath : resolveFieldPath (q ++ ['.']) logParams = resolveFieldPath q logParams := by
    rw [resolveFieldPath, resolveFieldPath, h]
  unfold resolveFieldToString
  rw [if_neg (hDotted _ (by decide)), if_neg (hDotted _ (by decide)), if_neg (hDotted _ (by decide)),
    if_neg (hDotted _ (by decide)), if_neg (hDotted _ (by decide)), if_neg (hDotted _ (by decide)),
    if_neg (hDotted _ (by decide)), if_neg (hPlain _ (by decide)), if_neg (hPlain _ (by decide)),
    if_neg (hPlain _ (by decide)), if_neg (hPlain _ (by decide)), if_neg (hPlain _ (by decide)),
    if_neg (hPlain _ (by decide)), if_neg (hPlain _ (by decide)), hPath]

/-- A run that goes on behind a reference names a field only if dots that count for nothing follow. -/
theorem run_beyond_reference {path t u : List Char}
    (hLongest : ∀ t' u', t ++ u = t' ++ u' → t' ≠ [] → (∀ c ∈ t', isFieldChar lib c = true) →
      Stops (isNameChar lib) u' →
        ¬ NamesField (fun path => resolveFieldToString lib path logParams m) (path ++ t'))
    (hRun : ∀ c ∈ t, isFieldChar lib c = true) (hEnd : Stops (isNameChar lib) u)
    (hSome : (resolveFieldToString lib (path ++ t) logParams m).isSome) :
    (∀ c ∈ t, c = '.') ∧
      resolveFieldToString lib (path ++ t) logParams m = resolveFieldToString lib path logParams m := by
  -- from the end of the run, one dot after the other
  induction t using List.reverseRecOn generalizing u with
  | nil => simp
  | append_singleton t d ih =>
    have hNot := hLongest (t ++ [d]) u rfl (by simp) hRun hEnd
    have hDot : ¬ LastDotCounts (path ++ (t ++ [d])) := fun hCounts => hNot ⟨hSome, hCounts⟩
    simp only [LastDotCounts, not_forall, ne_eq, not_not] at hDot
    obtain ⟨shorter, hEq, hSegments⟩ := hDot
    rw [← List.append_assoc] at hEq
    obtain ⟨rfl, hd⟩ := List.append_inj' hEq rfl
    obtain rfl : d = '.' := by simpa using hd
    rw [← List.append_assoc] at hSegments hSome ⊢
    rw [resolveFieldToString_dot hSegments] at hSome ⊢
    have hStops : Stops (isNameChar lib) ('.' :: u) := stops_cons.mpr (by
      rw [isNameChar, lib.isAlphanumeric_ascii _ (by decide)]
      decide)
    obtain ⟨hDots, hForm⟩ := ih (u := '.' :: u)
      (fun t' u' hText => hLongest t' u' (by rw [List.append_assoc]; exact hText))
      (fun c hc => hRun c (List.mem_append_left _ hc)) hStops hSome
    refine ⟨fun c hc => ?_, hForm⟩
    rcases List.mem_append.mp hc with hc | hc
    · exact hDots c hc
    · exact List.mem_singleton.mp hc

theorem drop_dots {form : List Char → Option (List Char)} {parts : List Part} {dots u : List Char}
    (h : Intended lib form parts) (hDots : ∀ c ∈ dots, c = '.') (hText : templateText parts = dots ++ u) :
    ∃ rest, Intended lib form rest ∧ templateText rest = u ∧ rest.length + dots.length = parts.length ∧
      fill form parts = (fill form rest).map (dots ++ ·) := by
  induction dots generalizing parts with
  | nil => exact ⟨parts, h, hText, rfl, by simp⟩
  | cons d dots ih =>
    obtain rfl : d = '.' := hDots d List.mem_cons_self
    cases h with
    | nil => cases hText
    | char c h hSign =>
      rename_i parts
      rw [templateText_char, List.cons_append, List.cons.injEq] at hText
      obtain ⟨rfl, hText⟩ := hText
      obtain ⟨rest, hRest, hu, hLength, hFill⟩ :=
        ih h (fun c hc => hDots c (List.mem_cons_of_mem _ hc)) hText
      refine ⟨rest, hRest, hu, by simp only [List.length_cons]; omega, ?_⟩
      rw [fill, hFill, Option.map_map]
      rfl
    | reference h => simp at hText

/-- An expansion is never longer than what the template means, and is shorter if a reference does not
stand apart. -/
theorem expand_length {parts : List Part} {out : List Char}
    (h : Intended lib (fun path => resolveFieldToString lib path logParams m) parts)
    (hOut : expandStringTemplate lib (templateText parts) logParams m = some out) :
    ∃ s, fill (fun path => resolveFieldToString lib path logParams m) parts = some s ∧
      out.length ≤ s.length ∧ (¬ Apart lib parts → out.length < s.length) := by
  induction hn : parts.length using Nat.strong_induction_on generalizing parts out with
  | h n ih =>
    cases h with
    | nil =>
      cases hOut
      exact ⟨[], rfl, Nat.le_refl _, fun hNot => absurd trivial hNot⟩
    | char c h hSign =>
      rename_i parts
      rw [templateText_char, expand_char lib logParams m hSign] at hOut
      obtain ⟨out', hOut', rfl⟩ := Option.map_eq_some_iff.mp hOut
      obtain ⟨s, hs, hLe, hLt⟩ := ih parts.length (by simp at hn; omega) h hOut' rfl
      exact ⟨c :: s, by rw [fill, hs]; rfl, by simpa using hLe, fun hNot => by
        simpa using hLt hNot⟩
    | reference h hNonempty hPath hField hEnd hLongest =>
      rename_i path parts
      -- the run of the code is the path and what goes on behind it
      obtain ⟨t, u, hText, hRun, hStops⟩ : ∃ t u, templateText parts = t ++ u ∧
          (∀ c ∈ t, isFieldChar lib c = true) ∧ Stops (isFieldChar lib) u :=
        ⟨_, _, List.takeWhile_append_dropWhile.symm, fun c hc => List.mem_takeWhile_imp hc,
          stops_dropWhile _ _⟩
      have hWhole : ∀ c ∈ path ++ t, isFieldChar lib c = true := fun c hc =>
        (List.mem_append.mp hc).elim (hPath c) (hRun c)
      rw [templateText_reference, hText, ← List.append_assoc,
        expand_run lib logParams m (by simp [hNonempty]) hWhole hStops] at hOut
      rcases hValue : resolveFieldToString lib (path ++ t) logParams m with _ | value
      · simp [hValue] at hOut
      · rcases hRest : expandStringTemplate lib u logParams m with _ | rest
        · simp [hValue, hRest] at hOut
        · simp only [hValue, hRest, Option.bind_eq_bind, Option.bind_some, Option.pure_def,
            Option.some.injEq] at hOut
          subst hOut
          rw [hText] at hLongest
          obtain ⟨hDots, hForm⟩ := run_beyond_reference hLongest hRun (stops_name hStops)
            (by rw [hValue]; rfl)
          cases t with
          | nil =>
            obtain ⟨s, hs, hLe, hLt⟩ := ih parts.length (by simp only [List.length_cons] at hn; omega) h
              (by rw [hText]; exact hRest) rfl
            refine ⟨value ++ s, by rw [fill, ← hForm, hValue, hs]; rfl, ?_, fun hNot => ?_⟩
            · simp only [List.length_append]
              omega
            · have := hLt fun hApart => hNot ⟨by rw [hText]; exact hStops, hApart⟩
              simp only [List.length_append]
              omega
          | cons c t =>
            obtain ⟨others, hOthers, hu, hLength, hFill⟩ := drop_dots h hDots hText
            obtain ⟨s, hs, hLe, -⟩ := ih others.length (by simp only [List.length_cons] at hn hLength; omega)
              hOthers (by rw [hu]; exact hRest) rfl
            refine ⟨value ++ (c :: t ++ s), by rw [fill, ← hForm, hValue, hFill, hs]; rfl, ?_, fun _ => ?_⟩
            · simp only [List.length_append]
              omega
            · simp only [List.length_append, List.length_cons]
              omega

end Expansion

/-! ### Columns of templates -/

section Columns

variable {lib : Library} {logParams : List LogParam} {m : TxMetadata}

theorem containsText_of_startsWith {needle s : List Char} (h : startsWith needle s = true) :
    containsText needle s = true := by
  rw [containsText]
  cases s with
  | nil =>
    have hNil : needle = [] := by
      rw [startsWith, List.isPrefixOf_iff_prefix] at h
      exact List.prefix_nil.mp h
    simp [findText, hNil]
  | cons c s =>
    rw [startsWith] at h
    simp [findText, h]

/-- A value of a text column is no longer than the string form of the field. -/
theorem dynSolValueToWrapper_string {value : DynSolValue} {out : List Char}
    (h : dynSolValueToWrapper lib value .string = .ok (.string out)) :
    out.length ≤ (dynSolValueToString lib value).length := by
  cases value with
  | string s =>
    cases h
    exact List.length_filter_le _ _
  | address a => cases h
  | bool b => cases h
  | _ =>
    cases h
    exact Nat.le_refl _

theorem fieldValue_string {fieldName out : List Char}
    (h : fieldValue lib fieldName logParams m .string = .ok (some (.string out))) :
    ∃ value, resolveFieldToString lib fieldName logParams m = some value ∧
      out.length ≤ value.length := by
  unfold fieldValue at h
  unfold resolveFieldToString
  split at h
  · cases h
  · next hBlock =>
    rw [if_neg hBlock]
    split at h
    · split at h
      · cases h
      · next ts hTs =>
        rcases hNarrow : narrow 64 ts.val with e | seconds
        · simp [hNarrow, bind, Except.bind] at h
        · simp [hNarrow, bind, Except.bind, pure, Except.pure, timestampToWrapper] at h
    · next hTimestamp =>
      rw [if_neg hTimestamp]
      split at h
      · cases h
      · next hTx =>
        rw [if_neg hTx]
        split at h
        · cases h
        · next hHash =>
          rw [if_neg hHash]
          split at h
          · cases h
          · next hContract =>
            rw [if_neg hContract]
            split at h
            · next hLog =>
              rw [if_pos hLog]
              cases h
              exact ⟨_, rfl, Nat.le_refl _⟩
            · next hLog =>
              rw [if_neg hLog]
              split at h
              · cases h
              · next hIndex =>
                rw [if_neg hIndex]
                split at h
                · cases h
                · next value hValue =>
                  rcases hWrapper : dynSolValueToWrapper lib value .string with e | wrapper
                  · simp [hWrapper, Except.map] at h
                  · simp only [hWrapper, Except.map, Except.ok.injEq, Option.some.injEq] at h
                    subst h
                    rw [hValue]
                    exact ⟨_, rfl, dynSolValueToWrapper_string hWrapper⟩

/-- A template that is a `$` and characters of a class is one reference, if what stands right behind a
reference is not of the class. -/
theorem single_reference {form : List Char → Option (List Char)} {parts : List Part} {w : List Char}
    {g : Char → Bool} (h : Intended lib form parts) (hg : ∀ c, g c = true → isFieldChar lib c = true)
    (hBehind : ∀ path ps, parts = .reference path :: ps → Stops g (templateText ps))
    (hText : templateText parts = '$' :: w) (hAll : ∀ c ∈ w, g c = true)
    (hReference : ∃ path, .reference path ∈ parts) : ∃ path, parts = [.reference path] := by
  have hNone : ∀ {f : Char → Bool} {s : List Char}, Stops f s → (∀ c ∈ s, f c = true) → s = [] := by
    intro f s hStops hs
    cases s with
    | nil => rfl
    | cons c s =>
      have := stops_cons.mp hStops
      rw [hs c List.mem_cons_self] at this
      cases this
  cases h with
  | nil => cases hText
  | char c h hSign =>
    rename_i parts
    rw [templateText_char, List.cons.injEq] at hText
    obtain ⟨rfl, rfl⟩ := hText
    obtain rfl := eq_nil_of_templateText (hNone (hSign rfl) fun c hc => hg c (hAll c hc))
    obtain ⟨path, hMem⟩ := hReference
    simp at hMem
  | reference h hNonempty hPath hField hEnd hLongest =>
    rename_i path parts
    rw [templateText_reference, List.cons.injEq] at hText
    obtain rfl := hText.2
    obtain rfl := eq_nil_of_templateText
      (hNone (hBehind _ _ rfl) fun c hc => hAll c (List.mem_append_right _ hc))
    exact ⟨path, rfl⟩

/-- A text in front of every reference is in front of what the template means. -/
theorem fill_front {form : List Char → Option (List Char)} {parts : List Part} {l r s : List Char}
    (hText : templateText parts = l ++ r) (hl : '$' ∉ l) (h : fill form parts = some s) : l <+: s := by
  induction l generalizing parts s with
  | nil => exact List.nil_prefix
  | cons c l ih =>
    cases parts with
    | nil => cases hText
    | cons part parts =>
      cases part with
      | char d =>
        rw [templateText_char, List.cons_append, List.cons.injEq] at hText
        obtain ⟨rfl, hText⟩ := hText
        rw [fill] at h
        obtain ⟨s', hs', rfl⟩ := Option.map_eq_some_iff.mp h
        exact List.cons_prefix_cons.mpr ⟨rfl, ih hText (fun hMem => hl (List.mem_cons_of_mem _ hMem)) hs'⟩
      | reference path =>
        rw [templateText_reference, List.cons_append, List.cons.injEq] at hText
        exact absurd (hText.1 ▸ List.mem_cons_self) hl

/-- A text that starts with blanks, parentheses and a quote cannot stand between these quotes. -/
theorem not_isQuoted {quote : Char} {front v : List Char} (hFront : ∀ c ∈ front, isBlank c = true ∨ c = '(')
    (hQuote : quote = '\'' ∨ quote = '"') (h : front ++ [quote] <+: v) : ¬ IsQuoted quote v := by
  obtain ⟨rest, rfl⟩ := h
  intro hQuoted
  have hContent : IsQuoted quote front := by
    clear hQuoted
    unfold IsQuoted
    induction front with
    | nil => rfl
    | cons c front ih =>
      have hc : c ≠ quote ∧ c ≠ '\\' := by
        have hPlain : c = ' ' ∨ c = '\t' ∨ c = '(' := by
          rcases hFront c List.mem_cons_self with hBlank | rfl
          · simp only [isBlank, Bool.or_eq_true, beq_iff_eq] at hBlank
            exact hBlank.imp_right Or.inl
          · exact Or.inr (Or.inr rfl)
        rcases hPlain with rfl | rfl | rfl <;> rcases hQuote with rfl | rfl <;> decide
      rw [quotedContent.eq_def]
      simp only [if_neg hc.1, if_neg hc.2, ih fun d hd => hFront d (List.mem_cons_of_mem _ hd)]
  have hStop := quotedContent_append front rest hContent
  rw [List.append_assoc, IsQuoted] at hQuoted
  rw [List.singleton_append, hStop] at hQuoted
  cases (Prod.mk.inj hQuoted).2

theorem dollar_mem_of_reference {parts : List Part} (h : ∃ path, .reference path ∈ parts) :
    '$' ∈ templateText parts := by
  obtain ⟨path, hMem⟩ := h
  exact List.mem_flatMap.mpr ⟨_, hMem, List.mem_cons_self⟩

theorem hasOperator_mem {value : List Char} (h : hasOperator value = true) :
    ∃ c ∈ value, c ∈ ['*', '/', '^', '+', '-'] := by
  simp only [hasOperator, Bool.or_eq_true, List.any_eq_true, beq_iff_eq] at h
  rcases h with ⟨c, hc, h⟩ | ⟨c, hc, h⟩
  · exact ⟨c, hc, by simp only [List.mem_cons]; tauto⟩
  · exact ⟨c, List.mem_of_mem_tail hc, by simp only [List.mem_cons]; tauto⟩

/-- With an operator in it a template is computed, and the result is not what it means. -/
theorem computed_ne_fill {form : List Char → Option (List Char)} {parts : List Part} {s : List Char}
    {r : Readers} {data : JsonValue} (hReference : ∃ path, .reference path ∈ parts)
    (hOperator : hasOperator (templateText parts) = true) (hFill : fill form parts = some s) :
    evaluateArithmetic r (templateText parts) data ≠ some (.string s) := by
  intro h
  obtain ⟨front, quote, back, hText, hFront, hQuote, hQuoted⟩ :=
    evaluateArithmetic_string (dollar_mem_of_reference hReference) (hasOperator_mem hOperator) h
  refine not_isQuoted hFront hQuote (fill_front (r := s ++ [quote] ++ back) ?_ ?_ hFill) hQuoted
  · rw [hText]
    simp
  · intro hMem
    rcases List.mem_append.mp hMem with hMem | hMem
    · rcases hFront _ hMem with hBlank | hParen
      · exact absurd hBlank (by decide)
      · exact absurd hParen (by decide)
    · rw [List.mem_singleton] at hMem
      rcases hQuote with rfl | rfl <;> exact absurd hMem (by decide)

/-- The extraction of a text without calls, constants and conditions at its top. -/
theorem extract_plain {x : Sources} {value : List Char} (hForm : ¬ HasOtherForm value)
    (hNull : value ≠ "$null".toList) (hTimestamp : value ≠ "$rindexer_block_timestamp".toList)
    (columnType : ColumnType) :
    extractValueFromEventAsync lib x value logParams m columnType =
      if isArithmeticExpression value then do
        let data ← arithmeticData lib logParams m
        computedToWrapper columnType (evaluateArithmetic lib.readers value (.object data.entries))
      else if isStringTemplate lib value then
        .ok ((expandStringTemplate lib value logParams m).map .string)
      else fieldOrLiteral lib value logParams m columnType := by
  simp only [HasOtherForm, not_or, Bool.not_eq_true] at hForm
  obtain ⟨hConditional, hConstant, hCall, hStatic⟩ := hForm
  have hView : isViewCall value = false := by
    have hStart : ∀ needle, containsText needle value = false → startsWith needle value = false := by
      intro needle hNot
      by_contra hStarts
      rw [containsText_of_startsWith (by simpa using hStarts)] at hNot
      cases hNot
    rw [isViewCall, hStart _ hCall, hStart _ hStatic]
    rfl
  have hCalls : arithmeticHasCalls value = false := by
    rw [arithmeticHasCalls, hCall, hStatic]
    rfl
  have hSync : extractResolved lib x logParams m columnType value =
      extractValueFromEvent lib value logParams m columnType := by
    rw [extractResolved, hCalls, hView, Bool.and_false, if_neg (by simp), if_neg (by simp)]
    split
    · rw [if_neg hTimestamp]
    · rfl
  rw [extractValueFromEventAsync, extractAsyncFrom, if_neg hNull, hConditional, if_neg (by simp),
    hConstant, if_neg (by simp), hSync, extractValueFromEvent, extractFrom, if_neg hNull, hConditional,
    if_neg (by simp)]

theorem computed_string {result : Option ComputedValue} {s : List Char}
    (h : computedToWrapper .string result = .ok (some (.string s))) : result = some (.string s) := by
  match result, h with
  | some (.string s'), h =>
    cases h
    rfl

theorem alphanum_ascii {c : Char} (h : c.isAlphanum = true) : c.toNat < 128 := by
  simp only [Char.isAlphanum, isAlpha_cases, isUpper_bounds, isLower_bounds, Char.isDigit,
    Bool.or_eq_true, Bool.and_eq_true, decide_eq_true_eq, UInt32.le_iff_toNat_le] at h
  show c.val.toNat < 128
  rcases h with (⟨-, h⟩ | ⟨-, h⟩) | ⟨-, h⟩
  · exact lt_of_le_of_lt h (by decide)
  · exact lt_of_le_of_lt h (by decide)
  · exact lt_of_le_of_lt h (by decide)

theorem isFieldChar_of_name {c : Char} (h : isNameChar lib c = true) : isFieldChar lib c = true := by
  simp only [isNameChar, Bool.or_eq_true] at h
  simp only [isFieldChar, Bool.or_eq_true]
  tauto

theorem isNameChar_ascii {w : List Char} (h : ∀ c ∈ w, c.isAlphanum = true ∨ c = '_') :
    ∀ c ∈ w, isNameChar lib c = true := by
  intro c hc
  rcases h c hc with hAlphanum | rfl
  · rw [isNameChar, lib.isAlphanumeric_ascii c (alphanum_ascii hAlphanum), hAlphanum]
    rfl
  · simp [isNameChar]

/-- A text with a `$` that the code takes for no template is a `$` and field characters. -/
theorem pure_of_not_template {value : List Char} (hSign : value.contains '$' = true)
    (h : ¬ isStringTemplate lib value = true) :
    ∃ w, value = '$' :: w ∧ ∀ c ∈ w, isFieldChar lib c = true := by
  simp only [isStringTemplate, hSign, Bool.true_and, Bool.not_eq_true', Bool.not_eq_false,
    Bool.and_eq_true, beq_iff_eq, List.all_eq_true] at h
  cases value with
  | nil => cases hSign
  | cons c w =>
    obtain rfl : c = '$' := by simpa using h.1
    exact ⟨w, rfl, h.2⟩

end Columns

section Claim

variable (lib : Library) (x : Sources) (logParams : List LogParam) (m : TxMetadata)

/-- A template in a text column is stored as it is meant exactly if it has no operator and nothing that
could belong to a field path stands right behind a reference. -/
theorem template_expands_iff {parts : List Part}
    (hIntended : Intended lib (fun path => resolveFieldToString lib path logParams m) parts)
    (hReference : ∃ path, .reference path ∈ parts) (hMixed : ∀ path, parts ≠ [.reference path])
    (hForm : ¬ HasOtherForm (templateText parts)) :
    ∃ s, fill (fun path => resolveFieldToString lib path logParams m) parts = some s ∧
      (extractValueFromEventAsync lib x (templateText parts) logParams m .string =
          .ok (some (.string s)) ↔
        hasOperator (templateText parts) = false ∧ Apart lib parts) := by
  obtain ⟨s, hs⟩ := fill_isSome hIntended
  have hSign : (templateText parts).contains '$' = true := by
    simpa using dollar_mem_of_reference hReference
  -- a text that is a `$` and field characters is no template to the code
  have hPure : ∀ w, templateText parts = '$' :: w → (∀ c ∈ w, isFieldChar lib c = true) →
      ¬ Apart lib parts := by
    rintro w hText hAll hApart
    obtain ⟨path, hSingle⟩ := single_reference hIntended (fun _ hc => hc)
      (by rintro path ps rfl; exact hApart.1) hText hAll hReference
    exact hMixed path hSingle
  have hName : ∀ w : List Char, (∀ c ∈ w, isNameChar lib c = true) → templateText parts ≠ '$' :: w := by
    intro w hAll hText
    obtain ⟨path, hSingle⟩ := single_reference hIntended (fun _ => isFieldChar_of_name)
      (by rintro path ps rfl; cases hIntended; assumption) hText hAll hReference
    exact hMixed path hSingle
  have hPlain := @extract_plain lib logParams m x _ hForm
    (hName "null".toList (isNameChar_ascii (by decide)))
    (hName "rindexer_block_timestamp".toList (isNameChar_ascii (by decide))) .string
  rw [isArithmeticExpression, hSign, Bool.and_true] at hPlain
  refine ⟨s, hs, ?_⟩
  rw [hPlain]
  constructor
  · intro hExtract
    split at hExtract
    · next hOperator =>
      rcases hData : arithmeticData lib logParams m with e | data
      · simp [hData, bind, Except.bind] at hExtract
      · simp only [hData, bind, Except.bind] at hExtract
        exact absurd (computed_string hExtract) (computed_ne_fill hReference hOperator hs)
    · next hOperator =>
      refine ⟨Bool.not_eq_true _ ▸ hOperator, ?_⟩
      by_contra hApart
      have hShort : ∀ out, expandStringTemplate lib (templateText parts) logParams m = some out →
          out.length < s.length := by
        intro out hOut
        obtain ⟨s', hs', -, hLt⟩ := expand_length hIntended hOut
        rw [hs] at hs'
        cases hs'
        exact hLt hApart
      split at hExtract
      · simp only [Except.ok.injEq, Option.map_eq_some_iff,
          EthereumSqlTypeWrapper.string.injEq, exists_eq_right] at hExtract
        exact absurd (hShort s hExtract) (Nat.lt_irrefl _)
      · next hTemplate =>
        obtain ⟨w, hText, hAll⟩ := pure_of_not_template hSign hTemplate
        rw [hText, fieldOrLiteral] at hExtract
        obtain ⟨value, hValue, hLe⟩ := fieldValue_string hExtract
        have hNonempty : w ≠ [] := by
          rintro rfl
          cases hValue
        have hExpand := expand_run lib logParams m (s := []) hNonempty hAll stops_nil
        rw [List.append_nil, hValue] at hExpand
        have hLt := hShort (value ++ []) (by rw [hText, hExpand]; rfl)
        rw [List.append_nil] at hLt
        omega
  · rintro ⟨hOperator, hApart⟩
    have hTemplate : isStringTemplate lib (templateText parts) = true := by
      by_contra hNot
      obtain ⟨w, hText, hAll⟩ := pure_of_not_template hSign hNot
      exact hPure w hText hAll hApart
    rw [hOperator, if_neg (by simp), if_pos hTemplate, expand_apart hIntended hApart, hs]
    rfl

end Claim

/-! ### Two templates -/

theorem Intended.apart {lib : Library} {form : List Char → Option (List Char)} {path : List Char}
    {parts : List Part} (h : Intended lib form parts) (hNonempty : path ≠ [])
    (hPath : ∀ c ∈ path, isFieldChar lib c = true) (hForm : (form path).isSome)
    (hDot : path.getLast? ≠ some '.') (hStops : Stops (isFieldChar lib) (templateText parts)) :
    Intended lib form (.reference path :: parts) := by
  refine .reference h hNonempty hPath ⟨hForm, ?_⟩ (stops_name hStops) ?_
  · rintro shorter rfl
    simp at hDot
  · rintro t u hText hNonempty hAll
    cases t with
    | nil => exact absurd rfl hNonempty
    | cons c t =>
      rw [hText] at hStops
      have := stops_cons.mp hStops
      rw [hAll c List.mem_cons_self] at this
      cases this

def transferParams : List LogParam :=
  [⟨"from".toList, .address (List.replicate 20 0x22), []⟩,
    ⟨"to".toList, .address (List.replicate 20 0x11), []⟩]

def transferMetadata : TxMetadata where
  blockNumber := 7
  blockTimestamp := none
  txHash := List.replicate 32 0
  blockHash := List.replicate 32 0
  contractAddress := List.replicate 20 0
  logIndex := 0
  txIndex := 0

/-- `By $from`. -/
def senderTemplate : List Part := [.char 'B', .char 'y', .char ' ', .reference "from".toList]

theorem senderTemplate_intended :
    Intended asciiLibrary
      (fun path => resolveFieldToString asciiLibrary path transferParams transferMetadata)
      senderTemplate :=
  .char 'B' (.char 'y' (.char ' ' (.apart .nil (by decide) (by decide) (by decide)
    (by decide) stops_nil) (by simp)) (by simp)) (by simp)

theorem senderTemplate_expands :
    ∃ s, fill (fun path => resolveFieldToString asciiLibrary path transferParams transferMetadata)
        senderTemplate = some s ∧
      (extractValueFromEventAsync asciiLibrary noSources (templateText senderTemplate) transferParams
          transferMetadata .string = .ok (some (.string s)) ↔
        hasOperator (templateText senderTemplate) = false ∧ Apart asciiLibrary senderTemplate) :=
  template_expands_iff asciiLibrary noSources transferParams transferMetadata senderTemplate_intended
    ⟨"from".toList, by simp [senderTemplate]⟩ (by simp [senderTemplate])
    (by unfold HasOtherForm; decide)

/-- `$from-$to`. -/
def pairTemplate : List Part := [.reference "from".toList, .char '-', .reference "to".toList]

/-- The pair of two addresses is stored as their difference. -/
theorem pair_is_subtracted :
    Intended asciiLibrary
        (fun path => resolveFieldToString asciiLibrary path transferParams transferMetadata)
        pairTemplate ∧
      templateText pairTemplate = "$from-$to".toList ∧
      fill (fun path => resolveFieldToString asciiLibrary path transferParams transferMetadata)
        pairTemplate = some
          "0x2222222222222222222222222222222222222222-0x1111111111111111111111111111111111111111".toList ∧
      extractValueFromEventAsync asciiLibrary noSources "$from-$to".toList transferParams
        transferMetadata .string =
          .ok (some (.u256Numeric 0x1111111111111111111111111111111111111111)) := by
  refine ⟨?_, rfl, by decide, by rfl⟩
  exact .apart (.char '-' (.apart .nil (by decide) (by decide) (by decide) (by decide)
    stops_nil) (by simp)) (by decide) (by decide) (by decide) (by decide)
    (stops_cons.mpr (by decide))

end Rindexer.Extraction
