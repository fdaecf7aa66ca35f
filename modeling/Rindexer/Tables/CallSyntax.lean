import Rindexer.Tables.ReturnFields

/-! Accessors, arguments and conditional values in the documented syntax, and which of them are read back
as they were written. -/

namespace Rindexer.Tables

open Rindexer.Lib Rindexer.Database Rindexer.Filter Splitter

/-! ### Accessors -/

namespace AccessorSegment

def IsWritten : AccessorSegment → Prop
  | index idx => idx < 2 ^ 64
  | field name => IsWord name ∧ ∀ c ∈ name, endsField c = false

def text : AccessorSegment → List Char
  | index idx => '[' :: (toString idx).toList ++ [']']
  | field name => '.' :: name

end AccessorSegment

abbrev Segment := {segment : AccessorSegment // segment.IsWritten}

def accessorText (segments : List Segment) : List Char := segments.flatMap fun s => s.val.text

theorem digit_ne_bracket {c : Char} (h : c.isDigit = true) : c ≠ ']' ∧ c ≠ ')' := by
  constructor <;> rintro rfl <;> cases h

/-- An accessor has no whitespace and no parenthesis. -/
theorem accessorText_chars (segments : List Segment) :
    ∀ c ∈ accessorText segments, isWhiteSpace c = false ∧ c ≠ ')' := by
  intro c hc
  obtain ⟨⟨segment, hWritten⟩, -, hc⟩ := List.mem_flatMap.mp hc
  cases segment with
  | index idx =>
    simp only [AccessorSegment.text, List.cons_append, List.mem_cons, List.mem_append,
      List.not_mem_nil, or_false] at hc
    rcases hc with rfl | hc | rfl
    · decide
    · have hDigit := (isDigits_toString idx).2 c hc
      exact ⟨not_whiteSpace_of_digit hDigit, (digit_ne_bracket hDigit).2⟩
    · decide
  | field name =>
    rcases List.mem_cons.mp hc with rfl | hc
    · decide
    · exact ⟨hWritten.1.no_blank c hc, (hWritten.1.no_paren c hc).2⟩

theorem parseUsize_toString {idx : Nat} (h : idx < 2 ^ 64) :
    parseUsize (toString idx).toList = some idx := by
  have hDigits := isDigits_toString idx
  have hHead : (toString idx).toList.head? ≠ some '+' := by
    intro hPlus
    exact absurd (hDigits.2 _ (List.mem_of_head? hPlus)) (by decide)
  have hValue : Nat.ofDigitChars 10 (toString idx).toList 0 = idx := decimalValue_toString idx
  rw [parseUsize]
  simp only [if_neg hHead, hValue]
  rw [if_pos ⟨hDigits.1, List.all_eq_true.mpr hDigits.2, h⟩]

theorem takeWhile_append_stop {p : Char → Bool} {s t : List Char} (hs : ∀ c ∈ s, p c = true)
    (ht : ∀ c, t.head? = some c → p c = false) :
    (s ++ t).takeWhile p = s ∧ (s ++ t).dropWhile p = t := by
  rw [List.takeWhile_append_of_pos hs, List.dropWhile_append_of_pos hs]
  cases t with
  | nil => simp
  | cons c t =>
    have hc := ht c rfl
    simp [hc]

theorem accessorText_head (segments : List Segment) (c : Char)
    (h : (accessorText segments).head? = some c) : endsField c = true := by
  cases segments with
  | nil => cases h
  | cons segment segments =>
    obtain ⟨segment, hWritten⟩ := segment
    cases segment <;> cases h <;> rfl

theorem accessorSegments_text (segments : List Segment) (fuel : Nat)
    (h : (accessorText segments).length ≤ fuel) :
    accessorSegments fuel (accessorText segments) = segments.map Subtype.val := by
  induction segments generalizing fuel with
  | nil => cases fuel <;> rfl
  | cons segment segments ih =>
    obtain ⟨segment, hWritten⟩ := segment
    cases segment with
    | index idx =>
      have hText : accessorText (⟨.index idx, hWritten⟩ :: segments) =
          '[' :: ((toString idx).toList ++ (']' :: accessorText segments)) := by
        simp [accessorText, AccessorSegment.text]
      obtain ⟨hTake, hDrop⟩ := @takeWhile_append_stop (· != ']') (toString idx).toList
        (']' :: accessorText segments)
        (fun c hc => bne_iff_ne.mpr (digit_ne_bracket ((isDigits_toString idx).2 c hc)).1)
        (fun c hc => by cases hc; rfl)
      rw [hText, List.length_cons, List.length_append, List.length_cons] at h
      cases fuel with
      | zero => omega
      | succ fuel =>
        rw [hText, accessorSegments, if_pos rfl, if_pos (by simp), hTake, hDrop,
          parseUsize_toString hWritten, List.drop_one, List.tail_cons, ih fuel (by omega)]
        rfl
    | field name =>
      have hText : accessorText (⟨.field name, hWritten⟩ :: segments) =
          '.' :: (name ++ accessorText segments) := by
        simp [accessorText, AccessorSegment.text]
      obtain ⟨hTake, hDrop⟩ := @takeWhile_append_stop (! endsField ·) name (accessorText segments)
        (fun c hc => by rw [hWritten.2 c hc]; rfl)
        (fun c hc => by rw [accessorText_head segments c hc]; rfl)
      rw [hText, List.length_cons, List.length_append] at h
      cases fuel with
      | zero => omega
      | succ fuel =>
        rw [hText, accessorSegments, if_neg (by decide), if_pos rfl, hTake, hDrop,
          ih fuel (by omega)]
        simp only [if_neg hWritten.1.1]
        rfl

theorem parseAccessorSegments_text (segments : List Segment) :
    parseAccessorSegments (accessorText segments) = segments.map Subtype.val := by
  rw [parseAccessorSegments, trim_eq_self fun c hc => (accessorText_chars segments c hc).1]
  exact accessorSegments_text segments _ (Nat.le_refl _)

/-! ### Arguments -/

/-- The scanner of the documented syntax: quotes protect what is between them. -/
def quotedStep (q : Bool × Int) (c : Char) : Bool × Int :=
  if c = '"' then (!q.1, q.2) else if q.1 then q else (q.1, parenStep q.2 c)

def quotedSplitter : Splitter Char (Bool × Int) := ⟨quotedStep, (false, 0), ','⟩

/-- Quotes and parentheses that start in the text end there. -/
def Encloses (sp : Splitter Char (Bool × Int)) (s : List Char) : Prop :=
  (∀ u, u <+: s → 0 ≤ (sp.run sp.home u).2) ∧ sp.run sp.home s = sp.home

/-- A text that is one argument. -/
def IsArgument (sp : Splitter Char (Bool × Int)) (s : List Char) : Prop :=
  sp.Uncut sp.home s ∧ Encloses sp s

/-- An expression as it is written: commas are within quotes or groups. -/
structure Expression where
  text : List Char
  trimmed : trim text = text
  isArgument : IsArgument quotedSplitter text

structure Argument extends Expression where
  nonempty : text ≠ []

theorem quotes_congr {q r : Bool × Int} (h : q.1 = r.1) (s : List Char) :
    (quotedSplitter.run q s).1 = (quotedSplitter.run r s).1 := by
  induction s generalizing q r with
  | nil => exact h
  | cons c s ih =>
    refine ih ?_
    simp only [quotedSplitter, quotedStep, h]
    split
    · rfl
    · split <;> simp [h]

theorem run_argSplitter (q : Bool × Int) (s : List Char) :
    argSplitter.run q s = ((quotedSplitter.run q s).1, q.2 + depth s) := by
  induction s generalizing q with
  | nil => simp
  | cons c s ih =>
    have hFlag : (argStep q c).1 = (quotedStep q c).1 := by
      rw [argStep, quotedStep]
      split
      · rfl
      · split <;> rfl
    have hDepth : (argStep q c).2 = q.2 + depth [c] := by
      rw [argStep]
      split
      · next hc =>
        rw [hc]
        exact (Int.add_zero q.2).symm
      · exact run_parenSplitter q.2 [c]
    rw [Splitter.run_cons, ih, depth_cons]
    refine Prod.ext (quotes_congr hFlag s) ?_
    show (argStep q c).2 + depth s = _
    rw [hDepth, Int.add_assoc]

theorem encloses_iff {s : List Char} (hQuotes : (quotedSplitter.run (false, 0) s).1 = false) :
    Encloses argSplitter s ↔ Balanced s := by
  have hDepth : ∀ u, (argSplitter.run argSplitter.home u).2 = depth u := by
    intro u
    rw [run_argSplitter]
    exact Int.zero_add _
  have hEnd : argSplitter.run argSplitter.home s = argSplitter.home ↔ depth s = 0 := by
    rw [run_argSplitter]
    change ((quotedSplitter.run (false, 0) s).1, (0 : Int) + depth s) = (false, 0) ↔ _
    rw [hQuotes, Int.zero_add, Prod.mk.injEq]
    exact and_iff_right rfl
  simp only [Encloses, Balanced, hDepth, hEnd]

/-- What the scanner of arguments has to see of an expression. -/
theorem Expression.isArgument_iff (e : Expression) :
    IsArgument argSplitter e.text ↔ argSplitter.Uncut argSplitter.home e.text ∧ Balanced e.text :=
  and_congr_right fun _ => encloses_iff (congrArg Prod.fst e.isArgument.2.2)

/-! ### Quoted texts -/

def quoted (s : List Char) : List Char := '"' :: s ++ ['"']

theorem run_quoted {s : List Char} (h : '"' ∉ s) (d : Int) :
    quotedSplitter.run (true, d) s = (true, d) := by
  induction s with
  | nil => rfl
  | cons c s ih =>
    rw [List.mem_cons, not_or] at h
    have hStep : quotedStep (true, d) c = (true, d) := by
      rw [quotedStep, if_neg fun hc => h.1 hc.symm, if_pos rfl]
    rw [Splitter.run_cons]
    exact (congrArg (quotedSplitter.run · s) hStep).trans (ih h.2)

theorem uncut_of_quoted {sp : Splitter Char (Bool × Int)} (hHome : sp.home.1 = false)
    (hStep : ∀ q c, c ≠ '"' → (sp.step q c).1 = q.1) {q : Bool × Int} (hq : q.1 = true)
    {s : List Char} (h : '"' ∉ s) : sp.Uncut q s := by
  induction s generalizing q with
  | nil => trivial
  | cons c s ih =>
    rw [List.mem_cons, not_or] at h
    refine ⟨fun hc => ?_, ih ((hStep q c fun hEq => h.1 hEq.symm).trans hq) h.2⟩
    rw [hc.2, hHome] at hq
    cases hq

theorem argStep_flag (q : Bool × Int) (c : Char) (hc : c ≠ '"') : (argStep q c).1 = q.1 := by
  rw [argStep, if_neg hc]

theorem quotedStep_flag (q : Bool × Int) (c : Char) (hc : c ≠ '"') : (quotedStep q c).1 = q.1 := by
  rw [quotedStep, if_neg hc]
  split <;> rfl

theorem run_quotedText {s : List Char} (h : '"' ∉ s) : quotedSplitter.run (false, 0) (quoted s) = (false, 0) := by
  rw [quoted, Splitter.run_append, Splitter.run_cons]
  exact congrArg (quotedSplitter.run · ['"']) (run_quoted h 0)

theorem balanced_quoted_iff {s : List Char} : Balanced (quoted s) ↔ Balanced s := by
  have hQuote : Balanced ['"'] := balanced_of_no_paren (by decide)
  rw [quoted, List.cons_append, show '"' :: (s ++ ['"']) = ['"'] ++ (s ++ ['"']) from rfl,
    balanced_append hQuote.2]
  constructor
  · rintro ⟨-, hPre, hEnd⟩
    refine ⟨fun u hu => hPre u (hu.trans (List.prefix_append _ _)), ?_⟩
    rw [depth_append] at hEnd
    exact (Int.add_zero _).symm.trans hEnd
  · exact fun h => ⟨hQuote, (balanced_append h.2).mpr ⟨h, hQuote⟩⟩

theorem uncut_quoted {sp : Splitter Char (Bool × Int)} (hHome : sp.home.1 = false)
    (hSep : sp.separator = ',') (hQuote : (sp.step sp.home '"').1 = true)
    (hStep : ∀ q c, c ≠ '"' → (sp.step q c).1 = q.1) {s : List Char} (h : '"' ∉ s) :
    sp.Uncut sp.home (quoted s) := by
  have hNot : '"' ≠ sp.separator := by
    rw [hSep]
    decide
  refine sp.uncut_append.mpr ⟨⟨fun hc => hNot hc.1, uncut_of_quoted hHome hStep hQuote h⟩, ?_, trivial⟩
  exact fun hc => hNot hc.1

/-- Any text without quotes is an argument once it is quoted. -/
theorem quoted_isArgument {s : List Char} (h : '"' ∉ s) : IsArgument quotedSplitter (quoted s) := by
  have hHome := run_quotedText h
  refine ⟨uncut_quoted rfl rfl rfl quotedStep_flag h, fun u hu => ?_, hHome⟩
  cases u with
  | nil => exact Int.le_refl 0
  | cons c v =>
    obtain ⟨rfl, hv⟩ := List.cons_prefix_cons.mp hu
    rcases isPrefix_append_cases hv with hv | ⟨w, rfl, hNonempty, hw⟩
    · have hRun := run_quoted (fun hMem => h (hv.subset hMem)) 0
      exact (congrArg Prod.snd hRun).ge
    · rcases List.prefix_cons_iff.mp hw with rfl | ⟨x, rfl, hx⟩
      · exact absurd rfl hNonempty
      · rw [List.prefix_nil.mp hx]
        exact (congrArg Prod.snd hHome).ge

theorem trim_quoted (s : List Char) : trim (quoted s) = quoted s := by
  have hLast : (quoted s).getLast? = some '"' := List.getLast?_concat
  exact @trim_of_ends '"' '"' _ rfl rfl rfl hLast

def Argument.quoted (s : List Char) (h : '"' ∉ s) : Argument where
  text := Tables.quoted s
  trimmed := trim_quoted s
  isArgument := quoted_isArgument h
  nonempty := List.cons_ne_nil _ _

/-- A quoted argument is seen as one argument if the parentheses within it match. -/
theorem quoted_isArgument_iff {s : List Char} (h : '"' ∉ s) :
    IsArgument argSplitter (quoted s) ↔ Balanced s := by
  rw [show quoted s = (Argument.quoted s h).text from rfl, Expression.isArgument_iff]
  refine (and_iff_right ?_).trans balanced_quoted_iff
  exact uncut_quoted rfl rfl rfl argStep_flag h

/-! ### Conditional values -/

/-- `$if(condition, trueValue, falseValue)`. -/
def conditionalText (condition trueValue falseValue : Expression) : List Char :=
  "$if(".toList ++
    joined parenSplitter ' ' [condition.text, trueValue.text, falseValue.text] ++ [')']

/-- A trimmed text among the parts, read by trimming. -/
def trimmedPart (s : List Char) : Part Char (List Char) := ⟨s, trim⟩

theorem reads_of_map_trim {pieces texts : List (List Char)} (h : ∀ t ∈ texts, trim t = t)
    (hPieces : pieces.map trim = texts) :
    List.Forall₂ (fun t p => p.read t = p.read p.text) pieces (texts.map trimmedPart) := by
  induction texts generalizing pieces with
  | nil =>
    rw [List.map_eq_nil_iff.mp hPieces]
    exact .nil
  | cons t texts ih =>
    obtain ⟨piece, rest, rfl, hPiece, hRest⟩ := List.map_eq_cons_iff.mp hPieces
    refine .cons ?_ (ih (fun u hu => h u (List.mem_cons_of_mem _ hu)) hRest)
    exact hPiece.trans (h t List.mem_cons_self).symm

theorem map_trimmedPart (texts : List (List Char)) : (texts.map trimmedPart).map Part.text = texts := by
  rw [List.map_map]
  exact List.map_id texts

/-- The condition and the first value end outside of groups, and no comma of the three is there, where
quotes do not count. -/
def ConditionalReads (condition trueValue falseValue : Expression) : Prop :=
  (parenSplitter.Uncut 0 condition.text ∧ depth condition.text = 0) ∧
    (parenSplitter.Uncut 0 trueValue.text ∧ depth trueValue.text = 0) ∧
      parenSplitter.Uncut 0 falseValue.text

theorem parseConditionalValue_text (condition trueValue falseValue : Expression) :
    parseConditionalValue (conditionalText condition trueValue falseValue) =
        some (condition.text, trueValue.text, falseValue.text) ↔
      ConditionalReads condition trueValue falseValue := by
  obtain ⟨texts, hTexts⟩ : ∃ texts, [condition.text, trueValue.text, falseValue.text] = texts :=
    ⟨_, rfl⟩
  have hKeeps : KeepsApart parenSplitter texts ↔ ConditionalReads condition trueValue falseValue := by
    rw [← hTexts]
    simp only [KeepsApart, ConditionalReads, and_assoc]
    rfl
  have hTrimmed : ∀ t ∈ texts, trim t = t := by
    rw [← hTexts]
    simp [condition.trimmed, trueValue.trimmed, falseValue.trimmed]
  have hText : conditionalText condition trueValue falseValue =
      "$if(".toList ++ joined parenSplitter ' ' texts ++ [')'] := by rw [← hTexts]; rfl
  have hOpen : "$if(".toList.isPrefixOf ("$if(".toList ++ joined parenSplitter ' ' texts ++ [')']) ∧
      4 < ("$if(".toList ++ joined parenSplitter ' ' texts ++ [')']).length ∧
      ("$if(".toList ++ joined parenSplitter ' ' texts ++ [')']).getLast? = some ')' := by
    refine ⟨rfl, ?_, List.getLast?_concat⟩
    simp
  have hInner : (("$if(".toList ++ joined parenSplitter ' ' texts ++ [')']).drop 4).dropLast =
      joined parenSplitter ' ' texts := List.dropLast_concat
  have hPieces : (splitLoop parenSplitter [] [] 0 (joined parenSplitter ' ' texts)).1 ++
      [(splitLoop parenSplitter [] [] 0 (joined parenSplitter ' ' texts)).2] =
        parenSplitter.pieces 0 (joined parenSplitter ' ' texts) := splitLoop_pieces parenSplitter _
  rw [hText, parseConditionalValue, if_pos hOpen, hInner, ← hKeeps]
  dsimp only
  rw [hPieces]
  constructor
  · intro hRead
    have hMap : (parenSplitter.pieces 0 (joined parenSplitter ' ' texts)).map trim = texts := by
      split at hRead
      · next hThree =>
        cases hRead
        rw [hThree, hTexts]
      · cases hRead
    have hReads := reads_of_map_trim hTrimmed hMap
    have hAll := keepsApart_of_reads parenSplitter_steady (by rw [← hTexts]; simp)
      (fun p hp => by
        obtain ⟨t, -, rfl⟩ := List.mem_map.mp hp
        exact settled_trim parenSplitter rfl t)
      (by rw [map_trimmedPart]; exact (List.append_nil _).symm) hReads
    rw [map_trimmedPart] at hAll
    exact hAll.2
  · intro hApart
    subst hTexts
    rw [show parenSplitter.pieces 0 _ = _ from pieces_joined parenSplitter_steady hApart]
    simp only [List.map_cons, List.map_nil, trim_space, condition.trimmed, trueValue.trimmed,
      falseValue.trimmed]

end Rindexer.Tables
