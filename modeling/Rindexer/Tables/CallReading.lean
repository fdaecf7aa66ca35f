import Rindexer.Tables.ViewCallText

/-! Where reading a call panics, and which expressions of a manifest are read back. -/

namespace Rindexer.Tables

open Rindexer.Lib Rindexer.Database Rindexer.Filter Splitter

section Completes

variable {α β : Type}

/-- A computation that does not panic. -/
def Completes (x : Except Panic α) : Prop := ∃ a, x = .ok a

theorem completes_ok (a : α) : Completes (.ok a : Except Panic α) := ⟨a, rfl⟩

theorem completes_bind {x : Except Panic α} {f : α → Except Panic β} :
    Completes (x >>= f) ↔ ∃ a, x = .ok a ∧ Completes (f a) := by
  cases x with
  | error p => exact ⟨fun ⟨_, h⟩ => (nomatch h), fun ⟨_, h, _⟩ => (nomatch h)⟩
  | ok a =>
    rw [ok_bind]
    exact ⟨fun h => ⟨a, rfl, h⟩, fun ⟨_, h, hRuns⟩ => by cases h; exact hRuns⟩

theorem completes_mapM {f : α → Except Panic β} {l : List α} :
    Completes (l.mapM f) ↔ ∀ a ∈ l, Completes (f a) := by
  induction l with
  | nil => exact iff_of_true (completes_ok _) fun a ha => nomatch ha
  | cons a l ih =>
    rw [List.mapM_cons, completes_bind, List.forall_mem_cons, ← ih]
    constructor
    · rintro ⟨b, hb, hRest⟩
      obtain ⟨bs, hbs, -⟩ := completes_bind.mp hRest
      exact ⟨⟨b, hb⟩, bs, hbs⟩
    · rintro ⟨⟨b, hb⟩, bs, hbs⟩
      exact ⟨b, hb, completes_bind.mpr ⟨bs, hbs, completes_ok _⟩⟩

end Completes

/-! ### Slices that do not panic -/

theorem sliceFrom_eq_ok {s t : List Char} {n : Nat} :
    sliceFrom s n = .ok t ↔ ∃ u, s = u ++ t ∧ utf8Len u = n := by
  refine ⟨eq_append_of_sliceFrom, ?_⟩
  rintro ⟨u, rfl, rfl⟩
  exact sliceFrom_append u t

theorem sliceTo_eq_ok {s t : List Char} {n : Nat} :
    sliceTo s n = .ok t ↔ ∃ u, s = t ++ u ∧ utf8Len t = n := by
  constructor
  · intro h
    induction s generalizing n t with
    | nil =>
      cases n with
      | zero =>
        cases h
        exact ⟨[], rfl, rfl⟩
      | succ n => cases h
    | cons c s ih =>
      cases n with
      | zero =>
        cases h
        exact ⟨c :: s, rfl, rfl⟩
      | succ n =>
        rw [sliceTo] at h
        split at h
        · next hSize =>
          rcases hRest : sliceTo s (n + 1 - c.utf8Size) with _ | r
          · rw [hRest] at h
            cases h
          · rw [hRest] at h
            cases h
            obtain ⟨u, rfl, hu⟩ := ih hRest
            refine ⟨u, rfl, ?_⟩
            rw [utf8Len_cons, hu]
            omega
        · cases h
  · rintro ⟨u, rfl, rfl⟩
    exact sliceTo_append t u

theorem slice_eq_ok {s t : List Char} {a b : Nat} :
    slice s a b = .ok t ↔ ∃ u v, s = u ++ t ++ v ∧ utf8Len u = a ∧ utf8Len (u ++ t) = b := by
  constructor
  · intro h
    rcases hTo : sliceTo s b with _ | r
    · rw [slice, hTo] at h
      cases h
    · rw [slice, hTo, ok_bind, sliceFrom_eq_ok] at h
      obtain ⟨u, rfl, hu⟩ := h
      obtain ⟨v, rfl, hv⟩ := sliceTo_eq_ok.mp hTo
      exact ⟨u, v, rfl, hu, hv⟩
  · rintro ⟨u, v, rfl, rfl, rfl⟩
    exact slice_append u t v

/-- An offset between two characters. -/
def IsBoundary (s : List Char) (n : Nat) : Prop := ∃ u v, s = u ++ v ∧ utf8Len u = n

theorem completes_sliceFrom {s : List Char} {n : Nat} : Completes (sliceFrom s n) ↔ IsBoundary s n := by
  simp only [Completes, sliceFrom_eq_ok]
  exact exists_comm

/-! ### Fields -/

/-- The parenthesis that closes a nested tuple, counted in characters, is one byte in front of a
character: in each field of a list, and in the fields of its tuples. -/
def FieldsCut : Nat → List Char → Prop
  | 0, _ => True
  | fuel + 1, text =>
    (trim text).head? = some '(' ∧ (trim text).getLast? = some ')' →
      ∀ piece ∈ parenSplitter.pieces 0 (trim text).tail.dropLast, ∀ stop,
        (trim piece).head? = some '(' → closingParen (fun _ => 1) 0 0 (trim piece) = some stop →
          ∃ tuplePart name, trim piece = tuplePart ++ name ∧ utf8Len tuplePart = stop + 1 ∧
            FieldsCut fuel tuplePart

theorem dropWhile_head {p : Char → Bool} {s : List Char} {c : Char}
    (h : (s.dropWhile p).head? = some c) : p c = false := by
  have := List.head?_dropWhile_not p s
  rw [h] at this
  simpa using this

theorem trim_trim (s : List Char) : trim (trim s) = trim s := by
  cases hTrim : trim s with
  | nil => rfl
  | cons c t =>
    have hRev : (c :: t).reverse = (s.dropWhile isWhiteSpace).reverse.dropWhile isWhiteSpace := by
      rw [← hTrim, trim, List.reverse_reverse]
    have hLast : ∀ d, (c :: t).getLast? = some d → isWhiteSpace d = false := by
      intro d hd
      rw [← List.head?_reverse, hRev] at hd
      exact dropWhile_head hd
    have hHead : isWhiteSpace c = false := by
      have hPart : (c :: t) <+: s.dropWhile isWhiteSpace := by
        have hSuffix := List.dropWhile_suffix isWhiteSpace (l := (s.dropWhile isWhiteSpace).reverse)
        rw [← hRev] at hSuffix
        simpa using List.reverse_suffix.mp hSuffix
      obtain ⟨r, hr⟩ := hPart
      exact dropWhile_head (by rw [← hr]; rfl)
    obtain ⟨d, hd⟩ : ∃ d, (c :: t).getLast? = some d :=
      ⟨_, List.getLast?_eq_some_getLast (List.cons_ne_nil c t)⟩
    exact trim_of_ends hHead (hLast d hd) rfl hd

theorem completes_parseSingleReturnField {read : List Char → Except Panic (List ReturnField)}
    {text : List Char} :
    Completes (parseSingleReturnField read (trim text)) ↔ ∀ stop, (trim text).head? = some '(' →
      closingParen (fun _ => 1) 0 0 (trim text) = some stop →
        ∃ tuplePart name, trim text = tuplePart ++ name ∧ utf8Len tuplePart = stop + 1 ∧
          Completes (read tuplePart) := by
  rw [parseSingleReturnField]
  simp only [trim_trim]
  split
  · next hNil =>
    refine iff_of_true (completes_ok _) fun stop hHead => ?_
    rw [hNil] at hHead
    cases hHead
  · split
    · next hHead =>
      cases hClosing : closingParen (fun _ => 1) 0 0 (trim text) with
      | none => exact iff_of_true (completes_ok _) (by rintro _ _ ⟨⟩)
      | some stop =>
        dsimp only
        constructor
        · intro hRuns stop' _ hStop
          cases hStop
          obtain ⟨tuplePart, hTuple, hRuns⟩ := completes_bind.mp hRuns
          obtain ⟨rest, hText, hLen⟩ := sliceTo_eq_ok.mp hTuple
          obtain ⟨name, hName, hTail⟩ := completes_bind.mp hRuns
          obtain ⟨fields, hFields, -⟩ := completes_bind.mp hTail
          exact ⟨tuplePart, rest, hText, hLen, fields, hFields⟩
        · intro h
          obtain ⟨tuplePart, rest, hText, hLen, fields, hFields⟩ := h stop hHead rfl
          refine completes_bind.mpr ⟨tuplePart, sliceTo_eq_ok.mpr ⟨rest, hText, hLen⟩, ?_⟩
          refine completes_bind.mpr ⟨rest, sliceFrom_eq_ok.mpr ⟨tuplePart, hText, hLen⟩, ?_⟩
          exact completes_bind.mpr ⟨fields, hFields, completes_ok _⟩
    · next hHead => exact iff_of_true (completes_ok _) fun stop h => absurd h hHead

theorem completes_parseReturnFieldList {read : List Char → Except Panic (List ReturnField)}
    {s : List Char} :
    Completes (parseReturnFieldList read s) ↔ ∀ piece ∈ parenSplitter.pieces 0 s, ∀ stop,
      (trim piece).head? = some '(' → closingParen (fun _ => 1) 0 0 (trim piece) = some stop →
        ∃ tuplePart name, trim piece = tuplePart ++ name ∧ utf8Len tuplePart = stop + 1 ∧
          Completes (read tuplePart) := by
  have hPieces := splitLoop_pieces parenSplitter s
  rw [parseReturnFieldList]
  rcases hLoop : splitLoop parenSplitter [] [] 0 s with ⟨parts, current⟩
  change (splitLoop parenSplitter [] [] 0 s).1 ++ [(splitLoop parenSplitter [] [] 0 s).2] =
    parenSplitter.pieces 0 s at hPieces
  rw [hLoop] at hPieces
  dsimp only at hPieces ⊢
  have hSimple : ∀ {x : Except Panic (List (Option ReturnField))},
      Completes (x >>= fun fields => pure (fields.filterMap id)) ↔ Completes x := by
    intro x
    rw [completes_bind]
    constructor
    · rintro ⟨a, ha, -⟩
      exact ⟨a, ha⟩
    · rintro ⟨a, ha⟩
      exact ⟨a, ha, completes_ok _⟩
  rw [hSimple, completes_mapM, ← hPieces]
  simp only [completes_parseSingleReturnField]
  split
  · next hNil =>
    -- an empty text is no tuple
    rw [List.forall_mem_append, List.forall_mem_singleton, and_iff_left]
    intro stop hHead
    rw [hNil] at hHead
    cases hHead
  · rfl

theorem completes_parseReturnFieldsTo (fuel : Nat) (text : List Char) :
    Completes (parseReturnFieldsTo fuel text) ↔ FieldsCut fuel text := by
  induction fuel generalizing text with
  | zero => exact iff_of_true (completes_ok _) trivial
  | succ fuel ih =>
    rw [parseReturnFieldsTo, FieldsCut]
    split
    · next hParens => simp only [completes_parseReturnFieldList, ih, hParens, and_self, true_imp_iff]
    · next hNot => exact iff_of_true (completes_ok _) fun h => absurd h hNot

theorem completes_parseReturnFields (s : List Char) : Completes (parseReturnFields s) ↔ FieldsCut s.length s :=
  completes_parseReturnFieldsTo _ s

/-! ### View calls -/

section ViewCalls

variable (lower : LowerCase)

/-- The first ` returns ` of the lower-case text is between characters of the text itself, which goes on
with fields that can be cut. -/
def SignatureCut (sig : List Char) : Prop :=
  ∀ returnsIdx, findText " returns ".toList (lower.toLowercase sig) = some returnsIdx →
    IsBoundary sig returnsIdx ∧ ∃ u v, sig = u ++ v ∧ utf8Len u = returnsIdx + 9 ∧
      FieldsCut (trim v).length (trim v)

def openLength (value : List Char) : Nat :=
  if "$call_static(".toList.isPrefixOf value then 13 else 6

/-- The parenthesis that closes the call, counted in characters, is an offset between characters, and
so is the next one; and the signature that they cut out can be cut. -/
def ViewCallCut (value : List Char) : Prop :=
  ∀ callEnd, closingParen (fun _ => 1) (openLength value) 1 (value.drop (openLength value)) =
      some callEnd →
    ∃ front inner rest, value = front ++ inner ++ rest ∧ utf8Len front = openLength value ∧
      utf8Len (front ++ inner) = callEnd ∧
      (callEnd + 1 < utf8Len value → IsBoundary value (callEnd + 1)) ∧
      ∀ address fullSig args, splitCallArgs inner = address :: fullSig :: args →
        SignatureCut lower (trimQuotes (trim fullSig))

theorem completes_parseFunctionSigWithReturns (sig : List Char) :
    Completes (parseFunctionSigWithReturns lower sig) ↔ SignatureCut lower sig := by
  rw [parseFunctionSigWithReturns, SignatureCut]
  cases findText " returns ".toList (lower.toLowercase sig) with
  | none => exact iff_of_true (completes_ok _) (by rintro _ ⟨⟩)
  | some returnsIdx =>
    dsimp only
    constructor
    · intro hRuns idx hIdx
      cases hIdx
      obtain ⟨u, hu, hRuns⟩ := completes_bind.mp hRuns
      obtain ⟨v, hv, hRuns⟩ := completes_bind.mp hRuns
      obtain ⟨fields, hFields, -⟩ := completes_bind.mp hRuns
      obtain ⟨r, hText, hLen⟩ := sliceTo_eq_ok.mp hu
      obtain ⟨w, hText', hLen'⟩ := sliceFrom_eq_ok.mp hv
      exact ⟨⟨u, r, hText, hLen⟩, w, v, hText', hLen', (completes_parseReturnFields _).mp ⟨fields, hFields⟩⟩
    · intro h
      obtain ⟨⟨u, r, hText, hLen⟩, w, v, hText', hLen', hCut⟩ := h returnsIdx rfl
      obtain ⟨fields, hFields⟩ := (completes_parseReturnFields _).mpr hCut
      refine completes_bind.mpr ⟨u, sliceTo_eq_ok.mpr ⟨r, hText, hLen⟩, ?_⟩
      refine completes_bind.mpr ⟨v, sliceFrom_eq_ok.mpr ⟨w, hText', hLen'⟩, ?_⟩
      exact completes_bind.mpr ⟨fields, hFields, completes_ok _⟩

theorem completes_accessorAfter {value : List Char} {callEnd : Nat} :
    Completes (accessorAfter value callEnd) ↔
      (callEnd + 1 < utf8Len value → IsBoundary value (callEnd + 1)) := by
  rw [accessorAfter]
  split
  · next hMore =>
    rw [completes_bind, ← completes_sliceFrom]
    constructor
    · rintro ⟨a, ha, -⟩ -
      exact ⟨a, ha⟩
    · exact fun h => (h hMore).imp fun a ha => ⟨ha, completes_ok _⟩
  · next hEnd => exact iff_of_true (completes_ok _) fun h => absurd h hEnd

theorem completes_viewCallOf {isStatic : Bool} {accessor : Option (List Char)} {pieces : List (List Char)} :
    Completes (viewCallOf lower isStatic accessor pieces) ↔ ∀ address fullSig args,
      pieces = address :: fullSig :: args → SignatureCut lower (trimQuotes (trim fullSig)) := by
  match pieces with
  | [] => exact iff_of_true (completes_ok _) fun _ _ _ h => nomatch h
  | [_] => exact iff_of_true (completes_ok _) fun _ _ _ h => nomatch h
  | address :: fullSig :: args =>
    rw [viewCallOf, completes_bind]
    constructor
    · rintro ⟨pair, hPair, -⟩ address' fullSig' args' hPieces
      cases hPieces
      exact (completes_parseFunctionSigWithReturns lower _).mp ⟨pair, hPair⟩
    · intro h
      obtain ⟨pair, hPair⟩ := (completes_parseFunctionSigWithReturns lower _).mpr (h _ _ _ rfl)
      exact ⟨pair, hPair, completes_ok _⟩

theorem completes_parseViewCall (value : List Char) :
    Completes (parseViewCall lower value) ↔ ViewCallCut lower value := by
  rw [parseViewCall, ViewCallCut]
  have hOpen : (if "$call_static(".toList.isPrefixOf value then 13 else 6) = openLength value := rfl
  rw [hOpen]
  cases closingParen (fun _ => 1) (openLength value) 1 (value.drop (openLength value)) with
  | none => exact iff_of_true (completes_ok _) (by rintro _ ⟨⟩)
  | some callEnd =>
    dsimp only
    constructor
    · intro hRuns stop hStop
      cases hStop
      obtain ⟨inner, hInner, hRuns⟩ := completes_bind.mp hRuns
      obtain ⟨accessor, hAccessor, hView⟩ := completes_bind.mp hRuns
      obtain ⟨front, rest, hText, hFront, hEnd⟩ := slice_eq_ok.mp hInner
      exact ⟨front, inner, rest, hText, hFront, hEnd, completes_accessorAfter.mp ⟨accessor, hAccessor⟩,
        (completes_viewCallOf lower).mp hView⟩
    · intro h
      obtain ⟨front, inner, rest, hText, hFront, hEnd, hAccessor, hView⟩ := h callEnd rfl
      obtain ⟨accessor, hAccessor⟩ := completes_accessorAfter.mpr hAccessor
      refine completes_bind.mpr ⟨inner, slice_eq_ok.mpr ⟨front, rest, hText, hFront, hEnd⟩, ?_⟩
      exact completes_bind.mpr ⟨accessor, hAccessor, (completes_viewCallOf lower).mpr hView⟩

end ViewCalls

/-! ### All expressions -/

/-- Calls and conditional values are read back as they were written if and only if what is in front of a
call's closing parenthesis is ASCII and parentheses and, in a conditional value, commas within quotes
are as they would be without; and reading panics only where a position that was counted in characters
is no offset between characters. -/
theorem call_texts_read_back_iff (lower : LowerCase) :
    (∀ call : CallParts, parseViewCall lower call.text = .ok (some call.viewCall) ↔ call.Reads) ∧
      (∀ fields : List FieldText,
        parseReturnFields (returnsText fields) = .ok (returnFields fields)) ∧
      (∀ segments : List Segment,
        parseAccessorSegments (accessorText segments) = segments.map Subtype.val) ∧
      (∀ (lead : Literal) (parts : List (CallSource × Literal)),
        findCallPatterns (mixedText lead parts) = .ok (callsAt (utf8Len lead.val) parts) ↔
          ∀ part ∈ parts, Balanced part.1.inner) ∧
      (∀ condition trueValue falseValue : Expression,
        parseConditionalValue (conditionalText condition trueValue falseValue) =
            some (condition.text, trueValue.text, falseValue.text) ↔
          ConditionalReads condition trueValue falseValue) ∧
      (∀ value, Completes (parseViewCall lower value) ↔ ViewCallCut lower value) ∧
      (∀ s, Completes (parseReturnFields s) ↔ FieldsCut s.length s) ∧
      ∀ value, Completes (findCallPatterns value) :=
  ⟨CallParts.parseViewCall_iff lower, parseReturnFields_text, parseAccessorSegments_text,
    findCallPatterns_text, parseConditionalValue_text, completes_parseViewCall lower,
    completes_parseReturnFields, findCallPatterns_ok⟩

def asciiLowerCase : LowerCase := ⟨fun s => s.map Char.toLower, lowerCase_of_ascii⟩

/-- A quoted argument beyond ASCII panics, and commas or parentheses within quotes cut. -/
theorem quoted_texts_misread :
    parseViewCall asciiLowerCase "$call($a, \"f(string)\", \"日本\")".toList = .error ⟨⟩ ∧
      parseConditionalValue "$if($a == 1, \"x, y\", \"no\")".toList = none ∧
      findCallPatterns "$call($a, \"f(string)\", \")\")".toList =
        .ok [(0, 25, "$call($a, \"f(string)\", \")".toList)] := by
  exact ⟨rfl, rfl, rfl⟩

end Rindexer.Tables
