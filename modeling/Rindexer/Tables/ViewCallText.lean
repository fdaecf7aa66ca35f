import Rindexer.Tables.CallPatterns

/-! View calls in the documented syntax, and when every expression of a manifest is read back. -/

namespace Rindexer.Tables

open Rindexer.Lib Rindexer.Database Rindexer.Filter Splitter

/-! ### Signatures -/

/-- A signature, and its returns clause. -/
structure Signature where
  base : List Char
  returns : Option (List FieldText)
  trimmed : trim base = base
  unquoted : '"' ∉ base
  balanced : Balanced base
  noReturns : ¬" returns".toList <:+: base.map Char.toLower

namespace Signature

variable (sig : Signature)

def clause : List Char :=
  match sig.returns with
  | none => []
  | some fields => " returns ".toList ++ returnsText fields

def text : List Char := sig.base ++ sig.clause

def fields : List FieldText := sig.returns.getD []

end Signature

theorem toLower_lt {c : Char} (h : c.toNat < 128) : c.toLower.toNat < 128 := by
  rcases toLower_cases c with hSame | ⟨-, hHigh, hLower⟩
  · rw [hSame]
    exact h
  · omega

theorem utf8Len_toLower {s : List Char} (h : IsAscii s) : utf8Len (s.map Char.toLower) = utf8Len s := by
  rw [utf8Len_of_isAscii h, utf8Len_of_isAscii, List.length_map]
  intro c hc
  obtain ⟨d, hd, rfl⟩ := List.mem_map.mp hc
  exact toLower_lt (h d hd)

/-- The clause begins with the first ` returns `. -/
theorem Signature.no_earlier_returns (sig : Signature) {u v r : List Char}
    (hBase : sig.base.map Char.toLower = u ++ v) (hv : v ≠ []) :
    ¬" returns ".toList <+: v ++ (" returns ".toList ++ r) := by
  intro h
  rcases isPrefix_append_cases h with h | ⟨w, hNeedle, hw, t, hRest⟩
  · refine sig.noReturns ?_
    rw [hBase]
    have hShort : " returns".toList <+: " returns ".toList := ⟨[' '], rfl⟩
    exact ((hShort.trans h).isInfix).trans (List.suffix_append u v).isInfix
  · cases v with
    | nil => exact hv rfl
    | cons a v =>
      cases w with
      | nil => exact hw rfl
      | cons b w =>
        obtain ⟨rfl, -⟩ := List.cons.inj hRest
        -- the second blank of the text is its last character
        obtain ⟨rfl, hTail⟩ := List.cons.inj hNeedle
        have hWord : "returns".toList ++ [' '] = v ++ ' ' :: w := hTail
        refine sig.noReturns ?_
        rw [hBase]
        obtain ⟨x, hx, hy⟩ | ⟨x, hx, hy⟩ := List.append_eq_append_iff.mp hWord
        · cases x with
          | nil =>
            rw [hx, List.append_nil]
            exact (List.suffix_append u _).isInfix
          | cons c x =>
            have hLength := congrArg List.length hy
            simp at hLength
        · cases x with
          | nil =>
            rw [List.append_nil] at hx
            rw [← hx]
            exact (List.suffix_append u _).isInfix
          | cons c x =>
            obtain ⟨rfl, -⟩ := List.cons.inj hy
            have hBlank : ' ' ∈ "returns".toList := by
              rw [hx]
              simp
            exact absurd hBlank (by decide)

theorem parseFunctionSigWithReturns_text (lower : LowerCase) (sig : Signature)
    (hAscii : IsAscii sig.text) :
    parseFunctionSigWithReturns lower sig.text = .ok (sig.base, returnFields sig.fields) := by
  rw [parseFunctionSigWithReturns, lower.ascii _ hAscii]
  cases hReturns : sig.returns with
  | none =>
    have hText : sig.text = sig.base := by simp [Signature.text, Signature.clause, hReturns]
    have hNone : findText " returns ".toList (sig.base.map Char.toLower) = none := by
      refine Option.eq_none_iff_forall_ne_some.mpr fun n hn => sig.noReturns ?_
      obtain ⟨u, v, hBase, -⟩ := findText_cases hn
      exact ⟨u, ' ' :: v, by rw [hBase]; simp⟩
    rw [hText, hNone, Signature.fields, hReturns]
    rfl
  | some fields =>
    have hText : sig.text = sig.base ++ (" returns ".toList ++ returnsText fields) := by
      simp [Signature.text, Signature.clause, hReturns]
    have hBase : IsAscii sig.base := fun c hc => hAscii c (by rw [hText]; simp [hc])
    have hFound : findText " returns ".toList (sig.text.map Char.toLower) =
        some (utf8Len sig.base) := by
      have hLower : sig.text.map Char.toLower = sig.base.map Char.toLower ++
          (" returns ".toList ++ (returnsText fields).map Char.toLower) := by
        rw [hText, List.map_append, List.map_append]
        rfl
      rw [hLower, findText_append fun u v hu hv => sig.no_earlier_returns hu hv, findText_here,
        Option.map_some, Nat.zero_add, utf8Len_toLower hBase]
    have hNine : utf8Len sig.base + 9 = utf8Len (sig.base ++ " returns ".toList) := by
      rw [utf8Len_append]
      rfl
    rw [hFound]
    dsimp only
    rw [hNine, hText, sliceTo_append, ok_bind, ← List.append_assoc, sliceFrom_append, ok_bind,
      trim_returnsText, parseReturnFields_text, ok_bind, sig.trimmed, Signature.fields, hReturns]
    rfl

namespace Signature

variable (sig : Signature)

theorem text_unquoted : '"' ∉ sig.text := by
  intro hQuote
  rw [text, List.mem_append, clause] at hQuote
  rcases hQuote with hQuote | hQuote
  · exact sig.unquoted hQuote
  · split at hQuote
    · cases hQuote
    · rcases List.mem_append.mp hQuote with hQuote | hQuote
      · exact absurd hQuote (by decide)
      · rcases mem_returnsText hQuote with hQuote | ⟨word, hQuote⟩
        · exact absurd hQuote (by decide)
        · exact (word.property.2 _ hQuote).2.2 (by simp)

theorem text_balanced : Balanced sig.text := by
  rw [text, balanced_append sig.balanced.2]
  refine ⟨sig.balanced, ?_⟩
  rw [clause]
  split
  · exact balanced_nil
  · have hWord : Balanced " returns ".toList := balanced_of_no_paren (by decide)
    exact (balanced_append hWord.2).mpr ⟨hWord, balanced_returnsText _⟩

/-- A quoted signature is one argument to both scanners. -/
theorem isArgument : IsArgument argSplitter (quoted sig.text) :=
  (quoted_isArgument_iff sig.text_unquoted).mpr sig.text_balanced

end Signature

theorem trimQuotes_quoted {s : List Char} (h : '"' ∉ s) : trimQuotes (quoted s) = s := by
  have hFront : ∀ t : List Char, '"' ∉ t → t.dropWhile (· == '"') = t := by
    intro t ht
    cases t with
    | nil => rfl
    | cons c t =>
      rw [List.mem_cons, not_or] at ht
      rw [List.dropWhile_cons, if_neg]
      simpa using fun hc => ht.1 hc.symm
  rw [trimQuotes, quoted, List.cons_append, List.dropWhile_cons, if_pos (beq_self_eq_true '"')]
  cases s with
  | nil => rfl
  | cons c s =>
    have hc : (c == '"') = false := by
      rw [List.mem_cons, not_or] at h
      simpa using fun hc => h.1 hc.symm
    rw [List.cons_append, List.dropWhile_cons, hc, if_neg Bool.false_ne_true, ← List.cons_append,
      List.reverse_append, List.reverse_singleton, List.singleton_append, List.dropWhile_cons,
      if_pos (beq_self_eq_true '"'), hFront _ (by rwa [List.mem_reverse]), List.reverse_reverse]

/-! ### Calls -/

structure CallParts where
  isStatic : Bool
  address : Argument
  signature : Signature
  args : List Argument
  accessor : List Segment

namespace CallParts

variable (call : CallParts)

/-- What is between the commas of a call. -/
def parts : List (List Char) :=
  call.address.text :: quoted call.signature.text :: call.args.map fun arg => arg.text

def inner : List Char := joined argSplitter ' ' call.parts

/-- `$call(address, "signature", args...)` and the accessor. -/
def text : List Char := openText call.isStatic ++ (call.inner ++ ')' :: accessorText call.accessor)

def accessorPart : Option (List Char) :=
  if accessorText call.accessor = [] then none else some (accessorText call.accessor)

def viewCall : ViewCall where
  contractAddress := call.address.text
  functionSig := call.signature.base
  args := call.args.map fun arg => arg.text
  accessor := call.accessorPart
  returnFields := returnFields call.signature.fields
  isStatic := call.isStatic

/-- The address and each argument are one argument to the scanner that counts quoted parentheses, and
there is no character beyond ASCII. -/
def Reads : Prop :=
  IsAscii call.inner ∧ IsArgument argSplitter call.address.text ∧
    ∀ arg ∈ call.args, IsArgument argSplitter arg.text

end CallParts

theorem run_home_depth {s : List Char} (h : argSplitter.run argSplitter.home s = argSplitter.home) :
    depth s = 0 := by
  rw [run_argSplitter] at h
  exact (Int.zero_add _).symm.trans (congrArg Prod.snd h)

/-- Parts that are kept apart match their parentheses together if each of them does. -/
theorem balanced_joined_iff {ps : List (List Char)} (h : KeepsApart argSplitter ps) :
    Balanced (joined argSplitter ' ' ps) ↔ ∀ p ∈ ps, Balanced p := by
  induction ps with
  | nil => exact iff_of_true balanced_nil fun p hp => nomatch hp
  | cons p ps ih =>
    cases ps with
    | nil => simp [joined]
    | cons q ps =>
      have hJoined : joined argSplitter ' ' (p :: q :: ps) =
          p ++ ([',', ' '] ++ joined argSplitter ' ' (q :: ps)) := rfl
      rw [hJoined, balanced_append (run_home_depth h.2.1), balanced_append depth_gap, ih h.2.2,
        and_iff_right balanced_gap, List.forall_mem_cons (l := q :: ps)]

/-- Texts that are one argument each are kept apart. -/
theorem keepsApart_of_isArgument {ps : List (List Char)} (h : ∀ p ∈ ps, IsArgument argSplitter p) :
    KeepsApart argSplitter ps := by
  induction ps with
  | nil => trivial
  | cons p ps ih =>
    cases ps with
    | nil => exact (h p List.mem_cons_self).1
    | cons q ps =>
      exact ⟨(h p List.mem_cons_self).1, (h p List.mem_cons_self).2.2,
        ih fun r hr => h r (List.mem_cons_of_mem _ hr)⟩

theorem uncut_of_keepsApart {σ : Type} {sp : Splitter Char σ} {ps : List (List Char)}
    (h : KeepsApart sp ps) : ∀ p ∈ ps, sp.Uncut sp.home p := by
  induction ps with
  | nil => exact fun p hp => nomatch hp
  | cons p ps ih =>
    intro r hr
    cases ps with
    | nil =>
      cases List.mem_singleton.mp hr
      exact h
    | cons q ps =>
      rcases List.mem_cons.mp hr with rfl | hr
      · exact h.1
      · exact ih h.2.2 r hr

/-- The accessor that is taken has no parenthesis only if the position that was counted in characters
is that of the parenthesis behind ASCII text. -/
theorem ascii_of_accessor {s t acc : List Char} {callEnd : Nat} {accessor : Option (List Char)}
    (hStart : utf8Len s = s.length) (hAcc : ')' ∉ acc)
    (hClosed : closingParen (fun _ => 1) s.length 1 (t ++ ')' :: acc) = some callEnd)
    (hAccessor : accessorAfter (s ++ (t ++ ')' :: acc)) callEnd = .ok accessor)
    (hNone : ∀ a, accessor = some a → ')' ∉ a) :
    IsAscii t ∧ callEnd = s.length + t.length ∧ Balanced t := by
  obtain ⟨u, v, hText, rfl, hPre, hEnd⟩ := closingParen_cases Int.one_pos hClosed
  rw [widthOf_one] at hAccessor ⊢
  -- the parenthesis that is found is that behind the call or one within it
  obtain ⟨w, rfl, hRest⟩ : ∃ w, t = u ++ w ∧ w ++ ')' :: acc = ')' :: v := by
    obtain ⟨w, rfl, hw⟩ | ⟨w, rfl, hw⟩ := List.append_eq_append_iff.mp hText
    · cases w with
      | nil => exact ⟨[], by simp, hw⟩
      | cons c w =>
        obtain ⟨rfl, rfl⟩ := List.cons.inj hw
        exact absurd (by simp) hAcc
    · exact ⟨w, rfl, hw.symm⟩
  have hBytes : utf8Len (s ++ ((u ++ w) ++ ')' :: acc)) =
      s.length + utf8Len u + utf8Len w + 1 + utf8Len acc := by
    simp only [utf8Len_append, utf8Len_cons, hStart]
    rw [show Char.utf8Size ')' = 1 from rfl]
    omega
  have hDone : utf8Len u ≤ u.length → w = [] →
      IsAscii (u ++ w) ∧ s.length + u.length = s.length + (u ++ w).length ∧ Balanced (u ++ w) := by
    rintro hLen rfl
    rw [List.append_nil]
    exact ⟨isAscii_of_utf8Len_le hLen, rfl, balanced_of_closing hPre hEnd⟩
  rw [accessorAfter] at hAccessor
  split at hAccessor
  · -- the slice begins behind the parenthesis, or has one
    rcases hSlice : sliceFrom (s ++ ((u ++ w) ++ ')' :: acc)) (s.length + u.length + 1) with _ | x
    · rw [hSlice] at hAccessor
      cases hAccessor
    · rw [hSlice, ok_bind, pure_eq_ok, Except.ok.injEq] at hAccessor
      have hNot : ')' ∉ x := by
        intro hMem
        have hTrim := (mem_trim (show isWhiteSpace ')' = false from rfl)).mpr hMem
        rw [if_neg (List.ne_nil_of_mem hTrim)] at hAccessor
        exact hNone _ hAccessor.symm hTrim
      obtain ⟨y, hValue, hLen⟩ := eq_append_of_sliceFrom hSlice
      have hShort := length_le_utf8Len y
      have hParen : s ++ ((u ++ w) ++ ')' :: acc) = (s ++ u ++ [')']) ++ v := by
        rw [List.append_assoc u, hRest]
        simp
      rw [hParen] at hValue
      have hExact : y = s ++ u ++ [')'] → ')' ∉ v → utf8Len u ≤ u.length ∧ w = [] := by
        rintro rfl hv
        refine ⟨?_, ?_⟩
        · rw [utf8Len_append, utf8Len_append, hStart, show utf8Len [')'] = 1 from rfl] at hLen
          omega
        · cases w with
          | nil => rfl
          | cons c w =>
            obtain ⟨-, rfl⟩ := List.cons.inj hRest
            exact absurd (by simp) hv
      obtain ⟨z, rfl, rfl⟩ | ⟨z, hy, rfl⟩ := List.append_eq_append_iff.mp hValue
      · cases z with
        | nil =>
          obtain ⟨hAscii, hEmpty⟩ := hExact (List.append_nil _) hNot
          exact hDone hAscii hEmpty
        | cons c z =>
          simp only [List.length_append, List.length_cons, List.length_nil] at hShort
          omega
      · rw [List.mem_append, not_or] at hNot
        obtain rfl | ⟨z, d, rfl⟩ := List.eq_nil_or_concat z
        · obtain ⟨hAscii, hEmpty⟩ := hExact (by rw [hy, List.append_nil]) hNot.2
          exact hDone hAscii hEmpty
        · have hLast := congrArg List.getLast? hy
          rw [List.concat_eq_append, ← List.append_assoc, List.getLast?_concat, List.getLast?_concat,
            Option.some_inj] at hLast
          exact absurd (by rw [hLast]; simp) hNot.1
  · refine hDone (by omega) (utf8Len_eq_zero (by have := length_le_utf8Len u; omega))

theorem balanced_of_isArgument {s : List Char} (h : IsArgument argSplitter s) : Balanced s := by
  refine ⟨fun u hu => ?_, run_home_depth h.2.2⟩
  have hDepth := h.2.1 u hu
  rw [run_argSplitter] at hDepth
  exact hDepth.trans_eq (Int.zero_add _)

theorem mem_joined_of_mem {ps : List (List Char)} {p : List Char} (hp : p ∈ ps) {c : Char} (hc : c ∈ p) :
    c ∈ joined argSplitter ' ' ps := by
  induction ps with
  | nil => cases hp
  | cons q ps ih =>
    cases ps with
    | nil =>
      cases List.mem_singleton.mp hp
      exact hc
    | cons r ps =>
      rw [joined]
      rcases List.mem_cons.mp hp with rfl | hp
      · exact List.mem_append_left _ hc
      · exact List.mem_append_right _ (List.mem_cons_of_mem _ (List.mem_cons_of_mem _ (ih hp)))

theorem exists_last_gap (a : List Char) {l : List (List Char)} (h : l ≠ []) :
    ∃ ps p, a :: l.map (' ' :: ·) = ps ++ [' ' :: p] := by
  obtain rfl | ⟨l, x, rfl⟩ := List.eq_nil_or_concat l
  · exact absurd rfl h
  · exact ⟨a :: l.map (' ' :: ·), x, by simp⟩

/-- The arguments are the pieces, without an empty last one. -/
theorem splitCallArgs_pieces (s : List Char) :
    ∃ extra, argSplitter.pieces argSplitter.home s = splitCallArgs s ++ extra := by
  rw [← splitLoop_pieces argSplitter s, splitCallArgs]
  change ∃ extra, _ = (if (splitLoop argSplitter [] [] argSplitter.home s).2 = [] then
    (splitLoop argSplitter [] [] argSplitter.home s).1 else _) ++ extra
  split
  · next hNil => exact ⟨[[]], by rw [hNil]⟩
  · exact ⟨[], (List.append_nil _).symm⟩

theorem splitCallArgs_of_pieces {s p : List Char} {ps : List (List Char)} (hp : p ≠ [])
    (h : argSplitter.pieces argSplitter.home s = ps ++ [p]) : splitCallArgs s = ps ++ [p] := by
  rw [← splitLoop_pieces argSplitter s] at h
  obtain ⟨hParts, hCurrent⟩ := List.append_inj' h rfl
  rw [splitCallArgs]
  change (if (splitLoop argSplitter [] [] argSplitter.home s).2 = [] then
    (splitLoop argSplitter [] [] argSplitter.home s).1 else _) = _
  rw [List.cons.injEq] at hCurrent
  rw [if_neg (by rw [hCurrent.1]; exact hp)]
  exact h

namespace CallParts

variable (lower : LowerCase) (call : CallParts)

/-- The parts of a call, and how they are read. -/
def readParts : List (Part Char (List Char)) :=
  trimmedPart call.address.text :: ⟨quoted call.signature.text, fun _ => []⟩ ::
    (call.args.map fun arg => arg.text).map trimmedPart

theorem readParts_text : call.readParts.map Part.text = call.parts := by
  rw [readParts, List.map_cons, List.map_cons, map_trimmedPart]
  rfl

theorem readParts_settled : ∀ p ∈ call.readParts, p.Settled argSplitter ' ' := by
  intro p hp
  rw [readParts, List.mem_cons, List.mem_cons] at hp
  rcases hp with rfl | rfl | hp
  · exact settled_trim argSplitter rfl _
  · exact ⟨fun _ => rfl, .inl ⟨call.signature.isArgument.1, call.signature.isArgument.2.2⟩⟩
  · obtain ⟨t, -, rfl⟩ := List.mem_map.mp hp
    exact settled_trim argSplitter rfl t

theorem isPrefixOf_text (isStatic : Bool) (t : List Char) :
    "$call_static(".toList.isPrefixOf (openText isStatic ++ t) = isStatic := by
  cases isStatic <;> rfl

theorem parseViewCall_text : parseViewCall lower call.text =
    (match closingParen (fun _ => 1) (openText call.isStatic).length 1
        (call.inner ++ ')' :: accessorText call.accessor) with
    | none => .ok none
    | some callEnd => do
      let inner ← slice call.text (openText call.isStatic).length callEnd
      let accessor ← accessorAfter call.text callEnd
      viewCallOf lower call.isStatic accessor (splitCallArgs inner)) := by
  have hStart : (if call.isStatic then 13 else 6) = (openText call.isStatic).length := by
    cases call.isStatic <;> rfl
  have hDrop : call.text.drop (openText call.isStatic).length =
      call.inner ++ ')' :: accessorText call.accessor := List.drop_left
  have hStatic : "$call_static(".toList.isPrefixOf call.text = call.isStatic := isPrefixOf_text _ _
  rw [parseViewCall, hStatic, hStart, hDrop]
  all_goals rfl

theorem accessor_closed : ∀ a, call.accessorPart = some a → ')' ∉ a := by
  intro a ha
  rw [accessorPart] at ha
  split at ha
  · cases ha
  · cases ha
    exact fun hParen => (accessorText_chars call.accessor _ hParen).2 rfl

theorem slice_inner (h : IsAscii call.inner) :
    slice call.text (openText call.isStatic).length
      ((openText call.isStatic).length + call.inner.length) = .ok call.inner := by
  have hText : call.text = openText call.isStatic ++ call.inner ++
      ')' :: accessorText call.accessor := (List.append_assoc _ _ _).symm
  have hEnd : (openText call.isStatic).length + call.inner.length =
      utf8Len (openText call.isStatic ++ call.inner) := by
    rw [utf8Len_append, utf8Len_openText, utf8Len_of_isAscii h]
  rw [hText, hEnd, ← utf8Len_openText]
  exact slice_append _ _ _

/-- What a view call that is put together has of its arguments. -/
theorem viewCallOf_some {isStatic : Bool} {accessor : Option (List Char)} {pieces : List (List Char)}
    {view : ViewCall} (h : viewCallOf lower isStatic accessor pieces = .ok (some view)) :
    view.accessor = accessor ∧ ∃ address fullSig args, pieces = address :: fullSig :: args ∧
      trim address = view.contractAddress ∧ args.map trim = view.args := by
  match pieces with
  | [] => cases h
  | [_] => cases h
  | address :: fullSig :: args =>
    rw [viewCallOf] at h
    rcases hSig : parseFunctionSigWithReturns lower (trimQuotes (trim fullSig)) with _ | pair
    · rw [hSig] at h
      cases h
    · rw [hSig, ok_bind] at h
      cases h
      exact ⟨rfl, address, fullSig, args, rfl, rfl, rfl⟩

theorem parseViewCall_some {view : ViewCall} (h : parseViewCall lower call.text = .ok (some view)) :
    ∃ callEnd inner, closingParen (fun _ => 1) (openText call.isStatic).length 1
        (call.inner ++ ')' :: accessorText call.accessor) = some callEnd ∧
      slice call.text (openText call.isStatic).length callEnd = .ok inner ∧
      accessorAfter call.text callEnd = .ok view.accessor ∧
      viewCallOf lower call.isStatic view.accessor (splitCallArgs inner) = .ok (some view) := by
  rw [parseViewCall_text] at h
  split at h
  · cases h
  next callEnd hClosed =>
    rcases hInner : slice call.text (openText call.isStatic).length callEnd with _ | inner
    · rw [hInner] at h
      cases h
    rcases hAccessor : accessorAfter call.text callEnd with _ | accessor
    · rw [hInner, hAccessor] at h
      cases h
    rw [hInner, hAccessor, ok_bind, ok_bind] at h
    have hSame := (viewCallOf_some lower h).1
    subst hSame
    exact ⟨callEnd, inner, hClosed, hInner, hAccessor, h⟩

/-- A call that is read back is ASCII, and each of its arguments is one to the scanner. -/
theorem reads_of_parse (h : parseViewCall lower call.text = .ok (some call.viewCall)) : call.Reads := by
  obtain ⟨callEnd, inner, hClosed, hInner, hAccessor, hView⟩ := parseViewCall_some lower call h
  obtain ⟨hAscii, rfl, hBalanced⟩ := ascii_of_accessor (utf8Len_openText _)
    (fun hParen => (accessorText_chars call.accessor _ hParen).2 rfl) hClosed hAccessor
    call.accessor_closed
  rw [call.slice_inner hAscii, Except.ok.injEq] at hInner
  subst hInner
  obtain ⟨-, address, fullSig, args, hArgs, hAddress, hRest⟩ := viewCallOf_some lower hView
  obtain ⟨extra, hPieces⟩ := splitCallArgs_pieces call.inner
  have hReads : List.Forall₂ (fun t (p : Part Char (List Char)) => p.read t = p.read p.text)
      (splitCallArgs call.inner) call.readParts := by
    rw [hArgs, readParts]
    refine .cons (hAddress.trans call.address.trimmed.symm) (.cons rfl ?_)
    refine reads_of_map_trim (fun t ht => ?_) hRest
    obtain ⟨arg, -, rfl⟩ := List.mem_map.mp ht
    exact arg.trimmed
  have hTexts : argSplitter.pieces argSplitter.home (joined argSplitter ' '
      (call.readParts.map Part.text)) = splitCallArgs call.inner ++ extra := by
    rw [readParts_text]
    exact hPieces
  have hNonempty : call.readParts ≠ [] := List.cons_ne_nil _ _
  have hApart := (keepsApart_of_reads argSplitter_steady hNonempty call.readParts_settled hTexts
    hReads).2
  rw [readParts_text] at hApart
  have hUncut := uncut_of_keepsApart hApart
  have hEach := (balanced_joined_iff hApart).mp hBalanced
  refine ⟨hAscii, call.address.isArgument_iff.mpr ⟨hUncut _ ?_, hEach _ ?_⟩, fun arg hArg =>
    arg.isArgument_iff.mpr ⟨hUncut _ ?_, hEach _ ?_⟩⟩
  · exact List.mem_cons_self
  · exact List.mem_cons_self
  · exact List.mem_cons_of_mem _ (List.mem_cons_of_mem _ (List.mem_map_of_mem hArg))
  · exact List.mem_cons_of_mem _ (List.mem_cons_of_mem _ (List.mem_map_of_mem hArg))

theorem parts_isArgument (h : call.Reads) : ∀ p ∈ call.parts, IsArgument argSplitter p := by
  intro p hp
  rw [parts, List.mem_cons, List.mem_cons] at hp
  rcases hp with rfl | rfl | hp
  · exact h.2.1
  · exact call.signature.isArgument
  · obtain ⟨arg, hArg, rfl⟩ := List.mem_map.mp hp
    exact h.2.2 arg hArg

theorem splitCallArgs_inner (h : call.Reads) : splitCallArgs call.inner =
    call.address.text :: (' ' :: quoted call.signature.text) ::
      (call.args.map fun arg => arg.text).map (' ' :: ·) := by
  have hPieces := pieces_joined argSplitter_steady (keepsApart_of_isArgument (call.parts_isArgument h))
  obtain ⟨ps, p, hLast⟩ := exists_last_gap call.address.text
    (List.cons_ne_nil (quoted call.signature.text) (call.args.map fun arg => arg.text))
  rw [hLast] at hPieces
  exact (splitCallArgs_of_pieces (List.cons_ne_nil _ _) hPieces).trans hLast.symm

theorem accessorAfter_text (h : IsAscii call.inner) :
    accessorAfter call.text ((openText call.isStatic).length + call.inner.length) =
      .ok call.accessorPart := by
  have hText : call.text = openText call.isStatic ++ call.inner ++ [')'] ++
      accessorText call.accessor := by simp [text]
  have hEnd : (openText call.isStatic).length + call.inner.length + 1 =
      utf8Len (openText call.isStatic ++ call.inner ++ [')']) := by
    rw [utf8Len_append, utf8Len_append, utf8Len_openText, utf8Len_of_isAscii h]
    rfl
  rw [accessorAfter, accessorPart, hEnd, hText, sliceFrom_append, ok_bind,
    trim_eq_self fun c hc => (accessorText_chars call.accessor c hc).1]
  by_cases hNil : accessorText call.accessor = []
  · rw [hNil, List.append_nil, if_neg (Nat.lt_irrefl _), if_pos rfl]
  · have hPos : 0 < utf8Len (accessorText call.accessor) :=
      Nat.pos_of_ne_zero fun hZero => hNil (utf8Len_eq_zero hZero)
    rw [if_pos (by rw [utf8Len_append _ (accessorText _)]; omega)]
    rfl

/-- A call whose arguments are seen as such is read back. -/
theorem parse_of_reads (h : call.Reads) :
    parseViewCall lower call.text = .ok (some call.viewCall) := by
  have hBalanced : Balanced call.inner :=
    (balanced_joined_iff (keepsApart_of_isArgument (call.parts_isArgument h))).mpr fun p hp =>
      balanced_of_isArgument (call.parts_isArgument h p hp)
  have hSig : IsAscii call.signature.text := by
    intro c hc
    have hQuoted : c ∈ quoted call.signature.text :=
      List.mem_append_left _ (List.mem_cons_of_mem _ hc)
    exact h.1 c (mem_joined_of_mem (List.mem_cons_of_mem _ List.mem_cons_self) hQuoted)
  rw [parseViewCall_text, closingParen_of_balanced hBalanced, widthOf_one]
  dsimp only
  rw [call.slice_inner h.1, call.accessorAfter_text h.1, ok_bind, ok_bind, call.splitCallArgs_inner h,
    viewCallOf, trim_space, trim_quoted, trimQuotes_quoted call.signature.text_unquoted,
    parseFunctionSigWithReturns_text lower _ hSig, ok_bind, call.address.trimmed, List.map_map]
  have hArgs : call.args.map ((trim ∘ (' ' :: ·)) ∘ fun arg => arg.text) =
      call.args.map fun arg => arg.text := List.map_congr_left fun arg _ => arg.trimmed
  rw [List.map_map, hArgs]
  rfl

/-- A call is read back if and only if it is ASCII and parentheses within quotes match. -/
theorem parseViewCall_iff :
    parseViewCall lower call.text = .ok (some call.viewCall) ↔ call.Reads :=
  ⟨reads_of_parse lower call, parse_of_reads lower call⟩

end CallParts

end Rindexer.Tables
