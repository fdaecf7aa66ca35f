import Rindexer.Tables.CallSyntax

/-! The calls that are found in a text, which are those that it was put together from if their
parentheses match. -/

namespace Rindexer.Tables

open Rindexer.Lib Rindexer.Database Rindexer.Filter Splitter

/-- The text that opens a call. -/
def openText (isStatic : Bool) : List Char :=
  if isStatic then "$call_static(".toList else "$call(".toList

def callText (isStatic : Bool) (inner : List Char) : List Char := openText isStatic ++ inner ++ [')']

/-- A text without calls. -/
abbrev Literal := {s : List Char // ∀ isStatic, ¬openText isStatic <:+: s}

/-- A call within a text.  Its parentheses match unless they are quoted. -/
structure CallSource where
  isStatic : Bool
  inner : List Char
  encloses : Encloses quotedSplitter inner

def CallSource.text (call : CallSource) : List Char := callText call.isStatic call.inner

def mixedRest (parts : List (CallSource × Literal)) : List Char :=
  parts.flatMap fun part => part.1.text ++ part.2.val

/-- Calls with literal texts around them. -/
def mixedText (lead : Literal) (parts : List (CallSource × Literal)) : List Char :=
  lead.val ++ mixedRest parts

/-- Where the calls are, when the text in front of the first one ends at an offset. -/
def callsAt : Nat → List (CallSource × Literal) → List (Nat × Nat × List Char)
  | _, [] => []
  | offset, (call, literal) :: parts =>
    (offset, offset + utf8Len call.text, call.text) ::
      callsAt (offset + utf8Len call.text + utf8Len literal.val) parts

/-! ### Finding a call -/

theorem utf8Len_openText (isStatic : Bool) :
    utf8Len (openText isStatic) = (openText isStatic).length := by cases isStatic <;> decide

theorem length_openText_pos (isStatic : Bool) : 0 < (openText isStatic).length := by
  cases isStatic <;> decide

/-- The text that opens a call begins with its only dollar. -/
theorem openText_eq (isStatic : Bool) :
    ∃ s, openText isStatic = '$' :: s ∧ '$' ∉ s := by
  cases isStatic
  · exact ⟨"call(".toList, rfl, by decide⟩
  · exact ⟨"call_static(".toList, rfl, by decide⟩

theorem findText_literal (isStatic : Bool) (literal : Literal) {t : List Char}
    (ht : ∀ c, t.head? = some c → c = '$') :
    findText (openText isStatic) (literal.val ++ t) =
      (findText (openText isStatic) t).map (· + utf8Len literal.val) := by
  refine findText_append fun u v hText hNonempty hHere => ?_
  rcases isPrefix_append_cases hHere with hHere | ⟨w, hOpen, hw, hRest⟩
  · refine literal.property isStatic (hHere.isInfix.trans ?_)
    rw [hText]
    exact (List.suffix_append u v).isInfix
  · -- a second dollar would be in the text that opens a call
    obtain ⟨s, hs, hDollar⟩ := openText_eq isStatic
    cases w with
    | nil => exact hw rfl
    | cons c w =>
      obtain ⟨r, hr⟩ := hRest
      have hc : c = '$' := ht c (by rw [← hr]; rfl)
      cases v with
      | nil => exact hNonempty rfl
      | cons d v =>
        rw [hs, List.cons_append, List.cons.injEq] at hOpen
        refine hDollar ?_
        rw [hOpen.2, hc]
        simp

theorem findText_here (needle t : List Char) : findText needle (needle ++ t) = some 0 := by
  cases h : needle ++ t with
  | nil =>
    rw [(List.append_eq_nil_iff.mp h).1]
    rfl
  | cons c s =>
    rw [findText, if_pos]
    rw [← h, List.isPrefixOf_iff_prefix]
    exact List.prefix_append needle t

/-- Where another text opens a call, one does not. -/
theorem findText_other {isStatic : Bool} {t : List Char} {n : Nat}
    (h : findText (openText !isStatic) (openText isStatic ++ t) = some n) : 0 < n := by
  obtain ⟨u, v, hText, rfl⟩ := findText_cases h
  cases u with
  | nil =>
    cases isStatic
    · have hFive := congrArg (fun s : List Char => s.getD 5 ' ') hText
      exact absurd (show '(' = '_' from hFive) (by decide)
    · have hFive := congrArg (fun s : List Char => s.getD 5 ' ') hText
      exact absurd (show '_' = '(' from hFive) (by decide)
  | cons c u =>
    have := c.utf8Size_pos
    rw [utf8Len_cons]
    omega

theorem nextCall_at (literal : Literal) (isStatic : Bool) (t : List Char) :
    nextCall (literal.val ++ (openText isStatic ++ t)) =
      .ok (some (utf8Len literal.val, (openText isStatic).length)) := by
  have hHead : ∀ c, (openText isStatic ++ t).head? = some c → c = '$' := by
    cases isStatic <;> (intro c hc; cases hc; rfl)
  have hHere := findText_literal isStatic literal hHead
  rw [findText_here, Option.map_some, Nat.zero_add] at hHere
  cases isStatic with
  | true =>
    have hOther := findText_literal false literal hHead
    change findText "$call_static(".toList _ = _ at hHere
    change findText "$call(".toList _ = _ at hOther
    rw [nextCall, hHere, hOther]
    rcases Option.eq_none_or_eq_some (findText (openText false) (openText true ++ t)) with
      hFound | ⟨n, hFound⟩
    · rw [hFound]
      rfl
    · have hPos := @findText_other true t n hFound
      rw [hFound]
      change (if n + utf8Len literal.val < utf8Len literal.val then _ else _) = _
      rw [if_neg (by omega)]
      rfl
  | false =>
    have hOther := findText_literal true literal hHead
    change findText "$call(".toList _ = _ at hHere
    change findText "$call_static(".toList _ = _ at hOther
    rw [nextCall, hHere, hOther]
    rcases Option.eq_none_or_eq_some (findText (openText true) (openText false ++ t)) with
      hFound | ⟨n, hFound⟩
    · rw [hFound]
      rfl
    · have hPos := @findText_other false t n hFound
      rw [hFound]
      change (if utf8Len literal.val < n + utf8Len literal.val then _ else _) = _
      rw [if_pos (by omega), sliceFrom_append, ok_bind]
      rfl

theorem nextCall_literal (literal : Literal) : nextCall literal.val = .ok none := by
  have hNone : ∀ isStatic, findText (openText isStatic) literal.val = none := by
    intro isStatic
    have h := findText_literal isStatic literal (t := []) fun c hc => nomatch hc
    rw [List.append_nil] at h
    rw [h]
    cases isStatic <;> rfl
  rw [nextCall]
  rw [show findText "$call_static(".toList literal.val = none from hNone true,
    show findText "$call(".toList literal.val = none from hNone false]

/-- A call that is found is in the text. -/
theorem nextCall_cases (s : List Char) :
    nextCall s = .ok none ∨ ∃ u isStatic v, s = u ++ openText isStatic ++ v ∧
      nextCall s = .ok (some (utf8Len u, (openText isStatic).length)) := by
  rw [nextCall]
  rcases Option.eq_none_or_eq_some (findText "$call_static(".toList s) with hStatic | ⟨n, hStatic⟩ <;>
    rcases Option.eq_none_or_eq_some (findText "$call(".toList s) with hCall | ⟨m, hCall⟩ <;>
    rw [hStatic, hCall]
  · exact .inl rfl
  · obtain ⟨u, v, hText, rfl⟩ := findText_cases hCall
    exact .inr ⟨u, false, v, hText, rfl⟩
  · obtain ⟨u, v, hText, rfl⟩ := findText_cases hStatic
    exact .inr ⟨u, true, v, hText, rfl⟩
  · obtain ⟨u, v, hText, rfl⟩ := findText_cases hStatic
    obtain ⟨u', v', hText', rfl⟩ := findText_cases hCall
    have hSlice : sliceFrom s (utf8Len u') = .ok ("$call(".toList ++ v') := by
      rw [hText', List.append_assoc]
      exact sliceFrom_append u' _
    right
    dsimp only
    split
    · rw [hSlice, ok_bind]
      split
      · exact ⟨u, true, v, hText, rfl⟩
      · exact ⟨u', false, v', hText', rfl⟩
    · exact ⟨u, true, v, hText, rfl⟩

/-! ### The loop -/

section Loop

variable {u v w : List Char} {isStatic : Bool} {fuel : Nat}

theorem findCallsFrom_none (h : nextCall v = .ok none) :
    findCallsFrom (u ++ v) fuel (utf8Len u) = .ok [] := by
  cases fuel with
  | zero => rfl
  | succ fuel =>
    rw [findCallsFrom]
    split
    · rw [sliceFrom_append, ok_bind, h]
      rfl
    · rfl

/-- One round, where a call is found behind a text. -/
theorem findCallsFrom_some
    (h : nextCall (v ++ (openText isStatic ++ w)) =
      .ok (some (utf8Len v, (openText isStatic).length))) :
    findCallsFrom (u ++ (v ++ (openText isStatic ++ w))) (fuel + 1) (utf8Len u) =
      match closingParen Char.utf8Size (utf8Len (u ++ v ++ openText isStatic)) 1 w with
      | some stop => do
        let callExpr ← slice (u ++ (v ++ (openText isStatic ++ w))) (utf8Len (u ++ v)) (stop + 1)
        return (utf8Len (u ++ v), stop + 1, callExpr) ::
          (← findCallsFrom (u ++ (v ++ (openText isStatic ++ w))) fuel (stop + 1))
      | none => findCallsFrom (u ++ (v ++ (openText isStatic ++ w))) fuel
          (utf8Len (u ++ v ++ openText isStatic)) := by
  have hOpen := utf8Len_openText isStatic
  have hPos := length_openText_pos isStatic
  have hSlice : sliceFrom (u ++ (v ++ (openText isStatic ++ w)))
      (utf8Len u + utf8Len v + (openText isStatic).length) = .ok w := by
    rw [← hOpen, ← utf8Len_append, ← utf8Len_append, ← List.append_assoc, ← List.append_assoc]
    exact sliceFrom_append _ w
  rw [findCallsFrom, if_pos (by simp only [utf8Len_append]; omega), sliceFrom_append, ok_bind, h,
    ok_bind]
  simp only [hSlice, ok_bind, utf8Len_append, hOpen]
  all_goals rfl

theorem findCallsFrom_closed {x : List Char}
    (h : nextCall (v ++ (openText isStatic ++ (w ++ ')' :: x))) =
      .ok (some (utf8Len v, (openText isStatic).length)))
    (hClosed : closingParen Char.utf8Size (utf8Len (u ++ v ++ openText isStatic)) 1 (w ++ ')' :: x) =
      some (utf8Len (u ++ v ++ openText isStatic) + utf8Len w)) :
    findCallsFrom (u ++ (v ++ (openText isStatic ++ (w ++ ')' :: x)))) (fuel + 1) (utf8Len u) =
      (findCallsFrom (u ++ v ++ callText isStatic w ++ x) fuel
        (utf8Len (u ++ v ++ callText isStatic w))).map
          ((utf8Len (u ++ v), utf8Len (u ++ v ++ callText isStatic w), callText isStatic w) :: ·) := by
  have hText : u ++ (v ++ (openText isStatic ++ (w ++ ')' :: x))) =
      (u ++ v) ++ callText isStatic w ++ x := by simp [callText]
  have hStop : utf8Len (u ++ v ++ openText isStatic) + utf8Len w + 1 =
      utf8Len (u ++ v ++ callText isStatic w) := by
    simp only [callText, utf8Len_append, utf8Len_cons, utf8Len_nil]
    rw [show Char.utf8Size ')' = 1 from rfl]
    omega
  rw [findCallsFrom_some h, hClosed]
  dsimp only
  rw [hStop, hText, slice_append, ok_bind]
  cases findCallsFrom (u ++ v ++ callText isStatic w ++ x) fuel
    (utf8Len (u ++ v ++ callText isStatic w)) <;> rfl

end Loop

/-- Finding calls never panics, and no call begins before the loop does. -/
theorem findCallsFrom_ok (fuel : Nat) (u v : List Char) :
    ∃ calls, findCallsFrom (u ++ v) fuel (utf8Len u) = .ok calls ∧
      ∀ call ∈ calls, utf8Len u ≤ call.1 := by
  induction fuel generalizing u v with
  | zero => exact ⟨[], rfl, fun c hc => nomatch hc⟩
  | succ fuel ih =>
    rcases nextCall_cases v with hNone | ⟨v, isStatic, w, rfl, hNext⟩
    · exact ⟨[], findCallsFrom_none hNone, fun c hc => nomatch hc⟩
    · rw [List.append_assoc] at hNext ⊢
      rcases Option.eq_none_or_eq_some (closingParen Char.utf8Size
        (utf8Len (u ++ v ++ openText isStatic)) 1 w) with hOpen | ⟨stop, hClosed⟩
      · rw [findCallsFrom_some hNext, hOpen]
        obtain ⟨calls, hCalls, hLate⟩ := ih (u ++ v ++ openText isStatic) w
        refine ⟨calls, ?_, fun call hCall => ?_⟩
        · rw [← hCalls]
          simp only [List.append_assoc]
        · have := hLate call hCall
          rw [List.append_assoc, utf8Len_append] at this
          omega
      · obtain ⟨w, x, rfl, rfl, -, -⟩ := closingParen_cases Int.one_pos hClosed
        obtain ⟨calls, hCalls, hLate⟩ := ih (u ++ v ++ callText isStatic w) x
        rw [findCallsFrom_closed hNext hClosed, hCalls]
        refine ⟨_, rfl, fun call hCall => ?_⟩
        rcases List.mem_cons.mp hCall with rfl | hCall
        · rw [utf8Len_append]
          exact Nat.le_add_right _ _
        · have := hLate call hCall
          rw [List.append_assoc, utf8Len_append] at this
          omega

theorem findCallPatterns_ok (value : List Char) : ∃ calls, findCallPatterns value = .ok calls := by
  obtain ⟨calls, h, -⟩ := findCallsFrom_ok value.length [] value
  exact ⟨calls, h⟩

/-- From an offset on, the calls are found if their parentheses match. -/
theorem findCallsFrom_parts (parts : List (CallSource × Literal)) (fuel : Nat) (u : List Char)
    (lead : Literal) (hFuel : parts.length ≤ fuel) :
    findCallsFrom (u ++ mixedText lead parts) fuel (utf8Len u) =
        .ok (callsAt (utf8Len (u ++ lead.val)) parts) ↔
      ∀ part ∈ parts, Balanced part.1.inner := by
  induction parts generalizing u lead fuel with
  | nil =>
    rw [mixedText, mixedRest, List.flatMap_nil, List.append_nil,
      findCallsFrom_none (nextCall_literal lead)]
    exact iff_of_true rfl fun part hPart => nomatch hPart
  | cons part parts ih =>
    obtain ⟨call, literal⟩ := part
    cases fuel with
    | zero => cases hFuel
    | succ fuel =>
      have hText : mixedText lead ((call, literal) :: parts) = lead.val ++
          (openText call.isStatic ++ (call.inner ++ ')' :: mixedText literal parts)) := by
        simp [mixedText, mixedRest, CallSource.text, callText]
      have hNext := nextCall_at lead call.isStatic (call.inner ++ ')' :: mixedText literal parts)
      rw [hText, callsAt]
      by_cases hBalanced : Balanced call.inner
      · have hRest := ih fuel (u ++ lead.val ++ call.text) literal (Nat.le_of_succ_le_succ hFuel)
        rw [findCallsFrom_closed hNext (closingParen_of_balanced hBalanced _), List.forall_mem_cons,
          and_iff_right hBalanced, ← hRest]
        rw [show callText call.isStatic call.inner = call.text from rfl, ← utf8Len_append,
          ← utf8Len_append]
        cases findCallsFrom (u ++ lead.val ++ call.text ++ mixedText literal parts) fuel
          (utf8Len (u ++ lead.val ++ call.text)) <;> simp [Except.map]
      · refine iff_of_false (fun hFound => ?_) fun hAll => hBalanced (hAll _ List.mem_cons_self)
        rcases Option.eq_none_or_eq_some (closingParen Char.utf8Size
          (utf8Len (u ++ lead.val ++ openText call.isStatic)) 1
            (call.inner ++ ')' :: mixedText literal parts)) with hOpen | ⟨stop, hClosed⟩
        · -- the next call that is found begins later
          rw [findCallsFrom_some hNext, hOpen] at hFound
          obtain ⟨calls, hCalls, hLate⟩ := findCallsFrom_ok fuel
            (u ++ lead.val ++ openText call.isStatic) (call.inner ++ ')' :: mixedText literal parts)
          have hSame : u ++ lead.val ++ openText call.isStatic ++
              (call.inner ++ ')' :: mixedText literal parts) = u ++ (lead.val ++
                (openText call.isStatic ++ (call.inner ++ ')' :: mixedText literal parts))) := by simp
          rw [hSame] at hCalls
          dsimp only at hFound
          rw [hCalls, Except.ok.injEq] at hFound
          have hFirst := hLate _ (by rw [hFound]; exact List.mem_cons_self)
          have hPos := length_openText_pos call.isStatic
          rw [utf8Len_append, utf8Len_openText] at hFirst
          omega
        · obtain ⟨w, x, hw, rfl, hPre, hEnd⟩ := closingParen_cases Int.one_pos hClosed
          rw [hw] at hNext hFound hClosed
          rw [findCallsFrom_closed hNext hClosed] at hFound
          have hStop : utf8Len (u ++ lead.val ++ callText call.isStatic w) =
              utf8Len (u ++ lead.val) + utf8Len call.text := by
            revert hFound
            cases findCallsFrom (u ++ lead.val ++ callText call.isStatic w ++ x) fuel
              (utf8Len (u ++ lead.val ++ callText call.isStatic w)) with
            | error p => exact fun hFound => nomatch hFound
            | ok calls =>
              intro hFound
              simp only [Except.map, Except.ok.injEq, List.cons.injEq, Prod.mk.injEq] at hFound
              exact hFound.1.2.1
          have hInner : utf8Len w = utf8Len call.inner := by
            simp only [CallSource.text, callText, utf8Len_append] at hStop
            omega
          refine hBalanced ?_
          rw [eq_of_append_of_utf8Len hw hInner.symm]
          exact balanced_of_closing hPre hEnd

/-- The calls of a text are found, at their places, if and only if the parentheses of each match,
quoted or not. -/
theorem findCallPatterns_text (lead : Literal) (parts : List (CallSource × Literal)) :
    findCallPatterns (mixedText lead parts) = .ok (callsAt (utf8Len lead.val) parts) ↔
      ∀ part ∈ parts, Balanced part.1.inner := by
  refine findCallsFrom_parts parts _ [] lead ?_
  have hRest : parts.length ≤ (mixedRest parts).length := by
    induction parts with
    | nil => exact Nat.le_refl 0
    | cons part parts ih =>
      rw [mixedRest, List.flatMap_cons, List.length_append, ← mixedRest, List.length_append,
        CallSource.text, callText, List.length_append]
      have := length_openText_pos part.1.isStatic
      simp only [List.length_append, List.length_cons]
      omega
  rw [mixedText, List.length_append]
  omega

end Rindexer.Tables
