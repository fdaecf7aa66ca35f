import Rindexer.Filter.Readers
import Rindexer.Tables.CallScans

/-! The fields of a returns clause: as they are written, of any nesting, they are read back. -/

namespace Rindexer.Tables

open Rindexer.Lib Rindexer.Database Rindexer.Filter Splitter

/-! ### Fields of a returns clause -/

def IsWord (s : List Char) : Prop :=
  s ≠ [] ∧ ∀ c ∈ s, c.toNat < 128 ∧ isWhiteSpace c = false ∧ c ∉ ['(', ')', ',', '"']

abbrev Word := {s : List Char // IsWord s}

inductive FieldText
  | simple (typeStr : Word) (name : Option Word)
  | tuple (children : List FieldText) (name : Option Word)

def nameText : Option Word → List Char
  | none => []
  | some name => ' ' :: name.val

def nameOf : Option Word → String
  | none => ""
  | some name => .ofList name.val

mutual

def FieldText.text : FieldText → List Char
  | .simple typeStr name => typeStr.val ++ nameText name
  | .tuple children name =>
    '(' :: joined parenSplitter ' ' (fieldTexts children) ++ ')' :: nameText name

def fieldTexts : List FieldText → List (List Char)
  | [] => []
  | field :: fields => field.text :: fieldTexts fields

end

mutual

def FieldText.field : FieldText → ReturnField
  | .simple typeStr name => .mk (nameOf name) (.ofList typeStr.val) []
  | .tuple children name => .mk (nameOf name) "tuple" (returnFields children)

def returnFields : List FieldText → List ReturnField
  | [] => []
  | field :: fields => field.field :: returnFields fields

end

/-- `(type name, type name, ...)`. -/
def returnsText (fields : List FieldText) : List Char :=
  '(' :: joined parenSplitter ' ' (fieldTexts fields) ++ [')']

section Words

theorem IsWord.no_paren {s : List Char} (h : IsWord s) : ∀ c ∈ s, c ≠ '(' ∧ c ≠ ')' := by
  intro c hc
  have := (h.2 c hc).2.2
  simp only [List.mem_cons, not_or] at this
  exact ⟨this.1, this.2.1⟩

theorem IsWord.isAscii {s : List Char} (h : IsWord s) : IsAscii s := fun c hc => (h.2 c hc).1

theorem IsWord.no_comma {s : List Char} (h : IsWord s) : ',' ∉ s := fun hc => (h.2 _ hc).2.2 (by simp)

theorem uncut_of_not_mem {σ : Type} {sp : Splitter Char σ} {q : σ} {s : List Char}
    (h : sp.separator ∉ s) : sp.Uncut q s := by
  induction s generalizing q with
  | nil => trivial
  | cons c s ih =>
    rw [List.mem_cons, not_or] at h
    exact ⟨fun hc => h.1 hc.1.symm, ih h.2⟩

theorem nameText_no_paren (name : Option Word) : ∀ c ∈ nameText name, c ≠ '(' ∧ c ≠ ')' := by
  cases name with
  | none => exact fun c hc => nomatch hc
  | some name =>
    intro c hc
    rcases List.mem_cons.mp hc with rfl | hc
    · decide
    · exact name.property.no_paren c hc

theorem nameText_no_comma (name : Option Word) : ',' ∉ nameText name := by
  cases name with
  | none => exact List.not_mem_nil
  | some name =>
    intro hc
    rcases List.mem_cons.mp hc with h | hc
    · exact absurd h (by decide)
    · exact name.property.no_comma hc

theorem mem_nameText (name : Option Word) (c : Char) (hc : c ∈ nameText name) :
    c ∈ ['(', ')', ',', ' '] ∨ ∃ word : Word, c ∈ word.val := by
  cases name with
  | none => cases hc
  | some name =>
    rcases List.mem_cons.mp hc with rfl | hc
    · exact .inl (by simp)
    · exact .inr ⟨name, hc⟩

end Words

/-! ### Joined texts -/

/-- Parts whose groups are closed are kept apart when no comma of theirs is outside of a group. -/
structure Sound (s : List Char) : Prop where
  balanced : Balanced s
  uncut : parenSplitter.Uncut 0 s

theorem joined_cons (p q : List Char) (ps : List (List Char)) :
    joined parenSplitter ' ' (p :: q :: ps) =
      p ++ ([',', ' '] ++ joined parenSplitter ' ' (q :: ps)) := rfl

theorem depth_gap : depth [',', ' '] = 0 := rfl

theorem balanced_gap : Balanced [',', ' '] := balanced_of_no_paren (by decide)

theorem balanced_joined {ps : List (List Char)} (h : ∀ p ∈ ps, Balanced p) :
    Balanced (joined parenSplitter ' ' ps) := by
  induction ps with
  | nil => exact balanced_nil
  | cons p ps ih =>
    cases ps with
    | nil => exact h p List.mem_cons_self
    | cons q ps =>
      have hFirst := h p List.mem_cons_self
      rw [joined_cons, balanced_append hFirst.2, balanced_append depth_gap]
      exact ⟨hFirst, balanced_gap, ih fun r hr => h r (List.mem_cons_of_mem _ hr)⟩

theorem keepsApart_of_sound {ps : List (List Char)} (h : ∀ p ∈ ps, Sound p) :
    KeepsApart parenSplitter ps := by
  induction ps with
  | nil => trivial
  | cons p ps ih =>
    cases ps with
    | nil => exact (h p List.mem_cons_self).uncut
    | cons q ps =>
      exact ⟨(h p List.mem_cons_self).uncut, (h p List.mem_cons_self).balanced.2,
        ih fun r hr => h r (List.mem_cons_of_mem _ hr)⟩

theorem mem_joined {ps : List (List Char)} {c : Char} (h : c ∈ joined parenSplitter ' ' ps) :
    c ∈ [',', ' '] ∨ ∃ p ∈ ps, c ∈ p := by
  induction ps with
  | nil => cases h
  | cons p ps ih =>
    cases ps with
    | nil => exact .inr ⟨p, List.mem_cons_self, h⟩
    | cons q ps =>
      rw [joined_cons, List.mem_append, List.mem_append] at h
      rcases h with h | h | h
      · exact .inr ⟨p, List.mem_cons_self, h⟩
      · exact .inl h
      · rcases ih h with h | ⟨r, hr, hc⟩
        · exact .inl h
        · exact .inr ⟨r, List.mem_cons_of_mem _ hr, hc⟩

/-- Within a group commas do not cut. -/
theorem uncut_of_deep {d : Int} {s : List Char} (h : ∀ u, u <+: s → 0 < d + depth u) :
    parenSplitter.Uncut d s := by
  induction s generalizing d with
  | nil => trivial
  | cons c s ih =>
    have hHere := h [] List.nil_prefix
    rw [depth_nil, Int.add_zero] at hHere
    refine ⟨fun hc => ?_, ?_⟩
    · have : d = 0 := hc.2
      omega
    · have hStep : parenSplitter.step d c = d + depth [c] := run_parenSplitter d [c]
      rw [hStep]
      refine ih fun u hu => ?_
      have := h (c :: u) (List.cons_prefix_cons.mpr ⟨rfl, hu⟩)
      rw [depth_cons] at this
      omega

theorem sound_parens {s t : List Char} (h : Balanced s) (ht : ∀ c ∈ t, c ≠ '(' ∧ c ≠ ')')
    (hComma : ',' ∉ t) : Sound ('(' :: s ++ ')' :: t) := by
  have hText : '(' :: s ++ ')' :: t = ('(' :: s ++ [')']) ++ t := by simp
  have hParens := balanced_parens h
  refine ⟨?_, ?_⟩
  · rw [hText, balanced_append hParens.2]
    exact ⟨hParens, balanced_of_no_paren ht⟩
  · rw [hText, uncut_append]
    refine ⟨⟨fun hc => absurd hc.1 (by decide), parenSplitter.uncut_append.mpr
      ⟨uncut_of_deep fun u hu => ?_, fun hc => absurd hc.1 (by decide), trivial⟩⟩,
      uncut_of_not_mem hComma⟩
    have := h.1 u hu
    have hStep : parenSplitter.step 0 '(' = 1 := rfl
    omega

mutual

theorem FieldText.sound : (field : FieldText) → Sound field.text
  | .simple typeStr name => by
    rw [FieldText.text]
    refine ⟨?_, ?_⟩
    · rw [balanced_append (depth_of_no_paren typeStr.property.no_paren)]
      exact ⟨balanced_of_no_paren typeStr.property.no_paren,
        balanced_of_no_paren (nameText_no_paren name)⟩
    · rw [uncut_append]
      exact ⟨uncut_of_not_mem typeStr.property.no_comma, uncut_of_not_mem (nameText_no_comma name)⟩
  | .tuple children name => by
    rw [FieldText.text]
    exact sound_parens (balanced_joined fun p hp => (fieldTexts_sound children p hp).balanced)
      (nameText_no_paren name) (nameText_no_comma name)

theorem fieldTexts_sound : (fields : List FieldText) → ∀ p ∈ fieldTexts fields, Sound p
  | [], p, hp => nomatch hp
  | field :: fields, p, hp => by
    rcases List.mem_cons.mp hp with rfl | hp
    · exact field.sound
    · exact fieldTexts_sound fields p hp

end

mutual

/-- The characters of a field are those of its words and the punctuation. -/
theorem FieldText.mem_text : (field : FieldText) → ∀ c ∈ field.text,
    c ∈ ['(', ')', ',', ' '] ∨ ∃ word : Word, c ∈ word.val
  | .simple typeStr name, c, hc => by
    rw [FieldText.text, List.mem_append] at hc
    exact hc.elim (fun hc => .inr ⟨typeStr, hc⟩) (mem_nameText name c)
  | .tuple children name, c, hc => by
    simp only [FieldText.text, List.cons_append, List.mem_cons, List.mem_append] at hc
    rcases hc with rfl | hc | rfl | hc
    · exact .inl (by simp)
    · rcases mem_joined hc with hc | ⟨p, hp, hc⟩
      · exact .inl (List.mem_cons_of_mem _ (List.mem_cons_of_mem _ hc))
      · exact mem_fieldTexts_text children p hp c hc
    · exact .inl (by simp)
    · exact mem_nameText name c hc

theorem mem_fieldTexts_text : (fields : List FieldText) → ∀ p ∈ fieldTexts fields, ∀ c ∈ p,
    c ∈ ['(', ')', ',', ' '] ∨ ∃ word : Word, c ∈ word.val
  | [], p, hp => nomatch hp
  | field :: fields, p, hp => by
    rcases List.mem_cons.mp hp with rfl | hp
    · exact field.mem_text
    · exact mem_fieldTexts_text fields p hp

end

theorem mem_returnsText {fields : List FieldText} {c : Char} (h : c ∈ returnsText fields) :
    c ∈ ['(', ')', ',', ' '] ∨ ∃ word : Word, c ∈ word.val := by
  simp only [returnsText, List.cons_append, List.mem_cons, List.mem_append, List.not_mem_nil,
    or_false] at h
  rcases h with rfl | h | rfl
  · exact .inl (by simp)
  · rcases mem_joined h with h | ⟨p, hp, h⟩
    · exact .inl (List.mem_cons_of_mem _ (List.mem_cons_of_mem _ h))
    · exact mem_fieldTexts_text fields p hp c h
  · exact .inl (by simp)

theorem isAscii_returnsText (fields : List FieldText) : IsAscii (returnsText fields) := by
  intro c hc
  have hPunctuation : ∀ d ∈ ['(', ')', ',', ' '], d.toNat < 128 := by decide
  rcases mem_returnsText hc with hc | ⟨word, hc⟩
  · exact hPunctuation c hc
  · exact word.property.isAscii c hc

theorem balanced_returnsText (fields : List FieldText) : Balanced (returnsText fields) :=
  balanced_parens (balanced_joined fun p hp => (fieldTexts_sound fields p hp).balanced)

/-! ### Reading the fields -/

theorem splitWhitespace_append {w t : List Char} (hNonempty : w ≠ [])
    (hw : ∀ c ∈ w, isWhiteSpace c = false) (ht : t = [] ∨ ∃ r, t = ' ' :: r) :
    splitWhitespace (w ++ t) = w :: splitWhitespace t := by
  have hStop : t.takeWhile (! isWhiteSpace ·) = [] := by
    obtain rfl | ⟨r, rfl⟩ := ht <;> rfl
  induction w with
  | nil => exact absurd rfl hNonempty
  | cons c w ih =>
    have hc := hw c List.mem_cons_self
    have hRest : ∀ d ∈ w, isWhiteSpace d = false := fun d hd => hw d (List.mem_cons_of_mem _ hd)
    have hTake : (w ++ t).takeWhile (! isWhiteSpace ·) = w := by
      rw [List.takeWhile_append_of_pos fun d hd => by rw [hRest d hd]; rfl, hStop, List.append_nil]
    rw [List.cons_append, splitWhitespace, hc, if_neg Bool.false_ne_true, hTake]
    cases w with
    | nil => rfl
    | cons d w =>
      rw [ih (List.cons_ne_nil _ _) hRest]
      rfl

theorem IsWord.no_blank {s : List Char} (h : IsWord s) : ∀ c ∈ s, isWhiteSpace c = false :=
  fun c hc => (h.2 c hc).2.1

theorem simpleReturnField_text (typeStr : Word) (name : Option Word) :
    simpleReturnField (typeStr.val ++ nameText name) =
      some (.mk (nameOf name) (.ofList typeStr.val) []) := by
  obtain ⟨hNonempty, hWord⟩ := typeStr.property
  cases name with
  | none =>
    rw [simpleReturnField, nameText,
      splitWhitespace_append hNonempty typeStr.property.no_blank (.inl rfl)]
    rfl
  | some name =>
    have hName := splitWhitespace_append (t := []) name.property.1 name.property.no_blank (.inl rfl)
    rw [List.append_nil] at hName
    rw [simpleReturnField, nameText, splitWhitespace_append hNonempty typeStr.property.no_blank
      (.inr ⟨name.val, rfl⟩)]
    simp only [splitWhitespace, show isWhiteSpace ' ' = true from rfl, if_true, hName]
    rfl

theorem head?_append_of_ne_nil {s t : List Char} (h : s ≠ []) : (s ++ t).head? = s.head? := by
  cases s with
  | nil => exact absurd rfl h
  | cons c s => rfl

/-- A word in front and a word or a parenthesis at the end are not trimmed. -/
theorem trim_word {s t : List Char} (hNonempty : s ≠ []) (h : ∀ c ∈ s, isWhiteSpace c = false)
    (ht : ∀ c, t.getLast? = some c → isWhiteSpace c = false) : trim (s ++ t) = s ++ t := by
  have hHead : ∃ c, (s ++ t).head? = some c ∧ isWhiteSpace c = false := by
    cases s with
    | nil => exact absurd rfl hNonempty
    | cons c s => exact ⟨c, rfl, h c List.mem_cons_self⟩
  have hLast : ∃ c, (s ++ t).getLast? = some c ∧ isWhiteSpace c = false := by
    cases hEnd : t.getLast? with
    | some c => exact ⟨c, by rw [List.getLast?_append, hEnd]; rfl, ht c hEnd⟩
    | none =>
      refine ⟨s.getLast hNonempty, ?_, h _ (List.getLast_mem hNonempty)⟩
      rw [List.getLast?_append, hEnd, List.getLast?_eq_some_getLast hNonempty]
      rfl
  obtain ⟨c, hHead, hc⟩ := hHead
  obtain ⟨d, hLast, hd⟩ := hLast
  exact trim_of_ends hc hd hHead hLast

theorem nameText_last (name : Option Word) (c : Char) (h : (nameText name).getLast? = some c) :
    isWhiteSpace c = false := by
  cases name with
  | none => cases h
  | some name =>
    refine name.property.no_blank c ?_
    rw [nameText, List.getLast?_cons, Option.some_inj] at h
    rw [← h, List.getLast?_eq_some_getLast name.property.1]
    exact List.getLast_mem name.property.1

theorem trim_nameText (name : Option Word) :
    String.ofList (trim (nameText name)) = nameOf name := by
  cases name with
  | none => rfl
  | some name =>
    have hTrim := trim_word (t := []) name.property.1 name.property.no_blank fun c hc => nomatch hc
    rw [List.append_nil] at hTrim
    rw [nameText, trim_space, hTrim]
    rfl

theorem FieldText.trim_text (field : FieldText) : trim field.text = field.text := by
  cases field with
  | simple typeStr name =>
    rw [FieldText.text]
    exact trim_word typeStr.property.1 typeStr.property.no_blank (nameText_last name)
  | tuple children name =>
    rw [FieldText.text]
    refine trim_word (s := ['(']) (List.cons_ne_nil _ _) (by decide) fun c hc => ?_
    change (_ ++ ')' :: nameText name).getLast? = some c at hc
    rw [List.getLast?_append, List.getLast?_cons] at hc
    cases hName : (nameText name).getLast? with
    | none =>
      rw [hName] at hc
      cases hc
      rfl
    | some d =>
      rw [hName] at hc
      cases hc
      exact nameText_last name _ hName

theorem FieldText.text_ne_nil (field : FieldText) : field.text ≠ [] := by
  cases field with
  | simple typeStr name =>
    rw [FieldText.text]
    exact List.append_ne_nil_of_left_ne_nil typeStr.property.1 _
  | tuple children name => exact List.cons_ne_nil _ _

theorem trim_returnsText (fields : List FieldText) : trim (returnsText fields) = returnsText fields :=
  trim_word (s := ['(']) (List.cons_ne_nil _ _) (by decide) fun c hc => by
    change (_ ++ [')']).getLast? = some c at hc
    rw [List.getLast?_append] at hc
    cases hc
    rfl

theorem map_trim_fieldTexts (fields : List FieldText) :
    (fieldTexts fields).map trim = fieldTexts fields := by
  induction fields with
  | nil => rfl
  | cons field fields ih => rw [fieldTexts, List.map_cons, ih, field.trim_text]

theorem ne_nil_of_mem_fieldTexts {fields : List FieldText} {s : List Char} (h : s ∈ fieldTexts fields) :
    s ≠ [] := by
  induction fields with
  | nil => cases h
  | cons field fields ih =>
    rcases List.mem_cons.mp h with rfl | h
    · exact field.text_ne_nil
    · exact ih h

/-- A list of fields is cut into the texts of its fields. -/
theorem texts_of_joined (fields : List FieldText) {r : List (List Char) × List Char}
    (hr : splitLoop parenSplitter [] [] 0 (joined parenSplitter ' ' (fieldTexts fields)) = r) :
    (if trim r.2 = [] then r.1 else r.1 ++ [r.2]).map trim = fieldTexts fields := by
  cases fields with
  | nil =>
    cases hr
    rfl
  | cons field fields =>
    have hApart := keepsApart_of_sound (fieldTexts_sound (field :: fields))
    have hPieces : r.1 ++ [r.2] = field.text :: (fieldTexts fields).map (' ' :: ·) := by
      rw [← hr]
      exact (splitLoop_pieces parenSplitter _).trans (pieces_joined parenSplitter_steady hApart)
    have hTexts : r.1.map trim ++ [trim r.2] = fieldTexts (field :: fields) := by
      rw [← List.map_singleton, ← List.map_append, hPieces, List.map_cons, List.map_map,
        show trim ∘ (' ' :: ·) = trim from funext trim_space, field.trim_text, map_trim_fieldTexts]
      rfl
    have hMem : trim r.2 ∈ fieldTexts (field :: fields) := by
      rw [← hTexts]
      exact List.mem_append_right _ List.mem_cons_self
    rw [if_neg (ne_nil_of_mem_fieldTexts hMem), List.map_append]
    exact hTexts

theorem lengths_of_mem {ps : List (List Char)} {p : List Char} (h : p ∈ ps) :
    p.length ≤ (joined parenSplitter ' ' ps).length := by
  induction ps with
  | nil => cases h
  | cons q ps ih =>
    cases ps with
    | nil =>
      cases List.mem_singleton.mp h
      exact Nat.le_refl _
    | cons r ps =>
      rw [joined_cons, List.length_append, List.length_append]
      rcases List.mem_cons.mp h with rfl | h
      · omega
      · have := ih h
        omega

theorem parseSingle_tuple {read : List Char → Except Panic (List ReturnField)}
    {children : List FieldText} {name : Option Word}
    (hRead : read (returnsText children) = .ok (returnFields children)) :
    parseSingleReturnField read (FieldText.tuple children name).text =
      .ok (some (FieldText.tuple children name).field) := by
  have hText : (FieldText.tuple children name).text = returnsText children ++ nameText name := by
    rw [FieldText.text, returnsText]
    simp
  have hAscii := isAscii_returnsText children
  have hClosing : closingParen (fun _ => 1) 0 0 (returnsText children ++ nameText name) =
      some ((returnsText children).length - 1) := by
    have hBalanced : Balanced (joined parenSplitter ' ' (fieldTexts children)) :=
      balanced_joined fun p hp => (fieldTexts_sound children p hp).balanced
    rw [returnsText, List.cons_append, List.cons_append, List.append_assoc, List.singleton_append,
      closingParen, if_pos rfl]
    refine (closingParen_of_balanced hBalanced _).trans ?_
    rw [widthOf_one, List.length_cons, List.length_append, List.length_singleton]
    congr 1
    omega
  have hLength : (returnsText children).length - 1 + 1 = utf8Len (returnsText children) := by
    rw [utf8Len_of_isAscii hAscii, returnsText, List.cons_append, List.length_cons]
    omega
  have hTrim := (FieldText.tuple children name).trim_text
  rw [hText] at hTrim
  rw [hText, parseSingleReturnField]
  simp only [hTrim]
  rw [if_neg (by simp [returnsText]), if_pos (by rfl), hClosing]
  simp only [hLength, sliceTo_append, sliceFrom_append, ok_bind, hRead, trim_nameText, pure_eq_ok]
  rfl

theorem parseSingle_simple {read : List Char → Except Panic (List ReturnField)} {typeStr : Word}
    {name : Option Word} :
    parseSingleReturnField read (FieldText.simple typeStr name).text =
      .ok (some (FieldText.simple typeStr name).field) := by
  have hTrim := (FieldText.simple typeStr name).trim_text
  have hHead : (FieldText.simple typeStr name).text.head? ≠ some '(' := by
    rw [FieldText.text, head?_append_of_ne_nil typeStr.property.1]
    intro hHead
    exact (typeStr.property.no_paren _ (List.mem_of_head? hHead)).1 rfl
  rw [parseSingleReturnField]
  simp only [hTrim]
  rw [if_neg (FieldText.text_ne_nil _), if_neg hHead, FieldText.text, simpleReturnField_text]
  rfl

theorem parseFieldList {read : List Char → Except Panic (List ReturnField)} {fields : List FieldText}
    (h : ∀ field ∈ fields, parseSingleReturnField read field.text = .ok (some field.field)) :
    parseReturnFieldList read (joined parenSplitter ' ' (fieldTexts fields)) =
      .ok (returnFields fields) := by
  have hAll : (fieldTexts fields).mapM (parseSingleReturnField read) =
      .ok ((returnFields fields).map some) := by
    induction fields with
    | nil => rfl
    | cons field fields ih =>
      rw [fieldTexts, List.mapM_cons, h field List.mem_cons_self,
        ih fun f hf => h f (List.mem_cons_of_mem _ hf)]
      rfl
  rw [parseReturnFieldList]
  rcases hr : splitLoop parenSplitter [] [] 0 (joined parenSplitter ' ' (fieldTexts fields)) with
    ⟨parts, current⟩
  rw [← texts_of_joined fields hr, List.mapM_map] at hAll
  dsimp only
  rw [show (fun text => parseSingleReturnField read (trim text)) =
    parseSingleReturnField read ∘ trim from rfl, hAll]
  simp [List.filterMap_map]

theorem parse_returnsText {fields : List FieldText} {fuel : Nat}
    (h : ∀ field ∈ fields,
      parseSingleReturnField (parseReturnFieldsTo fuel) field.text = .ok (some field.field)) :
    parseReturnFieldsTo (fuel + 1) (returnsText fields) = .ok (returnFields fields) := by
  have hLast : (returnsText fields).getLast? = some ')' := List.getLast?_concat
  rw [parseReturnFieldsTo]
  simp only [trim_returnsText]
  rw [if_pos ⟨rfl, hLast⟩, show (returnsText fields).tail.dropLast =
    joined parenSplitter ' ' (fieldTexts fields) from List.dropLast_concat]
  exact parseFieldList h

mutual

/-- A field reads back when the bound on the depth is at least its length. -/
theorem parseSingle_text : (field : FieldText) → (fuel : Nat) → field.text.length ≤ fuel →
    parseSingleReturnField (parseReturnFieldsTo fuel) field.text = .ok (some field.field)
  | .simple _ _, _, _ => parseSingle_simple
  | .tuple children name, 0, hFuel => by simp [FieldText.text] at hFuel
  | .tuple children name, fuel + 1, hFuel => by
    refine parseSingle_tuple (parse_returnsText (parseEach_text children fuel fun p hp => ?_))
    have hLength := lengths_of_mem hp
    simp only [FieldText.text, List.cons_append, List.length_cons, List.length_append] at hFuel
    omega

theorem parseEach_text : (fields : List FieldText) → (fuel : Nat) →
    (∀ p ∈ fieldTexts fields, p.length ≤ fuel) → ∀ field ∈ fields,
      parseSingleReturnField (parseReturnFieldsTo fuel) field.text = .ok (some field.field)
  | [], _, _, _, h => nomatch h
  | first :: fields, fuel, hFuel, field, h => by
    rcases List.mem_cons.mp h with hFirst | h
    · rw [hFirst]
      exact parseSingle_text first fuel (hFuel _ List.mem_cons_self)
    · exact parseEach_text fields fuel (fun p hp => hFuel p (List.mem_cons_of_mem _ hp)) field h

end

/-- The fields of a returns clause read back, whatever their nesting is. -/
theorem parseReturnFields_text (fields : List FieldText) :
    parseReturnFields (returnsText fields) = .ok (returnFields fields) := by
  have hLength : (returnsText fields).length =
      (joined parenSplitter ' ' (fieldTexts fields)).length + 1 + 1 := by
    simp [returnsText]
  rw [parseReturnFields, hLength]
  refine parse_returnsText (parseEach_text fields _ fun p hp => ?_)
  exact (lengths_of_mem hp).trans (Nat.le_succ _)

end Rindexer.Tables
