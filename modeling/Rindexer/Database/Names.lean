import Mathlib.Tactic.Common
import Mathlib.Tactic.NormNum
import Rindexer.Lib.Joined

/-! The names of the internal tables: snake case, the schema of a contract, and shortening.  A name is
the characters of a string, and `none` stands for a panic. -/

namespace Rindexer.Database

/-- The character classes of the standard library. -/
structure UnicodeClasses where
  isAlphanumeric : Char → Bool
  isUppercase : Char → Bool
  isLowercase : Char → Bool
  ascii : ∀ c : Char, c.toNat < 128 →
    isAlphanumeric c = c.isAlphanum ∧ isUppercase c = c.isUpper ∧ isLowercase c = c.isLower

/-- The length in bytes. -/
def utf8Len (s : List Char) : Nat := (s.map Char.utf8Size).sum

@[simp] theorem utf8Len_nil : utf8Len [] = 0 := rfl

@[simp] theorem utf8Len_cons (c : Char) (s : List Char) :
    utf8Len (c :: s) = c.utf8Size + utf8Len s := rfl

@[simp] theorem utf8Len_append (s t : List Char) : utf8Len (s ++ t) = utf8Len s + utf8Len t := by
  simp only [utf8Len, List.map_append, List.sum_append]

theorem length_le_utf8Len (s : List Char) : s.length ≤ utf8Len s := by
  induction s with
  | nil => exact Nat.le_refl 0
  | cons c s ih =>
    have := c.utf8Size_pos
    rw [List.length_cons, utf8Len_cons]
    omega

theorem utf8Len_eq_length {s : List Char} (h : ∀ c ∈ s, c.utf8Size = 1) : utf8Len s = s.length := by
  rw [utf8Len, List.map_congr_left h, List.map_const', List.sum_replicate_nat, Nat.mul_one]

/-! ### Snake case -/

structure SnakeState where
  snakeCase : List Char
  previousWasUppercase : Bool
  previousWasDigit : Bool
  uppercaseSequenceLength : Nat
deriving Repr

def SnakeState.start : SnakeState := ⟨[], false, false, 0⟩

section Snake

variable (classes : UnicodeClasses) (numbersAttachToLastWord : Bool)

/-- Whether an upper-case character at position `i` begins a word.  Inside a run of upper-case
characters the next character decides, which is expected to exist if the text has more bytes. -/
def beginsWord (byteLength i : Nat) (previousWasUppercase : Bool) (next? : Option Char) :
    Option Bool :=
  if i = 0 then some false
  else if !previousWasUppercase then some true
  else if i + 1 < byteLength then next?.map classes.isLowercase
  else some false

def snakeChar (byteLength i : Nat) (state : SnakeState) (c : Char) (next? : Option Char) :
    Option SnakeState :=
  if classes.isAlphanumeric c || c == '_' then
    if classes.isUppercase c then
      (beginsWord classes byteLength i state.previousWasUppercase next?).map fun begins =>
        { snakeCase := (if begins then state.snakeCase ++ ['_'] else state.snakeCase) ++ [c.toLower]
          previousWasUppercase := true
          previousWasDigit := false
          uppercaseSequenceLength := state.uppercaseSequenceLength + 1 }
    else if c.isDigit then
      let begins := !numbersAttachToLastWord && 0 < i && !state.previousWasDigit &&
        state.snakeCase.getLast? ≠ some '_' && state.uppercaseSequenceLength ≠ 1
      some
        { snakeCase := (if begins then state.snakeCase ++ ['_'] else state.snakeCase) ++ [c]
          previousWasUppercase := false
          previousWasDigit := true
          uppercaseSequenceLength := 0 }
    else
      some
        { snakeCase := state.snakeCase ++ [c]
          previousWasUppercase := false
          previousWasDigit := false
          uppercaseSequenceLength := 0 }
  else some state

/-- The loop over the characters from position `i` on. -/
def snakeFrom (byteLength : Nat) : Nat → SnakeState → List Char → Option SnakeState
  | _, state, [] => some state
  | i, state, c :: rest =>
    (snakeChar classes numbersAttachToLastWord byteLength i state c rest.head?).bind fun state =>
      snakeFrom byteLength (i + 1) state rest

def camelToSnakeAdvanced (s : List Char) : Option (List Char) :=
  (snakeFrom classes numbersAttachToLastWord (utf8Len s) 0 .start s).map SnakeState.snakeCase

end Snake

def camelToSnake (classes : UnicodeClasses) (s : List Char) : Option (List Char) :=
  camelToSnakeAdvanced classes false s

section Panics

variable (classes : UnicodeClasses)

def isKept (c : Char) : Bool := classes.isAlphanumeric c || c == '_'

/-- The flag of the loop after the characters `seen`. -/
def lastUppercase (seen : List Char) : Bool :=
  (seen.filter (isKept classes)).getLast?.any classes.isUppercase

@[simp] theorem lastUppercase_nil : lastUppercase classes [] = false := rfl

theorem lastUppercase_append (seen : List Char) (c : Char) :
    lastUppercase classes (seen ++ [c]) =
      if isKept classes c then classes.isUppercase c else lastUppercase classes seen := by
  rw [lastUppercase, List.filter_append]
  split
  next hKept => simp [hKept]
  next hSkipped => simp [hSkipped, lastUppercase]

theorem snakeChar_eq_none_iff {attach : Bool} {byteLength i : Nat} {state : SnakeState} {c : Char}
    {next? : Option Char} :
    snakeChar classes attach byteLength i state c next? = none ↔
      isKept classes c = true ∧ classes.isUppercase c = true ∧ i ≠ 0 ∧
        state.previousWasUppercase = true ∧ i + 1 < byteLength ∧ next? = none := by
  rw [snakeChar, ← isKept]
  split
  next hKept =>
    split
    next hUpper =>
      rw [Option.map_eq_none_iff, beginsWord]
      by_cases hi : i = 0
      · simp [hi]
      · cases hFlag : state.previousWasUppercase with
        | false => simp [hi]
        | true =>
          by_cases hByte : i + 1 < byteLength
          · simp [hi, hByte, hKept, hUpper]
          · simp [hi, hByte]
    next hLower =>
      split <;> simp [hLower]
  next hSkipped => simp [hSkipped]

theorem snakeChar_flag {attach : Bool} {byteLength i : Nat} {state state' : SnakeState} {c : Char}
    {next? : Option Char} (h : snakeChar classes attach byteLength i state c next? = some state') :
    state'.previousWasUppercase =
      if isKept classes c then classes.isUppercase c else state.previousWasUppercase := by
  rw [snakeChar, ← isKept] at h
  split at h
  next hKept =>
    rw [if_pos hKept]
    split at h
    next hUpper =>
      obtain ⟨begins, -, rfl⟩ := Option.map_eq_some_iff.mp h
      exact hUpper.symm
    next hLower =>
      split at h
      · obtain rfl := Option.some.inj h
        exact (Bool.eq_false_iff.mpr hLower).symm
      · obtain rfl := Option.some.inj h
        exact (Bool.eq_false_iff.mpr hLower).symm
  next hSkipped =>
    obtain rfl := Option.some.inj h
    rw [if_neg hSkipped]

/-- A text with a character of several bytes that ends in two upper-case characters, up to skipped
ones between them: the loop asks for the character after the last. -/
def Panics (s : List Char) : Prop :=
  s.length < utf8Len s ∧ ∃ init c, s = init ++ [c] ∧ isKept classes c = true ∧
    classes.isUppercase c = true ∧ lastUppercase classes init = true

theorem snakeFrom_eq_none_iff {attach : Bool} {byteLength : Nat} (seen : List Char)
    {state : SnakeState} (rest : List Char)
    (hFlag : state.previousWasUppercase = lastUppercase classes seen) :
    snakeFrom classes attach byteLength seen.length state rest = none ↔
      seen.length + rest.length < byteLength ∧ ∃ init c, rest = init ++ [c] ∧
        isKept classes c = true ∧ classes.isUppercase c = true ∧
        lastUppercase classes (seen ++ init) = true := by
  induction rest generalizing seen state with
  | nil => simp [snakeFrom]
  | cons c rest ih =>
    cases rest with
    | nil =>
      rw [snakeFrom, Option.bind_eq_none_iff, List.head?_nil]
      constructor
      · intro h
        cases hChar : snakeChar classes attach byteLength seen.length state c none with
        | some state' => exact absurd (h state' hChar) (by simp [snakeFrom])
        | none =>
          obtain ⟨hKept, hUpper, -, hPrevious, hByte, -⟩ := (snakeChar_eq_none_iff classes).mp hChar
          exact ⟨hByte, [], c, rfl, hKept, hUpper, by rw [List.append_nil, ← hFlag, hPrevious]⟩
      · rintro ⟨hByte, init, d, hRest, hKept, hUpper, hLast⟩
        obtain ⟨rfl, hSingle⟩ : [] = init ∧ [c] = [d] := List.append_inj' hRest rfl
        obtain rfl := List.head_eq_of_cons_eq hSingle
        rw [List.append_nil] at hLast
        have hNonempty : seen.length ≠ 0 := by
          intro hLength
          rw [List.eq_nil_of_length_eq_zero hLength] at hLast
          cases hLast
        have hNone := (@snakeChar_eq_none_iff classes attach _ _ state _ _).mpr
          ⟨hKept, hUpper, hNonempty, hFlag.trans hLast, hByte, rfl⟩
        intro state' hChar
        rw [hNone] at hChar
        cases hChar
    | cons d rest =>
      rw [snakeFrom, List.head?_cons]
      cases hChar : snakeChar classes attach byteLength seen.length state c (some d) with
      | none =>
        obtain ⟨-, -, -, -, -, hNext⟩ := (snakeChar_eq_none_iff classes).mp hChar
        cases hNext
      | some state' =>
        have hFlag' : state'.previousWasUppercase = lastUppercase classes (seen ++ [c]) := by
          rw [snakeChar_flag classes hChar, lastUppercase_append, hFlag]
        have hRun := ih (seen ++ [c]) hFlag'
        rw [List.length_append, List.length_singleton] at hRun
        rw [Option.bind_some, hRun]
        simp only [List.length_cons]
        constructor
        · rintro ⟨hByte, init, e, hRest, hLast⟩
          exact ⟨by omega, c :: init, e, congrArg (c :: ·) hRest, by simpa using hLast⟩
        · rintro ⟨hByte, init, e, hRest, hLast⟩
          cases init with
          | nil => cases hRest
          | cons b init =>
            obtain ⟨rfl, hTail⟩ := List.cons.inj hRest
            exact ⟨by omega, init, e, hTail, by simpa using hLast⟩

theorem camelToSnake_eq_none_iff (s : List Char) :
    camelToSnake classes s = none ↔ Panics classes s := by
  rw [camelToSnake, camelToSnakeAdvanced, Option.map_eq_none_iff]
  exact (snakeFrom_eq_none_iff classes [] s rfl).trans (by simp [Panics])

/-- The classes of ASCII. -/
def asciiClasses : UnicodeClasses where
  isAlphanumeric := Char.isAlphanum
  isUppercase := Char.isUpper
  isLowercase := Char.isLower
  ascii _ _ := ⟨rfl, rfl, rfl⟩

theorem snakeFrom_of_ascii {attach : Bool} {byteLength i : Nat} {state : SnakeState} {s : List Char}
    (h : ∀ c ∈ s, c.toNat < 128) :
    snakeFrom classes attach byteLength i state s =
      snakeFrom asciiClasses attach byteLength i state s := by
  induction s generalizing i state with
  | nil => rfl
  | cons c s ih =>
    obtain ⟨hAlphanumeric, hUpper, -⟩ := classes.ascii c (h c List.mem_cons_self)
    have hLower : s.head?.map classes.isLowercase = s.head?.map asciiClasses.isLowercase := by
      cases s with
      | nil => rfl
      | cons d s =>
        have hd := (classes.ascii d (h d (List.mem_cons_of_mem _ List.mem_cons_self))).2.2
        exact congrArg some hd
    have hBegins : ∀ flag, beginsWord classes byteLength i flag s.head? =
        beginsWord asciiClasses byteLength i flag s.head? := by
      intro flag
      rw [beginsWord, beginsWord, hLower]
    have hChar : snakeChar classes attach byteLength i state c s.head? =
        snakeChar asciiClasses attach byteLength i state c s.head? := by
      rw [snakeChar, snakeChar, hAlphanumeric, hUpper, hBegins]
      rfl
    rw [snakeFrom, snakeFrom, hChar]
    congr 1
    funext state'
    exact ih fun d hd => h d (List.mem_cons_of_mem _ hd)

/-- An ASCII text has one spelling, whatever the other classes are. -/
theorem camelToSnake_of_ascii {s : List Char} (h : ∀ c ∈ s, c.toNat < 128) :
    camelToSnake classes s = camelToSnake asciiClasses s := by
  rw [camelToSnake, camelToSnakeAdvanced, snakeFrom_of_ascii classes h]
  rfl

/-- An ASCII text never panics. -/
theorem not_panics_of_ascii {s : List Char} (h : ∀ c ∈ s, c.utf8Size = 1) : ¬Panics classes s := by
  rintro ⟨hLength, -⟩
  rw [utf8Len_eq_length h] at hLength
  omega

end Panics

end Rindexer.Database
