import Mathlib.Tactic.Common
import Mathlib.Tactic.NormNum

/-! The insertion of a batch of rows: one statement for small batches, a binary COPY for large ones.
A COPY that is finished commits the rows that were written to it. -/

namespace Rindexer.Database.BulkInsert

/-- The values of rows, the types that columns are given for them, and whether a value can be encoded
for a type. -/
structure Codec (V T : Type) where
  toType : V → T
  encodes : T → V → Bool

/-- What becomes of an attempt to insert: whether there is a connection, whether a row gets through
after as many others, and which rows the database takes from a statement and from a COPY. -/
structure Attempt (V : Type) where
  connects : Bool
  sends : Nat → Bool
  executes : List (List V) → Bool
  finishes : List (List V) → Bool

inductive Outcome
  | ok
  | err
  | panicked
deriving DecidableEq, Repr

/-- The outcome and the rows of the table. -/
structure Inserted (V : Type) where
  outcome : Outcome
  rows : List (List V)

section Insertion

variable {V T : Type} (codec : Codec V T)

/-- Writing rows to a COPY: all of them, or some before one that fails.  A row of another length is a
panic. -/
inductive Writing (V : Type)
  | all
  | failed (written : List (List V))
  | panicked

def writeRows (columnTypes : List T) (sends : Nat → Bool) (written : List (List V)) :
    List (List V) → Writing V
  | [] => .all
  | row :: rest =>
    if row.length ≠ columnTypes.length then .panicked
    else if (columnTypes.zip row).all (fun x => codec.encodes x.1 x.2) && sends written.length then
      writeRows columnTypes sends (written ++ [row]) rest
    else .failed written

def bulkInsertViaCopy (attempt : Attempt V) (columnTypes : List T) (data table : List (List V)) :
    Inserted V :=
  if attempt.connects then
    match writeRows codec columnTypes attempt.sends [] data with
    | .all => if attempt.finishes data then ⟨.ok, table ++ data⟩ else ⟨.err, table⟩
    -- a failed write finishes the COPY before its error is returned
    | .failed written =>
      if attempt.finishes written then ⟨.err, table ++ written⟩ else ⟨.err, table⟩
    | .panicked => ⟨.panicked, table⟩
  else ⟨.err, table⟩

def bulkInsertViaQuery (attempt : Attempt V) (data table : List (List V)) : Inserted V :=
  if attempt.connects && attempt.executes data then ⟨.ok, table ++ data⟩ else ⟨.err, table⟩

def usesCopy (columns : List String) (data : List (List V)) : Bool :=
  data.length > 100 || data.length * columns.length > 65535

def insertBulk (attempt : Attempt V) (columns : List String) (data table : List (List V)) :
    Inserted V :=
  match data with
  | [] => ⟨.ok, table⟩
  | first :: _ =>
    if usesCopy columns data then
      bulkInsertViaCopy codec attempt (first.map codec.toType) data table
    else bulkInsertViaQuery attempt data table

/-- The callback runs until it succeeds or panics; with no attempt left the process is stopped. -/
def triggerEvent (columns : List String) (data : List (List V)) :
    List (Attempt V) → List (List V) → Inserted V
  | [], table => ⟨.err, table⟩
  | attempt :: rest, table =>
    match insertBulk codec attempt columns data table with
    | ⟨.err, table'⟩ => triggerEvent columns data rest table'
    | inserted => inserted

/-! ### What an attempt leaves -/

/-- A row has a value for each column, the values can be encoded, and the connection takes them. -/
def Goes (columnTypes : List T) (sends : Nat → Bool) (n : Nat) (row : List V) : Prop :=
  row.length = columnTypes.length ∧
    (columnTypes.zip row).all (fun x => codec.encodes x.1 x.2) = true ∧ sends n = true

def columnTypes (data : List (List V)) : List T := (data.headD []).map codec.toType

/-- A COPY stops at a row that is not the first, and what was written before it is finished. -/
def CommitsPart (attempt : Attempt V) (columns : List String) (data : List (List V)) : Prop :=
  usesCopy columns data = true ∧ attempt.connects = true ∧ ∃ written row rest,
    data = written ++ row :: rest ∧ written ≠ [] ∧
      (∀ n (_ : n < written.length),
        Goes codec (columnTypes codec data) attempt.sends n written[n]) ∧
      row.length = (columnTypes codec data).length ∧
      ¬ Goes codec (columnTypes codec data) attempt.sends written.length row ∧
      attempt.finishes written = true

/-- An attempt that adds the batch, or nothing. -/
def AllOrNothing (attempt : Attempt V) (columns : List String) (data : List (List V)) : Prop :=
  ∀ table, (insertBulk codec attempt columns data table).outcome ≠ .ok →
    (insertBulk codec attempt columns data table).rows = table

variable {codec} {attempt : Attempt V} {columns : List String} {data : List (List V)}

theorem writeRows_failed {types : List T} {sends : Nat → Bool} {before w : List (List V)} :
    writeRows codec types sends before data = .failed w ↔ ∃ written row rest,
      data = written ++ row :: rest ∧ w = before ++ written ∧
        (∀ n (_ : n < written.length), Goes codec types sends (before.length + n) written[n]) ∧
        row.length = types.length ∧
        ¬ Goes codec types sends (before.length + written.length) row := by
  induction data generalizing before with
  | nil => simp [writeRows]
  | cons first others ih =>
    rw [writeRows]
    split
    · next hLength =>
      simp only [reduceCtorEq, false_iff]
      rintro ⟨written, row, rest, hData, -, hGoes, hRow, -⟩
      cases written with
      | nil =>
        obtain ⟨rfl, -⟩ := List.cons.inj hData
        exact hLength hRow
      | cons head tail =>
        obtain ⟨rfl, -⟩ := List.cons.inj hData
        exact hLength (hGoes 0 (by simp)).1
    · next hLength =>
      have hFirst : Goes codec types sends before.length first ↔
          ((types.zip first).all (fun x => codec.encodes x.1 x.2) && sends before.length) = true := by
        rw [Goes, Bool.and_eq_true, and_iff_right (Decidable.not_not.mp hLength)]
      split
      · next hTaken =>
        rw [ih]
        constructor
        · rintro ⟨written, row, rest, rfl, rfl, hGoes, hRow, hStops⟩
          refine ⟨first :: written, row, rest, rfl, by simp, ?_, hRow, ?_⟩
          · intro n hn
            cases n with
            | zero => exact hFirst.mpr hTaken
            | succ n =>
              have h := hGoes n (Nat.lt_of_succ_lt_succ hn)
              rw [List.length_append, List.length_singleton] at h
              rw [show before.length + (n + 1) = before.length + 1 + n by omega]
              exact h
          · rw [List.length_append, List.length_singleton] at hStops
            rw [List.length_cons,
              show before.length + (written.length + 1) = before.length + 1 + written.length by omega]
            exact hStops
        · rintro ⟨written, row, rest, hData, rfl, hGoes, hRow, hStops⟩
          cases written with
          | nil =>
            obtain ⟨rfl, -⟩ := List.cons.inj hData
            exact absurd (hFirst.mpr hTaken) hStops
          | cons head tail =>
            obtain ⟨rfl, rfl⟩ := List.cons.inj hData
            refine ⟨tail, row, rest, rfl, by simp, fun n hn => ?_, hRow, ?_⟩
            · have h := hGoes (n + 1) (Nat.succ_lt_succ hn)
              rw [List.length_append, List.length_singleton,
                show before.length + 1 + n = before.length + (n + 1) by omega]
              exact h
            · rw [List.length_cons] at hStops
              rw [List.length_append, List.length_singleton,
                show before.length + 1 + tail.length = before.length + (tail.length + 1) by omega]
              exact hStops
      · next hRefused =>
        constructor
        · rintro ⟨⟩
          exact ⟨[], first, others, rfl, by simp, by simp, Decidable.not_not.mp hLength,
            fun h => hRefused (hFirst.mp h)⟩
        · rintro ⟨written, row, rest, hData, rfl, hGoes, -, -⟩
          cases written with
          | nil => rw [List.append_nil]
          | cons head tail =>
            obtain ⟨rfl, -⟩ := List.cons.inj hData
            exact absurd (hFirst.mp (hGoes 0 (by simp))) hRefused

theorem commitsPart_iff {first : List V} {rest : List (List V)}
    (hCopy : usesCopy columns (first :: rest) = true) (hConnects : attempt.connects = true) :
    CommitsPart codec attempt columns (first :: rest) ↔ ∃ written,
      writeRows codec (first.map codec.toType) attempt.sends [] (first :: rest) = .failed written ∧
        written ≠ [] ∧ attempt.finishes written = true := by
  constructor
  · rintro ⟨-, -, written, row, others, hData, hNonempty, hGoes, hRow, hStops, hFinishes⟩
    refine ⟨written, writeRows_failed.mpr ⟨written, row, others, hData, rfl, ?_, hRow, ?_⟩,
      hNonempty, hFinishes⟩
    · intro n hn
      rw [List.length_nil, Nat.zero_add]
      exact hGoes n hn
    · rw [List.length_nil, Nat.zero_add]
      exact hStops
  · rintro ⟨written, hWrite, hNonempty, hFinishes⟩
    obtain ⟨w, row, others, hData, hw, hGoes, hRow, hStops⟩ := writeRows_failed.mp hWrite
    simp only [List.length_nil, Nat.zero_add] at hGoes hStops
    rw [List.nil_append] at hw
    subst hw
    exact ⟨hCopy, hConnects, written, row, others, hData, hNonempty, hGoes, hRow, hStops, hFinishes⟩

theorem insertBulk_cons {first : List V} {rest : List (List V)} (table : List (List V)) :
    insertBulk codec attempt columns (first :: rest) table =
      if usesCopy columns (first :: rest) then
        bulkInsertViaCopy codec attempt (first.map codec.toType) (first :: rest) table
      else bulkInsertViaQuery attempt (first :: rest) table := rfl

/-- What an attempt adds depends on nothing in the table. -/
theorem insertBulk_adds (attempt : Attempt V) (columns : List String) (data : List (List V)) :
    ∃ outcome added, (outcome = .ok → added = data) ∧
      (added = [] ∨ outcome = .ok ∨ CommitsPart codec attempt columns data) ∧
      (CommitsPart codec attempt columns data → outcome = .err ∧ added ≠ []) ∧
      ∀ table, insertBulk codec attempt columns data table = ⟨outcome, table ++ added⟩ := by
  cases data with
  | nil =>
    refine ⟨.ok, [], fun _ => rfl, Or.inl rfl, ?_, fun table => ?_⟩
    · rintro ⟨hCopy, -⟩
      exact absurd hCopy (by simp [usesCopy])
    · rw [List.append_nil]
      rfl
  | cons first rest =>
    cases hCopy : usesCopy columns (first :: rest) with
    | false =>
      have hPart : ¬ CommitsPart codec attempt columns (first :: rest) := by
        rintro ⟨hTrue, -⟩
        rw [hCopy] at hTrue
        cases hTrue
      cases hTaken : attempt.connects && attempt.executes (first :: rest) with
      | true =>
        refine ⟨.ok, first :: rest, fun _ => rfl, Or.inr (Or.inl rfl), fun h => absurd h hPart,
          fun table => ?_⟩
        rw [insertBulk_cons, hCopy, if_neg (by simp), bulkInsertViaQuery, hTaken, if_pos rfl]
      | false =>
        refine ⟨.err, [], by simp, Or.inl rfl, fun h => absurd h hPart, fun table => ?_⟩
        rw [insertBulk_cons, hCopy, if_neg (by simp), bulkInsertViaQuery, hTaken, if_neg (by simp),
          List.append_nil]
    | true =>
      cases hConnects : attempt.connects with
      | false =>
        refine ⟨.err, [], by simp, Or.inl rfl, ?_, fun table => ?_⟩
        · rintro ⟨-, hTrue, -⟩
          rw [hConnects] at hTrue
          cases hTrue
        · rw [insertBulk_cons, hCopy, if_pos rfl, bulkInsertViaCopy, hConnects, if_neg (by simp),
            List.append_nil]
      | true =>
        have hInsert : ∀ table, insertBulk codec attempt columns (first :: rest) table =
            match writeRows codec (first.map codec.toType) attempt.sends [] (first :: rest) with
            | .all => if attempt.finishes (first :: rest) then ⟨.ok, table ++ first :: rest⟩
              else ⟨.err, table⟩
            | .failed written =>
              if attempt.finishes written then ⟨.err, table ++ written⟩ else ⟨.err, table⟩
            | .panicked => ⟨.panicked, table⟩ := fun table => by
          rw [insertBulk_cons, hCopy, if_pos rfl, bulkInsertViaCopy, hConnects, if_pos rfl]
        simp only [hInsert, commitsPart_iff hCopy hConnects]
        cases hWrite : writeRows codec (first.map codec.toType) attempt.sends [] (first :: rest) with
        | all =>
          cases hFinish : attempt.finishes (first :: rest) with
          | true => exact ⟨.ok, first :: rest, fun _ => rfl, Or.inr (Or.inl rfl), by simp, by simp⟩
          | false => exact ⟨.err, [], by simp, Or.inl rfl, by simp, by simp⟩
        | failed written =>
          cases hFinish : attempt.finishes written with
          | false =>
            refine ⟨.err, [], by simp, Or.inl rfl, ?_, by simp [hFinish]⟩
            rintro ⟨w, hw, -, hTrue⟩
            cases hw
            rw [hFinish] at hTrue
            cases hTrue
          | true =>
            refine ⟨.err, written, by simp, ?_, ?_, by simp [hFinish]⟩
            · by_cases hNil : written = []
              · exact Or.inl hNil
              · exact Or.inr (Or.inr ⟨written, rfl, hNil, hFinish⟩)
            · rintro ⟨w, hw, hNonempty, -⟩
              cases hw
              exact ⟨rfl, hNonempty⟩
        | panicked => exact ⟨.panicked, [], by simp, Or.inl rfl, by simp, by simp⟩

theorem allOrNothing_iff : AllOrNothing codec attempt columns data ↔
    ¬ CommitsPart codec attempt columns data := by
  obtain ⟨outcome, added, hOk, hCases, hPart, hInsert⟩ := @insertBulk_adds V T codec attempt columns data
  simp only [AllOrNothing, hInsert]
  constructor
  · intro h hCommits
    obtain ⟨rfl, hAdded⟩ := hPart hCommits
    exact hAdded (List.append_right_eq_self.mp (h [] (by decide)))
  · intro hWhole table hNotOk
    rcases hCases with rfl | hSome | hCommits
    · exact List.append_nil table
    · exact absurd hSome hNotOk
    · exact absurd hCommits hWhole

/-! ### Retries -/

/-- The attempts that are made. -/
def tried (codec : Codec V T) (columns : List String) (data : List (List V)) :
    List (Attempt V) → List (Attempt V)
  | [] => []
  | attempt :: rest =>
    attempt :: if (insertBulk codec attempt columns data []).outcome = .err then
      tried codec columns data rest else []

/-- The table has the batch once if the callback succeeds, and is as before if it does not. -/
def EveryRowOnce (codec : Codec V T) (columns : List String) (data : List (List V))
    (attempts : List (Attempt V)) : Prop :=
  ∀ table, (triggerEvent codec columns data attempts table).rows =
    if (triggerEvent codec columns data attempts table).outcome = .ok then table ++ data else table

/-- What the attempts add, however many rows each of them leaves. -/
theorem triggerEvent_adds (attempts : List (Attempt V)) :
    ∃ outcome added, ((∀ a ∈ tried codec columns data attempts, ¬ CommitsPart codec a columns data) →
        added = if outcome = .ok then data else []) ∧
      ((∃ a ∈ tried codec columns data attempts, CommitsPart codec a columns data) →
        (if outcome = .ok then data else ([] : List (List V))).length < added.length) ∧
      (if outcome = .ok then data else ([] : List (List V))).length ≤ added.length ∧
      ∀ table, triggerEvent codec columns data attempts table = ⟨outcome, table ++ added⟩ := by
  induction attempts with
  | nil =>
    refine ⟨.err, [], fun _ => rfl, ?_, Nat.le_refl _, fun table => ?_⟩
    · rintro ⟨a, ha, -⟩
      cases ha
    · rw [List.append_nil]
      rfl
  | cons attempt rest ih =>
    obtain ⟨outcome, added, hOk, hCases, hPart, hInsert⟩ :=
      @insertBulk_adds V T codec attempt columns data
    by_cases hErr : outcome = .err
    · subst hErr
      obtain ⟨final, more, hWhole, hMore, hLeast, hTrigger⟩ := ih
      have hTried : tried codec columns data (attempt :: rest) =
          attempt :: tried codec columns data rest := by
        rw [tried, hInsert, if_pos rfl]
      refine ⟨final, added ++ more, fun h => ?_, ?_, ?_, fun table => ?_⟩
      · rw [hTried] at h
        have hNone := h attempt List.mem_cons_self
        have hNil : added = [] := by
          rcases hCases with hNil | hSome | hCommits
          · exact hNil
          · cases hSome
          · exact absurd hCommits hNone
        rw [hNil, List.nil_append]
        exact hWhole fun a ha => h a (List.mem_cons_of_mem _ ha)
      · rintro ⟨a, ha, hCommits⟩
        rw [hTried] at ha
        rw [List.length_append]
        rcases List.mem_cons.mp ha with rfl | ha
        · have hPos := List.length_pos_iff.mpr (hPart hCommits).2
          omega
        · have := hMore ⟨a, ha, hCommits⟩
          omega
      · rw [List.length_append]
        omega
      · rw [triggerEvent, hInsert]
        simp only
        rw [hTrigger, List.append_assoc]
    · have hTried : tried codec columns data (attempt :: rest) = [attempt] := by
        rw [tried, hInsert, if_neg hErr]
      have hNone : ¬ CommitsPart codec attempt columns data := fun h => hErr (hPart h).1
      have hAdded : added = if outcome = .ok then data else [] := by
        split
        · next h => exact hOk h
        · next h =>
          rcases hCases with hNil | hSome | hCommits
          · exact hNil
          · exact absurd hSome h
          · exact absurd hCommits hNone
      refine ⟨outcome, added, fun _ => hAdded, ?_, ?_, fun table => ?_⟩
      · rintro ⟨a, ha, hCommits⟩
        rw [hTried] at ha
        exact absurd (List.mem_singleton.mp ha ▸ hCommits) hNone
      · exact Nat.le_of_eq (congrArg List.length hAdded.symm)
      · rw [triggerEvent, hInsert]
        cases outcome with
        | ok => rfl
        | err => exact absurd rfl hErr
        | panicked => rfl

theorem everyRowOnce_iff {attempts : List (Attempt V)} : EveryRowOnce codec columns data attempts ↔
    ∀ a ∈ tried codec columns data attempts, ¬ CommitsPart codec a columns data := by
  obtain ⟨outcome, added, hWhole, hMore, -, hTrigger⟩ :=
    @triggerEvent_adds V T codec columns data attempts
  simp only [EveryRowOnce, hTrigger]
  constructor
  · intro h a ha hCommits
    have hLess := hMore ⟨a, ha, hCommits⟩
    have hRows := h []
    simp only [List.nil_append] at hRows
    rw [hRows] at hLess
    exact absurd hLess (Nat.lt_irrefl _)
  · intro h table
    rw [hWhole h]
    split
    · rfl
    · exact List.append_nil table

end Insertion

/-- Numbers below 100 can be encoded. -/
def smallNumbers : Codec Nat Unit where
  toType _ := ()
  encodes _ n := n < 100

/-- Everything that is encoded gets through. -/
def healthy : Attempt Nat where
  connects := true
  sends _ := true
  executes _ := true
  finishes _ := true

end Rindexer.Database.BulkInsert
