import Rindexer.Reorg.Journal

/-! When the key that a row is journaled under is the one that a rollback looks for: on the columns whose
text needs no quotes. -/

namespace Rindexer.Reorg.Journal

open Rindexer.Lib Rindexer.Database Rindexer.Manifest

/-! ### Literals -/

theorem replaceQuotes_append (replacement a b : List Char) :
    replaceQuotes replacement (a ++ b) = replaceQuotes replacement a ++ replaceQuotes replacement b :=
  List.flatMap_append

theorem replaceQuotes_quote (replacement rest : List Char) :
    replaceQuotes replacement ('\'' :: rest) = replacement ++ replaceQuotes replacement rest := by
  rw [replaceQuotes, List.flatMap_cons, if_pos rfl]
  rfl

theorem replaceQuotes_cons {c : Char} (h : c ≠ '\'') (replacement rest : List Char) :
    replaceQuotes replacement (c :: rest) = c :: replaceQuotes replacement rest := by
  rw [replaceQuotes, List.flatMap_cons, if_neg h]
  rfl

section Read

variable (server : Server)

/-- Up to its first backslash a text is read as it was before its quotes were escaped. -/
theorem read_replaceQuotes_append {a : List Char} (h : '\\' ∉ a) (rest : List Char) :
    server.read (replaceQuotes server.escapeQuote (a ++ rest)) =
      (server.read (replaceQuotes server.escapeQuote rest)).map (a ++ ·) := by
  induction a with
  | nil =>
    exact (congrFun Option.map_id _).symm
  | cons c a ih =>
    have hHead : c ≠ '\\' := fun hSame => h (hSame ▸ List.mem_cons_self)
    have hTail : '\\' ∉ a := fun hMem => h (List.mem_cons_of_mem c hMem)
    rw [List.cons_append]
    by_cases hQuote : c = '\''
    · subst hQuote
      rw [replaceQuotes_quote, server.read_quote, ih hTail, Option.map_map]
      rfl
    · rw [replaceQuotes_cons hQuote, server.read_cons c _ hQuote hHead, ih hTail,
        Option.map_map]
      rfl

theorem read_replaceQuotes {a : List Char} (h : '\\' ∉ a) :
    server.read (replaceQuotes server.escapeQuote a) = some a := by
  have hRead := read_replaceQuotes_append server h []
  rw [List.append_nil] at hRead
  rw [hRead, replaceQuotes, List.flatMap_nil, server.read_nil]
  exact congrArg some (List.append_nil a)

end Read

/-! ### Texts of values -/

/-- The end of a text in a key: nothing, or a comma and the next column. -/
def Ends (text : List Char) : Prop := text = [] ∨ ∃ rest, text = ',' :: rest

/-- The text of a value that is written without quotes. -/
def Bare (text : List Char) : Prop := ∀ c ∈ text, c ≠ ',' ∧ c ≠ '\'' ∧ c ≠ '\\'

theorem bare_toString_int (n : Int) : Bare (toString n).toList := by
  intro c hc
  rcases digit_or_minus_of_mem_toString hc with hDigit | rfl
  · refine ⟨?_, ?_, ?_⟩
    · rintro rfl
      exact absurd hDigit (by decide)
    · rintro rfl
      exact absurd hDigit (by decide)
    · rintro rfl
      exact absurd hDigit (by decide)
  · decide

theorem bare_toString_bool (b : Bool) : Bare (toString b).toList := by
  unfold Bare
  cases b with
  | false => decide
  | true => decide

theorem bare_append_inj {a b s t : List Char} (ha : Bare a) (hb : Bare b) (hs : Ends s) (ht : Ends t)
    (h : a ++ s = b ++ t) : a = b ∧ s = t := by
  have hFree : ∀ {text : List Char}, Bare text → ',' ∉ text := fun hBare hMem => (hBare _ hMem).1 rfl
  rcases hs with rfl | ⟨s, rfl⟩
  · rcases ht with rfl | ⟨t, rfl⟩
    · exact ⟨by simpa using h, rfl⟩
    · rw [List.append_nil] at h
      refine absurd ?_ (hFree ha)
      rw [h]
      exact List.mem_append_right b List.mem_cons_self
  · rcases ht with rfl | ⟨t, rfl⟩
    · rw [List.append_nil] at h
      refine absurd ?_ (hFree hb)
      rw [← h]
      exact List.mem_append_right a List.mem_cons_self
    · obtain ⟨rfl, rfl⟩ := append_separator_inj (hFree ha) (hFree hb) h
      exact ⟨rfl, rfl⟩

/-- A value that a column holds, and prints, as the code formats it. -/
def Plain (server : Server) : EthereumSqlTypeWrapper → Prop
  | .bool _ => True
  | .integer kind n => server.column kind n = n
  | _ => False

/-- The start of a quoted text that no text of its column starts with. -/
def Blocks (server : Server) (value : EthereumSqlTypeWrapper) : Prop :=
  ∃ start rest, formatWrapperForSql value = start ++ rest ∧ '\\' ∉ start ∧
    ∀ text, SqlValue.toText (server.store value) = some text →
      ∀ more tail, Ends tail → start ++ more ≠ text.toList ++ tail

theorem blocks_of_head {server : Server} {value : EthereumSqlTypeWrapper} {body : List Char}
    (hFormat : formatWrapperForSql value = quoted body)
    (hText : Unquoted (server.store value)) : Blocks server value := by
  refine ⟨['\''], body ++ ['\''], hFormat, by decide, fun text hStore more tail hEnds hEq => ?_⟩
  cases hList : text.toList with
  | nil =>
    rw [hList] at hEq
    rcases hEnds with rfl | ⟨rest, rfl⟩
    · exact nomatch hEq
    · exact absurd (List.cons.inj hEq).1 (by decide)
  | cons c cs =>
    have hHead := hText text hStore
    rw [hList] at hEq hHead
    rw [← (List.cons.inj hEq).1] at hHead
    exact hHead rfl

/-- The text of a string column starts with fewer quotes than its format. -/
theorem quotes_ne {n k : Nat} {s more tail : List Char} (hLess : n < k) (hHead : s.head? ≠ some '\'')
    (hEnds : Ends tail) :
    List.replicate k '\'' ++ more ≠ (List.replicate n '\'' ++ s) ++ tail := by
  obtain ⟨m, rfl⟩ := Nat.exists_eq_add_of_lt hLess
  intro h
  have hSplit : List.replicate (n + m + 1) '\'' =
      List.replicate n '\'' ++ '\'' :: List.replicate m '\'' := by
    rw [Nat.add_assoc, List.replicate_add, List.replicate_succ]
  rw [hSplit, List.append_assoc, List.append_assoc, List.append_cancel_left_eq] at h
  cases s with
  | nil =>
    rcases hEnds with rfl | ⟨rest, rfl⟩
    · exact nomatch h
    · exact absurd (List.cons.inj h).1 (by decide)
  | cons c cs =>
    rw [List.head?_cons, ← (List.cons.inj h).1] at hHead
    exact hHead rfl

theorem replaceQuotes_replicate (n : Nat) (rest : List Char) :
    replaceQuotes ['\'', '\''] (List.replicate n '\'' ++ rest) =
      List.replicate (2 * n) '\'' ++ replaceQuotes ['\'', '\''] rest := by
  induction n with
  | zero => rfl
  | succ n ih =>
    rw [List.replicate_succ, List.cons_append, replaceQuotes_quote, ih]
    rfl

theorem exists_quotes (s : List Char) :
    ∃ n rest, s = List.replicate n '\'' ++ rest ∧ rest.head? ≠ some '\'' := by
  induction s with
  | nil => exact ⟨0, [], rfl, by decide⟩
  | cons c s ih =>
    by_cases hQuote : c = '\''
    · obtain ⟨n, rest, rfl, hHead⟩ := ih
      exact ⟨n + 1, rest, by rw [hQuote]; rfl, hHead⟩
    · exact ⟨0, c :: s, rfl, by simpa using hQuote⟩

theorem blocks_string (server : Server) (s : String) : Blocks server (.string s) := by
  obtain ⟨n, rest, hList, hHead⟩ := exists_quotes s.toList
  refine ⟨List.replicate (2 * n + 1) '\'', replaceQuotes ['\'', '\''] rest ++ ['\''], ?_, ?_, ?_⟩
  · rw [formatWrapperForSql, hList, replaceQuotes_replicate, quoted, List.replicate_succ,
      List.append_assoc]
    rfl
  · intro hMem
    exact absurd (List.eq_of_mem_replicate hMem) (by decide)
  · intro text hStore more tail hEnds
    rw [server.store_string, SqlValue.toText] at hStore
    obtain rfl := Option.some.inj hStore
    rw [hList]
    exact quotes_ne (by omega) hHead hEnds

/-- A value is written without quotes, and its column prints a text without them, or its quotes are in
the way of the text of its column. -/
theorem bare_or_blocks (server : Server) (value : EthereumSqlTypeWrapper) :
    (Bare (formatWrapperForSql value) ∧ ∃ text,
        SqlValue.toText (server.store value) = some text ∧ Bare text.toList ∧
          (text.toList = formatWrapperForSql value ↔ Plain server value)) ∨
      ¬ Plain server value ∧ Blocks server value := by
  cases value with
  | string s => exact Or.inr ⟨not_false, blocks_string server s⟩
  | address bytes => exact Or.inr ⟨not_false, blocks_of_head rfl (server.store_address bytes)⟩
  | bytes bytes => exact Or.inr ⟨not_false, blocks_of_head rfl (server.store_bytes bytes)⟩
  | other debug => exact Or.inr ⟨not_false, blocks_of_head rfl (server.store_other debug)⟩
  | bool b =>
    refine Or.inl ⟨bare_toString_bool b, toString b, ?_, bare_toString_bool b, iff_of_true rfl trivial⟩
    rw [server.store_bool, SqlValue.toText]
  | integer kind n =>
    refine Or.inl ⟨bare_toString_int n, toString (server.column kind n), ?_, bare_toString_int _,
      ⟨toString_int_inj, fun h => ?_⟩⟩
    · rw [server.store_integer, SqlValue.toText]
    · have hSame : server.column kind n = n := h
      rw [hSame, formatWrapperForSql]

/-! ### The columns of a key -/

/-- Where each column of the key has a value whose text needs no quotes, is kept as it is and is given by
an event field, under a name that stands for itself. -/
structure Readable (server : Server) (first : TableOperation) (p : WrittenRow) : Prop where
  keyed : p.operation.whereClause ≠ []
  fields : ∀ entry ∈ first.whereClause, (Indexer.Protection.stripDollar entry.2).isSome = true
  values : ∀ c ∈ p.operation.whereColumns, server.fold c = c ∧ ∀ v ∈ p.row.get c, Plain server v

/-- A table whose column names are identifiers that do not differ in their case alone. -/
def Tidy (server : Server) (columns : List String) : Prop :=
  ∀ c ∈ columns, validateSqlIdentifier c = true ∧ (server.fold c ∈ columns → server.fold c = c)

theorem mem_sortedWhere {op : TableOperation} {c : String} :
    c ∈ Table.sortedWhere op ↔ c ∈ op.whereColumns := (sortByKey_perm id _).mem_iff

theorem sortedWhere_eq_nil_iff {op : TableOperation} :
    Table.sortedWhere op = [] ↔ op.whereClause = [] := by
  rw [← List.length_eq_zero_iff, Table.sortedWhere, (sortByKey_perm id _).length_eq,
    TableOperation.whereColumns, List.length_map, List.length_eq_zero_iff]

theorem not_mem_identifier {name : String} (h : validateSqlIdentifier name = true) {c : Char}
    (hAlphanum : c.isAlphanum = false) (hUnderscore : c ≠ '_') : c ∉ name.toList := by
  intro hMem
  rw [validateSqlIdentifier] at h
  split at h
  · exact nomatch h
  case h_2 first rest hList =>
    rw [hList] at hMem
    have hChar := List.all_eq_true.mp (Bool.and_eq_true_iff.mp h).2 c hMem
    rw [hAlphanum, Bool.false_or, beq_iff_eq] at hChar
    exact hUnderscore hChar

/-- The value of a column of the key. -/
def valueOf (row : TableRowData) (c : String) : EthereumSqlTypeWrapper := (row.get c).getD (.other "")

section Clauses

variable {server : Server} {t : Table} {columns : List String} {jc : DerivedColumnJournal}
  {p : WrittenRow} {first : TableOperation} {derivedTable : String}

theorem Written.key (h : Written server t columns jc p) {c : String}
    (hc : c ∈ p.operation.whereColumns) : p.row.get c = some (valueOf p.row c) ∧
      p.stored.fields c = server.store (valueOf p.row c) := by
  obtain ⟨-, v, hGet, hStored⟩ := h.keys c hc
  rw [valueOf, hGet]
  exact ⟨rfl, hStored⟩

theorem whereClauses_eq (h : Written server t columns jc p) : whereClauses p.operation p.row =
    (Table.sortedWhere p.operation).map fun c =>
      whereClause c (formatWrapperForSql (valueOf p.row c)) := by
  rw [whereClauses, ← List.filterMap_eq_map]
  refine List.filterMap_congr fun c hc => ?_
  rw [(h.key (mem_sortedWhere.mp hc)).1]
  rfl

theorem whereClauses_eq_nil_iff (h : Written server t columns jc p) :
    whereClauses p.operation p.row = [] ↔ p.operation.whereClause = [] := by
  rw [whereClauses_eq h, List.map_eq_nil_iff, sortedWhere_eq_nil_iff]

theorem collect_of_nil {row : TableRowData} {op : TableOperation} {quote : List Char}
    (h : whereClauses op row = []) : collectJournalValues derivedTable op [row] quote = [] := by
  rw [collectJournalValues]
  split
  · rfl
  · rw [List.flatMap_singleton]
    split
    · rfl
    · rw [if_pos h]

/-- A row is journaled under the columns of its `where` clause. -/
theorem mem_storedKeys {row : TableRowData} {op : TableOperation} {column : String}
    {k : Option (List Char)} (h : k ∈ storedKeys server derivedTable op column row) :
    k = server.read (replaceQuotes server.escapeQuote (joinWith ',' (whereClauses op row))) := by
  obtain ⟨values, hMem, rfl⟩ := List.mem_map.mp h
  obtain ⟨hValues, -⟩ := List.mem_filter.mp hMem
  rw [collectJournalValues] at hValues
  split at hValues
  · exact absurd hValues List.not_mem_nil
  · rw [List.flatMap_singleton] at hValues
    split at hValues
    · exact absurd hValues List.not_mem_nil
    · split at hValues
      · exact absurd hValues List.not_mem_nil
      · obtain ⟨sc, -, hSome⟩ := List.mem_filterMap.mp hValues
        obtain ⟨v, -, rfl⟩ := Option.map_eq_some_iff.mp hSome
        rfl

theorem storedKeys_eq_nil_iff (h : Written server t columns jc p) :
    storedKeys server derivedTable p.operation jc.derivedColumn p.row = [] ↔
      p.operation.whereClause = [] := by
  rw [← whereClauses_eq_nil_iff h]
  refine ⟨fun hNone => ?_, fun hNone => ?_⟩
  · by_contra hClauses
    obtain ⟨⟨block, tx, log⟩, hMetadata⟩ := Option.isSome_iff_exists.mp h.metadata
    obtain ⟨sc, hSc, hColumn⟩ := h.sets
    obtain ⟨v, hValue⟩ := Option.isSome_iff_exists.mp h.value
    have hNonReversible : ¬ (nonReversible p.operation = [] ∨ [p.row] = []) := by
      rintro (hEmpty | hEmpty)
      · rw [hEmpty] at hSc
        exact absurd hSc List.not_mem_nil
      · exact absurd hEmpty (List.cons_ne_nil _ _)
    rw [storedKeys, List.map_eq_nil_iff, List.filter_eq_nil_iff] at hNone
    refine hNone ⟨derivedTable, p.row.network, replaceQuotes server.escapeQuote
      (joinWith ',' (whereClauses p.operation p.row)), sc.column, formatWrapperForSql v, block, tx,
      log⟩ ?_ (by simpa using hColumn)
    rw [collectJournalValues, if_neg hNonReversible, List.flatMap_singleton, hMetadata]
    simp only
    rw [if_neg hClauses]
    refine List.mem_filterMap.mpr ⟨sc, hSc, ?_⟩
    rw [hColumn, hValue]
    rfl
  · rw [storedKeys, collect_of_nil hNone]
    rfl

/-- The columns of the registered key are those of the operation when the fields of the event give them
all. -/
theorem registered_eq_iff {naming : Indexer.Protection.Naming}
    (hRegistered : Registered naming t first jc) (hOp : p.operation ∈ t.allOperations)
    (hKeyed : p.operation.whereClause ≠ []) : jc.whereColumns = Table.sortedWhere p.operation ↔
      ∀ entry ∈ first.whereClause, (Indexer.Protection.stripDollar entry.2).isSome = true := by
  obtain ⟨hFirst, hFirstType⟩ := hRegistered.operation
  have hGlobal : t.global = false := by
    by_contra hGlobal
    exact hKeyed (Table.global_of_validateWhereColumns hRegistered.accepted
      (Bool.not_eq_false _ ▸ hGlobal) p.operation hOp).1
  obtain ⟨hInsert, hOthers⟩ := Table.where_of_validateWhereColumns hRegistered.accepted hGlobal
  have hType : p.operation.operationType ≠ .insert := fun hType => hKeyed (hInsert _ hOp hType)
  have hPerm : first.whereColumns.Perm p.operation.whereColumns :=
    (hOthers first hFirst hFirstType).2 p.operation hOp hType
  obtain ⟨sc, -, rfl⟩ := List.mem_map.mp hRegistered.journaled
  let given := fun entry : String × String =>
    (Indexer.Protection.stripDollar entry.2).map fun field => (entry.1, naming.camelToSnake field)
  let sorted := (first.whereClause.filterMap given).insertionSort fun a b => a.1 ≤ b.1
  show sorted.map Prod.fst = Table.sortedWhere p.operation ↔ _
  have hSome : ∀ entry, (given entry).isSome = (Indexer.Protection.stripDollar entry.2).isSome :=
    fun entry => Option.isSome_map
  constructor
  · intro hEq
    have hLength : (first.whereClause.filterMap given).length = first.whereClause.length := by
      calc (first.whereClause.filterMap given).length
          = sorted.length := (List.perm_insertionSort _ _).length_eq.symm
        _ = (Table.sortedWhere p.operation).length := by rw [← hEq, List.length_map]
        _ = p.operation.whereColumns.length := (sortByKey_perm id _).length_eq
        _ = first.whereClause.length := by
          rw [← hPerm.length_eq, TableOperation.whereColumns, List.length_map]
    intro entry hEntry
    rw [← hSome]
    exact List.filterMap_length_eq_length.mp hLength entry hEntry
  · intro hFields
    have hNames : (first.whereClause.filterMap given).map Prod.fst = first.whereColumns := by
      rw [List.map_filterMap, TableOperation.whereColumns, ← List.filterMap_eq_map]
      refine List.filterMap_congr fun entry hEntry => ?_
      obtain ⟨field, hField⟩ := Option.isSome_iff_exists.mp (hFields entry hEntry)
      simp only [given, hField]
      rfl
    have : Std.Total fun a b : String × String => a.1 ≤ b.1 := ⟨fun a b => le_total _ _⟩
    have : IsTrans (String × String) fun a b => a.1 ≤ b.1 := ⟨fun a b c => le_trans⟩
    have : Std.Total fun a b : String => id a ≤ id b := ⟨fun a b => le_total _ _⟩
    have : IsTrans String fun a b => id a ≤ id b := ⟨fun a b c => le_trans⟩
    have hSame : (sorted.map Prod.fst).Perm (Table.sortedWhere p.operation) := by
      calc (sorted.map Prod.fst).Perm ((first.whereClause.filterMap given).map Prod.fst) :=
            (List.perm_insertionSort _ _).map _
        _ = first.whereColumns := hNames
        List.Perm _ p.operation.whereColumns := hPerm
        List.Perm _ (Table.sortedWhere p.operation) := (sortByKey_perm id _).symm
    refine List.Perm.eq_of_pairwise (fun a b _ _ hab hba => le_antisymm hab hba) ?_ ?_ hSame
    · exact List.pairwise_map.mpr (List.pairwise_insertionSort _ _)
    · exact List.pairwise_insertionSort _ _

end Clauses

/-! ### Keys -/

/-- What a rollback makes of a column of a stored row. -/
def rebuiltClause (server : Server) (row : DerivedRow) (c : String) : Option (List Char) :=
  (SqlValue.toText (row.fields (server.fold c))).map fun text => whereClause c text.toList

section Keys

variable {server : Server} {row : DerivedRow} {value : String → EthereumSqlTypeWrapper}

/-- A key from its first column on: the column, its text, and what follows. -/
theorem joinWith_clause (c : String) (text : List Char) (rest : List (List Char)) :
    ∃ tail, joinWith ',' (whereClause c text :: rest) = c.toList ++ '=' :: (text ++ tail) ∧
      ((rest = [] ∧ tail = []) ∨ (rest ≠ [] ∧ tail = ',' :: joinWith ',' rest)) := by
  by_cases hRest : rest = []
  · subst hRest
    refine ⟨[], ?_, Or.inl ⟨rfl, rfl⟩⟩
    rw [joinWith_singleton, whereClause, List.append_nil]
  · refine ⟨',' :: joinWith ',' rest, ?_, Or.inr ⟨hRest, rfl⟩⟩
    rw [joinWith_cons _ _ hRest, whereClause, List.append_assoc, List.cons_append]

theorem ends_of_tail {rest : List (List Char)} {tail : List Char}
    (h : (rest = [] ∧ tail = []) ∨ (rest ≠ [] ∧ tail = ',' :: joinWith ',' rest)) : Ends tail := by
  rcases h with ⟨-, rfl⟩ | ⟨-, rfl⟩
  · exact Or.inl rfl
  · exact Or.inr ⟨_, rfl⟩

theorem identifier_free {c : String} (h : validateSqlIdentifier c = true) :
    '=' ∉ c.toList ∧ '\\' ∉ c.toList ∧ '\'' ∉ c.toList ∧ ',' ∉ c.toList := by
  refine ⟨?_, ?_, ?_, ?_⟩
  · exact not_mem_identifier h (by decide) (by decide)
  · exact not_mem_identifier h (by decide) (by decide)
  · exact not_mem_identifier h (by decide) (by decide)
  · exact not_mem_identifier h (by decide) (by decide)

theorem mapM_eq_some_iff {α β : Type} {f : α → Option β} {l : List α} {l' : List β} :
    l.mapM f = some l' ↔ l.map f = l'.map some := by
  induction l generalizing l' with
  | nil =>
    rw [List.mapM_nil, List.map_nil]
    refine ⟨fun h => ?_, fun h => ?_⟩
    · rw [← Option.some.inj h, List.map_nil]
    · rw [List.map_eq_nil_iff.mp h.symm]
      rfl
  | cons a l ih =>
    rw [List.mapM_cons]
    constructor
    · intro h
      obtain ⟨b, hHead, hRest⟩ := Option.bind_eq_some_iff.mp h
      obtain ⟨bs, hTail, hCons⟩ := Option.bind_eq_some_iff.mp hRest
      rw [← Option.some.inj hCons, List.map_cons, List.map_cons, hHead, ih.mp hTail]
    · intro h
      obtain ⟨b, bs, rfl, hHead, hTail⟩ := List.map_eq_cons_iff.mp h.symm
      rw [← hHead, ih.mpr hTail.symm]
      rfl

/-- A journaled key that is read as a rebuilt one has the same columns, each with a plain value. -/
theorem columns_eq_of_read {writer reader : List String} {clauses : List (List Char)}
    (hWriter : ∀ c ∈ writer, validateSqlIdentifier c = true ∧
      (c ∈ reader → row.fields (server.fold c) = server.store (value c)))
    (hReader : ∀ c ∈ reader, validateSqlIdentifier c = true) (hNonempty : writer ≠ [])
    (hNonempty' : reader ≠ []) (hClauses : reader.map (rebuiltClause server row) = clauses.map some)
    (hRead : server.read (replaceQuotes server.escapeQuote (joinWith ',' (writer.map fun c =>
      whereClause c (formatWrapperForSql (value c))))) = some (joinWith ',' clauses)) :
    reader = writer ∧ ∀ c ∈ writer, Plain server (value c) := by
  induction writer generalizing reader clauses with
  | nil => exact absurd rfl hNonempty
  | cons c writer ih =>
    obtain ⟨d, reader, rfl⟩ := List.exists_cons_of_ne_nil hNonempty'
    obtain ⟨clause, clauses', rfl, hClause, hRest⟩ := List.map_eq_cons_iff.mp hClauses.symm
    obtain ⟨text, hText, rfl⟩ := Option.map_eq_some_iff.mp hClause.symm
    obtain ⟨hName, hStored⟩ := hWriter c List.mem_cons_self
    obtain ⟨hEqual, hBackslash, -⟩ := identifier_free hName
    -- both keys start with a column and the sign
    obtain ⟨written, hWritten, hWrittenTail⟩ := joinWith_clause c (formatWrapperForSql (value c))
      (writer.map fun c => whereClause c (formatWrapperForSql (value c)))
    obtain ⟨tail, hTail, hTailCases⟩ := joinWith_clause d text.toList clauses'
    rw [List.map_cons, hWritten, hTail] at hRead
    have hStart : '\\' ∉ c.toList ++ ['='] := by
      rw [List.mem_append, List.mem_singleton]
      rintro (hMem | hMem)
      · exact hBackslash hMem
      · exact absurd hMem (by decide)
    have hSplit : c.toList ++ '=' :: (formatWrapperForSql (value c) ++ written) =
        (c.toList ++ ['=']) ++ (formatWrapperForSql (value c) ++ written) := by
      rw [List.append_assoc]
      rfl
    rw [hSplit, read_replaceQuotes_append server hStart] at hRead
    obtain ⟨read, hReadRest, hEq⟩ := Option.map_eq_some_iff.mp hRead
    rw [List.append_assoc, List.singleton_append] at hEq
    obtain ⟨hSame, hTexts⟩ := append_separator_inj hEqual
      (identifier_free (hReader d List.mem_cons_self)).1 hEq
    obtain rfl : c = d := String.toList_inj.mp hSame
    rw [hStored List.mem_cons_self] at hText
    rcases bare_or_blocks server (value c) with ⟨hBare, text', hText', hBareText, hPlain⟩ |
        ⟨-, start, rest, hFormat, hFree, hBlocks⟩
    · obtain rfl : text' = text := Option.some.inj (hText'.symm.trans hText)
      have hBackslash' : '\\' ∉ formatWrapperForSql (value c) := fun hMem => (hBare _ hMem).2.2 rfl
      rw [read_replaceQuotes_append server hBackslash'] at hReadRest
      obtain ⟨read', hReadTail, rfl⟩ := Option.map_eq_some_iff.mp hReadRest
      -- what follows is read as what follows
      rcases hWrittenTail with ⟨hEnd, rfl⟩ | ⟨hMore, rfl⟩
      · rw [replaceQuotes, List.flatMap_nil, server.read_nil] at hReadTail
        obtain rfl := Option.some.inj hReadTail
        obtain ⟨hFormat, rfl⟩ := bare_append_inj hBare hBareText (Or.inl rfl)
          (ends_of_tail hTailCases) hTexts
        have hNil : clauses' = [] := by
          rcases hTailCases with ⟨hNil, -⟩ | ⟨-, hCons⟩
          · exact hNil
          · exact nomatch hCons
        rw [hNil] at hRest
        rw [List.map_eq_nil_iff.mp hEnd, List.map_eq_nil_iff.mp hRest.symm]
        refine ⟨rfl, fun c' hc' => ?_⟩
        rw [List.mem_singleton.mp hc']
        exact hPlain.mp hFormat.symm
      · have hComma : server.read (replaceQuotes server.escapeQuote ([','] ++ joinWith ','
            (writer.map fun c => whereClause c (formatWrapperForSql (value c))))) = some read' :=
          hReadTail
        rw [read_replaceQuotes_append server (by decide)] at hComma
        obtain ⟨key, hKey, rfl⟩ := Option.map_eq_some_iff.mp hComma
        obtain ⟨hFormat, hTails⟩ := bare_append_inj hBare hBareText (Or.inr ⟨key, rfl⟩)
          (ends_of_tail hTailCases) hTexts
        rcases hTailCases with ⟨-, rfl⟩ | ⟨hClauses', rfl⟩
        · exact nomatch hTails
        · rw [(List.cons.inj hTails).2] at hKey
          obtain ⟨hReaderEq, hAll⟩ := ih (fun c' hc' => ⟨(hWriter c' (List.mem_cons_of_mem _ hc')).1,
              fun hMem => (hWriter c' (List.mem_cons_of_mem _ hc')).2 (List.mem_cons_of_mem _ hMem)⟩)
            (fun c' hc' => hReader c' (List.mem_cons_of_mem _ hc')) (by simpa using hMore)
            (fun hNil => hClauses' (by simpa [hNil] using hRest)) hRest.symm hKey
          refine ⟨by rw [hReaderEq], fun c' hc' => ?_⟩
          rcases List.mem_cons.mp hc' with rfl | hc'
          · exact hPlain.mp hFormat.symm
          · exact hAll c' hc'
    · rw [hFormat, List.append_assoc, read_replaceQuotes_append server hFree] at hReadRest
      obtain ⟨more, -, rfl⟩ := Option.map_eq_some_iff.mp hReadRest
      exact absurd hTexts (hBlocks text hText more tail (ends_of_tail hTailCases))

/-- Columns with plain values are journaled under the key that is rebuilt from them. -/
theorem read_of_plain {writer : List String}
    (hWriter : ∀ c ∈ writer, validateSqlIdentifier c = true ∧
      row.fields (server.fold c) = server.store (value c) ∧ Plain server (value c)) :
    let clauses := writer.map fun c => whereClause c (formatWrapperForSql (value c))
    writer.map (rebuiltClause server row) = clauses.map some ∧ (∀ clause ∈ clauses, ',' ∉ clause) ∧
      server.read (replaceQuotes server.escapeQuote (joinWith ',' clauses)) =
        some (joinWith ',' clauses) := by
  let clause := fun c : String => whereClause c (formatWrapperForSql (value c))
  have hBare : ∀ c ∈ writer, Bare (formatWrapperForSql (value c)) ∧
      rebuiltClause server row c = some (clause c) := by
    intro c hc
    obtain ⟨-, hStored, hPlain⟩ := hWriter c hc
    rcases bare_or_blocks server (value c) with ⟨hBare, text, hText, -, hSame⟩ | ⟨hNot, -⟩
    · refine ⟨hBare, ?_⟩
      rw [rebuiltClause, hStored, hText, Option.map_some, hSame.mpr hPlain]
    · exact absurd hPlain hNot
  refine ⟨?_, fun part hPart hMem => ?_, read_replaceQuotes server fun hMem => ?_⟩
  · rw [List.map_map]
    exact List.map_congr_left fun c hc => (hBare c hc).2
  · obtain ⟨c, hc, rfl⟩ := List.mem_map.mp hPart
    rcases List.mem_append.mp hMem with hMem | hMem
    · exact (identifier_free (hWriter c hc).1).2.2.2 hMem
    · rcases List.mem_cons.mp hMem with hSame | hMem
      · exact absurd hSame (by decide)
      · exact ((hBare c hc).1 _ hMem).1 rfl
  · rcases mem_joinWith hMem with hSame | ⟨part, hPart, hMem⟩
    · exact absurd hSame (by decide)
    · obtain ⟨c, hc, rfl⟩ := List.mem_map.mp hPart
      rcases List.mem_append.mp hMem with hMem | hMem
      · exact (identifier_free (hWriter c hc).1).2.1 hMem
      · rcases List.mem_cons.mp hMem with hSame | hMem
        · exact absurd hSame (by decide)
        · exact ((hBare c hc).1 _ hMem).2.2 rfl

end Keys

/-- Plain values that are written alike are stored alike. -/
theorem store_eq_of_format_eq {server : Server} {v v' : EthereumSqlTypeWrapper} (h : Plain server v)
    (h' : Plain server v') (hFormat : formatWrapperForSql v = formatWrapperForSql v') :
    server.store v = server.store v' := by
  have hLetter : ∀ (b : Bool) (n : Int), (toString b).toList ≠ (toString n).toList := by
    intro b n hEq
    have hMem : 'e' ∈ (toString n).toList := by
      rw [← hEq]
      cases b with
      | false => decide
      | true => decide
    rcases digit_or_minus_of_mem_toString hMem with hDigit | hMinus
    · exact absurd hDigit (by decide)
    · exact absurd hMinus (by decide)
  cases v with
  | bool b =>
    cases v' with
    | bool b' =>
      cases b with
      | false =>
        cases b' with
        | false => rfl
        | true => exact absurd hFormat (by decide)
      | true =>
        cases b' with
        | false => exact absurd hFormat (by decide)
        | true => rfl
    | integer kind n => exact absurd hFormat (hLetter b n)
    | _ => exact h'.elim
  | integer kind n =>
    cases v' with
    | bool b => exact absurd hFormat.symm (hLetter b n)
    | integer kind' n' =>
      have hColumn : server.column kind n = n := h
      have hColumn' : server.column kind' n' = n' := h'
      rw [server.store_integer, server.store_integer, hColumn, hColumn', toString_int_inj hFormat]
    | _ => exact h'.elim
  | _ => exact h.elim

section Agreement

variable {server : Server} {naming : Indexer.Protection.Naming} {t : Table} {first : TableOperation}
  {jc : DerivedColumnJournal} {columns : List String} {rows : List WrittenRow} {p : WrittenRow}

theorem rebuiltKey_eq_some_iff {row : DerivedRow} {key : List Char} (h : jc.whereColumns ≠ []) :
    rebuiltKey server columns jc row = some key ↔ (∀ c ∈ jc.whereColumns, server.fold c ∈ columns) ∧
      ∃ clauses, jc.whereColumns.map (rebuiltClause server row) = clauses.map some ∧
        key = joinWith ',' clauses := by
  have hEq : rebuiltKey server columns jc row =
      if ∀ c ∈ jc.whereColumns, server.fold c ∈ columns then
        (jc.whereColumns.mapM (rebuiltClause server row)).map (joinWith ',')
      else none := by
    rw [rebuiltKey]
    split
    case h_1 hNil => exact absurd hNil h
    case h_2 => rfl
  rw [hEq]
  by_cases hColumns : ∀ c ∈ jc.whereColumns, server.fold c ∈ columns
  · rw [if_pos hColumns, Option.map_eq_some_iff]
    refine ⟨fun ⟨clauses, hClauses, hKey⟩ => ⟨hColumns, clauses, mapM_eq_some_iff.mp hClauses, hKey.symm⟩,
      fun ⟨_, clauses, hClauses, hKey⟩ => ⟨clauses, mapM_eq_some_iff.mpr hClauses, hKey.symm⟩⟩
  · rw [if_neg hColumns]
    exact iff_of_false (nomatch ·) fun h => hColumns h.1

/-- The keys of a readable row. -/
theorem keys_of_readable (hRegistered : Registered naming t first jc)
    (hWritten : Written server t columns jc p) (h : Readable server first p) :
    let clauses := jc.whereColumns.map fun c => whereClause c (formatWrapperForSql (valueOf p.row c))
    jc.whereColumns = Table.sortedWhere p.operation ∧ (∀ clause ∈ clauses, ',' ∉ clause) ∧
      rebuiltKey server columns jc p.stored = some (joinWith ',' clauses) ∧
      server.read (replaceQuotes server.escapeQuote
        (joinWith ',' (whereClauses p.operation p.row))) = some (joinWith ',' clauses) := by
  intro clauses
  have hColumns : jc.whereColumns = Table.sortedWhere p.operation :=
    (registered_eq_iff hRegistered hWritten.operation h.keyed).mpr h.fields
  have hMem : ∀ c ∈ jc.whereColumns, c ∈ p.operation.whereColumns := by
    intro c hc
    rw [hColumns] at hc
    exact mem_sortedWhere.mp hc
  have hNonempty : jc.whereColumns ≠ [] := by
    rw [hColumns]
    exact fun hNil => h.keyed (sortedWhere_eq_nil_iff.mp hNil)
  obtain ⟨hClauses, hFree, hRead⟩ := @read_of_plain server p.stored (valueOf p.row) jc.whereColumns
    fun c hc => by
      obtain ⟨hGet, hStored⟩ := hWritten.key (hMem c hc)
      obtain ⟨hFold, hPlain⟩ := h.values c (hMem c hc)
      refine ⟨hRegistered.identifiers c hc, ?_, hPlain _ hGet⟩
      rw [hFold]
      exact hStored
  refine ⟨hColumns, hFree, (rebuiltKey_eq_some_iff hNonempty).mpr ⟨fun c hc => ?_, _, hClauses, rfl⟩, ?_⟩
  · rw [(h.values c (hMem c hc)).1]
    exact (hWritten.keys c (hMem c hc)).1
  · rw [whereClauses_eq hWritten, ← hColumns]
    exact hRead

theorem keysAgree_of_readable (derivedTable : String) (hRegistered : Registered naming t first jc)
    (hWritten : ∀ p ∈ rows, Written server t columns jc p) (h : ∀ p ∈ rows, Readable server first p) :
    KeysAgree server columns derivedTable jc rows := by
  constructor
  · intro p hp
    obtain ⟨-, -, hRebuilt, hRead⟩ := keys_of_readable hRegistered (hWritten p hp) (h p hp)
    refine ⟨fun hNil => (h p hp).keyed ((storedKeys_eq_nil_iff (hWritten p hp)).mp hNil),
      fun k hk => ⟨_, ?_, hRebuilt⟩⟩
    rw [mem_storedKeys hk]
    exact hRead
  · rintro p hp p' hp' ⟨c, hc, hDifferent⟩ k hk k' hk' rfl
    obtain ⟨hColumns, hFree, -, hRead⟩ := keys_of_readable hRegistered (hWritten p hp) (h p hp)
    obtain ⟨hColumns', hFree', -, hRead'⟩ := keys_of_readable hRegistered (hWritten p' hp') (h p' hp')
    rw [← mem_storedKeys hk] at hRead
    rw [← mem_storedKeys hk'] at hRead'
    have hNonempty : jc.whereColumns ≠ [] := by
      rw [hColumns]
      exact fun hNil => (h p hp).keyed (sortedWhere_eq_nil_iff.mp hNil)
    have hClauses := joinWith_inj (by simpa using hNonempty) (by simpa using hNonempty) hFree hFree'
      (Option.some.inj (hRead.symm.trans hRead'))
    have hMem : c ∈ jc.whereColumns := by
      rw [hColumns]
      exact mem_sortedWhere.mpr hc
    have hc' : c ∈ p'.operation.whereColumns := by
      rw [hColumns'] at hMem
      exact mem_sortedWhere.mp hMem
    have hClause := List.map_inj_left.mp hClauses c hMem
    rw [whereClause, whereClause, List.append_cancel_left_eq] at hClause
    obtain ⟨hGet, hStored⟩ := (hWritten p hp).key hc
    obtain ⟨hGet', hStored'⟩ := (hWritten p' hp').key hc'
    refine hDifferent ?_
    rw [hStored, hStored']
    exact store_eq_of_format_eq (((h p hp).values c hc).2 _ hGet) (((h p' hp').values c hc').2 _ hGet')
      (List.cons.inj hClause).2

theorem equal_not_mem_network {network : String} (h : validateSqlValue network = true) :
    '=' ∉ network.toList := by
  intro hMem
  have hChar := List.all_eq_true.mp (Bool.and_eq_true_iff.mp h).2 '=' hMem
  exact absurd hChar (by decide)

theorem readable_of_keysAgree {derivedTable : String} (hRegistered : Registered naming t first jc)
    (hTidy : Tidy server columns) (hWritten : Written server t columns jc p) (hp : p ∈ rows)
    (h : KeysAgree server columns derivedTable jc rows) : Readable server first p := by
  obtain ⟨hSome, hAll⟩ := h.rebuilt p hp
  have hKeyed : p.operation.whereClause ≠ [] :=
    fun hNil => hSome ((storedKeys_eq_nil_iff hWritten).mpr hNil)
  obtain ⟨k, hk⟩ := List.exists_mem_of_ne_nil _ hSome
  obtain ⟨key, hKey, hRebuilt⟩ := hAll k hk
  rw [mem_storedKeys hk, whereClauses_eq hWritten] at hKey
  have hWriterNonempty : Table.sortedWhere p.operation ≠ [] :=
    fun hNil => hKeyed (sortedWhere_eq_nil_iff.mp hNil)
  have hIdentifier : ∀ c ∈ Table.sortedWhere p.operation, validateSqlIdentifier c = true :=
    fun c hc => (hTidy c (hWritten.keys c (mem_sortedWhere.mp hc)).1).1
  by_cases hNone : jc.whereColumns = []
  · -- the network of a row is no key
    rw [rebuiltKey, hNone] at hRebuilt
    obtain ⟨network, hNetwork, rfl⟩ := Option.map_eq_some_iff.mp hRebuilt
    obtain ⟨c, rest, hCons⟩ := List.exists_cons_of_ne_nil hWriterNonempty
    obtain ⟨tail, hJoin, -⟩ := joinWith_clause c (formatWrapperForSql (valueOf p.row c))
      (rest.map fun c => whereClause c (formatWrapperForSql (valueOf p.row c)))
    have hName := identifier_free (hIdentifier c (hCons ▸ List.mem_cons_self))
    have hSplit : c.toList ++ '=' :: (formatWrapperForSql (valueOf p.row c) ++ tail) =
        (c.toList ++ ['=']) ++ (formatWrapperForSql (valueOf p.row c) ++ tail) := by
      rw [List.append_assoc]
      rfl
    have hStart : '\\' ∉ c.toList ++ ['='] := by
      rw [List.mem_append, List.mem_singleton]
      rintro (hMem | hMem)
      · exact hName.2.1 hMem
      · exact absurd hMem (by decide)
    rw [hCons, List.map_cons, hJoin, hSplit, read_replaceQuotes_append server hStart] at hKey
    obtain ⟨more, -, hEq⟩ := Option.map_eq_some_iff.mp hKey
    refine absurd ?_ (equal_not_mem_network (hWritten.network network hNetwork))
    rw [← hEq]
    exact List.mem_append_left _ (List.mem_append_right _ (List.mem_singleton_self _))
  · obtain ⟨hColumns, clauses, hClauses, rfl⟩ := (rebuiltKey_eq_some_iff hNone).mp hRebuilt
    have hFold : ∀ c ∈ p.operation.whereColumns, c ∈ jc.whereColumns → server.fold c = c :=
      fun c hc hMem => (hTidy c (hWritten.keys c hc).1).2 (hColumns c hMem)
    obtain ⟨hSame, hPlain⟩ := @columns_eq_of_read server p.stored (valueOf p.row) _ _ _
      (fun c hc => ⟨hIdentifier c hc, fun hMem => by
        rw [hFold c (mem_sortedWhere.mp hc) hMem]
        exact (hWritten.key (mem_sortedWhere.mp hc)).2⟩)
      hRegistered.identifiers hWriterNonempty hNone hClauses hKey
    refine ⟨hKeyed, (registered_eq_iff hRegistered hWritten.operation hKeyed).mp hSame,
      fun c hc => ⟨hFold c hc ?_, fun v hv => ?_⟩⟩
    · rw [hSame]
      exact mem_sortedWhere.mpr hc
    · rw [(hWritten.key hc).1] at hv
      rw [← Option.some.inj hv]
      exact hPlain c (mem_sortedWhere.mpr hc)

/-- The keys of a journaled column agree when all rows are readable, and on a table with tidy names only
then. -/
theorem keysAgree_iff_readable (derivedTable : String) (hRegistered : Registered naming t first jc)
    (hWritten : ∀ p ∈ rows, Written server t columns jc p) :
    ((∀ p ∈ rows, Readable server first p) → KeysAgree server columns derivedTable jc rows) ∧
      (Tidy server columns → KeysAgree server columns derivedTable jc rows →
        ∀ p ∈ rows, Readable server first p) :=
  ⟨keysAgree_of_readable derivedTable hRegistered hWritten, fun hTidy h p hp =>
    readable_of_keysAgree hRegistered hTidy (hWritten p hp) hp h⟩

end Agreement

def keyedMax (key value : String) : TableOperation :=
  ⟨.upsert, [(key, value)], none, none, [⟨"weight", .max, some "$weight"⟩]⟩

def votes (op : TableOperation) : Table :=
  ⟨"votes", false, false, [], [⟨"VoteCast", [], [op]⟩], [], false⟩

def plainServer : Server := .postgres (fun _ => .null) fun _ _ h => nomatch h

def vote (key value : String) (v : EthereumSqlTypeWrapper) : WrittenRow where
  operation := keyedMax key value
  row := ⟨[(key, v), ("weight", .integer .u64BigInt 5),
    ("rindexer_block_number", .integer .u64BigInt 100)], "ethereum"⟩
  stored := ⟨some "ethereum", 100, 0, fun c => if c = key then plainServer.store v else .null⟩

def plainNaming : Indexer.Protection.Naming := ⟨id, fun schema _ => schema⟩

theorem registered_votes {key value : String}
    (hAccepted : (votes (keyedMax key value)).validateWhereColumns = .ok ())
    (hField : (Indexer.Protection.stripDollar value).isSome = true)
    (hKey : validateSqlIdentifier key = true) :
    Registered plainNaming (votes (keyedMax key value)) (keyedMax key value)
      ⟨"weight", .max, [key]⟩ where
  accepted := hAccepted
  operation := ⟨List.mem_singleton_self _, nofun⟩
  journaled := by
    obtain ⟨field, hField⟩ := Option.isSome_iff_exists.mp hField
    have hColumns : Indexer.Protection.whereColumnsOf plainNaming (keyedMax key value) =
        [(key, field)] := by
      rw [Indexer.Protection.whereColumnsOf, keyedMax, List.filterMap_cons_some (b := (key, field))]
      · rfl
      · rw [hField]
        rfl
    refine List.mem_map.mpr ⟨⟨"weight", .max, some "$weight"⟩, List.mem_singleton_self _, ?_⟩
    rw [hColumns]
    rfl
  identifiers := by
    intro c hc
    rw [List.mem_singleton.mp hc]
    exact hKey

theorem written_vote {key value : String} {v : EthereumSqlTypeWrapper}
    (hMetadata : (vote key value v).row.extractRowMetadata.isSome = true)
    (hValue : ((vote key value v).row.get "weight").isSome = true) :
    Written plainServer (votes (keyedMax key value)) [key, "weight"] ⟨"weight", .max, [key]⟩
      (vote key value v) where
  operation := List.mem_singleton_self _
  metadata := hMetadata
  sets := ⟨⟨"weight", .max, some "$weight"⟩, List.mem_singleton_self _, rfl⟩
  value := hValue
  keys := by
    intro c hc
    obtain rfl : c = key := List.mem_singleton.mp hc
    refine ⟨List.mem_cons_self, v, ?_, if_pos rfl⟩
    rw [TableRowData.get, vote, List.lookup_cons_self]
  network := by
    intro network hNetwork
    rw [← Option.some.inj hNetwork]
    decide

/-- The votes of two voters with numbers. -/
theorem keysAgree_iff_readable_votes :
    KeysAgree plainServer ["voter_id", "weight"] "shop.votes" ⟨"weight", .max, ["voter_id"]⟩
      [vote "voter_id" "$voterId" (.integer .u64BigInt 7),
        vote "voter_id" "$voterId" (.integer .u64BigInt 9)] := by
  have hRegistered : Registered plainNaming (votes (keyedMax "voter_id" "$voterId"))
      (keyedMax "voter_id" "$voterId") ⟨"weight", .max, ["voter_id"]⟩ :=
    registered_votes (by rfl) (by decide) (by decide)
  refine (keysAgree_iff_readable "shop.votes" hRegistered fun p hp => ?_).1 fun p hp => ?_
  · simp only [List.mem_cons, List.not_mem_nil, or_false] at hp
    rcases hp with rfl | rfl
    · exact written_vote (by decide) (by decide)
    · exact written_vote (by decide) (by decide)
  · have hReadable : ∀ n : Int, n.bmod (2 ^ 64) = n →
        Readable plainServer (keyedMax "voter_id" "$voterId")
          (vote "voter_id" "$voterId" (.integer .u64BigInt n)) := by
      intro n hColumn
      refine ⟨List.cons_ne_nil _ _, by decide, fun c hc => ?_⟩
      obtain rfl : c = "voter_id" := List.mem_singleton.mp hc
      refine ⟨by decide, fun v hv => ?_⟩
      rw [← Option.some.inj hv]
      exact hColumn
    simp only [List.mem_cons, List.not_mem_nil, or_false] at hp
    rcases hp with rfl | rfl
    · exact hReadable 7 (by decide)
    · exact hReadable 9 (by decide)

/-- A vote of an address is journaled under the address in quotes. -/
theorem address_key_quoted :
    let p := vote "owner" "$owner" (.address (List.replicate 20 17))
    Registered plainNaming (votes (keyedMax "owner" "$owner")) (keyedMax "owner" "$owner")
        ⟨"weight", .max, ["owner"]⟩ ∧
      Written plainServer (votes (keyedMax "owner" "$owner")) ["owner", "weight"]
        ⟨"weight", .max, ["owner"]⟩ p ∧
      ¬ KeysAgree plainServer ["owner", "weight"] "shop.votes" ⟨"weight", .max, ["owner"]⟩ [p] := by
  intro p
  refine ⟨registered_votes (by rfl) (by decide) (by decide),
    written_vote (by decide) (by decide), fun h => ?_⟩
  have hStored : storedKeys plainServer "shop.votes" p.operation "weight" p.row =
      [some ("owner='0x1111111111111111111111111111111111111111'").toList] := by
    decide
  have hRebuilt : rebuiltKey plainServer ["owner", "weight"] ⟨"weight", .max, ["owner"]⟩ p.stored =
      some ("owner=0x1111111111111111111111111111111111111111").toList := by
    decide
  obtain ⟨key, hKey, hSame⟩ := (h.rebuilt p (List.mem_singleton_self p)).2 _
    (hStored ▸ List.mem_singleton_self _)
  rw [hRebuilt, ← hKey] at hSame
  exact absurd hSame (by decide)

/-! ### The servers -/

section Servers

variable {other : String → SqlValue} (hOther : ∀ debug, Unquoted (other debug))

/-- On Postgres the plain values are the booleans and the integers that the signed type of their width
holds. -/
theorem plain_postgres_iff {value : EthereumSqlTypeWrapper} :
    Plain (.postgres other hOther) value ↔
      (∃ b, value = .bool b) ∨ ∃ kind n, value = .integer kind n ∧
        (kind = .u16 → -2 ^ 15 ≤ n ∧ n < 2 ^ 15) ∧ (kind = .u32 → -2 ^ 31 ≤ n ∧ n < 2 ^ 31) ∧
          (kind = .u64BigInt → -2 ^ 63 ≤ n ∧ n < 2 ^ 63) := by
  cases value with
  | bool b => exact iff_of_true trivial (Or.inl ⟨b, rfl⟩)
  | integer kind n =>
    have hColumn : Plain (.postgres other hOther) (.integer kind n) ↔ postgresColumn kind n = n := Iff.rfl
    rw [hColumn]
    cases kind with
    | u16 =>
      have hWrap : postgresColumn .u16 n = n ↔ -2 ^ 15 ≤ n ∧ n < 2 ^ 15 := by
        rw [postgresColumn, Int.bmod_def]
        split
        · omega
        · omega
      rw [hWrap]
      simp
    | u32 =>
      have hWrap : postgresColumn .u32 n = n ↔ -2 ^ 31 ≤ n ∧ n < 2 ^ 31 := by
        rw [postgresColumn, Int.bmod_def]
        split
        · omega
        · omega
      rw [hWrap]
      simp
    | u64BigInt =>
      have hWrap : postgresColumn .u64BigInt n = n ↔ -2 ^ 63 ≤ n ∧ n < 2 ^ 63 := by
        rw [postgresColumn, Int.bmod_def]
        split
        · omega
        · omega
      rw [hWrap]
      simp
    | _ => simp [postgresColumn]
  | _ => simp [Plain]

theorem joinWith_eq_intercalate (parts : List (List Char)) :
    joinWith ',' parts = [','].intercalate parts := by
  induction parts with
  | nil => rfl
  | cons part parts ih =>
    cases parts with
    | nil => exact List.intercalate_singleton.symm
    | cons next parts =>
      rw [List.intercalate_cons_cons, ← ih, List.append_assoc]
      rfl

/-- On Postgres the key of a table with the columns is the one that the recalculation joins on. -/
theorem rebuiltKey_postgres {columns : List String} {jc : DerivedColumnJournal} {row : DerivedRow}
    (h : ∀ c ∈ jc.whereColumns, foldCase c ∈ columns) :
    rebuiltKey (.postgres other hOther) columns jc row =
      (journalWhereKey jc.whereColumns row).map String.toList := by
  have hTexts : ∀ l : List String, (l.mapM fun c =>
      (SqlValue.toText (row.fields (foldCase c))).map fun text => whereClause c text.toList) =
        (l.mapM fun c => (SqlValue.toText (row.fields (foldCase c))).map fun v =>
          c ++ "=" ++ v).map (List.map String.toList) := by
    intro l
    induction l with
    | nil => rfl
    | cons c l ih =>
      rw [List.mapM_cons, List.mapM_cons, ih]
      cases SqlValue.toText (row.fields (foldCase c)) with
      | none => rfl
      | some text =>
        cases l.mapM fun c => (SqlValue.toText (row.fields (foldCase c))).map fun v =>
            c ++ "=" ++ v with
        | none => rfl
        | some texts =>
          have hClause : whereClause c text.toList = (c ++ "=" ++ text).toList := by
            rw [String.toList_append, String.toList_append, List.append_assoc]
            rfl
          show some (whereClause c text.toList :: texts.map String.toList) = _
          rw [hClause]
          rfl
  cases hColumns : jc.whereColumns with
  | nil => simp only [rebuiltKey, journalWhereKey, hColumns]
  | cons c l =>
    rw [hColumns] at h
    have hFold : ∀ c' ∈ c :: l, (Server.postgres other hOther).fold c' ∈ columns := h
    simp only [rebuiltKey, journalWhereKey, hColumns]
    rw [if_pos hFold]
    show ((c :: l).mapM fun c => (SqlValue.toText (row.fields (foldCase c))).map fun text =>
      whereClause c text.toList).map (joinWith ',') = _
    rw [hTexts, Option.map_map, Option.map_map]
    refine congrFun (congrArg Option.map (funext fun texts => ?_)) _
    rw [Function.comp_apply, Function.comp_apply, joinWith_eq_intercalate, String.toList_intercalate]
    rfl

end Servers

end Rindexer.Reorg.Journal
