import Rindexer.Database.SchemaSync

/-! The type of a column as its definition has it, as the information schema has it, and as the sync
expects it: for which types the three agree. -/

namespace Rindexer.Database

open Rindexer.Manifest

/-- A type that the sync writes as it was created: neither an address nor an array. -/
def Plain (columnType : ColumnType) : Prop :=
  columnType ≠ .address ∧ ∀ inner, columnType ≠ .array inner

/-- What the sync expects of a column of a type. -/
def expectedType (columnType : ColumnType) : String :=
  toInformationSchema columnType.toPostgresType.toLower

/-- Whether the sync takes the type of a column that is there for the expected one. -/
def SameType (existing : String) (columnType : ColumnType) : Prop :=
  normalizePgType (informationSchemaType existing) = normalizePgType (expectedType columnType)

/-! ### Scalar types -/

def scalarTypes : List ColumnType :=
  [.uint8, .uint16, .uint32, .uint64, .uint128, .uint256, .int8, .int16, .int32, .int64, .int128, .int256,
    .address, .bytes, .bytes32, .string, .bool, .timestamp]

theorem mem_scalarTypes {columnType : ColumnType} (h : ∀ inner, columnType ≠ .array inner) :
    columnType ∈ scalarTypes := by
  cases columnType with
  | array inner => exact absurd rfl (h inner)
  | _ => simp [scalarTypes]

/-- The texts of the scalar types, evaluated once for all of them. -/
theorem scalarTypes_texts : ∀ columnType ∈ scalarTypes,
    normalizePgType (informationSchemaType columnType.toPostgresType) =
        normalizePgType (expectedType columnType) ∧
      expectedType columnType ≠ "unknown" ∧
      (columnType ≠ .address → expectedType columnType ≠ "character" ∧
        addedType "" (expectedType columnType) = columnType.toPostgresType) := by
  with_unfolding_all decide

/-- An address is sent as characters, and added as a text that is not taken for them. -/
theorem address_texts : expectedType .address = "character" ∧ "TEXT".toUpper = "TEXT" ∧
    normalizePgType (informationSchemaType "TEXT") ≠ normalizePgType (expectedType .address) := by
  with_unfolding_all decide

/-! ### Arrays -/

/-- Whether a type is written as an array. -/
def Bracketed (type : String) : Prop := type.toList.getLast? = some ']'

theorem bracketed_map {type : String} (h : Bracketed type) {f : Char → Char} (hf : f ']' = ']') :
    Bracketed (type.map f) := by
  rw [Bracketed, String.toList_map, List.getLast?_map, h, Option.map_some, hf]

theorem bracketed_array (inner : ColumnType) :
    Bracketed (ColumnType.array inner).toPostgresType := by
  rw [ColumnType.toPostgresType]
  split
  · show "TEXT[]".toList.getLast? = some ']'
    decide
  · rw [Bracketed, String.toList_append, List.getLast?_append_of_ne_nil _ (by decide)]
    decide

theorem not_mem_of_bracketed {type : String} (h : Bracketed type) {l : List String}
    (hl : ∀ s ∈ l, s.toList.getLast? ≠ some ']') : type ∉ l := fun hMem => hl type hMem h

theorem informationSchemaType_of_bracketed {type : String} (h : Bracketed type) :
    informationSchemaType type = "ARRAY" := if_pos h

theorem normalizePgType_of_bracketed {type : String} (h : Bracketed type) :
    normalizePgType type = type.toLower := by
  have hLower : Bracketed type.toLower := bracketed_map h (by decide)
  have hNot : ∀ {l : List String}, (∀ s ∈ l, s.toList.getLast? ≠ some ']') → type.toLower ∉ l :=
    fun hl => not_mem_of_bracketed hLower hl
  simp only [normalizePgType]
  rw [if_neg (hNot (by decide)), if_neg (hNot (by decide)), if_neg (hNot (by decide)),
    if_neg (hNot (by decide)), if_neg (hNot (by decide)), if_neg (hNot (by decide)),
    if_neg (hNot (by decide))]

theorem expectedType_of_bracketed {columnType : ColumnType} (h : Bracketed columnType.toPostgresType) :
    expectedType columnType = columnType.toPostgresType.toLower :=
  if_neg (not_mem_of_bracketed (bracketed_map h (by decide)) (by decide))

theorem bracketed_expectedType (inner : ColumnType) : Bracketed (expectedType (.array inner)) := by
  rw [expectedType_of_bracketed (bracketed_array inner)]
  exact bracketed_map (bracketed_array inner) (by decide)

/-- No type that is there is taken for an array, not even an array. -/
theorem not_sameType_array {existing : String}
    (h : ¬ Bracketed (normalizePgType (informationSchemaType existing))) (inner : ColumnType) :
    ¬ SameType existing (.array inner) := by
  intro hSame
  refine h ?_
  rw [hSame, normalizePgType_of_bracketed (bracketed_expectedType inner)]
  exact bracketed_map (bracketed_expectedType inner) (by decide)

theorem not_bracketed_array_type : ¬ Bracketed (normalizePgType "ARRAY") := by
  show ¬ (normalizePgType "ARRAY").toList.getLast? = some ']'
  with_unfolding_all decide

/-! ### Columns that were created -/

/-- The sync takes the type of a created column for the one it expects, if that is no array. -/
theorem sameType_created_iff {columnType : ColumnType} :
    SameType columnType.toPostgresType columnType ↔ ∀ inner, columnType ≠ .array inner := by
  constructor
  · rintro hSame inner rfl
    refine not_sameType_array ?_ inner hSame
    rw [informationSchemaType_of_bracketed (bracketed_array inner)]
    exact not_bracketed_array_type
  · intro h
    exact (scalarTypes_texts columnType (mem_scalarTypes h)).1

/-! ### Columns that the sync adds -/

theorem expectedType_ne_unknown (columnType : ColumnType) : expectedType columnType ≠ "unknown" := by
  cases columnType with
  | array inner =>
    intro h
    have hBracketed := bracketed_expectedType inner
    rw [h] at hBracketed
    exact absurd hBracketed (by show ¬ "unknown".toList.getLast? = some ']'; decide)
  | _ => exact (scalarTypes_texts _ (by simp [scalarTypes])).2.1

/-- A column of a plain type is added with the type that it would be created with. -/
theorem addedType_of_plain {columnType : ColumnType} (h : Plain columnType) (name : String) :
    addedType name (expectedType columnType) = columnType.toPostgresType := by
  obtain ⟨hCharacter, hAdded⟩ := (scalarTypes_texts columnType (mem_scalarTypes h.2)).2.2 h.1
  have hName : addedType name (expectedType columnType) = addedType "" (expectedType columnType) := by
    rw [addedType, addedType, if_neg hCharacter, if_neg hCharacter]
  rw [hName, hAdded]

theorem addedType_address {name : String} (hTx : name ≠ "rindexer_tx_hash")
    (hBlock : name ≠ "rindexer_block_hash") (hContract : name ≠ "rindexer_contract_address") :
    addedType name (expectedType .address) = "TEXT" := by
  rw [address_texts.1, addedType, if_neg (by decide), if_pos rfl, if_neg (by simp [hTx, hBlock]),
    if_neg hContract]
  exact address_texts.2.1

theorem bracketed_addedType_array (name : String) (inner : ColumnType) :
    Bracketed (addedType name (expectedType (.array inner))) := by
  have hBracketed := bracketed_expectedType inner
  have hNe : ∀ {s : String}, s.toList.getLast? ≠ some ']' → expectedType (.array inner) ≠ s := by
    rintro s hs rfl
    exact hs hBracketed
  rw [addedType, if_neg (hNe (by decide)), if_neg (hNe (by decide)), if_neg (hNe (by decide))]
  exact bracketed_map hBracketed (by decide)

/-- The sync takes the type of a column that it added for the one it expects, if that is plain. -/
theorem sameType_added_iff {columnType : ColumnType} {name : String} (hTx : name ≠ "rindexer_tx_hash")
    (hBlock : name ≠ "rindexer_block_hash") (hContract : name ≠ "rindexer_contract_address") :
    SameType (addedType name (expectedType columnType)) columnType ↔ Plain columnType := by
  constructor
  · intro hSame
    refine ⟨?_, ?_⟩
    · rintro rfl
      rw [addedType_address hTx hBlock hContract] at hSame
      exact address_texts.2.2 hSame
    · rintro inner rfl
      refine not_sameType_array ?_ inner hSame
      rw [informationSchemaType_of_bracketed (bracketed_addedType_array name inner)]
      exact not_bracketed_array_type
  · intro hPlain
    rw [addedType_of_plain hPlain]
    exact sameType_created_iff.mpr hPlain.2

end Rindexer.Database
