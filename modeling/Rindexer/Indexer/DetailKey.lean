import Rindexer.Lib.Joined

/-! The key of a manifest detail, under which its cursor and its place in the live loop are kept, and
when two details have one key. -/

namespace Rindexer.Indexer

open Rindexer.Lib

/-- Topic values of an event to filter by, as the manifest writes them. -/
structure EventInputIndexedFilters where
  eventName : List Char
  indexed1 : Option (List (List Char))
  indexed2 : Option (List (List Char))
  indexed3 : Option (List (List Char))
deriving DecidableEq, Repr

inductive ValueOrArray (α : Type)
  | value (a : α)
  | array (as : List α)
deriving DecidableEq, Repr

def ValueOrArray.toList {α : Type} : ValueOrArray α → List α
  | value a => [a]
  | array as => as

/-- The factory whose children a detail selects: the event and the inputs that name a child. -/
structure FactoryDetails (Address : Type) where
  contractName : String
  address : ValueOrArray Address
  inputName : ValueOrArray String
  eventName : String
  indexedFilters : Option (List EventInputIndexedFilters)
deriving DecidableEq, Repr

inductive IndexingContractSetup (Address : Type)
  | address (address : ValueOrArray Address) (indexedFilters : Option (List EventInputIndexedFilters))
  | filter (indexedFilters : Option (List EventInputIndexedFilters))
  | factory (details : FactoryDetails Address)
deriving DecidableEq, Repr

namespace IndexingContractSetup

variable {Address : Type}

def indexedFilters : IndexingContractSetup Address → Option (List EventInputIndexedFilters)
  | address _ filters => filters
  | filter filters => filters
  | factory details => details.indexedFilters

/-- The contract addresses, or those of the factory.  A filter has none. -/
def addresses : IndexingContractSetup Address → Option (ValueOrArray Address)
  | address a _ => some a
  | filter _ => none
  | factory details => some details.address

def isFactory : IndexingContractSetup Address → Bool
  | factory _ => true
  | _ => false

/-- The filters for an event, in the order of the manifest. -/
def filtersFor (setup : IndexingContractSetup Address) (eventName : List Char) :
    List EventInputIndexedFilters :=
  (setup.indexedFilters.getD []).filter (·.eventName = eventName)

end IndexingContractSetup

/-- `to_ascii_lowercase`. -/
def asciiLower (text : List Char) : List Char := text.map Char.toLower

/-- How an address is written: `0x` and hexadecimal digits, whose case is a checksum. -/
structure AddressFormat (Address : Type) where
  display : Address → List Char
  display_hex : ∀ a, ∃ digits, display a = '0' :: 'x' :: digits ∧ ∀ c ∈ digits, c.isAlphanum = true
  display_inj : ∀ a b, asciiLower (display a) = asciiLower (display b) → a = b

def hexDigit (nibble : BitVec 4) : Char :=
  if nibble.toNat < 10 then Char.ofNat (48 + nibble.toNat) else Char.ofNat (87 + nibble.toNat)

theorem hexDigit_isAlphanum : ∀ nibble, (hexDigit nibble).isAlphanum = true := by decide

theorem hexDigit_toLower_inj : ∀ nibble1 nibble2,
    (hexDigit nibble1).toLower = (hexDigit nibble2).toLower → nibble1 = nibble2 := by decide

/-- The four bits at `4 * i`. -/
def nibbleAt (address : BitVec 160) (i : Nat) : BitVec 4 := address.extractLsb' (4 * i) 4

/-- The twenty bytes of an address in lower case. -/
def hexFormat : AddressFormat (BitVec 160) where
  display address := '0' :: 'x' :: ((List.range 40).reverse.map fun i => hexDigit (nibbleAt address i))
  display_hex address := by
    refine ⟨_, rfl, fun c hc => ?_⟩
    obtain ⟨i, -, rfl⟩ := List.mem_map.mp hc
    exact hexDigit_isAlphanum _
  display_inj a b h := by
    have hNibbles : ∀ i < 40, nibbleAt a i = nibbleAt b i := by
      intro i hi
      have hTails := List.cons.inj (List.cons.inj h).2
      have hMaps := List.map_inj_left.mp
        ((List.map_map ..).symm.trans (hTails.2.trans (List.map_map ..)))
      exact hexDigit_toLower_inj _ _ (hMaps i (by simpa using hi))
    apply BitVec.eq_of_getLsbD_eq
    intro j hj
    have hBit := congrArg (fun nibble : BitVec 4 => nibble.getLsbD (j % 4)) (hNibbles (j / 4) (by omega))
    simp only [nibbleAt, BitVec.getLsbD_extractLsb'] at hBit
    rw [show 4 * (j / 4) + j % 4 = j by omega] at hBit
    simpa [show j % 4 < 4 by omega] using hBit

def legacyKey : List Char := "__event__".toList

/-- The positions with values, `i1:` and so on before the values of each. -/
def indexedPositions (filter : EventInputIndexedFilters) : List (List Char) :=
  [('1', filter.indexed1), ('2', filter.indexed2), ('3', filter.indexed3)].filterMap
    fun (position, values) =>
      match values with
      | none => none
      | some values =>
        if values = [] then none else some ('i' :: position :: ':' :: joinWith ',' values)

/-- The alternatives, unless one of them has no position. -/
def alternatives (filters : List EventInputIndexedFilters) : Option (List (List Char)) :=
  filters.mapM fun filter =>
    let positions := indexedPositions filter
    if positions = [] then none else some (joinWith ':' positions)

section Keys

variable {Address : Type} (format : AddressFormat Address)

/-- What stands before the filters in a key. -/
def keyPrefix (setup : IndexingContractSetup Address) (eventName : List Char) :
    Option (List Char) :=
  match setup.addresses with
  | none => some ("filter:".toList ++ eventName)
  | some (.value a) => some (format.display a)
  | some (.array []) => none
  | some (.array addresses) => some (joinWith ',' (addresses.map format.display))

def deriveDetailKey (setup : IndexingContractSetup Address) (eventName : List Char) : List Char :=
  match keyPrefix format setup eventName with
  | none => legacyKey
  | some keyPrefix =>
    let filters := setup.filtersFor eventName
    if filters = [] then legacyKey
    else
      match alternatives filters with
      | none => legacyKey
      | some alternatives => asciiLower (keyPrefix ++ ':' :: joinWith '|' alternatives)

end Keys

/-! ### When two keys are equal -/

theorem eq_of_toLower_eq {c d : Char} (hd : d.isLower = false) (h : c.toLower = d) : c = d := by
  by_cases hUpper : c.val ≥ 'A'.val ∧ c.val ≤ 'Z'.val
  · subst h
    have hLow : 65 ≤ c.val.toNat := UInt32.le_iff_toNat_le.mp hUpper.1
    have hHigh : c.val.toNat ≤ 90 := UInt32.le_iff_toNat_le.mp hUpper.2
    have hSum : (c.val + 32).toNat = c.val.toNat + 32 := by
      rw [UInt32.toNat_add]
      exact Nat.mod_eq_of_lt (by change _ + 32 < _; omega)
    have hLower : 97 ≤ c.val + 32 := UInt32.le_iff_toNat_le.mpr (by change 97 ≤ _; omega)
    have hNot : ¬122 < c.val + 32 := by
      rw [UInt32.lt_iff_toNat_lt]
      change ¬122 < _
      omega
    simp only [isLower_bounds, toLower_val_of_isUpper hUpper, Bool.and_eq_false_imp, decide_eq_true_eq,
      decide_eq_false_iff_not] at hd
    exact absurd (hd hLower) (by simpa using hNot)
  · rwa [toLower_of_not_isUpper hUpper] at h

theorem not_mem_asciiLower {c : Char} {text : List Char} (hc : c.isLower = false) (h : c ∉ text) :
    c ∉ asciiLower text := by
  intro hMem
  obtain ⟨d, hd, hEq⟩ := List.mem_map.mp hMem
  exact h (eq_of_toLower_eq hc hEq ▸ hd)

theorem map_eq_of_map_eq {α β γ : Type} {f : α → β} {g : α → γ} {l1 l2 : List α}
    (h : ∀ a ∈ l1, ∀ b ∈ l2, f a = f b → g a = g b) (hMap : l1.map f = l2.map f) :
    l1.map g = l2.map g := by
  induction l1 generalizing l2 with
  | nil =>
    rw [List.map_nil, eq_comm, List.map_eq_nil_iff] at hMap
    rw [hMap]
  | cons a l1 ih =>
    cases l2 with
    | nil => cases hMap
    | cons b l2 =>
      obtain ⟨hHead, hTail⟩ := List.cons.inj hMap
      rw [List.map_cons, List.map_cons, h a List.mem_cons_self b List.mem_cons_self hHead,
        ih (fun a ha b hb => h a (List.mem_cons_of_mem _ ha) b (List.mem_cons_of_mem _ hb)) hTail]

/-- How the manifest's filters are written in a key. -/
def written (filters : List EventInputIndexedFilters) : List Char :=
  joinWith '|' (filters.map fun filter => joinWith ':' (indexedPositions filter))

theorem alternatives_eq (filters : List EventInputIndexedFilters) :
    (alternatives filters = none ∧ ∃ filter ∈ filters, indexedPositions filter = []) ∨
    (alternatives filters = some (filters.map fun filter => joinWith ':' (indexedPositions filter)) ∧
      ∀ filter ∈ filters, indexedPositions filter ≠ []) := by
  induction filters with
  | nil => exact .inr ⟨rfl, fun _ h => absurd h List.not_mem_nil⟩
  | cons filter filters ih =>
    simp only [alternatives, List.mapM_cons] at ih ⊢
    by_cases hEmpty : indexedPositions filter = []
    · exact .inl ⟨by simp [hEmpty], filter, List.mem_cons_self, hEmpty⟩
    · rcases ih with ⟨hNone, f, hf, hf'⟩ | ⟨hSome, hAll⟩
      · exact .inl ⟨by simp [hEmpty, hNone], f, List.mem_cons_of_mem _ hf, hf'⟩
      · refine .inr ⟨by simp [hEmpty, hSome], fun f hf => ?_⟩
        rcases List.mem_cons.mp hf with rfl | hf
        · exact hEmpty
        · exact hAll f hf

section Clash

variable {Address : Type} (format : AddressFormat Address) (eventName : List Char)

/-- A detail without a key of its own: it has an empty list of addresses, no filter for the event,
or a filter for it without values. -/
def FallsBack (setup : IndexingContractSetup Address) : Prop :=
  setup.addresses = some (.array []) ∨ setup.filtersFor eventName = [] ∨
    ∃ filter ∈ setup.filtersFor eventName, indexedPositions filter = []

/-- Details that the keys do not tell apart: both fall back, or they name the same addresses and
write the same filters up to case. -/
def Clash (setup1 setup2 : IndexingContractSetup Address) : Prop :=
  (FallsBack eventName setup1 ∧ FallsBack eventName setup2) ∨
  (¬FallsBack eventName setup1 ∧ ¬FallsBack eventName setup2 ∧
    setup1.addresses.map ValueOrArray.toList = setup2.addresses.map ValueOrArray.toList ∧
    asciiLower (written (setup1.filtersFor eventName)) =
      asciiLower (written (setup2.filtersFor eventName)))

theorem deriveDetailKey_of_fallsBack {setup : IndexingContractSetup Address}
    (h : FallsBack eventName setup) : deriveDetailKey format setup eventName = legacyKey := by
  rw [deriveDetailKey]
  rcases h with h | h | ⟨filter, hFilter, hEmpty⟩
  · rw [keyPrefix, h]
  · split
    · rfl
    · rw [h]
      rfl
  · split
    · rfl
    · simp only
      split
      · rfl
      · rcases alternatives_eq (setup.filtersFor eventName) with ⟨hNone, -⟩ | ⟨-, hAll⟩
        · rw [hNone]
        · exact absurd hEmpty (hAll filter hFilter)

/-- What stands before the filters in a key of its own. -/
def owner (setup : IndexingContractSetup Address) : List Char :=
  match setup.addresses with
  | none => "filter:".toList ++ eventName
  | some addresses => joinWith ',' (addresses.toList.map format.display)

theorem keyPrefix_eq_owner {setup : IndexingContractSetup Address}
    (h : setup.addresses ≠ some (.array [])) :
    keyPrefix format setup eventName = some (owner format eventName setup) := by
  rw [keyPrefix, owner]
  cases hAddresses : setup.addresses with
  | none => rfl
  | some addresses =>
    cases addresses with
    | value a => rfl
    | array as =>
      cases as with
      | nil => exact absurd hAddresses h
      | cons a as => rfl

theorem deriveDetailKey_of_not_fallsBack {setup : IndexingContractSetup Address}
    (h : ¬FallsBack eventName setup) : deriveDetailKey format setup eventName =
      asciiLower (owner format eventName setup) ++
        ':' :: asciiLower (written (setup.filtersFor eventName)) := by
  simp only [FallsBack, not_or, not_exists, not_and] at h
  obtain ⟨hAddresses, hFilters, hPositions⟩ := h
  rw [deriveDetailKey, keyPrefix_eq_owner format eventName hAddresses]
  simp only [if_neg hFilters]
  rcases alternatives_eq (setup.filtersFor eventName) with ⟨-, filter, hFilter, hEmpty⟩ | ⟨hSome, -⟩
  · exact absurd hEmpty (hPositions filter hFilter)
  · rw [hSome]
    simp only [asciiLower, written, List.map_append, List.map_cons]
    rfl

theorem display_free {c : Char} (h : c.isAlphanum = false) (a : Address) :
    c ∉ format.display a := by
  obtain ⟨digits, hDisplay, hDigits⟩ := format.display_hex a
  rw [hDisplay]
  intro hMem
  rcases List.mem_cons.mp hMem with rfl | hMem
  · cases h
  · rcases List.mem_cons.mp hMem with rfl | hMem
    · cases h
    · rw [hDigits c hMem] at h
      cases h

/-- The list of addresses can be read back from the lowered key. -/
theorem joined_addresses_inj {as bs : List Address} (ha : as ≠ []) (hb : bs ≠ [])
    (h : asciiLower (joinWith ',' (as.map format.display)) =
      asciiLower (joinWith ',' (bs.map format.display))) : as = bs := by
  rw [asciiLower, asciiLower, map_joinWith, map_joinWith] at h
  have hFree : ∀ as : List Address,
      ∀ part ∈ (as.map format.display).map (List.map Char.toLower), ',' ∉ part := by
    intro as part hPart
    obtain ⟨text, hText, rfl⟩ := List.mem_map.mp hPart
    obtain ⟨a, -, rfl⟩ := List.mem_map.mp hText
    exact not_mem_asciiLower (by decide) (display_free format (by decide) a)
  have hLists := joinWith_inj (by simpa using ha) (by simpa using hb) (hFree as) (hFree bs) h
  rw [List.map_map, List.map_map] at hLists
  have hIds : as.map id = bs.map id :=
    map_eq_of_map_eq (fun a _ b _ hEq => format.display_inj a b hEq) hLists
  simpa using hIds

theorem addresses_owner_free {setup : IndexingContractSetup Address} {addresses}
    (h : setup.addresses = some addresses) : ':' ∉ asciiLower (owner format eventName setup) := by
  apply not_mem_asciiLower (by decide)
  rw [owner, h]
  intro hMem
  rcases mem_joinWith hMem with hComma | ⟨part, hPart, hMem⟩
  · cases hComma
  · obtain ⟨a, -, rfl⟩ := List.mem_map.mp hPart
    exact display_free format (by decide) a hMem

/-- An address stands first in the key of a contract, `f` in that of a filter. -/
theorem addresses_head {setup : IndexingContractSetup Address} {addresses : ValueOrArray Address}
    (h : setup.addresses = some addresses) (hNonempty : addresses.toList ≠ []) :
    (asciiLower (owner format eventName setup)).head? = some '0' := by
  obtain ⟨a, as, hList⟩ := List.exists_cons_of_ne_nil hNonempty
  obtain ⟨digits, hDisplay, -⟩ := format.display_hex a
  rw [owner, h]
  simp only [hList, List.map_cons]
  cases as with
  | nil =>
    rw [List.map_nil, joinWith_singleton, hDisplay]
    rfl
  | cons b as =>
    rw [joinWith_cons _ _ (by simp), hDisplay]
    rfl

theorem addresses_ne_nil {setup : IndexingContractSetup Address} {addresses : ValueOrArray Address}
    (h : ¬FallsBack eventName setup) (hAddresses : setup.addresses = some addresses) :
    addresses.toList ≠ [] := by
  intro hEmpty
  cases addresses with
  | value a => cases hEmpty
  | array as =>
    rw [ValueOrArray.toList] at hEmpty
    rw [hEmpty] at hAddresses
    exact h (.inl hAddresses)

theorem legacyKey_free : ':' ∉ legacyKey := by decide

theorem deriveDetailKey_eq_legacyKey {setup : IndexingContractSetup Address} :
    deriveDetailKey format setup eventName = legacyKey ↔ FallsBack eventName setup := by
  constructor
  · intro h
    by_contra hExact
    rw [deriveDetailKey_of_not_fallsBack format eventName hExact] at h
    exact legacyKey_free (h ▸ List.mem_append_right _ List.mem_cons_self)
  · exact deriveDetailKey_of_fallsBack format eventName

/-- The keys of two details are equal exactly if the details clash. -/
theorem deriveDetailKey_eq_iff (setup1 setup2 : IndexingContractSetup Address) :
    deriveDetailKey format setup1 eventName = deriveDetailKey format setup2 eventName ↔
      Clash eventName setup1 setup2 := by
  by_cases h1 : FallsBack eventName setup1
  · rw [deriveDetailKey_of_fallsBack format eventName h1, eq_comm, deriveDetailKey_eq_legacyKey]
    simp only [Clash, h1, true_and, not_true_eq_false, false_and, or_false]
  by_cases h2 : FallsBack eventName setup2
  · rw [deriveDetailKey_of_fallsBack format eventName h2, deriveDetailKey_eq_legacyKey]
    simp only [Clash, h2, and_true, not_true_eq_false, false_and, and_false, or_false]
  rw [deriveDetailKey_of_not_fallsBack format eventName h1,
    deriveDetailKey_of_not_fallsBack format eventName h2]
  simp only [Clash, h1, h2, false_and, not_false_eq_true, true_and, false_or]
  cases hA1 : setup1.addresses with
  | none =>
    cases hA2 : setup2.addresses with
    | none =>
      -- Both keys begin with the event, whatever characters its name has.
      have hOwners : owner format eventName setup1 = owner format eventName setup2 := by
        rw [owner, owner, hA1, hA2]
      rw [hOwners, List.append_cancel_left_eq, List.cons.injEq]
      simp
    | some addresses2 =>
      have hHead := addresses_head format eventName hA2 (addresses_ne_nil eventName h2 hA2)
      constructor
      · intro h
        have hHeads := congrArg List.head? h
        rw [List.head?_append, List.head?_append, hHead, owner, hA1] at hHeads
        cases hHeads
      · rintro ⟨h, -⟩
        cases h
  | some addresses1 =>
    have hNonempty1 := addresses_ne_nil eventName h1 hA1
    cases hA2 : setup2.addresses with
    | none =>
      have hHead := addresses_head format eventName hA1 hNonempty1
      constructor
      · intro h
        have hHeads := congrArg List.head? h
        rw [List.head?_append, List.head?_append, hHead, owner, hA2] at hHeads
        cases hHeads
      · rintro ⟨h, -⟩
        cases h
    | some addresses2 =>
      constructor
      · intro h
        obtain ⟨hOwners, hWritten⟩ := append_separator_inj
          (addresses_owner_free format eventName hA1) (addresses_owner_free format eventName hA2) h
        rw [owner, owner, hA1, hA2] at hOwners
        have hLists := joined_addresses_inj format hNonempty1
          (addresses_ne_nil eventName h2 hA2) hOwners
        exact ⟨congrArg some hLists, hWritten⟩
      · rintro ⟨hLists, hWritten⟩
        have hOwners : owner format eventName setup1 = owner format eventName setup2 := by
          rw [owner, owner, hA1, hA2]
          exact congrArg (fun as => joinWith ',' (as.map format.display)) (Option.some.inj hLists)
        rw [hOwners, hWritten]

end Clash

end Rindexer.Indexer
