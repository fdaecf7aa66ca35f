import Rindexer.Streams.Clients

/-! The identifiers of published messages.  A first-in-first-out topic drops a message whose
identifier it has seen. -/

namespace Rindexer.Streams

open Rindexer.Lib

/-- `to_lowercase`: it maps the characters of an ASCII text, and what a character becomes does not
depend on what stands beyond a hyphen or an underscore. -/
structure Lowercase where
  toLowercase : List Char → List Char
  ascii : ∀ s, (∀ c ∈ s, c.toNat < 128) → toLowercase s = s.map Char.toLower
  split : ∀ s t c, c = '-' ∨ c = '_' →
    toLowercase (s ++ c :: t) = toLowercase s ++ c :: toLowercase t

def asciiLowercase : Lowercase where
  toLowercase s := s.map Char.toLower
  ascii _ _ := rfl
  split s t c h := by
    rcases h with rfl | rfl <;> simp [show Char.toLower '-' = '-' by decide,
      show Char.toLower '_' = '_' by decide]

/-- A number as the source formats it. -/
def decimal (n : Nat) : List Char := Nat.toDigits 10 n

def blk (n : Nat) : List Char := "blk".toList ++ decimal n

def Source.streamId : Source → List Char
  | .instant contractName eventName network fromBlock toBlock blockNumber =>
    joinWith '-' [contractName, eventName, network, decimal fromBlock, decimal toBlock, blk blockNumber]
  | .finalized streamType configIndex network blockNumber =>
    joinWith '_' ["finalized".toList, streamType.label, decimal configIndex, network, blk blockNumber]
  | .reorg network forkBlock => joinWith '_' ["reorg".toList, network, decimal forkBlock]

def generatePublishMessageId (lower : Lowercase) (id : List Char) (index : Nat)
    (prefixId : List Char) : List Char :=
  "rindexer_stream__".toList ++ prefixId ++ '-' :: lower.toLowercase id ++
    "-chunk-".toList ++ decimal index

/-- One chunk on its way to a target. -/
structure Publication (V : Type) where
  streamType : StreamType
  configIndex : Nat
  endpoint : String
  prefixId : List Char
  source : Source
  index : Nat
  message : EventMessage V
deriving DecidableEq

def Dispatch.publications {V : Type} (dispatch : Dispatch V) : List (Publication V) :=
  dispatch.messages.zipIdx.map fun (message, index) =>
    ⟨dispatch.streamType, dispatch.configIndex, dispatch.endpoint, dispatch.prefixId, dispatch.source,
      index, message⟩

def Publication.id {V : Type} (lower : Lowercase) (publication : Publication V) : List Char :=
  generatePublishMessageId lower publication.source.streamId publication.index publication.prefixId

/-! ### Numbers and separators -/

def IsSeparator (c : Char) : Prop := c = '-' ∨ c = '_'

theorem decimal_inj {m n : Nat} (h : decimal m = decimal n) : m = n := by
  rw [← Nat.ofDigitChars_ten_toDigits (n := m), ← Nat.ofDigitChars_ten_toDigits (n := n)]
  exact congrArg _ h

theorem isDigit_of_mem_decimal {n : Nat} {c : Char} (h : c ∈ decimal n) : c.isDigit = true :=
  Nat.isDigit_of_mem_toDigits (by omega) (by omega) h

theorem not_isSeparator_of_isDigit {c : Char} (h : c.isDigit = true) : ¬ IsSeparator c := by
  rintro (rfl | rfl)
  · exact absurd h (by decide)
  · exact absurd h (by decide)

theorem not_isSeparator_of_mem_decimal {n : Nat} : ∀ c ∈ decimal n, ¬ IsSeparator c :=
  fun _ h => not_isSeparator_of_isDigit (isDigit_of_mem_decimal h)

theorem not_isSeparator_of_mem_blk {n : Nat} : ∀ c ∈ blk n, ¬ IsSeparator c := by
  intro c hc
  rcases List.mem_append.mp hc with h | h
  · have hLetter : ∀ c ∈ "blk".toList, ¬ IsSeparator c := by
      unfold IsSeparator
      decide
    exact hLetter c h
  · exact not_isSeparator_of_mem_decimal c h

theorem blk_inj {m n : Nat} (h : blk m = blk n) : m = n :=
  decimal_inj (List.append_cancel_left h)

theorem blk_ne_decimal (m n : Nat) : blk m ≠ decimal n := by
  intro h
  have hMem : 'b' ∈ decimal n := h ▸ List.mem_append_left _ (by decide)
  exact absurd (isDigit_of_mem_decimal hMem) (by decide)

theorem toLower_eq_self {c : Char} (h : ¬ c.isUpper) : c.toLower = c := by
  simp only [isUpper_bounds, decide_eq_true_eq] at h
  exact toLower_of_not_isUpper h

namespace Lowercase

variable (lower : Lowercase)

theorem toLowercase_eq_self {s : List Char} (h : ∀ c ∈ s, c.toNat < 128 ∧ ¬ c.isUpper) :
    lower.toLowercase s = s := by
  rw [lower.ascii s fun c hc => (h c hc).1]
  exact (List.map_congr_left fun c hc => toLower_eq_self (h c hc).2).trans (List.map_id s)

theorem plain_of_isDigit {c : Char} (h : c.isDigit = true) : c.toNat < 128 ∧ ¬ c.isUpper := by
  simp only [Char.isDigit, Bool.and_eq_true, decide_eq_true_eq, UInt32.le_iff_toNat_le] at h
  simp only [isUpper_bounds, decide_eq_true_eq, UInt32.le_iff_toNat_le]
  have : c.toNat = c.val.toNat := rfl
  have h9 : (48 : Nat) ≤ c.val.toNat ∧ c.val.toNat ≤ 57 := h
  constructor
  · omega
  · intro hUpper
    have h65 : (65 : Nat) ≤ c.val.toNat := hUpper.1
    omega

@[simp] theorem toLowercase_decimal (n : Nat) : lower.toLowercase (decimal n) = decimal n :=
  lower.toLowercase_eq_self fun _ h => plain_of_isDigit (isDigit_of_mem_decimal h)

@[simp] theorem toLowercase_blk (n : Nat) : lower.toLowercase (blk n) = blk n := by
  apply lower.toLowercase_eq_self
  intro c hc
  rcases List.mem_append.mp hc with h | h
  · have hLetter : ∀ c ∈ "blk".toList, c.toNat < 128 ∧ ¬ c.isUpper := by decide
    exact hLetter c h
  · exact plain_of_isDigit (isDigit_of_mem_decimal h)

/-- Texts joined with a hyphen or an underscore are lower-cased one by one. -/
theorem toLowercase_joinWith {separator : Char} (h : IsSeparator separator)
    (parts : List (List Char)) : lower.toLowercase (joinWith separator parts) =
      joinWith separator (parts.map lower.toLowercase) := by
  induction parts with
  | nil => exact lower.toLowercase_eq_self (by simp)
  | cons part parts ih =>
    by_cases hEnd : parts = []
    · subst hEnd
      rfl
    · rw [joinWith_cons _ _ hEnd, lower.split _ _ _ h, ih, List.map_cons,
        joinWith_cons _ _ (by simpa using hEnd)]

end Lowercase

/-! ### When two identifiers are equal -/

theorem plain_label (streamType : StreamType) :
    ∀ c ∈ streamType.label, c.toNat < 128 ∧ ¬ c.isUpper := by
  cases streamType <;> decide

section Identity

variable {V : Type} (lower : Lowercase)

/-- What the identifier of a source has before its numbers: the names, up to case. -/
def Source.names : Source → List Char
  | .instant contractName eventName network _ _ _ =>
    joinWith '-' ([contractName, eventName, network].map lower.toLowercase)
  | .finalized streamType configIndex network _ =>
    joinWith '_' ["finalized".toList, streamType.label, decimal configIndex, lower.toLowercase network]
  | .reorg network _ => joinWith '_' ["reorg".toList, lower.toLowercase network]

/-- Sources of one kind with the same blocks. -/
def SameBlocks : Source → Source → Prop
  | .instant _ _ _ fromBlock1 toBlock1 blockNumber1, .instant _ _ _ fromBlock2 toBlock2 blockNumber2 =>
    fromBlock1 = fromBlock2 ∧ toBlock1 = toBlock2 ∧ blockNumber1 = blockNumber2
  | .finalized _ _ _ blockNumber1, .finalized _ _ _ blockNumber2 => blockNumber1 = blockNumber2
  | .reorg _ forkBlock1, .reorg _ forkBlock2 => forkBlock1 = forkBlock2
  | _, _ => False

instance : DecidableRel SameBlocks := fun source1 source2 => by
  cases source1 <;> cases source2 <;> unfold SameBlocks <;> infer_instance

/-- The names before the numbers, after the prefix. -/
def Publication.stem (publication : Publication V) : List Char :=
  publication.prefixId ++ '-' :: publication.source.names lower

/-- Publications of one kind of source for the same blocks, at the same position, whose names are the
same text up to case. -/
structure SameIdentity (publication1 publication2 : Publication V) : Prop where
  blocks : SameBlocks publication1.source publication2.source
  stem : publication1.stem lower = publication2.stem lower
  index : publication1.index = publication2.index

def Source.blocksText : Source → List Char
  | .instant _ _ _ fromBlock toBlock blockNumber =>
    '-' :: decimal fromBlock ++ '-' :: decimal toBlock ++ '-' :: blk blockNumber
  | .finalized _ _ _ blockNumber => '_' :: blk blockNumber
  | .reorg _ forkBlock => '_' :: decimal forkBlock

theorem Source.toLowercase_streamId (source : Source) :
    lower.toLowercase source.streamId = source.names lower ++ source.blocksText := by
  cases source with
  | instant contractName eventName network fromBlock toBlock blockNumber =>
    simp only [streamId, lower.toLowercase_joinWith (.inl rfl), List.map_cons, List.map_nil,
      Lowercase.toLowercase_decimal, Lowercase.toLowercase_blk, names, blocksText]
    simp [joinWith]
  | finalized streamType configIndex network blockNumber =>
    have hWord : lower.toLowercase "finalized".toList = "finalized".toList :=
      lower.toLowercase_eq_self (by decide)
    have hLabel := lower.toLowercase_eq_self (plain_label streamType)
    simp only [streamId, lower.toLowercase_joinWith (.inr rfl), List.map_cons, hWord, hLabel,
      Lowercase.toLowercase_decimal, Lowercase.toLowercase_blk, List.map_nil, names, blocksText]
    simp [joinWith]
  | reorg network forkBlock =>
    have hWord : lower.toLowercase "reorg".toList = "reorg".toList :=
      lower.toLowercase_eq_self (by decide)
    simp only [streamId, lower.toLowercase_joinWith (.inr rfl), List.map_cons, hWord,
      Lowercase.toLowercase_decimal, List.map_nil, names, blocksText]
    simp [joinWith]

theorem Publication.id_eq (publication : Publication V) : publication.id lower =
    ("rindexer_stream__".toList ++ (publication.stem lower ++ publication.source.blocksText) ++
      "-chunk".toList) ++ '-' :: decimal publication.index := by
  have hChunk : "-chunk-".toList = "-chunk".toList ++ ['-'] := by simp
  unfold Publication.id generatePublishMessageId Publication.stem
  simp only [hChunk, Source.toLowercase_streamId, List.append_assoc, List.cons_append,
    List.nil_append]

theorem append_blocksText_inj {stem1 stem2 : List Char} {source1 source2 : Source}
    (h : stem1 ++ source1.blocksText = stem2 ++ source2.blocksText) :
    stem1 = stem2 ∧ SameBlocks source1 source2 := by
  have hHyphen : IsSeparator '-' := .inl rfl
  have hUnderscore : IsSeparator '_' := .inr rfl
  have hBlk := @not_isSeparator_of_mem_blk
  have hDecimal := @not_isSeparator_of_mem_decimal
  have hKinds : '-' ≠ '_' := by decide
  cases source1 with
  | instant _ _ _ fromBlock1 toBlock1 blockNumber1 =>
    cases source2 with
    | instant _ _ _ fromBlock2 toBlock2 blockNumber2 =>
      simp only [Source.blocksText, ← List.append_assoc] at h
      obtain ⟨h, -, hBlock⟩ := append_cons_inj_of_last hHyphen hHyphen hBlk hBlk h
      obtain ⟨h, -, hTo⟩ := append_cons_inj_of_last hHyphen hHyphen hDecimal hDecimal h
      obtain ⟨h, -, hFrom⟩ := append_cons_inj_of_last hHyphen hHyphen hDecimal hDecimal h
      exact ⟨h, decimal_inj hFrom, decimal_inj hTo, blk_inj hBlock⟩
    | finalized _ _ _ blockNumber2 =>
      simp only [Source.blocksText, ← List.append_assoc] at h
      exact absurd (append_cons_inj_of_last hHyphen hUnderscore hBlk hBlk h).2.1 hKinds
    | reorg _ forkBlock2 =>
      simp only [Source.blocksText, ← List.append_assoc] at h
      exact absurd (append_cons_inj_of_last hHyphen hUnderscore hBlk hDecimal h).2.1 hKinds
  | finalized _ _ _ blockNumber1 =>
    cases source2 with
    | instant _ _ _ fromBlock2 toBlock2 blockNumber2 =>
      simp only [Source.blocksText, ← List.append_assoc] at h
      exact absurd (append_cons_inj_of_last hUnderscore hHyphen hBlk hBlk h).2.1 hKinds.symm
    | finalized _ _ _ blockNumber2 =>
      obtain ⟨h, -, hBlock⟩ := append_cons_inj_of_last hUnderscore hUnderscore hBlk hBlk h
      exact ⟨h, blk_inj hBlock⟩
    | reorg _ forkBlock2 =>
      obtain ⟨-, -, hBlock⟩ := append_cons_inj_of_last hUnderscore hUnderscore hBlk hDecimal h
      exact absurd hBlock (blk_ne_decimal _ _)
  | reorg _ forkBlock1 =>
    cases source2 with
    | instant _ _ _ fromBlock2 toBlock2 blockNumber2 =>
      simp only [Source.blocksText, ← List.append_assoc] at h
      exact absurd (append_cons_inj_of_last hUnderscore hHyphen hDecimal hBlk h).2.1 hKinds.symm
    | finalized _ _ _ blockNumber2 =>
      obtain ⟨-, -, hBlock⟩ := append_cons_inj_of_last hUnderscore hUnderscore hDecimal hBlk h
      exact absurd hBlock.symm (blk_ne_decimal _ _)
    | reorg _ forkBlock2 =>
      obtain ⟨h, -, hFork⟩ := append_cons_inj_of_last hUnderscore hUnderscore hDecimal hDecimal h
      exact ⟨h, decimal_inj hFork⟩

theorem blocksText_eq_of_sameBlocks {source1 source2 : Source} (h : SameBlocks source1 source2) :
    source1.blocksText = source2.blocksText := by
  cases source1 <;> cases source2 <;> simp_all [SameBlocks, Source.blocksText]

theorem id_eq_iff {publication1 publication2 : Publication V} :
    publication1.id lower = publication2.id lower ↔ SameIdentity lower publication1 publication2 := by
  constructor
  · intro h
    rw [Publication.id_eq, Publication.id_eq] at h
    obtain ⟨h, -, hIndex⟩ := append_cons_inj_of_last (.inl rfl) (.inl rfl)
      not_isSeparator_of_mem_decimal not_isSeparator_of_mem_decimal h
    obtain ⟨hStem, hBlocks⟩ := append_blocksText_inj
      (List.append_cancel_left (List.append_cancel_right h))
    exact ⟨hBlocks, hStem, decimal_inj hIndex⟩
  · intro h
    rw [Publication.id_eq, Publication.id_eq, h.stem, h.index, blocksText_eq_of_sameBlocks h.blocks]

end Identity

end Rindexer.Streams
