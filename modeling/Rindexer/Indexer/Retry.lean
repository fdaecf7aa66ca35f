import Mathlib.Data.List.Infix
import Mathlib.Tactic.Common
import Mathlib.Tactic.NormNum

/-! The block range of the next request: after an answer, up to the limit on ranges, and after an
error, what `retry_with_block_range` reads out of the error.  Block numbers have 64 bits, and their
sums and differences wrap. -/

namespace Rindexer.Indexer

/-! ### Block numbers -/

def wrappingAdd (a b : Nat) : Nat := (a + b) % 2 ^ 64

def wrappingSub (a b : Nat) : Nat := (a + (2 ^ 64 - b)) % 2 ^ 64

theorem wrappingAdd_eq {a b : Nat} (h : a + b < 2 ^ 64) : wrappingAdd a b = a + b :=
  Nat.mod_eq_of_lt h

theorem wrappingSub_eq {a b : Nat} (hLe : b ≤ a) (hRange : a < 2 ^ 64) :
    wrappingSub a b = a - b := by
  unfold wrappingSub
  rw [show a + (2 ^ 64 - b) = (a - b) + 2 ^ 64 by omega, Nat.add_mod_right]
  exact Nat.mod_eq_of_lt (by omega)

/-- Half of the range, but at least two blocks past its first. -/
def halvedBlockNumber (toBlock fromBlock : Nat) : Nat :=
  max (wrappingAdd fromBlock (wrappingSub toBlock fromBlock / 2)) (wrappingAdd fromBlock 2)

/-- The end of the next range: the limit past its start, or the snapshot. -/
def calculateProcessHistoricLogToBlock (newFromBlock snapshotToBlock : Nat)
    (maxBlockRangeLimitation : Option Nat) : Nat :=
  match maxBlockRangeLimitation with
  | some limit =>
    let toBlock := wrappingAdd newFromBlock limit
    if snapshotToBlock < toBlock then snapshotToBlock else toBlock
  | none => snapshotToBlock

/-! ### The text of an error -/

/-- The message and the data of an error, in lower case, as the patterns are searched in them. -/
structure FetchError where
  message : String
  data : String
deriving DecidableEq, Repr

def isHexDigit (c : Char) : Bool :=
  c.isDigit || 'a' ≤ c && c ≤ 'f' || 'A' ≤ c && c ≤ 'F'

def digitValue (c : Char) : Nat :=
  if c.isDigit then c.toNat - '0'.toNat
  else if 'a' ≤ c && c ≤ 'f' then c.toNat - 'a'.toNat + 10
  else c.toNat - 'A'.toNat + 10

/-- A number of 64 bits, or none when the digits make a larger one. -/
def parseU64 (radix : Nat) (digits : List Char) : Option Nat :=
  let value := digits.foldl (fun n c => n * radix + digitValue c) 0
  if value < 2 ^ 64 then some value else none

/-- The two hexadecimal numbers of `{lead}0x…, 0x…]` at the start of a text. -/
def matchRange (lead text : List Char) : Option (List Char × List Char) :=
  match (lead ++ ['0', 'x']).isPrefixOf? text with
  | none => none
  | some rest =>
    let first := rest.takeWhile isHexDigit
    match rest.dropWhile isHexDigit with
    | ',' :: rest =>
      match ['0', 'x'].isPrefixOf? (rest.dropWhile Char.isWhitespace) with
      | none => none
      | some rest =>
        let second := rest.takeWhile isHexDigit
        match rest.dropWhile isHexDigit with
        | ']' :: _ => if first = [] ∨ second = [] then none else some (first, second)
        | _ => none
    | _ => none

/-- The first place in a text where a pattern matches. -/
def search {α : Type} (pattern : List Char → Option α) : List Char → Option α
  | [] => pattern []
  | c :: text =>
    match pattern (c :: text) with
    | some found => some found
    | none => search pattern text

/-- What a pattern finds in the message or, failing that, in the data. -/
def FetchError.captures {α : Type} (error : FetchError) (pattern : List Char → Option α) :
    Option α :=
  (search pattern error.message.toList).or (search pattern error.data.toList)

def FetchError.contains (error : FetchError) (text : String) : Bool :=
  text.toList <:+: error.message.toList

def alchemyRange : List Char → Option (List Char × List Char) :=
  matchRange "this block range should work: [".toList

def infuraRange : List Char → Option (List Char × List Char) :=
  matchRange "try with this block range [".toList

/-- The number of `limited to a …`, with its separators. -/
def limitedTo (text : List Char) : Option (List Char) :=
  match "limited to a ".toList.isPrefixOf? text with
  | none => none
  | some rest =>
    let number := rest.takeWhile fun c => c.isDigit || c == ',' || c == '.'
    if number = [] then none else some number

/-- What an error says about the range to ask for. -/
inductive Advice
  /-- A range of the provider's own. -/
  | range (fromBlock toBlock : Nat)
  /-- The same start and another end. -/
  | upTo (toBlock : Nat)
  /-- Ranges of at most so many blocks. -/
  | atMost (blocks : Nat)
  | halve
  | unknown
deriving DecidableEq, Repr

/-- The range of a hint in its two hexadecimal numbers, where both have 64 bits. -/
def parseRange (numbers : List Char × List Char) : Option (Nat × Nat) :=
  match parseU64 16 numbers.1, parseU64 16 numbers.2 with
  | some fromBlock, some toBlock => some (fromBlock, toBlock)
  | _, _ => none

/-- The first pattern that an error matches decides. -/
def FetchError.advice (error : FetchError) : Advice :=
  match (error.captures alchemyRange).bind parseRange with
  -- A reversed range keeps the start of the request and ends at the larger number.
  | some (fromBlock, toBlock) =>
    if toBlock < fromBlock then .upTo fromBlock else .range fromBlock toBlock
  | none =>
    match (error.captures infuraRange).bind parseRange with
    | some (fromBlock, toBlock) => .range fromBlock toBlock
    | none =>
      if error.contains "block range is too wide" then .atMost 3000
      else
        match (error.captures limitedTo).bind fun number =>
            parseU64 10 (number.filter fun c => c ≠ '.' && c ≠ ',') with
        | some blocks => .atMost blocks
        | none =>
          if error.contains "block range too large" then .atMost 2000
          else if error.contains "response is too big" ||
              error.contains "error decoding response body" ||
              error.contains "error sending request" then .halve
          else .unknown

/-! ### Retries -/

/-- The fallback ranges, the largest first. -/
def fallbackBlockRanges : List Nat := [5000, 500, 75, 50, 45, 40, 35, 30, 25, 20, 15, 10, 5, 1]

namespace FallbackBlockRange

/-- The largest fallback range that is no larger than the difference. -/
def fromDiff (diff : Nat) : Nat := (fallbackBlockRanges.find? (· ≤ diff)).getD 1

/-- The fallback range after this one. -/
def lower (range : Nat) : Nat := (fallbackBlockRanges.find? (· < range)).getD 1

theorem fromDiff_le {diff : Nat} (h : 0 < diff) : fromDiff diff ≤ diff := by
  unfold fromDiff
  cases hFind : fallbackBlockRanges.find? (· ≤ diff) with
  | none => exact h
  | some range => simpa using List.find?_some hFind

theorem lower_le {range : Nat} (h : 0 < range) : lower range ≤ range := by
  unfold lower
  cases hFind : fallbackBlockRanges.find? (· < range) with
  | none => exact h
  | some lowered =>
    have hLess : lowered < range := by simpa using List.find?_some hFind
    exact hLess.le

theorem fromDiff_pos (diff : Nat) : 0 < fromDiff diff := by
  unfold fromDiff
  cases hFind : fallbackBlockRanges.find? (· ≤ diff) with
  | none => exact Nat.one_pos
  | some range =>
    have hAll : ∀ r ∈ fallbackBlockRanges, 0 < r := by decide
    exact hAll range (List.mem_of_find?_eq_some hFind)

end FallbackBlockRange

structure RetryWithBlockRangeResult where
  fromBlock : Nat
  toBlock : Nat
  maxBlockRange : Option Nat
deriving DecidableEq, Repr

/-- A range of at most so many blocks, under the limit there is. -/
def suggestRange (fromBlock blocks : Nat) (maxBlockRangeLimitation : Option Nat) :
    RetryWithBlockRangeResult :=
  let suggestedRange := (maxBlockRangeLimitation.map (min · blocks)).getD blocks
  ⟨fromBlock, wrappingAdd fromBlock suggestedRange, some suggestedRange⟩

/-- The range to ask for after an error, if the error or the size of the range says one. -/
def retryWithBlockRange (error : FetchError) (fromBlock toBlock : Nat)
    (maxBlockRangeLimitation : Option Nat) : Option RetryWithBlockRangeResult :=
  match error.advice with
  | .range hintFrom hintTo => some ⟨hintFrom, hintTo, maxBlockRangeLimitation⟩
  | .upTo hintTo => some ⟨fromBlock, hintTo, maxBlockRangeLimitation⟩
  | .atMost blocks => some (suggestRange fromBlock blocks maxBlockRangeLimitation)
  | .halve => some ⟨fromBlock, halvedBlockNumber toBlock fromBlock, maxBlockRangeLimitation⟩
  | .unknown =>
    if fromBlock < toBlock then
      let diff := wrappingSub toBlock fromBlock
      let range := FallbackBlockRange.fromDiff diff
      let lowered :=
        if wrappingAdd fromBlock range = toBlock then FallbackBlockRange.lower range else range
      if wrappingAdd fromBlock lowered < fromBlock then
        some ⟨fromBlock, halvedBlockNumber toBlock fromBlock, maxBlockRangeLimitation⟩
      else some (suggestRange fromBlock lowered maxBlockRangeLimitation)
    else none

/-- The next request after an error: the retry range, or half of the range. -/
def rangeAfterError (error : FetchError) (fromBlock toBlock : Nat)
    (maxBlockRangeLimitation : Option Nat) : RetryWithBlockRangeResult :=
  (retryWithBlockRange error fromBlock toBlock maxBlockRangeLimitation).getD
    ⟨fromBlock, halvedBlockNumber toBlock fromBlock, maxBlockRangeLimitation⟩

example : FetchError.advice ⟨"this block range should work: [0xc8, 0xfa]", ""⟩ = .range 200 250 := by
  decide

end Rindexer.Indexer
