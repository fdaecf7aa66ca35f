import Rindexer.SqlTypes.Conversion
import Rindexer.SqlTypes.RawValues

/-! The rows of an event table: one value for each column, in the order of the columns, and which logs
have such a row. -/

namespace Rindexer.SqlTypes

open Rindexer.Database (UnicodeClasses abiNamePropertiesOf)

/-- The SQL values of a log and its texts are one for each leaf of the parameters, each the conversion
of the value at that leaf. -/
structure RowsAligned (params : List EventParam) (logParams : List LogParam) : Prop where
  wrappers : ∃ wrappers,
    mapLogParamsToEthereumWrapper (params.map EventParam.input) logParams = .ok wrappers ∧
      Aligned mapLogTokenToEthereumWrapper (.tuple (logParams.map LogParam.value))
        (leavesFrom [] 0 (params.map EventParam.input)) wrappers
  raws : ∃ raws, mapLogParamsToRawValues logParams = .ok raws ∧
    Aligned (fun _ token => mapTokenToRawValues token) (.tuple (logParams.map LogParam.value))
      (leavesFrom [] 0 (params.map EventParam.input)) raws

/-- The parameters that have a row: no hash stands for a tuple, and nothing in the value panics. -/
def RowFits (param : EventParam) (value : DynSolValue) : Prop :=
  if param.IsHashed then param.type.IsTuple = false else Supported param.type value ∧ value.Plain

theorem placed_wrappers {param : EventParam} (hForm : param.type.WellFormed) {value : DynSolValue}
    (hValue : param.Decodes value) : Placed mapLogTokenToEthereumWrapper param value ↔
      if param.IsHashed then param.type.IsTuple = false else Supported param.type value := by
  rw [Placed]
  split
  · exact Iff.rfl
  · next hHashed =>
    rw [EventParam.Decodes, if_neg hHashed] at hValue
    exact mapLogToken_ok param.type param.name _ value hForm hValue

theorem placed_raws {param : EventParam} {value : DynSolValue} :
    Placed (fun _ token => mapTokenToRawValues token) param value ↔
      if param.IsHashed then param.type.IsTuple = false else value.Plain := by
  rw [Placed]
  split
  · exact Iff.rfl
  · exact mapTokenToRawValues_ok value

section Rows

variable {params : List EventParam} {logParams : List LogParam}

theorem rowsAligned_iff (hForm : ∀ param ∈ params, param.type.WellFormed)
    (hLog : DecodedLog params logParams) : RowsAligned params logParams ↔
      List.Forall₂ (fun param logParam => RowFits param logParam.value) params logParams := by
  have hWrappers := rowAligned_iff wrappers_flattens wrappers_oneEach wrappers_oneHash hForm hLog
  have hRaws := rowAligned_iff rawValues_flattens rawValues_oneEach rawValues_oneHash hForm hLog
  have hBoth : RowsAligned params logParams ↔
      RowAligned mapLogTokenToEthereumWrapper processTuple params logParams ∧
        RowAligned (fun _ token => mapTokenToRawValues token) (fun _ tokens => rawValuesOf tokens)
          params logParams :=
    ⟨fun h => ⟨h.wrappers, h.raws⟩, fun h => ⟨h.1, h.2⟩⟩
  rw [hBoth, hWrappers, hRaws]
  clear hWrappers hRaws hBoth
  induction hLog with
  | nil => exact iff_of_true ⟨.nil, .nil⟩ .nil
  | @cons param logParam params logParams hParam hLog ih =>
    have hRest : _ ↔ _ := ih fun other hOther => hForm other (List.mem_cons_of_mem _ hOther)
    rw [List.forall₂_cons, List.forall₂_cons, List.forall₂_cons, ← hRest, RowFits,
      placed_wrappers (hForm param List.mem_cons_self) hParam.2, placed_raws]
    split_ifs <;> tauto

end Rows

/-- `event Filled(address indexed maker, Order order, string indexed note)`, with an order of a number
and a list of numbers. -/
def filledParams : List EventParam :=
  [⟨"maker".toList, .address, true⟩,
    ⟨"order".toList, .tuple false [("id".toList, .uint 256), ("fills".toList, .array (.int 64))], false⟩,
    ⟨"note".toList, .string, true⟩]

def filledLog : List LogParam :=
  [⟨"maker".toList, .address (List.replicate 20 1)⟩,
    ⟨"order".toList, .tuple [.uint 7 256, .array [.int 3 64]]⟩,
    ⟨"note".toList, .fixedBytes (List.replicate 32 2) 32⟩]

theorem wellFormed_filled : ∀ param ∈ filledParams, param.type.WellFormed := by
  intro param hMem
  simp only [filledParams, List.mem_cons, List.not_mem_nil, or_false] at hMem
  obtain rfl | rfl | rfl := hMem
  · trivial
  · exact ⟨List.cons_ne_nil _ _, ⟨by decide, by decide, by decide⟩, ⟨by decide, by decide, by decide⟩,
      trivial⟩
  · trivial

theorem decoded_filled : DecodedLog filledParams filledLog := by
  refine .cons ⟨rfl, ?_⟩ (.cons ⟨rfl, ?_⟩ (.cons ⟨rfl, ?_⟩ .nil))
  · rw [EventParam.Decodes, if_neg (by decide)]
    exact List.length_replicate
  · rw [EventParam.Decodes, if_neg (by decide)]
    refine ⟨⟨rfl, by decide⟩, ?_, trivial⟩
    intro value hMem
    obtain rfl := List.mem_singleton.mp hMem
    exact ⟨rfl, by decide, by decide⟩
  · rw [EventParam.Decodes, if_pos (by decide)]
    exact ⟨_, rfl, List.length_replicate⟩

/-- `event Moved(Order indexed order)`: two columns, one hash. -/
def movedParams : List EventParam :=
  [⟨"order".toList, .tuple false [("id".toList, .uint 256), ("open".toList, .bool)], true⟩]

def movedLog : List LogParam := [⟨"order".toList, .fixedBytes (List.replicate 32 2) 32⟩]

/-- `event Grouped(uint256[][] groups)`: an array of arrays. -/
def groupedParams : List EventParam := [⟨"groups".toList, .array (.array (.uint 256)), false⟩]

def groupedLog : List LogParam := [⟨"groups".toList, .array [.array [.uint 1 256]]⟩]

end Rindexer.SqlTypes
