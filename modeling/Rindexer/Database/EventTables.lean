import Rindexer.Database.Ddl
import Rindexer.Database.TableNames
import Rindexer.Manifest.Contract

/-! The table of an event: a column for each leaf of its parameters, with the type that stores it, and
the columns that are read back from it. -/

namespace Rindexer.Database

open Rindexer.Lib Rindexer.Manifest

/-- A `usize` in decimal. -/
def parseUsize (text : List Char) : Option Nat :=
  let digits := if text.head? = some '+' then text.tail else text
  if digits ≠ [] ∧ digits.all Char.isDigit ∧ Nat.ofDigitChars 10 digits 0 < 2 ^ 64 then
    some (Nat.ofDigitChars 10 digits 0)
  else none

/-- The width of an integer type. -/
def parseSolidityIntegerType (solidityType : List Char) : Option Nat :=
  let baseType := solidityType.takeWhile (· ≠ '[')
  if "int".toList.isPrefixOf baseType then parseUsize (baseType.drop 3)
  else if "uint".toList.isPrefixOf baseType then parseUsize (baseType.drop 4)
  else none

/-- `trim_end_matches("[]")`, on the text read backwards. -/
def trimBrackets : List Char → List Char
  | ']' :: '[' :: rest => trimBrackets rest
  | text => text

/-- The type of the column of a leaf, unless there is none for it. -/
def solidityTypeToDbType (abiType : List Char) : Option String :=
  let isArray := "[]".toList.isSuffixOf abiType
  let baseType := (trimBrackets abiType.reverse).reverse
  if "tuple[".toList.isPrefixOf abiType then some "JSONB"
  else
    let sqlType :=
      if baseType = "address".toList then some "CHAR(42)"
      else if baseType = "bool".toList then some "BOOLEAN"
      else if baseType = "string".toList then some "TEXT"
      else if "bytes".toList.isPrefixOf baseType then some "BYTEA"
      else if "int".toList.isPrefixOf baseType || "uint".toList.isPrefixOf baseType then
        (parseSolidityIntegerType baseType).bind fun size =>
          if size ∈ [8, 16] then some "SMALLINT"
          else if size ∈ [24, 32] then some "INTEGER"
          else if size % 8 = 0 ∧ 40 ≤ size ∧ size ≤ 128 then some "NUMERIC"
          else if size % 8 = 0 ∧ 136 ≤ size ∧ size ≤ 256 then some "VARCHAR(78)"
          else none
      else none
    sqlType.map fun sqlType =>
      if !isArray then sqlType
      else if baseType = "address".toList then "TEXT[]"
      else sqlType ++ "[]"

section Columns

variable (classes : UnicodeClasses)

/-- The column of a leaf: its name after those of the tuples around it. -/
def columnName (path : List (List Char)) (name : List Char) : Option (List Char) :=
  (path.mapM (camelToSnake classes)).bind fun names =>
    (camelToSnake classes name).map fun last =>
      if path = [] then last else joinWith '_' names ++ '_' :: last

mutual

/-- `generate_abi_name_properties`: the columns of a parameter with their types in the ABI. -/
def abiNameProperties (path : List (List Char)) :
    ABIInput → Option (List (List Char × List Char))
  | .mk name type _ (some components) =>
    if "tuple[".toList.isPrefixOf type then
      (columnName classes path name).map fun column => [(column, type)]
    else abiNamePropertiesOf (path ++ [name]) components
  | .mk name type _ none => (columnName classes path name).map fun column => [(column, type)]

def abiNamePropertiesOf (path : List (List Char)) :
    List ABIInput → Option (List (List Char × List Char))
  | [] => some []
  | input :: inputs =>
    (abiNameProperties path input).bind fun columns =>
      (abiNamePropertiesOf path inputs).map fun rest => columns ++ rest

end

def generateColumnsWithDataTypes (inputs : List ABIInput) : Option (List ColumnDdl) :=
  (abiNamePropertiesOf classes [] inputs).bind fun columns =>
    columns.mapM fun column =>
      (solidityTypeToDbType column.2).map fun type => ⟨String.ofList column.1, type, false, none⟩

def generateColumnsNamesOnly (inputs : List ABIInput) : Option (List String) :=
  (abiNamePropertiesOf classes [] inputs).map fun columns =>
    columns.map fun column => String.ofList column.1

def generateColumnNamesOnlyWithBaseProperties (inputs : List ABIInput) : Option (List String) :=
  (generateColumnsNamesOnly classes inputs).map fun names =>
    ["contract_address"] ++ names ++ ["tx_hash", "block_number", "block_timestamp", "block_hash",
      "network", "tx_index", "log_index"]

/-- The definition of the table of an event with these parameters. -/
def eventTableDdl (inputs : List ABIInput) : Option CreateTable :=
  (generateColumnsWithDataTypes classes inputs).map fun columns =>
    { columns := [⟨"rindexer_id", "SERIAL", true, none⟩, ⟨"contract_address", "CHAR(42)", true, none⟩] ++
        columns ++
        [⟨"tx_hash", "CHAR(66)", true, none⟩, ⟨"block_number", "NUMERIC", true, none⟩,
          ⟨"block_timestamp", "TIMESTAMPTZ", false, none⟩, ⟨"block_hash", "CHAR(66)", true, none⟩,
          ⟨"network", "VARCHAR(50)", true, none⟩, ⟨"tx_index", "NUMERIC", true, none⟩,
          ⟨"log_index", "VARCHAR(78)", true, none⟩]
      primaryKey := ["rindexer_id"] }

def generateEventTableFullName (indexerName contractName eventName : List Char) :
    Option TableName :=
  (generateIndexerContractSchemaName classes indexerName contractName).bind fun schema =>
    (camelToSnake classes eventName).map fun event => ⟨schema, event⟩

end Columns

end Rindexer.Database
