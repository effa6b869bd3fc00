import TableSchema.Table
import TableSchema.Diagnostic

/-!
What can be wrong between tables, and the messages about it.
-/

namespace TableSchema

/-- A link or a foreign key that does not fit the tables of the registry. -/
inductive Dangling where
  | linkTableMissing (table : String)
  | linkTableKeyed (table : String)
  | endpointMissing (domain : String)
  | endpointKeyless (domain table : String)
  | linkClash (table : String) (clash : Clash)
  | tableMissing (fromTable toTable : String)
  | fieldMissing (field domain : String)
  | arity (fromTable toTable : String) (localCount foreignCount : Nat)
deriving DecidableEq, Repr

namespace Dangling

/-- The message of a reference that does not fit. -/
def message : Dangling → String
  | linkTableMissing table => "link table '" ++ table ++ "' does not exist"
  | linkTableKeyed table =>
    "link table '" ++ table ++ "' declares key columns; no primary keys allowed when linking"
  | endpointMissing domain => "linked table '" ++ domain ++ "' does not exist"
  | endpointKeyless domain table =>
    "linked table '" ++ domain ++ "' has no key columns to link '" ++ table ++ "' with"
  | linkClash table clash =>
    "link table '" ++ table ++ "' cannot take its generated columns: " ++ clash.message
  | tableMissing fromTable toTable =>
    "foreign key from '" ++ fromTable ++ "' to '" ++ toTable ++
      "' names a table that does not exist"
  | fieldMissing field domain =>
    "field '" ++ field ++ "' does not exist in table '" ++ domain ++ "'"
  | arity fromTable toTable localCount foreignCount =>
    "foreign key from '" ++ fromTable ++ "' to '" ++ toTable ++ "' has " ++ toString localCount ++
      " local and " ++ toString foreignCount ++ " foreign fields"

/-- The diagnostic of a reference that does not fit. It has no place in a file. -/
def diagnostic (d : Dangling) : Diagnostic := ⟨.reference, d.message, none⟩

end Dangling

end TableSchema
