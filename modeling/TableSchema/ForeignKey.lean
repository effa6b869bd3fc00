import TableSchema.Identifier

/-!
Foreign keys, as declared and as resolved.

A declared key names classes and fields and may name some that do not exist. A constraint names the
tables and columns that were found, and gets a name made of them.
-/

namespace TableSchema

/-- A foreign key as declared, by class and field names. -/
structure ForeignKey where
  fromTable : String
  fromFields : List String
  toTable : String
  toFields : List String
deriving DecidableEq, Repr

/-- Whether a foreign key has several fields. -/
def ForeignKey.isCompound (key : ForeignKey) : Bool := 1 < key.fromFields.length

/-- A foreign key between columns that exist. The tables are named twice: by class and by table
name. -/
structure Constraint where
  name : String
  fromTable : String
  fromTableName : String
  fromColumns : List String
  toTable : String
  toTableName : String
  toColumns : List String
deriving DecidableEq, Repr

namespace Constraint

/-- The name of a constraint: both table names and the local columns, in capitals, joined by
underscores. -/
def nameOf (fromTableName : String) (fromColumns : List String) (toTableName : String) : String :=
  "FK_" ++ Identifier.upperCase fromTableName ++ "_"
    ++ String.join (fromColumns.map fun column => Identifier.upperCase column ++ "_")
    ++ "TO_" ++ Identifier.upperCase toTableName

/-- Whether a constraint has several columns. -/
def isCompound (c : Constraint) : Bool := 1 < c.fromColumns.length

end Constraint

end TableSchema
