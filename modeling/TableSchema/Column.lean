import TableSchema.Identifier

/-!
Columns of a table.

A column has a field name (how programs call it) and a column name (how the database calls it).
Flags are set by characters; a key is always required (`Flags.required_of_mark?_eq_some`). A link
table takes over the keys of the tables that it joins as copies of its own (`linkClone`).
-/

namespace TableSchema

/-- What the values of a column are. -/
inductive ValueType where
  | blob
  | boolean
  | date
  | double
  | integer
  | long
  | string
  | timestamp
deriving DecidableEq, Repr

/-- The name of a value type. -/
def ValueType.name : ValueType → String
  | blob => "Blob"
  | boolean => "Boolean"
  | date => "Date"
  | double => "Double"
  | integer => "Integer"
  | long => "Long"
  | string => "String"
  | timestamp => "Timestamp"

/-- How the values of a column are stored, with the declared lengths. -/
inductive Storage where
  | plain
  | bounded (length : Nat)
  | decimal (length : Nat) (precision : Option Nat)
  | blob (length : Option Nat)
  | computed (length : Nat) (expression : String)
deriving DecidableEq, Repr

namespace Storage

/-- The declared length. -/
def length? : Storage → Option Nat
  | plain => none
  | bounded length => some length
  | decimal length _ => some length
  | blob length => length
  | computed length _ => some length

/-- The declared precision. -/
def precision? : Storage → Option Nat
  | decimal _ precision => precision
  | _ => none

end Storage

/-- The marks of a column. -/
structure Flags where
  required : Bool
  key : Bool
  sequenceDisabled : Bool
  searchable : Bool
  systemTimestamp : Bool
deriving DecidableEq, Repr

namespace Flags

/-- No mark is set. -/
def none : Flags := ⟨false, false, false, false, false⟩

/-- The marks of a key, which is always required. -/
def setKey (flags : Flags) : Flags := { flags with key := true, required := true }

/-- The marks after a flag character, or nothing if the character is no flag. -/
def mark? (flags : Flags) : Char → Option Flags
  | '!' => some flags.setKey
  | '*' => some { flags with required := true }
  | '-' => some { flags with sequenceDisabled := true }
  | '?' => some { flags with searchable := true }
  | '^' => some { flags with systemTimestamp := true }
  | _ => Option.none

/-- No character makes a key that is not required. -/
theorem required_of_mark?_eq_some {flags after : Flags} {c : Char}
    (sound : flags.key = true → flags.required = true) (h : flags.mark? c = some after)
    (key : after.key = true) : after.required = true := by
  unfold mark? at h
  split at h <;> cases h <;> simp_all [setKey]

end Flags

/-- A column of the table `table`, which is named by its class. -/
structure Column where
  storage : Storage
  type : ValueType
  fieldName : String
  columnName : String
  comment : Option String
  flags : Flags
  table : String
  linkGenerated : Bool
deriving DecidableEq, Repr

namespace Column

/-- Whether a column is part of the key. -/
def isKey (c : Column) : Bool := c.flags.key

/-- Whether a column is looked through by a search. -/
def isSearchable (c : Column) : Bool := c.flags.searchable

/-- A copy of a column for the link table `table`, under a new column name. The field name follows
from the column name. -/
def linkClone (c : Column) (table columnName : String) : Column :=
  { c with
    fieldName := Identifier.camelCase columnName
    columnName := columnName
    table := table
    linkGenerated := true }

end Column

end TableSchema
