import TableSchema.Column

/-!
The type keywords of field lines, and the lengths that they take.
-/

namespace TableSchema.Definition

/-- A type keyword. -/
inductive FieldType where
  | blob
  | boolean
  | date
  | double
  | integer
  | long
  | string
  | timestamp
  | vstring
deriving DecidableEq, Repr

/-- Which length follows a type keyword. -/
inductive LengthRule where
  | forbidden
  | optional
  | required
  | withPrecision
deriving DecidableEq, Repr

namespace FieldType

/-- Every type keyword, by name. -/
def all : List FieldType :=
  [blob, boolean, date, double, integer, long, string, timestamp, vstring]

/-- A type keyword as it is written. -/
def keyword : FieldType → String
  | blob => "BLOB"
  | boolean => "BOOLEAN"
  | date => "DATE"
  | double => "DOUBLE"
  | integer => "INTEGER"
  | long => "LONG"
  | string => "STRING"
  | timestamp => "TIMESTAMP"
  | vstring => "VSTRING"

/-- The type of a keyword written with any case. -/
def ofKeyword? (word : String) : Option FieldType :=
  all.find? fun type => Text.sameLetters type.keyword word

/-- The type of the values. A string with an expression has strings as values. -/
def valueType : FieldType → ValueType
  | blob => .blob
  | boolean => .boolean
  | date => .date
  | double => .double
  | integer => .integer
  | long => .long
  | string | vstring => .string
  | timestamp => .timestamp

/-- The length that a type takes. -/
def lengthRule : FieldType → LengthRule
  | boolean | date => .forbidden
  | blob => .optional
  | double => .withPrecision
  | integer | long | string | timestamp | vstring => .required

theorem mem_all (type : FieldType) : type ∈ all := by cases type <;> decide

theorem ofKeyword?_keyword (type : FieldType) : ofKeyword? type.keyword = some type := by
  cases type <;> decide

end FieldType

end TableSchema.Definition
