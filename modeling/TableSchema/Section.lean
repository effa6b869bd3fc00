import TableSchema.Text.CaseMap

/-!
The four sections of a definition file.
-/

namespace TableSchema

/-- A part of a definition file, opened by its name in brackets. -/
inductive Section where
  | settings
  | fields
  | indexes
  | foreignKeys
deriving DecidableEq, Repr

namespace Section

/-- The name that stands in the brackets. -/
def name : Section → String
  | settings => "Settings"
  | fields => "Fields"
  | indexes => "Indexes"
  | foreignKeys => "ForeignKeys"

/-- Every section, in the order of a file. -/
def all : List Section := [settings, fields, indexes, foreignKeys]

/-- The section of a name written with any case. -/
def ofName? (name : String) : Option Section :=
  all.find? fun part => Text.sameLetters part.name name

theorem mem_all (part : Section) : part ∈ all := by cases part <;> decide

theorem ofName?_name (part : Section) : ofName? part.name = some part := by
  cases part <;> decide

end Section

end TableSchema
