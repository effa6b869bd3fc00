import TableSchema.Column

/-!
Indexes of a table.
-/

namespace TableSchema

/-- A column as an index lists it, by both of its names. -/
structure IndexedColumn where
  fieldName : String
  columnName : String
deriving DecidableEq, Repr

/-- A named index over some columns of one table. -/
structure Index where
  name : String
  columns : List IndexedColumn
deriving DecidableEq, Repr

namespace Index

/-- An index without columns. -/
def empty (name : String) : Index := ⟨name, []⟩

/-- The index with one more column at its end. -/
def push (index : Index) (column : Column) : Index :=
  { index with columns := index.columns ++ [⟨column.fieldName, column.columnName⟩] }

/-- The column names, in order. -/
def columnNames (index : Index) : List String := index.columns.map IndexedColumn.columnName

/-- The name of an index with its column names in parentheses. -/
def display (index : Index) : String :=
  index.name ++ " (" ++ ", ".intercalate index.columnNames ++ ")"

@[simp] theorem columnNames_empty (name : String) : (empty name).columnNames = [] := rfl

@[simp] theorem columnNames_push (index : Index) (column : Column) :
    (index.push column).columnNames = index.columnNames ++ [column.columnName] := by
  simp [push, columnNames]

end Index

end TableSchema
