import TableSchema.Registry.Basic
import TableSchema.Registry.Dangling

/-!
Resolving foreign keys against the tables of a registry.
-/

namespace TableSchema

/-- The column names of some fields of a table, or the first field that does not exist. -/
def Table.columnNames (t : Table) : List String → Except Dangling (List String)
  | [] => .ok []
  | field :: fields =>
    match t.column? field with
    | none => .error (.fieldMissing field t.domain)
    | some column => do
      let names ← t.columnNames fields
      return column.columnName :: names

namespace Registry

/-- The constraint that a foreign key stands for. The local fields are looked up before the foreign
ones, and the lists are compared last. -/
def resolve (r : Registry) (key : ForeignKey) : Except Dangling Constraint :=
  match r.find? key.fromTable, r.find? key.toTable with
  | some source, some target => do
    let fromColumns ← source.columnNames key.fromFields
    let toColumns ← target.columnNames key.toFields
    if fromColumns.length = toColumns.length then
      return .between source fromColumns target toColumns
    else
      .error (.arity key.fromTable key.toTable fromColumns.length toColumns.length)
  | _, _ => .error (.tableMissing key.fromTable key.toTable)

/-- The constraints of all foreign keys, or the first thing that is wrong with one. -/
def resolveAll (r : Registry) : List ForeignKey → Except Dangling (List Constraint)
  | [] => .ok []
  | key :: keys => do
    let constraint ← r.resolve key
    let constraints ← r.resolveAll keys
    return constraint :: constraints

end Registry

end TableSchema
