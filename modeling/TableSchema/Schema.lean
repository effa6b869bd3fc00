import TableSchema.Registry.Materialize

/-!
The schema that a run ends in.

All links are built first, because they declare foreign keys of their own. Then every foreign key is
resolved before any constraint is attached to its table, so that a failing run has no result.
-/

namespace TableSchema

/-- The tables of a run with the constraints that leave them, all constraints, and the links. -/
structure Schema where
  tables : List Table
  constraints : List Constraint
  links : List Link
deriving DecidableEq, Repr

namespace Schema

/-- The table of a class. -/
def table? (s : Schema) (domain : String) : Option Table :=
  s.tables.find? fun t => t.domain == domain

/-- The tables that join two others. -/
def linkTables (s : Schema) : List Table := s.tables.filter fun t => t.endpoints.isSome

end Schema

namespace Registry

/-- The registry with a constraint attached to the table that it leaves. -/
def attach (r : Registry) (c : Constraint) : Registry :=
  r.modify c.fromTable fun t => t.addConstraint c

/-- The schema of a registry. -/
def finish (r : Registry) : Except Dangling Schema := do
  let built ← r.materializeAll (Link.buildOrder r.links)
  let constraints ← built.resolveAll built.foreignKeys
  return ⟨(constraints.foldl attach built).tables, constraints, r.links⟩

end Registry

end TableSchema
