import TableSchema.Registry.Resolve
import TableSchema.Link

/-!
Building a link.

The link table takes a copy of every key column of the two tables that it joins, and a foreign key
leads from the copies of each table back to it. The name of a copy begins with the name of the
table, and for the second side of a link of a table with itself a further word stands before it.
All that can be wrong but the names is found before a column is added; a clash of names leaves the
columns that were added before it.
-/

namespace TableSchema

/-- The key columns of `t` as columns of the link table `link`, with what their names begin with. -/
def Table.keyClones (t : Table) (link front : String) : List Column :=
  t.keyColumns.map fun key => key.linkClone link (front ++ t.name ++ "_" ++ key.columnName)

/-- What the second side of a link puts in front of its names. -/
def Link.secondFront (l : Link) : String := if l.isSelfLink then "OTHER_" else ""

/-- The foreign key from the copies of keys in the link table back to the keys of `t`, the table of
`domain`. -/
def Link.keyTo (l : Link) (domain : String) (t : Table) (clones : List Column) : ForeignKey :=
  ⟨l.table, clones.map Column.fieldName, domain, t.keyColumns.map Column.fieldName⟩

/-- The tables that a link is about: the one that takes the columns, and the two that it joins. -/
structure LinkTables where
  joint : Table
  one : Table
  two : Table
deriving DecidableEq, Repr

namespace Registry

/-- The table `domain`, which is to be joined by the table `link`, if it has a key. -/
def keyed (r : Registry) (link domain : String) : Except Dangling Table :=
  match r.find? domain with
  | none => .error (.endpointMissing domain)
  | some t => if t.keyColumns.isEmpty then .error (.endpointKeyless domain link) else .ok t

/-- The tables of a link, if it can be built but for the names. -/
def linkTables (r : Registry) (l : Link) : Except Dangling LinkTables :=
  match r.find? l.table with
  | none => .error (.linkTableMissing l.table)
  | some joint =>
    if joint.keyColumns.isEmpty then do
      let one ← r.keyed l.table l.one
      let two ← r.keyed l.table l.two
      return ⟨joint, one, two⟩
    else .error (.linkTableKeyed l.table)

/-- Builds a link. The registry comes with the thing that went wrong, if something did. -/
def materialize (r : Registry) (l : Link) : Registry × Option Dangling :=
  match r.linkTables l with
  | .error dangling => (r, some dangling)
  | .ok ⟨joint, one, two⟩ =>
    let ones := one.keyClones l.table ""
    let twos := two.keyClones l.table l.secondFront
    match joint.addLinkColumns (ones ++ twos) with
    | (joint, some clash) => (r.modify l.table fun _ => joint, some (.linkClash l.table clash))
    | (joint, none) =>
      let linked := r.modify l.table fun _ => joint.setEndpoints l.one l.two
      ({ linked with foreignKeys :=
          r.foreignKeys ++ [l.keyTo l.one one ones, l.keyTo l.two two twos] }, none)

/-- Builds links one after the other, up to the first that fails. -/
def materializeAll (r : Registry) : List Link → Except Dangling Registry
  | [] => .ok r
  | l :: links =>
    match r.materialize l with
    | (_, some dangling) => .error dangling
    | (r, none) => r.materializeAll links

end Registry

end TableSchema
