import TableSchema.Index
import TableSchema.ForeignKey

/-!
Tables of a schema.

A table is known by its class. While its definition is read, columns and indexes are added, and
names that are taken are refused. `setup` then puts the key in front (or adds one) and collects the
fields that can be searched. Afterwards a table only takes the columns of a link and the
constraints that leave it.
-/

namespace TableSchema

/-- A name that a table has already. -/
inductive Clash where
  | field (name domain : String)
  | column (name domain : String)
deriving DecidableEq, Repr

/-- The message of a clash. -/
def Clash.message : Clash → String
  | field name domain => "field '" ++ name ++ "' is declared more than once in '" ++ domain ++ "'"
  | column name domain =>
    "column '" ++ name ++ "' is declared more than once in '" ++ domain ++ "'"

/-- The classes that a link table joins. -/
structure Endpoints where
  one : String
  two : String
deriving DecidableEq, Repr

/-- A table: `domain` is its class, `name` its name in the database. -/
structure Table where
  domain : String
  name : String
  comment : Option String
  columns : List Column
  indexes : List Index
  foreignKeys : List Constraint
  searchFields : List String
  manyToMany : Bool
  endpoints : Option Endpoints
deriving DecidableEq, Repr

namespace Table

/-- A table without columns. -/
def empty (domain name : String) : Table := ⟨domain, name, none, [], [], [], [], false, none⟩

/-- The column of a field. -/
def column? (t : Table) (fieldName : String) : Option Column :=
  t.columns.find? fun c => c.fieldName == fieldName

/-- The column of a name in the database. -/
def columnNamed? (t : Table) (columnName : String) : Option Column :=
  t.columns.find? fun c => c.columnName == columnName

/-- The columns of the key, in order. -/
def keyColumns (t : Table) : List Column := t.columns.filter Column.isKey

/-- The table with one more line of comment. -/
def addComment (t : Table) (line : String) : Table :=
  { t with comment := some (match t.comment with
      | some comment => comment ++ "\n" ++ line
      | none => line) }

/-- The name of a column that the table has already. The field name is looked at first. -/
def clash? (t : Table) (c : Column) : Option Clash :=
  if (t.column? c.fieldName).isSome then some (.field c.fieldName t.domain)
  else if (t.columnNamed? c.columnName).isSome then some (.column c.columnName t.domain)
  else none

/-- The table with a declared column at its end. -/
def addColumn (t : Table) (c : Column) : Except Clash Table :=
  match t.clash? c with
  | some clash => .error clash
  | none => .ok { t with columns := t.columns ++ [c] }

/-- The table with an index at its end, or nothing if an index has its name already. -/
def addIndex? (t : Table) (index : Index) : Option Table :=
  if t.indexes.any fun other => other.name == index.name then none
  else some { t with indexes := t.indexes ++ [index] }

/-- The key of a table that declares none. It takes no number from a sequence if `first`, the first
declared column, takes none. -/
def defaultKey (domain : String) (first : Option Column) : Column where
  storage := .bounded 10
  type := .long
  fieldName := "key"
  columnName := "KEY"
  comment := none
  flags :=
    { Flags.none.setKey with
      sequenceDisabled := (first.map fun c => c.flags.sequenceDisabled).getD false }
  table := domain
  linkGenerated := false

/-- The columns with the first key in front, which is added if there is none. -/
def keyFirst (domain : String) (columns : List Column) : List Column :=
  match columns.findIdx? Column.isKey with
  | some i => (columns[i]?).toList ++ columns.eraseIdx i
  | none => defaultKey domain columns.head? :: columns

/-- The fields that can be searched, in column order. -/
def searchable (columns : List Column) : List String :=
  (columns.filter Column.isSearchable).map Column.fieldName

/-- The table at the end of its definition. A link table gets its keys from the tables that it
joins, so none is put in front there. -/
def setup (t : Table) : Table :=
  let columns := if t.manyToMany then t.columns else keyFirst t.domain t.columns
  { t with columns := columns, searchFields := searchable columns }

/-- The table with a column of a link at its end. -/
def addLinkColumn (t : Table) (c : Column) : Except Clash Table :=
  match t.clash? c with
  | some clash => .error clash
  | none => .ok { t with
      columns := t.columns ++ [c]
      searchFields := if c.isSearchable then t.searchFields ++ [c.fieldName] else t.searchFields }

/-- The table with as many of the columns as fit, and the clash at which it stopped. -/
def addLinkColumns (t : Table) : List Column → Table × Option Clash
  | [] => (t, none)
  | c :: rest =>
    match t.addLinkColumn c with
    | .ok t => t.addLinkColumns rest
    | .error clash => (t, some clash)

/-- The table as the link between two classes. -/
def setEndpoints (t : Table) (one two : String) : Table :=
  { t with endpoints := some ⟨one, two⟩, manyToMany := true }

/-- The table with a constraint that leaves it. -/
def addConstraint (t : Table) (c : Constraint) : Table :=
  { t with foreignKeys := t.foreignKeys ++ [c] }

end Table

/-- The constraint between columns of two tables. -/
def Constraint.between (source : Table) (fromColumns : List String) (target : Table)
    (toColumns : List String) : Constraint where
  name := nameOf source.name fromColumns target.name
  fromTable := source.domain
  fromTableName := source.name
  fromColumns := fromColumns
  toTable := target.domain
  toTableName := target.name
  toColumns := toColumns

end TableSchema
