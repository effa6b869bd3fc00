import TableSchema.Definition.Draft

/-!
The registry of a run: every table read so far, and the foreign keys and links that were declared.

Tables keep the order in which they were registered, and an index leads from the name of a class to
the position of its table. The first table of a class stays; a further one is not registered.
-/

namespace TableSchema

/-- The tables of a run by class, in order of registration, and what they declare. The newest entry
of the index comes first. -/
structure Registry where
  tables : List Table
  positions : List (String × Nat)
  foreignKeys : List ForeignKey
  links : List Link
deriving DecidableEq, Repr

namespace Registry

/-- A registry without tables. -/
def empty : Registry := ⟨[], [], [], []⟩

/-- The position of the table of a class. -/
def position? (r : Registry) (domain : String) : Option Nat := r.positions.lookup domain

/-- The table of a class. -/
def find? (r : Registry) (domain : String) : Option Table :=
  (r.position? domain).bind fun i => r.tables[i]?

/-- Whether a class is registered. -/
def contains (r : Registry) (domain : String) : Bool := (r.position? domain).isSome

/-- The registry with the table of a class replaced. -/
def modify (r : Registry) (domain : String) (change : Table → Table) : Registry :=
  match r.position? domain with
  | none => r
  | some i => { r with tables := r.tables.modify i change }

/-- The registry with a table at its end, unless its class is registered already. -/
def register (r : Registry) (t : Table) : Registry :=
  if r.contains t.domain then r
  else { r with
    tables := r.tables ++ [t]
    positions := (t.domain, r.tables.length) :: r.positions }

/-- The registry with everything that a file declares. -/
def add (r : Registry) (definition : Definition) : Registry :=
  { r with
    links := r.links ++ definition.link.toList
    foreignKeys := r.foreignKeys ++ definition.foreignKeys }.register definition.table

/-- Reads a definition. A class that is registered already gives its table and changes nothing; a
refused definition gives no registry at all, so the one before it stays. -/
def read (r : Registry) (s : Scanner) : Except Definition.Refusal (Table × Registry) := do
  match ← Definition.ofEvents r.find? s.events with
  | .registered table => return (table, r)
  | .fresh definition => return (definition.table, r.add definition)

@[simp] theorem position?_empty (domain : String) : empty.position? domain = none := rfl

@[simp] theorem find?_empty (domain : String) : empty.find? domain = none := rfl

@[simp] theorem position?_modify (r : Registry) (domain other : String) (change : Table → Table) :
    (r.modify domain change).position? other = r.position? other := by
  unfold modify
  split <;> rfl

end Registry

end TableSchema
