/-!
The values of a TOML document.

Numbers, truth values, dates and times are all one kind of value here: whoever reads a document asks
only whether a value is a text, a list or a table.

A table remembers how it came about, because that decides what may be added to it later: a table in
braces is closed, a table made by a dotted key takes further dotted keys, a table that is only part
of the way to another may still get a header of its own.
-/

namespace TableSchema.Toml

/-- How a table came about. -/
inductive Origin where
  | inline
  | dotted
  | passed
  | header
deriving DecidableEq, Repr

/-- A value of a document. The tables of `tables` come from headers in double brackets. -/
inductive Value where
  | text (value : String)
  | scalar
  | array (items : List Value)
  | tables (items : List (List (String × Value)))
  | table (origin : Origin) (members : List (String × Value))

/-- The members of a table, in order. -/
abbrev Members := List (String × Value)

namespace Members

/-- The members with the value of `key` changed, which is added if there is none. -/
def update (key : String) (change : Option Value → Option Value) : Members → Option Members
  | [] => (change none).map fun value => [(key, value)]
  | (name, value) :: rest =>
    if name = key then (change (some value)).map fun value => (name, value) :: rest
    else (update key change rest).map ((name, value) :: ·)

/-- The members with a value at the end of a dotted key. Every key but the last names a table that
dotted keys have made, and the last is new. -/
def insert : List String → Value → Members → Option Members
  | [], _, _ => none
  | [key], value, members =>
    update key (fun
      | none => some value
      | some _ => none) members
  | key :: keys, value, members =>
    update key (fun
      | none => (insert keys value []).map (Value.table .dotted)
      | some (.table .dotted inner) => (insert keys value inner).map (Value.table .dotted)
      | some _ => none) members

/-- Changes the table that a header names, making the tables on the way. -/
def descend (change : Members → Option Members) : List String → Members → Option Members
  | [], members => change members
  | key :: keys, members =>
    update key (fun
      | none => (descend change keys []).map (Value.table .passed)
      | some (.table .inline _) => none
      | some (.table origin inner) => (descend change keys inner).map (Value.table origin)
      | some (.tables items) =>
        match items.reverse with
        | [] => none
        | last :: front =>
          (descend change keys last).map fun last => .tables (last :: front).reverse
      | some _ => none) members

/-- Opens the table of a header. -/
def openTable (path : List String) (key : String) (members : Members) : Option Members :=
  descend (update key fun
    | none => some (.table .header [])
    | some (.table .passed inner) => some (.table .header inner)
    | some _ => none) path members

/-- Opens one more table of a header in double brackets. -/
def openItem (path : List String) (key : String) (members : Members) : Option Members :=
  descend (update key fun
    | none => some (.tables [[]])
    | some (.tables items) => some (.tables (items ++ [[]]))
    | some _ => none) path members

end Members

end TableSchema.Toml
