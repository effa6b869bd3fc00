import TableSchema.Definition.Entry

/-!
The lines of the foreign keys section.

A foreign key line is a list of local fields, the keyword, and a list of foreign fields. Each
foreign field is written behind the class that it belongs to and a dot, and all of them belong to
one class. Whether the fields exist is not looked at here.
-/

namespace TableSchema.Definition

/-- The parts of a text before and after its first dot, if both have characters. -/
def splitAtDot (cs : List Char) : Option (List Char × List Char) :=
  let front := cs.takeWhile (· != '.')
  match front, cs.drop (front.length + 1) with
  | [], _ => none
  | _, [] => none
  | table, field => some (table, field)

/-- The class and the field that a word names. -/
def foreignField? (token : Token) : Option (String × String) :=
  if token.isWord then
    (splitAtDot token.text.toList).map fun (table, field) =>
      (Identifier.titleCase (String.ofList table), String.ofList field)
  else none

/-- Reads the local fields up to the keyword: the fields, the keyword, and the tokens after it. -/
def readLocalFields (ending : Ending) :
    List Seen → Except Refusal (List String × Seen × List Seen)
  | [] => do
    let mark ← ending.newLine?
    .error (mark.reject .constrainsToExpected)
  | seen :: rest =>
    if seen.token.isKeyword constrainsTo then .ok ([], seen, rest)
    else if seen.token.isWord then do
      let (fields, keyword, rest) ← readLocalFields ending rest
      return (seen.token.text :: fields, keyword, rest)
    else .error (seen.reject .localFieldExpected)

/-- The foreign fields of a line, and the class that they belong to. -/
structure ForeignFields where
  table : Option String
  fields : List String
deriving DecidableEq, Repr

namespace ForeignFields

/-- Nothing has been read. -/
def start : ForeignFields := ⟨none, []⟩

/-- The foreign fields after one more token. -/
def add (foreign : ForeignFields) (seen : Seen) : Except Refusal ForeignFields :=
  if seen.token.isComment then .ok foreign
  else
    match foreignField? seen.token, foreign.table with
    | none, _ => .error (seen.reject (.foreignFieldExpected seen.token))
    | some (table, field), none => .ok ⟨some table, [field]⟩
    | some (table, field), some expected =>
      if expected = table then .ok ⟨some expected, foreign.fields ++ [field]⟩
      else .error (seen.reject (.foreignTableDiffers expected))

end ForeignFields

/-- Reads a foreign key line of the table `domain`, whose first token is `first`. -/
def readForeignKey (domain : String) (first : Seen) (e : Entry) : Except Refusal ForeignKey := do
  let (localFields, keyword, rest) ← readLocalFields e.ending (first :: e.tokens)
  if localFields.isEmpty then .error (keyword.reject .localFieldMissing)
  else
    let foreign ← rest.foldlM ForeignFields.add .start
    let mark ← e.ending.newLine?
    match foreign.table with
    | none => .error (mark.reject .foreignFieldMissing)
    | some table => .ok ⟨domain, localFields, table, foreign.fields⟩

end TableSchema.Definition
