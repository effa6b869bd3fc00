import TableSchema.Definition.SettingLine
import TableSchema.Definition.FieldLine
import TableSchema.Definition.IndexLine
import TableSchema.Definition.ForeignKeyLine

/-!
Reading a definition file.

A draft collects what the entries of a file declare. Headers and comments may stand in front of a
declaration on its line; a comment there documents the table. A file whose class is registered
already is given up at its class line, whatever follows.
-/

namespace TableSchema

/-- What a definition file declares. -/
structure Definition where
  table : Table
  link : Option Link
  foreignKeys : List ForeignKey
deriving DecidableEq, Repr

namespace Definition

/-- What has been read of a definition file. -/
structure Draft where
  current : Option Section
  docs : List String
  table : Option Table
  link : Option Link
  foreignKeys : List ForeignKey
deriving DecidableEq, Repr

/-- The result of reading: what was read, or the table that is registered for the class. -/
inductive Reading (α : Type) where
  | fresh (result : α)
  | registered (table : Table)
deriving DecidableEq, Repr

namespace Draft

/-- Nothing has been read. -/
def start : Draft := ⟨none, [], none, none, []⟩

/-- Reads a class line. -/
def readClass (registered : String → Option Table) (d : Draft) (first : Seen) (e : Entry) :
    Except Refusal (Reading Draft) :=
  if d.table.isSome then .error (first.reject .classRepeated)
  else do
    let (domain, e) ← className e
    match registered domain with
    | some table => return .registered table
    | none =>
      let (table, doc) ← classBody domain e
      return .fresh { d with table := some table, docs := d.docs ++ doc.toList }

/-- Reads a link line. -/
def readLink (d : Draft) (first : Seen) (e : Entry) : Except Refusal Draft :=
  match d.table with
  | none => .error (first.reject .linkBeforeClass)
  | some table =>
    if d.link.isSome then .error (first.reject .linkRepeated)
    else do
      let (link, doc) ← linkBody table.domain e
      return { d with
        table := some { table with manyToMany := true }
        link := some link
        docs := d.docs ++ doc.toList }

/-- Reads a line of the settings section. -/
def readSetting (registered : String → Option Table) (d : Draft) (first : Seen) (e : Entry) :
    Except Refusal (Reading Draft) :=
  if first.token.isKeyword Setting.table.keyword then d.readClass registered first e
  else if first.token.isKeyword Setting.link.keyword then do
    let d ← d.readLink first e
    return .fresh d
  else .error (first.reject .settingExpected)

/-- Reads a line of a section that comes after the class. -/
def readMember (d : Draft) (first : Seen) (read : Table → Except Refusal Draft) :
    Except Refusal (Reading Draft) :=
  match d.table with
  | none => .error (first.reject .classMissingBefore)
  | some table => do
    let d ← read table
    return .fresh d

/-- Reads a declaration, which begins with `first`, in the current section. -/
def readDeclaration (registered : String → Option Table) (d : Draft) (first : Seen) (e : Entry) :
    Except Refusal (Reading Draft) :=
  match d.current with
  | none => .error (first.reject (.headerExpected first.token))
  | some .settings => d.readSetting registered first e
  | some .fields =>
    d.readMember first fun table => do
      let table ← readField table first e
      return { d with table := some table }
  | some .indexes =>
    d.readMember first fun table => do
      let table ← readIndex table first e
      return { d with table := some table }
  | some .foreignKeys =>
    d.readMember first fun table => do
      let key ← readForeignKey table.domain first e
      return { d with foreignKeys := d.foreignKeys ++ [key] }

/-- Reads the tokens of an entry. -/
def readTokens (registered : String → Option Table) (ending : Ending) :
    Draft → List Seen → Except Refusal (Reading Draft)
  | d, [] => do
    let _ ← ending.newLine?
    return .fresh d
  | d, seen :: rest =>
    match seen.token.kind with
    | .comment =>
      readTokens registered ending { d with docs := d.docs ++ [seen.token.commentBody] } rest
    | .header => readTokens registered ending { d with current := seen.token.heading? } rest
    | _ => d.readDeclaration registered seen ⟨rest, ending⟩

/-- Reads entries one after the other. -/
def readEntries (registered : String → Option Table) :
    Draft → List Entry → Except Refusal (Reading Draft)
  | d, [] => .ok (.fresh d)
  | d, e :: entries => do
    match ← readTokens registered e.ending d e.tokens with
    | .registered table => return .registered table
    | .fresh d => readEntries registered d entries

/-- The definition of a file that has been read to its end, which is `place`. -/
def finish (d : Draft) (place : Place) : Except Refusal Definition :=
  match d.table with
  | none => .error (.grammar .classMissing place)
  | some table => .ok ⟨(d.docs.foldl Table.addComment table).setup, d.link, d.foreignKeys⟩

end Draft

/-- The end of an input that gave these events. -/
def endPlace (events : List Event) : Place :=
  match events.getLast? with
  | none => ⟨1, 1, ""⟩
  | some event => ⟨max event.row 1, event.line.length + 1, String.ofList event.line⟩

/-- Reads a definition from the events of its input. -/
def ofEvents (registered : String → Option Table) (events : List Event) :
    Except Refusal (Reading Definition) := do
  match ← Draft.readEntries registered .start (Entry.ofEvents events) with
  | .registered table => return .registered table
  | .fresh d =>
    let definition ← d.finish (endPlace events)
    return .fresh definition

end Definition

end TableSchema
