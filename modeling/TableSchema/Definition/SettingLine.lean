import TableSchema.Definition.Entry
import TableSchema.Link

/-!
The lines of the settings section.

A class line names the class and may name the table; a link line names the two classes that the
table joins. Either may end with a comment, which documents the table.
-/

namespace TableSchema.Definition

/-- Reads the end of a settings line, and gives the comment in front of it. -/
def endSetting (setting : Setting) (e : Entry) : Except Refusal (Option String) := do
  let (seen, after) ← e.next
  if seen.token.isComment then
    let (last, _) ← after.next
    if last.token.kind = .newLine then return some seen.token.commentBody
    else .error (last.reject (.afterSetting setting last.token))
  else if seen.token.kind = .newLine then return none
  else .error (seen.reject (.afterSetting setting seen.token))

/-- Reads the name of a class, as it is written. -/
def className (e : Entry) : Except Refusal (String × Entry) := do
  let (seen, after) ← e.next
  if seen.token.isWord then return (Identifier.titleCase seen.token.text, after)
  else .error (seen.reject (.classNameExpected seen.token))

/-- Reads the table name that may follow the class `domain`. Without one the class gives the name.
-/
def tableName (domain : String) (e : Entry) : Except Refusal (String × Entry) := do
  let (seen, after) ← e.next
  if seen.token.isWord then return (seen.token.text, after)
  else return (Identifier.capsCase domain, e)

/-- Reads what follows the class `domain` on its line: an empty table, and the comment. -/
def classBody (domain : String) (e : Entry) : Except Refusal (Table × Option String) := do
  let (name, e) ← tableName domain e
  let doc ← endSetting .table e
  return (Table.empty domain name, doc)

/-- Reads one of the two class names of a link line. -/
def linkedName (side : Side) (e : Entry) : Except Refusal (String × Entry) := do
  let (seen, after) ← e.next
  if seen.token.isWord then return (Identifier.titleCase seen.token.text, after)
  else .error (seen.reject (.linkedNameExpected side seen.token))

/-- Reads what follows the keyword of a link line of the table `domain`. -/
def linkBody (domain : String) (e : Entry) : Except Refusal (Link × Option String) := do
  let (one, e) ← linkedName .first e
  let (two, e) ← linkedName .second e
  let doc ← endSetting .link e
  return (⟨domain, one, two⟩, doc)

end TableSchema.Definition
