import TableSchema.Definition.Entry

/-!
The lines of the indexes section.

An index line is the name of the index and then the names of declared fields, with comments between
them.
-/

namespace TableSchema.Definition

/-- The index after one more token of its line. -/
def addIndexed (t : Table) (index : Index) (seen : Seen) : Except Refusal Index :=
  match seen.token.kind with
  | .comment => .ok index
  | .word =>
    match t.column? seen.token.text with
    | some column => .ok (index.push column)
    | none =>
      .error (.undeclared index.name seen.token.text t.domain (seen.placeOf seen.token))
  | _ => .error (seen.reject .indexFieldExpected)

/-- Reads an index line of `t`, whose first token is `first`, and adds the index. -/
def readIndex (t : Table) (first : Seen) (e : Entry) : Except Refusal Table :=
  if first.token.isWord then do
    let index ← e.tokens.foldlM (addIndexed t) (Index.empty first.token.text)
    let mark ← e.ending.newLine?
    if index.columns.isEmpty then .error (mark.reject (.indexEmpty index.name))
    else
      match t.addIndex? index with
      | some t => .ok t
      | none => .error (mark.refuse first.token (.indexRepeated index.name t.domain))
  else .error (first.reject .indexNameExpected)

end TableSchema.Definition
