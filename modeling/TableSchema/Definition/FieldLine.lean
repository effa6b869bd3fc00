import TableSchema.Definition.Entry

/-!
The lines of the fields section.

A field line is a type with its length, then in any order: flags, a field name that may be followed
by a column name, and comments, of which the last counts.
-/

namespace TableSchema.Definition

/-- Lengths and precisions are below this bound. -/
def lengthBound : Nat := UInt32.size

/-- The number that a text of digits stands for. -/
def decimal (digits : List Char) : Nat :=
  digits.foldl (fun value digit => value * 10 + (digit.toNat - '0'.toNat)) 0

/-- A declared length and precision. -/
structure Length where
  size : Option Nat
  precision : Option Nat
deriving DecidableEq, Repr

/-- No length is declared. -/
def Length.absent : Length := ⟨none, none⟩

/-- Reads a number. What else stands there is answered with `problem`. -/
def readNumber (problem : Problem) (e : Entry) : Except Refusal (Nat × Entry) := do
  let (seen, after) ← e.next
  if seen.token.isNumeric then
    let value := decimal seen.token.text.toList
    if value < lengthBound then return (value, after)
    else .error (seen.reject (.tooLarge seen.token))
  else .error (seen.reject problem)

/-- Reads the precision that may follow a length. -/
def readPrecision (e : Entry) : Except Refusal (Option Nat × Entry) := do
  let (seen, after) ← e.next
  if seen.token.isSpecial ',' then
    let (precision, e) ← readNumber .precisionExpected after
    return (some precision, e)
  else return (none, e)

/-- Reads after an opening parenthesis up to the closing one. -/
def readLength (withPrecision : Bool) (e : Entry) : Except Refusal (Length × Entry) := do
  let (size, e) ← readNumber .lengthExpected e
  let (precision, e) ← if withPrecision then readPrecision e else .ok (none, e)
  let (seen, after) ← e.next
  if seen.token.isSpecial ')' then return (⟨some size, precision⟩, after)
  else .error (seen.reject .closeParenExpected)

/-- Reads the length that a type takes. -/
def readTypeLength (type : FieldType) (e : Entry) : Except Refusal (Length × Entry) := do
  let (seen, after) ← e.next
  let opened := seen.token.isSpecial '('
  match type.lengthRule with
  | .forbidden =>
    if opened then .error (seen.reject (.lengthForbidden type)) else return (.absent, e)
  | .optional => if opened then readLength false after else return (.absent, e)
  | .required =>
    if opened then readLength false after else .error (seen.reject .openParenExpected)
  | .withPrecision =>
    if opened then readLength true after else .error (seen.reject .openParenExpected)

/-- The parts of a field line after its length. -/
structure FieldParts where
  flags : Flags
  name : Option Token
  columnName : Option String
  comment : Option String
deriving DecidableEq, Repr

namespace FieldParts

/-- Nothing has been read. -/
def start : FieldParts := ⟨.none, none, none, none⟩

/-- The parts after one more token. -/
def add (parts : FieldParts) (seen : Seen) : Except Refusal FieldParts :=
  match seen.token.kind with
  | .special =>
    match seen.token.special?.bind parts.flags.mark? with
    | some flags => .ok { parts with flags := flags }
    | none => .error (seen.reject (.flagExpected seen.token))
  | .comment => .ok { parts with comment := some seen.token.commentBody }
  | .word =>
    match parts.name, parts.columnName with
    | none, _ => .ok { parts with name := some seen.token }
    | some _, none => .ok { parts with columnName := some seen.token.text }
    | some _, some _ => .error (seen.reject .nameUnexpected)
  | _ => .error (seen.reject (.fieldPartUnexpected seen.token))

end FieldParts

/-- The storage of a type with its length, and the comment that is left. A string that is computed
takes its expression from the comment and has no storage without one. -/
def FieldType.storage? (type : FieldType) (length : Length) (comment : Option String) :
    Option (Storage × Option String) :=
  match type with
  | date => some (.plain, comment)
  | boolean => some (.bounded 1, comment)
  | blob => some (.blob length.size, comment)
  | double => some (.decimal (length.size.getD 0) length.precision, comment)
  | vstring =>
    match comment with
    | none => none
    | some expression =>
      if expression = "" then none
      else some (.computed (length.size.getD 0) expression, none)
  | integer | long | string | timestamp => some (.bounded (length.size.getD 0), comment)

/-- Reads a field line of `t`, whose first token is `first`, and adds its column. -/
def readField (t : Table) (first : Seen) (e : Entry) : Except Refusal Table :=
  if first.token.isWord then
    match FieldType.ofKeyword? first.token.text with
    | none => .error (first.reject .typeUnknown)
    | some type => do
      let (length, e) ← readTypeLength type e
      let parts ← e.tokens.foldlM FieldParts.add .start
      let mark ← e.ending.newLine?
      match parts.name with
      | none => .error (mark.reject .fieldNameExpected)
      | some name =>
        match type.storage? length parts.comment with
        | none => .error (mark.refuse name .expressionExpected)
        | some (storage, comment) =>
          let column : Column :=
            { storage := storage
              type := type.valueType
              fieldName := name.text
              columnName := parts.columnName.getD (Identifier.capsCase name.text)
              comment := comment
              flags := parts.flags
              table := t.domain
              linkGenerated := false }
          match t.addColumn column with
          | .ok t => .ok t
          | .error clash => .error (mark.refuse name (.taken clash))
  else .error (first.reject .typeExpected)

end TableSchema.Definition
