import TableSchema.Toml.Value
import TableSchema.Toml.Scalar
import TableSchema.Toml.Quoted

/-!
Reading a TOML document: keys, values, and lines.

Nothing is told about a text that is no document. Readers give what they read and the text after it.
A value may hold others, so readers of values count their steps; the length of the text is enough.
They also count how deep values lie in one another, because a document has a limit there.
-/

namespace TableSchema.Toml

/-- The most parts of a key, and the most lists and tables that may lie in one another. -/
def deepest : Nat := 80

/-- The text after a comment, if one is there. A comment ends with its line. -/
def skipComment : List Char → List Char
  | '#' :: rest => rest.dropWhile isPlain
  | cs => cs

/-- The text after blanks, comments and ends of lines, from within a comment or from outside. -/
def skipFrom : Bool → List Char → List Char
  | _, [] => []
  | _, '\r' :: '\n' :: rest => skipFrom false rest
  | inComment, c :: rest =>
    if c == '\n' then skipFrom false rest
    else if isSpace c || (inComment && isPlain c) then skipFrom inComment rest
    else if c == '#' then skipFrom true rest
    else c :: rest

/-- The text after everything that may stand between the items of a list. -/
def skipGap (cs : List Char) : List Char := skipFrom false cs

/-- Reads one part of a key. -/
def readKeyPart (cs : List Char) : Option (String × List Char) :=
  match cs.takeWhile isBare with
  | [] => (Quoted.readShort cs).map fun (name, rest) => (String.ofList name, rest)
  | name => some (String.ofList name, cs.dropWhile isBare)

/-- Reads a key of at most so many parts, with dots between them. -/
def readKeyParts : Nat → List Char → Option (List String × List Char)
  | 0, _ => none
  | parts + 1, cs =>
    match readKeyPart (skipSpace cs) with
    | none => none
    | some (name, rest) =>
      match skipSpace rest with
      | '.' :: rest => (readKeyParts parts rest).map fun (names, rest) => (name :: names, rest)
      | rest => some ([name], rest)

/-- Reads a key, and the blanks around it. -/
def readKey (cs : List Char) : Option (List String × List Char) := readKeyParts deepest cs

mutual

/-- Reads a value, in which at most so many may lie in one another. -/
def readValue : Nat → Nat → List Char → Option (Value × List Char)
  | 0, _, _ => none
  | steps + 1, levels, cs =>
    match cs, levels with
    | '[' :: rest, levels + 1 =>
      (readItems steps levels rest).map fun (items, rest) => (.array items, rest)
    | '{' :: rest, levels + 1 =>
      (readMembers steps levels [] rest).map fun (members, rest) => (.table .inline members, rest)
    | '"' :: _, _ => (Quoted.read cs).map fun (text, rest) => (.text (String.ofList text), rest)
    | '\x27' :: _, _ => (Quoted.read cs).map fun (text, rest) => (.text (String.ofList text), rest)
    | _, _ => (Scalar.read cs).map fun rest => (.scalar, rest)

/-- Reads the items of a list up to its closing bracket. The last may have a comma behind it. -/
def readItems : Nat → Nat → List Char → Option (List Value × List Char)
  | 0, _, _ => none
  | steps + 1, levels, cs =>
    match skipGap cs with
    | ']' :: rest => some ([], rest)
    | cs =>
      match readValue steps levels cs with
      | none => none
      | some (value, rest) =>
        match skipGap rest with
        | ',' :: rest =>
          (readItems steps levels rest).map fun (items, rest) => (value :: items, rest)
        | ']' :: rest => some ([value], rest)
        | _ => none

/-- Reads the members of a table in braces, which go behind `members`. Lines may end everywhere but
within a key. -/
def readMembers : Nat → Nat → Members → List Char → Option (Members × List Char)
  | 0, _, _, _ => none
  | steps + 1, levels, members, cs =>
    match skipGap cs with
    | '}' :: rest => some (members, rest)
    | cs =>
      match readMember steps levels cs with
      | none => none
      | some ((key, value), rest) =>
        match Members.insert key value members, skipGap rest with
        | some members, ',' :: rest => readMembers steps levels members rest
        | some members, '}' :: rest => some (members, rest)
        | _, _ => none

/-- Reads one member of a table in braces. -/
def readMember : Nat → Nat → List Char → Option ((List String × Value) × List Char)
  | 0, _, _ => none
  | steps + 1, levels, cs =>
    match readKey cs with
    | none => none
    | some (key, rest) =>
      match skipGap rest with
      | '=' :: rest =>
        (readValue steps levels (skipGap rest)).map fun (value, rest) => ((key, value), rest)
      | _ => none

end

/-- The part of a document that has been read: its members, and the table that a header opened
last. -/
structure Reading where
  root : Members
  current : List String

/-- Reads a header whose first bracket comes first. -/
def readHeader (r : Reading) (cs : List Char) : Option (Reading × List Char) :=
  match cs with
  | '[' :: '[' :: rest =>
    match readKey rest with
    | some (path, ']' :: ']' :: rest) =>
      path.getLast?.bind fun key =>
        (Members.openItem path.dropLast key r.root).map fun root => (⟨root, path⟩, rest)
    | _ => none
  | '[' :: rest =>
    match readKey rest with
    | some (path, ']' :: rest) =>
      path.getLast?.bind fun key =>
        (Members.openTable path.dropLast key r.root).map fun root => (⟨root, path⟩, rest)
    | _ => none
  | _ => none

/-- Reads a key with its value into the current table. -/
def readEntry (r : Reading) (cs : List Char) : Option (Reading × List Char) :=
  match readKey cs with
  | some (key, '=' :: rest) =>
    match readValue (2 * cs.length + 2) deepest (skipSpace rest) with
    | none => none
    | some (value, rest) =>
      (Members.descend (Members.insert key value) r.current r.root).map fun root =>
        ({ r with root := root }, rest)
  | _ => none

/-- Reads at most so many lines. -/
def readLines : Nat → Reading → List Char → Option Members
  | 0, _, _ => none
  | lines + 1, r, cs =>
    match skipSpace cs with
    | [] => some r.root
    | c :: cs =>
      let declared :=
        if c == '[' then readHeader r (c :: cs)
        else if c == '#' || c == '\n' || c == '\r' then some (r, c :: cs)
        else readEntry r (c :: cs)
      match declared with
      | none => none
      | some (r, rest) =>
        match skipComment (skipSpace rest) with
        | [] => some r.root
        | rest =>
          match newLine? rest with
          | none => none
          | some rest => readLines lines r rest

/-- The members of a document. A byte order mark at its start is no part of it. -/
def read? (text : String) : Option Members :=
  let cs := match text.toList with
    | c :: rest => if c.toNat = 0xFEFF then rest else c :: rest
    | [] => []
  readLines (cs.length + 1) ⟨[], []⟩ cs

end TableSchema.Toml
