import TableSchema.Toml.Character

/-!
Quoted texts of TOML: with and without escapes, on one line and on several.
-/

namespace TableSchema.Toml.Quoted

/-- The value of a hexadecimal digit. -/
def hexValue (c : Char) : Nat :=
  if c.isDigit then c.toNat - 48
  else if 'a' ≤ c then c.toNat - 87
  else c.toNat - 55

/-- The character of a code in hexadecimal digits, if it is one. -/
def ofHex? (digits : List Char) : Option Char :=
  if digits.all isHexDigit then
    let code := digits.foldl (fun value digit => value * 16 + hexValue digit) 0
    if code.isValidChar then some (Char.ofNat code) else none
  else none

/-- The character of a code of `count` digits, and the text after it. -/
def readCode (count : Nat) (cs : List Char) : Option (Char × List Char) :=
  if count ≤ cs.length then (ofHex? (cs.take count)).map fun c => (c, cs.drop count) else none

/-- Reads after a backslash. -/
def readEscape : List Char → Option (Char × List Char)
  | 'b' :: rest => some ('\x08', rest)
  | 't' :: rest => some ('\t', rest)
  | 'n' :: rest => some ('\n', rest)
  | 'f' :: rest => some ('\x0c', rest)
  | 'r' :: rest => some ('\r', rest)
  | 'e' :: rest => some ('\x1b', rest)
  | '"' :: rest => some ('"', rest)
  | '\\' :: rest => some ('\\', rest)
  | 'x' :: rest => readCode 2 rest
  | 'u' :: rest => readCode 4 rest
  | 'U' :: rest => readCode 8 rest
  | _ => none

/-- The text after all blanks and ends of lines at its start. -/
def skipBlank : List Char → List Char
  | [] => []
  | '\r' :: '\n' :: rest => skipBlank rest
  | c :: rest => if isSpace c || c == '\n' then skipBlank rest else c :: rest

/-- The text after a backslash that ends a line: all blanks and ends of lines are dropped. -/
def continueLine? (cs : List Char) : Option (List Char) :=
  (newLine? (skipSpace cs)).map skipBlank

/-- The number of quotes at the start of a text. -/
def quoteRun (quote : Char) (cs : List Char) : Nat := (cs.takeWhile (· == quote)).length

/-- Reads a text on one line up to its closing quote, in at most so many steps. -/
def readLine (quote : Char) (escapes : Bool) : Nat → List Char → Option (List Char × List Char)
  | 0, _ => none
  | _, [] => none
  | steps + 1, c :: rest =>
    if c == quote then some ([], rest)
    else if escapes && c == '\\' then
      match readEscape rest with
      | none => none
      | some (c, rest) =>
        (readLine quote escapes steps rest).map fun (text, rest) => (c :: text, rest)
    else if isPlain c then
      (readLine quote escapes steps rest).map fun (text, rest) => (c :: text, rest)
    else none

/-- Reads a text on several lines up to its three closing quotes, in at most so many steps. Up to
two quotes may stand in front of the closing ones. -/
def readLines (quote : Char) (escapes : Bool) : Nat → List Char → Option (List Char × List Char)
  | 0, _ => none
  | _, [] => none
  | steps + 1, c :: rest =>
    let run := quoteRun quote (c :: rest)
    if 6 ≤ run then none
    else if 3 ≤ run then some (List.replicate (run - 3) quote, (c :: rest).drop run)
    else if escapes && c == '\\' then
      match continueLine? rest with
      | some rest => readLines quote escapes steps rest
      | none =>
        match readEscape rest with
        | none => none
        | some (c, rest) =>
          (readLines quote escapes steps rest).map fun (text, rest) => (c :: text, rest)
    else
      match newLine? (c :: rest) with
      | some after =>
        let mark := if c == '\n' then ['\n'] else ['\r', '\n']
        (readLines quote escapes steps after).map fun (text, rest) => (mark ++ text, rest)
      | none =>
        if isPlain c then
          (readLines quote escapes steps rest).map fun (text, rest) => (c :: text, rest)
        else none

/-- Reads a quoted text on one line whose opening quote comes first. -/
def readShort (cs : List Char) : Option (List Char × List Char) :=
  match cs with
  | '"' :: rest => readLine '"' true (rest.length + 1) rest
  | '\x27' :: rest => readLine '\x27' false (rest.length + 1) rest
  | _ => none

/-- Reads a quoted text. The end of a line right after three opening quotes is dropped. -/
def read (cs : List Char) : Option (List Char × List Char) :=
  match cs with
  | '"' :: '"' :: '"' :: rest => readLines '"' true (rest.length + 1) ((newLine? rest).getD rest)
  | '\x27' :: '\x27' :: '\x27' :: rest =>
    readLines '\x27' false (rest.length + 1) ((newLine? rest).getD rest)
  | _ => readShort cs

end TableSchema.Toml.Quoted
