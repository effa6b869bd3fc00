/-!
The characters of TOML, by what they may be part of.
-/

namespace TableSchema.Toml

/-- Whether a character is a blank or a tabulator. -/
def isSpace (c : Char) : Bool := c == ' ' || c == '\t'

/-- The text after the blanks at its start. -/
def skipSpace (cs : List Char) : List Char := cs.dropWhile isSpace

/-- The text after the end of a line, if one is there. -/
def newLine? : List Char → Option (List Char)
  | '\n' :: rest => some rest
  | '\r' :: '\n' :: rest => some rest
  | _ => none

/-- Whether a character may stand for itself: no control character but the tabulator. -/
def isPlain (c : Char) : Bool := c == '\t' || (' ' ≤ c && c != '\x7f')

/-- Whether a character is a quote. -/
def isQuote (c : Char) : Bool := c == '"' || c == '\x27'

/-- Whether a character may stand in a key without quotes. -/
def isBare (c : Char) : Bool := c.isAlphanum || c == '_' || c == '-'

/-- Whether a character is a hexadecimal digit. -/
def isHexDigit (c : Char) : Bool :=
  c.isDigit || ('a' ≤ c && c ≤ 'f') || ('A' ≤ c && c ≤ 'F')

/-- Whether a character goes on with a word that no quotes enclose. Blanks, ends of lines, the sign
of a comment and the signs between values end it, and a quote does not. -/
def isWordChar (c : Char) : Bool :=
  !(isSpace c || ['\r', '\n', '#', '=', ',', '[', ']', '{', '}'].contains c)

end TableSchema.Toml
