import TableSchema.Section
import TableSchema.Text.Blank

/-!
Tokens of a definition file.

A token carries its place: rows count from one, columns from zero. The text of a flaw is the
message that tells what is wrong there.
-/

namespace TableSchema

/-- What cannot be read as a token. -/
inductive Flaw where
  | looseSlash
  | openComment
  | openBracket
  | unknownSection
  | openParen
  | floating (c : Char)
  | insideWord (c : Char)
deriving DecidableEq, Repr

namespace Flaw

/-- The message of a flaw. -/
def message : Flaw → String
  | looseSlash => "'/' must be followed by '/' or '*'."
  | openComment => "'/*' must end with a '*/'. No '*/' was found in the input."
  | openBracket => "'[' must have an ending ']' present on the same line."
  | unknownSection =>
    "The brackets must contain only 'Settings', 'Fields', 'Indexes' or 'ForeignKeys'."
  | openParen => "'(' must have an ending ')' present on the same line."
  | floating c => "Floating '" ++ c.toString ++ "' not allowed."
  | insideWord c => "Words cannot contain '" ++ c.toString ++ "'."

end Flaw

namespace Token

/-- The kinds of tokens. -/
inductive Kind where
  | word
  | special
  | header
  | comment
  | newLine
  | flaw
deriving DecidableEq, Repr

end Token

/-- A token with its text and its place. -/
structure Token where
  kind : Token.Kind
  text : String
  row : Nat
  col : Nat
deriving DecidableEq, Repr

namespace Token

/-- The characters that are tokens of their own. -/
def specials : String := "!*,()-?^"

/-- The end of a line of `width` characters. -/
def lineEnd (row width : Nat) : Token := ⟨.newLine, "\n", row, width⟩

/-- Whether a token is the given keyword, written with any case. -/
def isKeyword (t : Token) (keyword : String) : Bool :=
  t.kind == .word && Text.sameLetters t.text keyword

/-- Whether a token is a word. -/
def isWord (t : Token) : Bool := t.kind == .word

/-- Whether a token is a comment. -/
def isComment (t : Token) : Bool := t.kind == .comment

/-- Whether a token is a word of digits. -/
def isNumeric (t : Token) : Bool :=
  t.kind == .word && !t.text.toList.isEmpty && t.text.toList.all Char.isDigit

/-- The character of a special token. -/
def special? (t : Token) : Option Char :=
  if t.kind = .special then t.text.toList.head? else none

/-- Whether a token is the special character `c`. -/
def isSpecial (t : Token) (c : Char) : Bool := t.special? == some c

/-- The section that a header opens. -/
def heading? (t : Token) : Option Section :=
  if t.kind = .header then
    Section.ofName? <| String.ofList <|
      Text.dropEnd (· == ']') (t.text.toList.dropWhile (· == '['))
  else none

/-- A comment without the marks around it. -/
def uncommented : List Char → List Char
  | '/' :: '/' :: body => body
  | '/' :: '*' :: body =>
    match body.reverse with
    | '/' :: '*' :: front => front.reverse
    | _ => body
  | text => text

/-- The text of a comment without its marks and the blanks around it. -/
def commentBody (t : Token) : String :=
  String.ofList (Text.trim (uncommented t.text.toList))

/-- A token as messages name it. -/
def display (t : Token) : String :=
  match t.kind with
  | .newLine => "end of line"
  | _ => "'" ++ t.text ++ "'"

end Token

end TableSchema
