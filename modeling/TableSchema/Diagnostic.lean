/-!
Messages about a definition, with the place that they are about.

A message that has a place is followed by the line, and by a caret under the column.
-/

namespace TableSchema

/-- What a message is about. -/
inductive Category where
  | lex
  | grammar
  | reference
  | io
deriving DecidableEq, Repr

/-- The word for a category. -/
def Category.name : Category → String
  | lex => "lex"
  | grammar => "grammar"
  | reference => "reference"
  | io => "io"

/-- A place in a definition, with the text of the line. Rows and columns count from one. -/
structure Place where
  row : Nat
  col : Nat
  line : String
deriving DecidableEq, Repr

namespace Place

/-- The caret under the column of a place. -/
def caret (place : Place) : String := "".pushn ' ' (place.col - 1) ++ "^"

end Place

/-- A place in a named file. -/
structure Location where
  file : String
  place : Place
deriving DecidableEq, Repr

/-- A message, with its location if it has one. -/
structure Diagnostic where
  category : Category
  message : String
  location : Option Location
deriving DecidableEq, Repr

namespace Diagnostic

/-- Whether a diagnostic is about a name that refers to nothing. -/
def isReference (d : Diagnostic) : Bool := d.category == .reference

/-- A diagnostic as text. -/
def display (d : Diagnostic) : String :=
  match d.location with
  | none => d.category.name ++ " error: " ++ d.message
  | some ⟨file, place⟩ =>
    d.category.name ++ " error in " ++ file ++ " on line " ++ toString place.row ++ " at col "
      ++ toString place.col ++ ": " ++ d.message ++ "\n" ++ place.line ++ "\n" ++ place.caret

end Diagnostic

/-- Why an input cannot be read. -/
inductive ReadFailure where
  | missing
  | belowFile
  | folder
  | notText
deriving DecidableEq, Repr

namespace ReadFailure

/-- The message of the system. -/
def message : ReadFailure → String
  | missing => "No such file or directory (os error 2)"
  | belowFile => "Not a directory (os error 20)"
  | folder => "Is a directory (os error 21)"
  | notText => "stream did not contain valid UTF-8"

/-- The message that `file` cannot be read. -/
def report (failure : ReadFailure) (file : String) : String :=
  "unable to read '" ++ file ++ "': " ++ failure.message

end ReadFailure

end TableSchema
