import TableSchema.Text.Grapheme

/-!
The three ways in which names are written.

A class name begins with an upper letter (`titleCase`). Table and column names are in capitals with
underscores between the words (`capsCase`), field names have a capital at the start of each later
word (`camelCase`). From a field name `empID` comes the column name `EMP_I_D`: every capital starts
a word. The way back also cuts at digits and at the end of a run of capitals. To find the words it
looks at clusters instead of characters, so that an accent neither parts a letter from the next nor
is taken for one. Within a word it is characters that are raised and lowered.
-/

namespace TableSchema.Identifier

open Text

/-- A text with its first character in upper form. -/
def titled : List Char → List Char
  | [] => []
  | c :: rest => upperForm c ++ rest

/-- An underscore in front of each ASCII capital. -/
def underscored : List Char → List Char
  | [] => []
  | c :: rest => if c.isUpper then '_' :: c :: underscored rest else c :: underscored rest

/-- The words of a name in capitals, joined by underscores. -/
def caps : List Char → List Char
  | [] => []
  | c :: rest => upper (c :: underscored rest)

/-- Whether a cluster parts two words and belongs to neither. -/
def isDelimiter (g : List Char) : Bool := g == ['_'] || g == ['-'] || g == [' ']

/-- Whether a cluster is a digit. -/
def isNumeral (g : List Char) : Bool := g.all Char.isDigit

/-- Whether a word ends between the cluster `g` and the clusters after it. Letters part from digits,
a lower letter from an upper one, and a run of capitals ends before its last when a lower letter
comes next. -/
def endsWord (g : List Char) : List (List Char) → Bool
  | [] => false
  | next :: rest =>
    (isLowerText g && isUpperText next)
      || ((isLowerText g || isUpperText g) && isNumeral next)
      || (isNumeral g && (isLowerText next || isUpperText next))
      || (isUpperText g && isUpperText next && (rest.head?.map isLowerText).getD false)

/-- The words of a name, in clusters. Two delimiters in a row have an empty word between them. -/
def words : List (List Char) → List (List (List Char))
  | [] => [[]]
  | g :: rest =>
    if isDelimiter g then [] :: words rest
    else if endsWord g rest then [g] :: words rest
    else
      match words rest with
      | [] => [[g]]
      | word :: others => (g :: word) :: others

/-- A word with its first character in upper form and the others in lower form. -/
def capitalized : List Char → List Char
  | [] => []
  | c :: rest => upperForm c ++ lower rest

/-- The first word in lower form, the others capitalized, joined by nothing. -/
def camel (cs : List Char) : List Char :=
  match (words (clusters cs)).map List.flatten with
  | [] => []
  | first :: others => lower first ++ others.flatMap capitalized

/-- The class name that a word stands for. -/
def titleCase (name : String) : String := String.ofList (titled name.toList)

/-- The table or column name that belongs to a class or field name. -/
def capsCase (name : String) : String := String.ofList (caps name.toList)

/-- The field name that belongs to a column name. -/
def camelCase (name : String) : String := String.ofList (camel name.toList)

/-- A name with every character in upper form. -/
def upperCase (name : String) : String := String.ofList (upper name.toList)

end TableSchema.Identifier
