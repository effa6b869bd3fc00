import TableSchema.Text.CaseTables

/-!
Case mapping of characters and texts over all of Unicode.

A form may be longer than one character (the upper form of a sharp s is two letters). The capital
sigma is the one letter whose lower form depends on its place: a sigma that ends a word takes the
final form. On ASCII both mappings agree with the core library's, see `upperForm_of_isAscii` and
`lowerForm_of_isAscii`.
-/

namespace TableSchema.Text

/-- Whether a character belongs to ASCII. -/
def isAscii (c : Char) : Bool := c.toNat < 128

/-- The form of `c` in a mapping given by its runs and its longer forms. -/
def mapped (runs : List Run) (expansions : List (Nat × List Nat)) (c : Char) : List Char :=
  match expansions.lookup c.toNat with
  | some codes => codes.map Char.ofNat
  | none => [Char.ofNat (c.toNat + shiftIn runs c.toNat).toNat]

/-- The upper form of a character. -/
def upperForm (c : Char) : List Char :=
  if isAscii c then [c.toUpper] else mapped upperRuns upperExpansions c

/-- The lower form of a character that does not end a word. -/
def lowerForm (c : Char) : List Char :=
  if isAscii c then [c.toLower] else mapped lowerRuns lowerExpansions c

/-- The capital sigma. -/
def capitalSigma : Char := Char.ofNat 0x03A3

/-- The small sigma inside a word. -/
def smallSigma : Char := Char.ofNat 0x03C3

/-- The small sigma at the end of a word. -/
def finalSigma : Char := Char.ofNat 0x03C2

/-- Whether a character has case. -/
def isCased (c : Char) : Bool :=
  if isAscii c then c.isAlpha else inRanges casedRanges c.toNat

/-- Whether a character is passed over when the neighbouring letter of a word is looked for. -/
def isCaseIgnorable (c : Char) : Bool :=
  if isAscii c then ['\x27', '.', ':', '^', Char.ofNat 0x60].contains c
  else inRanges caseIgnorableRanges c.toNat

/-- Whether the first character that is not passed over has case. -/
def meetsCased (cs : List Char) : Bool :=
  ((cs.dropWhile isCaseIgnorable).head?.map isCased).getD false

/-- The upper form of a text, character by character. -/
def upper (cs : List Char) : List Char := cs.flatMap upperForm

/-- The lower form of a text whose reversed beginning `before` has been mapped already. -/
def lowerAfter (before : List Char) : List Char → List Char
  | [] => []
  | c :: rest =>
    let form :=
      if c = capitalSigma then
        [if meetsCased before && !meetsCased rest then finalSigma else smallSigma]
      else lowerForm c
    form ++ lowerAfter (c :: before) rest

/-- The lower form of a text. -/
def lower (cs : List Char) : List Char := lowerAfter [] cs

/-- Whether a text has another form and is written in its upper form. -/
def isUpperText (cs : List Char) : Bool := upper cs != lower cs && upper cs == cs

/-- Whether a text has another form and is written in its lower form. -/
def isLowerText (cs : List Char) : Bool := upper cs != lower cs && lower cs == cs

/-- Equality of two texts up to the case of ASCII letters. -/
def sameLetters (a b : String) : Bool :=
  a.toList.map Char.toLower == b.toList.map Char.toLower

theorem upperForm_of_isAscii {c : Char} (h : isAscii c = true) : upperForm c = [c.toUpper] := by
  simp [upperForm, h]

theorem lowerForm_of_isAscii {c : Char} (h : isAscii c = true) : lowerForm c = [c.toLower] := by
  simp [lowerForm, h]

@[simp] theorem upper_nil : upper [] = [] := rfl

@[simp] theorem upper_append (a b : List Char) : upper (a ++ b) = upper a ++ upper b := by
  simp [upper]

end TableSchema.Text
