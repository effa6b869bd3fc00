import TableSchema.Toml.Character

/-!
The forms of the numbers, truth values, dates and times of TOML.

A scalar is first cut off by the signs around it and then looked at as a whole. Only the shape of a
number is looked at, and not its size. Its first digits decide what it is: behind them stand the
dash of a date or the colon of a time, the point or exponent of a fraction, or an underscore. What
follows the digit behind the last underscore of a whole number is not looked at.
-/

namespace TableSchema.Toml.Scalar

/-- A text without the sign in front. -/
def unsigned : List Char → List Char
  | '+' :: rest => rest
  | '-' :: rest => rest
  | cs => cs

/-- Whether each underscore stands between two digits, behind a digit or behind something else. -/
def isGroupedAfter (isDigit : Char → Bool) : Bool → List Char → Bool
  | _, [] => true
  | afterDigit, c :: rest =>
    if c == '_' then
      afterDigit && (rest.head?.map isDigit).getD false && isGroupedAfter isDigit false rest
    else isGroupedAfter isDigit (isDigit c) rest

/-- Whether each underscore stands between two digits. -/
def isGrouped (isDigit : Char → Bool) (cs : List Char) : Bool := isGroupedAfter isDigit false cs

/-- Whether a character is a digit or an underscore. -/
def isDigitOrMark (c : Char) : Bool := c.isDigit || c == '_'

/-- Whether a part of a number has a digit. -/
def isPart (cs : List Char) : Bool := cs.any Char.isDigit

/-- Whether the part of a number in front of its point has a digit, and no zero before others. -/
def isWhole (cs : List Char) : Bool :=
  isPart cs && (cs.head? != some '0' || cs.countP Char.isDigit == 1)

/-- Whether a text is an exponent, or nothing. -/
def isExponent : List Char → Bool
  | [] => true
  | c :: rest =>
    (c == 'e' || c == 'E') && isPart (unsigned rest) && (unsigned rest).all isDigitOrMark

/-- Whether a text is a number with a fraction or an exponent, or without both. The underscores are
not looked at. -/
def isFraction (cs : List Char) : Bool :=
  isWhole (cs.takeWhile isDigitOrMark) &&
    match cs.dropWhile isDigitOrMark with
    | '.' :: rest =>
      isPart (rest.takeWhile isDigitOrMark) && isExponent (rest.dropWhile isDigitOrMark)
    | rest => isExponent rest

/-- The number of two digits. -/
def twoDigits? (a b : Char) : Option Nat :=
  if a.isDigit && b.isDigit then some ((a.toNat - 48) * 10 + (b.toNat - 48)) else none

/-- Whether two digits are a number from `low` to `high`. -/
def isBetween (low high : Nat) (a b : Char) : Bool :=
  match twoDigits? a b with
  | some n => low ≤ n && n ≤ high
  | none => false

/-- The number of days of a month. -/
def daysOf (year month : Nat) : Nat :=
  if month == 2 then
    if year % 4 == 0 && (year % 100 != 0 || year % 400 == 0) then 29 else 28
  else if [4, 6, 9, 11].contains month then 30
  else 31

/-- A day of the calendar. -/
def isDate : List Char → Bool
  | [a, b, c, d, '-', m, n, '-', e, f] =>
    match twoDigits? a b, twoDigits? c d, twoDigits? m n with
    | some century, some year, some month =>
      1 ≤ month && month ≤ 12 && isBetween 1 (daysOf (century * 100 + year) month) e f
    | _, _, _ => false
  | _ => false

/-- What may stand behind a time: the distance from the zero meridian, or nothing. -/
def isOffset : List Char → Bool
  | [] => true
  | ['Z'] => true
  | ['z'] => true
  | [sign, a, b, ':', c, d] =>
    (sign == '+' || sign == '-') && isBetween 0 23 a b && isBetween 0 59 c d
  | _ => false

/-- What stands behind the minutes of a time: seconds with a fraction, both optional, and what
`isRest` admits. -/
def isAfterMinutes (isRest : List Char → Bool) : List Char → Bool
  | ':' :: a :: b :: '.' :: rest =>
    isBetween 0 60 a b && (rest.head?.map Char.isDigit).getD false &&
      isRest (rest.dropWhile Char.isDigit)
  | ':' :: a :: b :: rest => isBetween 0 60 a b && isRest rest
  | rest => isRest rest

/-- A time, with what `isRest` admits behind it. -/
def isTime (isRest : List Char → Bool) : List Char → Bool
  | a :: b :: ':' :: c :: d :: rest =>
    isBetween 0 23 a b && isBetween 0 59 c d && isAfterMinutes isRest rest
  | _ => false

/-- A date, a time, or both. -/
def isDateTime (cs : List Char) : Bool :=
  isDate cs || isTime List.isEmpty cs ||
    (isDate (cs.take 10) &&
      match cs.drop 10 with
      | 'T' :: rest => isTime isOffset rest
      | 't' :: rest => isTime isOffset rest
      | ' ' :: rest => isTime isOffset rest
      | _ => false)

/-- Whether a text is a number to the base ten, a date or a time. -/
def isDecimal (cs : List Char) : Bool :=
  let value := unsigned cs
  match value.dropWhile Char.isDigit with
  | [] => value == ['0'] || !(value.isEmpty || value.head? == some '0')
  | '-' :: _ => isDateTime cs
  | ':' :: _ => isDateTime cs
  | c :: rest =>
    if (c :: rest).contains ' ' then false
    else if (c :: rest).any ['.', 'e', 'E'].contains then
      isFraction value && isGrouped Char.isDigit cs
    else c == '_' && value.head? != some '0' && isGrouped isHexDigit cs

/-- Whether a text has only digits of some base, with single underscores between them. There may be
none at all. -/
def isDigits (isDigit : Char → Bool) (cs : List Char) : Bool :=
  cs.all (fun c => isDigit c || c == '_') && isGrouped isDigit cs

/-- Whether a text is a number. Those to another base than ten have no sign. -/
def isNumber : List Char → Bool
  | '0' :: 'x' :: rest => isDigits isHexDigit rest
  | '0' :: 'o' :: rest => isDigits (fun c => '0' ≤ c && c ≤ '7') rest
  | '0' :: 'b' :: rest => isDigits (fun c => c == '0' || c == '1') rest
  | cs => isDecimal cs

/-- The truth values, and the numbers that are written as words. -/
def words : List (List Char) :=
  ["true".toList, "false".toList, "inf".toList, "+inf".toList, "-inf".toList, "nan".toList,
    "+nan".toList, "-nan".toList]

/-- A truth value, a number, a date or a time. -/
def isScalar (cs : List Char) : Bool := words.contains cs || isNumber cs

/-- Whether a text begins with a word, which a quote or a point does not begin. -/
def beginsWord : List Char → Bool
  | [] => false
  | c :: _ => isWordChar c && !isQuote c && c != '.'

/-- Cuts off a scalar. Blanks before a further word belong to it. -/
def cut : List Char → List Char × List Char
  | [] => ([], [])
  | c :: rest =>
    if isWordChar c || (isSpace c && beginsWord (skipSpace rest)) then
      let (scalar, rest) := cut rest
      (c :: scalar, rest)
    else ([], c :: rest)

/-- Reads a scalar. -/
def read (cs : List Char) : Option (List Char) :=
  let (scalar, rest) := cut cs
  if isScalar scalar then some rest else none

end TableSchema.Toml.Scalar
