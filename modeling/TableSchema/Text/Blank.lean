/-!
Blank characters and the trimming of texts.
-/

namespace TableSchema.Text

/-- The white space of Unicode: twenty-five characters. -/
def isBlank (c : Char) : Bool :=
  let code := c.toNat
  (9 ≤ code && code ≤ 13) || code == 0x20 || code == 0x85 || code == 0xA0 || code == 0x1680 ||
    (0x2000 ≤ code && code ≤ 0x200A) || code == 0x2028 || code == 0x2029 || code == 0x202F ||
    code == 0x205F || code == 0x3000

/-- A text without what satisfies `drop` at its end. -/
def dropEnd (drop : Char → Bool) (cs : List Char) : List Char :=
  (cs.reverse.dropWhile drop).reverse

/-- A text without the blanks at both ends. -/
def trim (cs : List Char) : List Char := dropEnd isBlank (cs.dropWhile isBlank)

/-- Every blank of the core library is one. -/
theorem isBlank_of_isWhitespace {c : Char} (h : c.isWhitespace = true) : isBlank c = true := by
  simp only [Char.isWhitespace, Bool.or_eq_true, decide_eq_true_eq] at h
  rcases h with ((rfl | rfl) | rfl) | rfl <;> decide

end TableSchema.Text
