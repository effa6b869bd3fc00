import TableSchema.Text.Blank

/-!
The physical lines of an input.

A line reaches up to and including its line feed; the last line may lack one. The line feed and
every carriage return before it are no part of the line's text. A line whose bytes are not UTF-8 has
no text, but it still takes its place among the others.
-/

namespace TableSchema.Text

/-- One physical line of an input. -/
inductive SourceLine where
  | readable (text : List Char)
  | unreadable
deriving DecidableEq, Repr

/-- Cuts a sequence behind each element that ends a line. -/
def cutAfter {α : Type} (endsLine : α → Bool) : List α → List (List α)
  | [] => []
  | a :: rest =>
    if endsLine a then [a] :: cutAfter endsLine rest
    else
      match cutAfter endsLine rest with
      | [] => [[a]]
      | line :: lines => (a :: line) :: lines

/-- Cuts a sequence behind each element that ends a line, and drops these elements. -/
def cutLines {α : Type} (endsLine : α → Bool) (list : List α) : List (List α) :=
  (cutAfter endsLine list).map fun line => line.takeWhile fun a => !endsLine a

/-- The text of a line without the carriage returns at its end. -/
def lineText (cs : List Char) : List Char := dropEnd (· == '\r') cs

/-- The physical lines of a text. -/
def SourceLine.ofText (text : String) : List SourceLine :=
  (cutLines (· == '\n') text.toList).map fun cs => .readable (lineText cs)

/-- A line given by its bytes without the line feed. -/
def SourceLine.decode (bytes : List UInt8) : SourceLine :=
  match String.fromUTF8? ⟨bytes.toArray⟩ with
  | some text => .readable (lineText text.toList)
  | none => .unreadable

/-- The physical lines of a sequence of bytes. -/
def SourceLine.ofBytes (bytes : List UInt8) : List SourceLine :=
  (cutLines (· == 10) bytes).map decode

/-- A line that ends starts the next one afresh. -/
theorem cutAfter_append_cons {α : Type} {endsLine : α → Bool} {a : α} (h : endsLine a = true)
    (front back : List α) (hf : ∀ x ∈ front, endsLine x = false) :
    cutAfter endsLine (front ++ a :: back) = (front ++ [a]) :: cutAfter endsLine back := by
  induction front with
  | nil => simp [cutAfter, h]
  | cons x front ih =>
    have hx := hf x (by simp)
    simp [cutAfter, hx, ih fun y hy => hf y (by simp [hy])]

theorem cutLines_append_cons {α : Type} {endsLine : α → Bool} {a : α} (h : endsLine a = true)
    (front back : List α) (hf : ∀ x ∈ front, endsLine x = false) :
    cutLines endsLine (front ++ a :: back) = front :: cutLines endsLine back := by
  have dropped : (front ++ [a]).takeWhile (fun x => !endsLine x) = front := by
    rw [List.takeWhile_append_of_pos fun x hx => by simp [hf x hx]]
    simp [h]
  rw [cutLines, cutAfter_append_cons h front back hf, List.map_cons, dropped, cutLines]

end TableSchema.Text
