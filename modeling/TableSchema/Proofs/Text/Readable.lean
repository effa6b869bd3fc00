import TableSchema.Proofs.Text.Bytes

/-!
Inputs without the lines that are no text.

Bytes from which every line is taken out that is not UTF-8, with its line feed, have the other lines
and no more (`SourceLine.ofBytes_readableBytes`). Where the lines were that are taken out can be
told by the number of rows in front of each (`lostRows`).
-/

namespace TableSchema.Text

/-- Whether a line with its line feed is text. -/
def isText (line : List UInt8) : Bool :=
  SourceLine.decode (line.takeWhile (· != 10)) != .unreadable

/-- The bytes without the lines that are no text. -/
def readableBytes (bytes : List UInt8) : List UInt8 :=
  ((cutAfter (· == 10) bytes).filter isText).flatten

/-- The lines that are text, as the lines of an input. -/
def readableLines (source : List SourceLine) : List SourceLine := (texts source).map .readable

/-- For each line that is no text, the row of the last line in front of it that is text, if the
lines come behind the row `row`. -/
def lostRows (row : Nat) : List SourceLine → List Nat
  | [] => []
  | .unreadable :: ahead => row :: lostRows row ahead
  | .readable _ :: ahead => lostRows (row + 1) ahead

/-! ## Rows of lost lines -/

theorem le_of_mem_lostRows {row k : Nat} {source : List SourceLine}
    (lost : k ∈ lostRows row source) : row ≤ k := by
  induction source generalizing row with
  | nil => cases lost
  | cons line source ih =>
    cases line with
    | unreadable =>
      rcases List.mem_cons.mp lost with rfl | later
      · exact Nat.le_refl _
      · exact ih later
    | readable cs => exact (Nat.le_succ row).trans (ih lost)

theorem length_lostRows (row : Nat) (source : List SourceLine) :
    (lostRows row source).length = source.count .unreadable := by
  induction source generalizing row with
  | nil => rfl
  | cons line source ih =>
    cases line with
    | unreadable => rw [lostRows, List.length_cons, List.count_cons_self, ih]
    | readable cs => rw [lostRows, List.count_cons_of_ne (by simp), ih]

/-! ## Bytes of the lines that are text -/

theorem isText_line {front : List UInt8} (unended : ∀ b ∈ front, (b == 10) = false)
    (feed : List UInt8) (ends : feed = [] ∨ feed = [10]) :
    isText (front ++ feed) = (SourceLine.decode front != .unreadable) := by
  have whole : (front ++ feed).takeWhile (· != 10) = front := by
    rw [List.takeWhile_append_of_pos fun b hb => by simpa using unended b hb]
    rcases ends with rfl | rfl <;> simp
  rw [isText, whole]

/-- The bytes without the lines that are no text have the lines that are text. -/
theorem SourceLine.ofBytes_readableBytes (bytes : List UInt8) :
    SourceLine.ofBytes (readableBytes bytes) = readableLines (SourceLine.ofBytes bytes) := by
  induction bytes using cut_induction fun b : UInt8 => b == 10 with
  | nil => rfl
  | last line filled unended =>
    obtain ⟨b, rest, rfl⟩ := List.exists_cons_of_ne_nil filled
    have text := isText_line unended [] (.inl rfl)
    rw [List.append_nil] at text
    rw [readableBytes, cutAfter_of_unended unended, ofBytes, ofBytes, cutLines_of_unended unended]
    cases decoded : SourceLine.decode (b :: rest) with
    | unreadable => simp [text, decoded, readableLines, texts, text?, cutLines, cutAfter]
    | readable cs =>
      simp [text, decoded, readableLines, texts, text?, cutLines_of_unended unended]
  | line front feed rest unended ends ih =>
    obtain rfl := eq_of_beq ends
    have text := isText_line unended [10] (.inr rfl)
    have lines : SourceLine.ofBytes (front ++ 10 :: rest)
        = SourceLine.decode front :: SourceLine.ofBytes rest := by
      rw [ofBytes, cutLines_append_cons rfl front rest unended]
      rfl
    rw [lines, readableBytes, cutAfter_append_cons rfl front rest unended]
    cases decoded : SourceLine.decode front with
    | unreadable =>
      simp only [decoded, bne_self_eq_false] at text
      rw [List.filter_cons_of_neg (by simp [text])]
      exact ih
    | readable cs =>
      simp only [decoded] at text
      have kept : ((front ++ [10]) :: (cutAfter (· == 10) rest).filter isText).flatten
          = front ++ 10 :: readableBytes rest := by simp [readableBytes]
      rw [List.filter_cons_of_pos (by simp [text]), kept, ofBytes,
        cutLines_append_cons rfl front _ unended, List.map_cons, decoded]
      exact congrArg (SourceLine.readable cs :: ·) ih

end TableSchema.Text
