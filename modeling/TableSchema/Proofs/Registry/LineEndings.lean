import TableSchema.Proofs.Registry.Front

/-!
Line endings.

What a text gives depends on its lines alone. A line may end with a line feed or with a carriage
return and a line feed, and the last line may lack its end: the text still breaks into the same
lines (`Text.Breaks.crlf`, `Text.Breaks.closeLast`). So it is scanned into the same tokens at the
same places, and read with the same result or refused with the same diagnostic
(`Registry.read_lineEndings`).
-/

namespace TableSchema

namespace Text

/-- The text with a carriage return in front of each line feed. -/
def crlf (text : String) : String :=
  String.ofList (text.toList.flatMap fun c => if c = '\n' then ['\r', '\n'] else [c])

/-- The text with a line feed at its end, unless it is empty or has one already. -/
def closeLast (text : String) : String :=
  if text = "" ∨ text.toList.getLast? = some '\n' then text else text ++ "\n"

/-- A line with carriage returns behind it is the same line. -/
theorem lineText_append_returns {line : List Char} (isLine : IsLine line) (returns : Nat) :
    lineText (line ++ List.replicate returns '\r') = line := by
  induction returns with
  | zero => rw [List.replicate_zero, List.append_nil, lineText_of_isLine isLine]
  | succ returns ih =>
    rw [List.replicate_succ', ← List.append_assoc]
    exact (dropEnd_append_singleton rfl).trans ih

theorem lineFeed_not_mem_returns {line : List Char} (isLine : IsLine line) (returns : Nat) :
    '\n' ∉ line ++ List.replicate returns '\r' := by
  simp [isLine.1]

/-- A text breaks into the lines that cutting finds, and into no others. -/
theorem Breaks.eq_lines {cs : List Char} {lines : List (List Char)} (h : Breaks cs lines) :
    (cutLines (· == '\n') cs).map lineText = lines := by
  induction h with
  | nil => rfl
  | line returns isLine _ ih =>
    have inside := ne_lineFeed_of_not_mem (lineFeed_not_mem_returns isLine returns)
    rw [cutLines_append_cons rfl _ _ inside, List.map_cons, ih, lineText_append_returns isLine]
  | @last line returns isLine filled =>
    have inside := ne_lineFeed_of_not_mem (lineFeed_not_mem_returns isLine returns)
    obtain ⟨c, rest, split⟩ := List.exists_cons_of_ne_nil filled
    rw [split] at inside
    rw [split, cutLines_of_unended inside, ← split, List.map_singleton,
      lineText_append_returns isLine]

/-- The physical lines of a text are those into which it breaks. -/
theorem Breaks.ofText_eq {text : String} {lines : List (List Char)}
    (h : Breaks text.toList lines) : SourceLine.ofText text = lines.map .readable := by
  rw [← h.eq_lines, List.map_map]
  rfl

theorem flatMap_crlf_of_unbroken {cs : List Char} (unbroken : '\n' ∉ cs) :
    (cs.flatMap fun c => if c = '\n' then ['\r', '\n'] else [c]) = cs := by
  induction cs with
  | nil => rfl
  | cons c rest ih =>
    obtain ⟨first, rest'⟩ := List.ne_and_not_mem_of_not_mem_cons unbroken
    rw [List.flatMap_cons, if_neg first.symm, ih rest']
    rfl

/-- Carriage returns in front of the line feeds change no line. -/
theorem Breaks.crlf {text : String} {lines : List (List Char)} (h : Breaks text.toList lines) :
    Breaks (crlf text).toList lines := by
  rw [Text.crlf, String.toList_ofList]
  generalize text.toList = cs at h
  induction h with
  | nil => exact .nil
  | @line line rest lines returns isLine _ ih =>
    have unbroken := lineFeed_not_mem_returns isLine returns
    have more := Breaks.line (returns + 1) isLine ih
    rw [List.flatMap_append, flatMap_crlf_of_unbroken unbroken, List.flatMap_cons, if_pos rfl]
    rwa [List.replicate_succ', ← List.append_assoc, List.append_assoc _ ['\r']] at more
  | @last line returns isLine filled =>
    rw [flatMap_crlf_of_unbroken (lineFeed_not_mem_returns isLine returns)]
    exact .last returns isLine filled

theorem Breaks.append_lineFeed {cs : List Char} {lines : List (List Char)} (h : Breaks cs lines)
    (filled : cs ≠ []) (unended : cs.getLast? ≠ some '\n') : Breaks (cs ++ ['\n']) lines := by
  induction h with
  | nil => exact absurd rfl filled
  | @line line rest lines returns isLine _ ih =>
    cases rest with
    | nil => simp at unended
    | cons c rest =>
      have more := Breaks.line returns isLine (ih (by simp) (by simpa using unended))
      rwa [← List.cons_append, ← List.append_assoc] at more
  | last returns isLine _ => exact .line returns isLine .nil

/-- A line feed at the end closes the last line, and adds none. -/
theorem Breaks.closeLast {text : String} {lines : List (List Char)} (h : Breaks text.toList lines) :
    Breaks (closeLast text).toList lines := by
  rw [Text.closeLast]
  split
  · exact h
  · rename_i open'
    obtain ⟨filled, unended⟩ := not_or.mp open'
    rw [String.toList_append]
    exact h.append_lineFeed (by simpa using filled) unended

end Text

open Text (SourceLine Breaks utf8 crlf closeLast)

/-- A text with other line endings has the same scanner. -/
theorem Scanner.ofBytes_lineEndings (text : String) :
    ofBytes (utf8 (crlf text)) = ofBytes (utf8 text) ∧
    ofBytes (utf8 (closeLast text)) = ofBytes (utf8 text) := by
  have breaks := Text.breaks_cutLines text.toList
  simp only [ofBytes_utf8, ofText]
  exact ⟨by rw [breaks.crlf.ofText_eq, breaks.ofText_eq],
    by rw [breaks.closeLast.ofText_eq, breaks.ofText_eq]⟩

/-- The line endings of a text do not matter: with a carriage return in front of each line feed,
with a line feed at the end of its last line, and with both, it gives the same events and so the
same tokens, and it is read with the same result or refused with the same diagnostic. -/
theorem Registry.read_lineEndings (r : Registry) (file text : String) :
    let events (text : String) := (Scanner.ofBytes (utf8 text)).events
    let outcome (text : String) :=
      (r.read (.ofBytes (utf8 text))).mapError (Definition.Refusal.diagnostic file)
    (events (crlf text) = events text ∧ outcome (crlf text) = outcome text) ∧
    (events (closeLast text) = events text ∧ outcome (closeLast text) = outcome text) ∧
    (events (closeLast (crlf text)) = events text ∧ outcome (closeLast (crlf text)) = outcome text)
    := by
  obtain ⟨returns, last⟩ := Scanner.ofBytes_lineEndings text
  have both := (Scanner.ofBytes_lineEndings (crlf text)).2.trans returns
  intro events outcome
  unfold events outcome
  rw [returns, last, both]
  exact ⟨⟨rfl, rfl⟩, ⟨rfl, rfl⟩, ⟨rfl, rfl⟩⟩

end TableSchema
