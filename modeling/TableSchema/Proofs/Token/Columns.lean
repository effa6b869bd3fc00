import TableSchema.Proofs.Token.Rows

/-!
The column of a token.

A token begins on the line of its row, or right behind this line if it is the end of it. This is so
for every token, also for the flaws: what a flaw is about stands on the line, and a comment that
stays open has its place where it begins (`Scanner.Follows.onLine_events`).
-/

namespace TableSchema

open Text (SourceLine texts)

/-- The token begins on a line of the input, or right behind it. -/
structure Token.OnLine (source : List SourceLine) (t : Token) : Prop where
  row_pos : 0 < t.row
  column : ∃ line, ([] :: texts source)[t.row]? = some line ∧ t.col ≤ line.length

/-- The column of a lexeme is on the line that goes on with `c` and `rest`. -/
theorem Lexeme.offset_le_of_read {c : Char} {rest : List Char} {lexeme : Lexeme}
    (h : read c rest = some lexeme) : lexeme.offset ≤ rest.length := by
  cases readsTo_of_read h with
  | whole => exact Nat.zero_le _
  | flawed _ inside => exact inside

namespace Scanner

variable {source : List SourceLine} {s after : Scanner} {t : Token}

theorem Follows.onLine_of_step (h : s.Follows source) (unspent : s.spent = false)
    (done : s.step = (.token t, after)) : t.OnLine source := by
  have here {gap cs : List Char} {c : Char} (split : s.line.drop s.pos = gap ++ c :: cs) :
      s.pos + gap.length + cs.length < s.line.length := by
    have length := congrArg List.length split
    simp only [List.length_drop, List.length_append, List.length_cons] at length
    omega
  have steps := s.stepsTo_step
  rw [done] at steps
  cases steps with
  | lineEnd => exact ⟨h.row_pos unspent, s.line, h.line, Nat.le_refl _⟩
  | lexeme _ split read =>
    have offset := Lexeme.offset_le_of_read read
    have inside := here split
    exact ⟨h.row_pos unspent, s.line, h.line, by show _ + _ + _ ≤ _; omega⟩
  | comment _ split _ closes =>
    obtain ⟨row, col⟩ := place_of_closeComment closes
    have inside := here split
    refine ⟨row ▸ h.row_pos unspent, s.line, row ▸ h.line, ?_⟩
    rw [col]
    omega

theorem Follows.onLine_of_next (h : s.Follows source) (found : s.next = some (.token t, after)) :
    t.OnLine source := by
  rw [next] at found
  split at found
  · split at found
    · cases found
    · cases found
    · rename_i next
      exact (h.enter next).onLine_of_step rfl (Option.some.inj found)
  · rename_i unspent
    exact h.onLine_of_step (by simpa using unspent) (Option.some.inj found)

/-- Every token of an input begins on one of its lines, or right behind it. -/
theorem Follows.onLine_events (h : s.Follows source)
    (unbroken : ∀ cs, .readable cs ∈ source → '\n' ∉ cs) :
    ∀ e ∈ s.events, ∀ t, e.reply = .token t → t.OnLine source := by
  induction s using events_induction with
  | done s none => exact nofun
  | step s reply after found ih =>
    intro e he t ht
    rcases List.mem_cons.mp he with rfl | he
    · cases ht
      exact h.onLine_of_next found
    · exact ih (follows_of_next unbroken h found).1 e he t ht

end Scanner

end TableSchema
