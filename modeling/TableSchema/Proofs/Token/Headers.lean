import TableSchema.Proofs.Token.LostLines

/-!
Headers and the sections that they name.

The name of a header is read twice. The scanner looks up what stands between an opening bracket and
the next closing one. Whoever has the token takes all brackets off both ends of its text and looks
up what is left. For a text with further brackets the two readings can differ, but the scanner gives
no header unless it has found the name, and no name of a section has a bracket in it. So every
header stands on its line with a name that both readings find (`Scanner.Follows.opens_tokens`), and
in front of brackets the token says what the scanner has found, a section or none
(`Scanner.exists_step_of_brackets`).
-/

namespace TableSchema

open Text (SourceLine texts)

/-- A text that is found to be the name of a section has no bracket in it. -/
theorem Section.bracket_not_mem_of_ofName? {name : List Char} {part : Section}
    (found : ofName? (String.ofList name) = some part) : '[' ∉ name ∧ ']' ∉ name := by
  rw [ofName?] at found
  have spells := List.find?_some found
  have outside := (⟨_, spells⟩ : Spelling part.name).bracket_not_mem
  rwa [String.toList_ofList] at outside

namespace Token

/-- The token is a name in brackets, and stands so on the line of its row, where the bracket that
closes the name is the first one behind the bracket that opens it. -/
structure Brackets (source : List SourceLine) (t : Token) (name : List Char) : Prop where
  text : t.text = String.ofList ('[' :: name ++ [']'])
  closed : ']' ∉ name
  here : ∃ line more, ([] :: texts source)[t.row]? = some line ∧
    line.drop t.col = '[' :: name ++ ']' :: more

/-- The token stands on its line with the name of the section `part` in brackets. -/
def Opens (source : List SourceLine) (t : Token) (part : Section) : Prop :=
  ∃ name, t.Brackets source name ∧ Section.ofName? (String.ofList name) = some part

/-- Two readings of a token differ on two opening brackets, which the scanner gives as a flaw. -/
example : (⟨.header, "[[Fields]", 1, 0⟩ : Token).heading? = some .fields ∧
    Lexeme.readBracket "[Fields]".toList = .flawed .unknownSection 0 9 := by decide

end Token

namespace Lexeme

variable {c : Char} {rest : List Char} {lexeme : Lexeme}

/-- A header that a line begins with is the name of a section in brackets. -/
theorem exists_name_of_read (h : read c rest = some lexeme) (header : lexeme.kind = .header) :
    ∃ name more part, c :: rest = '[' :: name ++ ']' :: more ∧ ']' ∉ name ∧
      Section.ofName? (String.ofList name) = some part ∧
      lexeme = whole .header ('[' :: name ++ [']']) := by
  rw [read] at h
  split at h
  · rw [readSlash.eq_def] at h
    split at h
    · cases h
      cases header
    · obtain ⟨size, _, rfl⟩ := Option.map_eq_some_iff.mp h
      cases header
    · cases h
      cases header
  · split at h
    · rename_i bracket
      obtain rfl := eq_of_beq bracket
      obtain rfl := Option.some.inj h
      by_cases closed : ']' ∈ rest
      · obtain ⟨name, more, rfl, outside⟩ := List.eq_append_cons_of_mem closed
        rw [readBracket_append outside] at header ⊢
        cases found : Section.ofName? (String.ofList name) with
        | some part => exact ⟨name, more, part, rfl, outside, found, rfl⟩
        | none =>
          rw [found] at header
          cases header
      · rw [readBracket_of_not_mem closed] at header
        cases header
    · split at h
      · obtain rfl := Option.some.inj h
        rw [readSpecial] at header
        split at header <;> cases header
      · obtain rfl := Option.some.inj h
        rw [readWord] at header
        split at header
        · cases header
        · split at header <;> cases header

end Lexeme

namespace Scanner

variable {source : List SourceLine} {s after : Scanner} {t : Token}

/-- In front of a name in brackets the scanner gives a token that is a header just when the name is
that of a section, and says which one. -/
theorem exists_step_of_brackets {gap name more : List Char} (blank : IsGap gap)
    (here : s.line.drop s.pos = gap ++ ('[' :: name ++ ']' :: more)) (closed : ']' ∉ name) :
    ∃ t after, s.step = (.token t, after) ∧
      t.heading? = Section.ofName? (String.ofList name) ∧
      (t.kind = .header ↔ ∃ part, Section.ofName? (String.ofList name) = some part) := by
  have bracket : Lexeme.isGap '[' = false := by decide
  have read := Lexeme.readBracket_append closed more
  cases found : Section.ofName? (String.ofList name) with
  | some part =>
    rw [found] at read
    refine ⟨_, _, step_of_read blank here bracket (congrArg some read), ?_, by simp [Lexeme.whole]⟩
    obtain ⟨opening, closing⟩ := Section.bracket_not_mem_of_ofName? found
    exact (Token.heading?_of_text rfl rfl opening closing).trans found
  | none =>
    rw [found] at read
    exact ⟨_, _, step_of_read blank here bracket (congrArg some read), rfl, by simp [Lexeme.flawed]⟩

theorem Follows.opens_of_step (h : s.Follows source) (done : s.step = (.token t, after))
    (header : t.kind = .header) : ∃ part, t.Opens source part := by
  have steps := s.stepsTo_step
  rw [done] at steps
  cases steps with
  | lineEnd => cases header
  | comment _ _ _ closes =>
    rcases kind_of_closeComment closes with comment | flaw
    · cases comment.symm.trans header
    · cases flaw.symm.trans header
  | @lexeme gap cs c lexeme _ here read =>
    obtain ⟨name, more, part, split, closed, found, rfl⟩ := Lexeme.exists_name_of_read read header
    refine ⟨part, name, ⟨rfl, closed, s.line, more, h.line, ?_⟩, found⟩
    show s.line.drop (s.pos + gap.length) = _
    rw [← List.drop_drop, here, List.drop_left, split]

theorem Follows.opens_of_next (h : s.Follows source) (found : s.next = some (.token t, after))
    (header : t.kind = .header) : ∃ part, t.Opens source part := by
  rw [next] at found
  split at found
  · split at found
    · cases found
    · cases found
    · rename_i next
      exact (h.enter next).opens_of_step (Option.some.inj found) header
  · exact h.opens_of_step (Option.some.inj found) header

/-- Every header stands on a line of the input with the name of a section in brackets. -/
theorem Follows.opens_tokens (h : s.Follows source)
    (unbroken : ∀ cs, .readable cs ∈ source → '\n' ∉ cs) :
    ∀ t ∈ s.tokens, t.kind = .header → ∃ part, t.Opens source part := by
  induction s using events_induction with
  | done s none =>
    rw [tokens_of_none none]
    exact nofun
  | step s reply after found ih =>
    have later := ih (follows_of_next unbroken h found).1
    cases reply with
    | unreadable => rwa [tokens_eq_of_unreadable found]
    | token t =>
      rw [tokens_eq_cons found]
      exact List.forall_mem_cons.mpr ⟨h.opens_of_next found, later⟩

end Scanner

/-- A header gives the section whose name stands in its brackets. -/
theorem Token.Opens.heading?_eq {source : List SourceLine} {t : Token} {part : Section}
    (opens : t.Opens source part) (header : t.kind = .header) : t.heading? = some part := by
  obtain ⟨name, brackets, found⟩ := opens
  obtain ⟨opening, closing⟩ := Section.bracket_not_mem_of_ofName? found
  exact (heading?_of_text header brackets.text opening closing).trans found

/-- Every header of an input stands on its line with the name of the section that it gives. -/
theorem Scanner.exists_opens (bytes : List UInt8) :
    ∀ t ∈ (ofBytes bytes).tokens, t.kind = .header →
      ∃ part, t.Opens (SourceLine.ofBytes bytes) part ∧ t.heading? = some part := by
  intro t inside header
  have follows := follows_ofLines (SourceLine.ofBytes bytes)
  obtain ⟨part, opens⟩ :=
    follows.opens_tokens (fun _ => SourceLine.unbroken_ofBytes) t inside header
  exact ⟨part, opens, opens.heading?_eq header⟩

end TableSchema
