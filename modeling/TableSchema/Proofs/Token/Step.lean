import TableSchema.Proofs.Token.Written

/-!
What one step of the scanner can do.

On a line the scanner passes a gap, and then it finds the end of the line, a lexeme, or a comment
that stays open on the line (`Scanner.stepsTo_step`). A lexeme is either written on the line just as
it is given back, or it is a flaw (`Lexeme.readsTo_read`).
-/

namespace TableSchema

open Text (SourceLine)

theorem Text.head?_toList_append {a b : String} {c : Char} (h : a.toList.head? = some c) :
    (a ++ b).toList.head? = some c := by
  rw [String.toList_append, List.head?_append, h, Option.some_or]

/-- No other flaw has the message of a comment that stays open. -/
theorem Flaw.message_ne_openComment {flaw : Flaw} (h : flaw ≠ .openComment) :
    flaw.message ≠ openComment.message := by
  -- the messages that name a character begin with a letter
  have letter {text : String} {c : Char} (first : text.toList.head? = some c) (other : c ≠ '\x27') :
      text ≠ openComment.message := by
    rintro rfl
    have mark : openComment.message.toList.head? = some '\x27' := by decide +kernel
    exact other (Option.some.inj (first.symm.trans mark))
  cases flaw with
  | openComment => exact absurd rfl h
  | looseSlash | openBracket | unknownSection | openParen => decide +kernel
  | floating c =>
    have first : (floating c).message.toList.head? = some 'F' := by
      show ("Floating '" ++ c.toString ++ "' not allowed.").toList.head? = some 'F'
      rw [String.append_assoc]
      exact Text.head?_toList_append (by decide +kernel)
    exact letter first (by decide)
  | insideWord c =>
    have first : (insideWord c).message.toList.head? = some 'W' := by
      show ("Words cannot contain '" ++ c.toString ++ "'.").toList.head? = some 'W'
      rw [String.append_assoc]
      exact Text.head?_toList_append (by decide +kernel)
    exact letter first (by decide)

namespace Lexeme

variable {c : Char} {rest : List Char}

/-- What reading gives for a line that goes on with `c` and `rest`. -/
inductive ReadsTo (c : Char) (rest : List Char) : Option Lexeme → Prop
  | whole {kind : Token.Kind} {chars more : List Char} : kind ≠ .flaw → kind ≠ .newLine →
      c :: rest = chars ++ more → ReadsTo c rest (some (whole kind chars))
  | flawed {flaw : Flaw} {offset size : Nat} : flaw ≠ .openComment → offset ≤ rest.length →
      ReadsTo c rest (some (flawed flaw offset size))
  | unclosed {body : List Char} : c = '/' → rest = '*' :: body → ReadsTo c rest none

theorem readsTo_readSlash : ReadsTo '/' rest (readSlash rest) := by
  rw [readSlash.eq_def]
  split
  · exact .whole (by decide) (by decide) (List.append_nil _).symm
  · rename_i body
    cases closing : closing? body with
    | none => exact .unclosed rfl rfl
    | some size =>
      have cut : '/' :: '*' :: body = ('/' :: '*' :: body.take size) ++ body.drop size := by
        rw [List.cons_append, List.cons_append, List.take_append_drop]
      exact .whole (by decide) (by decide) cut
  · exact .flawed (by decide) (Nat.zero_le _)

theorem readsTo_readBracket : ReadsTo '[' rest (some (readBracket rest)) := by
  by_cases closed : ']' ∈ rest
  · obtain ⟨name, more, rfl, outside⟩ := List.eq_append_cons_of_mem closed
    have cut : '[' :: (name ++ ']' :: more) = ('[' :: name ++ [']']) ++ more := by simp
    rw [readBracket_append outside]
    cases Section.ofName? (String.ofList name) with
    | some part => exact .whole (by decide) (by decide) cut
    | none => exact .flawed (by decide) (Nat.zero_le _)
  · rw [readBracket_of_not_mem closed]
    exact .flawed (by decide) (Nat.zero_le _)

theorem readsTo_readWord : ReadsTo c rest (some (readWord (c :: rest))) := by
  have split := List.takeWhile_append_dropWhile (p := isWordChar) (l := c :: rest)
  rw [readWord]
  split
  · exact .whole (by decide) (by decide) split.symm
  · rename_i d more stop
    split
    · exact .whole (by decide) (by decide) split.symm
    · -- the foreign character is on the line
      have longer := congrArg List.length stop
      rw [List.length_drop, List.length_cons, List.length_cons] at longer
      refine .flawed ?_ (by omega)
      split <;> simp

/-- A lexeme is a part of the line, from the first character on, or a flaw that begins on it. Only a
block comment can stay open. -/
theorem readsTo_read : ReadsTo c rest (read c rest) := by
  rw [read]
  split
  · rename_i slash
    obtain rfl := eq_of_beq slash
    exact readsTo_readSlash
  · split
    · rename_i bracket
      obtain rfl := eq_of_beq bracket
      exact readsTo_readBracket
    · split
      · rw [readSpecial]
        split
        · exact .flawed (by decide) (Nat.zero_le _)
        · exact .whole (by decide) (by decide) rfl
      · exact readsTo_readWord

theorem readsTo_of_read {result : Option Lexeme} (h : read c rest = result) :
    ReadsTo c rest result := h ▸ readsTo_read

end Lexeme

namespace Scanner

/-- What a step on a line leads to. -/
inductive StepsTo (s : Scanner) : Reply × Scanner → Prop
  | lineEnd {gap : List Char} : IsGap gap → s.line.drop s.pos = gap →
      StepsTo s (.token (.lineEnd s.row s.line.length),
        { s with pos := s.pos + gap.length, spent := true })
  | lexeme {gap cs : List Char} {c : Char} {lexeme : Lexeme} : IsGap gap →
      s.line.drop s.pos = gap ++ c :: cs → Lexeme.read c cs = some lexeme →
      StepsTo s (.token ⟨lexeme.kind, lexeme.text, s.row, s.pos + gap.length + lexeme.offset⟩,
        { s with pos := s.pos + gap.length + lexeme.size })
  | comment {gap cs : List Char} {c : Char} {result : Reply × Scanner} : IsGap gap →
      s.line.drop s.pos = gap ++ c :: cs → Lexeme.read c cs = none →
      closeComment { s with pos := s.pos + gap.length } (s.pos + gap.length) (c :: cs)
        { s with pos := s.pos + gap.length } s.ahead = result →
      StepsTo s result

theorem stepsTo_step (s : Scanner) : s.StepsTo s.step := by
  have split := List.takeWhile_append_dropWhile (p := Lexeme.isGap) (l := s.line.drop s.pos)
  have blank : IsGap ((s.line.drop s.pos).takeWhile Lexeme.isGap) :=
    fun _ inside => List.mem_takeWhile_imp inside
  rw [step]
  dsimp only
  cases found : (s.line.drop s.pos).dropWhile Lexeme.isGap with
  | nil =>
    rw [found, List.append_nil] at split
    exact .lineEnd blank split.symm
  | cons c cs =>
    rw [found] at split
    cases read : Lexeme.read c cs with
    | some lexeme =>
      simp only [read]
      exact .lexeme blank split.symm read
    | none =>
      simp only [read]
      exact .comment blank split.symm read rfl

/-- What goes over several lines is a comment, or the flaw that one stays open. -/
theorem kind_of_closeComment {opening s after : Scanner} {start : Nat} {text : List Char}
    {ahead : List SourceLine} {t : Token}
    (done : closeComment opening start text s ahead = (.token t, after)) :
    t.kind = .comment ∨ t.kind = .flaw := by
  induction ahead generalizing s text with
  | nil =>
    cases done
    exact .inr rfl
  | cons next ahead ih =>
    cases next with
    | unreadable => cases done
    | readable cs =>
      rw [closeComment] at done
      split at done
      · cases done
        exact .inl rfl
      · exact ih done

/-- A comment, closed or not, has its place where it begins. -/
theorem place_of_closeComment {opening s after : Scanner} {start : Nat} {text : List Char}
    {ahead : List SourceLine} {t : Token}
    (done : closeComment opening start text s ahead = (.token t, after)) :
    t.row = opening.row ∧ t.col = start := by
  induction ahead generalizing s text with
  | nil =>
    cases done
    exact ⟨rfl, rfl⟩
  | cons next ahead ih =>
    cases next with
    | unreadable => cases done
    | readable cs =>
      rw [closeComment] at done
      split at done
      · cases done
        exact ⟨rfl, rfl⟩
      · exact ih done

/-- A scanner is at the end of its input when its line is used up and no line is ahead. -/
theorem next_eq_none_iff {s : Scanner} : s.next = none ↔ s.spent = true ∧ s.ahead = [] := by
  constructor
  · intro none
    rw [next] at none
    split at none
    · rename_i spent
      split at none
      · rename_i empty
        exact ⟨spent, empty⟩
      all_goals cases none
    · cases none
  · rintro ⟨spent, empty⟩
    rw [next, if_pos spent, empty]

end Scanner

end TableSchema
