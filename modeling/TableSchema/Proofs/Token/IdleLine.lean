import TableSchema.Proofs.Token.Blocks
import TableSchema.Proofs.Token.Separated

/-!
Lines on which nothing is declared.

A line may be blank, or hold one comment and nothing else (`IdleLine`). It gives the comment and the
end of the line (`Remarks`), and no comment stays open on it. So when it is put between two blocks
of lines, its events come between theirs, and those of the second block move down
(`Scanner.events_insert`).
-/

namespace TableSchema

open Text (SourceLine)

/-- A line with blanks on it and one comment at most. The comment says `doc`. -/
inductive IdleLine : Option String → List Char → Prop
  | blank {gap : List Char} : IsGap gap → IdleLine none gap
  | note {gap text : List Char} : IsGap gap →
      IdleLine (some (String.ofList (Text.trim text))) (gap ++ '/' :: '/' :: text)
  | block {gap rest : List Char} {body : BlockBody} : IsGap gap → IsGap rest →
      IdleLine (some (String.ofList (Text.trim body.text)))
        (gap ++ ('/' :: '*' :: (body.text ++ ['*', '/'])) ++ rest)

/-- The events of a line with one comment at most, which says `doc`, and its end. -/
inductive Remarks : Option String → List Event → Prop
  | silent {mark : Token} {row : Nat} {line : List Char} : mark.kind = .newLine →
      Remarks none [⟨.token mark, row, line⟩]
  | remark {t mark : Token} {row row' : Nat} {line line' : List Char} : t.kind = .comment →
      mark.kind = .newLine →
      Remarks (some t.commentBody) [⟨.token t, row, line⟩, ⟨.token mark, row', line'⟩]

theorem Remarks.closed {doc : Option String} {events : List Event} (h : Remarks doc events) :
    Closed events := by
  intro e he t reply leftOpen
  cases h with
  | silent newLine =>
    obtain rfl := List.mem_singleton.mp he
    cases reply
    cases newLine.symm.trans leftOpen.kind
  | remark comment newLine =>
    rcases List.mem_cons.mp he with rfl | he
    · cases reply
      cases comment.symm.trans leftOpen.kind
    · obtain rfl := List.mem_singleton.mp he
      cases reply
      cases newLine.symm.trans leftOpen.kind

theorem Remarks.down {doc : Option String} {events : List Event} (h : Remarks doc events)
    (n : Nat) : Remarks doc (events.map (Event.down n)) := by
  cases h with
  | silent newLine => exact .silent newLine
  | @remark t mark row row' line line' comment newLine =>
    exact @Remarks.remark (t.down n) (mark.down n) (row + n) (row' + n) line line' comment newLine

theorem exists_of_spelled {e : Event} {kind : Token.Kind} {text : String}
    (h : e.spelled = some (kind, text)) :
    ∃ t row line, e = ⟨.token t, row, line⟩ ∧ t.kind = kind ∧ t.text = text := by
  obtain ⟨reply, row, line⟩ := e
  cases reply with
  | unreadable => cases h
  | token t =>
    obtain ⟨rfl, rfl⟩ := Prod.mk.inj (Option.some.inj h)
    exact ⟨t, row, line, rfl, rfl, rfl⟩

/-- The events of a line on which the scanner finds nothing or one comment. -/
theorem remarks_of_scanned {line : List Char} {tokens : List (Token.Kind × List Char)}
    {doc : Option String} (scanned : Scanned tokens line)
    (one : tokens = [] ∧ doc = none ∨ ∃ chars, tokens = [(.comment, chars)] ∧
      doc = some (String.ofList (Text.trim (Token.uncommented chars)))) :
    Remarks doc (Scanner.ofLines [.readable line]).events := by
  have spelled : (Scanner.ofLines [.readable line]).events.map Event.spelled =
      spelledTokens tokens := by
    rw [Scanner.spelled_lines (.cons scanned .nil) rfl rfl, List.flatMap_singleton]
  rcases one with ⟨rfl, rfl⟩ | ⟨chars, rfl, rfl⟩
  · obtain ⟨e, rest, split, first, last⟩ := List.map_eq_cons_iff.mp spelled
    obtain rfl := List.map_eq_nil_iff.mp last
    obtain ⟨mark, row, text, rfl, kind, _⟩ := exists_of_spelled first
    rw [split]
    exact .silent kind
  · obtain ⟨e, rest, split, first, last⟩ := List.map_eq_cons_iff.mp spelled
    obtain ⟨e', rest', rfl, second, last⟩ := List.map_eq_cons_iff.mp last
    obtain rfl := List.map_eq_nil_iff.mp last
    obtain ⟨t, row, text, rfl, comment, chars'⟩ := exists_of_spelled first
    obtain ⟨mark, row', text', rfl, kind, _⟩ := exists_of_spelled second
    have body : String.ofList (Text.trim (Token.uncommented chars)) = t.commentBody := by
      rw [Token.commentBody, chars', String.toList_ofList]
    rw [split, body]
    exact .remark comment kind

theorem BlockBody.uncommented_chars (body : BlockBody) :
    Token.uncommented (Piece.block body).chars = body.text := by
  simp [Token.uncommented, Piece.chars]

/-- An idle line gives its comment, if there is one, and its end. -/
theorem IdleLine.remarks {doc : Option String} {line : List Char} (idle : IdleLine doc line) :
    Remarks doc (Scanner.ofLines [.readable line]).events := by
  cases idle with
  | blank gap => exact remarks_of_scanned (.blank gap) (.inl ⟨rfl, rfl⟩)
  | @note gap text isGap =>
    have takes : Lexeme.Takes .comment ('/' :: '/' :: text) [] :=
      @Written.takes_chars (.note text) [] rfl
    have scanned := Scanned.token isGap takes (.blank nofun)
    rw [List.append_nil] at scanned
    exact remarks_of_scanned scanned (.inr ⟨_, rfl, rfl⟩)
  | @block gap rest body isGap isGap' =>
    have scanned := Scanned.token isGap body.takes_chars (.blank isGap')
    exact remarks_of_scanned scanned (.inr ⟨_, rfl, by rw [body.uncommented_chars]⟩)

/-! ## Texts -/

/-- A line that is put between two blocks of lines gives its events between theirs. -/
theorem Scanner.events_insert {a b line : String} {doc : Option String}
    (ended : ∀ c ∈ a.toList.getLast?, c = '\n') (closed : Closed (ofText a).events)
    (unbroken : '\n' ∉ line.toList) (idle : IdleLine doc (Text.lineText line.toList)) :
    ∃ n m remarks, Remarks doc remarks ∧
      (ofText (a ++ b)).events = (ofText a).events ++ (ofText b).events.map (Event.down n) ∧
      (ofText (a ++ line ++ "\n" ++ b)).events =
        (ofText a).events ++ (remarks ++ (ofText b).events.map (Event.down m)) := by
  have lineEnded : ∀ c ∈ (line ++ "\n").toList.getLast?, c = '\n' := by
    rw [String.toList_append]
    exact Text.ended_of_getLast? (List.getLast?_concat)
  have remarks := idle.remarks
  have closedLine := remarks.closed
  rw [← SourceLine.ofText_line unbroken] at remarks closedLine
  have inserted : a ++ line ++ "\n" ++ b = a ++ (line ++ "\n" ++ b) := by
    simp only [String.append_assoc]
  let n := (SourceLine.ofText a).length
  refine ⟨n, (SourceLine.ofText (line ++ "\n")).length + n, _, remarks.down n,
    events_ofText_append ended closed, ?_⟩
  rw [inserted, events_ofText_append ended closed, events_ofText_append lineEnded closedLine,
    List.map_append, Event.map_down]
  rfl

end TableSchema
