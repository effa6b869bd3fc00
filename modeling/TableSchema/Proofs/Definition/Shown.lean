import TableSchema.Proofs.Token.Written
import TableSchema.Definition.Entry

/-!
Entries that show what was written.

A reader of lines looks at the kinds and texts of tokens only, unless it has to refuse them. So it
is enough to know that an entry shows the tokens of a line (`Entry.Shows`), wherever they stood. The
entries of a text show its lines one by one (`shows_of_writes`).
-/

namespace TableSchema.Definition

open List (Forall₂)

/-- The token that was read is the one that was written. -/
structure Seen.Shows (seen : Seen) (w : Written) : Prop where
  kind : seen.token.kind = w.kind
  text : seen.token.text = String.ofList w.chars

/-- The entry holds the tokens of a line, and nothing went wrong before its end. -/
structure Entry.Shows (e : Entry) (ws : List Written) : Prop where
  tokens : Forall₂ Seen.Shows e.tokens ws
  ending : ∃ mark : Seen, e.ending = .newLine mark ∧ mark.token.kind = .newLine

theorem exists_append_of_forall₂ {α β : Type} {R : α → β → Prop} {l : List α} {front back : List β}
    (h : Forall₂ R l (front ++ back)) :
    ∃ a b, l = a ++ b ∧ Forall₂ R a front ∧ Forall₂ R b back :=
  ⟨_, _, (List.take_append_drop front.length l).symm, List.forall₂_take_append l front back h,
    List.forall₂_drop_append l front back h⟩

namespace Entry

/-- The first line of a spelled text is shown by the first entry. -/
theorem exists_shows_of_spelled {ws : List Written} {events : List Event}
    {rest : List (Option (Token.Kind × String))}
    (spelled : events.map Event.spelled = spelledLine ws ++ rest) :
    ∃ e others, ofEvents events = e :: ofEvents others ∧ e.Shows ws ∧
      others.map Event.spelled = rest := by
  induction ws generalizing events with
  | nil =>
    obtain ⟨⟨reply, row, line⟩, others, rfl, first, later⟩ := List.map_eq_cons_iff.mp spelled
    cases reply with
    | unreadable => cases first
    | token token =>
      obtain ⟨kind, _⟩ := Prod.mk.inj (Option.some.inj first)
      refine ⟨⟨[], .newLine ⟨token, line⟩⟩, others, ?_, ⟨.nil, _, rfl, kind⟩, later⟩
      simp only [ofEvents, kind]
  | cons w ws ih =>
    obtain ⟨⟨reply, row, line⟩, events, rfl, first, later⟩ := List.map_eq_cons_iff.mp spelled
    cases reply with
    | unreadable => cases first
    | token token =>
      obtain ⟨kind, text⟩ := Prod.mk.inj (Option.some.inj first)
      obtain ⟨e, others, read, shown, tail⟩ := ih later
      refine ⟨{ e with tokens := ⟨token, line⟩ :: e.tokens }, others, ?_,
        ⟨.cons ⟨kind, text⟩ shown.tokens, shown.ending⟩, tail⟩
      cases w <;> simp only [ofEvents, kind, Written.kind, read]

/-- Every line of a spelled text is shown by an entry. -/
theorem shows_of_spelled {content : List (List Written)} {events : List Event}
    (spelled : events.map Event.spelled = content.flatMap spelledLine) :
    Forall₂ Entry.Shows (ofEvents events) content := by
  induction content generalizing events with
  | nil =>
    obtain rfl := List.map_eq_nil_iff.mp spelled
    exact .nil
  | cons ws content ih =>
    obtain ⟨e, others, read, first, rest⟩ := exists_shows_of_spelled spelled
    rw [read]
    exact .cons first (ih rest)

/-- The entries of a text show what was written on its lines. -/
theorem shows_of_writes {content : List (List Written)} {text : String}
    (writes : Writes content text.toList) :
    Forall₂ Entry.Shows (ofEvents (Scanner.ofText text).events) content :=
  shows_of_spelled (spelled_events writes)

end Entry

/-! ## What the readers ask about a token -/

namespace Seen.Shows

variable {seen : Seen}

section Word

variable {w : Word} (h : seen.Shows (.word w))

include h

theorem text_eq : seen.token.text = w.text := by
  rw [h.text]
  exact String.ofList_toList

theorem isWord : seen.token.isWord = true := by
  rw [Token.isWord, h.kind]
  rfl

theorem isKeyword (keyword : String) :
    seen.token.isKeyword keyword = Text.sameLetters w.text keyword := by
  rw [Token.isKeyword, h.kind, h.text_eq]
  rfl

theorem word_isSpecial (c : Char) : seen.token.isSpecial c = false := by
  rw [Token.isSpecial, Token.special?, h.kind]
  rfl

theorem word_isComment : seen.token.isComment = false := by
  rw [Token.isComment, h.kind]
  rfl

theorem isNumeric (digits : ∀ c ∈ w.text.toList, c.isDigit = true) :
    seen.token.isNumeric = true := by
  have filled : w.text.toList.isEmpty = false := by simpa using w.filled
  rw [Token.isNumeric, h.kind, h.text_eq, filled]
  simpa [Written.kind] using digits

end Word

theorem special? {c : Char} {special : Lexeme.isSpecial c = true}
    (h : seen.Shows (.special c special)) : seen.token.special? = some c := by
  rw [Token.special?, h.kind, h.text, String.toList_ofList]
  rfl

theorem isSpecial {c : Char} {special : Lexeme.isSpecial c = true}
    (h : seen.Shows (.special c special)) (d : Char) : seen.token.isSpecial d = (c == d) := by
  rw [Token.isSpecial, h.special?]
  rfl

theorem isComment {text : List Char} (h : seen.Shows (.note text)) :
    seen.token.isComment = true := by
  rw [Token.isComment, h.kind]
  rfl

theorem commentBody {text : List Char} (h : seen.Shows (.note text)) :
    seen.token.commentBody = String.ofList (Text.trim text) := by
  rw [Token.commentBody, h.text, String.toList_ofList]
  rfl

/-- The section of a header is the one whose name was written. -/
theorem heading? {part : Section} {name : Spelling part.name}
    (h : seen.Shows (.header part name)) : seen.token.heading? = some part := by
  obtain ⟨opening, closing⟩ := name.bracket_not_mem
  rw [Token.heading?_of_text h.kind h.text opening closing, String.ofList_toList]
  exact Section.ofName?_spelling name

end Seen.Shows

end TableSchema.Definition
