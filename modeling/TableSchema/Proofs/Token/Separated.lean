import Mathlib.Data.List.Infix
import TableSchema.Proofs.Token.Written

/-!
Lexemes that are set apart.

A line may hold words, special characters, headers of sections, block comments that close on it, and
a note at its end. If there is a gap between any two of them (`SetApart`), the scanner gives back
exactly these lexemes, whatever stands in the comments (`spelled_events_of_setApart`). Only an
opening parenthesis looks beyond its gap: a closing one has to follow on the line, and it may stand
in a comment.
-/

namespace TableSchema

/-- The inside of a block comment that closes where it is meant to, on the line where it opens. -/
structure BlockBody where
  text : List Char
  unclosed : ¬['*', '/'] <:+: text
  oneLine : '\n' ∉ text

/-- A lexeme on a line: a token as it is written, or a block comment. -/
inductive Piece where
  | plain (w : Written)
  | block (body : BlockBody)

namespace Piece

/-- The characters of a lexeme. -/
def chars : Piece → List Char
  | plain w => w.chars
  | block body => '/' :: '*' :: (body.text ++ ['*', '/'])

/-- The kind of the token that a lexeme is. -/
def kind : Piece → Token.Kind
  | plain w => w.kind
  | block _ => .comment

/-- The kind and the characters of a lexeme. -/
def token (p : Piece) : Token.Kind × List Char := (p.kind, p.chars)

/-- Whether a lexeme may stand in front of others on its line: a closing parenthesis follows an
opening one, and nothing follows a note, which has no line end in it. -/
def Leads : Piece → List Piece → Prop
  | plain (.special c _), ps => c = '(' → ∃ p ∈ ps, ')' ∈ p.chars
  | plain (.note text), ps => ps = [] ∧ IsLine ('/' :: '/' :: text)
  | _, _ => True

end Piece

/-- A line that sets some lexemes apart: between any two stands a gap of at least one character. -/
inductive SetApart : List Piece → List Char → Prop
  | nil : SetApart [] []
  | single {p : Piece} : p.Leads [] → SetApart [p] p.chars
  | cons {p q : Piece} {ps : List Piece} {gap rest : List Char} :
      p.Leads (q :: ps) → gap ≠ [] → IsGap gap → SetApart (q :: ps) rest →
      SetApart (p :: q :: ps) (p.chars ++ gap ++ rest)

/-! ## Single lexemes -/

/-- A comment is closed by the mark behind its body, also when the body ends with a star or begins
with a slash. -/
theorem Lexeme.closing?_append {body rest : List Char} (unclosed : ¬['*', '/'] <:+: body) :
    closing? (body ++ '*' :: '/' :: rest) = some (body.length + 2) := by
  induction body with
  | nil => rfl
  | cons c body ih =>
    have inner : ¬['*', '/'] <:+: body := fun inside => unclosed (List.infix_cons inside)
    -- the mark does not begin at `c`, since `c` and what follows it would be a mark in the body
    have noMark : ∀ tail, c = '*' → body ++ '*' :: '/' :: rest = '/' :: tail → False := by
      intro tail star slash
      cases body with
      | nil => cases (List.cons.inj slash).1
      | cons d body =>
        obtain rfl : d = '/' := (List.cons.inj slash).1
        subst star
        exact unclosed ⟨[], body, rfl⟩
    rw [List.cons_append, closing?.eq_3 _ _ noMark, ih inner]
    rfl

/-- A block comment is read whole, whatever follows it. -/
theorem BlockBody.takes_chars (body : BlockBody) {rest : List Char} :
    Lexeme.Takes .comment (Piece.block body).chars rest := by
  refine ⟨'/', '*' :: (body.text ++ '*' :: '/' :: rest), by simp [Piece.chars], by decide, ?_⟩
  show (Lexeme.closing? (body.text ++ '*' :: '/' :: rest)).map _ = _
  have whole : (body.text ++ '*' :: '/' :: rest).take (body.text.length + 2) =
      body.text ++ ['*', '/'] := by
    rw [List.take_length_add_append]
    rfl
  rw [Lexeme.closing?_append body.unclosed, Option.map_some, whole]
  rfl

/-- A lexeme that is followed by a gap or by nothing is read whole. -/
theorem Piece.takes_chars {p : Piece} {ps : List Piece} {rest : List Char} (leads : p.Leads ps)
    (gap : ∀ c ∈ rest.head?, Lexeme.isGap c = true) (closing : ∀ q ∈ ps, q.chars ⊆ rest)
    (last : ps = [] → rest = []) : Lexeme.Takes p.kind p.chars rest := by
  cases p with
  | plain w =>
    refine w.takes_chars ?_
    cases w with
    | word w =>
      intro c hc
      simp [Lexeme.endsWord, gap c hc]
    | special c special =>
      intro opening
      obtain ⟨q, hq, inside⟩ := leads opening
      exact closing q hq inside
    | header part name => trivial
    | note text => exact last leads.1
  | block body => exact body.takes_chars

theorem Piece.isLine_chars {p : Piece} {ps : List Piece} (leads : p.Leads ps) :
    IsLine p.chars := by
  cases p with
  | plain w =>
    refine w.isLine_chars fun text note => ?_
    subst note
    exact leads.2
  | block body =>
    have oneLine := body.oneLine
    have last : (block body).chars = ('/' :: '*' :: body.text ++ ['*']) ++ ['/'] := by simp [chars]
    refine ⟨by simp [chars, oneLine], ?_⟩
    rw [last, List.getLast?_concat]
    decide

theorem Piece.chars_ne_nil (p : Piece) : p.chars ≠ [] := by
  cases p with
  | plain w =>
    cases w with
    | word w => exact w.filled
    | special | header | note => exact List.cons_ne_nil _ _
  | block body => exact List.cons_ne_nil _ _

/-! ## Lines -/

namespace SetApart

variable {ps : List Piece} {cs : List Char}

theorem subset (h : SetApart ps cs) : ∀ p ∈ ps, p.chars ⊆ cs := by
  induction h with
  | nil => exact nofun
  | single _ =>
    rintro p hp
    obtain rfl := List.mem_singleton.mp hp
    exact List.Subset.refl _
  | @cons p q ps gap rest _ _ _ _ ih =>
    intro p' hp'
    rcases List.mem_cons.mp hp' with rfl | later
    · rw [List.append_assoc]
      exact List.subset_append_left _ _
    · exact List.Subset.trans (ih p' later) (List.subset_append_right _ _)

/-- The scanner finds the lexemes of a line. -/
theorem scanned (h : SetApart ps cs) : Scanned (ps.map Piece.token) cs := by
  -- a gap goes to the lexeme behind it, so the induction is over lines with a gap in front
  suffices ∀ gap, IsGap gap → Scanned (ps.map Piece.token) (gap ++ cs) from this [] nofun
  induction h with
  | nil =>
    intro gap blank
    rw [List.append_nil]
    exact .blank blank
  | @single p leads =>
    intro gap blank
    have takes : Lexeme.Takes p.kind p.chars [] :=
      Piece.takes_chars leads nofun nofun fun _ => rfl
    have line := Scanned.token blank takes (.blank nofun)
    rwa [List.append_nil] at line
  | @cons p q ps between rest leads filled isGap later ih =>
    intro gap blank
    have takes : Lexeme.Takes p.kind p.chars (between ++ rest) := by
      refine Piece.takes_chars leads ?_ ?_ nofun
      · rw [List.head?_append_of_ne_nil _ filled]
        exact fun c hc => isGap c (List.mem_of_mem_head? hc)
      · intro r hr
        exact List.Subset.trans (later.subset r hr) (List.subset_append_right _ _)
    have line := Scanned.token blank takes (ih between isGap)
    rwa [List.append_assoc, ← List.append_assoc p.chars] at line

/-- A line ends where its last lexeme does, and no lexeme has a line feed in it. -/
theorem isLine (h : SetApart ps cs) : IsLine cs := by
  induction h with
  | nil => exact ⟨nofun, nofun⟩
  | single leads => exact Piece.isLine_chars leads
  | @cons p q ps gap rest leads _ isGap later ih =>
    have first := Piece.isLine_chars leads
    have blank : '\n' ∉ gap := fun inside => absurd (isGap _ inside) (by decide)
    have filled : rest ≠ [] := by
      cases later with
      | single => exact q.chars_ne_nil
      | cons => simp [q.chars_ne_nil]
    refine ⟨by simp [first.1, blank, ih.1], ?_⟩
    rw [List.getLast?_append_of_ne_nil _ filled]
    exact ih.2

end SetApart

/-! ## Texts -/

theorem Piece.kind_ne_flaw (p : Piece) : p.kind ≠ .flaw := by
  rcases p with (_ | _ | _ | _) | _ <;> exact nofun

/-- Lines that set lexemes apart are scanned into exactly these lexemes, each with its kind and its
characters, and one end of line for every line. Nothing in them is a flaw. -/
theorem spelled_events_of_setApart {content : List (List Piece)} {text : String}
    (writes : LineByLine SetApart content text.toList) :
    (Scanner.ofText text).events.map Event.spelled =
        content.flatMap (fun ps => spelledTokens (ps.map Piece.token)) ∧
      ∀ e ∈ (Scanner.ofText text).events, ∃ t, e.reply = .token t ∧ t.kind ≠ .flaw := by
  have spelled : (Scanner.ofText text).events.map Event.spelled =
      content.flatMap fun ps => spelledTokens (ps.map Piece.token) :=
    writes.spelled_events (fun _ _ line => line.isLine) fun _ _ line => line.scanned
  refine ⟨spelled, fun e he => ?_⟩
  have told : e.spelled ∈ content.flatMap fun ps => spelledTokens (ps.map Piece.token) := by
    rw [← spelled]
    exact List.mem_map_of_mem he
  obtain ⟨ps, _, told⟩ := List.mem_flatMap.mp told
  -- what the event says is the kind of a lexeme or the end of a line
  have kind : ∃ kind text, e.spelled = some (kind, text) ∧ kind ≠ .flaw := by
    rw [spelledTokens, List.map_map] at told
    rcases List.mem_append.mp told with told | told
    · obtain ⟨p, _, same⟩ := List.mem_map.mp told
      exact ⟨_, _, same.symm, p.kind_ne_flaw⟩
    · exact ⟨_, _, List.mem_singleton.mp told, by decide⟩
  obtain ⟨kind, text, said, flawless⟩ := kind
  cases reply : e.reply with
  | unreadable => simp [Event.spelled, reply] at said
  | token t =>
    simp only [Event.spelled, reply, Option.some.injEq, Prod.mk.injEq] at said
    exact ⟨t, rfl, said.1 ▸ flawless⟩

/-- A block comment with a parenthesis in it, and a star in front of its end. -/
def starred : Piece := .block ⟨[')', '*'], by decide, by decide⟩

theorem isSpecial_openParen : Lexeme.isSpecial '(' = true := by decide

/-- Comments that could seem to close too early, a parenthesis that is closed in one of them, and a
note with a parenthesis. -/
def traps : List (List Piece) :=
  [[.block ⟨['/'], by decide, by decide⟩, .plain (.special '(' isSpecial_openParen),
      .plain (.word (.of "a.b" (by decide) (by decide))), starred],
    [],
    [.plain (.header .fields ⟨"FIELDS", by decide⟩), .plain (.note [' ', '('])]]

/-- One of the texts that write the `traps`. -/
def trapsText : String := "/*/*/ ( a.b\t\x0c/*)**/\r\n\n[FIELDS] // (\n"

theorem spelled_events_of_setApart_traps : LineByLine SetApart traps trapsText.toList ∧
    (Scanner.ofText trapsText).events.map Event.spelled =
      [some (.comment, "/*/*/"), some (.special, "("), some (.word, "a.b"),
        some (.comment, "/*)**/"), some (.newLine, "\n"), some (.newLine, "\n"),
        some (.header, "[FIELDS]"), some (.comment, "// ("), some (.newLine, "\n")] := by
  have space : IsGap [' '] := List.forall_mem_singleton.mpr (by decide)
  have mixed : IsGap ['\t', '\x0c'] := List.forall_mem_cons.mpr
    ⟨by decide, List.forall_mem_singleton.mpr (by decide)⟩
  have first : SetApart traps[0] _ :=
    .cons trivial (List.cons_ne_nil _ _) space <|
    .cons (fun _ => ⟨starred, .tail _ (.head _), by decide⟩) (List.cons_ne_nil _ _) space <|
    .cons trivial (List.cons_ne_nil _ _) mixed <| .single trivial
  have third : SetApart traps[2] _ :=
    .cons trivial (List.cons_ne_nil _ _) space <| .single ⟨rfl, by decide, by decide⟩
  have lines := LineByLine.line first (.inr rfl) <|
    LineByLine.line .nil (.inl rfl) <| LineByLine.line third (.inl rfl) .nil
  have written : LineByLine SetApart traps trapsText.toList := by
    refine Eq.mp (congrArg (LineByLine SetApart traps) ?_) lines
    decide +kernel
  exact ⟨written, (spelled_events_of_setApart written).1.trans (by decide +kernel)⟩

end TableSchema
