import TableSchema.Proofs.Text.Bytes
import TableSchema.Proofs.Token.Covered
import TableSchema.Proofs.Token.Front

/-!
Blocks of lines.

A scanner gives the same on lines further down in an input, with every row moved by the number of
lines in front (`Scanner.events_down`). So an input that is put together from two blocks of lines
gives the events of the first block, and behind them those of the second one moved down. Only a
comment that is open at the end of the first block would go on in the second
(`Scanner.events_ofLines_append`). As nothing is read behind such a comment, it is enough to look at
the last token of the first block (`Scanner.tokens_ofText_append`).
-/

namespace TableSchema

open Text (SourceLine)

/-- The token, `n` rows further down. -/
def Token.down (n : Nat) (t : Token) : Token := { t with row := t.row + n }

/-- The reply, `n` rows further down. -/
def Reply.down (n : Nat) : Reply → Reply
  | token t => token (t.down n)
  | unreadable => unreadable

/-- The event, `n` rows further down. -/
def Event.down (n : Nat) (e : Event) : Event := ⟨e.reply.down n, e.row + n, e.line⟩

theorem Event.map_down (m n : Nat) (events : List Event) :
    (events.map (down m)).map (down n) = events.map (down (m + n)) := by
  have twice : down n ∘ down m = down (m + n) := by
    funext ⟨reply, row, line⟩
    cases reply <;> simp [down, Reply.down, Token.down, Nat.add_assoc]
  rw [List.map_map, twice]

/-- No comment is left open among these events. -/
def Closed (events : List Event) : Prop := ∀ e ∈ events, ∀ t, e.reply = .token t → ¬t.LeftOpen

namespace Scanner

variable {n : Nat} {s opening after : Scanner} {t : Token}

/-- The scanner with the same text in its line and ahead, `n` rows further down. -/
def down (n : Nat) (s : Scanner) : Scanner := { s with row := s.row + n }

/-! ## Moving down -/

theorem enter_down {cs : List Char} {ahead : List SourceLine} :
    (s.down n).enter cs ahead = (s.enter cs ahead).down n := by
  simp [enter, down, Nat.add_right_comm]

theorem closeComment_down {start : Nat} {text : List Char} {ahead : List SourceLine} :
    closeComment (opening.down n) start text (s.down n) ahead =
      (closeComment opening start text s ahead).map (Reply.down n) (down n) := by
  induction ahead generalizing s text with
  | nil => rfl
  | cons next ahead ih =>
    cases next with
    | unreadable => rfl
    | readable cs =>
      rw [closeComment, closeComment, enter_down]
      cases Lexeme.closing? cs with
      | some size => rfl
      | none => exact ih

theorem step_down : (s.down n).step = s.step.map (Reply.down n) (down n) := by
  rw [step, step]
  dsimp only [down]
  cases (s.line.drop s.pos).dropWhile Lexeme.isGap with
  | nil => rfl
  | cons c cs =>
    cases read : Lexeme.read c cs with
    | some lexeme =>
      simp only [read]
      rfl
    | none =>
      simp only [read]
      generalize s.pos + ((s.line.drop s.pos).takeWhile Lexeme.isGap).length = pos
      exact @closeComment_down n { s with pos := pos } { s with pos := pos } pos (c :: cs) s.ahead

theorem next_down :
    (s.down n).next = s.next.map fun result => result.map (Reply.down n) (down n) := by
  have spent : (s.down n).spent = s.spent := rfl
  have ahead : (s.down n).ahead = s.ahead := rfl
  rw [next, next, spent, ahead]
  split
  · cases s.ahead with
    | nil => rfl
    | cons line ahead =>
      cases line with
      | unreadable => rfl
      | readable cs => exact congrArg some ((congrArg step enter_down).trans step_down)
  · exact congrArg some step_down

/-- The rows in front of a scanner only move the rows of what it gives. -/
theorem events_down : (s.down n).events = s.events.map (Event.down n) := by
  induction s using events_induction with
  | done s none =>
    rw [events_eq, next_down, none]
    rfl
  | step s reply after found ih =>
    rw [events_eq, next_down, found, List.map_cons, ← ih]
    rfl

/-- Nothing depends on a line that is used up, unless the next one is no text. -/
theorem events_of_spent (spent : s.spent = true) (readable : .unreadable ∉ s.ahead)
    (line : List Char) (pos : Nat) :
    ({ s with line := line, pos := pos } : Scanner).events = s.events := by
  have same : ({ s with line := line, pos := pos } : Scanner).next = s.next := by
    rw [next, next]
    simp only [spent, if_true]
    split
    · rfl
    · rename_i unread
      exact absurd (unread ▸ List.mem_cons_self) readable
    · rfl
  rw [events_eq, same, ← events_eq]

/-! ## The end of a block -/

theorem row_add_length_of_closeComment {start : Nat} {text : List Char} {ahead : List SourceLine}
    (done : closeComment opening start text s ahead = (.token t, after)) (closed : ¬t.LeftOpen) :
    after.row + after.ahead.length = s.row + ahead.length := by
  induction ahead generalizing s text with
  | nil =>
    cases done
    exact absurd ⟨rfl, rfl⟩ closed
  | cons next ahead ih =>
    cases next with
    | unreadable => cases done
    | readable cs =>
      rw [closeComment] at done
      split at done
      · cases done
        simp only [enter, List.length_cons]
        omega
      · rw [ih done, List.length_cons]
        simp only [enter]
        omega

theorem row_add_length_of_step (done : s.step = (.token t, after)) (closed : ¬t.LeftOpen) :
    after.row + after.ahead.length = s.row + s.ahead.length := by
  have steps := s.stepsTo_step
  rw [done] at steps
  cases steps with
  | lineEnd | lexeme => rfl
  | comment _ _ _ closes =>
    have counted := row_add_length_of_closeComment closes closed
    exact counted

/-- Every line is either ahead or counted, until a comment stays open. -/
theorem row_add_length_of_next (found : s.next = some (.token t, after)) (closed : ¬t.LeftOpen) :
    after.row + after.ahead.length = s.row + s.ahead.length := by
  rw [next] at found
  split at found
  · split at found
    · cases found
    · cases found
    · rename_i cs ahead split
      rw [row_add_length_of_step (Option.some.inj found) closed, split, List.length_cons]
      simp only [enter]
      omega
  · exact row_add_length_of_step (Option.some.inj found) closed

/-- Lines behind an input give their own events, moved down by all lines that are in front. -/
theorem events_extend {back : List SourceLine} (readable : .unreadable ∉ s.ahead)
    (readable' : .unreadable ∉ back) (closed : Closed s.events) :
    (s.extend back).events =
      s.events ++ (ofLines back).events.map (Event.down (s.row + s.ahead.length)) := by
  induction s using events_induction with
  | done s none =>
    -- at the end of the block only the row is left of what was read
    obtain ⟨spent, empty⟩ := next_eq_none_iff.mp none
    have same : s.extend back =
        { (ofLines back).down s.row with line := s.line, pos := s.pos } := by
      simp [extend, ofLines, down, spent, empty]
    rw [same, events_of_spent rfl readable', events_down, empty]
    rfl
  | step s reply after found ih =>
    obtain ⟨head, tail⟩ := List.forall_mem_cons.mp closed
    obtain ⟨result, found', alike⟩ := exists_alike readable found
    rw [events_eq (s.extend back), found']
    cases alike with
    | final _ later | inner _ _ _ later =>
      rw [List.cons_append, ← row_add_length_of_next found (head _ rfl), ← ih later tail]
      rfl
    | inComment leftOpen => exact absurd leftOpen (head _ rfl)

/-- The events of two blocks of text, if no comment is open between them. -/
theorem events_ofLines_append {front back : List SourceLine} (readable : .unreadable ∉ front)
    (readable' : .unreadable ∉ back) (closed : Closed (ofLines front).events) :
    (ofLines (front ++ back)).events =
      (ofLines front).events ++ (ofLines back).events.map (Event.down front.length) := by
  have whole := events_extend readable readable' closed
  rwa [show (ofLines front).row = 0 from rfl, Nat.zero_add] at whole

/-- The events of two texts, one behind the other, if the first has its last line ended and leaves no
comment open. -/
theorem events_ofText_append {a b : String} (ended : ∀ c ∈ a.toList.getLast?, c = '\n')
    (closed : Closed (ofText a).events) :
    (ofText (a ++ b)).events = (ofText a).events ++
      (ofText b).events.map (Event.down (SourceLine.ofText a).length) := by
  rw [ofText, SourceLine.ofText_append ended]
  exact events_ofLines_append SourceLine.unreadable_not_mem_ofText
    SourceLine.unreadable_not_mem_ofText closed

/-! ## Two texts -/

/-- A comment that stays open is the last token, so there is no other such comment. -/
theorem closed_of_getLast? (readable : .unreadable ∉ s.ahead)
    (closed : ∀ t ∈ s.tokens.getLast?, ¬t.LeftOpen) : Closed s.events := by
  induction s using events_induction with
  | done s none => exact List.forall_mem_nil _
  | step s reply after found ih =>
    obtain ⟨_, _, alike⟩ := @exists_alike s [] reply after readable found
    have rest {t : Token} (head : s.tokens = t :: after.tokens) :
        ∀ u ∈ after.tokens.getLast?, ¬u.LeftOpen := by
      intro u last
      refine closed u ?_
      rw [head, List.getLast?_cons, Option.mem_def.mp last]
      rfl
    cases alike with
    | @final t _ last later =>
      refine List.forall_mem_cons.mpr ⟨?_, ih later (rest (tokens_eq_cons found))⟩
      rintro _ ⟨⟩ leftOpen
      rcases last with newLine | ⟨_, other⟩
      · cases newLine.symm.trans leftOpen.kind
      · exact other leftOpen.text
    | @inner t _ _ flawless _ later =>
      refine List.forall_mem_cons.mpr ⟨?_, ih later (rest (tokens_eq_cons found))⟩
      rintro _ ⟨⟩ leftOpen
      exact flawless leftOpen.kind
    | @inComment t _ _ leftOpen done =>
      -- the scanner is at the end of its input
      have alone : s.tokens = [t] := by
        rw [tokens_eq_cons found, tokens, events_eq, done]
        rfl
      exact absurd leftOpen (closed t (by rw [alone]; rfl))

/-- Where the last line is ended, there are as many lines as line feeds. -/
theorem length_cutLines_of_ended {cs : List Char} (ended : ∀ c ∈ cs.getLast?, c = '\n') :
    (Text.cutLines (· == '\n') cs).length = cs.count '\n' := by
  induction cs using Text.lines_induction with
  | nil => rfl
  | last cs filled unbroken =>
    have last := List.getLast?_eq_some_getLast filled
    exact absurd (ended _ last ▸ List.getLast_mem filled) unbroken
  | line front rest unbroken ih =>
    have later : ∀ c ∈ rest.getLast?, c = '\n' := fun c hc => ended c <| by
      simp [List.getLast?_append, List.getLast?_cons, Option.mem_def.mp hc]
    rw [Text.cutLines_append_cons rfl _ _ (Text.ne_lineFeed_of_not_mem unbroken), List.length_cons,
      ih later, List.count_append, List.count_eq_zero.mpr unbroken, List.count_cons_self,
      Nat.zero_add]

/-- The tokens of two texts, one behind the other, are those of the first, and then those of the
second with their rows moved down by the number of lines of the first. For this the first text has
its last line ended, and its last token is not a comment that stays open. -/
theorem tokens_ofText_append {a : String} (ended : a = "" ∨ a.toList.getLast? = some '\n')
    (closed : ∀ t ∈ (ofText a).tokens.getLast?, ¬t.LeftOpen) (b : String) :
    (SourceLine.ofText a).length = a.toList.count '\n' ∧
    (ofText (a ++ b)).tokens =
      (ofText a).tokens ++ (ofText b).tokens.map (Token.down (SourceLine.ofText a).length) := by
  have whole : ∀ c ∈ a.toList.getLast?, c = '\n' := by
    rcases ended with rfl | last
    · exact nofun
    · exact Text.ended_of_getLast? last
  have events :=
    @events_ofText_append a b whole (closed_of_getLast? SourceLine.unreadable_not_mem_ofText closed)
  refine ⟨(List.length_map _).trans (length_cutLines_of_ended whole), ?_⟩
  have token {n : Nat} (e : Event) : (e.down n).token? = e.token?.map (Token.down n) := by
    obtain ⟨reply, row, line⟩ := e
    cases reply <;> rfl
  rw [tokens, events, List.filterMap_append, List.filterMap_map, tokens, tokens, List.map_filterMap]
  exact congrArg (_ ++ ·) (List.filterMap_congr fun e _ => token e)

/-- A comment over two lines between two flaws, and a flaw behind. -/
theorem tokens_ofText_append_comment :
    (ofText "[x] /*\n*/ #\n").tokens.getLast? = some (.lineEnd 2 4) ∧
    (ofText ("[x] /*\n*/ #\n" ++ "(a\n")).tokens =
      [⟨.flaw, Flaw.unknownSection.message, 1, 0⟩, ⟨.comment, "/*\n*/", 1, 4⟩,
        ⟨.flaw, (Flaw.floating '#').message, 2, 3⟩, .lineEnd 2 4,
        ⟨.flaw, Flaw.openParen.message, 3, 0⟩, ⟨.word, "a", 3, 1⟩, .lineEnd 3 2] := by
  have last : (ofText "[x] /*\n*/ #\n").tokens.getLast? = some (.lineEnd 2 4) := by
    decide +kernel
  have closed : ∀ t ∈ (ofText "[x] /*\n*/ #\n").tokens.getLast?, ¬t.LeftOpen := by
    rw [last]
    rintro _ ⟨⟩ leftOpen
    cases leftOpen.kind
  refine ⟨last, ?_⟩
  rw [(tokens_ofText_append (.inr (by decide +kernel)) closed "(a\n").2]
  decide +kernel

end Scanner

end TableSchema
