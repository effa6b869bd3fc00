import TableSchema.Proofs.Token.Rows

/-!
Nothing of a text is lost.

If no token of a text is a flaw, the lines of the text are its tokens with gaps between them
(`Covers`): each token is what the lines say at the place of the token, and whatever stands between
two of them is a gap. The end of a line is a token of its own, except where a block comment goes
over it (`covers_of_flawless`).
-/

namespace TableSchema

open Text (SourceLine texts)

namespace Text

/-- Lines one after the other, each with a line feed at its end. -/
def joined (lines : List (List Char)) : List Char := lines.flatMap (· ++ ['\n'])

/-- What the lines say from a place on. Rows count from one, columns from zero. -/
def textFrom (lines : List (List Char)) (row col : Nat) : List Char :=
  match row with
  | 0 => []
  | before + 1 =>
    match lines.drop before with
    | [] => []
    | line :: later => line.drop col ++ '\n' :: joined later

theorem joined_cons (line : List Char) (lines : List (List Char)) :
    joined (line :: lines) = line ++ '\n' :: joined lines := by
  simp [joined]

end Text

open Text (joined textFrom)

/-- The tokens are all of a text but for gaps. Each token is what the `lines` say at its place. -/
inductive Covers (lines : List (List Char)) : List Char → List Token → Prop
  | done : Covers lines [] []
  | token {gap rest : List Char} {t : Token} {tokens : List Token} :
      IsGap gap → textFrom lines t.row t.col = t.text.toList ++ rest → Covers lines rest tokens →
      Covers lines (gap ++ t.text.toList ++ rest) (t :: tokens)

namespace Token

/-- Whether a token is the end of the line `row`. -/
def endsLine (t : Token) (row : Nat) : Bool := t.kind == .newLine && t.row == row

/-- Whether a token is a block comment. -/
def isBlock (t : Token) : Bool := t.isComment && ['/', '*'].isPrefixOf t.text.toList

/-- Whether the end of the line `row` lies inside the block comment `t`. -/
def encloses (t : Token) (row : Nat) : Bool := t.isBlock && t.row ≤ row && row < t.endRow

end Token

/-- The token of an event, if it is one. -/
def Event.token? (e : Event) : Option Token :=
  match e.reply with
  | .token t => some t
  | .unreadable => none

namespace Scanner

/-- All tokens that are left. -/
def tokens (s : Scanner) : List Token := s.events.filterMap Event.token?

/-- What the scanner has not used up, with a line feed at the end of every line. -/
def left (s : Scanner) : List Char :=
  (if s.spent then [] else s.line.drop s.pos ++ ['\n']) ++ joined (texts s.ahead)

/-- The number of lines whose ends the scanner has passed. -/
def passed (s : Scanner) : Nat := if s.spent then s.row else s.row - 1

theorem tokens_of_none {s : Scanner} (h : s.next = none) : s.tokens = [] := by
  rw [tokens, events_eq, h]
  rfl

theorem tokens_eq_cons {s after : Scanner} {t : Token} (h : s.next = some (.token t, after)) :
    s.tokens = t :: after.tokens := by
  rw [tokens, events_eq, h]
  rfl

/-! ## A token and the text ahead -/

variable {source : List SourceLine} {s after opening : Scanner} {t : Token} {reply : Reply}

/-- A token that comes when so many ends of lines are passed is the next of them, or it ends within
the next line or a later one. Only a block comment goes on in a later one. -/
inductive Ends (lines : List (List Char)) (passed : Nat) (t : Token) (after : Scanner) : Prop
  | line {line : List Char} : lines[passed]? = some line →
      t = .lineEnd (passed + 1) line.length → after.passed = passed + 1 → Ends lines passed t after
  | within : t.kind ≠ .newLine → t.row = passed + 1 → t.endRow = after.passed + 1 →
      t.isBlock = true ∨ t.endRow = t.row → Ends lines passed t after

/-- The token `t` comes next, with a gap in front of it, and then the scanner still has all lines
ahead that are not used up. -/
structure Passes (source : List SourceLine) (s : Scanner) (t : Token) (after : Scanner) : Prop where
  ahead : texts after.ahead = (texts source).drop after.row
  left : ∃ gap, IsGap gap ∧ s.left = gap ++ t.text.toList ++ after.left
  text : textFrom (texts source) t.row t.col = t.text.toList ++ after.left
  ends : Ends (texts source) s.passed t after

theorem left_of_unspent (unspent : s.spent = false) :
    s.left = s.line.drop s.pos ++ '\n' :: joined (texts s.ahead) := by
  rw [left, unspent, if_neg Bool.false_ne_true, List.append_assoc, List.singleton_append]

theorem Follows.row_eq_succ_passed (h : s.Follows source) (unspent : s.spent = false) :
    s.row = s.passed + 1 := by
  have pos := h.row_pos unspent
  rw [passed, unspent, if_neg Bool.false_ne_true]
  omega

theorem Follows.getElem?_passed (h : s.Follows source) (unspent : s.spent = false) :
    (texts source)[s.passed]? = some s.line := by
  have line := h.line
  rwa [h.row_eq_succ_passed unspent, List.getElem?_cons_succ] at line

/-- What the lines say on the line on which the scanner stands. -/
theorem Follows.textFrom_row (h : s.Follows source) (unspent : s.spent = false)
    (whole : texts s.ahead = (texts source).drop s.row) (col : Nat) :
    textFrom (texts source) s.row col = s.line.drop col ++ '\n' :: joined (texts s.ahead) := by
  obtain ⟨inside, here⟩ := List.getElem?_eq_some_iff.mp (h.getElem?_passed unspent)
  rw [h.row_eq_succ_passed unspent] at whole
  rw [h.row_eq_succ_passed unspent, textFrom, List.drop_eq_getElem_cons inside, here, ← whole]

/-- A token that stands behind a gap on the line of the scanner, with `later` behind it. -/
theorem Follows.left_eq_append (h : s.Follows source) (unspent : s.spent = false)
    (whole : texts s.ahead = (texts source).drop s.row) {gap rest chars later : List Char}
    (here : s.line.drop s.pos = gap ++ rest)
    (split : rest ++ '\n' :: joined (texts s.ahead) = chars ++ later) :
    s.left = gap ++ chars ++ later ∧
      textFrom (texts source) s.row (s.pos + gap.length) = chars ++ later := by
  constructor
  · rw [left_of_unspent unspent, here, List.append_assoc, split, List.append_assoc]
  · rw [h.textFrom_row unspent whole, ← List.drop_drop, here, List.drop_left, split]

/-- The lines ahead of a scanner that enters one of them. -/
theorem texts_ahead_of_enter {lines : List (List Char)} {cs : List Char} {ahead : List SourceLine}
    {row : Nat} (whole : texts (.readable cs :: ahead) = lines.drop row) :
    texts ahead = lines.drop (row + 1) := by
  rw [← List.tail_drop, ← whole]
  rfl

/-- A comment that goes over further lines takes their text up to its end. -/
theorem left_of_closeComment {lines : List (List Char)} {start : Nat} {text : List Char}
    {ahead : List SourceLine} (readable : .unreadable ∉ ahead)
    (whole : texts ahead = lines.drop s.row)
    (done : closeComment opening start text s ahead = (.token t, after))
    (flawless : t.kind ≠ .flaw) :
    t.kind = .comment ∧ after.spent = false ∧ texts after.ahead = lines.drop after.row ∧
      ∃ more, t.text.toList = text ++ more ∧ '\n' :: joined (texts ahead) = more ++ after.left := by
  -- over the lines ahead, each of which is taken whole until one closes the comment
  induction ahead generalizing s text with
  | nil =>
    obtain ⟨same, _⟩ := Prod.mk.inj done
    cases same
    exact absurd rfl flawless
  | cons next ahead ih =>
    cases next with
    | unreadable => exact absurd List.mem_cons_self readable
    | readable cs =>
      have further : texts ahead = lines.drop (s.row + 1) := texts_ahead_of_enter whole
      have split : '\n' :: joined (texts (.readable cs :: ahead)) =
          ('\n' :: cs) ++ '\n' :: joined (texts ahead) := congrArg _ (Text.joined_cons cs _)
      rw [closeComment] at done
      split at done
      · rename_i size _
        obtain ⟨same, rfl⟩ := Prod.mk.inj done
        cases same
        refine ⟨rfl, rfl, further, '\n' :: cs.take size, String.toList_ofList, ?_⟩
        have behind : left { s.enter cs ahead with pos := size } =
            cs.drop size ++ '\n' :: joined (texts ahead) := left_of_unspent rfl
        have cut : '\n' :: cs = '\n' :: cs.take size ++ cs.drop size := by
          rw [List.cons_append, List.take_append_drop]
        rw [split, behind, cut, List.append_assoc]
      · have later : .unreadable ∉ ahead := fun inside => readable (List.mem_cons_of_mem _ inside)
        obtain ⟨comment, unspent, ahead', more, text', rest⟩ := ih later further done
        refine ⟨comment, unspent, ahead', '\n' :: cs ++ more, ?_, ?_⟩
        · rw [text', List.append_assoc]
        · rw [split, rest, List.append_assoc]

/-- A scanner on its way over the lines of an input, in which no flaw is left. -/
structure Tracks (source : List SourceLine) (s : Scanner) : Prop where
  follows : s.Follows source
  ahead : texts s.ahead = (texts source).drop s.row
  flawless : ∀ t ∈ s.tokens, t.kind ≠ .flaw

section

variable (readable : .unreadable ∉ source) (unbroken : ∀ cs, .readable cs ∈ source → '\n' ∉ cs)

include readable unbroken

theorem passes_of_step (h : s.Follows source) (whole : texts s.ahead = (texts source).drop s.row)
    (unspent : s.spent = false) (done : s.step = (.token t, after)) (flawless : t.kind ≠ .flaw) :
    Passes source s t after := by
  have turn := h.row_eq_succ_passed unspent
  obtain ⟨follows, reads⟩ : after.Follows source ∧ Reads s.row t after :=
    follows_of_step unbroken h unspent done
  have steps := s.stepsTo_step
  rw [done] at steps
  cases steps with
  | @lineEnd gap blank here =>
    have feed : '\n' :: joined (texts s.ahead) =
        "\n".toList ++ left { s with pos := s.pos + gap.length, spent := true } := by
      simp [left]
    refine ⟨whole, ⟨gap, blank, ?_⟩, ?_, .line (h.getElem?_passed unspent) ?_ turn⟩
    · rw [left_of_unspent unspent, here, feed, List.append_assoc]
      rfl
    · refine Eq.trans ?_ feed
      show textFrom (texts source) s.row s.line.length = _
      rw [h.textFrom_row unspent whole, List.drop_length, List.nil_append]
    · rw [turn]
  | @lexeme gap cs c lexeme blank here read =>
    cases Lexeme.readsTo_of_read read with
    | flawed => exact absurd rfl flawless
    | @whole kind chars more _ noEnd split =>
      have rest : left { s with pos := s.pos + gap.length + chars.length } =
          more ++ '\n' :: joined (texts s.ahead) := by
        rw [left_of_unspent (by exact unspent)]
        show s.line.drop (s.pos + gap.length + chars.length) ++ _ = _
        rw [← List.drop_drop, ← List.drop_drop, here, List.drop_left, split, List.drop_left]
      have token : c :: cs ++ '\n' :: joined (texts s.ahead) = (String.ofList chars).toList ++
          left { s with pos := s.pos + gap.length + chars.length } := by
        rw [rest, String.toList_ofList, split, List.append_assoc]
      obtain ⟨left, text⟩ := h.left_eq_append unspent whole here token
      have ends := reads.endRow_eq.trans turn
      exact ⟨whole, ⟨gap, blank, left⟩, text, .within noEnd turn ends (.inr reads.endRow_eq)⟩
  | @comment gap cs c _ blank here read closes =>
    obtain ⟨rfl, body, rfl⟩ : c = '/' ∧ ∃ body, cs = '*' :: body := by
      cases Lexeme.readsTo_of_read read with
      | unclosed slash star => exact ⟨slash, _, star⟩
    have later : .unreadable ∉ s.ahead := fun inside => readable (h.suffix.subset inside)
    obtain ⟨row, col⟩ := place_of_closeComment closes
    obtain ⟨comment, within, ahead, more, text, rest⟩ :=
      left_of_closeComment later (by exact whole) closes flawless
    have token : '/' :: '*' :: body ++ '\n' :: joined (texts s.ahead) =
        t.text.toList ++ after.left := by
      rw [text, rest, List.append_assoc]
    obtain ⟨left, text'⟩ := h.left_eq_append unspent whole here token
    have noEnd : t.kind ≠ .newLine := by simp [comment]
    have block : t.isBlock = true := by simp [Token.isBlock, Token.isComment, comment, text]
    have ends := reads.endRow_eq.trans (follows.row_eq_succ_passed within)
    refine ⟨ahead, ⟨gap, blank, left⟩, ?_, .within noEnd (row.trans turn) ends (.inl block)⟩
    rw [row, col]
    exact text'

/-- A scanner on its way takes the next token and goes on its way. -/
theorem Tracks.exists_passes (h : s.Tracks source) (found : s.next = some (reply, after)) :
    ∃ t, reply = .token t ∧ Passes source s t after ∧ after.Tracks source := by
  obtain ⟨follows, replies⟩ := follows_of_next unbroken h.follows found
  cases reply with
  | unreadable => exact absurd replies readable
  | token t =>
    have first : s.tokens = t :: after.tokens := tokens_eq_cons found
    obtain ⟨flawless, later⟩ := List.forall_mem_cons.mp (first ▸ h.flawless)
    suffices passes : Passes source s t after from ⟨t, rfl, passes, follows, passes.ahead, later⟩
    rw [next] at found
    split at found
    · rename_i spent
      split at found
      · cases found
      · cases found
      · rename_i cs ahead next
        have whole := h.ahead
        rw [next] at whole
        have entered : Passes source (s.enter cs ahead) t after :=
          passes_of_step readable unbroken (h.follows.enter next) (texts_ahead_of_enter whole) rfl
            (Option.some.inj found) flawless
        have same : s.left = (s.enter cs ahead).left := by
          rw [left_of_unspent (s := s.enter cs ahead) rfl, left, if_pos spent, next]
          exact Text.joined_cons cs _
        have turn : s.passed = (s.enter cs ahead).passed := if_pos spent
        exact ⟨entered.ahead, same ▸ entered.left, entered.text, turn ▸ entered.ends⟩
    · rename_i unspent
      exact passes_of_step readable unbroken h.follows h.ahead (by simpa using unspent)
        (Option.some.inj found) flawless

/-- An induction over the tokens of a scanner on its way. -/
@[elab_as_elim]
theorem tracks_induction {motive : ∀ s : Scanner, s.Tracks source → Prop}
    (done : ∀ s h, s.tokens = [] → s.left = [] → (texts source).length ≤ s.passed → motive s h)
    (step : ∀ s h t after, s.tokens = t :: after.tokens → Passes source s t after →
      ∀ later : after.Tracks source, motive after later → motive s h)
    (s : Scanner) (h : s.Tracks source) : motive s h := by
  induction size : s.size using Nat.strong_induction_on generalizing s with
  | _ n ih =>
    cases found : s.next with
    | none =>
      obtain ⟨spent, empty⟩ := next_eq_none_iff.mp found
      have ahead := h.ahead
      rw [empty] at ahead
      refine done s h (tokens_of_none found) ?_ ?_
      · rw [left, if_pos spent, empty]
        rfl
      · rw [passed, if_pos spent]
        exact List.drop_eq_nil_iff.mp ahead.symm
    | some result =>
      obtain ⟨reply, after⟩ := result
      obtain ⟨t, rfl, passes, later⟩ := h.exists_passes readable unbroken found
      exact step s h t after (tokens_eq_cons found) passes later
        (ih after.size (size ▸ size_lt_of_next found) after later rfl)

/-- The tokens are all that is left of the lines but for gaps. -/
theorem Tracks.covers (h : s.Tracks source) : Covers (texts source) s.left s.tokens := by
  induction s, h using tracks_induction readable unbroken with
  | done s _ noTokens nothing _ =>
    rw [noTokens, nothing]
    exact .done
  | step s _ t after first passes _ ih =>
    obtain ⟨gap, blank, split⟩ := passes.left
    rw [first, split]
    exact .token blank passes.text ih

/-- No token goes back behind an end of a line that is passed. -/
theorem Tracks.passed_lt_row (h : s.Tracks source) : ∀ t ∈ s.tokens, s.passed < t.row := by
  induction s, h using tracks_induction readable unbroken with
  | done s _ noTokens _ _ =>
    rw [noTokens]
    exact nofun
  | step s _ t after first passes _ ih =>
    rw [first]
    have goesOn : s.passed < t.row ∧ s.passed ≤ after.passed := by
      cases passes.ends with
      | line _ isEnd next =>
        subst isEnd
        exact ⟨Nat.lt_succ_self _, next ▸ Nat.le_succ _⟩
      | within _ row ends _ =>
        have order : t.row ≤ t.endRow := Nat.le_add_right _ _
        omega
    intro other inside
    rcases List.mem_cons.mp inside with rfl | inside
    · exact goesOn.1
    · exact Nat.lt_of_le_of_lt goesOn.2 (ih other inside)

/-- The tokens that are left say nothing of a line that is passed. -/
theorem Tracks.silent_of_passed (h : s.Tracks source) {row : Nat} (isPassed : row ≤ s.passed) :
    s.tokens.filter (·.endsLine row) = [] ∧ s.tokens.any (·.encloses row) = false := by
  have rows := h.passed_lt_row readable unbroken
  rw [List.filter_eq_nil_iff, List.any_eq_false]
  constructor
  · intro other inside
    have := rows other inside
    simp only [Token.endsLine, Bool.and_eq_true, beq_iff_eq]
    omega
  · intro other inside
    have := rows other inside
    simp only [Token.encloses, Bool.and_eq_true, decide_eq_true_eq]
    omega

/-- The end of a line that is not passed is a token of its own, unless a comment goes over it. -/
theorem Tracks.filter_endsLine (h : s.Tracks source) {before : Nat} {line : List Char}
    (here : (texts source)[before]? = some line) (ahead : s.passed ≤ before) :
    s.tokens.filter (·.endsLine (before + 1)) =
      if s.tokens.any (·.encloses (before + 1)) then []
      else [.lineEnd (before + 1) line.length] := by
  -- over the tokens up to the one with which the line is passed
  induction s, h using tracks_induction readable unbroken with
  | done s _ _ _ all =>
    have inside := (List.getElem?_eq_some_iff.mp here).1
    omega
  | step s _ t after first passes later ih =>
    have behind : before + 1 ≤ after.passed → _ := later.silent_of_passed readable unbroken
    rw [first, List.any_cons, List.filter_cons]
    cases passes.ends with
    | @line line' at' isEnd next =>
      subst isEnd
      have outside :
          (Token.lineEnd (s.passed + 1) line'.length).encloses (before + 1) = false := rfl
      rw [outside, Bool.false_or]
      rcases Nat.eq_or_lt_of_le ahead with same | further
      · -- the token is the end of this line
        subst same
        obtain rfl : line' = line := Option.some.inj (at'.symm.trans here)
        obtain ⟨noEnd, nowhere⟩ := behind (by omega)
        have ends : (Token.lineEnd (s.passed + 1) line'.length).endsLine (s.passed + 1) = true :=
          beq_self_eq_true _
        rw [if_pos ends, noEnd, nowhere, if_neg Bool.false_ne_true]
      · have other :
            ¬(Token.lineEnd (s.passed + 1) line'.length).endsLine (before + 1) = true := by
          simp only [Token.endsLine, Token.lineEnd, Bool.and_eq_true, beq_iff_eq]
          omega
        rw [if_neg other, ih (by omega)]
    | within noEnd row ends block =>
      have other : ¬t.endsLine (before + 1) = true := by simp [Token.endsLine, noEnd]
      rw [if_neg other]
      by_cases further : before + 1 < t.endRow
      · -- only a block comment goes on behind its line
        have isBlock : t.isBlock = true := by
          rcases block with isBlock | same
          · exact isBlock
          · omega
        have inside : t.encloses (before + 1) = true := by
          simp only [Token.encloses, isBlock, Bool.true_and, Bool.and_eq_true, decide_eq_true_eq]
          omega
        rw [inside, (behind (by omega)).1]
        rfl
      · have outside : t.encloses (before + 1) = false := by simp [Token.encloses, further]
        rw [outside, Bool.false_or, ih (by omega)]

end

end Scanner

/-! ## Texts -/

theorem Scanner.tracks_ofText {text : String}
    (flawless : ∀ t ∈ (Scanner.ofText text).tokens, t.kind ≠ .flaw) :
    (Scanner.ofText text).Tracks (SourceLine.ofText text) :=
  ⟨follows_ofLines _, rfl, flawless⟩

/-- If no token of a text is a flaw, the text has lines such that its tokens are all of these lines
but for gaps, each token in its place. Every line has one token that is its end, where the line
ends, unless its end lies inside a block comment. -/
theorem covers_of_flawless {text : String}
    (flawless : ∀ t ∈ (Scanner.ofText text).tokens, t.kind ≠ .flaw) :
    ∃ lines, Text.Breaks text.toList lines ∧
      Covers lines (joined lines) (Scanner.ofText text).tokens ∧
      ∀ before line, lines[before]? = some line →
        (Scanner.ofText text).tokens.filter (·.endsLine (before + 1)) =
          if (Scanner.ofText text).tokens.any (·.encloses (before + 1)) then []
          else [.lineEnd (before + 1) line.length] := by
  have readable : .unreadable ∉ SourceLine.ofText text := SourceLine.unreadable_not_mem_ofText
  have unbroken : ∀ cs, .readable cs ∈ SourceLine.ofText text → '\n' ∉ cs :=
    fun _ => SourceLine.unbroken_ofText
  have tracks := Scanner.tracks_ofText flawless
  refine ⟨texts (SourceLine.ofText text), ?_, tracks.covers readable unbroken, ?_⟩
  · rw [Text.texts_ofText]
    exact Text.breaks_cutLines _
  · intro before line here
    exact tracks.filter_endsLine readable unbroken here (Nat.zero_le _)

/-- A comment over the end of a line, between two words. -/
def crossingText : String := "a/*x\r\n\ty*/ b\n"

/-- The tokens of the text. -/
def crossingTokens : List Token :=
  [⟨.word, "a", 1, 0⟩, ⟨.comment, "/*x\n\ty*/", 1, 1⟩, ⟨.word, "b", 2, 5⟩, .lineEnd 2 6]

theorem covers_of_flawless_crossingText :
    (∀ t ∈ (Scanner.ofText crossingText).tokens, t.kind ≠ .flaw) ∧
      ∃ lines, Text.Breaks crossingText.toList lines ∧
        Covers lines (joined lines) crossingTokens ∧
        ∀ before line, lines[before]? = some line →
          crossingTokens.filter (·.endsLine (before + 1)) =
            if crossingTokens.any (·.encloses (before + 1)) then []
            else [.lineEnd (before + 1) line.length] := by
  have tokens : (Scanner.ofText crossingText).tokens = crossingTokens := by decide +kernel
  have flawless : ∀ t ∈ (Scanner.ofText crossingText).tokens, t.kind ≠ .flaw := by
    rw [tokens]
    decide
  exact ⟨flawless, tokens ▸ covers_of_flawless flawless⟩

end TableSchema
