import Mathlib.Data.List.Forall2
import TableSchema.Proofs.Text.Lines
import TableSchema.Token.Scanner

/-!
Tokens as they are written.

A line writes its tokens one after the other with blanks between them (`Lays`). Where the scanner
would not find the end of a token by itself, something has to follow that ends it: a word is
followed by a blank, a slash or a special character, and an opening parenthesis by a closing one
further on (`Written.Before`). A comment takes the rest of its line. So the scanner finds the tokens
of a line one by one, whatever the rules by which the line was written (`Scanned`), and gives back
what was written, with one end of line for every line (`LineByLine.spelled_events`).
-/

namespace TableSchema

open List (Forall₂)

/-- A text that is a word. -/
structure Word where
  text : String
  filled : text.toList ≠ []
  chars : ∀ c ∈ text.toList, Lexeme.isWordChar c = true

/-- A text is a word when its characters pass one by one. -/
def Word.of (text : String) (filled : text.toList ≠ [])
    (pass : text.toList.all Lexeme.isWordChar = true) : Word :=
  ⟨text, filled, List.all_eq_true.mp pass⟩

/-- A way to write a name with any case of its letters. -/
structure Spelling (name : String) where
  text : String
  same : Text.sameLetters name text = true

/-- A token as it is written. A note is a comment up to the end of the line. -/
inductive Written where
  | word (word : Word)
  | special (c : Char) (special : Lexeme.isSpecial c = true)
  | header (part : Section) (name : Spelling part.name)
  | note (text : List Char)

namespace Written

/-- The kind of the token. -/
def kind : Written → Token.Kind
  | word _ => .word
  | special _ _ => .special
  | header _ _ => .header
  | note _ => .comment

/-- The characters of the token. -/
def chars : Written → List Char
  | word w => w.text.toList
  | special c _ => [c]
  | header _ name => '[' :: name.text.toList ++ [']']
  | note text => '/' :: '/' :: text

/-- What may follow the token on its line. -/
def Before : Written → List Char → Prop
  | word _, rest => ∀ c ∈ rest.head?, Lexeme.endsWord c = true
  | special c _, rest => c = '(' → ')' ∈ rest
  | header _ _, _ => True
  | note _, rest => rest = []

end Written

/-- The characters of a gap all stand between tokens. -/
def IsGap (gap : List Char) : Prop := ∀ c ∈ gap, Lexeme.isGap c = true

/-- A line that writes some tokens. -/
inductive Lays : List Written → List Char → Prop
  | blank {gap : List Char} : IsGap gap → Lays [] gap
  | token {gap rest : List Char} {w : Written} {ws : List Written} :
      IsGap gap → w.Before rest → Lays ws rest → Lays (w :: ws) (gap ++ w.chars ++ rest)

/-- A text that writes some tokens on each of its lines. -/
inductive Writes : List (List Written) → List Char → Prop
  | nil : Writes [] []
  | line {ws : List Written} {cs rest ending : List Char} {content : List (List Written)} :
      Lays ws cs → IsLine cs → ending = ['\n'] ∨ ending = ['\r', '\n'] → Writes content rest →
      Writes (ws :: content) (cs ++ ending ++ rest)

/-! ## Single tokens -/

namespace Lexeme

variable {c : Char} {rest : List Char}

theorem not_isWordChar_of_endsWord (h : endsWord c = true) : isWordChar c = false := by
  simp [endsWord, isGap, isSpecial, Token.specials] at h
  rcases h with (((rfl | rfl) | rfl) | rfl) | rfl | rfl | rfl | rfl | rfl | rfl | rfl | rfl <;>
    decide

theorem not_endsWord_of_isWordChar (h : isWordChar c = true) : endsWord c = false := by
  by_contra ends
  rw [Bool.not_eq_false] at ends
  rw [not_isWordChar_of_endsWord ends] at h
  cases h

/-- A special character is neither a gap nor the start of a comment or a header. -/
theorem of_isSpecial (h : isSpecial c = true) : isGap c = false ∧ c ≠ '/' ∧ c ≠ '[' := by
  simp [isSpecial, Token.specials] at h
  rcases h with rfl | rfl | rfl | rfl | rfl | rfl | rfl | rfl <;> decide

/-- A word reaches as far as its characters do. -/
theorem readWord_append {cs : List Char} (inside : ∀ c ∈ cs, isWordChar c = true)
    (boundary : ∀ c ∈ rest.head?, endsWord c = true) : readWord (cs ++ rest) = whole .word cs := by
  have stop : rest.takeWhile isWordChar = [] := by
    cases rest with
    | nil => rfl
    | cons c tail => simp [not_isWordChar_of_endsWord (boundary c rfl)]
  have munch : (cs ++ rest).takeWhile isWordChar = cs := by
    rw [List.takeWhile_append_of_pos inside, stop, List.append_nil]
  rw [readWord]
  simp only [munch, List.drop_left]
  cases rest with
  | nil => rfl
  | cons c tail => exact if_pos (boundary c rfl)

/-- What stands between an opening bracket and the next closing one is looked up as a whole, with
all other brackets that are in it. -/
theorem readBracket_append {name : List Char} (closed : ']' ∉ name) (more : List Char) :
    readBracket (name ++ ']' :: more) =
      match Section.ofName? (String.ofList name) with
      | some _ => whole .header ('[' :: name ++ [']'])
      | none => flawed .unknownSection 0 (name.length + 2) := by
  have inner : (name ++ ']' :: more).takeWhile (· != ']') = name := by
    rw [List.takeWhile_append_of_pos fun c hc => by simpa using ne_of_mem_of_not_mem hc closed]
    simp
  -- the bracket is found before the line ends
  have inside : name.length ≠ (name ++ ']' :: more).length := by simp
  rw [readBracket, inner]
  exact if_neg inside

theorem readBracket_of_not_mem (unclosed : ']' ∉ rest) :
    readBracket rest = flawed .openBracket 0 1 := by
  have inner : rest.takeWhile (· != ']') = rest :=
    List.takeWhile_eq_self_iff.mpr fun c hc => by simpa using ne_of_mem_of_not_mem hc unclosed
  rw [readBracket, inner]
  exact if_pos rfl

/-- In front of `rest` the scanner reads all of `chars` as one token of this kind, not as a gap. -/
def Takes (kind : Token.Kind) (chars rest : List Char) : Prop :=
  ∃ c cs, chars ++ rest = c :: cs ∧ isGap c = false ∧ read c cs = some (whole kind chars)

theorem read_of_isWordChar (h : isWordChar c = true) :
    read c rest = some (readWord (c :: rest)) := by
  have ends := not_endsWord_of_isWordChar h
  simp only [endsWord, Bool.or_eq_false_iff, beq_eq_false_iff_ne] at ends
  have bracket : c ≠ '[' := by
    rintro rfl
    revert h
    decide
  rw [read, if_neg (by simpa using ends.1.2), if_neg (by simpa using bracket),
    if_neg (by simp [ends.2])]

end Lexeme

theorem Text.not_mem_of_sameLetters {a b : String} {c : Char} (same : Text.sameLetters a b = true)
    (fixed : c.toLower = c) (absent : c ∉ a.toList.map Char.toLower) : c ∉ b.toList := by
  rw [sameLetters, beq_iff_eq] at same
  rw [same] at absent
  intro present
  exact absent (List.mem_map.mpr ⟨c, present, fixed⟩)

/-- Different sections have different names, whatever the case of their letters. -/
theorem Section.ofName?_spelling {part : Section} (name : Spelling part.name) :
    Section.ofName? name.text = some part := by
  have same := name.same
  rw [Text.sameLetters, beq_iff_eq] at same
  unfold ofName? Text.sameLetters
  rw [← same]
  cases part <;> decide

theorem Spelling.bracket_not_mem {part : Section} (name : Spelling part.name) :
    '[' ∉ name.text.toList ∧ ']' ∉ name.text.toList := by
  constructor <;> refine Text.not_mem_of_sameLetters name.same (by decide) ?_ <;>
    cases part <;> decide

/-- A header without further brackets names what stands between its brackets. -/
theorem Token.heading?_of_text {t : Token} {name : List Char} (header : t.kind = .header)
    (text : t.text = String.ofList ('[' :: name ++ [']'])) (opening : '[' ∉ name)
    (closing : ']' ∉ name) : t.heading? = Section.ofName? (String.ofList name) := by
  have front : ('[' :: name ++ [']']).dropWhile (· == '[') = name ++ [']'] := by
    rw [List.cons_append, List.dropWhile_cons_of_pos rfl]
    cases name with
    | nil => rfl
    | cons c cs =>
      have first : c ≠ '[' := fun bracket => opening (bracket ▸ List.mem_cons_self)
      simp [first]
  have back : Text.dropEnd (· == ']') (name ++ [']']) = name := by
    rw [Text.dropEnd_append_singleton rfl]
    refine Text.dropEnd_of_getLast? fun c last => ?_
    rw [beq_eq_false_iff_ne]
    rintro rfl
    exact closing (List.mem_of_getLast? last)
  rw [heading?, if_pos header, text, String.toList_ofList, front, back]

namespace Written

variable {w : Written} {rest : List Char}

/-- A token begins at its first character, and the scanner reads it whole. -/
theorem takes_chars (before : w.Before rest) : Lexeme.Takes w.kind w.chars rest := by
  cases w with
  | word w =>
    obtain ⟨c, cs, split⟩ := List.exists_cons_of_ne_nil w.filled
    have first : Lexeme.isWordChar c = true := w.chars c (by simp [split])
    have gap : Lexeme.isGap c = false := by
      have := Lexeme.not_endsWord_of_isWordChar first
      simp only [Lexeme.endsWord, Bool.or_eq_false_iff] at this
      exact this.1.1
    refine ⟨c, cs ++ rest, by simp [chars, split], gap, ?_⟩
    rw [Lexeme.read_of_isWordChar first, ← List.cons_append, ← split]
    exact congrArg some (Lexeme.readWord_append w.chars before)
  | special c special =>
    obtain ⟨gap, slash, bracket⟩ := Lexeme.of_isSpecial special
    refine ⟨c, rest, rfl, gap, ?_⟩
    -- an opening parenthesis has to be closed on its line
    have closed : (c == '(' && !rest.contains ')') = false := by
      by_cases opening : c = '('
      · simp [before opening]
      · simp [opening]
    rw [Lexeme.read, if_neg (by simpa using slash), if_neg (by simpa using bracket), if_pos special,
      Lexeme.readSpecial, closed]
    rfl
  | header part name =>
    refine ⟨'[', name.text.toList ++ ']' :: rest, by simp [chars], by decide, ?_⟩
    have found := Lexeme.readBracket_append name.bracket_not_mem.2 rest
    rw [String.ofList_toList, Section.ofName?_spelling] at found
    exact congrArg some found
  | note text =>
    obtain rfl : rest = [] := before
    exact ⟨'/', '/' :: text, by simp [chars], by decide, rfl⟩

/-- A token has no line end in it, except that a note may have one. -/
theorem isLine_chars (note : ∀ text, w = .note text → IsLine ('/' :: '/' :: text)) :
    IsLine w.chars := by
  cases w with
  | word w =>
    refine isLine_of_forall fun c hc => ?_
    have inside := w.chars c hc
    constructor <;> rintro rfl <;> exact absurd inside (by decide)
  | special c special =>
    refine isLine_of_forall fun d hd => ?_
    obtain rfl := List.mem_singleton.mp hd
    constructor <;> rintro rfl <;> exact absurd special (by decide)
  | header part name =>
    -- line ends have no case, and no section has one in its name
    have absent (c : Char) (fixed : c.toLower = c) (h : c ∉ part.name.toList.map Char.toLower) :
        c ∉ name.text.toList := Text.not_mem_of_sameLetters name.same fixed h
    have feed := absent '\n' (by decide) (by cases part <;> decide)
    have return' := absent '\r' (by decide) (by cases part <;> decide)
    refine isLine_of_forall fun c hc => ?_
    simp only [chars, List.cons_append, List.mem_cons, List.mem_append, List.not_mem_nil,
      or_false] at hc
    rcases hc with rfl | hc | rfl
    · decide
    · constructor <;> rintro rfl
      · exact feed hc
      · exact return' hc
    · decide
  | note text => exact note text rfl

end Written

/-! ## Lines -/

/-- A line on which the scanner finds some tokens, each of them in front of what is left. -/
inductive Scanned : List (Token.Kind × List Char) → List Char → Prop
  | blank {gap : List Char} : IsGap gap → Scanned [] gap
  | token {gap chars rest : List Char} {kind : Token.Kind}
      {tokens : List (Token.Kind × List Char)} :
      IsGap gap → Lexeme.Takes kind chars rest → Scanned tokens rest →
      Scanned ((kind, chars) :: tokens) (gap ++ chars ++ rest)

/-- The kind and the characters of a written token. -/
def Written.token (w : Written) : Token.Kind × List Char := (w.kind, w.chars)

theorem Lays.scanned {ws : List Written} {cs : List Char} (lays : Lays ws cs) :
    Scanned (ws.map Written.token) cs := by
  induction lays with
  | blank blank => exact .blank blank
  | token blank before _ ih => exact .token blank (Written.takes_chars before) ih

namespace Scanner

variable {s : Scanner} {gap chars rest : List Char} {kind : Token.Kind}

theorem takeWhile_gap {c : Char} (blank : IsGap gap) (stop : Lexeme.isGap c = false) :
    (gap ++ c :: rest).takeWhile Lexeme.isGap = gap := by
  rw [List.takeWhile_append_of_pos blank]
  simp [stop]

/-- The scanner gives what it reads behind a gap, and stands behind what that has used up. -/
theorem step_of_read {c : Char} {cs : List Char} {lexeme : Lexeme} (blank : IsGap gap)
    (here : s.line.drop s.pos = gap ++ c :: cs) (stop : Lexeme.isGap c = false)
    (read : Lexeme.read c cs = some lexeme) :
    s.step = (.token ⟨lexeme.kind, lexeme.text, s.row, s.pos + gap.length + lexeme.offset⟩,
      { s with pos := s.pos + gap.length + lexeme.size }) := by
  have skip : (gap ++ c :: cs).dropWhile Lexeme.isGap = c :: cs := by
    rw [List.dropWhile_append_of_pos blank]
    simp [stop]
  rw [step, here]
  simp only [takeWhile_gap blank stop, skip, read]

/-- The scanner gives a token that comes next on its line, and stands behind it. -/
theorem step_of_token (blank : IsGap gap) (takes : Lexeme.Takes kind chars rest)
    (here : s.line.drop s.pos = gap ++ chars ++ rest) :
    s.step = (.token ⟨kind, String.ofList chars, s.row, s.pos + gap.length⟩,
      { s with pos := s.pos + gap.length + chars.length }) := by
  obtain ⟨c, cs, split, stop, read⟩ := takes
  rw [List.append_assoc, split] at here
  exact step_of_read blank here stop read

/-- The scanner gives the end of a line on which nothing follows. -/
theorem step_of_blank (blank : IsGap gap) (here : s.line.drop s.pos = gap) :
    s.step = (.token (.lineEnd s.row s.line.length),
      { s with pos := s.pos + gap.length, spent := true }) := by
  have skip : gap.dropWhile Lexeme.isGap = [] := List.dropWhile_eq_nil_iff.mpr blank
  have all : gap.takeWhile Lexeme.isGap = gap := by
    have := List.takeWhile_append_dropWhile (p := Lexeme.isGap) (l := gap)
    rwa [skip, List.append_nil] at this
  rw [step, here]
  simp only [skip, all]

end Scanner

/-- The kind and the text of the token that an event gives. -/
def Event.spelled (e : Event) : Option (Token.Kind × String) :=
  match e.reply with
  | .token token => some (token.kind, token.text)
  | .unreadable => none

/-- The kind and the text of a written token. -/
def Written.spelled (w : Written) : Option (Token.Kind × String) :=
  some (w.kind, String.ofList w.chars)

/-- What the events of a line say when it is spelled out: its tokens and its end. -/
def spelledLine (ws : List Written) : List (Option (Token.Kind × String)) :=
  ws.map Written.spelled ++ [some (.newLine, "\n")]

/-- What the events of a line with these tokens say: the tokens, and the end of the line. -/
def spelledTokens (tokens : List (Token.Kind × List Char)) : List (Option (Token.Kind × String)) :=
  tokens.map (fun (kind, chars) => some (kind, String.ofList chars)) ++ [some (.newLine, "\n")]

theorem spelledTokens_map_token (ws : List Written) :
    spelledTokens (ws.map Written.token) = spelledLine ws := by
  rw [spelledTokens, List.map_map]
  rfl

namespace Scanner

variable {s : Scanner} {tokens : List (Token.Kind × List Char)} {cs : List Char}

/-- A line gives its tokens, then its end, and then it is used up. -/
theorem exists_spelled_line (scanned : Scanned tokens cs) (fresh : s.spent = false)
    (here : s.line.drop s.pos = cs) :
    ∃ last : Scanner, last.ahead = s.ahead ∧ last.spent = true ∧
      s.events.map Event.spelled = spelledTokens tokens ++ last.events.map Event.spelled := by
  induction scanned generalizing s with
  | @blank gap blank =>
    refine ⟨{ s with pos := s.pos + gap.length, spent := true }, rfl, rfl, ?_⟩
    rw [events_eq, next, fresh, if_neg Bool.false_ne_true, step_of_blank blank here]
    rfl
  | @token gap chars rest kind tokens blank takes _ ih =>
    have step := step_of_token blank takes here
    have further : s.line.drop (s.pos + gap.length + chars.length) = rest := by
      rw [Nat.add_assoc, ← List.drop_drop, here, ← List.length_append, List.drop_left]
    obtain ⟨last, ahead, spent, events⟩ :=
      ih (s := { s with pos := s.pos + gap.length + chars.length }) fresh further
    refine ⟨last, ahead, spent, ?_⟩
    rw [events_eq, next, fresh, if_neg Bool.false_ne_true, step]
    simp only [List.map_cons, events]
    rfl

/-- The lines ahead give their tokens one line after the other. -/
theorem spelled_lines {content : List (List (Token.Kind × List Char))} {lines : List (List Char)}
    (scanned : Forall₂ Scanned content lines) (spent : s.spent = true)
    (ahead : s.ahead = lines.map .readable) :
    s.events.map Event.spelled = content.flatMap spelledTokens := by
  induction scanned generalizing s with
  | nil =>
    rw [events_eq, next, spent, if_pos rfl, ahead]
    rfl
  | @cons tokens cs content lines line _ ih =>
    -- a scanner whose line is used up goes on as if it had entered the next one
    have entered : s.events = (s.enter cs (lines.map .readable)).events := by
      rw [events_eq s, events_eq (s.enter _ _), next, next, spent, if_pos rfl, ahead]
      rfl
    obtain ⟨last, rest, used, events⟩ := exists_spelled_line line (s := s.enter cs _) rfl rfl
    rw [entered, events, ih used rest, List.flatMap_cons]

end Scanner

/-! ## Texts -/

/-- A text that puts one item on each of its lines, as `R` says, and ends each of them. -/
inductive LineByLine {α : Type} (R : α → List Char → Prop) : List α → List Char → Prop
  | nil : LineByLine R [] []
  | line {a : α} {cs rest ending : List Char} {content : List α} :
      R a cs → ending = ['\n'] ∨ ending = ['\r', '\n'] → LineByLine R content rest →
      LineByLine R (a :: content) (cs ++ ending ++ rest)

/-- The lines of a text are those that it was put together from. -/
theorem LineByLine.exists_lines {α : Type} {R : α → List Char → Prop} {content : List α}
    {cs : List Char} (isLine : ∀ a cs, R a cs → IsLine cs) (h : LineByLine R content cs) :
    ∃ lines, Forall₂ R content lines ∧
      (Text.cutLines (· == '\n') cs).map Text.lineText = lines := by
  induction h with
  | nil => exact ⟨[], .nil, rfl⟩
  | @line a cs rest ending content item ending _ ih =>
    obtain ⟨lines, each, cut⟩ := ih
    have line := isLine a cs item
    refine ⟨cs :: lines, .cons item each, ?_⟩
    have inside : ∀ c ∈ cs, (c == '\n') = false := Text.ne_lineFeed_of_not_mem line.1
    rcases ending with rfl | rfl
    · rw [List.append_assoc, List.singleton_append, Text.cutLines_append_cons rfl _ _ inside,
        List.map_cons, cut, Text.lineText_of_isLine line]
    · -- the carriage return is cut off together with the line feed
      have inside' : ∀ c ∈ cs ++ ['\r'], (c == '\n') = false := by
        intro c hc
        rcases List.mem_append.mp hc with hc | hc
        · exact inside c hc
        · obtain rfl := List.mem_singleton.mp hc
          decide
      have stripped : Text.lineText (cs ++ ['\r']) = cs :=
        (Text.dropEnd_append_singleton rfl).trans (Text.lineText_of_isLine line)
      have split : cs ++ ['\r', '\n'] ++ rest = (cs ++ ['\r']) ++ '\n' :: rest := by simp
      rw [split, Text.cutLines_append_cons rfl _ _ inside', List.map_cons, cut, stripped]

/-- The scanner gives back the tokens that it finds on each line of a text, and its end. -/
theorem LineByLine.spelled_events {α : Type} {R : α → List Char → Prop}
    {tokens : α → List (Token.Kind × List Char)} {content : List α} {text : String}
    (isLine : ∀ a cs, R a cs → IsLine cs) (scanned : ∀ a cs, R a cs → Scanned (tokens a) cs)
    (h : LineByLine R content text.toList) :
    (Scanner.ofText text).events.map Event.spelled =
      content.flatMap fun a => spelledTokens (tokens a) := by
  obtain ⟨lines, each, cut⟩ := h.exists_lines isLine
  have found : Forall₂ Scanned (content.map tokens) lines :=
    List.forall₂_map_left_iff.mpr (each.imp scanned)
  have ahead : (Scanner.ofText text).ahead = lines.map .readable := by
    rw [← cut, List.map_map]
    rfl
  rw [Scanner.spelled_lines found rfl ahead, List.flatMap_map]

theorem Writes.lineByLine {content : List (List Written)} {cs : List Char}
    (writes : Writes content cs) : LineByLine (fun ws cs => Lays ws cs ∧ IsLine cs) content cs := by
  induction writes with
  | nil => exact .nil
  | line lays line ending _ ih => exact .line ⟨lays, line⟩ ending ih

/-- The scanner gives back the tokens of every line that was written, and its end. -/
theorem spelled_events {content : List (List Written)} {text : String}
    (writes : Writes content text.toList) :
    (Scanner.ofText text).events.map Event.spelled = content.flatMap spelledLine := by
  rw [writes.lineByLine.spelled_events (fun _ _ line => line.2) fun _ _ line => line.1.scanned]
  simp only [spelledTokens_map_token]

end TableSchema
