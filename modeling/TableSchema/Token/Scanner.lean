import TableSchema.Token.Basic
import TableSchema.Text.Lines

/-!
Scanning the lines of a definition file into tokens.

A scanner stands at a position of a line and has further lines ahead of it. It fetches the next line
only when the present one is used up, so that whoever looks at the scanner after a token sees the
line on which that token ended. Every physical line ends in one token of its own, unless its end
lies inside a comment.

Each step uses up something (`Scanner.size_lt_of_next`), so the events of an input are a finite
list, and `Scanner.events_eq` unfolds it step by step.
-/

namespace TableSchema

open Text (SourceLine)

/-- What a step of the scanner gives: a token, or the news that a line is no text. -/
inductive Reply where
  | token (token : Token)
  | unreadable
deriving DecidableEq, Repr

/-- A position in the present line, and the lines ahead of it. Rows count from one. -/
structure Scanner where
  ahead : List SourceLine
  row : Nat
  line : List Char
  pos : Nat
  spent : Bool
deriving DecidableEq, Repr

/-- What a line begins with at some position: a token whose column is `offset` characters further
on, and the number of characters that are used up. -/
structure Lexeme where
  kind : Token.Kind
  text : String
  offset : Nat
  size : Nat
deriving DecidableEq, Repr

namespace Lexeme

/-- Whether a character stands between tokens. -/
def isGap (c : Char) : Bool := c == ' ' || c == '\t' || c == '\x0c'

/-- Whether a character may stand in a word. -/
def isWordChar (c : Char) : Bool := c.isAlphanum || c == '_' || c == '.' || c == '$'

/-- Whether a character is a token of its own. -/
def isSpecial (c : Char) : Bool := Token.specials.toList.contains c

/-- Whether a word ends in front of a character. What neither ends a word nor may stand in one is a
flaw of the word. -/
def endsWord (c : Char) : Bool := isGap c || c == '/' || isSpecial c

/-- A token that begins at the position and takes all of `cs`. -/
def whole (kind : Token.Kind) (cs : List Char) : Lexeme :=
  ⟨kind, String.ofList cs, 0, cs.length⟩

/-- A flaw `offset` characters further on, after which the next `size` characters are used up. -/
def flawed (flaw : Flaw) (offset size : Nat) : Lexeme := ⟨.flaw, flaw.message, offset, size⟩

/-- The number of characters up to the end of the first mark that closes a comment. -/
def closing? : List Char → Option Nat
  | [] => none
  | '*' :: '/' :: _ => some 2
  | _ :: rest => (closing? rest).map (· + 1)

/-- Reads after a slash. Nothing if a comment begins there that stays open on the line. -/
def readSlash : List Char → Option Lexeme
  | '/' :: body => some (whole .comment ('/' :: '/' :: body))
  | '*' :: body =>
    (closing? body).map fun size => whole .comment ('/' :: '*' :: body.take size)
  | _ => some (flawed .looseSlash 0 1)

/-- Reads after an opening bracket. -/
def readBracket (rest : List Char) : Lexeme :=
  let inner := rest.takeWhile (· != ']')
  if inner.length = rest.length then flawed .openBracket 0 1
  else
    match Section.ofName? (String.ofList inner) with
    | some _ => whole .header ('[' :: inner ++ [']'])
    | none => flawed .unknownSection 0 (inner.length + 2)

/-- Reads a special character. An opening parenthesis needs a closing one later on the line. -/
def readSpecial (c : Char) (rest : List Char) : Lexeme :=
  if c == '(' && !rest.contains ')' then flawed .openParen 0 1 else whole .special [c]

/-- Reads a word, or the flaw that its first foreign character is. -/
def readWord (cs : List Char) : Lexeme :=
  let word := cs.takeWhile isWordChar
  match cs.drop word.length with
  | [] => whole .word word
  | c :: _ =>
    if endsWord c then whole .word word
    else flawed (if word.isEmpty then .floating c else .insideWord c) word.length (word.length + 1)

/-- Reads what a line begins with when `c` is its first character. Nothing if that is a comment that
stays open on the line. -/
def read (c : Char) (rest : List Char) : Option Lexeme :=
  if c == '/' then readSlash rest
  else if c == '[' then some (readBracket rest)
  else if isSpecial c then some (readSpecial c rest)
  else some (readWord (c :: rest))

/-- A lexeme takes at least one character. -/
theorem size_pos_of_read {c : Char} {rest : List Char} {lexeme : Lexeme} (hc : isGap c = false)
    (h : read c rest = some lexeme) : 0 < lexeme.size := by
  rw [read] at h
  split at h
  · rw [readSlash.eq_def] at h
    split at h
    · cases h
      simp [whole]
    · obtain ⟨size, _, rfl⟩ := Option.map_eq_some_iff.1 h
      simp [whole]
    · cases h
      simp [flawed]
  · split at h
    · cases h
      simp only [readBracket]
      split
      · simp [flawed]
      · split <;> simp [flawed, whole]
    · split at h
      · cases h
        simp only [readSpecial]
        split <;> simp [flawed, whole]
      · rename_i slash _ special
        cases h
        simp only [readWord]
        split
        · rename_i empty
          have := congrArg List.length empty
          simp only [List.length_drop, List.length_cons, List.length_nil] at this
          simp only [whole]
          omega
        · rename_i d more found
          split
          · rename_i ends
            simp only [whole]
            refine Nat.pos_of_ne_zero fun length => ?_
            rw [length, List.drop_zero, List.cons.injEq] at found
            simp [endsWord, ← found.1, hc, slash, special] at ends
          · simp [flawed]

end Lexeme

namespace Scanner

/-- A scanner in front of its first line. -/
def ofLines (lines : List SourceLine) : Scanner := ⟨lines, 0, [], 0, true⟩

/-- The scanner of a text. -/
def ofText (text : String) : Scanner := ofLines (SourceLine.ofText text)

/-- The scanner of a sequence of bytes. -/
def ofBytes (bytes : List UInt8) : Scanner := ofLines (SourceLine.ofBytes bytes)

/-- The scanner at the start of the line `text`, which it has just fetched. -/
def enter (s : Scanner) (text : List Char) (ahead : List SourceLine) : Scanner :=
  ⟨ahead, s.row + 1, text, 0, false⟩

/-- Goes on with a comment that began in column `start` of the line of `opening` and has the text
`text` so far. At the end of the input the scanner returns to the line where the comment began; at a
line that is no text it stays where it is. -/
def closeComment (opening : Scanner) (start : Nat) (text : List Char) (s : Scanner) :
    List SourceLine → Reply × Scanner
  | [] =>
    (.token ⟨.flaw, Flaw.openComment.message, opening.row, start⟩,
      { opening with ahead := [], pos := opening.line.length, spent := true })
  | .unreadable :: ahead => (.unreadable, { s with ahead := ahead })
  | .readable cs :: ahead =>
    match Lexeme.closing? cs with
    | some size =>
      (.token ⟨.comment, String.ofList (text ++ '\n' :: cs.take size), opening.row, start⟩,
        { s.enter cs ahead with pos := size })
    | none => closeComment opening start (text ++ '\n' :: cs) (s.enter cs ahead) ahead

/-- Reads on in a line that is not used up. -/
def step (s : Scanner) : Reply × Scanner :=
  let rest := s.line.drop s.pos
  let start := s.pos + (rest.takeWhile Lexeme.isGap).length
  match rest.dropWhile Lexeme.isGap with
  | [] =>
    (.token (.lineEnd s.row s.line.length), { s with pos := start, spent := true })
  | c :: cs =>
    match Lexeme.read c cs with
    | some lexeme =>
      (.token ⟨lexeme.kind, lexeme.text, s.row, start + lexeme.offset⟩,
        { s with pos := start + lexeme.size })
    | none =>
      let opening := { s with pos := start }
      closeComment opening start (c :: cs) opening s.ahead

/-- The next token, or nothing at the end of the input. A line that is no text is passed over and
does not count as a row. -/
def next (s : Scanner) : Option (Reply × Scanner) :=
  if s.spent then
    match s.ahead with
    | [] => none
    | .unreadable :: ahead => some (.unreadable, { s with ahead := ahead })
    | .readable cs :: ahead => some (s.enter cs ahead).step
  else some s.step

/-- What a line can still give: its characters and its end. -/
def weight : SourceLine → Nat
  | .readable cs => cs.length + 1
  | .unreadable => 1

/-- What lines can still give together. -/
def load : List SourceLine → Nat
  | [] => 0
  | line :: ahead => weight line + load ahead

/-- An upper bound for the number of steps that are left. -/
def size (s : Scanner) : Nat :=
  load s.ahead + if s.spent then 0 else s.line.length - s.pos + 1

end Scanner

/-- A reply of the scanner, and the line on which it stands afterwards. -/
structure Event where
  reply : Reply
  row : Nat
  line : List Char
deriving DecidableEq, Repr

namespace Scanner

/-- The events of at most so many steps, and the scanner after them. -/
def drainWithin : Nat → Scanner → List Event × Scanner
  | 0, s => ([], s)
  | fuel + 1, s =>
    match s.next with
    | none => ([], s)
    | some (reply, after) =>
      let (events, last) := drainWithin fuel after
      (⟨reply, after.row, after.line⟩ :: events, last)

/-- All events that are left, and the scanner at the end of the input. -/
def drain (s : Scanner) : List Event × Scanner := drainWithin s.size s

/-- All events that are left. -/
def events (s : Scanner) : List Event := s.drain.1

/-- A comment uses up the lines that it goes over. -/
theorem size_closeComment_le {opening s : Scanner} {start : Nat} {text : List Char}
    {ahead : List SourceLine} {reply : Reply} {after : Scanner} (hs : s.spent = false)
    (h : closeComment opening start text s ahead = (reply, after)) :
    after.size ≤ load ahead + (s.line.length - s.pos) := by
  induction ahead generalizing s text with
  | nil =>
    obtain ⟨rfl, rfl⟩ := Prod.mk.inj h
    simp [size, load]
  | cons line ahead ih =>
    cases line with
    | unreadable =>
      obtain ⟨rfl, rfl⟩ := Prod.mk.inj h
      simp [size, hs, load, weight]
      omega
    | readable cs =>
      rw [closeComment] at h
      split at h
      · obtain ⟨rfl, rfl⟩ := Prod.mk.inj h
        simp [size, enter, load, weight]
        omega
      · have := ih (s := s.enter cs ahead) rfl h
        simp [enter] at this
        simp [load, weight]
        omega

/-- Each step on a line uses up something. -/
theorem size_lt_of_step {s after : Scanner} {reply : Reply} (hs : s.spent = false)
    (h : s.step = (reply, after)) : after.size < s.size := by
  have gap : (s.line.drop s.pos).takeWhile Lexeme.isGap ++
      (s.line.drop s.pos).dropWhile Lexeme.isGap = s.line.drop s.pos :=
    List.takeWhile_append_dropWhile
  have length := congrArg List.length gap
  simp only [List.length_append, List.length_drop] at length
  simp only [step] at h
  split at h
  · obtain ⟨_, rfl⟩ := Prod.mk.inj h
    simp [size, hs]
  · rename_i c cs found
    have hc : Lexeme.isGap c = false := by
      have := List.head?_dropWhile_not Lexeme.isGap (s.line.drop s.pos)
      simpa [found] using this
    rw [found, List.length_cons] at length
    split at h
    · rename_i lexeme read
      have := Lexeme.size_pos_of_read hc read
      obtain ⟨_, rfl⟩ := Prod.mk.inj h
      simp only [size, hs]
      simp
      omega
    · have := size_closeComment_le (by exact hs) h
      simp only [size, hs] at this ⊢
      simp
      omega

/-- Each step uses up something. -/
theorem size_lt_of_next {s after : Scanner} {reply : Reply} (h : s.next = some (reply, after)) :
    after.size < s.size := by
  rw [next] at h
  split at h
  · rename_i spent
    split at h
    · cases h
    · rename_i ahead
      cases h
      simp [size, spent, ahead, load, weight]
    · rename_i ahead
      have := size_lt_of_step (by rfl) (Option.some.inj h)
      simp [size, enter] at this
      simp [size, spent, ahead, load, weight]
      omega
  · exact size_lt_of_step (by simpa using ‹¬s.spent = true›) (Option.some.inj h)

/-- More steps than the scanner can take change nothing. -/
theorem drainWithin_of_size_le {s : Scanner} {fuel : Nat} (h : s.size ≤ fuel) :
    drainWithin fuel s = s.drain := by
  suffices ∀ n m s, size s ≤ n → size s ≤ m → drainWithin n s = drainWithin m s from
    this _ _ _ h (Nat.le_refl _)
  intro n
  induction n with
  | zero =>
    intro m s hn _
    cases m with
    | zero => rfl
    | succ m =>
      have : s.next = none := by
        cases found : s.next with
        | none => rfl
        | some result => have := @size_lt_of_next s result.2 result.1 found; omega
      simp [drainWithin, this]
  | succ n ih =>
    intro m s hn hm
    cases found : s.next with
    | none => cases m <;> simp [drainWithin, found]
    | some result =>
      have smaller := @size_lt_of_next s result.2 result.1 found
      cases m with
      | zero => omega
      | succ m => simp [drainWithin, found, ih m result.2 (by omega) (by omega)]

/-- The events of a scanner are those of its next step and of the scanner after it. -/
theorem events_eq (s : Scanner) :
    s.events = match s.next with
      | none => []
      | some (reply, after) => ⟨reply, after.row, after.line⟩ :: after.events := by
  rw [events, ← drainWithin_of_size_le (Nat.le_succ s.size), drainWithin]
  cases found : s.next with
  | none => rfl
  | some result =>
    have smaller := @size_lt_of_next s result.2 result.1 found
    simp [events, drainWithin_of_size_le (Nat.le_of_lt smaller)]

end Scanner

end TableSchema
