import Mathlib.Data.Prod.Lex
import TableSchema.Proofs.Token.LostLines

/-!
Progress of a scanner.

Asking a scanner for token after token gives its events one after the other, and nothing from then
on, however often it is asked (`Scanner.answer_eq`). Each token begins where the scanner stands or
behind that place, and the scanner stands behind the beginning of the token afterwards
(`Scanner.forward_of_next`). This is so for flaws as well: a word is read on behind its foreign
character and a bracket behind its opening, and a comment that stays open uses up all lines. So the
places of the tokens increase strictly, and there are no more tokens than characters and lines
(`Scanner.answers_ofText`).
-/

namespace TableSchema

open Text (SourceLine)

/-! ## Lexemes -/

namespace Lexeme

variable {c : Char} {rest : List Char} {lexeme : Lexeme} {n : Nat}

theorem closing?_bounds {cs : List Char} {size : Nat} (h : closing? cs = some size) :
    2 ≤ size ∧ size ≤ cs.length := by
  induction cs generalizing size with
  | nil => cases h
  | cons c rest ih =>
    rw [closing?.eq_def] at h
    split at h
    · cases h
    · rename_i more split
      cases h
      rw [split]
      exact ⟨Nat.le_refl _, Nat.le_add_left 2 more.length⟩
    · rename_i d tail _ split
      obtain ⟨inner, found, rfl⟩ := Option.map_eq_some_iff.mp h
      obtain ⟨rfl, rfl⟩ := List.cons.inj split
      obtain ⟨lower, upper⟩ := ih found
      exact ⟨Nat.le_succ_of_le lower, Nat.succ_le_succ upper⟩

/-- Of `n` characters a lexeme takes some, and its token begins on one that it takes. -/
structure Fits (n : Nat) (lexeme : Lexeme) : Prop where
  offset_lt : lexeme.offset < lexeme.size
  size_le : lexeme.size ≤ n

theorem fits_whole {kind : Token.Kind} {chars : List Char} (filled : chars ≠ [])
    (part : chars.length ≤ n) : (whole kind chars).Fits n :=
  ⟨List.length_pos_iff.mpr filled, part⟩

theorem fits_readSlash (h : readSlash rest = some lexeme) : lexeme.Fits (rest.length + 1) := by
  rw [readSlash.eq_def] at h
  split at h
  · cases h
    exact fits_whole (List.cons_ne_nil _ _) (Nat.le_refl _)
  · rename_i body
    obtain ⟨size, _, rfl⟩ := Option.map_eq_some_iff.mp h
    refine fits_whole (List.cons_ne_nil _ _) ?_
    simp only [List.length_cons, List.length_take]
    omega
  · cases h
    exact ⟨Nat.one_pos, Nat.le_add_left 1 _⟩

theorem fits_readBracket : (readBracket rest).Fits (rest.length + 1) := by
  by_cases closed : ']' ∈ rest
  · obtain ⟨name, more, rfl, outside⟩ := List.eq_append_cons_of_mem closed
    rw [readBracket_append outside]
    cases Section.ofName? (String.ofList name) with
    | some part => exact fits_whole (List.cons_ne_nil _ _) (by simp)
    | none => exact ⟨Nat.succ_pos _, by simp [flawed]⟩
  · rw [readBracket_of_not_mem closed]
    exact ⟨Nat.one_pos, Nat.le_add_left 1 _⟩

theorem fits_readSpecial : (readSpecial c rest).Fits (rest.length + 1) := by
  rw [readSpecial]
  split
  · exact ⟨Nat.one_pos, Nat.le_add_left 1 _⟩
  · exact fits_whole (List.cons_ne_nil _ _) (Nat.le_add_left 1 _)

/-- A word begins with its first character, unless this one ends words. -/
theorem fits_readWord (begins : endsWord c = false) :
    (readWord (c :: rest)).Fits (rest.length + 1) := by
  have part := (List.takeWhile_sublist (l := c :: rest) isWordChar).length_le
  have stop := List.length_drop (i := ((c :: rest).takeWhile isWordChar).length) (l := c :: rest)
  rw [readWord]
  split
  · rename_i empty
    rw [empty] at stop
    refine fits_whole (List.length_pos_iff.mp ?_) part
    simp only [List.length_cons, List.length_nil] at stop part
    omega
  · rename_i d more found
    split
    · rename_i ends
      refine fits_whole (fun none => ?_) part
      rw [none, List.length_nil, List.drop_zero] at found
      rw [(List.cons.inj found).1, ends] at begins
      cases begins
    · rw [found] at stop
      simp only [List.length_cons] at stop part
      exact ⟨Nat.lt_succ_self _, by simp only [flawed]; omega⟩

theorem fits_of_read (outside : isGap c = false) (h : read c rest = some lexeme) :
    lexeme.Fits (rest.length + 1) := by
  rw [read] at h
  split at h
  · exact fits_readSlash h
  · rename_i slash
    split at h
    · cases h
      exact fits_readBracket
    · split at h
      · cases h
        exact fits_readSpecial
      · rename_i special
        cases h
        exact fits_readWord (by simp [endsWord, outside, slash, special])

end Lexeme

/-! ## Places -/

/-- The place where a token begins. -/
def Token.place (t : Token) : Nat ×ₗ Nat := toLex (t.row, t.col)

namespace Scanner

variable {opening s after : Scanner} {reply : Reply} {start : Nat} {text : List Char}
  {ahead : List SourceLine}

/-- The place from which a scanner goes on. When its line is used up, this is the beginning of the
next one. -/
def place (s : Scanner) : Nat ×ₗ Nat :=
  if s.spent then toLex (s.row + 1, 0) else toLex (s.row, s.pos)

theorem place_of_unspent (unspent : s.spent = false) : s.place = toLex (s.row, s.pos) := by
  rw [place, unspent, if_neg Bool.false_ne_true]

theorem place_of_spent (spent : s.spent = true) : s.place = toLex (s.row + 1, 0) := by
  rw [place, if_pos spent]

theorem place_lt_of_row {row row' : Nat} (h : row < row') (col col' : Nat) :
    toLex (row, col) < toLex (row', col') :=
  Prod.Lex.toLex_lt_toLex.mpr (.inl h)

theorem place_lt_of_col {col col' : Nat} (h : col < col') (row : Nat) :
    toLex (row, col) < toLex (row, col') :=
  Prod.Lex.toLex_lt_toLex.mpr (.inr ⟨rfl, h⟩)

theorem place_le_of_col {col col' : Nat} (h : col ≤ col') (row : Nat) :
    toLex (row, col) ≤ toLex (row, col') :=
  Prod.Lex.toLex_le_toLex.mpr (.inr ⟨rfl, h⟩)

/-- The scanner stands on its line, or at the end of it. -/
def InLine (s : Scanner) : Prop := s.pos ≤ s.line.length

/-- What one step does to places: the scanner stays on its line and does not go back, and a token
begins between the places before and after. -/
structure Forward (s : Scanner) (reply : Reply) (after : Scanner) : Prop where
  inLine : after.InLine
  place_le : s.place ≤ after.place
  begins : ∀ t, reply = .token t → s.place ≤ t.place ∧ t.place < after.place

/-- Going on with a comment. So far it has come from `opening` to `s`. -/
theorem forward_of_closeComment (opened : opening.spent = false) (begin : opening.pos = start)
    (inLine : s.InLine) (unspent : s.spent = false) (behind : opening.place ≤ s.place)
    (done : closeComment opening start text s ahead = (reply, after)) :
    Forward opening reply after := by
  have here : opening.place = toLex (opening.row, start) := begin ▸ place_of_unspent opened
  induction ahead generalizing s text with
  | nil =>
    -- the scanner returns to the line of the comment, which is used up then
    cases done
    have later : toLex (opening.row, start) < toLex (opening.row + 1, 0) :=
      place_lt_of_row (Nat.lt_succ_self _) _ _
    refine ⟨Nat.le_refl _, here.le.trans later.le, ?_⟩
    rintro _ ⟨⟩
    exact ⟨here.le, later⟩
  | cons next ahead ih =>
    cases next with
    | unreadable =>
      cases done
      exact ⟨inLine, behind, fun _ token => by cases token⟩
    | readable cs =>
      have later : opening.place < (s.enter cs ahead).place := by
        refine behind.trans_lt ?_
        rw [place_of_unspent unspent, place_of_unspent (by rfl)]
        exact place_lt_of_row (Nat.lt_succ_self _) _ _
      rw [closeComment] at done
      split at done
      · rename_i size closing
        cases done
        have forth : opening.place < ({ s.enter cs ahead with pos := size } : Scanner).place := by
          refine later.trans_le ?_
          rw [place_of_unspent (by rfl), place_of_unspent (by rfl)]
          exact place_le_of_col (Nat.zero_le _) _
        refine ⟨(Lexeme.closing?_bounds closing).2, forth.le, ?_⟩
        rintro _ ⟨⟩
        exact ⟨here.le, here.symm.trans_lt forth⟩
      · exact ih (Nat.zero_le _) rfl later.le done

theorem forward_of_step (inLine : s.InLine) (unspent : s.spent = false)
    (done : s.step = (reply, after)) : Forward s reply after := by
  have split := List.takeWhile_append_dropWhile (p := Lexeme.isGap) (l := s.line.drop s.pos)
  have length := congrArg List.length split
  rw [List.length_append, List.length_drop] at length
  have onLine : s.pos ≤ s.line.length := inLine
  rw [step] at done
  dsimp only at done
  generalize ((s.line.drop s.pos).takeWhile Lexeme.isGap).length = gap at length done
  have moved (pos : Nat) : ({ s with pos := pos } : Scanner).place = toLex (s.row, pos) :=
    place_of_unspent unspent
  have passed : s.place ≤ toLex (s.row, s.pos + gap) :=
    (moved s.pos).trans_le (place_le_of_col (Nat.le_add_right _ _) _)
  cases found : (s.line.drop s.pos).dropWhile Lexeme.isGap with
  | nil =>
    rw [found, List.length_nil] at length
    rw [found] at done
    cases done
    have atEnd : s.pos + gap = s.line.length := by omega
    have later : toLex (s.row, s.pos + gap) < toLex (s.row + 1, 0) :=
      place_lt_of_row (Nat.lt_succ_self _) _ _
    refine ⟨atEnd.le, passed.trans later.le, ?_⟩
    rintro _ ⟨⟩
    exact ⟨atEnd ▸ passed, atEnd ▸ later⟩
  | cons c cs =>
    have outside : Lexeme.isGap c = false := by
      have stop := List.head?_dropWhile_not Lexeme.isGap (s.line.drop s.pos)
      simpa [found] using stop
    rw [found, List.length_cons] at length
    cases read : Lexeme.read c cs with
    | some lexeme =>
      simp only [found, read] at done
      cases done
      obtain ⟨offset_lt, size_le⟩ := Lexeme.fits_of_read outside read
      refine ⟨?_, ?_, ?_⟩
      · show s.pos + gap + lexeme.size ≤ s.line.length
        omega
      · refine passed.trans (le_of_le_of_eq ?_ (moved _).symm)
        exact place_le_of_col (Nat.le_add_right _ _) _
      · rintro _ ⟨⟩
        refine ⟨passed.trans (place_le_of_col (Nat.le_add_right _ _) _), ?_⟩
        refine lt_of_lt_of_eq ?_ (moved _).symm
        exact place_lt_of_col (Nat.add_lt_add_left offset_lt _) _
    | none =>
      simp only [found, read] at done
      have opened : ({ s with pos := s.pos + gap } : Scanner).InLine := by
        show s.pos + gap ≤ s.line.length
        omega
      obtain ⟨inLine', forth, begins⟩ :=
        forward_of_closeComment (by exact unspent) rfl opened unspent le_rfl done
      rw [moved] at forth begins
      exact ⟨inLine', passed.trans forth, fun t token => (begins t token).imp_left passed.trans⟩

/-- A step begins its token behind everything that was read before, and goes on behind the beginning
of the token. -/
theorem forward_of_next (inLine : s.InLine) (found : s.next = some (reply, after)) :
    Forward s reply after := by
  rw [next] at found
  split at found
  · rename_i spent
    split at found
    · cases found
    · cases found
      exact ⟨inLine, le_rfl, fun _ token => by cases token⟩
    · rename_i cs ahead _
      obtain ⟨inLine', forth, begins⟩ :=
        forward_of_step (Nat.zero_le _) rfl (Option.some.inj found)
      have same : s.place = (s.enter cs ahead).place := by
        rw [place_of_spent spent]
        rfl
      rw [← same] at forth begins
      exact ⟨inLine', forth, begins⟩
  · exact forward_of_step inLine (by simpa using ‹¬s.spent = true›) (Option.some.inj found)

/-- All tokens begin at or behind the place of the scanner, each one behind the one before. -/
theorem places_tokens (inLine : s.InLine) :
    (∀ t ∈ s.tokens, s.place ≤ t.place) ∧ s.tokens.Pairwise fun t u => t.place < u.place := by
  induction s using events_induction with
  | done s none =>
    rw [tokens_of_none none]
    exact ⟨List.forall_mem_nil _, .nil⟩
  | step s reply after found ih =>
    obtain ⟨inLine', forth, begins⟩ := forward_of_next inLine found
    obtain ⟨later, increasing⟩ := ih inLine'
    cases reply with
    | unreadable =>
      rw [tokens_eq_of_unreadable found]
      exact ⟨fun t inside => forth.trans (later t inside), increasing⟩
    | token t =>
      obtain ⟨lower, upper⟩ := begins t rfl
      rw [tokens_eq_cons found]
      refine ⟨List.forall_mem_cons.mpr ⟨lower, fun u inside => forth.trans (later u inside)⟩, ?_⟩
      exact List.pairwise_cons.mpr ⟨fun u inside => upper.trans_le (later u inside), increasing⟩

/-! ## Calls -/

/-- The answer to a call for the next token, and the scanner after it. At the end of the input there
is nothing to answer, and the scanner stays as it is. -/
def call (s : Scanner) : Option Reply × Scanner :=
  match s.next with
  | none => (none, s)
  | some (reply, after) => (some reply, after)

/-- The scanner after so many calls. -/
def afterCalls : Nat → Scanner → Scanner
  | 0, s => s
  | n + 1, s => afterCalls n s.call.2

/-- The answer to the call that comes after `n` others. -/
def answer (s : Scanner) (n : Nat) : Option Reply := (s.afterCalls n).call.1

/-- The calls are answered by the events in their order, and by nothing from then on. -/
theorem answer_eq (s : Scanner) (n : Nat) : s.answer n = s.events[n]?.map Event.reply := by
  induction n generalizing s with
  | zero =>
    rw [answer, afterCalls, call, events_eq]
    cases s.next <;> rfl
  | succ n ih =>
    rw [answer, afterCalls]
    refine (ih s.call.2).trans ?_
    rw [call, events_eq s]
    cases none : s.next with
    | none =>
      dsimp only
      rw [events_eq, none, List.getElem?_nil, List.getElem?_nil]
    | some result => rw [List.getElem?_cons_succ]

theorem length_events_le_size (s : Scanner) : s.events.length ≤ s.size := by
  induction s using events_induction with
  | done s none => exact Nat.zero_le _
  | step s reply after found ih => exact Nat.lt_of_le_of_lt ih (size_lt_of_next found)

theorem load_ofText_le (text : String) :
    load (SourceLine.ofText text) ≤ text.length + (SourceLine.ofText text).length := by
  rw [← String.length_toList, SourceLine.ofText, List.length_map]
  have shorter (cs : List Char) : (Text.lineText cs).length ≤ cs.length := by
    obtain ⟨tail, split, _⟩ := Text.exists_append_dropEnd (· == '\r') cs
    have part : Text.lineText cs <+: cs := ⟨tail, split.symm⟩
    exact part.length_le
  induction text.toList using Text.lines_induction with
  | nil => exact Nat.zero_le _
  | last cs filled unbroken =>
    obtain ⟨c, rest, rfl⟩ := List.exists_cons_of_ne_nil filled
    rw [Text.cutLines_of_unended (Text.ne_lineFeed_of_not_mem unbroken)]
    exact Nat.succ_le_succ (shorter _)
  | line front rest unbroken ih =>
    have line := shorter front
    rw [Text.cutLines_append_cons rfl _ _ (Text.ne_lineFeed_of_not_mem unbroken)]
    simp only [List.map_cons, load, weight, List.length_cons, List.length_append]
    omega

/-- Where all lines are text, every event is a token. -/
theorem map_reply_events (readable : .unreadable ∉ s.ahead) :
    s.events.map Event.reply = s.tokens.map .token := by
  have none : s.events.countP (fun e => e.reply == .unreadable) = 0 := by
    rw [countP_unreadable]
    exact List.count_eq_zero.mpr readable
  rw [tokens, List.map_filterMap, ← List.filterMap_eq_map]
  refine List.filterMap_congr fun e inside => ?_
  have isToken := List.countP_eq_zero.mp none e inside
  rw [Function.comp_apply, Event.token?]
  cases reply : e.reply with
  | token t => rfl
  | unreadable => simp [reply] at isToken

/-- Asking for the tokens of a text gives them one after the other, and nothing from then on. There
are no more of them than the text has characters and lines, and each one begins behind the beginning
of the one before. -/
theorem answers_ofText (text : String) :
    (ofText text).tokens.length ≤ text.length + (SourceLine.ofText text).length ∧
    (∀ n, (ofText text).answer n = (ofText text).tokens[n]?.map .token) ∧
    (ofText text).tokens.Pairwise fun t u => t.place < u.place := by
  have replies := map_reply_events (s := ofText text) SourceLine.unreadable_not_mem_ofText
  refine ⟨?_, fun n => ?_, (places_tokens (Nat.zero_le _)).2⟩
  · calc (ofText text).tokens.length
      _ ≤ (ofText text).events.length := List.length_filterMap_le _ _
      _ ≤ (ofText text).size := length_events_le_size _
      _ = load (SourceLine.ofText text) := Nat.add_zero _
      _ ≤ text.length + (SourceLine.ofText text).length := load_ofText_le text
  · rw [answer_eq, ← List.getElem?_map, replies, List.getElem?_map]

end Scanner

end TableSchema
