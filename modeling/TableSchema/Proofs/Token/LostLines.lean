import TableSchema.Proofs.Text.Readable
import TableSchema.Proofs.Token.Front
import TableSchema.Proofs.Token.Covered

/-!
Lines that are no text.

Each of them gives one event without a token. The tokens are those of the input without these lines,
unless one of them comes while a comment is open that has gone on over the end of a line before
(`Scanner.Follows.tokens_eq_iff`). A comment whose first line is followed by such a line is read once
more from its beginning. But when the comment has gone on before, its beginning is lost: the line
that was read last is then read as if no comment were open.
-/

namespace TableSchema

open Text (SourceLine texts readableLines lostRows readableBytes)

/-- The line `row` is a line on which the comment `t` goes on, and the comment does not end on it. -/
def Token.GoesOnBehind (t : Token) (row : Nat) : Prop :=
  t.row < row ∧ (t.LeftOpen ∨ row < t.endRow)

instance (t : Token) : Decidable t.LeftOpen :=
  decidable_of_iff (t.kind = .flaw ∧ t.text = Flaw.openComment.message)
    ⟨fun both => ⟨both.1, both.2⟩, fun stays => ⟨stays.kind, stays.text⟩⟩

instance (t : Token) (row : Nat) : Decidable (t.GoesOnBehind row) :=
  inferInstanceAs (Decidable (_ ∧ _))

namespace Scanner

variable {source ahead : List SourceLine} {s after opening : Scanner} {t : Token} {reply : Reply}
  {start : Nat} {text : List Char}

/-- The scanner with only the lines ahead that are text. -/
def clear (s : Scanner) : Scanner := { s with ahead := readableLines s.ahead }

theorem clear_enter {cs : List Char} :
    (s.enter cs ahead).clear = s.clear.enter cs (readableLines ahead) := rfl

/-! ## Comments -/

/-- A comment is closed on a line behind those read so far, or it stays open. -/
theorem leftOpen_or_lt_of_closeComment
    (done : closeComment opening start text s ahead = (.token t, after)) :
    t.LeftOpen ∨ s.row < after.row := by
  induction ahead generalizing s text with
  | nil =>
    cases done
    exact .inl ⟨rfl, rfl⟩
  | cons next ahead ih =>
    cases next with
    | unreadable => cases done
    | readable cs =>
      rw [closeComment] at done
      split at done
      · cases done
        exact .inr (Nat.lt_succ_self _)
      · exact (ih done).imp_right (Nat.lt_succ_self s.row).trans

/-- Where all lines are text, going on with a comment gives a token. -/
theorem exists_token_of_readable (opening s : Scanner) (start : Nat) (text : List Char)
    (ahead : List SourceLine) :
    ∃ t after, closeComment opening start text s (readableLines ahead) = (.token t, after) := by
  induction ahead generalizing s text with
  | nil => exact ⟨_, _, rfl⟩
  | cons next ahead ih =>
    cases next with
    | unreadable => exact ih s text
    | readable cs =>
      show ∃ t after, closeComment opening start text s
        (.readable cs :: readableLines ahead) = (.token t, after)
      rw [closeComment]
      split
      · exact ⟨_, _, rfl⟩
      · exact ih _ _

/-- A comment that is read to its end has met no line that is no text. -/
theorem closeComment_clear_of_token
    (done : closeComment opening start text s ahead = (.token t, after)) :
    closeComment opening.clear start text s.clear (readableLines ahead) = (.token t, after.clear) ∧
      lostRows s.row ahead = lostRows after.row after.ahead := by
  induction ahead generalizing s text with
  | nil =>
    cases done
    exact ⟨rfl, rfl⟩
  | cons next ahead ih =>
    cases next with
    | unreadable => cases done
    | readable cs =>
      rw [closeComment] at done
      show closeComment opening.clear start text s.clear (.readable cs :: readableLines ahead) = _ ∧
        lostRows (s.row + 1) ahead = _
      rw [closeComment, ← clear_enter]
      split at done
      · cases done
        exact ⟨rfl, rfl⟩
      · exact ih done

/-- How going on with a comment is given up at a line that is no text: at the first line, or behind
others. Then the comment would go on behind the line that was read last. -/
theorem closeComment_clear_of_unreadable
    (done : closeComment opening start text s ahead = (.unreadable, after)) :
    lostRows s.row ahead = after.row :: lostRows after.row after.ahead ∧
    ((∃ rest, ahead = .unreadable :: rest ∧ after = { s with ahead := rest }) ∨
      (s.row < after.row ∧ ∀ t last,
        closeComment opening.clear start text s.clear (readableLines ahead) = (.token t, last) →
          t.LeftOpen ∨ after.row < last.row)) := by
  induction ahead generalizing s text with
  | nil => cases done
  | cons next ahead ih =>
    cases next with
    | unreadable =>
      cases done
      exact ⟨rfl, .inl ⟨ahead, rfl, rfl⟩⟩
    | readable cs =>
      rw [closeComment] at done
      split at done
      · cases done
      · rename_i open_
        have goesOn : closeComment opening.clear start text s.clear
            (readableLines (.readable cs :: ahead)) =
              closeComment opening.clear start (text ++ '\n' :: cs) (s.enter cs ahead).clear
                (readableLines ahead) := by
          show closeComment opening.clear start text s.clear
            (.readable cs :: readableLines ahead) = _
          rw [closeComment, open_]
          rfl
        rw [goesOn]
        obtain ⟨rows, cost⟩ := ih done
        refine ⟨rows, .inr ?_⟩
        rcases cost with ⟨rest, rfl, rfl⟩ | ⟨later, ends⟩
        · refine ⟨Nat.lt_succ_self _, fun t last closed => ?_⟩
          have ends := leftOpen_or_lt_of_closeComment closed
          exact ends
        · exact ⟨(Nat.lt_succ_self _).trans later, ends⟩

/-! ## Rows -/

theorem row_le_of_closeComment (opened : opening.row ≤ s.row)
    (done : closeComment opening start text s ahead = (reply, after)) :
    opening.row ≤ after.row := by
  induction ahead generalizing s text with
  | nil =>
    cases done
    exact Nat.le_refl _
  | cons next ahead ih =>
    cases next with
    | unreadable =>
      cases done
      exact opened
    | readable cs =>
      have entered := opened.trans (Nat.le_succ s.row)
      rw [closeComment] at done
      split at done
      · cases done
        exact entered
      · exact ih entered done

/-- A step gives a token of the line of the scanner, and it does not go back. -/
theorem rows_of_step (done : s.step = (reply, after)) :
    s.row ≤ after.row ∧ ∀ t, reply = .token t → t.row = s.row := by
  have steps := s.stepsTo_step
  rw [done] at steps
  cases steps with
  | lineEnd | lexeme =>
    refine ⟨Nat.le_refl _, ?_⟩
    rintro t ⟨⟩
    rfl
  | comment _ _ _ closes =>
    have later := row_le_of_closeComment (Nat.le_refl _) closes
    refine ⟨later, ?_⟩
    rintro t rfl
    exact (place_of_closeComment closes).1

theorem tokens_congr {s' : Scanner} (same : s.next = s'.next) : s.tokens = s'.tokens := by
  rw [tokens, tokens, events_eq, events_eq, same]

theorem tokens_eq_of_unreadable (h : s.next = some (.unreadable, after)) :
    s.tokens = after.tokens := by
  rw [tokens, tokens, events_eq, h]
  rfl

/-- The tokens that are left begin on the line of the scanner or behind it. -/
theorem row_le_of_mem_tokens (ht : t ∈ s.tokens) : s.row ≤ t.row := by
  rw [tokens] at ht
  induction s using events_induction with
  | done s none => cases ht
  | step s reply after found ih =>
    have rows : s.row ≤ after.row ∧ ∀ t, reply = .token t → s.row ≤ t.row := by
      rw [next] at found
      split at found
      · split at found
        · cases found
        · cases found
          exact ⟨Nat.le_refl _, fun t token => by cases token⟩
        · rename_i cs ahead _
          obtain ⟨later, here⟩ := rows_of_step (Option.some.inj found)
          refine ⟨(Nat.le_succ _).trans later, fun t token => ?_⟩
          rw [here t token]
          exact Nat.le_succ _
      · obtain ⟨later, here⟩ := rows_of_step (Option.some.inj found)
        exact ⟨later, fun t token => (here t token).ge⟩
    rw [List.filterMap_cons] at ht
    cases reply with
    | unreadable => exact rows.1.trans (ih ht)
    | token first =>
      rcases List.mem_cons.mp ht with rfl | later
      · exact rows.2 _ rfl
      · exact rows.1.trans (ih later)

/-! ## One step -/

/-- A comment that stays open on its line. -/
theorem step_eq_closeComment {gap cs : List Char} {c : Char} (blank : IsGap gap)
    (here : s.line.drop s.pos = gap ++ c :: cs) (read : Lexeme.read c cs = none) :
    s.step = closeComment { s with pos := s.pos + gap.length } (s.pos + gap.length) (c :: cs)
      { s with pos := s.pos + gap.length } s.ahead := by
  have solid : Lexeme.isGap c = false := by
    cases Lexeme.readsTo_of_read read with
    | unclosed slash => rw [slash]; decide
  have passed : (gap ++ c :: cs).takeWhile Lexeme.isGap = gap := by
    rw [List.takeWhile_append_of_pos blank, List.takeWhile_cons_of_neg (by simp [solid]),
      List.append_nil]
  have left : (gap ++ c :: cs).dropWhile Lexeme.isGap = c :: cs := by
    rw [List.dropWhile_append_of_pos blank, List.dropWhile_cons_of_neg (by simp [solid])]
  simp only [step, here, passed, left, read]

theorem step_clear_of_token (done : s.step = (.token t, after)) :
    s.clear.step = (.token t, after.clear) ∧
      lostRows s.row s.ahead = lostRows after.row after.ahead := by
  rw [step] at done ⊢
  dsimp only [clear] at done ⊢
  cases first : (s.line.drop s.pos).dropWhile Lexeme.isGap with
  | nil =>
    rw [first] at done
    cases done
    exact ⟨rfl, rfl⟩
  | cons c cs =>
    cases read : Lexeme.read c cs with
    | some lexeme =>
      simp only [first, read] at done ⊢
      cases done
      exact ⟨rfl, rfl⟩
    | none =>
      simp only [first, read] at done ⊢
      have cleared := closeComment_clear_of_token done
      exact cleared

/-- A step that gives a token meets no line that is no text. -/
theorem next_clear_of_token (found : s.next = some (.token t, after)) :
    s.clear.next = some (.token t, after.clear) ∧
      lostRows s.row s.ahead = lostRows after.row after.ahead := by
  rw [next] at found
  have sameSpent : s.clear.spent = s.spent := rfl
  rw [next, sameSpent]
  split at found
  · rename_i spent
    rw [if_pos spent]
    split at found
    · cases found
    · cases found
    · rename_i cs ahead coming
      obtain ⟨done, lost⟩ := step_clear_of_token (Option.some.inj found)
      have cleared : s.clear.ahead = .readable cs :: readableLines ahead := by
        rw [clear, coming]
        rfl
      rw [cleared, coming]
      exact ⟨congrArg some done, lost⟩
  · rename_i unspent
    obtain ⟨done, lost⟩ := step_clear_of_token (Option.some.inj found)
    rw [if_neg unspent, done]
    exact ⟨rfl, lost⟩

/-- What a line costs that is no text: nothing but itself, or a comment that goes on behind the line
that was read last. -/
inductive Loses (s after : Scanner) : Prop
  | nothing : s.clear.next = after.clear.next → Loses s after
  | comment {t : Token} {last : Scanner} : s.clear.next = some (.token t, last) →
      t.row < after.row → t.LeftOpen ∨ after.row < last.row → Loses s after

theorem loses_of_step (unspent : s.spent = false) (done : s.step = (.unreadable, after)) :
    lostRows s.row s.ahead = after.row :: lostRows after.row after.ahead ∧ s.Loses after := by
  have steps := s.stepsTo_step
  rw [done] at steps
  cases steps with
  | @comment gap cs c _ blank here read closes =>
    have cleared : s.clear.next = some (closeComment { s.clear with pos := s.pos + gap.length }
        (s.pos + gap.length) (c :: cs) { s.clear with pos := s.pos + gap.length }
        (readableLines s.ahead)) := by
      rw [next, if_neg (by simp [clear, unspent])]
      exact congrArg some (step_eq_closeComment blank here read)
    obtain ⟨rows, cost⟩ := closeComment_clear_of_unreadable closes
    refine ⟨rows, ?_⟩
    rcases cost with ⟨rest, coming, rfl⟩ | ⟨later, ends⟩
    · -- the scanner stands in front of the comment, and reads it once more
      have noGap : IsGap [] := by simp [IsGap]
      have behind : s.line.drop (s.pos + gap.length) = [] ++ c :: cs := by
        rw [← List.drop_drop, here, List.drop_left, List.nil_append]
      have again := step_eq_closeComment (s :=
        { s with pos := s.pos + gap.length, ahead := readableLines rest }) noGap behind read
      have same : s.clear = { s with ahead := readableLines rest } := by
        rw [clear, coming]
        rfl
      refine .nothing ?_
      rw [cleared, coming, same, next, if_neg (by simp [clear, unspent])]
      exact congrArg some again.symm
    · obtain ⟨t, last, closed⟩ := exists_token_of_readable
        { s.clear with pos := s.pos + gap.length } { s.clear with pos := s.pos + gap.length }
        (s.pos + gap.length) (c :: cs) s.ahead
      refine .comment (cleared.trans (congrArg some closed)) ?_ (ends t last closed)
      rw [(place_of_closeComment closed).1]
      exact later

/-- A step that meets a line that is no text stops behind the line of text in front of it. -/
theorem loses_of_next (found : s.next = some (.unreadable, after)) :
    lostRows s.row s.ahead = after.row :: lostRows after.row after.ahead ∧ s.Loses after := by
  rw [next] at found
  split at found
  · rename_i spent
    split at found
    · cases found
    · rename_i ahead coming
      cases found
      refine ⟨by rw [coming]; rfl, .nothing ?_⟩
      rw [clear, clear, coming]
      rfl
    · rename_i cs ahead coming
      obtain ⟨rows, loses⟩ := loses_of_step rfl (Option.some.inj found)
      have cleared : s.clear.ahead = .readable cs :: readableLines ahead := by
        rw [clear, coming]
        rfl
      have same : s.clear.next = (s.enter cs ahead).clear.next := by
        have sameSpent : s.clear.spent = s.spent := rfl
        rw [next, sameSpent, if_pos spent, cleared]
        rfl
      refine ⟨by rw [coming]; exact rows, ?_⟩
      cases loses with
      | nothing next => exact .nothing (same.trans next)
      | comment next row ends => exact .comment (same.trans next) row ends
  · rename_i unspent
    exact loses_of_step (by simpa using unspent) (Option.some.inj found)

/-- A comment is left open only at the end of the input. -/
theorem ahead_of_leftOpen (found : s.next = some (.token t, after)) (stays : t.LeftOpen) :
    after.ahead = [] := by
  have ofClose {opening s : Scanner} {start : Nat} {text : List Char} {ahead : List SourceLine}
      (done : closeComment opening start text s ahead = (.token t, after)) : after.ahead = [] := by
    induction ahead generalizing s text with
    | nil =>
      cases done
      rfl
    | cons next ahead ih =>
      cases next with
      | unreadable => cases done
      | readable cs =>
        rw [closeComment] at done
        split at done
        · cases done
          cases stays.kind
        · exact ih done
  have ofStep {s : Scanner} (done : s.step = (.token t, after)) : after.ahead = [] := by
    have steps := s.stepsTo_step
    rw [done] at steps
    cases steps with
    | lineEnd => cases stays.kind
    | lexeme _ _ read => exact absurd stays.text (Lexeme.text_ne_of_read read stays.kind)
    | comment _ _ _ closes => exact ofClose closes
  rw [next] at found
  split at found
  · split at found
    · cases found
    · cases found
    · exact ofStep (Option.some.inj found)
  · exact ofStep (Option.some.inj found)

/-! ## All tokens -/

theorem Follows.clear (h : s.Follows source) : s.clear.Follows (readableLines source) := by
  have same (lines : List SourceLine) : texts (readableLines lines) = texts lines := by
    rw [readableLines, texts, List.filterMap_map]
    exact List.filterMap_some
  refine ⟨?_, (h.suffix.filterMap _).map _, ?_, h.row_pos⟩
  · rw [same]
    exact h.line
  · rw [same]
    refine h.ahead.imp (same s.ahead).trans fun none => ?_
    rw [Scanner.clear, none]
    rfl

theorem unbroken_readableLines (unbroken : ∀ cs, .readable cs ∈ source → '\n' ∉ cs) :
    ∀ cs, .readable cs ∈ readableLines source → '\n' ∉ cs := by
  intro cs inside
  obtain ⟨text, isText, same⟩ := List.mem_map.mp inside
  obtain ⟨line, inside, found⟩ := List.mem_filterMap.mp isText
  cases same
  cases line with
  | unreadable => cases found
  | readable text =>
    cases found
    exact unbroken _ inside

/-- The tokens are those of the lines that are text, unless a line that is no text comes while a
comment is open that has gone on over the end of a line before. -/
theorem Follows.tokens_eq_iff (h : s.Follows source)
    (unbroken : ∀ cs, .readable cs ∈ source → '\n' ∉ cs) :
    s.tokens = s.clear.tokens ↔
      ∀ t ∈ s.clear.tokens, ∀ row ∈ lostRows s.row s.ahead, ¬t.GoesOnBehind row := by
  induction s using events_induction with
  | done s none =>
    obtain ⟨spent, empty⟩ := next_eq_none_iff.mp none
    have same : s.clear = s := by
      rw [Scanner.clear, empty]
      cases s
      cases empty
      rfl
    rw [same, empty]
    simp [lostRows]
  | step s reply after found ih =>
    have follows := (follows_of_next unbroken h found).1
    cases reply with
    | token t =>
      obtain ⟨cleared, rows⟩ := next_clear_of_token found
      have ends := (follows_of_next unbroken h found).2.endRow_eq
      have fine : ∀ row ∈ lostRows after.row after.ahead, ¬t.GoesOnBehind row := by
        rintro row lost ⟨_, stays | short⟩
        · rw [ahead_of_leftOpen found stays] at lost
          cases lost
        · have := Text.le_of_mem_lostRows lost
          omega
      rw [tokens_eq_cons found, tokens_eq_cons cleared, rows, List.cons_inj_right, ih follows,
        List.forall_mem_cons]
      exact (and_iff_right fine).symm
    | unreadable =>
      obtain ⟨rows, loses⟩ := loses_of_next found
      rw [tokens_eq_of_unreadable found, rows]
      cases loses with
      | nothing same =>
        have fine : ∀ t ∈ after.clear.tokens, ¬t.GoesOnBehind after.row := by
          rintro t inside ⟨early, _⟩
          have := row_le_of_mem_tokens inside
          exact absurd early (Nat.not_lt.mpr this)
        rw [tokens_congr same, ih follows]
        refine forall₂_congr fun t inside => ?_
        rw [List.forall_mem_cons]
        exact (and_iff_right (fine t inside)).symm
      | @comment t last closed early ends =>
        have behind : t.GoesOnBehind after.row := by
          obtain ⟨_, follows⟩ := follows_of_next (unbroken_readableLines unbroken) h.clear closed
          exact ⟨early, by rwa [follows.endRow_eq]⟩
        constructor
        · intro same
          have inside : t ∈ after.tokens := by
            rw [same, tokens_eq_cons closed]
            exact List.mem_cons_self
          exact absurd (row_le_of_mem_tokens inside) (Nat.not_le.mpr early)
        · intro fine
          refine absurd behind (fine t ?_ _ List.mem_cons_self)
          rw [tokens_eq_cons closed]
          exact List.mem_cons_self

/-- Each line that is no text gives one event. -/
theorem countP_unreadable (s : Scanner) :
    s.events.countP (fun e => e.reply == .unreadable) = s.ahead.count .unreadable := by
  rw [← Text.length_lostRows s.row]
  induction s using events_induction with
  | done s none =>
    rw [(next_eq_none_iff.mp none).2]
    rfl
  | step s reply after found ih =>
    cases reply with
    | token t =>
      rw [(next_clear_of_token found).2, List.countP_cons_of_neg (by simp), ih]
    | unreadable =>
      rw [(loses_of_next found).1, List.countP_cons_of_pos (by simp), ih, List.length_cons]

/-- The tokens of bytes are those of the bytes without the lines that are no text, exactly when no
such line comes while a comment is open that has gone on over the end of a line before. In any case
each of these lines gives one event. -/
theorem tokens_ofBytes_eq_iff (bytes : List UInt8) :
    (ofBytes bytes).events.countP (fun e => e.reply == .unreadable)
      = (SourceLine.ofBytes bytes).count .unreadable ∧
    ((ofBytes bytes).tokens = (ofBytes (readableBytes bytes)).tokens ↔
      ∀ t ∈ (ofBytes (readableBytes bytes)).tokens,
        ∀ row ∈ lostRows 0 (SourceLine.ofBytes bytes), ¬t.GoesOnBehind row) := by
  refine ⟨countP_unreadable (ofBytes bytes), ?_⟩
  have cleared : ofBytes (readableBytes bytes) = (ofBytes bytes).clear := by
    rw [ofBytes, SourceLine.ofBytes_readableBytes]
    rfl
  rw [cleared]
  exact (follows_ofLines _).tokens_eq_iff fun _ => SourceLine.unbroken_ofBytes

/-- The line that is no text comes behind the first line of the comment. -/
theorem tokens_ofBytes_eq_iff_behind_opening :
    (ofBytes [47, 42, 10, 255, 10, 97, 42, 47, 10]).tokens
      = (ofBytes (readableBytes [47, 42, 10, 255, 10, 97, 42, 47, 10])).tokens :=
  (tokens_ofBytes_eq_iff [47, 42, 10, 255, 10, 97, 42, 47, 10]).2.mpr (by decide +kernel)

/-- The line that is no text comes behind the second line of the comment. -/
theorem tokens_ofBytes_behind_second :
    (ofBytes [47, 42, 10, 97, 10, 255, 10, 42, 47, 10]).tokens
      = [⟨.word, "a", 2, 0⟩, .lineEnd 2 1, ⟨.special, "*", 3, 0⟩,
          ⟨.flaw, Flaw.looseSlash.message, 3, 1⟩, .lineEnd 3 2] ∧
    (ofBytes (readableBytes [47, 42, 10, 97, 10, 255, 10, 42, 47, 10])).tokens
      = [⟨.comment, "/*\na\n*/", 1, 0⟩, .lineEnd 3 2] ∧
    (ofBytes [47, 42, 10, 97, 10, 255, 10, 42, 47, 10]).tokens
      ≠ (ofBytes (readableBytes [47, 42, 10, 97, 10, 255, 10, 42, 47, 10])).tokens := by
  decide +kernel

end Scanner

end TableSchema
