import Mathlib.Data.List.Chain
import TableSchema.Proofs.Token.Step

/-!
The line on which a token ends.

A scanner follows the lines of its input that are text (`Scanner.Follows`): it stands on the line
that its row counts, or in front of the first. After a token it stands on the line on which the
token ends, which is the line of the token unless this is a comment with line feeds in it
(`follows_of_next`). It stays there, so until the end of the line is read, the next token begins on
the line on which the token before it ends (`Scanner.Follows.events`).
-/

namespace TableSchema

open Text (SourceLine texts)

/-- The number of lines that a token goes on for behind its own. -/
def Token.lineBreaks (t : Token) : Nat :=
  if t.isComment then t.text.toList.count '\n' else 0

/-- The row of the line on which a token ends. -/
def Token.endRow (t : Token) : Nat := t.row + t.lineBreaks

theorem Token.endRow_of_not_comment {t : Token} (h : t.kind ≠ .comment) : t.endRow = t.row := by
  simp [endRow, lineBreaks, isComment, h]

theorem Token.endRow_of_comment {t : Token} (h : t.kind = .comment) :
    t.endRow = t.row + t.text.toList.count '\n' := by
  simp [endRow, lineBreaks, isComment, h]

/-- A comment that is closed on its line is a part of the line. -/
theorem Lexeme.subset_of_read {c : Char} {rest : List Char} {lexeme : Lexeme}
    (h : read c rest = some lexeme) (comment : lexeme.kind = .comment) :
    lexeme.text.toList ⊆ c :: rest := by
  cases readsTo_of_read h with
  | whole _ _ split =>
    rw [split, whole, String.toList_ofList]
    exact List.subset_append_left _ _
  | flawed => cases comment

namespace Scanner

variable {source : List SourceLine} {s after opening : Scanner} {reply : Reply}

/-- The scanner stands on the line of the input that its row counts, or in front of the first, and
has the lines behind it ahead, unless it has come to the end before. -/
structure Follows (source : List SourceLine) (s : Scanner) : Prop where
  line : ([] :: texts source)[s.row]? = some s.line
  suffix : s.ahead <:+ source
  ahead : texts s.ahead = (texts source).drop s.row ∨ s.ahead = []
  row_pos : s.spent = false → 0 < s.row

theorem events_ofLines_eq_nil (h : (ofLines source).events = []) : source = [] := by
  cases source with
  | nil => rfl
  | cons line ahead =>
    rw [events_eq] at h
    cases line <;> cases h

theorem follows_ofLines (source : List SourceLine) : (ofLines source).Follows source :=
  ⟨rfl, List.suffix_refl _, .inl rfl, Bool.noConfusion⟩

/-- The token `t` begins on the row `row` and ends on that of the scanner after it, which stands
within a line then unless the token is the last of its entry. -/
structure Reads (row : Nat) (t : Token) (after : Scanner) : Prop where
  row_eq : t.row = row
  endRow_eq : t.endRow = after.row
  goesOn : t.kind ≠ .newLine → t.kind ≠ .flaw → after.spent = false

/-- The reply is a token that begins on the row `row`, or the news of a line of the input. -/
def Replies (source : List SourceLine) (reply : Reply) (row : Nat) (after : Scanner) : Prop :=
  match reply with
  | .token t => Reads row t after
  | .unreadable => .unreadable ∈ source

theorem Follows.setPos (h : s.Follows source) (pos : Nat) :
    ({ s with pos := pos } : Scanner).Follows source :=
  ⟨h.line, h.suffix, h.ahead, h.row_pos⟩

theorem Follows.mem (h : s.Follows source) {next : SourceLine} {ahead : List SourceLine}
    (split : s.ahead = next :: ahead) : next ∈ source ∧ ahead <:+ source := by
  have suffix := h.suffix
  rw [split] at suffix
  exact ⟨suffix.subset List.mem_cons_self, (List.suffix_cons _ _).trans suffix⟩

theorem Follows.pass (h : s.Follows source) {ahead : List SourceLine}
    (next : s.ahead = .unreadable :: ahead) :
    ({ s with ahead := ahead } : Scanner).Follows source := by
  refine ⟨h.line, (h.mem next).2, ?_, h.row_pos⟩
  rcases h.ahead with same | none
  · rw [next] at same
    exact .inl same
  · rw [next] at none
    cases none

theorem Follows.enter (h : s.Follows source) {cs : List Char} {ahead : List SourceLine}
    (next : s.ahead = .readable cs :: ahead) : (s.enter cs ahead).Follows source := by
  rcases h.ahead with same | none
  · rw [next] at same
    have drop : (texts source).drop s.row = cs :: texts ahead := same.symm
    refine ⟨?_, (h.mem next).2, .inl ?_, fun _ => Nat.succ_pos _⟩
    · show (texts source)[s.row]? = some cs
      rw [← List.head?_drop, drop]
      rfl
    · show texts ahead = (texts source).drop (s.row + 1)
      rw [← List.tail_drop, drop]
      rfl
  · rw [next] at none
    cases none

section

variable (unbroken : ∀ cs, .readable cs ∈ source → '\n' ∉ cs)

include unbroken

/-- Going on with a comment. So far it has gone over the lines from that of `opening` to that of
`s`. -/
theorem follows_of_closeComment {start : Nat} {text : List Char} {ahead : List SourceLine}
    (opened : opening.Follows source) (h : s.Follows source) (unspent : s.spent = false)
    (same : s.ahead = ahead) (counted : s.row = opening.row + text.count '\n')
    (done : closeComment opening start text s ahead = (reply, after)) :
    after.Follows source ∧ Replies source reply opening.row after := by
  -- over the lines ahead; each one that stays open adds a row to `s` and a line feed to `text`
  induction ahead generalizing s text with
  | nil =>
    -- the scanner returns to the line of the comment, with nothing ahead any more
    obtain ⟨rfl, rfl⟩ := Prod.mk.inj done
    refine ⟨⟨opened.line, List.nil_suffix, .inr rfl, Bool.noConfusion⟩, ?_⟩
    have flaw : Token.Kind.flaw ≠ .comment := by decide
    exact ⟨rfl, Token.endRow_of_not_comment flaw, fun _ flawless => absurd rfl flawless⟩
  | cons next ahead ih =>
    cases next with
    | unreadable =>
      obtain ⟨rfl, rfl⟩ := Prod.mk.inj done
      exact ⟨h.pass same, (h.mem same).1⟩
    | readable cs =>
      have entered := h.enter same
      have whole : '\n' ∉ cs := unbroken cs (h.mem same).1
      rw [closeComment] at done
      split at done
      · rename_i size _
        obtain ⟨rfl, rfl⟩ := Prod.mk.inj done
        have part : (cs.take size).count '\n' = 0 :=
          List.count_eq_zero.mpr fun inside => whole (List.mem_of_mem_take inside)
        refine ⟨entered.setPos size, rfl, ?_, fun _ _ => rfl⟩
        rw [Token.endRow_of_comment rfl]
        show opening.row + (String.ofList (text ++ '\n' :: cs.take size)).toList.count '\n' =
          s.row + 1
        rw [String.toList_ofList, List.count_append, List.count_cons_self, part, counted]
        omega
      · refine ih entered rfl rfl ?_ done
        show s.row + 1 = opening.row + (text ++ '\n' :: cs).count '\n'
        rw [List.count_append, List.count_cons_self, List.count_eq_zero.mpr whole, counted]
        omega

/-- A step within a line. -/
theorem follows_of_step (h : s.Follows source) (unspent : s.spent = false)
    (done : s.step = (reply, after)) :
    after.Follows source ∧ Replies source reply s.row after := by
  have unbrokenHere : '\n' ∉ s.line := by
    have line := h.line
    obtain ⟨n, row⟩ := Nat.exists_eq_succ_of_ne_zero (h.row_pos unspent).ne'
    rw [row, List.getElem?_cons_succ] at line
    obtain ⟨next, inside, text⟩ := List.mem_filterMap.mp (List.mem_of_getElem? line)
    cases next with
    | readable cs => exact Option.some.inj text ▸ unbroken cs inside
    | unreadable => cases text
  have steps := s.stepsTo_step
  rw [done] at steps
  cases steps with
  | lineEnd =>
    refine ⟨⟨h.line, h.suffix, h.ahead, Bool.noConfusion⟩, rfl, ?_, fun line => absurd rfl line⟩
    exact Token.endRow_of_not_comment (by simp [Token.lineEnd])
  | @lexeme gap cs c lexeme _ here read =>
    refine ⟨h.setPos _, rfl, ?_, fun _ _ => unspent⟩
    by_cases comment : lexeme.kind = .comment
    · have inside : lexeme.text.toList ⊆ s.line := by
        refine List.Subset.trans (Lexeme.subset_of_read read comment) ?_
        refine List.Subset.trans ?_ (List.drop_subset s.pos s.line)
        rw [here]
        exact List.subset_append_right _ _
      rw [Token.endRow_of_comment comment]
      show s.row + lexeme.text.toList.count '\n' = s.row
      rw [List.count_eq_zero.mpr fun broken => unbrokenHere (inside broken), Nat.add_zero]
    · exact Token.endRow_of_not_comment comment
  | @comment gap cs c _ _ here _ closes =>
    have opened := h.setPos (s.pos + gap.length)
    have whole : '\n' ∉ c :: cs := by
      intro broken
      refine unbrokenHere (List.mem_of_mem_drop (i := s.pos) ?_)
      rw [here]
      exact List.mem_append_right _ broken
    have counted : s.row = s.row + (c :: cs).count '\n' := by
      rw [List.count_eq_zero.mpr whole, Nat.add_zero]
    have closed := follows_of_closeComment unbroken opened opened unspent rfl counted closes
    exact closed

/-- A step goes on in the line on which the scanner stands, or in the next when this one is used
up. -/
theorem follows_of_next (h : s.Follows source) (done : s.next = some (reply, after)) :
    after.Follows source ∧
      Replies source reply (if s.spent then s.row + 1 else s.row) after := by
  rw [next] at done
  split at done
  · rename_i spent
    rw [if_pos spent]
    split at done
    · cases done
    · rename_i ahead next
      cases done
      exact ⟨h.pass next, (h.mem next).1⟩
    · rename_i cs ahead next
      exact follows_of_step unbroken (h.enter next) rfl (Option.some.inj done)
  · rename_i unspent
    rw [if_neg unspent]
    exact follows_of_step unbroken h (by simpa using unspent) (Option.some.inj done)

end

/-- An induction over the steps of a scanner. -/
@[elab_as_elim]
theorem events_induction {motive : Scanner → List Event → Prop}
    (done : ∀ s, s.next = none → motive s [])
    (step : ∀ s reply after, s.next = some (reply, after) → motive after after.events →
      motive s (⟨reply, after.row, after.line⟩ :: after.events))
    (s : Scanner) : motive s s.events := by
  induction size : s.size using Nat.strong_induction_on generalizing s with
  | _ n ih =>
    rw [events_eq]
    cases found : s.next with
    | none => exact done s found
    | some result =>
      obtain ⟨reply, after⟩ := result
      exact step s reply after found (ih after.size (size ▸ size_lt_of_next found) after rfl)

end Scanner

/-- The event is on a line of the input, or in front of the first. If it is a token, the token ends
on this line. -/
structure Event.Stands (source : List SourceLine) (e : Event) : Prop where
  line : ([] :: texts source)[e.row]? = some e.line
  token : ∀ t, e.reply = .token t → 0 < t.row ∧ t.endRow = e.row
  unreadable : e.reply = .unreadable → .unreadable ∈ source

theorem Event.Stands.row_pos {source : List SourceLine} {e : Event} {t : Token}
    (h : e.Stands source) (token : e.reply = .token t) : 0 < e.row := by
  obtain ⟨pos, ends⟩ := h.token t token
  rw [← ends]
  exact Nat.add_pos_left pos _

/-- An input of which all lines are text has no events in front of its first line. -/
theorem Event.Stands.row_pos_of_readable {source : List SourceLine} {e : Event} (h : e.Stands source)
    (readable : .unreadable ∉ source) : 0 < e.row := by
  cases reply : e.reply with
  | token t => exact h.row_pos reply
  | unreadable => exact absurd (h.unreadable reply) readable

/-- The second event goes on where the first one ends, if this one is a token within an entry. -/
def Event.Leads (e e' : Event) : Prop :=
  ∀ t t', e.reply = .token t → t.kind ≠ .newLine → t.kind ≠ .flaw → e'.reply = .token t' →
    t'.row = e.row

/-- The events of a scanner that follows an input are on the lines of this input, one after the
other. -/
theorem Scanner.Follows.events {source : List SourceLine} {s : Scanner} (h : s.Follows source)
    (unbroken : ∀ cs, .readable cs ∈ source → '\n' ∉ cs) :
    (∀ e ∈ s.events, e.Stands source) ∧ s.events.IsChain Event.Leads := by
  induction s using Scanner.events_induction with
  | done s none => exact ⟨nofun, .nil⟩
  | step s reply after found ih =>
    obtain ⟨follows, replies⟩ := follows_of_next unbroken h found
    obtain ⟨stands, chain⟩ := ih follows
    constructor
    · rintro e he
      rcases List.mem_cons.mp he with rfl | he
      · cases reply with
        | unreadable => exact ⟨follows.line, nofun, fun _ => replies⟩
        | token t =>
          refine ⟨follows.line, fun t' ht => ?_, nofun⟩
          cases ht
          refine ⟨?_, replies.endRow_eq⟩
          rw [replies.row_eq]
          split
          · exact Nat.succ_pos _
          · exact h.row_pos (by simpa using ‹¬s.spent = true›)
      · exact stands e he
    · refine List.isChain_cons.mpr ⟨fun e he t t' ht line flaw ht' => ?_, chain⟩
      cases ht
      have unspent := replies.goesOn line flaw
      rw [Scanner.events_eq] at he
      cases next : after.next with
      | none =>
        rw [next] at he
        cases he
      | some result =>
        obtain ⟨reply', after'⟩ := result
        rw [next] at he
        cases he
        cases ht'
        have row := (follows_of_next unbroken follows next).2.row_eq
        rw [row, unspent]
        rfl

end TableSchema
