import TableSchema.Proofs.Token.Rows

/-!
The events of the front part of an input.

A scanner looks at the line on which it stands and at no other, unless a comment is open there. So
the events of an input begin with those of its front part, up to the end of the latter (`Cut`). Only
a comment that is open there is a flaw of the front part alone. This is so for every input of which
the front part is text (`Scanner.cut_events`).
-/

namespace TableSchema

open Text (SourceLine)

/-- The first of the events is the news that a line is no text. -/
def Unreads (events : List Event) : Prop :=
  ∃ row line rest, events = ⟨.unreadable, row, line⟩ :: rest

/-- The token is the flaw of a comment that is open at the end of the input. -/
structure Token.LeftOpen (t : Token) : Prop where
  kind : t.kind = .flaw
  text : t.text = Flaw.openComment.message

/-- The token ends an entry, and it does so whatever comes behind its line. -/
def Token.Final (t : Token) : Prop :=
  t.kind = .newLine ∨ t.kind = .flaw ∧ t.text ≠ Flaw.openComment.message

/-- The events of the front part of an input, and those of the whole. The front part ends between
two entries, or within a comment. Behind it comes a line that is no text if `lost` holds. -/
inductive Cut (lost : Prop) : List Event → List Event → Prop
  | closed {whole : List Event} : (lost → Unreads whole) → Cut lost [] whole
  | inComment {t : Token} {row : Nat} {line : List Char} {whole : List Event} :
      t.LeftOpen → whole ≠ [] → (lost → Unreads whole) → Cut lost [⟨.token t, row, line⟩] whole
  | final {t : Token} {row : Nat} {line : List Char} {front whole : List Event} :
      t.Final → Cut lost front whole →
      Cut lost (⟨.token t, row, line⟩ :: front) (⟨.token t, row, line⟩ :: whole)
  | inner {t : Token} {row : Nat} {line : List Char} {front whole : List Event} :
      t.kind ≠ .newLine → t.kind ≠ .flaw → front ≠ [] → Cut lost front whole →
      Cut lost (⟨.token t, row, line⟩ :: front) (⟨.token t, row, line⟩ :: whole)

namespace Lexeme

variable {c : Char} {rest : List Char} {lexeme : Lexeme}

/-- The flaw of a lexeme is not that of an open comment. -/
theorem text_ne_of_read (h : read c rest = some lexeme) (flaw : lexeme.kind = .flaw) :
    lexeme.text ≠ Flaw.openComment.message := by
  cases readsTo_of_read h with
  | whole flawless => exact absurd flaw flawless
  | flawed other => exact Flaw.message_ne_openComment other

end Lexeme

namespace Scanner

variable {s opening : Scanner} {back : List SourceLine}

/-- The scanner of an input with further lines at its end. -/
def extend (s : Scanner) (back : List SourceLine) : Scanner := { s with ahead := s.ahead ++ back }

/-- What a step leads to, and what it leads to when further lines are behind the input. It is the
same, unless the step is within a comment that is open at the end of the input. -/
inductive Alike (back : List SourceLine) : Reply × Scanner → Reply × Scanner → Prop
  | final {t : Token} {after : Scanner} : t.Final → .unreadable ∉ after.ahead →
      Alike back (.token t, after) (.token t, after.extend back)
  | inner {t : Token} {after : Scanner} : t.kind ≠ .newLine → t.kind ≠ .flaw →
      after.spent = false → .unreadable ∉ after.ahead →
      Alike back (.token t, after) (.token t, after.extend back)
  | inComment {t : Token} {after : Scanner} {result : Reply × Scanner} : t.LeftOpen →
      after.next = none → (back.head? = some .unreadable → result.1 = .unreadable) →
      Alike back (.token t, after) result

theorem alike_closeComment {start : Nat} {text : List Char} {ahead : List SourceLine}
    (readable : .unreadable ∉ ahead) :
    Alike back (closeComment opening start text s ahead)
      (closeComment (opening.extend back) start text (s.extend back) (ahead ++ back)) := by
  -- over the lines ahead, in each of which both scanners do the same
  induction ahead generalizing s text with
  | nil =>
    refine .inComment ⟨rfl, rfl⟩ rfl fun lost => ?_
    cases back with
    | nil => cases lost
    | cons next back =>
      obtain rfl := Option.some.inj lost
      rfl
  | cons next ahead ih =>
    cases next with
    | unreadable => exact absurd List.mem_cons_self readable
    | readable cs =>
      have later : .unreadable ∉ ahead := fun inside => readable (List.mem_cons_of_mem _ inside)
      rw [List.cons_append, closeComment, closeComment]
      cases Lexeme.closing? cs with
      | some size => exact .inner (by simp) (by simp) rfl later
      | none => exact ih later

theorem alike_step (readable : .unreadable ∉ s.ahead) (unspent : s.spent = false) :
    Alike back s.step (s.extend back).step := by
  rw [step, step]
  dsimp only [extend]
  cases (s.line.drop s.pos).dropWhile Lexeme.isGap with
  | nil => exact .final (.inl rfl) readable
  | cons c cs =>
    cases read : Lexeme.read c cs with
    | some lexeme =>
      simp only [read]
      by_cases newLine : lexeme.kind = .newLine
      · exact .final (.inl newLine) readable
      · by_cases flaw : lexeme.kind = .flaw
        · exact .final (.inr ⟨flaw, Lexeme.text_ne_of_read read flaw⟩) readable
        · exact .inner newLine flaw unspent readable
    | none =>
      simp only [read]
      exact alike_closeComment readable

theorem exists_alike {reply : Reply} {after : Scanner} (readable : .unreadable ∉ s.ahead)
    (found : s.next = some (reply, after)) :
    ∃ result, (s.extend back).next = some result ∧ Alike back (reply, after) result := by
  rw [next] at found
  split at found
  · rename_i spent
    split at found
    · cases found
    · rename_i split
      exact absurd (split ▸ List.mem_cons_self) readable
    · rename_i cs ahead split
      have later : .unreadable ∉ ahead :=
        fun inside => readable (split ▸ List.mem_cons_of_mem _ inside)
      refine ⟨((s.enter cs ahead).extend back).step, ?_, ?_⟩
      · rw [next, extend, if_pos spent, split]
        rfl
      · rw [← Option.some.inj found]
        exact alike_step later rfl
  · rename_i unspent
    refine ⟨(s.extend back).step, if_neg unspent, ?_⟩
    rw [← Option.some.inj found]
    exact alike_step readable (by simpa using unspent)

/-- A scanner that has come to the end of its input goes on with what is behind. -/
theorem unreads_of_next_eq_none (h : s.next = none) (lost : back.head? = some .unreadable) :
    Unreads (s.extend back).events := by
  obtain ⟨spent, empty⟩ := next_eq_none_iff.mp h
  obtain ⟨rest, rfl⟩ := List.head?_eq_some_iff.mp lost
  rw [events_eq, next, extend, if_pos spent, empty]
  exact ⟨_, _, _, rfl⟩

/-- The events of an input of which the front part is text. -/
theorem cut_events (readable : .unreadable ∉ s.ahead) :
    Cut (back.head? = some .unreadable) s.events (s.extend back).events := by
  induction s using events_induction with
  | done s none => exact .closed (unreads_of_next_eq_none none)
  | step s reply after found ih =>
    obtain ⟨result, next', alike⟩ := exists_alike readable found
    rw [events_eq (s.extend back), next']
    cases alike with
    | final last later => exact .final last (ih later)
    | inner newLine flaw unspent later =>
      -- within a line there is at least its end still to come
      refine .inner newLine flaw ?_ (ih later)
      rw [events_eq, next, unspent, if_neg Bool.false_ne_true]
      exact List.cons_ne_nil _ _
    | inComment leftOpen done unread =>
      rw [events_eq, done]
      refine .inComment leftOpen (List.cons_ne_nil _ _) fun lost => ?_
      obtain ⟨reply', after'⟩ := result
      obtain rfl := unread lost
      exact ⟨_, _, _, rfl⟩

end Scanner

end TableSchema
