import TableSchema.Proofs.Definition.TokenByToken

/-!
The section that is open.

A header between two lines opens a section. No other token opens or closes one, and within a line no
header is taken (`Control.settled_receive`). While a section is open, no token is refused for want
of a header (`Draft.settled_begin`). So a reader that has come behind some tokens is in the section
that the last header among them names, and as long as it is in none it has met ends of lines and
comments only (`Stage.Behind.received`).
-/

namespace TableSchema

/-- The section that is open behind some tokens: the one that the last header among them names. -/
def openSection? (tokens : List Token) : Option Section :=
  (tokens.filter fun t => t.kind == .header).getLast?.bind Token.heading?

theorem openSection?_append_header {tokens : List Token} {t : Token} (header : t.kind = .header) :
    openSection? (tokens ++ [t]) = t.heading? := by
  simp [openSection?, header]

theorem openSection?_append_other {tokens : List Token} {t : Token} (other : t.kind ≠ .header) :
    openSection? (tokens ++ [t]) = openSection? tokens := by
  simp [openSection?, other]

/-- If every header names a section, one is open as soon as there has been a header. -/
theorem openSection?_eq_none_iff {tokens : List Token}
    (named : ∀ t ∈ tokens, t.kind = .header → t.heading? ≠ none) :
    openSection? tokens = none ↔ ∀ t ∈ tokens, t.kind ≠ .header := by
  rw [openSection?]
  cases found : (tokens.filter fun t => t.kind == .header).getLast? with
  | none =>
    have nothing := List.filter_eq_nil_iff.mp (List.getLast?_eq_none_iff.mp found)
    simpa using nothing
  | some last =>
    obtain ⟨inside, header⟩ := List.mem_filter.mp (List.mem_of_getLast? found)
    have isHeader : last.kind = .header := beq_iff_eq.mp header
    exact iff_of_false (named last inside isHeader) fun none => none last inside isHeader

namespace Definition

/-- What has been read of a file that is not given up. -/
def Stage.draft? : Stage → Option Draft
  | .between d | .within d _ => some d
  | .registered _ => none

section

variable {registered : String → Option Table} {tokens : List Token} {d : Draft} {seen : Seen}
  {stage : Stage} {part : Option Section}

theorem Stage.Stays.notHeader (stays : stage.Stays part seen) : seen.token.kind ≠ .header := by
  cases stays with
  | between newLine _ => simp [newLine]
  | within inner _ | registered inner => exact inner.notHeader

theorem Stage.Stays.current_eq (stays : stage.Stays part seen) (here : stage.draft? = some d) :
    d.current = part := by
  cases stays with
  | between _ same | within _ same =>
    cases here
    exact same
  | registered => cases here

/-- Where a reader is behind the tokens: in the section that is open there, or, as long as none is,
between two lines, and then it has met ends of lines and comments only. -/
structure Stage.Behind (tokens : List Token) (stage : Stage) : Prop where
  current : ∀ d, stage.draft? = some d → d.current = openSection? tokens
  waits : ∀ d, stage.draft? = some d → d.current = none →
    stage = .between d ∧ ∀ t ∈ tokens, t.kind = .newLine ∨ t.kind = .comment

theorem Stage.behind_start : (Stage.between .start).Behind [] where
  current := fun _ here => Option.some.inj here ▸ rfl
  waits := fun _ here _ => ⟨congrArg _ (Option.some.inj here), List.forall_mem_nil _⟩

theorem Stage.behind_registered {t : Table} : (Stage.registered t).Behind tokens where
  current := fun _ here => by cases here
  waits := fun _ here => by cases here

/-- Within a line a section is open. -/
theorem Stage.Behind.opened {c : Control} (behind : (Stage.within d c).Behind tokens) :
    d.current ≠ none :=
  fun none => nomatch (behind.waits d rfl none).1

theorem Stage.Stays.behind (stays : stage.Stays part seen) (same : part = openSection? tokens)
    (opened : part ≠ none) : stage.Behind (tokens ++ [seen.token]) where
  current := fun d here => by
    rw [openSection?_append_other stays.notHeader, stays.current_eq here, same]
  waits := fun d here none => absurd ((stays.current_eq here).symm.trans none) opened

theorem Stage.Behind.remark (behind : (Stage.between d).Behind tokens) {d' : Draft} {t : Token}
    (same : d'.current = d.current) (remark : t.kind = .newLine ∨ t.kind = .comment) :
    (Stage.between d').Behind (tokens ++ [t]) where
  current := by
    rintro _ ⟨⟩
    have other : t.kind ≠ .header := by
      rcases remark with kind | kind <;> simp [kind]
    rw [openSection?_append_other other, same, behind.current d rfl]
  waits := by
    rintro _ ⟨⟩ none
    obtain ⟨_, remarks⟩ := behind.waits d rfl (same.symm.trans none)
    exact ⟨rfl, List.forall_mem_append.mpr ⟨remarks, List.forall_mem_singleton.mpr remark⟩⟩

theorem Stage.behind_header {t : Token} (header : t.kind = .header) (named : t.heading? ≠ none) :
    (Stage.between { d with current := t.heading? }).Behind (tokens ++ [t]) where
  current := by
    rintro _ ⟨⟩
    exact (openSection?_append_header header).symm
  waits := by
    rintro _ ⟨⟩ none
    exact absurd none named

/-- What a token makes of a reader behind the tokens. It is taken, or it is refused, for want of a
header only behind ends of lines and comments. -/
inductive Received (tokens : List Token) (seen : Seen) : Except Refusal Stage → Prop
  | taken {stage : Stage} : stage.Behind (tokens ++ [seen.token]) → Received tokens seen (.ok stage)
  | headerExpected : (∀ t ∈ tokens, t.kind = .newLine ∨ t.kind = .comment) →
      Received tokens seen (.error (seen.reject (.headerExpected seen.token)))
  | refused {refusal : Refusal} : refusal.wantsHeader = false →
      Received tokens seen (.error refusal)

theorem Settled.received {x : Except Refusal Stage} (settled : Settled (Stage.Stays part seen) x)
    (same : part = openSection? tokens) (opened : part ≠ none) : Received tokens seen x := by
  cases x with
  | ok stage => exact .taken (settled.behind same opened)
  | error refusal => exact .refused settled

/-- A reader that takes one more token is in the section that is open behind it. -/
theorem Stage.Behind.received (behind : stage.Behind tokens)
    (named : seen.token.kind = .header → seen.token.heading? ≠ none) :
    Received tokens seen (stage.receive registered seen) := by
  cases stage with
  | registered t => exact .taken behind_registered
  | within d c =>
    exact (c.settled_receive registered d seen).received (behind.current d rfl) behind.opened
  | between d =>
    -- a declaration begins only in a section
    have begins : Received tokens seen (d.begin seen) := by
      by_cases opened : d.current = none
      · rw [Draft.begin, opened]
        exact .headerExpected (behind.waits d rfl opened).2
      · exact (Draft.settled_begin opened).received (behind.current d rfl) opened
    rw [Stage.receive]
    cases kind : seen.token.kind with
    | newLine => exact .taken (behind.remark rfl (.inl kind))
    | comment => exact .taken (behind.remark rfl (.inr kind))
    | header => exact .taken (behind_header kind (named kind))
    | word | special | flaw => exact begins

end

end Definition

end TableSchema
