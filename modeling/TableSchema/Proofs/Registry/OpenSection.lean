import TableSchema.Proofs.Definition.OpenSection
import TableSchema.Proofs.Registry.ReadEffect
import TableSchema.Proofs.Registry.WithinLine
import TableSchema.Proofs.Text.Bytes
import TableSchema.Proofs.Token.Headers

/-!
Headers along the reading of a file.

A reader that asks for each token takes one token at a step, so after `n` steps it is behind the
first `n` tokens of its input (`Parse.reached_steps`). Every header among them names a section, and
the reader is in the section of the last one. So once there has been a header a section stays open,
and a file is refused for want of a header only at its first token besides ends of lines and
comments (`Parse.Reached.of_headerExpected`).
-/

namespace TableSchema

open Text (SourceLine utf8)

namespace Definition.Parse

variable {registered : String → Option Table} {input s after : Scanner} {stage stage' : Stage}
  {n : Nat}

theorem steps_succ (n : Nat) (p : Parse) :
    p.steps registered (n + 1) = (p.steps registered n).advance registered := by
  induction n generalizing p with
  | zero => rfl
  | succ n ih => exact ih (p.advance registered)

/-- A reader that has come to an outcome was at a stage one step before. -/
theorem exists_running_of_ended {outcome : Except Refusal (Reading Definition)}
    (ended : (start input).steps registered n = .ended outcome) :
    ∃ m stage s, (start input).steps registered m = .running stage s ∧
      advance registered (.running stage s) = .ended outcome := by
  induction n with
  | zero => cases ended
  | succ n ih =>
    rw [steps_succ] at ended
    cases before : (start input).steps registered n with
    | running stage s =>
      rw [before] at ended
      exact ⟨n, stage, s, before, ended⟩
    | ended outcome' =>
      rw [before] at ended
      cases ended
      exact ih before

/-! ## One step -/

/-- The reader of an input is behind its first `n` tokens, and its scanner in front of the rest. -/
structure Reached (input : Scanner) (n : Nat) (stage : Stage) (s : Scanner) : Prop where
  rest : input.tokens.drop n = s.tokens
  stands : stage.Stands s
  behind : stage.Behind (input.tokens.take n)

theorem Reached.drop_of_next (reached : Reached input n stage s) {t : Token}
    (found : s.next = some (.token t, after)) : input.tokens.drop n = t :: after.tokens :=
  reached.rest.trans (Scanner.tokens_eq_cons found)

theorem Reached.getElem?_of_next (reached : Reached input n stage s) {t : Token}
    (found : s.next = some (.token t, after)) : input.tokens[n]? = some t := by
  rw [← List.head?_drop, reached.drop_of_next found, List.head?_cons]

theorem Reached.received (reached : Reached input n stage s)
    (named : ∀ t ∈ input.tokens, t.kind = .header → t.heading? ≠ none) {t : Token}
    (found : s.next = some (.token t, after)) {line : List Char} {x : Except Refusal Stage}
    (done : stage.receive registered ⟨t, line⟩ = x) :
    Received (input.tokens.take n) ⟨t, line⟩ x :=
  have inside := List.mem_of_getElem? (reached.getElem?_of_next found)
  done ▸ reached.behind.received (named t inside)

theorem Reached.advance (reached : Reached input n stage s)
    (named : ∀ t ∈ input.tokens, t.kind = .header → t.heading? ≠ none)
    (went : advance registered (.running stage s) = .running stage' after) :
    Reached input (n + 1) stage' after := by
  have stands : (Parse.running stage' after).Stands := by
    rw [← went]
    exact stands_advance reached.stands
  have advances := advances_advance registered reached.stands
  generalize Parse.advance registered (.running stage s) = next at advances went
  cases advances with
  | given | finished => cases went
  | answered found answers =>
    cases answers with
    | unreadable | flaw | refused => cases went
    | taken _ done =>
      cases went
      cases reached.received named found done with
      | taken behind =>
        refine ⟨?_, stands, ?_⟩
        · rw [← List.tail_drop, reached.drop_of_next found, List.tail_cons]
        · rwa [List.take_add_one, reached.getElem?_of_next found]

/-- The token that is refused for want of a header is the next one, behind ends of lines and
comments. -/
theorem Reached.of_headerExpected (reached : Reached input n stage s)
    (named : ∀ t ∈ input.tokens, t.kind = .header → t.heading? ≠ none) {t : Token} {place : Place}
    (went : Parse.advance registered (.running stage s) =
      .ended (.error (.grammar (.headerExpected t) place))) :
    (∃ back, input.tokens.drop n = t :: back) ∧
      ∀ u ∈ input.tokens.take n, u.kind = .newLine ∨ u.kind = .comment := by
  have advances := advances_advance registered reached.stands
  generalize Parse.advance registered (.running stage s) = next at advances went
  cases advances with
  | given => cases went
  | @finished d none =>
    rw [Draft.finish] at went
    cases table : d.table <;> rw [table] at went <;> cases went
  | answered found answers =>
    cases answers with
    | unreadable | flaw | taken => cases went
    | refused refused =>
      cases went
      cases reached.received named found refused with
      | refused other => cases other
      | headerExpected remarks => exact ⟨⟨_, reached.drop_of_next found⟩, remarks⟩

/-! ## All steps -/

/-- After `n` steps a reader that goes on is behind the first `n` tokens of its input. -/
theorem reached_steps (named : ∀ t ∈ input.tokens, t.kind = .header → t.heading? ≠ none)
    (went : (start input).steps registered n = .running stage s) : Reached input n stage s := by
  induction n generalizing stage s with
  | zero =>
    cases went
    exact ⟨rfl, trivial, Stage.behind_start⟩
  | succ n ih =>
    rw [steps_succ] at went
    cases before : (start input).steps registered n with
    | ended outcome =>
      rw [before] at went
      cases went
    | running stage₀ s₀ =>
      rw [before] at went
      exact (ih before).advance named went

end Definition.Parse

open Definition in
/-- Every header of an input stands on its line with the name of a section in brackets, and is read
as the header of this section; in front of brackets the scanner gives a header just when the name
between them is that of a section. The reader of a file is in the section of the last header that it
has come behind, and once there has been one it is never in none again. A token is refused for want
of a header only behind ends of lines and comments. -/
theorem Registry.headers_open_sections (r : Registry) (bytes : List UInt8) :
    (∀ t ∈ (Scanner.ofBytes bytes).tokens, t.kind = .header →
      ∃ part, t.Opens (SourceLine.ofBytes bytes) part ∧ t.heading? = some part) ∧
    (∀ (s : Scanner) gap name more, IsGap gap →
      s.line.drop s.pos = gap ++ ('[' :: name ++ ']' :: more) → ']' ∉ name →
      ∃ t after, s.step = (.token t, after) ∧
        t.heading? = Section.ofName? (String.ofList name) ∧
        (t.kind = .header ↔ ∃ part, Section.ofName? (String.ofList name) = some part)) ∧
    (∀ n stage s, (Parse.start (.ofBytes bytes)).steps r.find? n = .running stage s →
      ∀ d, stage.draft? = some d →
        d.current = openSection? ((Scanner.ofBytes bytes).tokens.take n) ∧
        (d.current = none ↔ ∀ t ∈ (Scanner.ofBytes bytes).tokens.take n, t.kind ≠ .header)) ∧
    ∀ t place, r.read (.ofBytes bytes) = .error (.grammar (.headerExpected t) place) →
      ∃ front back, (Scanner.ofBytes bytes).tokens = front ++ t :: back ∧
        ∀ u ∈ front, u.kind = .newLine ∨ u.kind = .comment := by
  have opens := Scanner.exists_opens bytes
  have named : ∀ t ∈ (Scanner.ofBytes bytes).tokens, t.kind = .header → t.heading? ≠ none := by
    intro t inside header none
    obtain ⟨part, _, heading⟩ := opens t inside header
    exact nomatch heading.symm.trans none
  refine ⟨opens, fun s gap name more => Scanner.exists_step_of_brackets,
    fun n stage s went d here => ?_, fun t place refused => ?_⟩
  · have current := (Parse.reached_steps named went).behind.current d here
    rw [current]
    exact ⟨rfl, openSection?_eq_none_iff fun t inside => named t (List.mem_of_mem_take inside)⟩
  · obtain ⟨n, outcome⟩ := Parse.exists_steps_ofBytes r.find? bytes
    rw [read_eq_error.mp refused] at outcome
    obtain ⟨m, stage, s, went, ended⟩ := Parse.exists_running_of_ended outcome
    obtain ⟨⟨back, next⟩, remarks⟩ := (Parse.reached_steps named went).of_headerExpected named ended
    exact ⟨_, back, by rw [← next, List.take_append_drop], remarks⟩

/-- A class, and the beginning of a field behind the header of its section. -/
def fieldBehindHeader : List UInt8 := utf8 "[Settings]\nCLASS a\n[FIELDS] DATE d\n"

open Definition in
/-- What has been read behind the type of the field. -/
def fieldBegun : Stage :=
  .within ⟨some .fields, [], some (Table.empty "A" "A"), none, []⟩
    (.typeLength (Table.empty "A" "A") .date)

open Definition in
/-- Behind the type of the field the reader is in the section that the second header names. -/
theorem Registry.headers_open_sections_fieldBehindHeader :
    (Parse.start (.ofBytes fieldBehindHeader)).steps empty.find? 7 =
        .running fieldBegun ⟨[], 3, "[FIELDS] DATE d".toList, 13, false⟩ ∧
      some .fields = openSection? ((Scanner.ofBytes fieldBehindHeader).tokens.take 7) := by
  obtain ⟨_, _, sections, _⟩ := headers_open_sections empty fieldBehindHeader
  have went : (Parse.start (.ofBytes fieldBehindHeader)).steps empty.find? 7 =
      .running fieldBegun ⟨[], 3, "[FIELDS] DATE d".toList, 13, false⟩ := by decide +kernel
  exact ⟨went, (sections 7 _ _ went _ rfl).1⟩

end TableSchema
