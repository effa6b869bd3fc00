import TableSchema.Registry.Basic
import TableSchema.Proofs.Definition.ClassLine
import TableSchema.Proofs.Definition.RestOfLine

/-!
No input ends within a line.

A reader that asks the scanner for each token of a line (`Parse`) is ready to find the input at its
end there, and to go on as if the line ended. It never comes to that. Only the end of a line, a
comment that stays open and a line that is no text leave a scanner without a line to go on with
(`Scanner.halts_of_spent`), and behind none of them the reader is within a line
(`Parse.stands_advance`). So the reader makes of every input what the readers make that have whole
lines in front of them (`Parse.exists_steps`).
-/

namespace TableSchema

open Text (SourceLine)

/-- Behind such a reply a scanner may have no line to go on with. -/
def Reply.Halts : Reply → Prop
  | .token t => t.kind = .newLine ∨ t.LeftOpen
  | .unreadable => True

namespace Scanner

variable {s after opening : Scanner} {reply : Reply}

theorem halts_of_closeComment {start : Nat} {text : List Char} {ahead : List SourceLine}
    (done : closeComment opening start text s ahead = (reply, after)) (spent : after.spent = true) :
    reply.Halts := by
  induction ahead generalizing s text with
  | nil =>
    cases done
    exact .inr ⟨rfl, rfl⟩
  | cons next ahead ih =>
    cases next with
    | unreadable =>
      cases done
      trivial
    | readable cs =>
      rw [closeComment] at done
      split at done
      · cases done
        cases spent
      · exact ih done

theorem halts_of_step (unspent : s.spent = false) (done : s.step = (reply, after))
    (spent : after.spent = true) : reply.Halts := by
  have steps := s.stepsTo_step
  rw [done] at steps
  cases steps with
  | lineEnd => exact .inl rfl
  | lexeme => cases unspent.symm.trans spent
  | comment _ _ _ closes => exact halts_of_closeComment closes spent

/-- A scanner has used up its line only at its end, in a comment that stays open, or where a line is
no text. -/
theorem halts_of_spent (found : s.next = some (reply, after)) (spent : after.spent = true) :
    reply.Halts := by
  rw [next] at found
  split at found
  · split at found
    · cases found
    · cases found
      trivial
    · exact halts_of_step rfl (Option.some.inj found) spent
  · exact halts_of_step (by simpa using ‹¬s.spent = true›) (Option.some.inj found) spent

/-- Behind a token within a line a scanner has a line to go on with. -/
theorem unspent_of_inner {t : Token} (found : s.next = some (.token t, after))
    (newLine : t.kind ≠ .newLine) (flawless : t.kind ≠ .flaw) : after.spent = false := by
  cases spent : after.spent with
  | false => rfl
  | true =>
    rcases halts_of_spent found spent with line | leftOpen
    · exact absurd line newLine
    · exact absurd leftOpen.kind flawless

theorem next_ne_none (unspent : s.spent = false) : s.next ≠ none := by
  intro none
  cases unspent.symm.trans (next_eq_none_iff.mp none).1

theorem events_ne_nil (unspent : s.spent = false) : s.events ≠ [] := by
  rw [events_eq]
  cases found : s.next with
  | none => exact absurd found (next_ne_none unspent)
  | some result => exact List.cons_ne_nil _ _

/-- The events of an input end with the end of a line, unless a comment stays open or a line is no
text. -/
theorem halts_getLast (s : Scanner) : ∀ e ∈ s.events.getLast?, e.reply.Halts := by
  induction s using events_induction with
  | done s none => exact nofun
  | step s reply after found ih =>
    cases more : after.events with
    | nil =>
      rintro e last
      cases last
      cases spent : after.spent with
      | true => exact halts_of_spent found spent
      | false => exact absurd more (events_ne_nil spent)
    | cons e events =>
      rw [more] at ih
      rwa [List.getLast?_cons_cons]

/-- The place at which an input ends whose scanner stands at `s`. -/
def endPlace (s : Scanner) : Place := ⟨max s.row 1, s.line.length + 1, String.ofList s.line⟩

/-- The place at which the input will have ended. -/
def lastPlace (s : Scanner) : Place :=
  match s.events with
  | [] => s.endPlace
  | e :: events => Definition.endPlace (e :: events)

theorem lastPlace_of_none (none : s.next = none) : s.lastPlace = s.endPlace := by
  rw [lastPlace, events_eq, none]

theorem lastPlace_of_next (found : s.next = some (reply, after)) :
    s.lastPlace = after.lastPlace := by
  rw [lastPlace, lastPlace, events_eq s, found]
  dsimp only
  cases after.events with
  | nil => rfl
  | cons e events => simp only [Definition.endPlace, List.getLast?_cons_cons]

theorem lastPlace_ofLines (lines : List SourceLine) :
    (ofLines lines).lastPlace = Definition.endPlace (ofLines lines).events := by
  rw [lastPlace]
  cases (ofLines lines).events <;> rfl

end Scanner

namespace Definition

/-! ## Asking for each token -/

/-- A reader that asks the scanner for each token: it is at a stage of the file, or it has come to
an outcome. -/
inductive Parse where
  | running (stage : Stage) (s : Scanner)
  | ended (outcome : Except Refusal (Reading Definition))
deriving DecidableEq, Repr

namespace Parse

/-- The start of a file. -/
def start (s : Scanner) : Parse := .running (.between .start) s

/-- Goes on with a reply of the scanner, which stands at `s` then. -/
def answer (registered : String → Option Table) (stage : Stage) (reply : Reply) (s : Scanner) :
    Parse :=
  match reply with
  | .unreadable => .ended (.error (.unreadable .notText))
  | .token t =>
    let seen : Seen := ⟨t, s.line⟩
    if t.kind = .flaw then .ended (.error (.lexical t.text (seen.placeOf t)))
    else
      match stage.receive registered seen with
      | .ok stage => .running stage s
      | .error refusal => .ended (.error refusal)

/-- Asks for one more token. At the end of the input the file has been read; within a line the end
of the line would stand there. -/
def advance (registered : String → Option Table) : Parse → Parse
  | .ended outcome => .ended outcome
  | .running (.registered t) _ => .ended (.ok (.registered t))
  | .running (.between d) s =>
    match s.next with
    | none => .ended ((d.finish s.endPlace).map .fresh)
    | some (reply, after) => answer registered (.between d) reply after
  | .running (.within d c) s =>
    match s.next with
    | none => answer registered (.within d c) (.token (.lineEnd s.row s.line.length)) s
    | some (reply, after) => answer registered (.within d c) reply after

/-- The reader after so many steps. -/
def steps (registered : String → Option Table) : Nat → Parse → Parse
  | 0, p => p
  | n + 1, p => steps registered n (p.advance registered)

end Parse

section

variable {registered : String → Option Table} {s after : Scanner} {stage : Stage} {t : Token}
  {d : Draft} {reply : Reply}

/-- A reader goes on to ask for tokens unless it has come upon a class that is registered. -/
def Stage.Asks : Stage → Prop
  | .between _ | .within _ _ => True
  | .registered _ => False

/-- Within a line the scanner has a line to go on with. -/
def Stage.Stands (s : Scanner) : Stage → Prop
  | .within _ _ => s.spent = false
  | .between _ | .registered _ => True

theorem Stage.stands_receive (found : s.next = some (.token t, after)) (flawless : t.kind ≠ .flaw)
    {line : List Char} {stage' : Stage}
    (done : stage.receive registered ⟨t, line⟩ = .ok stage') : stage'.Stands after := by
  cases stage' with
  | between d' => trivial
  | registered t' => trivial
  | within d' c =>
    exact Scanner.unspent_of_inner found (kind_ne_of_receive done) flawless

/-- The reader stands rightly at its stage, or has come to an outcome. -/
def Parse.Stands : Parse → Prop
  | .running stage s => stage.Stands s
  | .ended _ => True

namespace Parse

/-- What a reply makes of a reader. -/
inductive Answers (registered : String → Option Table) (stage : Stage) (s : Scanner) :
    Reply → Parse → Prop
  | unreadable : Answers registered stage s .unreadable (.ended (.error (.unreadable .notText)))
  | flaw {t : Token} {place : Place} : t.kind = .flaw →
      Answers registered stage s (.token t) (.ended (.error (.lexical t.text place)))
  | refused {t : Token} {refusal : Refusal} :
      stage.receive registered ⟨t, s.line⟩ = .error refusal →
      Answers registered stage s (.token t) (.ended (.error refusal))
  | taken {t : Token} {next : Stage} : t.kind ≠ .flaw →
      stage.receive registered ⟨t, s.line⟩ = .ok next →
      Answers registered stage s (.token t) (.running next s)

theorem answers_answer (registered : String → Option Table) (stage : Stage) (reply : Reply)
    (s : Scanner) : Answers registered stage s reply (answer registered stage reply s) := by
  cases reply with
  | unreadable => exact .unreadable
  | token t =>
    rw [answer]
    split
    · exact .flaw ‹_›
    · rename_i flawless
      cases done : stage.receive registered ⟨t, s.line⟩ with
      | error refusal => exact .refused done
      | ok next => exact .taken flawless done

theorem advance_between (found : s.next = some (reply, after)) :
    advance registered (.running (.between d) s) = answer registered (.between d) reply after := by
  rw [advance, found]

theorem advance_within (c : Control) (found : s.next = some (reply, after)) :
    advance registered (.running (.within d c) s) =
      answer registered (.within d c) reply after := by
  rw [advance, found]

/-- What one step makes of a reader: it finds that it has come to an outcome, or goes on with a
reply. -/
inductive Advances (registered : String → Option Table) (s : Scanner) : Stage → Parse → Prop
  | given {t : Table} : Advances registered s (.registered t) (.ended (.ok (.registered t)))
  | finished {d : Draft} : s.next = none →
      Advances registered s (.between d) (.ended ((d.finish s.endPlace).map .fresh))
  | answered {stage : Stage} {reply : Reply} {after : Scanner} {next : Parse} :
      s.next = some (reply, after) → Answers registered stage after reply next →
      Advances registered s stage next

/-- A reader that stands rightly never finds the input at its end within a line. -/
theorem advances_advance (registered : String → Option Table) (stands : stage.Stands s) :
    Advances registered s stage (advance registered (.running stage s)) := by
  cases stage with
  | registered t => exact .given
  | between d =>
    cases found : s.next with
    | none =>
      rw [advance, found]
      exact .finished found
    | some result =>
      rw [advance_between found]
      exact .answered found (answers_answer _ _ _ _)
  | within d c =>
    cases found : s.next with
    | none => exact absurd found (Scanner.next_ne_none stands)
    | some result =>
      rw [advance_within c found]
      exact .answered found (answers_answer _ _ _ _)

theorem stands_advance {p : Parse} (stands : p.Stands) : (p.advance registered).Stands := by
  cases p with
  | ended outcome => trivial
  | running stage s =>
    have advances := advances_advance registered stands
    generalize advance registered (.running stage s) = next at advances ⊢
    cases advances with
    | given | finished => trivial
    | answered found answers =>
      cases answers with
      | unreadable | flaw | refused => trivial
      | taken flawless done => exact Stage.stands_receive found flawless done

theorem stands_steps (n : Nat) {p : Parse} (stands : p.Stands) :
    (p.steps registered n).Stands := by
  induction n generalizing p with
  | zero => exact stands
  | succ n ih => exact ih (stands_advance stands)

end Parse

/-! ## The outcome of a file -/

/-- What reading the entries that are left makes of what has been read so far. -/
def Reading.conclude (registered : String → Option Table) (place : Place) (entries : List Entry) :
    Reading Draft → Except Refusal (Reading Definition)
  | .registered t => .ok (.registered t)
  | .fresh d => do
    match ← d.readEntries registered entries with
    | .registered t => return .registered t
    | .fresh d => return .fresh (← d.finish place)

/-- What reading the entries that are left makes of a stage. Within a line an entry is left. -/
def Stage.conclude (registered : String → Option Table) (place : Place) :
    Stage → List Entry → Except Refusal (Reading Definition)
  | .registered t, _ => .ok (.registered t)
  | .between d, entries => (Reading.fresh d).conclude registered place entries
  | .within d c, e :: entries => do
    let read ← c.readOn registered d e
    read.conclude registered place entries
  | .within _ _, [] => .error (.unreadable .notText)

theorem ofEvents_eq_conclude (events : List Event) :
    ofEvents registered events =
      Stage.conclude registered (endPlace events) (.between .start) (Entry.ofEvents events) := rfl

theorem Reading.conclude_cons (place : Place) (e : Entry) (entries : List Entry) :
    (Reading.fresh d).conclude registered place (e :: entries) = (do
      let read ← d.readTokens registered e.ending e.tokens
      read.conclude registered place entries) := by
  rw [conclude, Draft.readEntries]
  cases d.readTokens registered e.ending e.tokens with
  | error refusal => rfl
  | ok read => cases read <;> rfl

/-- Behind a token within a line, what is left of the line is read first. -/
theorem Moves.conclude_inner {seen : Seen} {x : Except Refusal Stage} (moves : Moves seen x)
    (inner : seen.token.kind ≠ .newLine) (place : Place) (e : Entry) (entries : List Entry) :
    (x >>= Stage.readOn registered e >>= fun read => read.conclude registered place entries) =
      x >>= fun stage => stage.conclude registered place (e :: entries) := by
  cases moves with
  | ended newLine => exact absurd newLine inner
  | refused | goesOn | registered => rfl

/-- Behind the end of a line, nothing is left of the line. -/
theorem Moves.conclude_newLine {seen : Seen} {x : Except Refusal Stage} (moves : Moves seen x)
    (newLine : seen.token.kind = .newLine) (place : Place) (e : Entry) (entries : List Entry) :
    (x >>= Stage.readOn registered e >>= fun read => read.conclude registered place entries) =
      x >>= fun stage => stage.conclude registered place entries := by
  cases moves with
  | refused | ended => rfl
  | goesOn inner | registered inner => exact absurd newLine inner

/-- Reading on from a stage takes the token in front, and reads on behind it. Behind a token within
a line something is left. -/
theorem Stage.conclude_token (flawless : t.kind ≠ .flaw) {row : Nat} {line : List Char}
    {events : List Event} (more : t.kind ≠ .newLine → events ≠ []) (place : Place) :
    stage.conclude registered place (Entry.ofEvents (⟨.token t, row, line⟩ :: events)) =
      (stage.receive registered ⟨t, line⟩ >>= fun stage =>
        stage.conclude registered place (Entry.ofEvents events)) := by
  by_cases newLine : t.kind = .newLine
  · cases stage with
    | registered t' => rfl
    | between d =>
      have same : Stage.receive registered ⟨t, line⟩ (.between d) = .ok (.between d) := by
        rw [receive, newLine]
      rw [same, Except.ok_bind, conclude, conclude, Reading.conclude, Reading.conclude,
        Draft.readEntries_newLine newLine]
    | within d c =>
      have gives : Entry.Gives ⟨[], .newLine ⟨t, line⟩⟩ ⟨t, line⟩ ⟨[], .newLine ⟨t, line⟩⟩ :=
        .newLine newLine rfl
      have moves := c.moves_receive registered d ⟨t, line⟩
      rw [Entry.ofEvents_newLine newLine, conclude, c.readOn_of_gives gives, receive]
      exact moves.conclude_newLine newLine place _ _
  · obtain ⟨e, entries, split⟩ := Entry.exists_cons_of_ne_nil (more newLine)
    rw [Entry.ofEvents_inner newLine flawless, split]
    dsimp only
    cases stage with
    | registered t' => rfl
    | within d c =>
      have moves := c.moves_receive registered d ⟨t, line⟩
      rw [conclude, c.readOn_of_gives (.token newLine), receive]
      exact moves.conclude_inner newLine place e entries
    | between d =>
      rw [conclude, Reading.conclude_cons, receive]
      cases kind : t.kind with
      | newLine => exact absurd kind newLine
      | flaw => exact absurd kind flawless
      | comment =>
        rw [Except.ok_bind, conclude, Reading.conclude_cons, Draft.readTokens, kind]
        rfl
      | header => rw [Except.ok_bind, conclude, Reading.conclude_cons, Draft.readTokens, kind]
      | word | special =>
        have inner : (⟨t, line⟩ : Seen).token.kind ≠ .newLine := newLine
        have moves := d.moves_begin ⟨t, line⟩
        rw [Draft.readTokens, kind]
        dsimp only
        rw [Draft.readDeclaration_eq inner]
        exact moves.conclude_inner inner place e entries

/-- A flaw, and a line that is no text, end reading at every stage of a file. -/
theorem Stage.conclude_of_stops {refusal : Refusal} {ending : Ending}
    (asks : stage.Asks) (stops : ending.newLine? = .error refusal) (place : Place)
    (entries : List Entry) :
    stage.conclude registered place (⟨[], ending⟩ :: entries) = .error refusal := by
  cases stage with
  | registered t => exact asks.elim
  | between d =>
    rw [conclude, Reading.conclude_cons, Draft.readTokens, stops]
    rfl
  | within d c =>
    rw [conclude, c.readOn_of_stops stops]
    rfl

namespace Parse

/-- A reply takes the reader to an outcome if this is so from all stages behind the reply. -/
theorem exists_steps_answer (asks : stage.Asks)
    (found : s.next = some (reply, after))
    (later : ∀ stage : Stage, stage.Stands after → ∃ n, (running stage after).steps registered n =
      ended (stage.conclude registered after.lastPlace (Entry.ofEvents after.events))) :
    ∃ n, (answer registered stage reply after).steps registered n =
      ended (stage.conclude registered after.lastPlace
        (Entry.ofEvents (⟨reply, after.row, after.line⟩ :: after.events))) := by
  cases reply with
  | unreadable =>
    have stops : Ending.unreadable.newLine? = .error (.unreadable .notText) := rfl
    rw [Entry.ofEvents, Stage.conclude_of_stops asks stops]
    exact ⟨0, rfl⟩
  | token t =>
    rw [answer]
    by_cases flaw : t.kind = .flaw
    · rw [if_pos flaw, Entry.ofEvents_flaw flaw, Stage.conclude_of_stops asks rfl]
      exact ⟨0, rfl⟩
    · have more (inner : t.kind ≠ .newLine) : after.events ≠ [] :=
        Scanner.events_ne_nil (Scanner.unspent_of_inner found inner flaw)
      rw [if_neg flaw, Stage.conclude_token flaw more]
      cases done : stage.receive registered ⟨t, after.line⟩ with
      | error refusal => exact ⟨0, rfl⟩
      | ok stage' => exact later stage' (Stage.stands_receive found flaw done)

/-- A reader that asks for each token comes to the outcome of the readers that have whole lines. -/
theorem exists_steps (stands : stage.Stands s) :
    ∃ n, (running stage s).steps registered n =
      ended (stage.conclude registered s.lastPlace (Entry.ofEvents s.events)) := by
  induction s using Scanner.events_induction generalizing stage with
  | done s none =>
    refine ⟨1, ?_⟩
    cases stage with
    | registered t => rfl
    | between d =>
      rw [steps, steps, advance, none, Scanner.lastPlace_of_none none]
      show ended ((d.finish s.endPlace).map .fresh) = ended (d.finish s.endPlace >>= fun d => _)
      cases d.finish s.endPlace <;> rfl
    | within d c => exact absurd none (Scanner.next_ne_none stands)
  | step s reply after found ih =>
    rw [Scanner.lastPlace_of_next found]
    cases stage with
    | registered t => exact ⟨1, rfl⟩
    | between d =>
      have asks : (Stage.between d).Asks := trivial
      obtain ⟨n, done⟩ := exists_steps_answer asks found fun _ => ih
      exact ⟨n + 1, by rw [steps, advance_between found, done]⟩
    | within d c =>
      have asks : (Stage.within d c).Asks := trivial
      obtain ⟨n, done⟩ := exists_steps_answer asks found fun _ => ih
      exact ⟨n + 1, by rw [steps, advance_within c found, done]⟩

/-- The reader of an input comes to the outcome of the input. -/
theorem exists_steps_ofBytes (registered : String → Option Table) (bytes : List UInt8) :
    ∃ n, (start (.ofBytes bytes)).steps registered n =
      .ended (ofEvents registered (Scanner.ofBytes bytes).events) := by
  have stands : (Stage.between .start).Stands (.ofBytes bytes) := trivial
  rw [ofEvents_eq_conclude, Scanner.ofBytes, ← Scanner.lastPlace_ofLines]
  exact exists_steps stands

end Parse

end

end Definition

open Definition in
/-- Whenever a reader asks for a further token of a line, the scanner has a reply, so it never goes
on as if the line ended; it comes to the outcome of its input. Every declaration ends, or is
refused, with the end of its line. The events of every input end with the end of a line, unless a
line is no text or a comment stays open. -/
theorem Registry.answered_within_line (r : Registry) (bytes : List UInt8) :
    (∀ n d c s, (Parse.start (.ofBytes bytes)).steps r.find? n = .running (.within d c) s →
      ∃ reply after, s.next = some (reply, after)) ∧
    (∃ n, (Parse.start (.ofBytes bytes)).steps r.find? n =
      .ended (ofEvents r.find? (Scanner.ofBytes bytes).events)) ∧
    (∀ d c seen, seen.token.kind = .newLine →
      (∃ d', Control.receive r.find? d seen c = .ok (.between d')) ∨
        ∃ refusal, Control.receive r.find? d seen c = .error refusal) ∧
    ∀ e ∈ (Scanner.ofBytes bytes).events.getLast?, e.reply = .unreadable ∨
      ∃ t, e.reply = .token t ∧ (t.kind = .newLine ∨ t.LeftOpen) := by
  refine ⟨fun n d c s reached => ?_, Parse.exists_steps_ofBytes r.find? bytes,
    fun d c seen newLine => ?_, fun e last => ?_⟩
  · have start : (Parse.start (.ofBytes bytes)).Stands := trivial
    have stands := @Parse.stands_steps r.find? n _ start
    rw [reached] at stands
    cases found : s.next with
    | none => exact absurd found (Scanner.next_ne_none stands)
    | some result => exact ⟨result.1, result.2, rfl⟩
  · have moves := c.moves_receive r.find? d seen
    generalize Control.receive r.find? d seen c = received at moves
    cases moves with
    | refused => exact .inr ⟨_, rfl⟩
    | ended => exact .inl ⟨_, rfl⟩
    | goesOn inner | registered inner => exact absurd newLine inner
  · have halts := Scanner.halts_getLast _ e last
    cases reply : e.reply with
    | unreadable => exact .inl rfl
    | token t =>
      rw [reply] at halts
      exact .inr ⟨t, rfl, halts⟩

end TableSchema
