import TableSchema.Proofs.Definition.AskedClass
import TableSchema.Proofs.Definition.Front

/-!
The class line at which a file is given up.

A file is given up at the line with which its declarations begin, if this is a class line in the
settings section and its class is registered. In front of it there are ends of lines, comments and
headers only (`classLine?`): any other line would be refused without a class. What comes behind the
name of the class has no part in this, and a file that has got a class is not given up any more
(`ofEvents_eq_registered_iff`).
-/

namespace TableSchema.Definition

variable {registered : String → Option Table} {d : Draft} {t : Table} {part : Option Section}
  {token : Token} {events : List Event} {row : Nat} {line : List Char} {domain : String}

/-- The class that a line names behind the keyword, and the row on which its name stands. -/
def classNamed? : List Event → Option (Nat × String)
  | ⟨.token name, row, _⟩ :: _ =>
    if name.isWord then some (row, Identifier.titleCase name.text) else none
  | _ => none

/-- The class line with which the declarations of a file begin, in the settings section: its row and
its class. In front of it there are ends of lines, comments and headers. Before them the section is
`part`. -/
def classLine? : Option Section → List Event → Option (Nat × String)
  | part, ⟨.token token, _, _⟩ :: events =>
    match token.kind with
    | .newLine | .comment => classLine? part events
    | .header => classLine? token.heading? events
    | _ =>
      if part = some .settings ∧ token.isKeyword Setting.table.keyword then classNamed? events
      else none
  | _, _ => none

/-- The first event in front of a class line, or in it, is a token and no flaw. What comes behind it
is looked at in the same way, or as the name of the class. -/
theorem classLine?_cons {event : Event} {result : Nat × String}
    (h : classLine? part (event :: events) = some result) :
    ∃ token, event.reply = .token token ∧ token.kind ≠ .flaw ∧
      ((∃ part', ∀ later, classLine? part (event :: later) = classLine? part' later) ∨
        ∀ later, classLine? part (event :: later) = classNamed? later) := by
  obtain ⟨reply, row, line⟩ := event
  cases reply with
  | unreadable => cases h
  | token token =>
    rw [classLine?] at h
    cases kind : token.kind with
    | newLine | comment =>
      exact ⟨token, rfl, by simp [kind], .inl ⟨part, fun _ => by simp [classLine?, kind]⟩⟩
    | header =>
      exact ⟨token, rfl, by simp [kind], .inl ⟨token.heading?, fun _ => by simp [classLine?, kind]⟩⟩
    | flaw | special => simp [Token.isKeyword, kind] at h
    | word =>
      rw [kind] at h
      dsimp only at h
      split at h
      · rename_i keyword
        exact ⟨token, rfl, by simp [kind], .inr fun _ => by simp [classLine?, kind, keyword]⟩
      · cases h

theorem classNamed?_cons {event : Event} (h : classNamed? (event :: events) = some (row, domain)) :
    ∃ token, event.reply = .token token ∧ token.kind ≠ .flaw ∧ event.row = row := by
  obtain ⟨reply, row', line⟩ := event
  cases reply with
  | unreadable => cases h
  | token token =>
    rw [classNamed?] at h
    split at h
    · rename_i word
      refine ⟨token, rfl, fun flaw => ?_, (Prod.mk.inj (Option.some.inj h)).1⟩
      simp [Token.isWord, flaw] at word
    · cases h

/-! ## Reading event by event -/

theorem Entry.ofEvents_newLine (kind : token.kind = .newLine) :
    Entry.ofEvents (⟨.token token, row, line⟩ :: events) =
      ⟨[], .newLine ⟨token, line⟩⟩ :: Entry.ofEvents events := by
  rw [Entry.ofEvents, kind]

theorem Entry.ofEvents_flaw (kind : token.kind = .flaw) :
    Entry.ofEvents (⟨.token token, row, line⟩ :: events) =
      ⟨[], .flaw ⟨token, line⟩⟩ :: Entry.ofEvents events := by
  rw [Entry.ofEvents, kind]

/-- A token within a line stands in front of the entry that the events behind it begin with. -/
theorem Entry.ofEvents_inner (newLine : token.kind ≠ .newLine) (flaw : token.kind ≠ .flaw) :
    Entry.ofEvents (⟨.token token, row, line⟩ :: events) =
      match Entry.ofEvents events with
      | [] => [⟨[⟨token, line⟩], .newLine ⟨.lineEnd row line.length, line⟩⟩]
      | e :: entries => ⟨⟨token, line⟩ :: e.tokens, e.ending⟩ :: entries := by
  rw [Entry.ofEvents]
  cases kind : token.kind with
  | newLine => exact absurd kind newLine
  | flaw => exact absurd kind flaw
  | word | special | header | comment => rfl

/-- The name of a class is read off the event in front, if this is a word. -/
theorem className_of_ofEvents {e : Entry} {entries : List Entry}
    (split : Entry.ofEvents events = e :: entries) :
    (∃ rest, className e = .ok (domain, rest)) ↔
      ∃ row, classNamed? events = some (row, domain) := by
  cases events with
  | nil => cases split
  | cons event events =>
    obtain ⟨reply, row, line⟩ := event
    cases reply with
    | unreadable =>
      cases split
      simp [className, Entry.next, Ending.newLine?, classNamed?]
    | token name =>
      by_cases newLine : name.kind = .newLine
      · rw [Entry.ofEvents_newLine newLine] at split
        cases split
        simp [className, Entry.next, Ending.newLine?, classNamed?, Token.isWord, newLine]
      by_cases flaw : name.kind = .flaw
      · rw [Entry.ofEvents_flaw flaw] at split
        cases split
        simp [className, Entry.next, Ending.newLine?, classNamed?, Token.isWord, flaw]
      have next : ∃ after, e.next = .ok (⟨name, line⟩, after) := by
        rw [Entry.ofEvents_inner newLine flaw] at split
        split at split <;> cases split <;> exact ⟨_, rfl⟩
      obtain ⟨after, next⟩ := next
      by_cases word : name.isWord <;> simp [className, next, classNamed?, word]

/-- A token within a line is the first of its entry. The end that an input lacks changes nothing in
a draft, and is no name of a class. -/
theorem Draft.exists_readEntries_inner (registered : String → Option Table)
    (newLine : token.kind ≠ .newLine) (flaw : token.kind ≠ .flaw) :
    ∃ e entries, Entry.ofEvents (⟨.token token, row, line⟩ :: events) =
        ⟨⟨token, line⟩ :: e.tokens, e.ending⟩ :: entries ∧
      (∀ d, readEntries registered d (e :: entries) =
        readEntries registered d (Entry.ofEvents events)) ∧
      ∀ domain, (∃ rest, className e = .ok (domain, rest)) ↔
        ∃ row, classNamed? events = some (row, domain) := by
  rw [Entry.ofEvents_inner newLine flaw]
  cases split : Entry.ofEvents events with
  | nil =>
    refine ⟨⟨[], .newLine ⟨.lineEnd row line.length, line⟩⟩, [], rfl, fun _ => rfl,
      fun domain => ?_⟩
    cases events with
    | nil => simp [className, Entry.next, Ending.newLine?, Token.lineEnd, Token.isWord, classNamed?]
    | cons event events =>
      obtain ⟨e, entries, filled⟩ := Entry.exists_cons_of_ne_nil (List.cons_ne_nil event events)
      cases split.symm.trans filled
  | cons e entries =>
    exact ⟨e, entries, rfl, fun _ => rfl, fun _ => className_of_ofEvents split⟩

theorem Draft.readEntries_newLine (kind : token.kind = .newLine) :
    readEntries registered d (Entry.ofEvents (⟨.token token, row, line⟩ :: events)) =
      readEntries registered d (Entry.ofEvents events) := by
  rw [Entry.ofEvents_newLine kind]
  rfl

theorem Draft.readEntries_comment (kind : token.kind = .comment) :
    readEntries registered d (Entry.ofEvents (⟨.token token, row, line⟩ :: events)) =
      readEntries registered { d with docs := d.docs ++ [token.commentBody] }
        (Entry.ofEvents events) := by
  obtain ⟨e, entries, split, same, _⟩ := exists_readEntries_inner registered
    (by simp [kind] : token.kind ≠ .newLine) (by simp [kind])
  rw [split, ← same, readEntries, readEntries, readTokens, kind]

theorem Draft.readEntries_header (kind : token.kind = .header) :
    readEntries registered d (Entry.ofEvents (⟨.token token, row, line⟩ :: events)) =
      readEntries registered { d with current := token.heading? } (Entry.ofEvents events) := by
  obtain ⟨e, entries, split, same, _⟩ := exists_readEntries_inner registered
    (by simp [kind] : token.kind ≠ .newLine) (by simp [kind])
  rw [split, ← same, readEntries, readEntries, readTokens, kind]

/-! ## Giving up -/

namespace Draft

/-- A draft without a class takes no other declaration than a class line. -/
theorem readDeclaration_of_absent (absent : d.table = none) (first : Seen) (e : Entry) :
    (d.current = some .settings ∧ first.token.isKeyword Setting.table.keyword = true ∧
      d.readDeclaration registered first e = d.readClass registered first e) ∨
    (¬(d.current = some .settings ∧ first.token.isKeyword Setting.table.keyword = true) ∧
      ∃ refusal, d.readDeclaration registered first e = .error refusal) := by
  cases part : d.current with
  | none => exact .inr ⟨by simp, _, by rw [readDeclaration, part]⟩
  | some part' =>
    cases part' with
    | settings =>
      have line : d.readDeclaration registered first e = d.readSetting registered first e := by
        rw [readDeclaration, part]
      rw [line, readSetting]
      by_cases keyword : first.token.isKeyword Setting.table.keyword
      · exact .inl ⟨rfl, keyword, by rw [if_pos keyword]⟩
      · refine .inr ⟨fun both => keyword both.2, ?_⟩
        rw [if_neg keyword, readLink, absent]
        split <;> exact ⟨_, rfl⟩
    | fields | indexes | foreignKeys =>
      have none (read : Table → Except Refusal Draft) :
          d.readMember first read = .error (first.reject .classMissingBefore) := by
        rw [readMember, absent]
      exact .inr ⟨by simp, _, by rw [readDeclaration, part]; exact none _⟩

/-- A draft that has a class is not given up. -/
theorem readEntries_ne_registered (named : d.table ≠ none) (entries : List Entry) :
    readEntries registered d entries ≠ .ok (.registered t) := by
  obtain ⟨asked, alone, h⟩ := exists_asks_readEntries d entries
  have silent : asked = none := h.once (by simpa [class?] using named)
  have given : readEntries registered d entries =
      Reading.given (asked.bind registered) alone := h.eq_given registered
  rw [given, silent, Ne, Reading.given_eq_registered]
  simp

/-- An entry that is read as a class line is given up if its class is registered, and only then. -/
theorem readEntries_class (absent : d.table = none) {first : Seen} {e rest : Entry}
    (entries : List Entry)
    (line : readTokens registered e.ending d e.tokens = d.readClass registered first rest) :
    readEntries registered d (e :: entries) = .ok (.registered t) ↔
      ∃ domain, (∃ after, className rest = .ok (domain, after)) ∧ registered domain = some t := by
  rw [readEntries, line, readClass, absent, Option.isSome_none, if_neg Bool.false_ne_true]
  cases name : className rest with
  | error refusal => simp
  | ok result =>
    obtain ⟨domain, after⟩ := result
    cases taken : registered domain with
    | some u => simp [taken]
    | none =>
      cases body : classBody domain after with
      | error refusal => simp [taken, body]
      | ok declared =>
        -- from here on the draft has a class
        simp [taken, body, readEntries_ne_registered]

/-- A file is given up exactly at a class line with which its declarations begin. -/
theorem readEntries_eq_registered_iff (absent : d.table = none) :
    readEntries registered d (Entry.ofEvents events) = .ok (.registered t) ↔
      ∃ row domain, classLine? d.current events = some (row, domain) ∧
        registered domain = some t := by
  induction events generalizing d with
  | nil => simp [Entry.ofEvents, readEntries, classLine?]
  | cons event events ih =>
    obtain ⟨reply, row, line⟩ := event
    cases reply with
    | unreadable => simp [Entry.ofEvents, readEntries, readTokens, Ending.newLine?, classLine?]
    | token token =>
      cases kind : token.kind with
      | newLine =>
        have later := ih absent
        rw [readEntries_newLine kind, later, classLine?, kind]
      | comment =>
        have later := @ih { d with docs := d.docs ++ [token.commentBody] } absent
        rw [readEntries_comment kind, later, classLine?, kind]
      | header =>
        have later := @ih { d with current := token.heading? } absent
        rw [readEntries_header kind, later, classLine?, kind]
      | flaw =>
        rw [Entry.ofEvents_flaw kind, classLine?, kind]
        simp [readEntries, readTokens, Ending.newLine?, Token.isKeyword, kind]
      | word | special =>
        obtain ⟨e, entries, split, _, names⟩ := exists_readEntries_inner registered
          (by simp [kind] : token.kind ≠ .newLine) (by simp [kind])
        have first : readTokens registered e.ending d (⟨token, line⟩ :: e.tokens) =
            d.readDeclaration registered ⟨token, line⟩ e := by
          rw [readTokens, kind]
        rw [split, classLine?, kind]
        rcases readDeclaration_of_absent absent ⟨token, line⟩ e with
          ⟨part, keyword, same⟩ | ⟨other, refusal, refused⟩
        · rw [readEntries_class absent entries (first.trans same)]
          simp only [names, if_pos (And.intro part keyword)]
          constructor
          · rintro ⟨domain, ⟨row, named⟩, found⟩
            exact ⟨row, domain, named, found⟩
          · rintro ⟨row, domain, named, found⟩
            exact ⟨domain, ⟨row, named⟩, found⟩
        · rw [readEntries, first, refused]
          simp only [if_neg other]
          simp

end Draft

/-- An input is given up exactly at a class line with which its declarations begin. -/
theorem ofEvents_eq_registered_iff : ofEvents registered events = .ok (.registered t) ↔
    ∃ row domain, classLine? none events = some (row, domain) ∧ registered domain = some t := by
  have given : Draft.readEntries registered .start (Entry.ofEvents events) = .ok (.registered t) ↔
      ∃ row domain, classLine? none events = some (row, domain) ∧ registered domain = some t :=
    Draft.readEntries_eq_registered_iff rfl
  rw [← given, ofEvents]
  cases Draft.readEntries registered .start (Entry.ofEvents events) with
  | error refusal => simp
  | ok reading =>
    cases reading with
    | registered u => simp
    | fresh d => cases done : d.finish (endPlace events) <;> simp [done]

end TableSchema.Definition
