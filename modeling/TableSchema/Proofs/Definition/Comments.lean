import TableSchema.Proofs.Definition.ClassLine
import TableSchema.Proofs.Definition.Declared
import TableSchema.Proofs.Definition.Places
import TableSchema.Proofs.Token.IdleLine

/-!
Comments on a table.

The comments that document a table are collected in the order of the file, and at its end they are
put one below the other. They have no part in anything else. So when a comment is put between two
blocks of lines, the file gives the same as before, with this comment between those of the two
blocks (`noted_ofEvents`). An error behind it has another place, but the same class and the same
message.
-/

namespace TableSchema

/-- The event without places. -/
def Event.bare (e : Event) : Event :=
  match e.reply with
  | .token t => ⟨.token t.bare, 0, []⟩
  | .unreadable => ⟨.unreadable, 0, []⟩

theorem Event.bare_down (n : Nat) (e : Event) : (e.down n).bare = e.bare := by
  obtain ⟨reply, row, line⟩ := e
  cases reply <;> rfl

namespace Definition

/-! ## Entries -/

theorem Entry.ofEvents_bare (events : List Event) :
    Entry.ofEvents (events.map Event.bare) = (Entry.ofEvents events).map Entry.bare := by
  induction events with
  | nil => rfl
  | cons event events ih =>
    obtain ⟨reply, row, line⟩ := event
    rw [List.map_cons]
    cases reply with
    | unreadable => exact congrArg (⟨[], .unreadable⟩ :: ·) ih
    | token t =>
      show Entry.ofEvents (⟨.token t.bare, 0, []⟩ :: events.map Event.bare) = _
      by_cases newLine : t.kind = .newLine
      · rw [ofEvents_newLine (t.bare_kind.trans newLine), ofEvents_newLine newLine, ih]
        rfl
      by_cases flaw : t.kind = .flaw
      · rw [ofEvents_flaw (t.bare_kind.trans flaw), ofEvents_flaw flaw, ih]
        rfl
      have inner : t.bare.kind ≠ .newLine ∧ t.bare.kind ≠ .flaw := ⟨newLine, flaw⟩
      rw [ofEvents_inner inner.1 inner.2, ofEvents_inner newLine flaw, ih]
      cases Entry.ofEvents events <;> rfl

theorem Entry.bare_ofEvents_down (events : List Event) (n : Nat) :
    (Entry.ofEvents (events.map (Event.down n))).map Entry.bare =
      (Entry.ofEvents events).map Entry.bare := by
  have same : Event.bare ∘ Event.down n = Event.bare := funext (Event.bare_down n)
  rw [← ofEvents_bare, List.map_map, same, ofEvents_bare]

/-- The front part of an input ends between two entries if no comment is open there. -/
theorem Entry.ofEvents_append {lost : Prop} {front whole : List Event} (h : Cut lost front whole)
    (closed : Closed front) (back : List Event) :
    Entry.ofEvents (front ++ back) = Entry.ofEvents front ++ Entry.ofEvents back := by
  induction h with
  | closed => rfl
  | inComment leftOpen => exact absurd leftOpen (closed _ List.mem_cons_self _ rfl)
  | final last _ ih =>
    have behind := ih fun e he => closed e (List.mem_cons_of_mem _ he)
    rw [List.cons_append]
    rcases last with newLine | ⟨flaw, _⟩
    · rw [ofEvents_newLine newLine, ofEvents_newLine newLine, behind, List.cons_append]
    · rw [ofEvents_flaw flaw, ofEvents_flaw flaw, behind, List.cons_append]
  | inner newLine flaw filled _ ih =>
    have behind := ih fun e he => closed e (List.mem_cons_of_mem _ he)
    -- the entry of this token is complete in the front part, since more events follow there
    obtain ⟨e, entries, split⟩ := Entry.exists_cons_of_ne_nil filled
    rw [List.cons_append, ofEvents_inner newLine flaw, ofEvents_inner newLine flaw, behind, split]
    rfl

/-! ## Drafts -/

variable {registered : String → Option Table}

theorem Reading.behind_nil : Reading.behind [] [] = id := by
  funext reading
  cases reading <;> rfl

namespace Draft

variable {d d' : Draft}

theorem readEntries_append (x y : List Entry) :
    readEntries registered d (x ++ y) =
      match readEntries registered d x with
      | .ok (.fresh d') => readEntries registered d' y
      | other => other := by
  induction x generalizing d with
  | nil => rfl
  | cons e x ih =>
    rw [List.cons_append, readEntries, readEntries]
    cases readTokens registered e.ending d e.tokens with
    | error refusal => rfl
    | ok reading =>
      cases reading with
      | registered t => rfl
      | fresh d' => exact ih

/-- A line with one comment at most only adds this comment. -/
theorem readEntries_remarks {doc : Option String} {remarks : List Event} (h : Remarks doc remarks)
    (back : List Event) :
    readEntries registered d (Entry.ofEvents (remarks ++ back)) =
      readEntries registered { d with docs := d.docs ++ doc.toList } (Entry.ofEvents back) := by
  cases h with
  | silent newLine =>
    rw [List.singleton_append, readEntries_newLine newLine, Option.toList_none, List.append_nil]
  | remark comment newLine =>
    rw [List.cons_append, readEntries_comment comment, List.singleton_append,
      readEntries_newLine newLine]
    rfl

/-- No table has a comment while its file is read. -/
def Silent (d : Draft) : Prop := ∀ t, d.table = some t → t.comment = none

theorem Silent.step (h : d.Silent) (step : Step registered d d') : d'.Silent := by
  cases step with
  | document | enter | foreignKey => exact h
  | declare =>
    rintro t ⟨⟩
    rfl
  | link _ _ _ found =>
    rintro _ ⟨⟩
    have silent := h _ found
    exact silent
  | column _ found _ added =>
    obtain ⟨_, rfl⟩ := Table.addColumn_eq_ok.mp added
    rintro _ ⟨⟩
    have silent := h _ found
    exact silent
  | index _ found _ added =>
    obtain ⟨_, rfl⟩ := Table.addIndex?_eq_some.mp added
    rintro _ ⟨⟩
    have silent := h _ found
    exact silent

theorem Silent.steps (h : d.Silent) (steps : Relation.ReflTransGen (Step registered) d d') :
    d'.Silent := by
  induction steps with
  | refl => exact h
  | tail _ step ih => exact ih.step step

end Draft

/-- What is read behind the comments `front` and the foreign keys `keys`, and what is read behind
others instead: it is the same but for these, or refused for the same problem. -/
inductive Behind (front front' : List String) (keys keys' : List ForeignKey) :
    Except Refusal (Reading Draft) → Except Refusal (Reading Draft) → Prop
  | refused {refusal refusal' : Refusal} : refusal'.bare = refusal.bare →
      Behind front front' keys keys' (.error refusal) (.error refusal')
  | registered {t : Table} :
      Behind front front' keys keys' (.ok (.registered t)) (.ok (.registered t))
  | fresh {d : Draft} : Behind front front' keys keys' (.ok (.fresh (d.behind front keys)))
      (.ok (.fresh (d.behind front' keys')))

/-- Lines with the same tokens, read behind different comments and foreign keys. -/
theorem Draft.behind_readEntries {entries entries' : List Entry}
    (same : entries'.map Entry.bare = entries.map Entry.bare) (d : Draft)
    (front front' : List String) (keys keys' : List ForeignKey) :
    Behind front front' keys keys' (readEntries registered (d.behind front keys) entries)
      (readEntries registered (d.behind front' keys') entries') := by
  -- what is read behind others is told by what is read behind none
  have told (d : Draft) (entries : List Entry) : tell id (readEntries registered d entries) =
      readEntries registered d (entries.map Entry.bare) := by
    have bare := readEntries_bare registered [] [] d entries
    rw [Reading.behind_nil] at bare
    exact bare.symm
  have first := (told (d.behind front keys) entries).trans
    (readEntries_bare registered front keys d entries)
  have second := told (d.behind front' keys') entries'
  rw [same, readEntries_bare registered front' keys' d entries] at second
  cases read : readEntries registered d entries with
  | error refusal =>
    rw [read] at first second
    obtain ⟨cause, refused, bare⟩ := exists_error_of_tell first
    obtain ⟨cause', refused', bare'⟩ := exists_error_of_tell second
    rw [refused, refused']
    exact .refused (bare'.trans bare.symm)
  | ok reading =>
    rw [read] at first second
    rw [eq_ok_of_tell first, eq_ok_of_tell second]
    cases reading with
    | registered t => exact .registered
    | fresh d' => exact .fresh

/-! ## Files -/

/-- The comments on the table in the front part of a file. -/
def documented (registered : String → Option Table) (events : List Event) : List String :=
  match Draft.readEntries registered .start (Entry.ofEvents events) with
  | .ok (.fresh d) => d.docs
  | _ => []

/-- What a file gives, and what it gives with one comment more, which comes after the comments
`before`: the same definition with the comment in its place, the same table that is registered, or a
refusal for the same problem. -/
inductive Noted (before : List String) (doc : Option String) :
    Except Refusal (Reading Definition) → Except Refusal (Reading Definition) → Prop
  | refused {refusal refusal' : Refusal} : refusal'.bare = refusal.bare →
      Noted before doc (.error refusal) (.error refusal')
  | registered {t : Table} : Noted before doc (.ok (.registered t)) (.ok (.registered t))
  | fresh {d : Definition} {later : List String} : d.table.comment = joined (before ++ later) →
      Noted before doc (.ok (.fresh d))
        (.ok (.fresh
          { d with table := { d.table with comment := joined (before ++ doc.toList ++ later) } }))

/-- The definition of a draft, and that of the same draft behind other comments. -/
theorem Draft.noted_finish {d : Draft} {front : List String} {doc : Option String}
    (silent : (d.behind front []).Silent) (place place' : Place) :
    Noted front doc ((d.behind front []).finish place >>= fun d => .ok (.fresh d))
      ((d.behind (front ++ doc.toList) []).finish place' >>= fun d => .ok (.fresh d)) := by
  unfold finish behind
  dsimp only
  cases found : d.table with
  | none => exact .refused rfl
  | some t =>
    have bare := silent t found
    simp only [foldl_addComment_joined bare]
    exact .fresh rfl

/-- A line with one comment at most, put between two blocks of lines. -/
theorem noted_ofEvents {lost : Prop} {front whole remarks : List Event} {doc : Option String}
    (cut : Cut lost front whole) (closed : Closed front) (h : Remarks doc remarks)
    (back : List Event) (n m : Nat) :
    Noted (documented registered front) doc
      (ofEvents registered (front ++ back.map (Event.down n)))
      (ofEvents registered (front ++ (remarks ++ back.map (Event.down m)))) := by
  unfold ofEvents documented
  rw [Entry.ofEvents_append cut closed, Entry.ofEvents_append cut closed,
    Draft.readEntries_append, Draft.readEntries_append]
  cases read : Draft.readEntries registered .start (Entry.ofEvents front) with
  | error refusal => exact .refused rfl
  | ok reading =>
    cases reading with
    | registered t => exact .registered
    | fresh d =>
      have same := (Entry.bare_ofEvents_down back m).trans (Entry.bare_ofEvents_down back n).symm
      -- the comments so far are set aside, to be put back with the new one and without it
      have behind := @Draft.behind_readEntries registered _ _ same
        { d with docs := [] } d.docs (d.docs ++ doc.toList) [] []
      have plain : ({ d with docs := [] } : Draft).behind d.docs [] = d := by simp [Draft.behind]
      have noted : ({ d with docs := [] } : Draft).behind (d.docs ++ doc.toList) [] =
          { d with docs := d.docs ++ doc.toList } := by simp [Draft.behind]
      rw [plain, noted] at behind
      dsimp only
      rw [Draft.readEntries_remarks h]
      generalize read' : Draft.readEntries registered d _ = x at behind ⊢
      generalize Draft.readEntries registered { d with docs := d.docs ++ doc.toList } _ = y
        at behind ⊢
      cases behind with
      | refused bare => exact .refused bare
      | registered => exact .registered
      | fresh =>
        have start : Draft.Silent .start := fun t found => by cases found
        have silent := (start.steps (Draft.readEntries_steps read)).steps
          (Draft.readEntries_steps read')
        exact Draft.noted_finish silent _ _

end Definition

end TableSchema
