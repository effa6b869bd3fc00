import TableSchema.Proofs.Definition.Comments
import TableSchema.Proofs.Definition.CutLine
import TableSchema.Proofs.Definition.Lines
import TableSchema.Proofs.Definition.Shown
import TableSchema.Proofs.Token.LostLines

/-!
Reading a file block by block.

Nothing is wrong with what is read to its end (`sound_of_readEntries`), so no comment is open there,
and what comes behind is read on its own, further down (`Draft.readEntries_ofLines_append`). The
foreign keys that were declared before have no part in this: a block declares the same behind other
ones (`Draft.exists_later_of_readEntries`). A line of tokens between two blocks is one entry
(`Entry.exists_shows_behind`).
-/

namespace TableSchema

open Text (SourceLine)

theorem Event.spelled_down (n : Nat) (e : Event) : (e.down n).spelled = e.spelled := by
  obtain ⟨reply, row, line⟩ := e
  cases reply <;> rfl

/-- The event is a token, and no flaw. -/
def Event.Sound (e : Event) : Prop := ∃ t, e.reply = .token t ∧ t.kind ≠ .flaw

theorem closed_of_sound {events : List Event} (sound : ∀ e ∈ events, e.Sound) : Closed events := by
  intro e he t reply leftOpen
  obtain ⟨token, reply', flawless⟩ := sound e he
  rw [reply] at reply'
  obtain rfl := Reply.token.inj reply'
  exact flawless leftOpen.kind

/-- A line of which nothing is heard but tokens is text. -/
theorem Scanner.readable_of_sound {lines : List SourceLine}
    (sound : ∀ e ∈ (ofLines lines).events, e.Sound) : .unreadable ∉ lines := by
  have none : (ofLines lines).events.countP (fun e => e.reply == .unreadable) = 0 := by
    rw [List.countP_eq_zero]
    intro e he unread
    obtain ⟨t, reply, _⟩ := sound e he
    rw [reply] at unread
    cases unread
  rw [countP_unreadable] at none
  exact List.count_eq_zero.mp none

/-- A written token is no flaw, nor is the end of a line. -/
theorem sound_of_spelled {ws : List Written} {events : List Event}
    (spelled : events.map Event.spelled = spelledLine ws) : ∀ e ∈ events, e.Sound := by
  intro e he
  have inside : e.spelled ∈ spelledLine ws := spelled ▸ List.mem_map_of_mem he
  rcases List.mem_append.mp inside with written | newLine
  · obtain ⟨w, _, same⟩ := List.mem_map.mp written
    obtain ⟨t, row, line, rfl, kind, _⟩ := exists_of_spelled same.symm
    refine ⟨t, rfl, ?_⟩
    rw [kind]
    cases w <;> exact nofun
  · obtain ⟨t, row, line, rfl, kind, _⟩ := exists_of_spelled (List.mem_singleton.mp newLine)
    refine ⟨t, rfl, ?_⟩
    rw [kind]
    decide

namespace Definition

variable {registered : String → Option Table} {events : List Event} {d d' : Draft}

/-! ## What is read to its end -/

/-- If every entry comes to the end of its line, nothing is wrong with any event. -/
theorem Entry.sound_of_ends
    (ends : ∀ entry ∈ ofEvents events, ∃ mark, entry.ending.newLine? = .ok mark) :
    ∀ e ∈ events, e.Sound := by
  induction events with
  | nil => exact List.forall_mem_nil _
  | cons event events ih =>
    obtain ⟨reply, row, line⟩ := event
    cases reply with
    | unreadable =>
      obtain ⟨⟨_, stop⟩, _⟩ := List.forall_mem_cons.mp ends
      cases stop
    | token token =>
      rw [ofEvents] at ends
      split at ends
      · rename_i newLine
        obtain ⟨_, later⟩ := List.forall_mem_cons.mp ends
        exact List.forall_mem_cons.mpr ⟨⟨token, rfl, by simp [newLine]⟩, ih later⟩
      · obtain ⟨⟨_, stop⟩, _⟩ := List.forall_mem_cons.mp ends
        cases stop
      · rename_i flawless
        refine List.forall_mem_cons.mpr ⟨⟨token, rfl, flawless⟩, ih ?_⟩
        split at ends
        · rename_i empty
          rw [empty]
          exact List.forall_mem_nil _
        · rename_i entry entries split
          rw [split]
          exact List.forall_mem_cons.mpr (List.forall_mem_cons.mp ends)

/-- The tokens of an entry stand in front of its end. -/
theorem Entry.inner_ofEvents : ∀ entry ∈ ofEvents events, Inner entry.tokens := by
  induction events with
  | nil => exact List.forall_mem_nil _
  | cons event events ih =>
    obtain ⟨reply, row, line⟩ := event
    cases reply with
    | unreadable => exact List.forall_mem_cons.mpr ⟨List.forall_mem_nil _, ih⟩
    | token token =>
      rw [ofEvents]
      split
      · exact List.forall_mem_cons.mpr ⟨List.forall_mem_nil _, ih⟩
      · exact List.forall_mem_cons.mpr ⟨List.forall_mem_nil _, ih⟩
      · rename_i newLine _
        split
        · exact List.forall_mem_singleton.mpr (List.forall_mem_singleton.mpr newLine)
        · rename_i entry entries split
          rw [split] at ih
          obtain ⟨first, later⟩ := List.forall_mem_cons.mp ih
          exact List.forall_mem_cons.mpr ⟨List.forall_mem_cons.mpr ⟨newLine, first⟩, later⟩

namespace Draft

/-- An entry that is read ends at the end of its line. -/
theorem ends_of_readTokens {e : Entry} (inner : Inner e.tokens)
    (read : readTokens registered e.ending d e.tokens = .ok (.fresh d')) :
    ∃ mark, e.ending.newLine? = .ok mark := by
  -- the line is compared with itself
  have replaces : Replaces e.ending ⟨[], e.ending⟩ := fun _ _ => rfl
  have meets := @meets_readTokens _ _ replaces _ registered d inner
  rw [read] at meets
  obtain ⟨_, _, rfl, given | ends⟩ := meets.of_ok
  · obtain ⟨t, given⟩ := given
    cases given
  · exact ends

theorem ends_of_readEntries {entries : List Entry} (inner : ∀ e ∈ entries, Inner e.tokens)
    (read : readEntries registered d entries = .ok (.fresh d')) :
    ∀ e ∈ entries, ∃ mark, e.ending.newLine? = .ok mark := by
  induction entries generalizing d with
  | nil => exact List.forall_mem_nil _
  | cons e entries ih =>
    obtain ⟨first, others⟩ := List.forall_mem_cons.mp inner
    obtain ⟨reading, line, read⟩ := Except.bind_eq_ok.mp read
    cases reading with
    | registered t => cases read
    | fresh middle =>
      exact List.forall_mem_cons.mpr ⟨ends_of_readTokens first line, ih others read⟩

end Draft

/-- Nothing is wrong with what has been read to its end. -/
theorem sound_of_readEntries
    (read : Draft.readEntries registered d (Entry.ofEvents events) = .ok (.fresh d')) :
    ∀ e ∈ events, e.Sound :=
  Entry.sound_of_ends (Draft.ends_of_readEntries Entry.inner_ofEvents read)

/-! ## Blocks of lines -/

section

variable {front back : List SourceLine}

theorem Entry.ofEvents_ofLines_append (readable : .unreadable ∉ front)
    (readable' : .unreadable ∉ back) (closed : Closed (Scanner.ofLines front).events) :
    ofEvents (Scanner.ofLines (front ++ back)).events = ofEvents (Scanner.ofLines front).events ++
      ofEvents ((Scanner.ofLines back).events.map (Event.down front.length)) := by
  have cut := @Scanner.cut_events (.ofLines front) [] readable
  rw [Scanner.events_ofLines_append readable readable' closed, ofEvents_append cut closed]

/-- What comes behind a block that has been read is read on its own, further down. -/
theorem Draft.readEntries_ofLines_append (readable : .unreadable ∉ back)
    (read : readEntries registered d (Entry.ofEvents (Scanner.ofLines front).events) =
      .ok (.fresh d')) :
    readEntries registered d (Entry.ofEvents (Scanner.ofLines (front ++ back)).events) =
      readEntries registered d'
        (Entry.ofEvents ((Scanner.ofLines back).events.map (Event.down front.length))) := by
  have sound := sound_of_readEntries read
  rw [Entry.ofEvents_ofLines_append (Scanner.readable_of_sound sound) readable
    (closed_of_sound sound), readEntries_append, read]

/-- A line of tokens behind a block is one entry, whatever comes behind it. -/
theorem Entry.exists_shows_behind {ws : List Written} {cs : List Char}
    (readable : .unreadable ∉ front) (closed : Closed (Scanner.ofLines front).events)
    (lays : Lays ws cs) :
    ∃ e : Entry, e.Shows ws ∧ ∀ back, .unreadable ∉ back →
      ofEvents (Scanner.ofLines (front ++ .readable cs :: back)).events =
        ofEvents (Scanner.ofLines front).events ++
          e :: ofEvents ((Scanner.ofLines back).events.map (Event.down (front.length + 1))) := by
  have here : .unreadable ∉ [SourceLine.readable cs] := by simp
  have spelled : ((Scanner.ofLines [.readable cs]).events.map (Event.down front.length)).map
      Event.spelled = spelledLine ws := by
    have same : Event.spelled ∘ Event.down front.length = Event.spelled :=
      funext (Event.spelled_down front.length)
    rw [List.map_map, same, Scanner.spelled_lines (.cons lays.scanned .nil) rfl rfl,
      List.flatMap_singleton, spelledTokens_map_token]
  have shows := @shows_of_spelled [ws] _ (spelled.trans (List.flatMap_singleton _ _).symm)
  obtain ⟨e, entries, shown, rest, split⟩ := List.forall₂_cons_right_iff.mp shows
  obtain rfl := List.forall₂_nil_right_iff.mp rest
  refine ⟨e, shown, fun back readable' => ?_⟩
  have both : .unreadable ∉ front ++ [SourceLine.readable cs] := by simp [readable]
  have closed' : Closed (Scanner.ofLines (front ++ [.readable cs])).events := by
    rw [Scanner.events_ofLines_append readable here closed]
    exact List.forall_mem_append.mpr ⟨closed, closed_of_sound (sound_of_spelled spelled)⟩
  rw [List.append_cons, ofEvents_ofLines_append both readable' closed',
    ofEvents_ofLines_append readable here closed, split, List.length_append, List.append_assoc]
  rfl

/-- A block declares the same foreign keys wherever it stands and whatever has been declared before.
-/
theorem Draft.exists_later_of_readEntries {n : Nat}
    (read : readEntries registered d (Entry.ofEvents (events.map (Event.down n))) =
      .ok (.fresh d')) :
    ∃ later, d'.foreignKeys = d.foreignKeys ++ later ∧ ∀ keys m,
      readEntries registered { d with foreignKeys := keys }
        (Entry.ofEvents (events.map (Event.down m))) =
          .ok (.fresh { d' with foreignKeys := keys ++ later }) := by
  obtain ⟨later, added, _⟩ := readEntries_adds read
  refine ⟨later, added, fun keys m => ?_⟩
  have same := (Entry.bare_ofEvents_down events m).trans (Entry.bare_ofEvents_down events n).symm
  -- the foreign keys so far are set aside, to be replaced by the others
  have behind := @behind_readEntries registered _ _ same
    { d with docs := [], foreignKeys := [] } d.docs d.docs d.foreignKeys keys
  have before : ({ d with docs := [], foreignKeys := [] } : Draft).behind d.docs d.foreignKeys =
      d := by simp [Draft.behind]
  have after : ({ d with docs := [], foreignKeys := [] } : Draft).behind d.docs keys =
      { d with foreignKeys := keys } := by simp [Draft.behind]
  rw [before, after, read] at behind
  generalize readEntries registered { d with foreignKeys := keys } _ = y at behind ⊢
  cases behind with
  | @fresh e =>
    have own : e.foreignKeys = later := List.append_cancel_left added
    rw [← own]
    rfl

end

end Definition

end TableSchema
