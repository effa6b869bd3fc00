import TableSchema.Proofs.Definition.Blame
import TableSchema.Proofs.Registry.ReadEffect
import TableSchema.Proofs.Token.Rows

/-!
The line that a message shows.

A refusal gives the row of the token that it blames, but the line of the token that was read last.
All tokens of an entry stand one after the other, each on the line on which the token before it ends
(`Entry.Follows`). So the line shown is the blamed one, moved on by the line feeds in the comments
from the blamed token up to the one read last (`read_shows_line`). It is another line only if one of
these comments goes over several lines, as in `overrun`.
-/

namespace TableSchema

open Text (SourceLine texts)

namespace Text

/-- The physical lines of a text. A text without any counts as one empty line. -/
def textLines (text : String) : List (List Char) :=
  match (cutLines (· == '\n') text.toList).map lineText with
  | [] => [[]]
  | lines => lines

/-- The line of a text in a row. Rows count from one. -/
def lineAt? (text : String) : Nat → Option String
  | 0 => none
  | row + 1 => (textLines text)[row]?.map String.ofList

example : (List.range 4).map (lineAt? "a\r\nb") = [none, some "a", some "b", none] := by
  decide +kernel

theorem lineAt?_of_pos {text : String} {row : Nat} {line : List Char} (pos : 0 < row)
    (h : ([] :: texts (SourceLine.ofText text))[row]? = some line) :
    lineAt? text row = some (String.ofList line) := by
  cases row with
  | zero => cases pos
  | succ n =>
    rw [List.getElem?_cons_succ, texts_ofText] at h
    show (textLines text)[n]?.map String.ofList = some (String.ofList line)
    unfold textLines
    split
    · rename_i none
      rw [none] at h
      cases h
    · rw [h]
      rfl

end Text

namespace Definition

variable {source : List SourceLine} {events : List Event} {e : Entry}

/-- The token stands on a row of the input, and is kept together with the line on which it ends. -/
structure Seen.Stands (source : List SourceLine) (seen : Seen) : Prop where
  row_pos : 0 < seen.token.row
  line : ([] :: texts source)[seen.token.endRow]? = some seen.line

/-- The tokens of an entry stand on the lines of the input, each one on the line on which the token
before it ends. -/
structure Entry.Follows (source : List SourceLine) (e : Entry) : Prop where
  stands : ∀ seen ∈ e.seens, seen.Stands source
  connected : e.seens.IsChain fun seen later => later.token.row = seen.token.endRow

theorem Entry.Follows.single {seen : Seen} {ending : Ending} (h : seen.Stands source)
    (mark : ending.mark? = some seen) : (⟨[], ending⟩ : Entry).Follows source := by
  have alone : (⟨[], ending⟩ : Entry).seens = [seen] := by simp [Entry.seens, mark]
  constructor
  · rw [alone]
    simpa using h
  · rw [alone]
    exact .singleton _

theorem Entry.Follows.cons {seen : Seen} (h : e.Follows source) (stands : seen.Stands source)
    (next : ∀ later ∈ e.seens.head?, later.token.row = seen.token.endRow) :
    ({ e with tokens := seen :: e.tokens } : Entry).Follows source :=
  ⟨List.forall_mem_cons.mpr ⟨stands, h.stands⟩, List.isChain_cons.mpr ⟨next, h.connected⟩⟩

/-- An entry begins with the first event that is left. -/
theorem exists_head_of_ofEvents {entry : Entry} {entries : List Entry}
    (h : Entry.ofEvents events = entry :: entries) {first : Seen}
    (head : entry.seens.head? = some first) :
    ∃ event, events.head? = some event ∧ event.reply = .token first.token := by
  cases events with
  | nil => cases h
  | cons event events =>
    refine ⟨event, rfl, ?_⟩
    obtain ⟨reply, row, line⟩ := event
    cases reply with
    | unreadable =>
      cases h
      cases head
    | token t =>
      rw [Entry.ofEvents] at h
      split at h
      · cases h
        cases head
        rfl
      · cases h
        cases head
        rfl
      · split at h
        · cases h
          cases head
          rfl
        · cases h
          cases head
          rfl

/-- Entries follow the lines that their events follow. -/
theorem follows_ofEvents (stands : ∀ event ∈ events, event.Stands source)
    (chain : events.IsChain Event.Leads) : ∀ e ∈ Entry.ofEvents events, e.Follows source := by
  induction events with
  | nil =>
    intro e he
    cases he
  | cons event events ih =>
    obtain ⟨leads, chain⟩ := List.isChain_cons.mp chain
    have later := ih (fun e he => stands e (List.mem_cons_of_mem _ he)) chain
    have here := stands event List.mem_cons_self
    obtain ⟨reply, row, line⟩ := event
    cases reply with
    | unreadable =>
      have bare : (⟨[], .unreadable⟩ : Entry).Follows source :=
        ⟨fun _ inside => absurd inside List.not_mem_nil, .nil⟩
      exact List.forall_mem_cons.mpr ⟨bare, later⟩
    | token t =>
      obtain ⟨pos, ends⟩ := here.token t rfl
      have seen : (⟨t, line⟩ : Seen).Stands source := ⟨pos, by rw [ends]; exact here.line⟩
      rw [Entry.ofEvents]
      split
      · exact List.forall_mem_cons.mpr ⟨.single seen rfl, later⟩
      · exact List.forall_mem_cons.mpr ⟨.single seen rfl, later⟩
      · rename_i newLine flaw
        split
        · -- the end that the input lacks stands where the token ends
          have mark : Seen.Stands source ⟨.lineEnd row line.length, line⟩ := by
            refine ⟨here.row_pos rfl, ?_⟩
            rw [Token.endRow_of_not_comment (by simp [Token.lineEnd])]
            exact here.line
          have alone : (⟨[], .newLine ⟨.lineEnd row line.length, line⟩⟩ : Entry).Follows source :=
            .single mark rfl
          refine List.forall_mem_singleton.mpr (alone.cons seen fun later hlater => ?_)
          obtain rfl := Option.some.inj hlater
          exact ends.symm
        · rename_i entry entries split
          rw [split] at later
          obtain ⟨rest, later⟩ := List.forall_mem_cons.mp later
          refine List.forall_mem_cons.mpr ⟨rest.cons seen fun next hnext => ?_, later⟩
          obtain ⟨event, head, token⟩ := exists_head_of_ofEvents split hnext
          have row := leads event head t next.token rfl newLine flaw token
          exact row.trans ends.symm

/-- The number of lines that the comments among some tokens go on for. -/
def lineBreaks : List Seen → Nat
  | [] => 0
  | seen :: rest => seen.token.lineBreaks + lineBreaks rest

/-- Tokens that stand one after the other end as many rows further on as their comments have line
feeds. -/
theorem endRow_of_isChain {read : List Seen} {first last : Seen}
    (connected : read.IsChain fun seen later => later.token.row = seen.token.endRow)
    (head : read.head? = some first) (stop : read.getLast? = some last) :
    last.token.endRow = first.token.row + lineBreaks read := by
  induction read generalizing first with
  | nil => cases head
  | cons seen rest ih =>
    obtain rfl := Option.some.inj head
    obtain ⟨next, connected⟩ := List.isChain_cons.mp connected
    cases rest with
    | nil =>
      obtain rfl := Option.some.inj stop
      simp [lineBreaks, Token.endRow]
    | cons later rest =>
      have row := next later rfl
      rw [List.getLast?_cons_cons] at stop
      rw [ih connected rfl stop, row]
      simp only [lineBreaks, Token.endRow]
      omega

theorem Entry.Follows.line_of_spans (h : e.Follows source) {read : List Seen} {place : Place}
    (inside : read <:+: e.seens) (spans : Spans place read) :
    0 < place.row ∧ ∃ line, place.line = String.ofList line ∧
      ([] :: texts source)[place.row + lineBreaks read]? = some line := by
  obtain ⟨first, last, head, stop, rfl⟩ := spans
  have firstStands := h.stands first (inside.subset (List.mem_of_head? head))
  have lastStands := h.stands last (inside.subset (List.mem_of_getLast? stop))
  refine ⟨firstStands.row_pos, last.line, rfl, ?_⟩
  have connected := List.IsChain.infix h.connected inside
  have row := endRow_of_isChain connected head stop
  show ([] :: texts source)[first.token.row + lineBreaks read]? = some last.line
  rw [← row]
  exact lastStands.line

/-- The tokens `read` of a text are those from the one that the place blames up to the one read
last. There are none if the place is the end of the text. -/
def Blamed (text : String) (place : Place) (read : List Seen) : Prop :=
  (∃ e ∈ Entry.ofEvents (Scanner.ofText text).events, read <:+: e.seens ∧ Spans place read) ∨
    (read = [] ∧ place = endPlace (Scanner.ofText text).events)

theorem stands_of_mem_events {text : String} :
    (∀ event ∈ (Scanner.ofText text).events, event.Stands (SourceLine.ofText text)) ∧
      (Scanner.ofText text).events.IsChain Event.Leads :=
  (Scanner.follows_ofLines _).events fun _ => SourceLine.unbroken_ofText

theorem lineAt?_endPlace (text : String) :
    let place := endPlace (Scanner.ofText text).events
    0 < place.row ∧ Text.lineAt? text place.row = some place.line := by
  unfold endPlace
  cases last : (Scanner.ofText text).events.getLast? with
  | none =>
    have empty : (Text.cutLines (· == '\n') text.toList).map Text.lineText = [] := by
      rw [← Text.texts_ofText, Scanner.events_ofLines_eq_nil (List.getLast?_eq_none_iff.mp last)]
      rfl
    refine ⟨Nat.one_pos, ?_⟩
    show (Text.textLines text)[0]?.map String.ofList = some ""
    rw [Text.textLines, empty]
    rfl
  | some event =>
    have stands := stands_of_mem_events.1 event (List.mem_of_getLast? last)
    have pos := stands.row_pos_of_readable SourceLine.unreadable_not_mem_ofText
    dsimp only
    rw [Nat.max_eq_left pos]
    exact ⟨pos, Text.lineAt?_of_pos pos stands.line⟩

/-- What a place shows is the line on which the token read last has ended. -/
theorem Blamed.lineAt?_eq {text : String} {place : Place} {read : List Seen}
    (h : Blamed text place read) :
    0 < place.row ∧ Text.lineAt? text (place.row + lineBreaks read) = some place.line := by
  rcases h with ⟨e, he, inside, spans⟩ | ⟨rfl, rfl⟩
  · have follows := follows_ofEvents stands_of_mem_events.1 stands_of_mem_events.2 e he
    obtain ⟨pos, line, shown, found⟩ := follows.line_of_spans inside spans
    refine ⟨pos, ?_⟩
    rw [shown]
    exact Text.lineAt?_of_pos (Nat.add_pos_left pos _) found
  · exact lineAt?_endPlace text

theorem Blamed.length_caret {text : String} {place : Place} {read : List Seen}
    (h : Blamed text place read) : place.caret.length = place.col := by
  have pos : 0 < place.col := by
    rcases h with ⟨_, _, _, _, _, _, _, rfl⟩ | ⟨_, rfl⟩
    · exact Nat.succ_pos _
    · unfold endPlace
      split <;> exact Nat.succ_pos _
  rw [Place.caret, String.length_append, String.length_pushn]
  exact (congrArg (· + 1) (Nat.zero_add _)).trans (Nat.sub_add_cancel pos)

/-- A text is refused at a place with its tokens, or as one that is no text. -/
theorem exists_blamed_of_ofEvents {text : String} {registered : String → Option Table}
    {refusal : Refusal} {place : Place}
    (h : ofEvents registered (Scanner.ofText text).events = .error refusal)
    (located : refusal.place? = some place) : ∃ read, Blamed text place read := by
  rcases ofEvents_refused h with ⟨e, he, among⟩ | rfl
  · obtain ⟨read, inside, spans⟩ := among place located
    exact ⟨read, .inl ⟨e, he, inside, spans⟩⟩
  · exact ⟨[], .inr ⟨rfl, (Option.some.inj located).symm⟩⟩

end Definition

namespace Registry

/-- A message about a text gives the row in which the blamed token begins, and the line on which the
token read last ends. Between the two are the line feeds in the comments that were read. So the line
shown is that of the row exactly when these comments stay on one line, or end on a line with the
same text. The caret stands under the column. -/
theorem read_shows_line {r : Registry} {text file name : String} {refusal : Definition.Refusal}
    {place : Place} (refused : r.read (.ofText text) = .error refusal)
    (located : (refusal.diagnostic file).location = some ⟨name, place⟩) :
    name = file ∧ 0 < place.row ∧ place.caret.length = place.col ∧
      ∃ read, Definition.Blamed text place read ∧
        Text.lineAt? text (place.row + Definition.lineBreaks read) = some place.line ∧
        (Text.lineAt? text place.row = some place.line ↔
          Text.lineAt? text place.row =
            Text.lineAt? text (place.row + Definition.lineBreaks read)) := by
  rw [Definition.Refusal.location_eq] at located
  obtain ⟨place', found, same⟩ := Option.map_eq_some_iff.mp located
  obtain ⟨rfl, rfl⟩ := Location.mk.inj same
  obtain ⟨read, blamed⟩ := Definition.exists_blamed_of_ofEvents (read_eq_error.mp refused) found
  obtain ⟨pos, line⟩ := blamed.lineAt?_eq
  exact ⟨rfl, pos, blamed.length_caret, read, blamed, line, by rw [line]⟩

/-- A class line on which a comment stands in place of the name and goes on to the next line. -/
def overrun : String := "[Settings]\nCLASS /* a\n b */ x\n"

/-- The refusal of a comment where the name of the class is expected. -/
def overrunRefusal : Definition.Refusal :=
  .grammar (.classNameExpected ⟨.comment, "/* a\n b */", 2, 6⟩) ⟨2, 7, " b */ x"⟩

theorem read_overrun : empty.read (.ofText overrun) = .error overrunRefusal := by
  decide +kernel

theorem read_shows_line_overrun : ∃ refusal place, empty.read (.ofText overrun) = .error refusal ∧
    (refusal.diagnostic "a.txt").location = some ⟨"a.txt", place⟩ ∧
    place.caret.length = place.col ∧ ∃ read, Definition.Blamed overrun place read ∧
      Text.lineAt? overrun (place.row + Definition.lineBreaks read) = some place.line := by
  obtain ⟨_, _, caret, read, blamed, line, _⟩ :=
    @read_shows_line _ _ "a.txt" "a.txt" _ _ read_overrun rfl
  exact ⟨_, _, read_overrun, rfl, caret, read, blamed, line⟩

/-- The line shown is not the one in the row. -/
theorem exists_other_line : ∃ refusal place, empty.read (.ofText overrun) = .error refusal ∧
    (refusal.diagnostic "a.txt").location = some ⟨"a.txt", place⟩ ∧
    Text.lineAt? overrun place.row ≠ some place.line :=
  ⟨overrunRefusal, ⟨2, 7, " b */ x"⟩, read_overrun, rfl, by decide +kernel⟩

end Registry

end TableSchema
