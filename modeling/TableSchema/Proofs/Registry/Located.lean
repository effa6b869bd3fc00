import TableSchema.Proofs.Definition.Blame
import TableSchema.Proofs.Definition.Front
import TableSchema.Proofs.Registry.ReadEffect
import TableSchema.Proofs.Text.Bytes
import TableSchema.Proofs.Token.Columns
import TableSchema.Schema

/-!
Where a message points.

A refusal has a place unless the input cannot be read, and what is wrong between tables has none. A
place is on a line of the input, or right behind it: the token that is blamed begins there, or the
input ends there (`diagnostics_located`). Lines that are no text are in no one's way, because
nothing behind the first of them is looked at (`exists_front_of_refused`).
-/

namespace TableSchema

open Text (SourceLine texts)

namespace Definition

variable {registered : String → Option Table} {source : List SourceLine} {events : List Event}
  {refusal : Refusal} {place : Place}

/-- The place is on a line of the input, or right behind it. An input without lines counts as one
empty line. -/
structure OnLine (source : List SourceLine) (place : Place) : Prop where
  row_pos : 1 ≤ place.row
  row_le : place.row ≤ max 1 source.length
  col_pos : 1 ≤ place.col
  col_le : ∃ line, (source[place.row - 1]? = some (.readable line) ∨ source = [] ∧ line = []) ∧
    place.col ≤ line.length + 1

/-- A place on the line of a row. -/
theorem onLine_of_getElem? {line : List Char} (pos : 0 < place.row) (col_pos : 1 ≤ place.col)
    (here : source[place.row - 1]? = some (.readable line)) (col_le : place.col ≤ line.length + 1) :
    OnLine source place := by
  obtain ⟨inside, _⟩ := List.getElem?_eq_some_iff.mp here
  have order := Nat.le_max_right 1 source.length
  exact ⟨pos, by omega, col_pos, line, .inl here, col_le⟩

theorem OnLine.of_prefix {front : List SourceLine} (h : OnLine front place)
    (isPrefix : front <+: source) (empty : front = [] → source = []) : OnLine source place := by
  obtain ⟨line, here | ⟨rfl, rfl⟩, col_le⟩ := h.col_le
  · obtain ⟨back, rfl⟩ := isPrefix
    have inside := (List.getElem?_eq_some_iff.mp here).1
    refine onLine_of_getElem? h.row_pos h.col_pos ?_ col_le
    rw [List.getElem?_append_left inside]
    exact here
  · obtain rfl := empty rfl
    exact h

section

variable (readable : .unreadable ∉ source) (unbroken : ∀ cs, .readable cs ∈ source → '\n' ∉ cs)

include readable

/-- A place on the line with which a scanner keeps a row. -/
theorem onLine_of_texts {line : List Char} (pos : 0 < place.row) (col_pos : 1 ≤ place.col)
    (here : ([] :: texts source)[place.row]? = some line) (col_le : place.col ≤ line.length + 1) :
    OnLine source place := by
  obtain ⟨before, row⟩ := Nat.exists_eq_succ_of_ne_zero pos.ne'
  rw [row, List.getElem?_cons_succ] at here
  refine onLine_of_getElem? pos col_pos ?_ col_le
  rw [row]
  exact Text.getElem?_of_texts readable here

include unbroken

theorem onLine_endPlace : OnLine source (endPlace (Scanner.ofLines source).events) := by
  unfold endPlace
  cases last : (Scanner.ofLines source).events.getLast? with
  | none =>
    obtain rfl := Scanner.events_ofLines_eq_nil (List.getLast?_eq_none_iff.mp last)
    exact ⟨Nat.le_refl _, Nat.le_refl _, Nat.le_refl _, [], .inr ⟨rfl, rfl⟩, Nat.le_refl _⟩
  | some event =>
    have stands := ((Scanner.follows_ofLines source).events unbroken).1 event
      (List.mem_of_getLast? last)
    have pos := stands.row_pos_of_readable readable
    dsimp only
    rw [Nat.max_eq_left pos]
    exact onLine_of_texts readable pos (Nat.succ_pos _) stands.line (Nat.le_refl _)

/-- A refusal of lines of text is on one of them. -/
theorem onLine_of_refused
    (refused : ofEvents registered (Scanner.ofLines source).events = .error refusal)
    (located : refusal.place? = some place) : OnLine source place := by
  rcases ofEvents_refused refused with ⟨e, he, among⟩ | rfl
  · obtain ⟨read, inside, first, last, head, _, rfl⟩ := among place located
    have follows := Scanner.follows_ofLines source
    have tokens := follows.onLine_events unbroken
    have stands := (follows.events unbroken).1
    have onLine : first.token.OnLine source := by
      have mem : first ∈ e.seens := inside.subset (List.mem_of_head? head)
      refine forall_seens_ofEvents (fun event hevent t reply => ?_) e he first mem
      -- an end of line that the input lacks stands behind the last token
      have here := stands event hevent
      exact ⟨tokens event hevent t reply, here.row_pos reply, event.line, here.line, Nat.le_refl _⟩
    obtain ⟨pos, line, here, col⟩ := onLine
    exact onLine_of_texts readable pos (Nat.succ_pos _) here (Nat.succ_le_succ col)
  · obtain rfl := Option.some.inj located
    exact onLine_endPlace readable unbroken

end

/-- A refusal that has a place is one of the lines in front of the first that is no text. -/
theorem exists_front_of_refused
    (refused : ofEvents registered (Scanner.ofLines source).events = .error refusal)
    (located : refusal.place? = some place) :
    ∃ front, front <+: source ∧ .unreadable ∉ front ∧ (front = [] → source = []) ∧
      ofEvents registered (Scanner.ofLines front).events = .error refusal := by
  by_cases lost : .unreadable ∈ source
  · obtain ⟨front, back, rfl, readable⟩ := List.eq_append_cons_of_mem lost
    have decides := @decides_ofLines registered _ (.unreadable :: back) readable
    rw [refused] at decides
    obtain ⟨same, plain⟩ := decides.of_located located rfl
    refine ⟨front, List.prefix_append _ _, readable, ?_, same⟩
    rintro rfl
    cases same
    exact absurd rfl plain
  · exact ⟨source, List.prefix_rfl, lost, id, refused⟩

/-- A refusal has a place, unless the input cannot be read. -/
theorem Refusal.location_isSome (refusal : Refusal) (file : String) :
    let d := refusal.diagnostic file
    (d.location.isSome ↔ d.category = .lex ∨ d.category = .grammar ∨ d.category = .reference) ∧
      (d.location = none ↔ d.category = .io) := by
  cases refusal <;> simp [Refusal.diagnostic]

end Definition

namespace Registry

/-- A message about an input has a location exactly if it is not that the input cannot be read. The
location is in the file of the given name and on a line of the input, or right behind it. A message
about what is wrong between tables is about a reference and has no location. -/
theorem diagnostics_located (r : Registry) :
    (∀ bytes file refusal, r.read (.ofBytes bytes) = .error refusal →
      let d := refusal.diagnostic file
      (d.location.isSome ↔ d.category = .lex ∨ d.category = .grammar ∨ d.category = .reference) ∧
      (d.location = none ↔ d.category = .io) ∧
      ∀ name place, d.location = some ⟨name, place⟩ →
        name = file ∧ Definition.OnLine (SourceLine.ofBytes bytes) place) ∧
    ∀ dangling : Dangling, (∃ key, r.resolve key = .error dangling) ∨
        (∃ l, (r.materialize l).2 = some dangling) ∨ r.finish = .error dangling →
      dangling.diagnostic.category = .reference ∧ dangling.diagnostic.location = none := by
  refine ⟨fun bytes file refusal refused => ?_, fun _ _ => ⟨rfl, rfl⟩⟩
  obtain ⟨hasLocation, hasNone⟩ := refusal.location_isSome file
  refine ⟨hasLocation, hasNone, fun name place located => ?_⟩
  rw [Definition.Refusal.location_eq] at located
  obtain ⟨place', found, same⟩ := Option.map_eq_some_iff.mp located
  obtain ⟨rfl, rfl⟩ := Location.mk.inj same
  obtain ⟨front, isPrefix, readable, empty, refused⟩ :=
    Definition.exists_front_of_refused (read_eq_error.mp refused) found
  have unbroken : ∀ cs, .readable cs ∈ front → '\n' ∉ cs :=
    fun _ inside => SourceLine.unbroken_ofBytes (isPrefix.subset inside)
  have onLine := Definition.onLine_of_refused readable unbroken refused found
  exact ⟨rfl, onLine.of_prefix isPrefix empty⟩

/-- A comment over two lines, a word in the wrong place, and a line that is no text. -/
def misplacedBytes : List UInt8 := [47, 42, 13, 10, 42, 47, 32, 120, 13, 10, 255]

/-- The refusal of the word. -/
def misplacedRefusal : Definition.Refusal :=
  .grammar (.headerExpected ⟨.word, "x", 2, 3⟩) ⟨2, 4, "*/ x"⟩

theorem diagnostics_located_misplaced :
    (empty.read (.ofBytes misplacedBytes) = .error misplacedRefusal ∧
      Definition.OnLine (SourceLine.ofBytes misplacedBytes) ⟨2, 4, "*/ x"⟩) ∧
    ∃ dangling, empty.resolve ⟨"A", ["x"], "B", ["y"]⟩ = .error dangling ∧
      dangling.diagnostic.location = none := by
  obtain ⟨refusals, danglings⟩ := diagnostics_located empty
  have refused : empty.read (.ofBytes misplacedBytes) = .error misplacedRefusal := by decide +kernel
  obtain ⟨_, _, places⟩ := refusals misplacedBytes "a.txt" misplacedRefusal refused
  have missing : empty.resolve ⟨"A", ["x"], "B", ["y"]⟩ = .error (.tableMissing "A" "B") := rfl
  exact ⟨⟨refused, (places "a.txt" _ rfl).2⟩, _, missing, (danglings _ (.inl ⟨_, missing⟩)).2⟩

end Registry

end TableSchema
