import TableSchema.Proofs.Registry.Reachable

/-!
What reading one input does.

An input is refused, or given up for a class that is registered, and then the registry stays as it
is; or it adds one table of a new class, with a link if the table joins others and with foreign keys
that leave it (`Registry.Adds`). Which of these happens depends on the registry in one point only:
whether the class that the input asks for (`Scanner.askedClass?`) is registered. Where it is not, an
input adds the same, or is refused for the same reason, as anywhere else (`read_effect`).
-/

namespace TableSchema

/-- The class for which an input asks the registry, if it asks for one. It is the class for which a
registry of all classes would give the input up. -/
def Scanner.askedClass? (s : Scanner) : Option String :=
  match Definition.ofEvents (fun domain => some (Table.empty domain "")) s.events with
  | .ok (.registered t) => some t.domain
  | _ => none

/-- An input is given up where the class that it asks for is registered, and gives the same result
everywhere else. A definition has the class that was asked for. -/
theorem Scanner.exists_outcome (s : Scanner) : ∃ alone,
    (∀ registered, Definition.ofEvents registered s.events =
      Definition.Reading.given (s.askedClass?.bind registered) alone) ∧
    ∀ d, alone = .ok d → s.askedClass? = some d.table.domain := by
  obtain ⟨asked, alone, eq, named⟩ := Definition.exists_asks_ofEvents s.events
  have same : s.askedClass? = asked := by
    unfold askedClass?
    rw [eq]
    cases asked with
    | some domain => rfl
    | none => cases alone <;> rfl
  rw [same]
  exact ⟨alone, eq, named⟩

namespace Registry

/-- Reading the input adds the definition `d` to the registry and leads to `after`: one table of a
new class at the end, which is given back, a link for this table if it joins others, and foreign
keys that leave it. All that was there before stays. -/
structure Adds (r : Registry) (s : Scanner) (d : Definition) (after : Registry) : Prop where
  read : r.read s = .ok (d.table, after)
  new : r.contains d.table.domain = false
  tables : after.tables = r.tables ++ [d.table]
  positions : after.positions = (d.table.domain, r.tables.length) :: r.positions
  links : after.links = r.links ++ d.link.toList
  link : d.link.map Link.table = if d.table.manyToMany then some d.table.domain else none
  foreignKeys : after.foreignKeys = r.foreignKeys ++ d.foreignKeys
  leaves : ∀ key ∈ d.foreignKeys, key.fromTable = d.table.domain

variable {r other : Registry} {s : Scanner} {d : Definition} {domain : String}

theorem find?_of_not_contains (absent : r.contains domain = false) : r.find? domain = none := by
  have position : r.position? domain = none := by simpa [contains] using absent
  rw [find?, position, Option.bind_none]

theorem Indexed.adds_of_ofEvents (h : r.Indexed)
    (events : Definition.ofEvents r.find? s.events = .ok (.fresh d)) :
    r.Adds s d (r.add d) := by
  obtain ⟨⟨link, _, foreignKeys⟩, free⟩ := Definition.ofEvents_sound events
  have added := h.add_eq free
  refine ⟨?_, h.contains_eq_false free, ?_, ?_, ?_, link, ?_, fun key hkey =>
    (foreignKeys key hkey).fromTable⟩
  · rw [read, events]
    rfl
  all_goals rw [added]

theorem read_eq_error {refusal : Definition.Refusal} :
    r.read s = .error refusal ↔ Definition.ofEvents r.find? s.events = .error refusal := by
  unfold read
  cases Definition.ofEvents r.find? s.events with
  | error _ => simp
  | ok reading => cases reading <;> simp

/-- What an input adds is the definition that is read in it. -/
theorem Indexed.ofEvents_of_adds (h : r.Indexed) {after : Registry} (adds : r.Adds s d after) :
    Definition.ofEvents r.find? s.events = .ok (.fresh d) := by
  rcases read_eq_ok adds.read with ⟨same, _⟩ | ⟨d', events, table, added⟩
  · -- one table more cannot be the same tables
    have length := congrArg List.length adds.tables
    rw [same] at length
    simp at length
  · rw [h.add_eq (Definition.ofEvents_sound events).2] at added
    have links : r.links ++ d'.link.toList = r.links ++ d.link.toList := by
      rw [← adds.links, added]
    have keys : r.foreignKeys ++ d'.foreignKeys = r.foreignKeys ++ d.foreignKeys := by
      rw [← adds.foreignKeys, added]
    have link : d'.link = d.link := by
      simpa using congrArg List.head? (List.append_cancel_left links)
    have foreignKeys : d'.foreignKeys = d.foreignKeys := List.append_cancel_left keys
    obtain rfl : d' = d := by
      show Definition.mk d'.table d'.link d'.foreignKeys = d
      rw [← table, link, foreignKeys]
    exact events

/-- Reading an input leaves the registry as it is, because the input is refused or because the class
that it asks for is registered, or it adds a definition. In any other registry without this class it
adds the same definition, and an input that is refused is refused for the same reason. -/
theorem read_effect (h : r.Indexed) (s : Scanner) :
    ((∃ refusal, r.read s = .error refusal ∧ r.apply (.read s) = r) ∨
      (∃ domain t, s.askedClass? = some domain ∧ r.find? domain = some t ∧
        r.read s = .ok (t, r)) ∨
      ∃ d after, s.askedClass? = some d.table.domain ∧ r.Adds s d after) ∧
    (∀ d after, r.Adds s d after → ∀ other : Registry, other.Indexed →
      other.contains d.table.domain = false → ∃ after', other.Adds s d after') ∧
    ∀ refusal, r.read s = .error refusal → ∀ other : Registry,
      (∀ domain, s.askedClass? = some domain → other.contains domain = false) →
      other.read s = .error refusal := by
  obtain ⟨alone, outcome, named⟩ := s.exists_outcome
  refine ⟨?_, fun d after adds other indexed absent => ?_, fun refusal refused other absent => ?_⟩
  · cases taken : s.askedClass?.bind r.find? with
    | some t =>
      obtain ⟨domain, asked, found⟩ := Option.bind_eq_some_iff.mp taken
      refine .inr (.inl ⟨domain, t, asked, found, ?_⟩)
      rw [read, outcome, taken]
      rfl
    | none =>
      cases alone with
      | error refusal =>
        have refused : r.read s = .error refusal := by
          rw [read, outcome, taken]
          rfl
        exact .inl ⟨refusal, refused, by simp [apply, refused]⟩
      | ok d =>
        have events : Definition.ofEvents r.find? s.events = .ok (.fresh d) := by
          rw [outcome, taken]
          rfl
        exact .inr (.inr ⟨d, r.add d, named d rfl, h.adds_of_ofEvents events⟩)
  · have events := h.ofEvents_of_adds adds
    exact ⟨other.add d, indexed.adds_of_ofEvents
      (Definition.ofEvents_congr events (find?_of_not_contains absent))⟩
  · rw [read_eq_error, outcome, Definition.Reading.given_eq_error] at refused ⊢
    refine ⟨?_, refused.2⟩
    cases asked : s.askedClass? with
    | none => rfl
    | some domain => exact find?_of_not_contains (absent domain asked)

/-- A class `A` that has been read. -/
def single : List Call := [.read (.ofText "[Settings]\nCLASS a\n")]

/-- A link of `A` with itself, with a foreign key of its own. -/
def pairing : Scanner :=
  .ofText ("[Settings]\nCLASS p\nLINK a a\n[Fields]\nLONG(9) x\n" ++
    "[ForeignKeys]\nx constrainsTo a.key\n")

/-- A field without a name, behind the class line. -/
def unfinished : Scanner := .ofText "[Settings]\nCLASS q\n[Fields]\nDATE\n"

theorem read_effect_pairing :
    (∃ d after, (run single).Adds pairing d after ∧ ∃ after', empty.Adds pairing d after') ∧
    ∃ refusal, (run single).read unfinished = .error refusal ∧
      empty.read unfinished = .error refusal := by
  have indexed : (run single).Indexed := (Reachable.sound ⟨single, rfl⟩).indexed
  constructor
  · obtain ⟨outcome, elsewhere, _⟩ := read_effect indexed pairing
    have facts : ((run single).read pairing).isOk = true ∧ pairing.askedClass? = some "P" ∧
        (run single).find? "P" = none := by
      decide +kernel
    obtain ⟨succeeds, asks, free⟩ := facts
    rcases outcome with ⟨refusal, refused, _⟩ | ⟨domain, t, asked, found, _⟩ | ⟨d, after, _, adds⟩
    · rw [refused] at succeeds
      cases succeeds
    · obtain rfl := Option.some.inj (asks.symm.trans asked)
      cases free.symm.trans found
    · exact ⟨d, after, adds, elsewhere d after adds empty indexed_empty rfl⟩
  · obtain ⟨_, _, elsewhere⟩ := read_effect indexed unfinished
    have fails : ((run single).read unfinished).isOk = false := by decide +kernel
    cases refused : (run single).read unfinished with
    | ok result =>
      rw [refused] at fails
      cases fails
    | error refusal => exact ⟨refusal, rfl, elsewhere refusal refused empty fun _ _ => rfl⟩

end Registry

end TableSchema
