import TableSchema.Proofs.Registry.Keyed

/-!
What calls leave in a registry.

A call that reads a new class registers one definition, and a call that builds a link declares two
foreign keys; no other call declares anything. The lists of what calls register and declare
(`registeredByAll`, `declaredByAll`, `synthesisedByAll`) tell where the content of a registry comes
from. Its tables have the classes that were registered, in that order (`Sound.domains_foldl_apply`),
and each of them came in at one moment of the run (`exists_moment`).
-/

namespace TableSchema.Registry

/-- The definition that a call registers, with the input from which it is read. -/
def registeredBy (r : Registry) : Call → Option (Scanner × Definition)
  | .read s =>
    match Definition.ofEvents r.find? s.events with
    | .ok (.fresh d) => some (s, d)
    | _ => none
  | .materialize _ => none

/-- The definitions that calls register, one after the other, with their inputs. -/
def registeredByAll : Registry → List Call → List (Scanner × Definition)
  | _, [] => []
  | r, call :: calls => (r.registeredBy call).toList ++ (r.apply call).registeredByAll calls

/-- The foreign keys that a call declares by reading a definition. -/
def declaredBy (r : Registry) : Call → List ForeignKey
  | .read s =>
    match Definition.ofEvents r.find? s.events with
    | .ok (.fresh d) => d.foreignKeys
    | _ => []
  | .materialize _ => []

/-- The foreign keys that calls declare by reading definitions, one after the other. -/
def declaredByAll : Registry → List Call → List ForeignKey
  | _, [] => []
  | r, call :: calls => r.declaredBy call ++ (r.apply call).declaredByAll calls

/-- The foreign keys that a call declares by building a link. -/
def synthesisedBy (r : Registry) : Call → List ForeignKey
  | .read _ => []
  | .materialize l =>
    match r.linkTables l, (r.materialize l).2 with
    | .ok tables, none => l.keys tables
    | _, _ => []

/-- The foreign keys that calls declare by building links, one after the other. -/
def synthesisedByAll : Registry → List Call → List ForeignKey
  | _, [] => []
  | r, call :: calls => r.synthesisedBy call ++ (r.apply call).synthesisedByAll calls

variable {r : Registry} {s : Scanner} {d : Definition} {l : Link}

/-! ## One call -/

theorem apply_read_of_fresh (events : Definition.ofEvents r.find? s.events = .ok (.fresh d)) :
    r.apply (.read s) = r.add d := by
  simp [apply, read, events]

theorem registeredBy_eq_some {call : Call} :
    r.registeredBy call = some (s, d) ↔
      call = .read s ∧ Definition.ofEvents r.find? s.events = .ok (.fresh d) := by
  cases call with
  | materialize l => simp [registeredBy]
  | read s' =>
    unfold registeredBy
    constructor
    · intro h
      dsimp only at h
      split at h
      · rename_i d' events
        cases h
        exact ⟨rfl, events⟩
      · cases h
    · rintro ⟨same, events⟩
      cases same
      simp [events]

/-- The registry reads nothing new in an input, or it registers a definition. -/
theorem registeredBy_read_cases (r : Registry) (s : Scanner) :
    (r.registeredBy (.read s) = none ∧ r.declaredBy (.read s) = [] ∧ r.apply (.read s) = r) ∨
    ∃ d, d.Sound ∧ r.find? d.table.domain = none ∧ r.registeredBy (.read s) = some (s, d) ∧
      r.declaredBy (.read s) = d.foreignKeys ∧ r.apply (.read s) = r.add d := by
  cases events : Definition.ofEvents r.find? s.events with
  | error refusal => exact .inl (by simp [registeredBy, declaredBy, apply, read, events])
  | ok reading =>
    cases reading with
    | registered t => exact .inl (by simp [registeredBy, declaredBy, apply, read, events])
    | fresh d =>
      obtain ⟨sound, free⟩ := Definition.ofEvents_sound events
      exact .inr ⟨d, sound, free, by simp [registeredBy, declaredBy, apply, read, events]⟩

theorem synthesisedBy_of_some {dangling : Dangling}
    (refused : (r.materialize l).2 = some dangling) :
    r.synthesisedBy (.materialize l) = [] := by
  simp only [synthesisedBy, refused]
  cases r.linkTables l <;> rfl

theorem synthesisedBy_of_fits {tables : LinkTables} (joins : r.Joins l tables)
    (fits : tables.joint.Fits (l.clones tables)) :
    r.synthesisedBy (.materialize l) = l.keys tables := by
  simp only [synthesisedBy, linkTables_eq_ok.mpr joins, materialize_of_fits joins fits]

/-- A call adds the foreign keys that it declares, and no others. -/
theorem Indexed.foreignKeys_apply (h : r.Indexed) (call : Call) :
    (r.apply call).foreignKeys =
      r.foreignKeys ++ (r.declaredBy call ++ r.synthesisedBy call) := by
  cases call with
  | read s =>
    rcases r.registeredBy_read_cases s with ⟨_, none, same⟩ | ⟨d, _, free, _, keys, after⟩
    · rw [same, none]
      exact (List.append_nil _).symm
    · rw [after, keys, h.add_eq free]
      simp [synthesisedBy]
  | materialize l =>
    show (r.materialize l).1.foreignKeys = r.foreignKeys ++ ([] ++ _)
    rcases materialize_cases r l with ⟨_, _, refused⟩ |
      ⟨tables, front, c, back, _, _, _, _, _, _, stuck⟩ | ⟨tables, joins, fits, built⟩
    · rw [synthesisedBy_of_some (congrArg Prod.snd refused), refused]
      simp
    · rw [synthesisedBy_of_some (congrArg Prod.snd stuck), stuck]
      simp
    · rw [synthesisedBy_of_fits joins fits, built]
      rfl

/-- A call adds the class that it registers, if it registers one, and keeps the others. -/
theorem Indexed.domains_apply (h : r.Indexed) (call : Call) :
    (r.apply call).tables.map Table.domain =
      r.tables.map Table.domain ++
        ((r.registeredBy call).toList.map fun entry => entry.2.table.domain) := by
  cases call with
  | read s =>
    rcases r.registeredBy_read_cases s with ⟨none, _, same⟩ | ⟨d, _, free, some', _, after⟩
    · rw [same, none]
      exact (List.append_nil _).symm
    · rw [after, some', h.add_eq free]
      simp
  | materialize l =>
    show (r.materialize l).1.tables.map Table.domain = r.tables.map Table.domain ++ []
    rw [List.append_nil]
    rcases materialize_cases r l with ⟨_, _, refused⟩ |
      ⟨tables, front, c, back, _, joins, _, _, _, _, stuck⟩ | ⟨tables, joins, _, built⟩
    · rw [refused]
    · rw [stuck]
      exact h.domains_modify fun _ _ _ => (h.find?_eq_some_iff.mp joins.joint).2
    · rw [built]
      exact h.domains_link joins

/-! ## A sequence of calls -/

/-- The tables of a registry have the classes that were registered, in this order. -/
theorem Sound.domains_foldl_apply (h : r.Sound) (calls : List Call) :
    (calls.foldl apply r).tables.map Table.domain =
      r.tables.map Table.domain ++
        ((r.registeredByAll calls).map fun entry => entry.2.table.domain) := by
  induction calls generalizing r with
  | nil => exact (List.append_nil _).symm
  | cons call calls ih =>
    rw [List.foldl_cons, ih (h.step (step_apply r call)), h.indexed.domains_apply, registeredByAll,
      List.map_append, List.append_assoc]

/-- A run in which a definition is registered goes on from the registry with this definition. -/
theorem run_read_of_fresh {before : List Call}
    (events : Definition.ofEvents (run before).find? s.events = .ok (.fresh d))
    (after : List Call) :
    run (before ++ .read s :: after) = after.foldl apply ((run before).add d) := by
  rw [← apply_read_of_fresh events]
  exact List.foldl_append

/-- Every definition was registered at one moment of the run, when its class was new. -/
theorem exists_moment {calls : List Call} (h : (s, d) ∈ r.registeredByAll calls) :
    ∃ before after, calls = before ++ .read s :: after ∧
      Definition.ofEvents (before.foldl apply r).find? s.events = .ok (.fresh d) := by
  induction calls generalizing r with
  | nil => cases h
  | cons call calls ih =>
    rcases List.mem_append.mp h with now | later
    · obtain ⟨rfl, events⟩ := registeredBy_eq_some.mp (Option.mem_toList.mp now)
      exact ⟨[], calls, rfl, events⟩
    · obtain ⟨before, after, rfl, events⟩ := ih later
      exact ⟨call :: before, after, rfl, events⟩

/-- Every table of a run was registered at one moment of it. -/
theorem exists_registered {calls : List Call} {t : Table} (ht : t ∈ (run calls).tables) :
    ∃ s d, (s, d) ∈ empty.registeredByAll calls ∧ d.table.domain = t.domain := by
  have classes := sound_empty.domains_foldl_apply calls
  have named : t.domain ∈ (run calls).tables.map Table.domain := List.mem_map_of_mem ht
  rw [run, classes] at named
  obtain ⟨⟨s, d⟩, member, same⟩ := List.mem_map.mp named
  exact ⟨s, d, member, same⟩

end TableSchema.Registry
