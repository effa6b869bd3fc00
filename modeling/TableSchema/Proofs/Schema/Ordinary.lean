import TableSchema.Proofs.Registry.History
import TableSchema.Proofs.Schema.LinkKeys

/-!
Tables that join no others.

Building a link never looks whether its table was declared as one that joins others. It only asks
whether the table has keys, before it changes anything. That is enough: the end of a definition
gives a key to every table without a link line, and a table with a key stays as it is
(`Sound.find?_of_keyed`). So no call, whatever link it is given, alters such a table, and none finds
it without the key that an end of a link needs (`Keeps`). Only the constraints that leave it are
attached to it when the run ends.
-/

namespace TableSchema.Registry

/-- The registry holds the table `t` and cannot alter it. As the table of a link it is refused, with
no effect on the registry; as an end of a link it is not refused for want of a key, neither by a
call nor at the end of the run; and the end of the run gives it constraints and nothing else. -/
structure Keeps (r : Registry) (t : Table) : Prop where
  found : r.find? t.domain = some t
  refused : ∀ l : Link, l.table = t.domain → ∃ dangling,
    r.materialize l = (r, some dangling) ∧ dangling.diagnostic.isReference = true
  joined : ∀ l joint, (r.materialize l).2 ≠ some (.endpointKeyless t.domain joint)
  joined_finish : ∀ joint, r.finish ≠ .error (.endpointKeyless t.domain joint)
  finished : ∀ g, r.finish = .ok g →
    ∃ constraints, g.table? t.domain = some { t with foreignKeys := constraints }

variable {r : Registry} {l : Link} {links : List Link} {domain joint : String} {d : Dangling}

/-! ## Ends without a key -/

theorem keyless_of_keyed {link other : String}
    (h : r.keyed link other = .error (.endpointKeyless domain joint)) :
    ∃ t, r.find? domain = some t ∧ t.keyColumns = [] := by
  unfold keyed at h
  split at h
  · cases h
  · rename_i t found
    split at h
    · rename_i keyless
      cases h
      exact ⟨t, found, List.isEmpty_iff.mp keyless⟩
    · cases h

/-- A link is refused for an end without a key only where there is one. -/
theorem keyless_of_materialize
    (h : (r.materialize l).2 = some (.endpointKeyless domain joint)) :
    ∃ t, r.find? domain = some t ∧ t.keyColumns = [] := by
  unfold materialize at h
  split at h
  · rename_i dangling tables
    obtain rfl := Option.some.inj h
    unfold linkTables at tables
    split at tables
    · cases tables
    · split at tables
      · rcases Except.bind_eq_error.mp tables with one | ⟨_, _, rest⟩
        · exact keyless_of_keyed one
        · rcases Except.bind_eq_error.mp rest with two | ⟨_, _, done⟩
          · exact keyless_of_keyed two
          · cases done
      · cases tables
  · dsimp only at h
    split at h <;> cases h

/-- A sequence of links fails with one of them, at some point of the run. -/
theorem exists_of_materializeAll_eq_error (h : r.materializeAll links = .error d) :
    ∃ b l, Relation.ReflTransGen Step r b ∧ (b.materialize l).2 = some d := by
  induction links generalizing r with
  | nil => cases h
  | cons l links ih =>
    rw [materializeAll] at h
    have step := step_materialize r l
    split at h
    · rename_i dangling failed
      cases h
      exact ⟨r, l, .refl, by rw [failed]⟩
    · rename_i after built
      rw [built] at step
      obtain ⟨b, m, steps, failed⟩ := ih h
      exact ⟨b, m, .head step steps, failed⟩

theorem eq_fieldMissing_of_columnNames {t : Table} {fields : List String}
    (h : t.columnNames fields = .error d) : ∃ field, d = .fieldMissing field t.domain := by
  induction fields with
  | nil => cases h
  | cons field fields ih =>
    rw [Table.columnNames] at h
    split at h
    · cases h
      exact ⟨field, rfl⟩
    · rcases Except.bind_eq_error.mp h with rest | ⟨_, _, done⟩
      · exact ih rest
      · cases done

/-- Resolving a foreign key does not look at keys. -/
theorem resolve_ne_endpointKeyless (key : ForeignKey) :
    r.resolve key ≠ .error (.endpointKeyless domain joint) := by
  intro h
  unfold resolve at h
  split at h
  · rcases Except.bind_eq_error.mp h with failed | ⟨_, _, h⟩
    · obtain ⟨_, other⟩ := eq_fieldMissing_of_columnNames failed
      cases other
    · rcases Except.bind_eq_error.mp h with failed | ⟨_, _, h⟩
      · obtain ⟨_, other⟩ := eq_fieldMissing_of_columnNames failed
        cases other
      · split at h <;> cases h
  · cases h

/-- A run ends for want of a key only where an end of a link has no key when the link is built. -/
theorem keyless_of_finish (h : r.finish = .error (.endpointKeyless domain joint)) :
    ∃ b t, Relation.ReflTransGen Step r b ∧ b.find? domain = some t ∧ t.keyColumns = [] := by
  rcases finish_eq_error h with build | ⟨built, _, key, _, failed⟩
  · obtain ⟨b, l, steps, failed⟩ := exists_of_materializeAll_eq_error build
    obtain ⟨t, found, keyless⟩ := keyless_of_materialize failed
    exact ⟨b, t, steps, found, keyless⟩
  · exact absurd failed (resolve_ne_endpointKeyless key)

/-! ## Tables with a key -/

/-- A table with a key is refused as the table of a link. -/
theorem materialize_of_keyed {t : Table} (found : r.find? l.table = some t)
    (keyed : t.keyColumns ≠ []) : r.materialize l = (r, some (.linkTableKeyed l.table)) := by
  have tables : r.linkTables l = .error (.linkTableKeyed l.table) := by
    simp [linkTables, found, keyed]
  rw [materialize, tables]

/-- A registry cannot alter a table for which no link is declared. -/
theorem Sound.keeps (h : r.Sound) {t : Table} (ht : t ∈ r.tables)
    (ordinary : t.manyToMany = false) :
    r.Keeps t := by
  have found : r.find? t.domain = some t := h.indexed.find?_domain ht
  have keyed : t.keyColumns ≠ [] := (h.tables t ht).keyed ordinary
  refine ⟨found, fun l same => ?_, fun l joint failed => ?_, fun joint failed => ?_,
    fun g done => ?_⟩
  · rw [← same] at found
    exact ⟨_, materialize_of_keyed found keyed, rfl⟩
  · obtain ⟨u, found', keyless⟩ := keyless_of_materialize failed
    obtain rfl := Option.some.inj (found.symm.trans found')
    exact keyed keyless
  · obtain ⟨b, u, steps, found', keyless⟩ := keyless_of_finish failed
    rw [h.find?_of_keyed steps found keyed] at found'
    obtain rfl := Option.some.inj found'
    exact keyed keyless
  · obtain ⟨b, finished⟩ := h.finished done
    have undeclared : t.domain ∉ r.links.map Link.table := by
      intro declared
      obtain ⟨l, hl, same⟩ := List.mem_map.mp declared
      rw [(h.manyToMany_iff ht).mpr ⟨l, hl, same⟩] at ordinary
      cases ordinary
    have kept : b.find? t.domain = some t := (finished.built.unlinked _ undeclared).trans found
    exact ⟨_, by rw [finished.table?_eq, kept]; rfl⟩

/-- A table that is declared without a link stays as it was registered, whatever is read or built
before and after that. -/
theorem keeps_of_registered {calls : List Call} {s : Scanner} {d : Definition}
    (registered : (s, d) ∈ empty.registeredByAll calls) (ordinary : d.link = none) :
    (run calls).Keeps d.table := by
  obtain ⟨before, after, rfl, events⟩ := exists_moment registered
  have sound : (run before).Sound := Reachable.sound ⟨before, rfl⟩
  obtain ⟨declared, free⟩ := Definition.ofEvents_sound events
  have unlinked : d.table.manyToMany = false := by
    have link := declared.link
    rw [ordinary] at link
    cases joins : d.table.manyToMany with
    | false => rfl
    | true => simp [Table.linkClass?, joins] at link
  rw [run_read_of_fresh events]
  -- the table has a key from the start, and so it is still there
  have sound' : ((run before).add d).Sound := sound.add declared free
  have member : d.table ∈ ((run before).add d).tables := by
    rw [sound.indexed.add_eq free]
    simp
  have keyed : d.table.keyColumns ≠ [] := (sound'.tables _ member).keyed unlinked
  have steps := steps_foldl_apply after ((run before).add d)
  have kept := sound'.find?_of_keyed steps (sound'.indexed.find?_domain member) keyed
  exact (sound'.steps steps).keeps
    ((sound'.steps steps).indexed.find?_eq_some_iff.mp kept).1 unlinked

/-- A table `a` that is an end of a link and the end of a foreign key, and that a call tries to make
the table of a link. -/
def misdirected : List Call :=
  [.read (.ofText ("[Settings]\nCLASS a\n[Fields]\nDATE ? on\n" ++
      "[ForeignKeys]\non constrainsTo b.at\n")),
    .read (.ofText "[Settings]\nCLASS l\nLINK a b\n"),
    .read (.ofText "[Settings]\nCLASS b\n[Fields]\nDATE ! at\n"),
    .materialize ⟨"A", "A", "B"⟩]

theorem keeps_of_registered_misdirected :
    ∃ s d, (s, d) ∈ empty.registeredByAll misdirected ∧ d.table.domain = "A" ∧ d.link = none ∧
      (run misdirected).Keeps d.table ∧ (run misdirected).finish.isOk = true := by
  have registered : (empty.registeredByAll misdirected).map
      (fun entry => (entry.2.table.domain, entry.2.link)) =
        [("A", none), ("L", some ⟨"L", "A", "B"⟩), ("B", none)] := by
    decide +kernel
  have first : ("A", none) ∈ (empty.registeredByAll misdirected).map
      fun entry => (entry.2.table.domain, entry.2.link) := by
    rw [registered]
    exact List.mem_cons_self
  obtain ⟨⟨s, d⟩, member, same⟩ := List.mem_map.mp first
  obtain ⟨named, ordinary⟩ := Prod.mk.inj same
  exact ⟨s, d, member, named, ordinary, keeps_of_registered member ordinary, by decide +kernel⟩

end TableSchema.Registry
