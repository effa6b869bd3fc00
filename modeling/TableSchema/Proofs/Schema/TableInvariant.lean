import TableSchema.Proofs.Schema.Finish

/-!
Properties that every table has.

A table is set up when its file has been read, it may then take copies of keys for a link, as far as
they fit, and at the end of a run it gets its constraints. A property that is given at the first
moment and kept at the others (`Table.Invariant`) holds of every table of every reachable registry
and of every schema that a run ends in (`Registry.Reachable.forall_tables`). The copies are made of
keys of tables that have the property themselves, among them tables that hold copies already.
-/

namespace TableSchema

namespace Table

/-- The columns are copies, for the table of class `domain`, of keys of tables with the property
`P`. -/
def CopiesOf (P : Table → Prop) (domain : String) (cs : List Column) : Prop :=
  ∀ c ∈ cs, ∃ source key columnName, P source ∧ key ∈ source.keyColumns ∧
    c = key.linkClone domain columnName

/-- The table can take the columns `cs` for a link: it joins others and has no key yet, and `cs` are
copies of keys with names that are free. -/
structure Takes (P : Table → Prop) (t : Table) (cs : List Column) : Prop where
  holds : P t
  manyToMany : t.manyToMany = true
  keyless : t.keyColumns = []
  fits : t.Fits cs
  copies : CopiesOf P t.domain cs

/-- A property that tables get when they are set up, and keep. -/
structure Invariant (P : Table → Prop) : Prop where
  setup : ∀ {t : Table}, t.Declared → P t.setup
  extend : ∀ {t : Table} {cs : List Column}, t.Takes P cs → P (t.extend cs)
  link : ∀ {t : Table} {cs : List Column} (one two : String), t.Takes P cs →
    P ((t.extend cs).setEndpoints one two)
  attach : ∀ {t : Table} (constraints : List Constraint), P t → P (t.attached constraints)

theorem copiesOf_keyClones {P : Table → Prop} {t : Table} (h : P t) (link front : String) :
    CopiesOf P link (t.keyClones link front) := by
  intro c hc
  obtain ⟨key, hkey, rfl⟩ := List.mem_map.mp hc
  exact ⟨t, key, _, h, hkey, rfl⟩

end Table

namespace Registry

variable {P : Table → Prop} {r r' : Registry}

/-- The joining table of a link can take any of the copies that fit. -/
theorem Sound.takes (h : r.Sound) (holds : ∀ t ∈ r.tables, P t) {l : Link} {tables : LinkTables}
    {cs : List Column} (joins : r.Joins l tables) (fits : tables.joint.Fits cs)
    (copies : ∀ c ∈ cs, c ∈ l.clones tables) : tables.joint.Takes P cs := by
  obtain ⟨member, class'⟩ := h.indexed.find?_eq_some_iff.mp joins.joint
  have one := holds _ (h.indexed.find?_eq_some_iff.mp joins.one).1
  have two := holds _ (h.indexed.find?_eq_some_iff.mp joins.two).1
  refine ⟨holds _ member, (h.tables _ member).manyToMany_of_keyless joins.keyless, joins.keyless,
    fits, fun c hc => ?_⟩
  rw [class']
  rcases List.mem_append.mp (copies c hc) with first | second
  · exact Table.copiesOf_keyClones one _ _ c first
  · exact Table.copiesOf_keyClones two _ _ c second

/-- One call keeps what all tables have. -/
theorem Step.forall_tables (inv : Table.Invariant P) (h : r.Sound) (step : Step r r')
    (holds : ∀ t ∈ r.tables, P t) : ∀ t ∈ r'.tables, P t := by
  -- replacing the joining table by `u` leaves the other tables
  have replaced : ∀ {domain : String} {u : Table}, P u →
      ∀ t ∈ (r.modify domain fun _ => u).tables, P t := by
    intro domain u hu t ht
    rw [h.indexed.tables_modify] at ht
    obtain ⟨old, hold, rfl⟩ := List.mem_map.mp ht
    split
    · exact hu
    · exact holds old hold
  cases step with
  | stay => exact holds
  | add sound free =>
    rw [h.indexed.add_eq free]
    intro t ht
    rcases List.mem_append.mp ht with old | new
    · exact holds t old
    · obtain rfl := List.mem_singleton.mp new
      obtain ⟨u, declared, setup⟩ := sound.table
      exact setup ▸ inv.setup declared
  | clash joins fits copies => exact replaced (inv.extend (h.takes holds joins fits copies))
  | @link l tables joins fits =>
    exact replaced (inv.link l.one l.two (h.takes holds joins fits fun _ hc => hc))

theorem Sound.forall_tables (inv : Table.Invariant P) (h : r.Sound)
    (steps : Relation.ReflTransGen Step r r') (holds : ∀ t ∈ r.tables, P t) :
    ∀ t ∈ r'.tables, P t :=
  h.kept_along (P := fun r => ∀ t ∈ r.tables, P t) steps
    (fun sound step holds => step.forall_tables inv sound holds) holds

/-- What tables get and keep holds of all tables, in registries and in schemas. -/
theorem Reachable.forall_tables (inv : Table.Invariant P) (h : r.Reachable) :
    (∀ t ∈ r.tables, P t) ∧ ∀ g, r.finish = .ok g → ∀ t ∈ g.tables, P t := by
  have holds : ∀ t ∈ r.tables, P t :=
    sound_empty.forall_tables inv h.steps (by simp [empty])
  refine ⟨holds, fun g done t ht => ?_⟩
  obtain ⟨b, constraints, build, _, rfl⟩ := finish_eq_ok.mp done
  have steps := materializeAll_steps build
  rw [(h.sound.steps steps).indexed.tables_attachAll] at ht
  obtain ⟨u, hu, rfl⟩ := List.mem_map.mp ht
  exact inv.attach _ (h.sound.forall_tables inv steps holds u hu)

end Registry

end TableSchema
