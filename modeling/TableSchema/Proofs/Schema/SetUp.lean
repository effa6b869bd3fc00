import TableSchema.Proofs.Schema.TableInvariant

/-!
Tables stay set up.

A table is set up once, when its file has been read. The columns of a link come later, one by one,
and each extends the search fields by itself, also when a clash ends the building half-way. Still
setting a table up again would change nothing at any time (`Table.SetUp`): copies are only put into
tables that join others, where no key has to stand in front, and what they add to the search fields
is what setting the table up would collect.
-/

namespace TableSchema

namespace Table

/-- Setting the table up would change nothing. Its search fields are those of its columns, and a key
stands in front unless one of the links is declared for it. -/
structure SetUp (links : List Link) (t : Table) : Prop where
  setup : t.setup = t
  searchFields : t.searchFields = searchable t.columns
  keyFirst : (∀ l ∈ links, l.table ≠ t.domain) →
    ∃ key rest, t.columns = key :: rest ∧ key.isKey = true

variable {t : Table}

/-- Columns that are put into a table extend its search fields as setting it up would. -/
theorem setup_extend (h : t.setup = t) (joins : t.manyToMany = true) (cs : List Column) :
    (t.extend cs).setup = t.extend cs := by
  obtain ⟨fields, _⟩ := setup_eq_self_iff.mp h
  refine setup_eq_self_iff.mpr ⟨?_, fun ordinary => nomatch joins.symm.trans ordinary⟩
  show t.searchFields ++ searchable cs = searchable (t.columns ++ cs)
  rw [fields]
  simp [searchable]

theorem setup_setEndpoints (h : t.setup = t) (one two : String) :
    (t.setEndpoints one two).setup = t.setEndpoints one two := by
  obtain ⟨fields, _⟩ := setup_eq_self_iff.mp h
  exact setup_eq_self_iff.mpr ⟨fields, nofun⟩

theorem setup_attached (h : t.setup = t) (constraints : List Constraint) :
    (t.attached constraints).setup = t.attached constraints := by
  obtain ⟨fields, front⟩ := setup_eq_self_iff.mp h
  exact setup_eq_self_iff.mpr ⟨fields, front⟩

theorem invariant_setup : Invariant fun t => t.setup = t where
  setup _ := setup_setup _
  extend takes := setup_extend takes.holds takes.manyToMany _
  link one two takes := setup_setEndpoints (setup_extend takes.holds takes.manyToMany _) one two
  attach constraints h := setup_attached h constraints

theorem SetUp.of_setup {links : List Link} (h : t.setup = t)
    (joins : t.manyToMany = true → ∃ l ∈ links, l.table = t.domain) : t.SetUp links := by
  obtain ⟨fields, front⟩ := setup_eq_self_iff.mp h
  refine ⟨h, fields, fun undeclared => front ?_⟩
  rw [← Bool.not_eq_true]
  intro linked
  obtain ⟨l, hl, same⟩ := joins linked
  exact undeclared l hl same

end Table

namespace Registry

variable {r : Registry}

/-- In every reachable registry and in every schema that it ends in, setting a table up again would
change nothing. -/
theorem setUp_of_reachable (h : r.Reachable) :
    (∀ t ∈ r.tables, t.SetUp r.links) ∧
    ∀ g, r.finish = .ok g → ∀ t ∈ g.tables, t.SetUp g.links := by
  obtain ⟨registered, finished⟩ := h.forall_tables Table.invariant_setup
  constructor
  · intro t ht
    exact .of_setup (registered t ht) (h.sound.manyToMany_iff ht).mp
  · intro g done t ht
    refine .of_setup (finished g done t ht) fun joins => ?_
    obtain ⟨b, parts⟩ := h.sound.finished done
    rw [parts.schema] at ht ⊢
    obtain ⟨u, hu, rfl⟩ := List.mem_map.mp ht
    rw [← parts.links]
    exact (parts.sound.manyToMany_iff hu).mp joins

/-- A link whose second copy clashes with a declared column of its table, so that only the first is
put there. -/
def halfway : List Call :=
  [.read (.ofText "[Settings]\nCLASS a\n[Fields]\nDATE x\nDATE !? b\n"),
    .read (.ofText "[Settings]\nCLASS l\nLINK a a\n[Fields]\nDATE ? x OTHER_A_B\n"),
    .materialize ⟨"L", "A", "A"⟩]

theorem setUp_of_reachable_halfway :
    (∃ t ∈ (run halfway).tables, t.endpoints = none ∧ t.searchFields = ["x", "aB"]) ∧
    (∀ t ∈ (run halfway).tables, t.SetUp (run halfway).links) ∧
    ∀ g, (run halfway).finish = .ok g → ∀ t ∈ g.tables, t.SetUp g.links :=
  ⟨by decide +kernel, setUp_of_reachable ⟨halfway, rfl⟩⟩

end Registry

end TableSchema
