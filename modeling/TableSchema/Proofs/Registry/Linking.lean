import TableSchema.Proofs.Outcome
import TableSchema.Proofs.Table.Columns
import TableSchema.Registry.Materialize

/-!
What building a link does.

A link can be built when its three tables are there with the keys that are asked of them
(`Registry.Joins`) and the copies of keys fit into the joining table. Then that table becomes
`Link.build` and two foreign keys are declared; nothing else changes (`materialize_eq_none_iff`).
A link that cannot be built changes nothing, but for a beginning of the copies that a clash of names
leaves in the joining table (`materialize_cases`).
-/

namespace TableSchema

namespace Link

/-- The columns that the joining table takes: the copies for the first side, then those for the
second. -/
def clones (l : Link) (tables : LinkTables) : List Column :=
  tables.one.keyClones l.table "" ++ tables.two.keyClones l.table l.secondFront

/-- The foreign keys that lead back to the two sides. -/
def keys (l : Link) (tables : LinkTables) : List ForeignKey :=
  [l.keyTo l.one tables.one (tables.one.keyClones l.table ""),
    l.keyTo l.two tables.two (tables.two.keyClones l.table l.secondFront)]

/-- The joining table after its link has been built. -/
def build (l : Link) (tables : LinkTables) : Table :=
  (tables.joint.extend (l.clones tables)).setEndpoints l.one l.two

end Link

/-- The columns have the same values, stored in the same way, with the same marks and comment. -/
structure Column.Agrees (c original : Column) : Prop where
  storage : c.storage = original.storage
  type : c.type = original.type
  flags : c.flags = original.flags
  comment : c.comment = original.comment

theorem Column.agrees_linkClone (c : Column) (table columnName : String) :
    (c.linkClone table columnName).Agrees c := by
  unfold linkClone
  exact ⟨rfl, rfl, rfl, rfl⟩

theorem Table.isKey_of_mem_keyClones {t : Table} {link front : String} {c : Column}
    (hc : c ∈ t.keyClones link front) : c.isKey = true := by
  obtain ⟨key, hkey, rfl⟩ := List.mem_map.mp hc
  exact (List.mem_filter.mp hkey).2

theorem Link.isKey_of_mem_clones {l : Link} {tables : LinkTables} {c : Column}
    (hc : c ∈ l.clones tables) : c.isKey = true := by
  rcases List.mem_append.mp hc with hc | hc
  · exact Table.isKey_of_mem_keyClones hc
  · exact Table.isKey_of_mem_keyClones hc

theorem Table.keyColumns_extend {t : Table} {cs : List Column} (keys : ∀ c ∈ cs, c.isKey = true) :
    (t.extend cs).keyColumns = t.keyColumns ++ cs := by
  simp only [keyColumns, extend, List.filter_append]
  rw [List.filter_eq_self.mpr keys]

namespace Registry

variable {r r' : Registry} {l : Link} {tables : LinkTables}

/-- The tables of a link are there, the joining one without a key and the joined ones with one. -/
structure Joins (r : Registry) (l : Link) (tables : LinkTables) : Prop where
  joint : r.find? l.table = some tables.joint
  keyless : tables.joint.keyColumns = []
  one : r.find? l.one = some tables.one
  oneKeyed : tables.one.keyColumns ≠ []
  two : r.find? l.two = some tables.two
  twoKeyed : tables.two.keyColumns ≠ []

theorem keyed_eq_ok {link domain : String} {t : Table} :
    r.keyed link domain = .ok t ↔ r.find? domain = some t ∧ t.keyColumns ≠ [] := by
  rw [keyed]
  cases r.find? domain with
  | none => simp
  | some u =>
    cases empty : u.keyColumns.isEmpty with
    | true =>
      simp only [empty, if_true, reduceCtorEq, Option.some.injEq, false_iff]
      rintro ⟨rfl, filled⟩
      exact filled (List.isEmpty_iff.mp empty)
    | false =>
      simp only [empty, Bool.false_eq_true, if_false, Except.ok.injEq, Option.some.injEq]
      constructor
      · rintro rfl
        exact ⟨rfl, by simpa using empty⟩
      · exact And.left

theorem linkTables_eq_ok : r.linkTables l = .ok tables ↔ r.Joins l tables := by
  constructor
  · intro h
    rw [linkTables] at h
    split at h
    · cases h
    · rename_i joint found
      split at h
      · rename_i empty
        obtain ⟨one, hone, h⟩ := Except.bind_eq_ok.mp h
        obtain ⟨two, htwo, h⟩ := Except.bind_eq_ok.mp h
        cases h
        obtain ⟨one, oneKeyed⟩ := keyed_eq_ok.mp hone
        obtain ⟨two, twoKeyed⟩ := keyed_eq_ok.mp htwo
        exact ⟨found, by simpa using empty, one, oneKeyed, two, twoKeyed⟩
      · cases h
  · intro h
    have one : r.keyed l.table l.one = .ok tables.one := keyed_eq_ok.mpr ⟨h.one, h.oneKeyed⟩
    have two : r.keyed l.table l.two = .ok tables.two := keyed_eq_ok.mpr ⟨h.two, h.twoKeyed⟩
    simp [linkTables, h.joint, h.keyless, one, two]

/-- The registry with a link that has been built. -/
def link (r : Registry) (l : Link) (tables : LinkTables) : Registry :=
  { r.modify l.table fun _ => l.build tables with foreignKeys := r.foreignKeys ++ l.keys tables }

theorem materialize_of_fits (h : r.Joins l tables) (fits : tables.joint.Fits (l.clones tables)) :
    r.materialize l = (r.link l tables, none) := by
  rcases Table.addLinkColumns_cases tables.joint (l.clones tables) with ⟨_, all⟩ | ⟨stuck, _⟩
  · rw [Link.clones] at all
    simp only [materialize, linkTables_eq_ok.mpr h, all]
    rfl
  · exact absurd fits stuck

/-- A link is refused for its tables, which changes nothing, or for a clash of names, which leaves
the copies before the one that clashes, or it is built. -/
theorem materialize_cases (r : Registry) (l : Link) :
    (∃ dangling, (∀ tables, ¬r.Joins l tables) ∧ r.materialize l = (r, some dangling)) ∨
    (∃ tables front c back clash, r.Joins l tables ∧ ¬tables.joint.Fits (l.clones tables) ∧
      l.clones tables = front ++ c :: back ∧ tables.joint.Fits front ∧
      (tables.joint.extend front).clash? c = some clash ∧
      r.materialize l =
        (r.modify l.table fun _ => tables.joint.extend front, some (.linkClash l.table clash))) ∨
    (∃ tables, r.Joins l tables ∧ tables.joint.Fits (l.clones tables) ∧
      r.materialize l = (r.link l tables, none)) := by
  cases found : r.linkTables l with
  | error dangling =>
    refine .inl ⟨dangling, fun tables joins => ?_, by simp only [materialize, found]⟩
    rw [linkTables_eq_ok.mpr joins] at found
    cases found
  | ok tables =>
    have joins : r.Joins l tables := linkTables_eq_ok.mp found
    rcases Table.addLinkColumns_cases tables.joint (l.clones tables) with
      ⟨fits, _⟩ | ⟨stuck, front, c, back, clash, split, fits, clashes, some⟩
    · exact .inr (.inr ⟨tables, joins, fits, materialize_of_fits joins fits⟩)
    · refine .inr (.inl ⟨tables, front, c, back, clash, joins, stuck, split, fits, clashes, ?_⟩)
      rw [Link.clones] at some
      simp only [materialize, found, some]

/-- A link is built exactly when its tables are there and the copies fit. -/
theorem materialize_eq_none_iff :
    r.materialize l = (r', none) ↔
      ∃ tables, r.Joins l tables ∧ tables.joint.Fits (l.clones tables) ∧ r' = r.link l tables := by
  constructor
  · intro h
    rcases materialize_cases r l with ⟨dangling, _, refused⟩ |
      ⟨tables, front, c, back, clash, _, _, _, _, _, refused⟩ | ⟨tables, joins, fits, built⟩
    · rw [refused] at h
      cases h
    · rw [refused] at h
      cases h
    · rw [built] at h
      cases h
      exact ⟨tables, joins, fits, rfl⟩
  · rintro ⟨tables, joins, fits, rfl⟩
    exact materialize_of_fits joins fits

end Registry

end TableSchema
