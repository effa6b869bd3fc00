import Mathlib.Data.List.Forall2
import TableSchema.Proofs.Registry.Reachable

/-!
What building one link does.

A link is built when its table is there without a key, its ends are there with one, and the copies
of these keys find their names free (`Buildable`). The copies are described here key by key
(`Link.Copies`), apart from the functions that make them. Then the link table takes the copies and
its ends, two foreign keys lead from the copies back to the keys, and nothing else changes
(`Gains`). That the table is marked as one that joins others is no change either: without a key it
has the mark since its definition was read (`Table.Registered.manyToMany_of_keyless`).
-/

namespace TableSchema

open List (Forall₂)

/-- The column is the copy of `original` for the table `joint` under the column name `name`. All that
does not follow from the table and the name is taken over. -/
structure Column.CopyOf (copy original : Column) (joint name : String) : Prop where
  columnName : copy.columnName = name
  fieldName : copy.fieldName = Identifier.camelCase name
  table : copy.table = joint
  generated : copy.linkGenerated = true
  agrees : copy.Agrees original

theorem Column.copyOf_iff {copy original : Column} {joint name : String} :
    copy.CopyOf original joint name ↔ copy = original.linkClone joint name := by
  constructor
  · rintro ⟨rfl, fieldName, rfl, generated, storage, type, flags, comment⟩
    cases copy
    simp_all [linkClone]
  · rintro rfl
    exact ⟨rfl, rfl, rfl, rfl, original.agrees_linkClone joint name⟩

/-- The columns are copies for the table `joint` of the keys of `t`, in order. The name of a copy is
the name of the table and that of the key, behind `front`. -/
def Table.KeyCopies (t : Table) (joint front : String) (copies : List Column) : Prop :=
  Forall₂ (fun copy key => copy.CopyOf key joint (front ++ t.name ++ "_" ++ key.columnName))
    copies t.keyColumns

theorem Table.keyCopies_iff {t : Table} {joint front : String} {copies : List Column} :
    t.KeyCopies joint front copies ↔ copies = t.keyClones joint front := by
  simp only [KeyCopies, Column.copyOf_iff]
  rw [← List.forall₂_map_right_iff, List.forall₂_eq_eq_eq, keyClones]

/-- The columns are the copies that the link makes of the keys on its two sides. -/
structure Link.Copies (l : Link) (one two : Table) (ones twos : List Column) : Prop where
  ones : one.KeyCopies l.table "" ones
  twos : two.KeyCopies l.table (if l.one = l.two then "OTHER_" else "") twos

theorem Link.copies_iff {l : Link} {tables : LinkTables} {ones twos : List Column} :
    l.Copies tables.one tables.two ones twos ↔
      ones = tables.one.keyClones l.table "" ∧
        twos = tables.two.keyClones l.table l.secondFront := by
  have front : l.secondFront = if l.one = l.two then "OTHER_" else "" := by
    simp [secondFront, isSelfLink]
  rw [front]
  constructor
  · rintro ⟨ones, twos⟩
    exact ⟨Table.keyCopies_iff.mp ones, Table.keyCopies_iff.mp twos⟩
  · rintro ⟨ones, twos⟩
    exact ⟨Table.keyCopies_iff.mpr ones, Table.keyCopies_iff.mpr twos⟩

namespace Registry

/-- The tables of the link are there with the keys that are asked of them, `ones` and `twos` are the
copies of the keys, and their names are free. -/
structure Buildable (r : Registry) (l : Link) (tables : LinkTables) (ones twos : List Column) :
    Prop where
  joins : r.Joins l tables
  copies : l.Copies tables.one tables.two ones twos
  fits : tables.joint.Fits (ones ++ twos)

/-- The link table has taken the copies and its ends, and foreign keys lead from the copies to the
keys on either side. All else is as it was in `r`. -/
structure Gains (r : Registry) (l : Link) (tables : LinkTables) (ones twos : List Column)
    (after : Registry) : Prop where
  built : after.tables = r.tables.map fun t =>
    if t.domain = l.table then
      { tables.joint with
        columns := tables.joint.columns ++ ones ++ twos
        searchFields := tables.joint.searchFields ++ Table.searchable (ones ++ twos)
        endpoints := some ⟨l.one, l.two⟩ }
    else t
  positions : after.positions = r.positions
  links : after.links = r.links
  foreignKeys : after.foreignKeys = r.foreignKeys ++
    [⟨l.table, ones.map Column.fieldName, l.one, tables.one.keyColumns.map Column.fieldName⟩,
      ⟨l.table, twos.map Column.fieldName, l.two, tables.two.keyColumns.map Column.fieldName⟩]

variable {r after : Registry} {l : Link} {tables : LinkTables} {ones twos : List Column}

/-- A link table that is built has the mark of a table that joins others already. -/
theorem Sound.build_eq (h : r.Sound) (joins : r.Joins l tables)
    (copies : l.Copies tables.one tables.two ones twos) :
    l.build tables =
      { tables.joint with
        columns := tables.joint.columns ++ ones ++ twos
        searchFields := tables.joint.searchFields ++ Table.searchable (ones ++ twos)
        endpoints := some ⟨l.one, l.two⟩ } := by
  obtain ⟨rfl, rfl⟩ := Link.copies_iff.mp copies
  have registered := h.tables _ (h.indexed.find?_eq_some_iff.mp joins.joint).1
  have marked : tables.joint.manyToMany = true := registered.manyToMany_of_keyless joins.keyless
  simp [Link.build, Link.clones, Table.extend, Table.setEndpoints, marked]

/-- A link that is built gives its table the copies and the ends, and declares two keys. -/
theorem Sound.gains_link (h : r.Sound) (joins : r.Joins l tables)
    (copies : l.Copies tables.one tables.two ones twos) :
    r.Gains l tables ones twos (r.link l tables) := by
  refine ⟨?_, positions_modify _ _ _, links_modify _ _ _, ?_⟩
  · rw [← h.build_eq joins copies]
    exact h.indexed.tables_modify _ _
  · obtain ⟨rfl, rfl⟩ := Link.copies_iff.mp copies
    rfl

/-- A link is built exactly when its tables are there, with keys as they should be, and the names of
the copies are free. Then its table takes the copies and two foreign keys lead back from them; all
else stays. -/
theorem materialize_effect (h : r.Reachable) (l : Link) :
    ((r.materialize l).2 = none ↔ ∃ tables ones twos, r.Buildable l tables ones twos) ∧
    ∀ after, r.materialize l = (after, none) →
      ∃ tables ones twos, r.Buildable l tables ones twos ∧ r.Gains l tables ones twos after := by
  have effect : ∀ after, r.materialize l = (after, none) →
      ∃ tables ones twos, r.Buildable l tables ones twos ∧ r.Gains l tables ones twos after := by
    intro after built
    obtain ⟨tables, joins, fits, rfl⟩ := materialize_eq_none_iff.mp built
    have copies : l.Copies tables.one tables.two (tables.one.keyClones l.table "")
        (tables.two.keyClones l.table l.secondFront) := Link.copies_iff.mpr ⟨rfl, rfl⟩
    exact ⟨tables, _, _, ⟨joins, copies, fits⟩, h.sound.gains_link joins copies⟩
  refine ⟨⟨fun built => ?_, ?_⟩, effect⟩
  · obtain ⟨tables, ones, twos, buildable, _⟩ := effect _ (Prod.ext rfl built)
    exact ⟨tables, ones, twos, buildable⟩
  · rintro ⟨tables, ones, twos, joins, copies, fits⟩
    obtain ⟨rfl, rfl⟩ := Link.copies_iff.mp copies
    rw [materialize_of_fits joins fits]

/-- A table with two keys, a link `l` of this table with itself that has been built, and a link `m`
over that link, whose table has a column of its own. -/
def linked : List Call :=
  [.read (.ofText "[Settings]\nCLASS a\n[Fields]\nVSTRING(9) ! c // x\nDATE !? d\n"),
    .read (.ofText "[Settings]\nCLASS m\nLINK l a\n[Fields]\nDATE ? since\n"),
    .read (.ofText "[Settings]\nCLASS l\nLINK a a\n"),
    .materialize ⟨"L", "A", "A"⟩]

theorem materialize_effect_linked :
    (∃ after tables ones twos, (run linked).materialize ⟨"M", "L", "A"⟩ = (after, none) ∧
      (run linked).Buildable ⟨"M", "L", "A"⟩ tables ones twos ∧
      (run linked).Gains ⟨"M", "L", "A"⟩ tables ones twos after) ∧
    ¬∃ tables ones twos, (run linked).Buildable ⟨"L", "A", "A"⟩ tables ones twos := by
  have reachable : (run linked).Reachable := ⟨linked, rfl⟩
  have outcomes : ((run linked).materialize ⟨"M", "L", "A"⟩).2 = none ∧
      ((run linked).materialize ⟨"L", "A", "A"⟩).2 ≠ none := by
    decide +kernel
  constructor
  · obtain ⟨_, effect⟩ := materialize_effect reachable ⟨"M", "L", "A"⟩
    cases built : (run linked).materialize ⟨"M", "L", "A"⟩ with
    | mk after outcome =>
      rw [built] at outcomes
      obtain rfl : outcome = none := outcomes.1
      obtain ⟨tables, ones, twos, buildable, gains⟩ := effect after built
      exact ⟨after, tables, ones, twos, rfl, buildable, gains⟩
  · obtain ⟨built, _⟩ := materialize_effect reachable ⟨"L", "A", "A"⟩
    exact fun buildable => outcomes.2 (built.mpr buildable)

end Registry

end TableSchema
