import TableSchema.Proofs.Registry.LinkEffect

/-!
What a link that cannot be built leaves behind.

A link fails before it changes anything, or it fails at the first copy of a key whose name is taken.
Then the copies before that one stand in the link table and are found by a search where their keys
are, and that is all: no foreign key is declared, the link table does not know its ends, and every
other table is as it was (`LeftBehind`). Not all copies can stand there (`materialize_damage`).
-/

namespace TableSchema

/-- The name that a column has taken is one of the names of the column that clashes. -/
theorem Table.clash?_eq_some {t : Table} {c : Column} {clash : Clash}
    (h : t.clash? c = some clash) :
    clash = .field c.fieldName t.domain ∨ clash = .column c.columnName t.domain := by
  unfold clash? at h
  split at h
  · exact .inl (Option.some.inj h).symm
  · split at h
    · exact .inr (Option.some.inj h).symm
    · cases h

namespace Registry

/-- The link table has taken these columns and lists those of them that can be searched. All else is
as it was in `r`. -/
structure LeftBehind (r : Registry) (l : Link) (taken : List Column) (after : Registry) : Prop where
  tables : after.tables = r.tables.map fun t =>
    if t.domain = l.table then
      { t with
        columns := t.columns ++ taken
        searchFields := t.searchFields ++ Table.searchable taken }
    else t
  positions : after.positions = r.positions
  links : after.links = r.links
  foreignKeys : after.foreignKeys = r.foreignKeys

/-- The next copy behind those that were taken has one of the names of which the failure tells. -/
structure StuckAt (r : Registry) (l : Link) (taken : List Column) (dangling : Dangling)
    (tables : LinkTables) (ones twos : List Column) (c : Column) (back : List Column) : Prop where
  joins : r.Joins l tables
  copies : l.Copies tables.one tables.two ones twos
  next : ones ++ twos = taken ++ c :: back
  clash : dangling = .linkClash l.table (.field c.fieldName l.table) ∨
    dangling = .linkClash l.table (.column c.columnName l.table)

variable {r after : Registry} {l : Link} {dangling : Dangling}

theorem leftBehind_self (r : Registry) (l : Link) : r.LeftBehind l [] r := by
  refine ⟨?_, rfl, rfl, rfl⟩
  simp [Table.searchable]

/-- The joining table with more columns at its end is what its table becomes. -/
theorem Indexed.leftBehind_extend (h : r.Indexed) {tables : LinkTables} (joins : r.Joins l tables)
    (taken : List Column) :
    r.LeftBehind l taken (r.modify l.table fun _ => tables.joint.extend taken) := by
  refine ⟨?_, positions_modify _ _ _, links_modify _ _ _, foreignKeys_modify _ _ _⟩
  rw [h.tables_modify]
  refine List.map_congr_left fun t ht => ?_
  split
  · rename_i same
    have found := h.find?_eq_some_iff.mpr ⟨ht, same⟩
    obtain rfl := Option.some.inj (joins.joint.symm.trans found)
    rfl
  · rfl

/-- A link fails before it changes anything, or at a copy whose name is taken, and then the copies
before it are left behind. -/
theorem Indexed.failure_cases (h : r.Indexed) (failed : r.materialize l = (after, some dangling)) :
    after = r ∨ ∃ taken tables ones twos c back, r.LeftBehind l taken after ∧
      r.StuckAt l taken dangling tables ones twos c back := by
  rcases materialize_cases r l with ⟨_, _, refused⟩ |
    ⟨tables, taken, c, back, clash, joins, _, next, _, clashes, stuck⟩ | ⟨tables, _, _, built⟩
  · rw [refused] at failed
    cases failed
    exact .inl rfl
  · rw [stuck] at failed
    cases failed
    have domain : (tables.joint.extend taken).domain = l.table :=
      (h.find?_eq_some_iff.mp joins.joint).2
    refine .inr ⟨taken, tables, _, _, c, back, h.leftBehind_extend joins taken, joins,
      Link.copies_iff.mpr ⟨rfl, rfl⟩, next, ?_⟩
    rcases Table.clash?_eq_some clashes with rfl | rfl
    · exact .inl (domain ▸ rfl)
    · exact .inr (domain ▸ rfl)
  · rw [built] at failed
    cases failed

/-- A link that cannot be built leaves no more behind than a beginning of the copies of the keys in
the link table. This is never all of them, and it is nothing unless the name of the next copy is
taken. -/
theorem materialize_damage (h : r.Reachable) (failed : r.materialize l = (after, some dangling)) :
    ∃ taken, r.LeftBehind l taken after ∧
      (∀ one two ones twos, r.find? l.one = some one → r.find? l.two = some two →
        l.Copies one two ones twos →
        taken <+: ones ++ twos ∧ (ones ++ twos ≠ [] → taken ≠ ones ++ twos)) ∧
      (taken ≠ [] → ∃ tables ones twos c back,
        r.StuckAt l taken dangling tables ones twos c back) := by
  rcases h.sound.indexed.failure_cases failed with rfl |
    ⟨taken, tables, ones, twos, c, back, left, stuck⟩
  · refine ⟨[], leftBehind_self _ l, fun one two ones twos _ _ _ => ?_, fun some => absurd rfl some⟩
    exact ⟨List.nil_prefix, Ne.symm⟩
  · refine ⟨taken, left, fun one two ones' twos' hone htwo copies => ?_,
      fun _ => ⟨tables, ones, twos, c, back, stuck⟩⟩
    obtain rfl := Option.some.inj (stuck.joins.one.symm.trans hone)
    obtain rfl := Option.some.inj (stuck.joins.two.symm.trans htwo)
    obtain ⟨rfl, rfl⟩ := Link.copies_iff.mp copies
    obtain ⟨rfl, rfl⟩ := Link.copies_iff.mp stuck.copies
    rw [stuck.next]
    refine ⟨List.prefix_append _ _, fun _ all => ?_⟩
    have longer := congrArg List.length all
    simp at longer

/-- A table with two keys, of which the first can be searched, and a table that is to be linked to
it twice and has the name of the third copy already. -/
def obstructed : List Call :=
  [.read (.ofText "[Settings]\nCLASS a\n[Fields]\nDATE !? b\nDATE ! c\n"),
    .read (.ofText "[Settings]\nCLASS l\nLINK a a\n[Fields]\nDATE otherAB\n")]

theorem materialize_damage_obstructed :
    ∃ after dangling taken, (run obstructed).materialize ⟨"L", "A", "A"⟩ = (after, some dangling) ∧
      (run obstructed).LeftBehind ⟨"L", "A", "A"⟩ taken after ∧
      ∃ tables ones twos c back,
        (run obstructed).StuckAt ⟨"L", "A", "A"⟩ taken dangling tables ones twos c back := by
  have outcome : ((run obstructed).materialize ⟨"L", "A", "A"⟩).2 ≠ none ∧
      ((run obstructed).materialize ⟨"L", "A", "A"⟩).1.tables ≠ (run obstructed).tables := by
    decide +kernel
  cases failed : (run obstructed).materialize ⟨"L", "A", "A"⟩ with
  | mk after result =>
    rw [failed] at outcome
    obtain ⟨dangling, rfl⟩ := Option.ne_none_iff_exists'.mp outcome.1
    obtain ⟨taken, left, _, stuck⟩ := materialize_damage ⟨obstructed, rfl⟩ failed
    refine ⟨after, dangling, taken, rfl, left, stuck ?_⟩
    rintro rfl
    refine outcome.2 (left.tables.trans ?_)
    simp [Table.searchable]

end Registry

end TableSchema
