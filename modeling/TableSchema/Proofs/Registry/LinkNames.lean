import TableSchema.Proofs.Identifier.Capitals
import TableSchema.Proofs.Registry.LinkEffect

/-!
The names of the columns that a link makes.

A link table without columns of its own can only fail to take the copies of the keys because of the
copies themselves: the name of a copy is the name of a table and that of a key, joined by an
underscore, and nobody can see where one ends and the other begins. So the copies of the keys of two
tables may share a name, and so may the copies on the two sides of a table that is joined with
itself (`materialize_ambiguous`). The field names decide: the link is built exactly if no two of
them are the same (`materialize_bare`). This is so when all names are in capitals and no table is
named like the other with more words behind it (`Link.Unambiguous`).

Of the way from column names to field names only the laws of `FieldNaming` are used: that field
names follow from column names at all (`Column.NamedBy`), and that names in capitals keep apart.
-/

namespace TableSchema

open Identifier (Capital FieldNaming camelCase)

/-- The name of the table and those of its keys are in capitals. -/
structure Table.InCapitals (t : Table) : Prop where
  name : Capital t.name
  keys : ∀ key ∈ t.keyColumns, Capital key.columnName

/-- All names are in capitals, and no table has the name of the other or this name with more words
behind it. A table that is joined with itself has no name that begins like the second side. -/
structure Link.Unambiguous (l : Link) (one two : Table) : Prop where
  oneCapital : one.InCapitals
  twoCapital : two.InCapitals
  fronts : if l.one = l.two then ¬"OTHER".toList <+: one.name.toList
    else one.name ≠ two.name ∧ ¬(one.name ++ "_").toList <+: two.name.toList ∧
      ¬(two.name ++ "_").toList <+: one.name.toList

instance (t : Table) : Decidable t.InCapitals :=
  decidable_of_iff (Capital t.name ∧ ∀ key ∈ t.keyColumns, Capital key.columnName)
    ⟨fun ⟨name, keys⟩ => ⟨name, keys⟩, fun h => ⟨h.name, h.keys⟩⟩

instance (l : Link) (one two : Table) : Decidable (l.Unambiguous one two) :=
  decidable_of_iff (one.InCapitals ∧ two.InCapitals ∧ _)
    ⟨fun ⟨one, two, fronts⟩ => ⟨one, two, fronts⟩,
      fun h => ⟨h.oneCapital, h.twoCapital, h.fronts⟩⟩

/-! ## Joined names -/

/-- Names that are joined by an underscore in two ways to the same text begin with the same name, or
one of them begins with the other one and an underscore. -/
theorem cut_of_joined {a b c d : String} (same : a ++ "_" ++ b = c ++ "_" ++ d) :
    a = c ∨ (a ++ "_").toList <+: c.toList ∨ (c ++ "_").toList <+: a.toList := by
  have lists : a.toList ++ '_' :: b.toList = c.toList ++ '_' :: d.toList := by
    simpa using congrArg String.toList same
  rcases List.append_eq_append_iff.mp lists with ⟨more, longer, rest⟩ | ⟨more, longer, rest⟩
  · cases more with
    | nil => exact .inl (String.toList_injective (by simpa using longer.symm))
    | cons x more =>
      obtain ⟨rfl, _⟩ := List.cons.inj rest
      exact .inr (.inl ⟨more, by simp [longer]⟩)
  · cases more with
    | nil => exact .inl (String.toList_injective (by simpa using longer))
    | cons x more =>
      obtain ⟨rfl, _⟩ := List.cons.inj rest
      exact .inr (.inr ⟨more, by simp [longer]⟩)

/-- The names of the copies of keys of one table. -/
theorem map_columnName_of_keyCopies {t : Table} {joint front : String} {copies : List Column}
    (h : t.KeyCopies joint front copies) :
    copies.map Column.columnName =
      t.keyColumns.map fun key => front ++ t.name ++ "_" ++ key.columnName := by
  rw [Table.keyCopies_iff.mp h, Table.keyClones, List.map_map]
  rfl

/-- The keys of a registered table have column names of their own. -/
theorem Table.Registered.nodup_keyColumns {t : Table} (h : t.Registered) :
    (t.keyColumns.map Column.columnName).Nodup := by
  rcases h.names with names | ⟨_, declared, columns, _, keyless⟩
  · have keys : UniqueNames t.keyColumns := names.sublist List.filter_sublist
    exact List.pairwise_map.mpr (keys.imp fun apart => apart.2)
  · -- the default key is the only one
    have none : declared.filter Column.isKey = [] :=
      List.filter_eq_nil_iff.mpr (by simpa using keyless)
    rw [keyColumns, columns, List.filter_cons_of_pos (isKey_defaultKey _ _), none]
    exact List.nodup_singleton _

theorem nodup_of_keyCopies {t : Table} {joint front : String} {copies : List Column}
    (registered : t.Registered) (h : t.KeyCopies joint front copies) :
    (copies.map Column.columnName).Nodup := by
  have joined : (fun key : Column => front ++ t.name ++ "_" ++ key.columnName) =
      (fun name => front ++ t.name ++ "_" ++ name) ∘ Column.columnName := rfl
  rw [map_columnName_of_keyCopies h, joined, ← List.map_map]
  refine registered.nodup_keyColumns.map fun name other same => ?_
  exact String.toList_injective (by simpa using congrArg String.toList same)

/-- Tables whose names are told apart give copies whose column names are told apart. -/
theorem Link.Copies.nodup_columnName {l : Link} {one two : Table} {ones twos : List Column}
    (copies : l.Copies one two ones twos) (h : l.Unambiguous one two)
    (oneRegistered : one.Registered) (twoRegistered : two.Registered)
    (self : l.one = l.two → one = two) :
    ((ones ++ twos).map Column.columnName).Nodup := by
  rw [List.map_append, List.nodup_append]
  refine ⟨nodup_of_keyCopies oneRegistered copies.ones,
    nodup_of_keyCopies twoRegistered copies.twos, ?_⟩
  rw [map_columnName_of_keyCopies copies.ones, map_columnName_of_keyCopies copies.twos]
  rintro _ hone _ htwo same
  obtain ⟨key, _, rfl⟩ := List.mem_map.mp hone
  obtain ⟨other, _, rfl⟩ := List.mem_map.mp htwo
  have fronts := h.fronts
  split at fronts
  · rename_i joined
    obtain rfl := self joined
    rw [if_pos joined] at same
    have cut : one.name ++ "_" ++ key.columnName =
        "OTHER" ++ "_" ++ (one.name ++ "_" ++ other.columnName) := by
      simpa [String.append_assoc] using same
    rcases cut_of_joined cut with front | front | front
    · exact fronts (front ▸ List.prefix_rfl)
    · have inside : '_' ∈ "OTHER".toList := front.subset (by simp)
      exact absurd inside (by decide)
    · refine fronts (List.IsPrefix.trans ?_ front)
      exact ⟨['_'], by simp⟩
  · rename_i apart
    rw [if_neg apart] at same
    obtain ⟨different, shorter, longer⟩ := fronts
    have cut : one.name ++ "_" ++ key.columnName = two.name ++ "_" ++ other.columnName := by
      simpa using same
    rcases cut_of_joined cut with front | front | front
    · exact different front
    · exact shorter front
    · exact longer front

/-- The names of the copies are in capitals, if those are of which they are made. -/
theorem Link.Copies.capital {l : Link} {one two : Table} {ones twos : List Column}
    (copies : l.Copies one two ones twos) (h : l.Unambiguous one two) :
    ∀ name ∈ (ones ++ twos).map Column.columnName, Capital name := by
  have other : Capital "OTHER" := by decide +kernel
  rw [List.map_append, map_columnName_of_keyCopies copies.ones,
    map_columnName_of_keyCopies copies.twos]
  intro name hname
  rcases List.mem_append.mp hname with hname | hname
  · obtain ⟨key, hkey, rfl⟩ := List.mem_map.mp hname
    have joined := h.oneCapital.name.append (h.oneCapital.keys key hkey)
    simpa using joined
  · obtain ⟨key, hkey, rfl⟩ := List.mem_map.mp hname
    have joined := h.twoCapital.name.append (h.twoCapital.keys key hkey)
    split
    · have fronted := other.append joined
      simpa [String.append_assoc] using fronted
    · simpa using joined

/-! ## Clashes between copies -/

section

variable {f : String → String}

/-- The field name follows from the column name on the way `f`. -/
def Column.NamedBy (f : String → String) (c : Column) : Prop := c.fieldName = f c.columnName

theorem Table.KeyCopies.namedBy {t : Table} {joint front : String} {copies : List Column}
    (h : t.KeyCopies joint front copies) : ∀ c ∈ copies, c.NamedBy camelCase := by
  rw [keyCopies_iff.mp h]
  intro c hc
  obtain ⟨key, _, rfl⟩ := List.mem_map.mp hc
  rfl

theorem Link.Copies.namedBy {l : Link} {one two : Table} {ones twos : List Column}
    (copies : l.Copies one two ones twos) : ∀ c ∈ ones ++ twos, c.NamedBy camelCase := by
  intro c hc
  rcases List.mem_append.mp hc with hc | hc
  · exact copies.ones.namedBy c hc
  · exact copies.twos.namedBy c hc

theorem map_fieldName_of_namedBy {cs : List Column} (named : ∀ c ∈ cs, c.NamedBy f) :
    cs.map Column.fieldName = (cs.map Column.columnName).map f := by
  rw [List.map_map]
  exact List.map_congr_left named

/-- Tables whose names are told apart give copies whose field names are told apart, on every way to
field names that obeys the laws. -/
theorem Link.Copies.nodup_map (naming : FieldNaming f) {l : Link} {one two : Table}
    {ones twos : List Column} (copies : l.Copies one two ones twos) (h : l.Unambiguous one two)
    (oneRegistered : one.Registered) (twoRegistered : two.Registered)
    (self : l.one = l.two → one = two) :
    (((ones ++ twos).map Column.columnName).map f).Nodup := by
  refine List.Nodup.map_on ?_ (copies.nodup_columnName h oneRegistered twoRegistered self)
  intro name hname other hother same
  exact (naming.apply_inj (copies.capital h name hname) (copies.capital h other hother)).mp same

/-- Where the field names follow from the column names, it is the field names that tell columns
apart. -/
theorem uniqueNames_iff_nodup {cs : List Column} (named : ∀ c ∈ cs, c.NamedBy f) :
    UniqueNames cs ↔ (cs.map Column.fieldName).Nodup := by
  rw [UniqueNames, List.Nodup, List.pairwise_map]
  refine List.Pairwise.iff_of_mem fun {a b} ha hb => ?_
  constructor
  · exact fun apart => apart.1
  · intro field
    refine ⟨field, fun same => field ?_⟩
    rw [named a ha, named b hb, same]

/-- A clash between such columns is one of field names. -/
theorem clash_of_namedBy {t : Table} {c : Column} {clash : Clash}
    (named : ∀ a ∈ c :: t.columns, a.NamedBy f) (h : t.clash? c = some clash) :
    (∃ a ∈ t.columns, a.fieldName = c.fieldName) ∧ clash = .field c.fieldName t.domain := by
  obtain ⟨hc, others⟩ := List.forall_mem_cons.mp named
  have taken : ∃ a ∈ t.columns, a.fieldName = c.fieldName := by
    by_contra free
    refine Option.some_ne_none clash (h.symm.trans (Table.clash?_eq_none_iff.mpr fun a ha => ?_))
    have field : a.fieldName ≠ c.fieldName := fun same => free ⟨a, ha, same⟩
    refine ⟨field, fun same => field ?_⟩
    rw [others a ha, hc, same]
  refine ⟨taken, ?_⟩
  have found : (t.column? c.fieldName).isSome = true := by
    obtain ⟨a, ha, same⟩ := taken
    exact List.find?_isSome.mpr ⟨a, ha, by simpa using same⟩
  rw [Table.clash?, if_pos found] at h
  exact (Option.some.inj h).symm

end

namespace Registry

variable {r : Registry} {l : Link} {tables : LinkTables} {ones twos : List Column}

/-- The tables of a link are told by their classes. -/
theorem Joins.unique {others : LinkTables} (joins : r.Joins l tables) (joins' : r.Joins l others) :
    tables = others :=
  Except.ok.inj ((linkTables_eq_ok.mpr joins).symm.trans (linkTables_eq_ok.mpr joins'))

theorem Joins.materialize_eq_none_iff (joins : r.Joins l tables) :
    (r.materialize l).2 = none ↔ tables.joint.Fits (l.clones tables) := by
  constructor
  · intro built
    obtain ⟨others, joins', fits, _⟩ := Registry.materialize_eq_none_iff.mp (Prod.ext rfl built)
    exact joins.unique joins' ▸ fits
  · intro fits
    rw [materialize_of_fits joins fits]

/-- Where the tables of a link are as they should be, it is a name of a copy that is refused. -/
theorem Joins.exists_clash (joins : r.Joins l tables) {dangling : Dangling}
    (failed : (r.materialize l).2 = some dangling) :
    ∃ front c back clash, l.clones tables = front ++ c :: back ∧
      (tables.joint.extend front).clash? c = some clash ∧ dangling = .linkClash l.table clash := by
  rcases materialize_cases r l with ⟨_, missing, _⟩ |
    ⟨others, front, c, back, clash, joins', _, next, _, clashes, stuck⟩ | ⟨_, _, _, built⟩
  · exact absurd joins (missing tables)
  · obtain rfl := joins.unique joins'
    rw [stuck] at failed
    exact ⟨front, c, back, clash, next, clashes, (Option.some.inj failed).symm⟩
  · rw [built] at failed
    cases failed

/-- A link table without columns takes the copies of the keys exactly if their field names are told
apart. If not, the failure tells the field name of a copy that an earlier copy has. Names in
capitals of which none begins like another one are always told apart, on every way to field names
that obeys the laws. -/
theorem materialize_bare (h : r.Reachable) (joins : r.Joins l tables)
    (bare : tables.joint.columns = []) (copies : l.Copies tables.one tables.two ones twos) :
    ((r.materialize l).2 = none ↔ ((ones ++ twos).map Column.fieldName).Nodup) ∧
    (∀ dangling, (r.materialize l).2 = some dangling →
      ∃ front c back, ones ++ twos = front ++ c :: back ∧
        (∃ a ∈ front, a.fieldName = c.fieldName) ∧
        dangling = .linkClash l.table (.field c.fieldName l.table)) ∧
    (l.Unambiguous tables.one tables.two → (r.materialize l).2 = none ∧
      ∀ f, FieldNaming f → (((ones ++ twos).map Column.columnName).map f).Nodup) := by
  have named := copies.namedBy
  have clones : l.clones tables = ones ++ twos := by
    obtain ⟨rfl, rfl⟩ := Link.copies_iff.mp copies
    rfl
  have built : (r.materialize l).2 = none ↔ ((ones ++ twos).map Column.fieldName).Nodup := by
    rw [joins.materialize_eq_none_iff, clones, ← uniqueNames_iff_nodup named]
    simp [Table.Fits, bare]
  have registered {domain : String} {t : Table} (found : r.find? domain = some t) :
      t.Registered ∧ t.domain = domain :=
    ⟨h.sound.tables t (h.sound.indexed.find?_eq_some_iff.mp found).1,
      (h.sound.indexed.find?_eq_some_iff.mp found).2⟩
  refine ⟨built, fun dangling failed => ?_, fun unambiguous => ?_⟩
  · obtain ⟨front, c, back, clash, next, clashes, rfl⟩ := joins.exists_clash failed
    rw [clones] at next
    have columns : (tables.joint.extend front).columns = front := by simp [Table.extend, bare]
    have taken : ∀ a ∈ c :: (tables.joint.extend front).columns, a.NamedBy camelCase := by
      rw [columns]
      refine List.forall_mem_cons.mpr ⟨named c (by simp [next]), fun a ha => ?_⟩
      exact named a (by simp [next, ha])
    obtain ⟨earlier, rfl⟩ := clash_of_namedBy taken clashes
    rw [columns] at earlier
    refine ⟨front, c, back, next, earlier, ?_⟩
    rw [← (registered joins.joint).2]
    rfl
  · have apart (f : String → String) (naming : FieldNaming f) :
        (((ones ++ twos).map Column.columnName).map f).Nodup :=
      copies.nodup_map naming unambiguous (registered joins.one).1 (registered joins.two).1
        fun self => Option.some.inj (joins.one.symm.trans (self ▸ joins.two))
    refine ⟨built.mpr ?_, apart⟩
    rw [map_fieldName_of_namedBy named]
    exact apart camelCase Identifier.fieldNaming_camelCase

/-- Two tables, of which the second has the name of the first with one more word, and a link between
them. -/
def nested : List Call :=
  [.read (.ofText "[Settings]\nCLASS x\n[Fields]\nDATE ! yZ\n"),
    .read (.ofText "[Settings]\nCLASS xY\n[Fields]\nDATE ! z\n"),
    .read (.ofText "[Settings]\nCLASS l\nLINK x xY\n")]

/-- A table whose name is the word for the second side, and a link of this table with itself. -/
def doubled : List Call :=
  [.read (.ofText "[Settings]\nCLASS other\n[Fields]\nDATE ! x\nDATE ! y OTHER_X\n"),
    .read (.ofText "[Settings]\nCLASS l\nLINK other other\n")]

/-- The copies of keys alone can clash, between two tables and within a table that is joined with
itself. -/
theorem materialize_ambiguous :
    (∃ tables, (run nested).Joins ⟨"L", "X", "XY"⟩ tables ∧ tables.joint.manyToMany = true ∧
      tables.joint.columns = [] ∧ tables.one.name ≠ tables.two.name ∧
      ((run nested).materialize ⟨"L", "X", "XY"⟩).2 =
        some (.linkClash "L" (.field "xYZ" "L"))) ∧
    ∃ tables, (run doubled).Joins ⟨"L", "Other", "Other"⟩ tables ∧ tables.joint.manyToMany = true ∧
      tables.joint.columns = [] ∧
      ((run doubled).materialize ⟨"L", "Other", "Other"⟩).2 =
        some (.linkClash "L" (.field "otherOtherX" "L")) := by
  constructor
  · obtain ⟨tables, found, facts⟩ :
        ∃ tables ∈ ((run nested).linkTables ⟨"L", "X", "XY"⟩).toOption,
          tables.joint.manyToMany = true ∧ tables.joint.columns = [] ∧
            tables.one.name ≠ tables.two.name := by
      decide +kernel
    have joins := linkTables_eq_ok.mp (Except.mem_toOption.mp found)
    exact ⟨tables, joins, facts.1, facts.2.1, facts.2.2, by decide +kernel⟩
  · obtain ⟨tables, found, facts⟩ :
        ∃ tables ∈ ((run doubled).linkTables ⟨"L", "Other", "Other"⟩).toOption,
          tables.joint.manyToMany = true ∧ tables.joint.columns = [] := by
      decide +kernel
    have joins := linkTables_eq_ok.mp (Except.mem_toOption.mp found)
    exact ⟨tables, joins, facts.1, facts.2, by decide +kernel⟩

/-- Two tables in capitals whose names begin alike, and a link between them that has no columns. -/
def enrolled : List Call :=
  [.read (.ofText "[Settings]\nCLASS course\n[Fields]\nLONG(9) ! id1\nDATE ! term\n"),
    .read (.ofText "[Settings]\nCLASS courses\n[Fields]\nLONG(9) label\n"),
    .read (.ofText "[Settings]\nCLASS l\nLINK course courses\n")]

theorem materialize_bare_enrolled :
    ∃ tables ones twos, (run enrolled).Joins ⟨"L", "Course", "Courses"⟩ tables ∧
      tables.joint.columns = [] ∧
      Link.Copies ⟨"L", "Course", "Courses"⟩ tables.one tables.two ones twos ∧
      Link.Unambiguous ⟨"L", "Course", "Courses"⟩ tables.one tables.two ∧
      ((run enrolled).materialize ⟨"L", "Course", "Courses"⟩).2 = none := by
  obtain ⟨tables, found, bare, unambiguous⟩ :
      ∃ tables ∈ ((run enrolled).linkTables ⟨"L", "Course", "Courses"⟩).toOption,
        tables.joint.columns = [] ∧
          Link.Unambiguous ⟨"L", "Course", "Courses"⟩ tables.one tables.two := by
    decide +kernel
  have joins := linkTables_eq_ok.mp (Except.mem_toOption.mp found)
  have copies : Link.Copies ⟨"L", "Course", "Courses"⟩ tables.one tables.two
      (tables.one.keyClones "L" "") _ := Link.copies_iff.mpr ⟨rfl, rfl⟩
  obtain ⟨_, _, built⟩ := materialize_bare ⟨enrolled, rfl⟩ joins bare copies
  exact ⟨tables, _, _, joins, bare, copies, unambiguous, (built unambiguous).1⟩

end Registry

end TableSchema
