import TableSchema.Proofs.Registry.LinkEffect
import TableSchema.Proofs.Schema.Integrity

/-!
The foreign keys of links.

A foreign key that a link declares consists of field names, which are looked up again when the key
is resolved, in tables that have perhaps been linked themselves and after any other calls. They lead
to the columns that were meant (`Registry.LeadsBack`), and the constraint that they are resolved to
names these columns and their tables (`Constraint.Returns`). The three tables of the link have keys
once it is built, so they stay as they are (`Sound.find?_of_keyed`). And in a registered table the
field name of a key leads to that key (`Table.Registered.found_of_mem_keyColumns`), even where a
declared column has taken a name of the default key, because the default key stands in front of it.

So when all links have been built, a run can only fail on a foreign key that a definition declares
(`linkKeys_resolve`).
-/

namespace TableSchema

open List (Forall₂)
open Identifier (upperCase)

namespace Table

variable {t : Table}

/-- Either name of a key leads to that key. -/
theorem Registered.found_of_mem_keyColumns (h : t.Registered) {key : Column}
    (hkey : key ∈ t.keyColumns) :
    t.column? key.fieldName = some key ∧ t.columnNamed? key.columnName = some key := by
  obtain ⟨hc, isKey⟩ := List.mem_filter.mp hkey
  rcases h.names with names | ⟨_, declared, columns, _, keyless⟩
  · exact found_of_mem names hc
  · -- the default key is the only key, and a search finds it first
    rw [columns] at hc
    rcases List.mem_cons.mp hc with rfl | hc
    · simp [column?, columnNamed?, columns]
    · rw [keyless key hc] at isKey
      cases isKey

/-- Fields that lead to the columns `cs` give the names of these columns. -/
theorem columnNames_map_fieldName {cs : List Column}
    (found : ∀ c ∈ cs, t.column? c.fieldName = some c) :
    t.columnNames (cs.map Column.fieldName) = .ok (cs.map Column.columnName) := by
  rw [columnNames_eq_ok, List.forall₂_map_left_iff, List.forall₂_map_right_iff, List.forall₂_same]
  intro c hc
  exact ⟨c, found c hc, rfl⟩

end Table

theorem Table.agrees_keyClones (t : Table) (link front : String) :
    Forall₂ Column.Agrees (t.keyClones link front) t.keyColumns := by
  rw [keyClones, List.forall₂_map_left_iff, List.forall₂_same]
  intro key _
  exact key.agrees_linkClone link _

namespace Constraint

/-- The constraint leads from the columns `copies` of `source` back to the keys of `target`. Its
name consists of words in capitals: `FK`, the table and its columns, `TO`, and the other table. -/
structure Returns (c : Constraint) (source target : Table) (copies : List Column) : Prop where
  name : c.name = "_".intercalate
    ("FK" :: upperCase source.name :: (copies.map Column.columnName).map upperCase ++
      ["TO", upperCase target.name])
  fromTable : c.fromTable = source.domain
  fromTableName : c.fromTableName = source.name
  fromColumns : c.fromColumns = copies.map Column.columnName
  toTable : c.toTable = target.domain
  toTableName : c.toTableName = target.name
  toColumns : c.toColumns = target.keyColumns.map Column.columnName

instance (c : Constraint) (source target : Table) (copies : List Column) :
    Decidable (c.Returns source target copies) :=
  decidable_of_iff (_ ∧ _ ∧ _ ∧ _ ∧ _ ∧ _ ∧ _)
    ⟨fun ⟨name, fromTable, fromTableName, fromColumns, toTable, toTableName, toColumns⟩ =>
      ⟨name, fromTable, fromTableName, fromColumns, toTable, toTableName, toColumns⟩,
    fun h => ⟨h.name, h.fromTable, h.fromTableName, h.fromColumns, h.toTable, h.toTableName,
      h.toColumns⟩⟩

/-- There is only one such constraint. -/
theorem Returns.eq {c d : Constraint} {source target : Table} {copies : List Column}
    (h : c.Returns source target copies) (h' : d.Returns source target copies) : c = d := by
  obtain ⟨name, fromTable, fromTableName, fromColumns, toTable, toTableName, toColumns⟩ := h
  obtain ⟨name', fromTable', fromTableName', fromColumns', toTable', toTableName', toColumns'⟩ := h'
  cases c
  cases d
  simp_all

/-- Words with an underscore behind each, in front of words with underscores between them. -/
theorem join_append_intercalate (words : List String) {rest : List String} (filled : rest ≠ []) :
    String.join (words.map (· ++ "_")) ++ "_".intercalate rest =
      "_".intercalate (words ++ rest) := by
  induction words with
  | nil => simp
  | cons word words ih =>
    rw [List.map_cons, List.cons_append, String.intercalate_cons_of_ne_nil (by simp [filled]), ← ih,
      String.join_cons, String.append_assoc]

theorem nameOf_eq_intercalate (fromTable : String) (columns : List String) (toTable : String) :
    nameOf fromTable columns toTable =
      "_".intercalate ("FK" :: upperCase fromTable :: columns.map upperCase ++
        ["TO", upperCase toTable]) := by
  have ending : "TO_" ++ upperCase toTable = "_".intercalate ["TO", upperCase toTable] := by simp
  have ended : columns.map (fun column => upperCase column ++ "_")
      = (columns.map upperCase).map (· ++ "_") := by simp
  rw [List.cons_append, List.cons_append, String.intercalate_cons_cons,
    String.intercalate_cons_of_ne_nil (by simp), ← join_append_intercalate _ (by simp), ← ending,
    nameOf, ended]
  simp only [String.append_assoc]
  rfl

end Constraint

namespace Registry

/-- The foreign key `key` is resolved: it leads from the columns `copies` of `source` back to the
keys of `target`, which they agree with. Both tables are those of their classes, and the names of
the columns lead to these columns. -/
structure LeadsBack (r : Registry) (key : ForeignKey) (source target : Table)
    (copies : List Column) : Prop where
  source_found : r.find? source.domain = some source
  target_found : r.find? target.domain = some target
  copy_found : ∀ c ∈ copies, source.columnNamed? c.columnName = some c
  key_found : ∀ c ∈ target.keyColumns, target.columnNamed? c.columnName = some c
  agree : Forall₂ Column.Agrees copies target.keyColumns
  resolved : ∃ c, r.resolve key = .ok c ∧ c.Returns source target copies

variable {r b : Registry} {l : Link} {tables : LinkTables}

theorem LeadsBack.resolve_eq {key : ForeignKey} {source target : Table} {copies : List Column}
    {c : Constraint} (h : r.LeadsBack key source target copies)
    (returns : c.Returns source target copies) : r.resolve key = .ok c := by
  obtain ⟨c', resolved, returns'⟩ := h.resolved
  rw [resolved, returns'.eq returns]

/-- One side of a link that has been built leads back to its table. -/
theorem Sound.leadsBack (h : b.Sound) (keyless : tables.joint.keyColumns = [])
    (joint : b.find? l.table = some (l.build tables)) {domain front : String} {t : Table}
    (found : b.find? domain = some t)
    (copied : ∀ c ∈ t.keyClones l.table front, c ∈ l.clones tables) :
    b.LeadsBack (l.keyTo domain t (t.keyClones l.table front)) (l.build tables) t
      (t.keyClones l.table front) := by
  obtain ⟨inside, same⟩ := h.indexed.find?_eq_some_iff.mp joint
  obtain ⟨inside', same'⟩ := h.indexed.find?_eq_some_iff.mp found
  have source : (l.build tables).Registered := h.tables _ inside
  have target : t.Registered := h.tables _ inside'
  -- the copies are keys of the joining table
  have copies : ∀ c ∈ t.keyClones l.table front, c ∈ (l.build tables).keyColumns := by
    intro c hc
    rw [Link.keyColumns_build keyless]
    exact copied c hc
  have resolved : b.resolve (l.keyTo domain t (t.keyClones l.table front)) =
      .ok (.between (l.build tables) ((t.keyClones l.table front).map Column.columnName)
        t (t.keyColumns.map Column.columnName)) := by
    refine resolve_eq_ok.mpr ⟨_, t, _, _, joint, found, ?_, ?_, ?_, rfl⟩
    · exact Table.columnNames_map_fieldName fun c hc =>
        (source.found_of_mem_keyColumns (copies c hc)).1
    · exact Table.columnNames_map_fieldName fun c hc => (target.found_of_mem_keyColumns hc).1
    · simp [Table.keyClones]
  constructor
  · rw [same, joint]
  · rw [same', found]
  · exact fun c hc => (source.found_of_mem_keyColumns (copies c hc)).2
  · exact fun c hc => (target.found_of_mem_keyColumns hc).2
  · exact t.agrees_keyClones l.table front
  · exact ⟨_, resolved, Constraint.nameOf_eq_intercalate _ _ _, rfl, rfl, rfl, rfl, rfl, rfl⟩

theorem Sound.leadsBack_one (h : b.Sound) (keyless : tables.joint.keyColumns = [])
    (joint : b.find? l.table = some (l.build tables)) (one : b.find? l.one = some tables.one) :
    b.LeadsBack (l.keyTo l.one tables.one (tables.one.keyClones l.table "")) (l.build tables)
      tables.one (tables.one.keyClones l.table "") :=
  h.leadsBack keyless joint one fun _ hc => List.mem_append_left _ hc

theorem Sound.leadsBack_two (h : b.Sound) (keyless : tables.joint.keyColumns = [])
    (joint : b.find? l.table = some (l.build tables)) (two : b.find? l.two = some tables.two) :
    b.LeadsBack (l.keyTo l.two tables.two (tables.two.keyClones l.table l.secondFront))
      (l.build tables) tables.two (tables.two.keyClones l.table l.secondFront) :=
  h.leadsBack keyless joint two fun _ hc => List.mem_append_right _ hc

/-- Once a link is built, each of its three tables has keys, and so it stays in all further
calls. -/
theorem Sound.find?_later (h : r.Sound) (joins : r.Joins l tables)
    (fits : tables.joint.Fits (l.clones tables)) (later : List Call) :
    (later.foldl apply (r.link l tables)).find? l.table = some (l.build tables) ∧
      (later.foldl apply (r.link l tables)).find? l.one = some tables.one ∧
      (later.foldl apply (r.link l tables)).find? l.two = some tables.two := by
  have step : Step r (r.link l tables) := .link joins fits
  have stays : ∀ {domain : String} {t : Table}, (r.link l tables).find? domain = some t →
      t.keyColumns ≠ [] → (later.foldl apply (r.link l tables)).find? domain = some t :=
    fun found keyed => (h.step step).find?_of_keyed (steps_foldl_apply later _) found keyed
  have joint : (r.link l tables).find? l.table = some (l.build tables) := by
    rw [h.indexed.find?_link joins, if_pos rfl]
  have filled : (l.build tables).keyColumns ≠ [] := by
    rw [Link.keyColumns_build joins.keyless]
    exact Link.clones_ne_nil joins.oneKeyed
  exact ⟨stays joint filled,
    stays (step.find?_of_keyed h.indexed joins.one joins.oneKeyed) joins.oneKeyed,
    stays (step.find?_of_keyed h.indexed joins.two joins.twoKeyed) joins.twoKeyed⟩

/-- When links have been built, the foreign keys that they declared are all resolved. -/
theorem Sound.resolve_keysIn (h : b.Sound) {before : String → Option Table} {links : List Link}
    (built : Built before b.find? links) (hl : l ∈ links) {key : ForeignKey}
    (hkey : key ∈ l.keysIn b.find?) : ∃ c, b.resolve key = .ok c := by
  obtain ⟨tables, _, keyless, one, _, two, _, _, joint⟩ := built.linked l hl
  rw [built.keysIn_eq hl one two tables.joint] at hkey
  rcases List.mem_cons.mp hkey with rfl | hkey
  · obtain ⟨c, resolved, _⟩ := (h.leadsBack_one keyless joint one).resolved
    exact ⟨c, resolved⟩
  · obtain rfl := List.mem_singleton.mp hkey
    obtain ⟨c, resolved, _⟩ := (h.leadsBack_two keyless joint two).resolved
    exact ⟨c, resolved⟩

/-- A link that is built adds copies of keys to its table and declares two foreign keys. These are
resolved whatever happens later, and lead from the copies back to the keys of either table. When all
links of a run have been built, the run can only fail on a foreign key that a definition
declares. -/
theorem linkKeys_resolve (calls : List Call) :
    (∀ l after, (run calls).materialize l = (after, none) →
      ∃ tables joint ones twos key key',
        (run calls).Joins l tables ∧ l.Copies tables.one tables.two ones twos ∧
        joint.domain = l.table ∧ joint.name = tables.joint.name ∧
        joint.columns = tables.joint.columns ++ ones ++ twos ∧
        after.foreignKeys = (run calls).foreignKeys ++ [key, key'] ∧
        ∀ later : List Call,
          (later.foldl apply after).LeadsBack key joint tables.one ones ∧
          (later.foldl apply after).LeadsBack key' joint tables.two twos) ∧
    ∀ built d, (run calls).materializeAll (Link.buildOrder (run calls).links) = .ok built →
      (run calls).finish = .error d →
      ∃ key ∈ empty.declaredByAll calls, built.resolve key = .error d := by
  have sound : (run calls).Sound := Reachable.sound ⟨calls, rfl⟩
  constructor
  · intro l after done
    obtain ⟨tables, joins, fits, rfl⟩ := materialize_eq_none_iff.mp done
    have built := sound.find?_later joins fits
    have joined := (sound.step (.link joins fits)).indexed.find?_eq_some_iff.mp (built []).1
    refine ⟨tables, l.build tables, _, _, _, _, joins, Link.copies_iff.mpr ⟨rfl, rfl⟩, joined.2,
      rfl, ?_, rfl, fun later => ?_⟩
    · rw [List.append_assoc]
      rfl
    · obtain ⟨joint, one, two⟩ := built later
      have later' := (sound.step (.link joins fits)).steps (steps_foldl_apply later _)
      exact ⟨later'.leadsBack_one joins.keyless joint one,
        later'.leadsBack_two joins.keyless joint two⟩
  · intro built d build failed
    have perm := Link.buildOrder_perm (run calls).links
    obtain ⟨_, linked, _⟩ := built_of_materializeAll sound.indexed sound.nodup_buildOrder build
    obtain ⟨_, _, keys⟩ := frame_of_materializeAll sound.indexed sound.nodup_buildOrder build
    rcases finish_eq_error failed with unbuilt | ⟨built', build', key, hkey, dangling⟩
    · cases build.symm.trans unbuilt
    obtain rfl := Except.ok.inj (build.symm.trans build')
    refine ⟨key, ?_, dangling⟩
    rw [← foreignKeys_run (linked.of_perm perm)]
    rcases List.mem_append.mp (keys ▸ hkey) with declared | synthesised
    · exact declared
    · -- the foreign key of a link does not fail
      obtain ⟨l, hl, hkey⟩ := List.mem_flatMap.mp synthesised
      obtain ⟨c, resolves⟩ :=
        (sound.steps (materializeAll_steps build)).resolve_keysIn linked hl hkey
      cases resolves.symm.trans dangling

/-- A link `j` of `m` and `c`. The table `c` has a field with a name of its default key, and a
foreign key of `m` refers to a table that is not there. -/
def membership : List Call :=
  [.read (.ofText "[Settings]\nCLASS c\n[Fields]\nDATE key\n"),
    .read (.ofText ("[Settings]\nCLASS m\n[Fields]\nDATE ! a\nDATE ! b\n" ++
      "[ForeignKeys]\nb constrainsTo x.y\n")),
    .read (.ofText "[Settings]\nCLASS j\nLINK m c\n")]

theorem membership_values :
    ∃ j ∈ ((run membership).materialize ⟨"J", "M", "C"⟩).1.find? "J",
      ∃ m ∈ (run membership).find? "M", ∃ c ∈ (run membership).find? "C",
        j.columns.map (fun c => (c.columnName, c.fieldName, c.type)) =
          [("M_A", "mA", .date), ("M_B", "mB", .date), ("C_KEY", "cKey", .long)] ∧
        Constraint.Returns ⟨"FK_J_M_A_M_B_TO_M", "J", "J", ["M_A", "M_B"], "M", "M", ["A", "B"]⟩
          j m (m.keyClones "J" "") ∧
        Constraint.Returns ⟨"FK_J_C_KEY_TO_C", "J", "J", ["C_KEY"], "C", "C", ["KEY"]⟩
          j c (c.keyClones "J" "") := by
  decide +kernel

/-- The columns and the constraints of the link, as values. -/
theorem linkKeys_resolve_membership :
    (∃ after key key' joint,
      (run membership).materialize ⟨"J", "M", "C"⟩ = (after, none) ∧
      after.foreignKeys = (run membership).foreignKeys ++ [key, key'] ∧
      joint.columns.map (fun c => (c.columnName, c.fieldName, c.type)) =
        [("M_A", "mA", .date), ("M_B", "mB", .date), ("C_KEY", "cKey", .long)] ∧
      ∀ later : List Call, (later.foldl apply after).find? "J" = some joint ∧
        (later.foldl apply after).resolve key =
          .ok ⟨"FK_J_M_A_M_B_TO_M", "J", "J", ["M_A", "M_B"], "M", "M", ["A", "B"]⟩ ∧
        (later.foldl apply after).resolve key' =
          .ok ⟨"FK_J_C_KEY_TO_C", "J", "J", ["C_KEY"], "C", "C", ["KEY"]⟩) ∧
    ∃ built d,
      (run membership).materializeAll (Link.buildOrder (run membership).links) = .ok built ∧
      (run membership).finish = .error d ∧
      ∃ key ∈ empty.declaredByAll membership, built.resolve key = .error d := by
  obtain ⟨resolve, blame⟩ := linkKeys_resolve membership
  have outcomes : ((run membership).materialize ⟨"J", "M", "C"⟩).2 = none ∧
      ((run membership).materializeAll (Link.buildOrder (run membership).links)).isOk = true ∧
      (run membership).finish.isOk = false := by
    decide +kernel
  obtain ⟨builds, buildsAll, fails⟩ := outcomes
  constructor
  · cases done : (run membership).materialize ⟨"J", "M", "C"⟩ with
    | mk after outcome =>
      rw [done] at builds
      obtain rfl : outcome = none := builds
      obtain ⟨tables, joint, _, _, key, key', joins, copies, domain, _, _, keys, leads⟩ :=
        resolve _ after done
      obtain ⟨rfl, rfl⟩ := Link.copies_iff.mp copies
      obtain ⟨j, hj, m, hm, c, hc, columns, toM, toC⟩ := membership_values
      -- the tables of the link are the ones that were looked at
      have found (later : List Call) : (later.foldl apply after).find? "J" = some joint := by
        have found := (leads later).1.source_found
        rwa [domain] at found
      rw [done] at hj
      obtain rfl := Option.some.inj ((found []).symm.trans hj)
      obtain rfl := Option.some.inj (joins.one.symm.trans hm)
      obtain rfl := Option.some.inj (joins.two.symm.trans hc)
      refine ⟨after, key, key', joint, rfl, keys, columns, fun later => ⟨found later, ?_, ?_⟩⟩
      · exact (leads later).1.resolve_eq toM
      · exact (leads later).2.resolve_eq toC
  · cases build : (run membership).materializeAll (Link.buildOrder (run membership).links) with
    | error d =>
      rw [build] at buildsAll
      cases buildsAll
    | ok built =>
      cases done : (run membership).finish with
      | ok g =>
        rw [done] at fails
        cases fails
      | error d => exact ⟨built, d, rfl, rfl, blame built d build done⟩

end Registry

end TableSchema
