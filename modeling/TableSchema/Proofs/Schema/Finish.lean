import Mathlib.Data.List.Forall2
import TableSchema.Proofs.Link.Order
import TableSchema.Schema

/-!
The end of a run.

A foreign key is resolved by looking up its tables and then its fields (`resolve_eq_ok`), and each
foreign key gives one constraint, in order (`resolveAll_eq_ok`). Attaching the constraints gives
every table those that leave it (`Indexed.tables_attachAll`). `finish_eq_ok` puts the parts
together.
-/

namespace TableSchema

open List (Forall₂)

/-- The table with those of the constraints that leave it. -/
def Table.attached (constraints : List Constraint) (t : Table) : Table :=
  { t with foreignKeys := t.foreignKeys ++ constraints.filter fun c => c.fromTable == t.domain }

/-- Constraints that leave other tables do not matter. -/
theorem Table.attached_filter {p : String → Bool} {t : Table} (kept : p t.domain = true)
    (constraints : List Constraint) :
    t.attached (constraints.filter fun c => p c.fromTable) = t.attached constraints := by
  have same : ∀ c ∈ constraints,
      (c.fromTable == t.domain && p c.fromTable) = (c.fromTable == t.domain) := by
    intro c _
    by_cases own : c.fromTable = t.domain
    · simp [own, kept]
    · simp [own]
  rw [Table.attached, Table.attached, List.filter_filter, List.filter_congr same]

/-- The column names of fields are those of the columns that the fields lead to. -/
theorem Table.columnNames_eq_ok {t : Table} {fields names : List String} :
    t.columnNames fields = .ok names ↔
      Forall₂ (fun field name => ∃ c, t.column? field = some c ∧ c.columnName = name)
        fields names := by
  induction fields generalizing names with
  | nil =>
    rw [columnNames, List.forall₂_nil_left_iff]
    exact ⟨fun h => (Except.ok.inj h).symm, fun h => congrArg _ h.symm⟩
  | cons field fields ih =>
    rw [columnNames, List.forall₂_cons_left_iff]
    cases found : t.column? field with
    | none => simp
    | some column =>
      constructor
      · intro h
        obtain ⟨rest, read, h⟩ := Except.bind_eq_ok.mp h
        exact ⟨_, rest, ⟨column, rfl, rfl⟩, ih.mp read, (Except.pure_eq_ok.mp h).symm⟩
      · rintro ⟨_, rest, ⟨c, same, rfl⟩, read, rfl⟩
        obtain rfl := Option.some.inj same
        exact Except.bind_eq_ok.mpr ⟨rest, ih.mpr read, rfl⟩

/-- Every column name that fields lead to is the name of a column. -/
theorem Table.exists_column_of_columnNames {t : Table} {fields names : List String}
    (h : t.columnNames fields = .ok names) :
    names.length = fields.length ∧ ∀ name ∈ names, ∃ c ∈ t.columns, c.columnName = name := by
  have each := columnNames_eq_ok.mp h
  clear h
  induction each with
  | nil => simp
  | cons found _ ih =>
    obtain ⟨c, lookup, rfl⟩ := found
    obtain ⟨length, rest⟩ := ih
    refine ⟨by simp [length], fun name hname => ?_⟩
    rcases List.mem_cons.mp hname with rfl | hname
    · exact ⟨c, List.mem_of_find?_eq_some lookup, rfl⟩
    · exact rest name hname

namespace Registry

variable {r : Registry}

/-- A foreign key is resolved when both tables are there, its fields are there, and there are as
many on either side. -/
theorem resolve_eq_ok {key : ForeignKey} {c : Constraint} :
    r.resolve key = .ok c ↔
      ∃ source target fromColumns toColumns,
        r.find? key.fromTable = some source ∧ r.find? key.toTable = some target ∧
        source.columnNames key.fromFields = .ok fromColumns ∧
        target.columnNames key.toFields = .ok toColumns ∧
        fromColumns.length = toColumns.length ∧
        c = .between source fromColumns target toColumns := by
  constructor
  · intro h
    unfold resolve at h
    split at h
    · rename_i source target hsource htarget
      obtain ⟨fromColumns, hfrom, h⟩ := Except.bind_eq_ok.mp h
      obtain ⟨toColumns, hto, h⟩ := Except.bind_eq_ok.mp h
      split at h
      · rename_i same
        cases h
        exact ⟨source, target, fromColumns, toColumns, hsource, htarget, hfrom, hto, same, rfl⟩
      · cases h
    · cases h
  · rintro ⟨source, target, fromColumns, toColumns, hsource, htarget, hfrom, hto, same, rfl⟩
    simp only [resolve, hsource, htarget, hfrom, hto]
    exact if_pos same

/-- Foreign keys are resolved one by one. -/
theorem resolveAll_eq_ok {keys : List ForeignKey} {constraints : List Constraint} :
    r.resolveAll keys = .ok constraints ↔
      Forall₂ (fun key c => r.resolve key = .ok c) keys constraints := by
  induction keys generalizing constraints with
  | nil =>
    rw [resolveAll, List.forall₂_nil_left_iff]
    exact ⟨fun h => (Except.ok.inj h).symm, fun h => congrArg _ h.symm⟩
  | cons key keys ih =>
    rw [List.forall₂_cons_left_iff]
    constructor
    · intro h
      obtain ⟨c, first, h⟩ := Except.bind_eq_ok.mp h
      obtain ⟨rest, read, h⟩ := Except.bind_eq_ok.mp h
      exact ⟨c, rest, first, ih.mp read, (Except.pure_eq_ok.mp h).symm⟩
    · rintro ⟨c, rest, first, read, rfl⟩
      exact Except.bind_eq_ok.mpr ⟨c, first, Except.bind_eq_ok.mpr ⟨rest, ih.mpr read, rfl⟩⟩

/-- If foreign keys are not all resolved, one of them is not. -/
theorem exists_of_resolveAll_eq_error {keys : List ForeignKey} {d : Dangling}
    (h : r.resolveAll keys = .error d) : ∃ key ∈ keys, r.resolve key = .error d := by
  induction keys with
  | nil => cases h
  | cons key keys ih =>
    rcases Except.bind_eq_error.mp h with first | ⟨_, _, h⟩
    · exact ⟨key, List.mem_cons_self, first⟩
    · rcases Except.bind_eq_error.mp h with rest | ⟨_, _, done⟩
      · obtain ⟨key', hkey, failed⟩ := ih rest
        exact ⟨key', List.mem_cons_of_mem _ hkey, failed⟩
      · cases done

theorem exists_of_resolved {keys : List ForeignKey} {constraints : List Constraint}
    (resolved : Forall₂ (fun key c => r.resolve key = .ok c) keys constraints) {c : Constraint}
    (hc : c ∈ constraints) : ∃ key ∈ keys, r.resolve key = .ok c := by
  induction resolved with
  | nil => cases hc
  | cons first _ ih =>
    rcases List.mem_cons.mp hc with rfl | hc
    · exact ⟨_, List.mem_cons_self, first⟩
    · obtain ⟨key, hkey, found⟩ := ih hc
      exact ⟨key, List.mem_cons_of_mem _ hkey, found⟩

theorem resolved_unique {keys : List ForeignKey} {constraints others : List Constraint}
    (resolved : Forall₂ (fun key c => r.resolve key = .ok c) keys constraints)
    (resolved' : Forall₂ (fun key c => r.resolve key = .ok c) keys others) :
    constraints = others := by
  have unique : Relator.RightUnique fun key c => r.resolve key = .ok c :=
    fun key c c' hc hc' => Except.ok.inj (hc.symm.trans hc')
  exact List.right_unique_forall₂' unique resolved resolved'

/-- The constraint of a foreign key leaves the class that the key leaves. -/
theorem Indexed.fromTable_of_resolve (h : r.Indexed) {key : ForeignKey} {c : Constraint}
    (resolved : r.resolve key = .ok c) : c.fromTable = key.fromTable := by
  obtain ⟨source, _, _, _, found, _, _, _, _, rfl⟩ := resolve_eq_ok.mp resolved
  exact (h.find?_eq_some_iff.mp found).2

/-- Attaching constraints gives every table those that leave it, in order. -/
theorem Indexed.tables_attachAll (h : r.Indexed) (constraints : List Constraint) :
    (constraints.foldl attach r).tables = r.tables.map (Table.attached constraints) := by
  induction constraints generalizing r with
  | nil =>
    have same : ∀ t ∈ r.tables, Table.attached [] t = t := fun t _ => by simp [Table.attached]
    exact (List.map_congr_left same |>.trans (List.map_id' _)).symm
  | cons c constraints ih =>
    have indexed : (r.attach c).Indexed := h.modify fun _ _ same => same
    have tables : (r.attach c).tables =
        r.tables.map fun t => if t.domain = c.fromTable then t.addConstraint c else t :=
      h.tables_modify _ _
    rw [List.foldl_cons, ih indexed, tables, List.map_map]
    refine List.map_congr_left fun t _ => ?_
    by_cases leaves : t.domain = c.fromTable
    · simp [Table.attached, Table.addConstraint, leaves]
    · have other : (c.fromTable == t.domain) = false := by simpa using Ne.symm leaves
      simp [Table.attached, leaves, other]

/-- A run ends in a schema when all links can be built and all foreign keys resolved after that. -/
theorem finish_eq_ok {g : Schema} :
    r.finish = .ok g ↔
      ∃ built constraints, r.materializeAll (Link.buildOrder r.links) = .ok built ∧
        Forall₂ (fun key c => built.resolve key = .ok c) built.foreignKeys constraints ∧
        g = ⟨(constraints.foldl attach built).tables, constraints, r.links⟩ := by
  unfold finish
  constructor
  · intro h
    obtain ⟨built, build, h⟩ := Except.bind_eq_ok.mp h
    obtain ⟨constraints, resolve, h⟩ := Except.bind_eq_ok.mp h
    exact ⟨built, constraints, build, resolveAll_eq_ok.mp resolve, (Except.pure_eq_ok.mp h).symm⟩
  · rintro ⟨built, constraints, build, resolve, rfl⟩
    exact Except.bind_eq_ok.mpr
      ⟨built, build, Except.bind_eq_ok.mpr ⟨constraints, resolveAll_eq_ok.mpr resolve, rfl⟩⟩

/-- A run fails on a link, or on a foreign key once all links are built. -/
theorem finish_eq_error {d : Dangling} (h : r.finish = .error d) :
    r.materializeAll (Link.buildOrder r.links) = .error d ∨
      ∃ built, r.materializeAll (Link.buildOrder r.links) = .ok built ∧
        ∃ key ∈ built.foreignKeys, built.resolve key = .error d := by
  unfold finish at h
  rcases Except.bind_eq_error.mp h with unbuilt | ⟨built, build, h⟩
  · exact .inl unbuilt
  · rcases Except.bind_eq_error.mp h with failed | ⟨_, _, done⟩
    · exact .inr ⟨built, build, exists_of_resolveAll_eq_error failed⟩
    · cases done

/-- The parts of a run that ends in a schema. -/
structure Finished (r : Registry) (g : Schema) (b : Registry) : Prop where
  sound : b.Sound
  built : Built r.find? b.find? r.links
  links : b.links = r.links
  domains : b.tables.map Table.domain = r.tables.map Table.domain
  foreignKeys : b.foreignKeys =
    r.foreignKeys ++ (Link.buildOrder r.links).flatMap (Link.keysIn b.find?)
  resolved : List.Forall₂ (fun key c => b.resolve key = .ok c) b.foreignKeys g.constraints
  schema : g = ⟨b.tables.map (Table.attached g.constraints), g.constraints, r.links⟩

/-- Every link table is built by one link of the order. -/
theorem Sound.nodup_buildOrder (h : r.Sound) :
    ((Link.buildOrder r.links).map Link.table).Nodup :=
  ((Link.buildOrder_perm r.links).map Link.table).nodup_iff.mpr h.nodup_links

theorem Sound.finished_of_resolved {b : Registry} {constraints : List Constraint} (h : r.Sound)
    (build : r.materializeAll (Link.buildOrder r.links) = .ok b)
    (resolved : Forall₂ (fun key c => b.resolve key = .ok c) b.foreignKeys constraints) :
    r.Finished ⟨(constraints.foldl attach b).tables, constraints, r.links⟩ b := by
  obtain ⟨indexed, built, _⟩ := built_of_materializeAll h.indexed h.nodup_buildOrder build
  obtain ⟨links, domains, foreignKeys⟩ := frame_of_materializeAll h.indexed h.nodup_buildOrder build
  refine ⟨h.steps (materializeAll_steps build), built.of_perm (Link.buildOrder_perm r.links), links,
    domains, foreignKeys, resolved, ?_⟩
  rw [indexed.tables_attachAll]

theorem Sound.finished {g : Schema} (h : r.Sound) (done : r.finish = .ok g) :
    ∃ b, r.Finished g b := by
  obtain ⟨b, constraints, build, resolved, rfl⟩ := finish_eq_ok.mp done
  exact ⟨b, h.finished_of_resolved build resolved⟩

/-- A class leads to the same table in a schema as in the registry of all built links, but for the
constraints that are attached to it. -/
theorem Finished.table?_eq {g : Schema} {b : Registry} (h : r.Finished g b) (domain : String) :
    g.table? domain = (b.find? domain).map (Table.attached g.constraints) := by
  have tables : g.tables = b.tables.map (Table.attached g.constraints) :=
    congrArg Schema.tables h.schema
  unfold Schema.table?
  rw [tables, List.find?_map, h.sound.indexed.find?_eq]
  rfl

end Registry

end TableSchema
