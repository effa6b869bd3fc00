import TableSchema.Proofs.Registry.History
import TableSchema.Proofs.Schema.Finish

/-!
Schemas fit together.

Whatever a run did before it ended in a schema, the schema is one piece (`Schema.Integral`): its
tables are those of the registry, every constraint stands between columns that exist and is attached
to the table that it leaves, and every link has its table.

The count of constraints needs a remark. A link that was built before the end of the run would have
declared foreign keys too. But its table then has keys, so the same link cannot be built again, and
the run does not end in a schema (`not_linkedEarly_of_built`).
-/

namespace TableSchema

namespace Registry

/-- Some link has been built, at least in part. -/
def LinkedEarly (r : Registry) : Prop :=
  ∃ t ∈ r.tables, t.manyToMany = true ∧ t.keyColumns ≠ []

end Registry

/-- A constraint leads from columns of `source` to as many columns of `target`, and to some. -/
structure Constraint.Spans (c : Constraint) (source target : Table) : Prop where
  fromTable : c.fromTable = source.domain
  fromTableName : c.fromTableName = source.name
  toTable : c.toTable = target.domain
  toTableName : c.toTableName = target.name
  filled : c.fromColumns ≠ []
  arity : c.fromColumns.length = c.toColumns.length
  fromColumns : ∀ name ∈ c.fromColumns, ∃ column ∈ source.columns, column.columnName = name
  toColumns : ∀ name ∈ c.toColumns, ∃ column ∈ target.columns, column.columnName = name

/-- The schema `g` fits together, and it comes from the registry `r` in which the foreign keys
`declared` were read. -/
structure Schema.Integral (r : Registry) (declared : List ForeignKey) (g : Schema) : Prop where
  domains : g.tables.map Table.domain = r.tables.map Table.domain
  attached : ∀ t ∈ g.tables, t.foreignKeys = g.constraints.filter fun c => c.fromTable == t.domain
  spans : ∀ c ∈ g.constraints, ∃ source ∈ g.tables, ∃ target ∈ g.tables, c.Spans source target
  links : g.links = r.links
  linkTables : g.linkTables = g.tables.filter Table.manyToMany
  endpoints : g.linkTables.map (fun t => (t.domain, t.endpoints)) =
    g.links.map fun l => (l.table, some ⟨l.one, l.two⟩)
  count : g.constraints.length = declared.length + 2 * g.links.length

namespace Registry

variable {r r' b : Registry} {g : Schema}

/-! ## Links that are built before the end -/

/-- Once a link is built, it stays built. -/
theorem LinkedEarly.steps (h : r.LinkedEarly) (sound : r.Sound)
    (steps : Relation.ReflTransGen Step r r') : r'.LinkedEarly := by
  obtain ⟨t, ht, joins, keyed⟩ := h
  have found := sound.find?_of_keyed steps (sound.indexed.find?_domain ht) keyed
  exact ⟨t, ((sound.steps steps).indexed.find?_eq_some_iff.mp found).1, joins, keyed⟩

theorem linkedEarly_link {l : Link} {tables : LinkTables} (sound : r.Sound)
    (joined : r.Joins l tables) : (r.link l tables).LinkedEarly := by
  refine ⟨l.build tables, sound.indexed.build_mem joined, rfl, ?_⟩
  rw [Link.keyColumns_build joined.keyless]
  exact Link.clones_ne_nil joined.oneKeyed

/-- A call that declares foreign keys for a link has built this link. -/
theorem synthesisedBy_eq_nil_or (sound : r.Sound) (call : Call) :
    r.synthesisedBy call = [] ∨ (r.apply call).LinkedEarly := by
  cases call with
  | read s => exact .inl rfl
  | materialize l =>
    show _ ∨ (r.materialize l).1.LinkedEarly
    cases outcome : (r.materialize l).2 with
    | some dangling => exact .inl (synthesisedBy_of_some outcome)
    | none =>
      have done : r.materialize l = ((r.materialize l).1, none) := by rw [← outcome]
      obtain ⟨tables, joined, _, after⟩ := materialize_eq_none_iff.mp done
      rw [after]
      exact .inr (linkedEarly_link sound joined)

/-- Unless a link has been built, the foreign keys of a registry are those that were read. -/
theorem foreignKeys_foldl_apply (sound : r.Sound) (calls : List Call) :
    (calls.foldl apply r).foreignKeys = r.foreignKeys ++ r.declaredByAll calls ∨
      (calls.foldl apply r).LinkedEarly := by
  induction calls generalizing r with
  | nil => exact .inl (List.append_nil _).symm
  | cons call calls ih =>
    have sound' := sound.step (step_apply r call)
    rcases synthesisedBy_eq_nil_or sound call with read | early
    · rcases ih sound' with rest | early
      · left
        rw [List.foldl_cons, rest, sound.indexed.foreignKeys_apply, read, List.append_nil,
          declaredByAll, List.append_assoc]
      · exact .inr early
    · exact .inr (early.steps sound' (steps_foldl_apply calls _))

/-- When all links of a registry can be built, none has been built before. -/
theorem not_linkedEarly_of_built (sound : r.Sound) (built : Built r.find? b.find? r.links) :
    ¬r.LinkedEarly := by
  rintro ⟨t, ht, joins, keyed⟩
  obtain ⟨l, hl, same⟩ := (sound.manyToMany_iff ht).mp joins
  -- for the link of `t` to be built, `t` has to be without keys
  obtain ⟨tables, joint, keyless, _⟩ := built.linked l hl
  rw [same, sound.indexed.find?_domain ht] at joint
  obtain rfl := Option.some.inj joint
  exact keyed keyless

/-- When all links of a run can be built, the run has the foreign keys that it has read. -/
theorem foreignKeys_run {calls : List Call}
    (built : Built (run calls).find? b.find? (run calls).links) :
    (run calls).foreignKeys = empty.declaredByAll calls := by
  have sound : (run calls).Sound := Reachable.sound ⟨calls, rfl⟩
  rcases foreignKeys_foldl_apply sound_empty calls with read | early
  · exact read
  · exact absurd early (not_linkedEarly_of_built sound built)

/-! ## The schema -/

namespace Finished

variable (finished : r.Finished g b)

include finished

theorem attached_mem {u : Table} (hu : u ∈ b.tables) : u.attached g.constraints ∈ g.tables := by
  rw [finished.schema]
  exact List.mem_map_of_mem hu

/-- Every constraint stands between columns of two tables of the schema. -/
theorem exists_spans {c : Constraint} (hc : c ∈ g.constraints) :
    ∃ source ∈ g.tables, ∃ target ∈ g.tables, c.Spans source target := by
  obtain ⟨key, hkey, resolved⟩ := exists_of_resolved finished.resolved hc
  obtain ⟨source, target, fromColumns, toColumns, hsource, htarget, hfrom, hto, same, rfl⟩ :=
    resolve_eq_ok.mp resolved
  obtain ⟨_, _, leaves⟩ := finished.sound.foreignKeys key hkey
  obtain ⟨fromLength, fromFound⟩ := Table.exists_column_of_columnNames hfrom
  obtain ⟨_, toFound⟩ := Table.exists_column_of_columnNames hto
  have filled : fromColumns ≠ [] := by
    rintro rfl
    exact leaves.fromFields (List.length_eq_zero_iff.mp fromLength.symm)
  have source' : source ∈ b.tables := (finished.sound.indexed.find?_eq_some_iff.mp hsource).1
  have target' : target ∈ b.tables := (finished.sound.indexed.find?_eq_some_iff.mp htarget).1
  exact ⟨_, finished.attached_mem source', _, finished.attached_mem target',
    ⟨rfl, rfl, rfl, rfl, filled, same, fromFound, toFound⟩⟩

/-- The table of a link joins what the link says. -/
theorem endpoints_of_link {l : Link} (hl : l ∈ r.links) :
    ∃ t, b.find? l.table = some t ∧ t.endpoints = some ⟨l.one, l.two⟩ := by
  obtain ⟨tables, _, _, _, _, _, _, _, found⟩ := finished.built.linked l hl
  exact ⟨_, found, rfl⟩

/-- At the end exactly the tables that join others have end points. -/
theorem isSome_endpoints {t : Table} (ht : t ∈ b.tables) :
    t.endpoints.isSome = t.manyToMany := by
  cases joins : t.manyToMany with
  | false =>
    rw [Option.isSome_eq_false_iff, Option.isNone_iff_eq_none]
    by_contra linked
    exact Bool.false_ne_true (joins.symm.trans ((finished.sound.tables t ht).linked linked).1)
  | true =>
    obtain ⟨l, hl, same⟩ := (finished.sound.manyToMany_iff ht).mp joins
    rw [finished.links] at hl
    obtain ⟨u, found, linked⟩ := finished.endpoints_of_link hl
    rw [same, finished.sound.indexed.find?_domain ht] at found
    obtain rfl := Option.some.inj found
    simp [linked]

theorem linkTables_eq : g.linkTables = g.tables.filter Table.manyToMany := by
  refine List.filter_congr fun t ht => ?_
  rw [finished.schema] at ht
  obtain ⟨u, hu, rfl⟩ := List.mem_map.mp ht
  show u.endpoints.isSome = u.manyToMany
  exact finished.isSome_endpoints hu

/-- The link tables follow the links one by one. -/
theorem map_endpoints :
    g.linkTables.map (fun t => (t.domain, t.endpoints)) =
      r.links.map fun l => (l.table, some ⟨l.one, l.two⟩) := by
  -- both lists are read off the classes of the link tables
  let ends (domain : String) := (domain, (b.find? domain).bind Table.endpoints)
  have ofLinks : (r.links.map fun l => (l.table, some (⟨l.one, l.two⟩ : Endpoints))) =
      (r.links.map Link.table).map ends := by
    rw [List.map_map]
    refine List.map_congr_left fun l hl => ?_
    obtain ⟨t, found, linked⟩ := finished.endpoints_of_link hl
    simp [ends, found, linked]
  have ofTables : g.linkTables.map (fun t => (t.domain, t.endpoints)) =
      (b.tables.filter Table.manyToMany).map fun t => (t.domain, t.endpoints) := by
    rw [finished.linkTables_eq, finished.schema, List.filter_map, List.map_map]
    rfl
  rw [ofTables, ofLinks, ← finished.links, finished.sound.map_table_links, List.map_map]
  refine List.map_congr_left fun t ht => ?_
  simp [ends, finished.sound.indexed.find?_domain (List.mem_of_mem_filter ht)]

/-- Every link gives two constraints. -/
theorem length_constraints :
    g.constraints.length = r.foreignKeys.length + 2 * r.links.length := by
  have two : ∀ l ∈ Link.buildOrder r.links, (l.keysIn b.find?).length = 2 := by
    intro l hl
    have member : l ∈ r.links := (Link.buildOrder_perm r.links).mem_iff.mp hl
    obtain ⟨tables, _, _, one, _, two, _⟩ := finished.built.linked l member
    rw [finished.built.keysIn_eq member one two tables.joint]
    rfl
  have keys : ((Link.buildOrder r.links).flatMap (Link.keysIn b.find?)).length =
      2 * r.links.length := by
    rw [List.length_flatMap, List.map_congr_left two, List.map_const', List.sum_replicate_nat,
      (Link.buildOrder_perm r.links).length_eq, Nat.mul_comm]
  rw [← finished.resolved.length_eq, finished.foreignKeys, List.length_append, keys]

end Finished

/-- A schema in which a run ends fits together. -/
theorem finish_integral {calls : List Call} (done : (run calls).finish = .ok g) :
    Schema.Integral (run calls) (empty.declaredByAll calls) g := by
  have sound : (run calls).Sound := Reachable.sound ⟨calls, rfl⟩
  obtain ⟨b, finished⟩ := sound.finished done
  have declared : (run calls).foreignKeys = empty.declaredByAll calls :=
    foreignKeys_run finished.built
  have schema := finished.schema
  have links : g.links = (run calls).links := congrArg Schema.links schema
  refine ⟨?_, ?_, fun c hc => finished.exists_spans hc, links, finished.linkTables_eq, ?_, ?_⟩
  · have tables : g.tables = b.tables.map (Table.attached g.constraints) :=
      congrArg Schema.tables schema
    rw [tables, List.map_map, ← finished.domains]
    rfl
  · intro t ht
    rw [schema] at ht
    obtain ⟨u, hu, rfl⟩ := List.mem_map.mp ht
    simp [Table.attached, (finished.sound.tables u hu).unattached]
  · rw [links]
    exact finished.map_endpoints
  · rw [links, ← declared]
    exact finished.length_constraints

/-- Authors and their books, with a link that is tried once before the books are there. -/
def authorship : List Call :=
  [.read (.ofText "[Settings]\nCLASS author\n[Fields]\nSTRING(10) ! code\n"),
    .read (.ofText "[Settings]\nCLASS writes\nLINK author book\n"),
    .materialize ⟨"Writes", "Author", "Book"⟩,
    .read (.ofText ("[Settings]\nCLASS book\n[Fields]\nLONG(9) ! id\nSTRING(10) owner\n" ++
      "[ForeignKeys]\nowner CONSTRAINSTO author.code\n"))]

theorem finish_integral_authorship : ∃ g, (run authorship).finish = .ok g ∧
    Schema.Integral (run authorship) (empty.declaredByAll authorship) g := by
  have succeeds : (run authorship).finish.isOk = true := by decide +kernel
  cases done : (run authorship).finish with
  | error dangling =>
    rw [done] at succeeds
    cases succeeds
  | ok g => exact ⟨g, rfl, finish_integral done⟩

end Registry

end TableSchema
