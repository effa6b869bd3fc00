import TableSchema.Proofs.Registry.ReadEffect
import TableSchema.Proofs.Schema.Rearranged

/-!
One more definition.

A run that ends in a schema can be given one more definition. If it still ends in a schema, nothing
in the first schema has changed: the new table stands behind the others, and all constraints that
are new leave it (`finish_extends`).

The reason is that nothing in the first schema can refer to the new class, which was not there. So
no link waits for the link of the new table, which is therefore built last (`buildOrder_add`), and
the other links are built from the same tables as before (`find?_of_materializeAll_add`). A foreign
key that leaves an old table leads to an old table, and is resolved as before.
-/

namespace TableSchema

open List (Forall₂)

/-- The schema `larger` is `g` with one more table, of the class `domain`, and with constraints that
leave this table. -/
structure Schema.Extends (larger g : Schema) (domain : String) : Prop where
  tables : ∃ t, t.domain = domain ∧ larger.tables = g.tables ++ [t]
  links : g.links <+: larger.links
  constraints : g.constraints.Sublist larger.constraints
  others : larger.constraints.filter (fun c => c.fromTable != domain) = g.constraints

/-- Links that have nothing to do with the class `domain` are built in the same way whatever the
table of this class is. -/
theorem Built.of_agree {before final before' final' : String → Option Table} {links : List Link}
    {domain : String} (h : Built before final links)
    (apart : ∀ l ∈ links, l.table ≠ domain ∧ l.one ≠ domain ∧ l.two ≠ domain)
    (starts : ∀ other ≠ domain, before' other = before other)
    (ends : ∀ other ≠ domain, final' other = final other)
    (kept : final' domain = before' domain) : Built before' final' links where
  linked l hl := by
    obtain ⟨tables, joint, keyless, one, oneKeyed, two, twoKeyed, fits, built⟩ := h.linked l hl
    obtain ⟨tableApart, oneApart, twoApart⟩ := apart l hl
    exact ⟨tables, (starts _ tableApart).trans joint, keyless, (ends _ oneApart).trans one, oneKeyed,
      (ends _ twoApart).trans two, twoKeyed, fits, (ends _ tableApart).trans built⟩
  unlinked other hother := by
    by_cases same : other = domain
    · rw [same, kept]
    · rw [ends other same, starts other same, h.unlinked other hother]

namespace Registry

variable {r b b' : Registry} {d : Definition} {g g' : Schema} {l : Link} {domain : String}

theorem materializeAll_append_eq_ok {front back : List Link} :
    r.materializeAll (front ++ back) = .ok b ↔
      ∃ middle, r.materializeAll front = .ok middle ∧ middle.materializeAll back = .ok b := by
  induction front generalizing r with
  | nil => simp [materializeAll]
  | cons l front ih =>
    rw [List.cons_append, materializeAll_cons_eq_ok]
    constructor
    · rintro ⟨tables, joins, fits, done⟩
      obtain ⟨middle, first, second⟩ := ih.mp done
      exact ⟨middle, materializeAll_cons_eq_ok.mpr ⟨tables, joins, fits, first⟩, second⟩
    · rintro ⟨middle, first, second⟩
      obtain ⟨tables, joins, fits, first⟩ := materializeAll_cons_eq_ok.mp first
      exact ⟨tables, joins, fits, ih.mpr ⟨middle, first, second⟩⟩

theorem Finished.find?_eq_none_iff (h : r.Finished g b) (indexed : r.Indexed) :
    b.find? domain = none ↔ r.find? domain = none := by
  rw [h.sound.indexed.free_iff, h.domains, indexed.free_iff]

/-- No link of a run that ends in a schema has to do with a class that is not registered. -/
theorem Finished.apart (h : r.Finished g b) (indexed : r.Indexed) (free : r.find? domain = none)
    (hl : l ∈ r.links) : l.table ≠ domain ∧ l.one ≠ domain ∧ l.two ≠ domain := by
  have free' : b.find? domain = none := (h.find?_eq_none_iff indexed).mpr free
  obtain ⟨tables, joint, _, one, _, two, _⟩ := h.built.linked l hl
  refine ⟨?_, ?_, ?_⟩
  · rintro rfl
    cases free.symm.trans joint
  · rintro rfl
    cases free'.symm.trans one
  · rintro rfl
    cases free'.symm.trans two

/-- The link of a definition is a link of its own table. -/
theorem table_of_mem_link (sound : d.Sound) (hl : l ∈ d.link.toList) :
    l.table = d.table.domain := by
  have link := sound.link
  rw [Option.mem_toList.mp hl, Option.map_some, Table.linkClass?] at link
  split at link
  · exact Option.some.inj link
  · cases link

theorem find?_of_materializeAll_link (indexed : r.Indexed) (sound : d.Sound)
    (done : r.materializeAll d.link.toList = .ok b) {other : String}
    (apart : other ≠ d.table.domain) : b.find? other = r.find? other := by
  cases declared : d.link with
  | none =>
    rw [declared] at done
    cases done
    rfl
  | some l =>
    have own : l.table = d.table.domain := table_of_mem_link sound (by simp [declared])
    rw [declared] at done
    obtain ⟨tables, joins, _, done⟩ := materializeAll_cons_eq_ok.mp done
    cases done
    rw [indexed.find?_link joins, if_neg (own ▸ apart)]

/-! ## A new definition in a run that ends in a schema -/

section

variable (h : r.Sound) (finished : r.Finished g b)
  (ordered : Link.Ordered (Link.buildOrder r.links)) (sound : d.Sound)
  (free : r.find? d.table.domain = none)

include h finished ordered sound free

/-- The link of a new definition is built behind all others. -/
theorem buildOrder_add :
    Link.buildOrder (r.add d).links = Link.buildOrder r.links ++ d.link.toList := by
  have links : (r.add d).links = r.links ++ d.link.toList := by rw [h.indexed.add_eq free]
  rw [links]
  cases declared : d.link with
  | none => simp
  | some l =>
    refine Link.buildOrder_append (Link.buildOrder_perm r.links).symm ordered fun m hm needs => ?_
    have own : l.table = d.table.domain := table_of_mem_link sound (by simp [declared])
    obtain ⟨_, one, two⟩ := finished.apart h.indexed free hm
    rcases needs with first | second
    · exact one (first.symm.trans own)
    · exact two (second.symm.trans own)

omit sound in
/-- The links that were there can all be built, and give the other classes the same tables. -/
theorem exists_materializeAll_add : ∃ middle,
    (r.add d).materializeAll (Link.buildOrder r.links) = .ok middle ∧
      ∀ other ≠ d.table.domain, middle.find? other = b.find? other := by
  have order := Link.buildOrder_perm r.links
  have added := h.indexed.find?_add free
  have built : Built (r.add d).find?
      (Function.update b.find? d.table.domain (some d.table)) (Link.buildOrder r.links) := by
    refine (finished.built.of_perm order.symm).of_agree
      (fun l hl => finished.apart h.indexed free (order.mem_iff.mp hl)) ?_ ?_ ?_
    · intro other different
      rw [added, if_neg different]
    · intro other different
      exact Function.update_of_ne different _ _
    · rw [added, if_pos rfl, Function.update_self]
  obtain ⟨middle, done, same⟩ := materializeAll_of_built built (h.indexed.add free)
    (fun _ hl => hl) h.nodup_buildOrder ordered (fun _ _ => rfl)
    fun other hother => (built.unlinked other hother).symm
  refine ⟨middle, done, fun other different => ?_⟩
  rw [same, Function.update_of_ne different]

/-- When all links are built, that of the new definition among them, the other classes have the same
tables as without it. -/
theorem find?_of_materializeAll_add
    (done : (r.add d).materializeAll (Link.buildOrder (r.add d).links) = .ok b')
    {other : String} (apart : other ≠ d.table.domain) : b'.find? other = b.find? other := by
  rw [buildOrder_add h finished ordered sound free] at done
  obtain ⟨middle, front, back⟩ := materializeAll_append_eq_ok.mp done
  obtain ⟨middle', front', same⟩ := exists_materializeAll_add h finished ordered free
  obtain rfl := Except.ok.inj (front.symm.trans front')
  have indexed : middle.Indexed :=
    ((h.add sound free).steps (materializeAll_steps front)).indexed
  rw [find?_of_materializeAll_link indexed sound back apart, same other apart]

end

/-! ## What the new definition adds -/

section

variable (agree : ∀ other ≠ domain, b'.find? other = b.find? other)

include agree

/-- A foreign key that is resolved without the table of a class is resolved in the same way with
it. -/
theorem resolve_of_agree (free : b.find? domain = none) {key : ForeignKey} {c : Constraint}
    (resolved : b.resolve key = .ok c) : b'.resolve key = .ok c := by
  have old : ∀ {other : String} {t : Table}, b.find? other = some t → b'.find? other = some t := by
    intro other t found
    rw [agree other ?_]
    · exact found
    · rintro rfl
      cases free.symm.trans found
  obtain ⟨source, target, fromColumns, toColumns, hsource, htarget, rest⟩ :=
    resolve_eq_ok.mp resolved
  exact resolve_eq_ok.mpr ⟨source, target, fromColumns, toColumns, old hsource, old htarget, rest⟩

/-- A registry with one more class has the old tables and one more. -/
theorem Indexed.exists_tables_append (h : b.Indexed) (h' : b'.Indexed) (free : b.find? domain = none)
    (domains : b'.tables.map Table.domain = b.tables.map Table.domain ++ [domain]) :
    ∃ t, t.domain = domain ∧ b'.tables = b.tables ++ [t] := by
  have front : (b.tables.map Table.domain).filterMap b'.find? = b.tables := by
    rw [List.filterMap_congr fun other hother => agree other ?_]
    · exact h.tables_eq.symm
    · rintro rfl
      exact h.free_iff.mp free hother
  have member : domain ∈ b'.tables.map Table.domain := by simp [domains]
  obtain ⟨t, ht, named⟩ := List.mem_map.mp member
  refine ⟨t, named, ?_⟩
  rw [h'.tables_eq, domains, List.filterMap_append, front]
  simp [h'.find?_eq_some_iff.mpr ⟨ht, named⟩]

end

/-- The foreign keys that do not leave the new class are those that there are without it. -/
theorem filter_foreignKeys_add (h : r.Sound) (finished : r.Finished g b)
    (finished' : (r.add d).Finished g' b') (sound : d.Sound) (free : r.find? d.table.domain = none)
    (ordered : Link.Ordered (Link.buildOrder r.links))
    (agree : ∀ other ≠ d.table.domain, b'.find? other = b.find? other) :
    (b'.foreignKeys.filter fun key => key.fromTable != d.table.domain) = b.foreignKeys := by
  have declared : (r.foreignKeys.filter fun key => key.fromTable != d.table.domain) =
      r.foreignKeys := by
    refine List.filter_eq_self.mpr fun key hkey => ?_
    obtain ⟨t, ht, leaves⟩ := h.foreignKeys key hkey
    rw [leaves.fromTable, bne_iff_ne]
    exact h.indexed.find?_eq_none_iff.mp free t ht
  have own : (d.foreignKeys.filter fun key => key.fromTable != d.table.domain) = [] := by
    refine List.filter_eq_nil_iff.mpr fun key hkey => ?_
    simp [(sound.foreignKeys key hkey).fromTable]
  have links : ((Link.buildOrder r.links).flatMap (Link.keysIn b'.find?)).filter
      (fun key => key.fromTable != d.table.domain) =
        (Link.buildOrder r.links).flatMap (Link.keysIn b.find?) := by
    have apart : ∀ l ∈ Link.buildOrder r.links, _ := fun l hl =>
      finished.apart h.indexed free ((Link.buildOrder_perm r.links).mem_iff.mp hl)
    rw [List.flatMap_congr fun l hl => Link.keysIn_congr (agree _ (apart l hl).1)
      (agree _ (apart l hl).2.1) (agree _ (apart l hl).2.2)]
    refine List.filter_eq_self.mpr fun key hkey => ?_
    obtain ⟨l, hl, hkey⟩ := List.mem_flatMap.mp hkey
    rw [Link.fromTable_of_mem_keysIn hkey, bne_iff_ne]
    exact (apart l hl).1
  have newLink : (d.link.toList.flatMap (Link.keysIn b'.find?)).filter
      (fun key => key.fromTable != d.table.domain) = [] := by
    refine List.filter_eq_nil_iff.mpr fun key hkey => ?_
    obtain ⟨l, hl, hkey⟩ := List.mem_flatMap.mp hkey
    simp [Link.fromTable_of_mem_keysIn hkey, table_of_mem_link sound hl]
  rw [finished'.foreignKeys, finished.foreignKeys, buildOrder_add h finished ordered sound free,
    h.indexed.add_eq free]
  simp only [List.filter_append, List.flatMap_append, declared, own, links, newLink,
    List.append_nil]

/-- The constraints that do not leave the new class are those that there are without it. -/
theorem filter_constraints_add (h : r.Sound) (finished : r.Finished g b)
    (finished' : (r.add d).Finished g' b') (sound : d.Sound) (free : r.find? d.table.domain = none)
    (ordered : Link.Ordered (Link.buildOrder r.links))
    (agree : ∀ other ≠ d.table.domain, b'.find? other = b.find? other) :
    (g'.constraints.filter fun c => c.fromTable != d.table.domain) = g.constraints := by
  have without := finished'.sound.indexed.resolved_filter finished'.resolved (· != d.table.domain)
  rw [filter_foreignKeys_add h finished finished' sound free ordered agree] at without
  have kept : Forall₂ (fun key c => b'.resolve key = .ok c) b.foreignKeys g.constraints :=
    finished.resolved.imp fun _ _ =>
      resolve_of_agree agree ((finished.find?_eq_none_iff h.indexed).mpr free)
  exact resolved_unique without kept

/-- The schema with the new definition, when there is one. -/
theorem Sound.extends_of_finish (h : r.Sound) (sound : d.Sound)
    (free : r.find? d.table.domain = none) (done : r.finish = .ok g)
    (done' : (r.add d).finish = .ok g') : g'.Extends g d.table.domain := by
  obtain ⟨b, constraints, build, resolved, rfl⟩ := finish_eq_ok.mp done
  obtain ⟨b', constraints', build', resolved', rfl⟩ := finish_eq_ok.mp done'
  have finished := h.finished_of_resolved build resolved
  have finished' := (h.add sound free).finished_of_resolved build' resolved'
  obtain ⟨_, _, ordered⟩ := built_of_materializeAll h.indexed h.nodup_buildOrder build
  have agree : ∀ other ≠ d.table.domain, b'.find? other = b.find? other := fun _ =>
    find?_of_materializeAll_add h finished ordered sound free build'
  have others : (constraints'.filter fun c => c.fromTable != d.table.domain) = constraints :=
    filter_constraints_add h finished finished' sound free ordered agree
  have added := h.indexed.add_eq free
  refine ⟨?_, ?_, ?_, others⟩
  · -- the old tables are the same before the constraints are attached, and no new one leaves them
    have free' : b.find? d.table.domain = none :=
      (finished.find?_eq_none_iff h.indexed).mpr free
    obtain ⟨t, named, tables⟩ := finished.sound.indexed.exists_tables_append agree
      finished'.sound.indexed free' (by rw [finished'.domains, finished.domains, added]; simp)
    refine ⟨t.attached constraints', named, ?_⟩
    show (constraints'.foldl attach b').tables =
      (constraints.foldl attach b).tables ++ [t.attached constraints']
    rw [finished'.sound.indexed.tables_attachAll, finished.sound.indexed.tables_attachAll, tables,
      List.map_append, ← others]
    refine congrArg (· ++ _) (List.map_congr_left fun old hold => ?_)
    have different := finished.sound.indexed.find?_eq_none_iff.mp free' old hold
    exact (Table.attached_filter (p := (· != d.table.domain)) (by simpa using different) _).symm
  · show r.links <+: (r.add d).links
    rw [added]
    exact List.prefix_append _ _
  · show constraints.Sublist constraints'
    rw [← others]
    exact List.filter_sublist

/-- When a run that ends in a schema reads one more definition, of a new class, and still ends in a
schema, this schema is the first one with one more table, and all constraints that are new leave
this table. -/
theorem finish_extends (h : r.Reachable) (done : r.finish = .ok g) {s : Scanner} {t : Table}
    {after : Registry} (read : r.read s = .ok (t, after)) (new : r.contains t.domain = false)
    (done' : after.finish = .ok g') : g'.Extends g t.domain := by
  have free : r.find? t.domain = none := find?_of_not_contains new
  rcases read_eq_ok read with ⟨_, taken⟩ | ⟨d, events, rfl, rfl⟩
  · -- a definition that was taken over is one of a class that is there
    obtain ⟨other, found⟩ := Definition.ofEvents_registered taken
    obtain ⟨_, rfl⟩ := h.sound.indexed.find?_eq_some_iff.mp found
    cases free.symm.trans found
  · exact h.sound.extends_of_finish (Definition.ofEvents_sound events).1 free done done'

/-- Authors, and who wrote with whom. -/
def writing : List Call :=
  [.read (.ofText "[Settings]\nCLASS team\nLINK author author\n"),
    .read (.ofText "[Settings]\nCLASS author\n")]

/-- Reviews of what was written: a link over the link table, with a foreign key of its own. -/
def review : Scanner :=
  .ofText ("[Settings]\nCLASS review\nLINK team author\n[Fields]\nLONG(9) critic\n" ++
    "[ForeignKeys]\ncritic constrainsTo author.key\n")

theorem finish_extends_review : ∃ g t after g', (run writing).finish = .ok g ∧
    (run writing).read review = .ok (t, after) ∧ after.finish = .ok g' ∧ g'.Extends g t.domain := by
  have ends : (run writing).finish.isOk = true := by decide +kernel
  have reads : ∃ result ∈ ((run writing).read review).toOption,
      (run writing).contains result.1.domain = false ∧ result.2.finish.isOk = true := by
    decide +kernel
  obtain ⟨g, done⟩ := Except.exists_of_isOk ends
  obtain ⟨⟨t, after⟩, read, new, ends'⟩ := reads
  rw [Except.mem_toOption] at read
  obtain ⟨g', done'⟩ := Except.exists_of_isOk ends'
  exact ⟨g, t, after, g', done, read, done', finish_extends ⟨writing, rfl⟩ done read new done'⟩

end Registry

end TableSchema
