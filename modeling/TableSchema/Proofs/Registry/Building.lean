import TableSchema.Proofs.Registry.Keyed

/-!
Building all links.

When all links are built, each finds its joining table as it was at the start and the joined tables
as they are at the end (`Built`), because a table that is still to be linked has no keys and would
be refused as an end. So the links stand in an order in which none needs itself or a later one
(`Link.Ordered`), and the end does not depend on which such order it was:
`built_of_materializeAll` reads the end off a run, and `materializeAll_of_built` gives a run in any
other order with the same end.
-/

namespace TableSchema

namespace Link

/-- Whether an end of `l` is the table that `other` builds. -/
def Needs (l other : Link) : Prop := other.table = l.one ∨ other.table = l.two

/-- No link needs itself or a later one. -/
def Ordered (links : List Link) : Prop :=
  (∀ l ∈ links, ¬l.Needs l) ∧ links.Pairwise fun l later => ¬l.Needs later

theorem ordered_cons {l : Link} {links : List Link} :
    Ordered (l :: links) ↔ ¬l.Needs l ∧ (∀ m ∈ links, ¬l.Needs m) ∧ Ordered links := by
  simp only [Ordered, List.mem_cons, List.pairwise_cons]
  constructor
  · rintro ⟨self, later, rest⟩
    exact ⟨self l (.inl rfl), later, fun m hm => self m (.inr hm), rest⟩
  · rintro ⟨self, later, others, rest⟩
    refine ⟨?_, later, rest⟩
    rintro m (rfl | hm)
    · exact self
    · exact others m hm

/-- The ends of the first link are not built by any link. -/
theorem Ordered.ends_free {l : Link} {links : List Link} (h : Ordered (l :: links)) :
    l.one ∉ (l :: links).map Link.table ∧ l.two ∉ (l :: links).map Link.table := by
  obtain ⟨self, later, _⟩ := ordered_cons.mp h
  have free : ∀ m ∈ l :: links, ¬l.Needs m := by
    rintro m hm
    rcases List.mem_cons.mp hm with rfl | hm
    · exact self
    · exact later m hm
  constructor <;> intro built <;> obtain ⟨m, hm, same⟩ := List.mem_map.mp built
  · exact free m hm (.inl same)
  · exact free m hm (.inr same)

/-- The foreign keys of a link between the tables that `final` gives. -/
def keysIn (final : String → Option Table) (l : Link) : List ForeignKey :=
  match final l.table, final l.one, final l.two with
  | some joint, some one, some two => l.keys ⟨joint, one, two⟩
  | _, _, _ => []

theorem keysIn_congr {final final' : String → Option Table} {l : Link}
    (table : final' l.table = final l.table) (one : final' l.one = final l.one)
    (two : final' l.two = final l.two) : l.keysIn final' = l.keysIn final := by
  unfold keysIn
  rw [table, one, two]

theorem fromTable_of_mem_keysIn {final : String → Option Table} {l : Link} {key : ForeignKey}
    (hkey : key ∈ l.keysIn final) : key.fromTable = l.table := by
  unfold keysIn at hkey
  split at hkey
  · rcases List.mem_cons.mp hkey with rfl | hkey
    · rfl
    · obtain rfl := List.mem_singleton.mp hkey
      rfl
  · cases hkey

end Link

/-- What the tables `before` and `final` have to do with each other when `links` were built in
between. -/
structure Built (before final : String → Option Table) (links : List Link) : Prop where
  linked : ∀ l ∈ links, ∃ tables : LinkTables,
    before l.table = some tables.joint ∧ tables.joint.keyColumns = [] ∧
    final l.one = some tables.one ∧ tables.one.keyColumns ≠ [] ∧
    final l.two = some tables.two ∧ tables.two.keyColumns ≠ [] ∧
    tables.joint.Fits (l.clones tables) ∧ final l.table = some (l.build tables)
  unlinked : ∀ domain ∉ links.map Link.table, final domain = before domain

theorem Built.of_perm {before final : String → Option Table} {links others : List Link}
    (h : Built before final links) (perm : links.Perm others) : Built before final others where
  linked l hl := h.linked l (perm.mem_iff.mpr hl)
  unlinked domain hdomain := h.unlinked domain fun hl =>
    hdomain ((perm.map Link.table).mem_iff.mp hl)

theorem Built.keysIn_eq {before final : String → Option Table} {links : List Link} {l : Link}
    {one two : Table} (built : Built before final links) (hl : l ∈ links)
    (hone : final l.one = some one) (htwo : final l.two = some two) (joint : Table) :
    l.keysIn final = l.keys ⟨joint, one, two⟩ := by
  obtain ⟨tables, _, _, _, _, _, _, _, hjoint⟩ := built.linked l hl
  simp only [Link.keysIn, hjoint, hone, htwo]
  rfl

namespace Registry

variable {r b : Registry} {l : Link} {links : List Link}

theorem materializeAll_cons_eq_ok :
    r.materializeAll (l :: links) = .ok b ↔
      ∃ tables, r.Joins l tables ∧ tables.joint.Fits (l.clones tables) ∧
        (r.link l tables).materializeAll links = .ok b := by
  constructor
  · intro h
    rw [materializeAll] at h
    split at h
    · cases h
    · rename_i after built
      obtain ⟨tables, joins, fits, rfl⟩ := materialize_eq_none_iff.mp built
      exact ⟨tables, joins, fits, h⟩
  · rintro ⟨tables, joins, fits, h⟩
    rw [materializeAll, materialize_of_fits joins fits]
    exact h

/-- Building links is a run of calls. -/
theorem materializeAll_steps (h : r.materializeAll links = .ok b) :
    Relation.ReflTransGen Step r b := by
  induction links generalizing r with
  | nil =>
    cases h
    exact .refl
  | cons l links ih =>
    obtain ⟨tables, joins, fits, h⟩ := materializeAll_cons_eq_ok.mp h
    exact .head (.link joins fits) (ih h)

/-- What a successful run leaves: each link is built between the tables of the end. -/
theorem built_of_materializeAll (h : r.Indexed) (nodup : (links.map Link.table).Nodup)
    (done : r.materializeAll links = .ok b) :
    b.Indexed ∧ Built r.find? b.find? links ∧ Link.Ordered links := by
  induction links generalizing r with
  | nil =>
    cases done
    exact ⟨h, ⟨by simp, fun _ _ => rfl⟩, by simp, List.Pairwise.nil⟩
  | cons l links ih =>
    obtain ⟨tables, joins, fits, done⟩ := materializeAll_cons_eq_ok.mp done
    obtain ⟨fresh, nodup⟩ := List.nodup_cons.mp nodup
    obtain ⟨indexed, built, ordered⟩ := ih (h.link joins) nodup done
    have find := h.find?_link joins
    have apart : ∀ m ∈ links, m.table ≠ l.table := fun m hm same =>
      fresh (same ▸ List.mem_map_of_mem hm)
    -- a table with keys is not the joining table of `l` nor of a later link
    have keyed : ∀ {domain : String} {t : Table}, r.find? domain = some t → t.keyColumns ≠ [] →
        domain ≠ l.table ∧ domain ∉ links.map Link.table := by
      intro domain t found filled
      have notSelf := joins.ne_of_keyed found filled
      refine ⟨notSelf, fun later => ?_⟩
      obtain ⟨m, hm, rfl⟩ := List.mem_map.mp later
      obtain ⟨tables', hjoint, keyless, _⟩ := built.linked m hm
      rw [find, if_neg notSelf, found] at hjoint
      obtain rfl := Option.some.inj hjoint
      exact filled keyless
    -- so it is at the end as it is now
    have kept : ∀ {domain : String} {t : Table}, r.find? domain = some t → t.keyColumns ≠ [] →
        b.find? domain = some t := by
      intro domain t found filled
      obtain ⟨notSelf, notLater⟩ := keyed found filled
      rw [built.unlinked domain notLater, find, if_neg notSelf, found]
    have oneFree := keyed joins.one joins.oneKeyed
    have twoFree := keyed joins.two joins.twoKeyed
    refine ⟨indexed, ⟨?_, ?_⟩, Link.ordered_cons.mpr ⟨?_, ?_, ordered⟩⟩
    · intro m hm
      rcases List.mem_cons.mp hm with rfl | hm
      · refine ⟨tables, joins.joint, joins.keyless, kept joins.one joins.oneKeyed, joins.oneKeyed,
          kept joins.two joins.twoKeyed, joins.twoKeyed, fits, ?_⟩
        rw [built.unlinked _ fresh, find, if_pos rfl]
      · obtain ⟨tables', hjoint, rest⟩ := built.linked m hm
        rw [find, if_neg (apart m hm)] at hjoint
        exact ⟨tables', hjoint, rest⟩
    · intro domain hdomain
      simp only [List.map_cons, List.mem_cons, not_or] at hdomain
      rw [built.unlinked domain hdomain.2, find, if_neg hdomain.1]
    · rintro (same | same)
      · exact oneFree.1 same.symm
      · exact twoFree.1 same.symm
    · rintro m hm (same | same)
      · exact oneFree.2 (same ▸ List.mem_map_of_mem hm)
      · exact twoFree.2 (same ▸ List.mem_map_of_mem hm)

/-- What a successful run leaves as it was, and the foreign keys that it adds. -/
theorem frame_of_materializeAll (h : r.Indexed) (nodup : (links.map Link.table).Nodup)
    (done : r.materializeAll links = .ok b) :
    b.links = r.links ∧ b.tables.map Table.domain = r.tables.map Table.domain ∧
      b.foreignKeys = r.foreignKeys ++ links.flatMap (Link.keysIn b.find?) := by
  induction links generalizing r with
  | nil =>
    cases done
    simp
  | cons l links ih =>
    obtain ⟨_, built, ordered⟩ := built_of_materializeAll h nodup done
    obtain ⟨tables, joins, fits, done⟩ := materializeAll_cons_eq_ok.mp done
    obtain ⟨linksKept, domainsKept, keys⟩ := ih (h.link joins) (List.nodup_cons.mp nodup).2 done
    obtain ⟨oneFree, twoFree⟩ := ordered.ends_free
    have one : b.find? l.one = some tables.one := (built.unlinked _ oneFree).trans joins.one
    have two : b.find? l.two = some tables.two := (built.unlinked _ twoFree).trans joins.two
    have own : l.keysIn b.find? = l.keys tables :=
      built.keysIn_eq List.mem_cons_self one two tables.joint
    refine ⟨linksKept.trans (links_modify _ _ _), domainsKept.trans (h.domains_link joins), ?_⟩
    rw [keys, List.flatMap_cons, own, ← List.append_assoc]
    rfl

/-- Links that need no later one can be built in any such order, and the end is the same. -/
theorem materializeAll_of_built {before final : String → Option Table} {all : List Link}
    (built : Built before final all) (h : r.Indexed) (some' : ∀ l ∈ links, l ∈ all)
    (nodup : (links.map Link.table).Nodup) (ordered : Link.Ordered links)
    (todo : ∀ domain ∈ links.map Link.table, r.find? domain = before domain)
    (done : ∀ domain ∉ links.map Link.table, r.find? domain = final domain) :
    ∃ b, r.materializeAll links = .ok b ∧ ∀ domain, b.find? domain = final domain := by
  induction links generalizing r with
  | nil => exact ⟨r, rfl, fun domain => done domain (by simp)⟩
  | cons l links ih =>
    obtain ⟨tables, joint, keyless, one, oneKeyed, two, twoKeyed, fits, result⟩ :=
      built.linked l (some' l List.mem_cons_self)
    obtain ⟨oneFree, twoFree⟩ := ordered.ends_free
    obtain ⟨fresh, nodup⟩ := List.nodup_cons.mp nodup
    -- the joining table is still to be built, and the ends are as they will be at the end
    have joins : r.Joins l tables :=
      ⟨(todo _ (by simp)).trans joint, keyless, (done _ oneFree).trans one, oneKeyed,
        (done _ twoFree).trans two, twoKeyed⟩
    have find := h.find?_link joins
    obtain ⟨b, rest, same⟩ := ih (h.link joins) (fun m hm => some' m (List.mem_cons_of_mem _ hm))
      nodup (Link.ordered_cons.mp ordered).2.2
      (fun domain hdomain => by
        have apart : domain ≠ l.table := fun same => fresh (same ▸ hdomain)
        rw [find, if_neg apart]
        exact todo domain (List.mem_cons_of_mem _ hdomain))
      (fun domain hdomain => by
        rw [find]
        split
        · rename_i same
          rw [same, result]
        · rename_i apart
          exact done domain (by simp [apart, hdomain]))
    exact ⟨b, materializeAll_cons_eq_ok.mpr ⟨tables, joins, fits, rest⟩, same⟩

end Registry

end TableSchema
