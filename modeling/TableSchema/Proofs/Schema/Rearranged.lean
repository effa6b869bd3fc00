import Mathlib.Data.List.Perm.Basic
import TableSchema.Proofs.Link.Order
import TableSchema.Proofs.Schema.Finish

/-!
Registries with the same content in another order.

What was read in another order gives the same tables, links and foreign keys in another order, but
the foreign keys that leave one table stand together, in an order of their own
(`Registry.Rearranged`). Looking up a class does not see the order. So the links that can be built
are the same, they lead to the same tables, and the same foreign keys can be resolved
(`Rearranged.finish`).
-/

namespace TableSchema

open List (Forall₂)

/-- Elements that are made from items with different keys, and that can be told apart by the keys,
are the same for each key when the items change places. -/
theorem filter_flatMap_of_perm {α β κ : Type} [BEq κ] [LawfulBEq κ] {key : α → κ}
    {make : α → List β} {keyOf : β → κ} {items others : List α} (perm : items.Perm others)
    (nodup : (items.map key).Nodup) (keyed : ∀ a ∈ items, ∀ b ∈ make a, keyOf b = key a) (k : κ) :
    (items.flatMap make).filter (fun b => keyOf b == k) =
      (others.flatMap make).filter (fun b => keyOf b == k) := by
  induction perm with
  | nil => rfl
  | cons a _ ih =>
    rw [List.flatMap_cons, List.flatMap_cons, List.filter_append, List.filter_append,
      ih (List.nodup_cons.mp nodup).2 fun c hc => keyed c (List.mem_cons_of_mem _ hc)]
  | swap a c rest =>
    have apart : key c ≠ key a := by
      intro same
      simp [same] at nodup
    -- two items with different keys do not both make elements with the key `k`
    have one : ((make a).filter fun b => keyOf b == k) = [] ∨
        ((make c).filter fun b => keyOf b == k) = [] := by
      by_cases own : key a = k
      · refine .inr (List.filter_eq_nil_iff.mpr fun b hb => ?_)
        rw [keyed c List.mem_cons_self b hb, ← own]
        simpa using apart
      · refine .inl (List.filter_eq_nil_iff.mpr fun b hb => ?_)
        rw [keyed a (by simp) b hb]
        simpa using own
    simp only [List.flatMap_cons, List.filter_append]
    rcases one with none | none
    · rw [none]
      simp
    · rw [none]
      simp
  | trans first _ ih ih' =>
    rw [ih nodup keyed]
    exact ih' ((first.map key).nodup_iff.mp nodup) fun a ha => keyed a (first.mem_iff.mpr ha)

/-- The same schema but for the order of tables, constraints and links. -/
structure Schema.Rearranged (g g' : Schema) : Prop where
  tables : g.tables.Perm g'.tables
  constraints : g.constraints.Perm g'.constraints
  links : g.links.Perm g'.links

namespace Registry

variable {r r' b b' : Registry}

/-- The foreign keys that leave a class, in order. -/
def keysFrom (r : Registry) (domain : String) : List ForeignKey :=
  r.foreignKeys.filter fun key => key.fromTable == domain

/-- The same content in another order; the foreign keys that leave one class keep their order. -/
structure Rearranged (r r' : Registry) : Prop where
  tables : r.tables.Perm r'.tables
  links : r.links.Perm r'.links
  foreignKeys : r.foreignKeys.Perm r'.foreignKeys
  keysFrom : ∀ domain, r.keysFrom domain = r'.keysFrom domain

theorem Rearranged.symm (h : r.Rearranged r') : r'.Rearranged r :=
  ⟨h.tables.symm, h.links.symm, h.foreignKeys.symm, fun domain => (h.keysFrom domain).symm⟩

/-- Looking up a class does not see the order of the tables. -/
theorem Indexed.find?_of_perm (h : r.Indexed) (h' : r'.Indexed) (perm : r.tables.Perm r'.tables)
    (domain : String) : r.find? domain = r'.find? domain := by
  ext t
  rw [h.find?_eq_some_iff, h'.find?_eq_some_iff, perm.mem_iff]

/-- Registries in which every class has the same table hold the same tables. -/
theorem Indexed.tables_perm (h : r.Indexed) (h' : r'.Indexed)
    (same : ∀ domain, r.find? domain = r'.find? domain) : r.tables.Perm r'.tables := by
  refine (List.perm_ext_iff_of_nodup h.nodup.of_map h'.nodup.of_map).mpr fun t => ?_
  have mem (s : Registry) (hs : s.Indexed) : t ∈ s.tables ↔ s.find? t.domain = some t := by
    rw [hs.find?_eq_some_iff]
    simp
  rw [mem r h, mem r' h', same]

theorem resolve_congr (same : ∀ domain, r.find? domain = r'.find? domain) (key : ForeignKey) :
    r.resolve key = r'.resolve key := by
  unfold resolve
  rw [same, same]

/-- The constraints that leave certain classes are those of the foreign keys that leave them. -/
theorem Indexed.resolved_filter (h : r.Indexed) {keys : List ForeignKey}
    {constraints : List Constraint}
    (resolved : Forall₂ (fun key c => r.resolve key = .ok c) keys constraints)
    (p : String → Bool) :
    Forall₂ (fun key c => r.resolve key = .ok c) (keys.filter fun key => p key.fromTable)
      (constraints.filter fun c => p c.fromTable) := by
  induction resolved with
  | nil => exact .nil
  | cons first _ ih =>
    rw [List.filter_cons, List.filter_cons, h.fromTable_of_resolve first]
    split
    · exact .cons first ih
    · exact ih

/-- When the links of a registry can be built, they can be built in any registry with the same
content, and every class has the same table in the end. -/
theorem Rearranged.materializeAll (h : r.Rearranged r') (sound : r.Sound) (sound' : r'.Sound)
    (done : r.materializeAll (Link.buildOrder r.links) = .ok b) :
    ∃ b', r'.materializeAll (Link.buildOrder r'.links) = .ok b' ∧
      (∀ domain, b'.find? domain = b.find? domain) ∧
      b.foreignKeys.Perm b'.foreignKeys ∧
      ∀ domain, b.keysFrom domain = b'.keysFrom domain := by
  have perm := Link.buildOrder_perm r.links
  have perm' := Link.buildOrder_perm r'.links
  have orders : (Link.buildOrder r.links).Perm (Link.buildOrder r'.links) :=
    perm.trans (h.links.trans perm'.symm)
  have nodup := sound.nodup_buildOrder
  have nodup' := sound'.nodup_buildOrder
  obtain ⟨_, built, ordered⟩ := built_of_materializeAll sound.indexed nodup done
  -- one run succeeded, so a good order exists, and the other registry chooses a good order too
  have ordered' : Link.Ordered (Link.buildOrder r'.links) :=
    Link.ordered_buildOrder (h.links.symm.trans perm.symm) ordered
  have same := sound.indexed.find?_of_perm sound'.indexed h.tables
  obtain ⟨b', done', final⟩ := materializeAll_of_built built sound'.indexed
    (fun l hl => orders.mem_iff.mpr hl) nodup' ordered' (fun domain _ => (same domain).symm)
    fun domain hdomain => by
      rw [← same, built.unlinked domain fun hl => hdomain ((orders.map Link.table).mem_iff.mp hl)]
  have find : b'.find? = b.find? := funext final
  obtain ⟨_, _, keys⟩ := frame_of_materializeAll sound.indexed nodup done
  obtain ⟨_, _, keys'⟩ := frame_of_materializeAll sound'.indexed nodup' done'
  rw [find] at keys'
  refine ⟨b', done', final, ?_, fun domain => ?_⟩
  · rw [keys, keys']
    exact h.foreignKeys.append (orders.flatMap_right _)
  · -- the keys of a link leave its own table, so the order of the links is not seen from a table
    have leaving : ∀ l ∈ Link.buildOrder r.links, ∀ key ∈ l.keysIn b.find?,
        key.fromTable = l.table := fun l _ key hkey => Link.fromTable_of_mem_keysIn hkey
    have links := filter_flatMap_of_perm orders nodup leaving domain
    have declared := h.keysFrom domain
    unfold Registry.keysFrom at declared ⊢
    rw [keys, keys', List.filter_append, List.filter_append, links, declared]

/-- A run over the same content in another order ends in the same schema, in another order. -/
theorem Rearranged.finish (h : r.Rearranged r') (sound : r.Sound) (sound' : r'.Sound) {g : Schema}
    (done : r.finish = .ok g) : ∃ g', r'.finish = .ok g' ∧ g.Rearranged g' := by
  obtain ⟨b, constraints, build, resolved, rfl⟩ := finish_eq_ok.mp done
  obtain ⟨b', build', find, keys, keysFrom⟩ := h.materializeAll sound sound' build
  have indexed : b.Indexed := (sound.steps (materializeAll_steps build)).indexed
  have indexed' : b'.Indexed := (sound'.steps (materializeAll_steps build')).indexed
  have resolve : ∀ key, b'.resolve key = b.resolve key := resolve_congr find
  obtain ⟨constraints', resolved', perm⟩ := List.perm_comp_forall₂ keys.symm resolved
  -- the constraints that leave a class come from the same foreign keys in the same order
  have leaving : ∀ domain, (constraints.filter fun c => c.fromTable == domain) =
      constraints'.filter fun c => c.fromTable == domain := by
    intro domain
    have one := indexed.resolved_filter resolved (· == domain)
    have other := indexed.resolved_filter resolved' (· == domain)
    rw [show (b.foreignKeys.filter fun key => key.fromTable == domain) =
      b'.foreignKeys.filter fun key => key.fromTable == domain from keysFrom domain] at one
    exact resolved_unique one other
  have attached : Table.attached constraints = Table.attached constraints' := by
    funext t
    rw [Table.attached, Table.attached, leaving]
  refine ⟨_, finish_eq_ok.mpr ⟨b', constraints', build', resolved'.imp fun key c => ?_, rfl⟩,
    ?_, perm.symm, h.links⟩
  · rw [resolve]
    exact id
  · show ((constraints.foldl attach b).tables).Perm (constraints'.foldl attach b').tables
    rw [indexed.tables_attachAll, indexed'.tables_attachAll, attached]
    exact (indexed.tables_perm indexed' fun domain => (find domain).symm).map _

end Registry

end TableSchema
