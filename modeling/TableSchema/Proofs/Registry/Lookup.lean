import Mathlib.Data.List.Find
import TableSchema.Proofs.Table.Columns
import TableSchema.Registry.Basic

/-!
Looking up tables by class.

A registry is indexed when its index leads from a class to the position of the only table of that
class. In an indexed registry `find?` is a search through the tables (`Indexed.find?_eq_some_iff`)
and `modify` is a map over them (`Indexed.tables_modify`), so that nothing after this module speaks
of positions. Adding a new class and changing a table within its class keep the index
(`Indexed.add`, `Indexed.modify`).
-/

namespace TableSchema

/-- Changing the first element that satisfies `p` changes the only one that does. -/
theorem modify_eq_map {α : Type} {p : α → Bool} {change : α → α} {list : List α}
    (only : list.Pairwise fun a b => p a = true → p b = false) {i : Nat}
    (found : list.findIdx? p = some i) :
    list.modify i change = list.map fun a => if p a then change a else a := by
  induction list generalizing i with
  | nil => simp at found
  | cons a rest ih =>
    obtain ⟨head, tail⟩ := List.pairwise_cons.mp only
    rw [List.findIdx?_cons] at found
    split at found
    · rename_i ha
      obtain rfl := Option.some.inj found
      have others : (rest.map fun b => if p b then change b else b) = rest.map id :=
        List.map_congr_left fun b hb => by simp [head b hb ha]
      simp [ha, others]
    · rename_i ha
      obtain ⟨j, hj, rfl⟩ := Option.map_eq_some_iff.mp found
      simp [ha, ih tail hj]

namespace Registry

@[simp] theorem foreignKeys_modify (r : Registry) (domain : String) (change : Table → Table) :
    (r.modify domain change).foreignKeys = r.foreignKeys := by
  unfold modify
  split <;> rfl

@[simp] theorem positions_modify (r : Registry) (domain : String) (change : Table → Table) :
    (r.modify domain change).positions = r.positions := by
  unfold modify
  split <;> rfl

@[simp] theorem links_modify (r : Registry) (domain : String) (change : Table → Table) :
    (r.modify domain change).links = r.links := by
  unfold modify
  split <;> rfl

/-- No two tables have the same class, and the index leads from a class to the position of its
table. -/
structure Indexed (r : Registry) : Prop where
  nodup : (r.tables.map Table.domain).Nodup
  position?_eq : ∀ domain, r.position? domain = r.tables.findIdx? fun t => t.domain == domain

theorem indexed_empty : empty.Indexed := ⟨List.nodup_nil, fun _ => rfl⟩

namespace Indexed

variable {r : Registry} {t : Table} {domain : String}

theorem find?_eq (h : r.Indexed) (domain : String) :
    r.find? domain = r.tables.find? fun t => t.domain == domain := by
  rw [find?, h.position?_eq, List.find?_eq_bind_findIdx?_getElem?]

/-- The table of a class is the one that has this class. -/
theorem find?_eq_some_iff (h : r.Indexed) :
    r.find? domain = some t ↔ t ∈ r.tables ∧ t.domain = domain := by
  rw [h.find?_eq]
  constructor
  · intro found
    exact ⟨List.mem_of_find?_eq_some found, by simpa using List.find?_some found⟩
  · rintro ⟨ht, rfl⟩
    exact find?_eq_some_of_nodup h.nodup ht

theorem find?_domain (h : r.Indexed) (ht : t ∈ r.tables) : r.find? t.domain = some t :=
  h.find?_eq_some_iff.mpr ⟨ht, rfl⟩

theorem find?_eq_none_iff (h : r.Indexed) :
    r.find? domain = none ↔ ∀ t ∈ r.tables, t.domain ≠ domain := by
  rw [h.find?_eq]
  simp

theorem free_iff (h : r.Indexed) :
    r.find? domain = none ↔ domain ∉ r.tables.map Table.domain := by
  rw [h.find?_eq_none_iff]
  simp

/-- The tables are those that the classes lead to, in order. -/
theorem tables_eq (h : r.Indexed) : r.tables = (r.tables.map Table.domain).filterMap r.find? := by
  have each : (r.tables.map Table.domain).filterMap r.find? = r.tables.filterMap some := by
    rw [List.filterMap_map]
    exact List.filterMap_congr fun t ht => h.find?_domain ht
  rw [each, List.filterMap_some]

theorem contains_eq_false (h : r.Indexed) (fresh : r.find? domain = none) :
    r.contains domain = false := by
  rw [contains, h.position?_eq, List.findIdx?_isSome, List.any_eq_false]
  simpa using h.find?_eq_none_iff.mp fresh

/-- Changing the table of a class changes the tables that have this class. -/
theorem tables_modify (h : r.Indexed) (domain : String) (change : Table → Table) :
    (r.modify domain change).tables =
      r.tables.map fun t => if t.domain = domain then change t else t := by
  have only : r.tables.Pairwise fun a b =>
      (a.domain == domain) = true → (b.domain == domain) = false :=
    (List.pairwise_map.mp h.nodup).imp fun {a b} different => by
      simp only [beq_iff_eq, beq_eq_false_iff_ne]
      rintro rfl
      exact Ne.symm different
  rw [modify, h.position?_eq]
  split
  · rename_i absent
    have same : ∀ t ∈ r.tables, (if t.domain = domain then change t else t) = t := fun t ht => by
      have := List.findIdx?_eq_none_iff.mp absent t ht
      simp_all
    exact (List.map_congr_left same |>.trans (List.map_id' _)).symm
  · rename_i i found
    rw [modify_eq_map only found]
    simp

/-- A change that keeps classes keeps them all, in order. -/
theorem domains_modify (h : r.Indexed) {change : Table → Table}
    (keeps : ∀ t ∈ r.tables, t.domain = domain → (change t).domain = domain) :
    (r.modify domain change).tables.map Table.domain = r.tables.map Table.domain := by
  rw [h.tables_modify, List.map_map]
  refine List.map_congr_left fun t ht => ?_
  simp only [Function.comp_apply]
  split
  · rename_i same
    rw [keeps t ht same, same]
  · rfl

/-- A change that keeps classes keeps the index. -/
theorem modify (h : r.Indexed) {change : Table → Table}
    (keeps : ∀ t ∈ r.tables, t.domain = domain → (change t).domain = domain) :
    (r.modify domain change).Indexed := by
  refine ⟨h.domains_modify keeps ▸ h.nodup, fun other => ?_⟩
  have byDomain (ts : List Table) : (ts.findIdx? fun t => t.domain == other) =
      (ts.map Table.domain).findIdx? (· == other) := by
    rw [List.findIdx?_map]
    rfl
  rw [position?_modify, h.position?_eq, byDomain, byDomain, h.domains_modify keeps]

/-- A change that keeps classes is seen at its own class only. -/
theorem find?_modify (h : r.Indexed) {change : Table → Table}
    (keeps : ∀ t ∈ r.tables, t.domain = domain → (change t).domain = domain) (other : String) :
    (r.modify domain change).find? other =
      if other = domain then (r.find? domain).map change else r.find? other := by
  have search : ((r.tables.map fun t => if t.domain = domain then change t else t).find?
      fun t => t.domain == other) =
      (r.find? other).map fun t => if t.domain = domain then change t else t := by
    rw [List.find?_map, h.find?_eq]
    congr 1
    refine List.find?_congr fun t ht => ?_
    simp only [Function.comp_apply]
    split
    · rename_i same
      rw [keeps t ht same, same]
    · rfl
  rw [(h.modify keeps).find?_eq, h.tables_modify, search]
  split
  · rename_i same
    subst same
    refine Option.map_congr fun t ht => ?_
    rw [if_pos (h.find?_eq_some_iff.mp ht).2]
  · rename_i different
    cases found : r.find? other with
    | none => rfl
    | some t =>
      have : t.domain ≠ domain := fun same =>
        different ((h.find?_eq_some_iff.mp found).2.symm.trans same)
      simp [this]

/-- A definition of a new class is added at the end. -/
theorem add_eq (h : r.Indexed) {d : Definition} (fresh : r.find? d.table.domain = none) :
    r.add d =
      { tables := r.tables ++ [d.table]
        positions := (d.table.domain, r.tables.length) :: r.positions
        foreignKeys := r.foreignKeys ++ d.foreignKeys
        links := r.links ++ d.link.toList } := by
  have absent : r.contains d.table.domain = false := h.contains_eq_false fresh
  rw [Registry.add, register]
  exact if_neg (absent ▸ Bool.false_ne_true)

/-- A definition of a new class keeps the index. -/
theorem add (h : r.Indexed) {d : Definition} (fresh : r.find? d.table.domain = none) :
    (r.add d).Indexed := by
  rw [h.add_eq fresh]
  -- nothing but the class of the new table matters
  generalize d.table = t at fresh
  refine ⟨?_, fun domain => ?_⟩
  · rw [List.map_append, List.nodup_append]
    refine ⟨h.nodup, by simp, fun domain hdomain other hother => ?_⟩
    obtain ⟨u, hu, rfl⟩ := List.mem_map.mp hdomain
    obtain rfl : other = t.domain := by simpa using hother
    exact h.find?_eq_none_iff.mp fresh u hu
  · simp only [position?, List.lookup_cons, List.findIdx?_append]
    rw [← position?, h.position?_eq]
    by_cases same : domain = t.domain
    · subst same
      have absent : (r.tables.findIdx? fun u => u.domain == t.domain) = none := by
        simpa [List.findIdx?_eq_none_iff] using h.find?_eq_none_iff.mp fresh
      simp [absent]
    · have different : (t.domain == domain) = false := by simpa using Ne.symm same
      simp [beq_eq_false_iff_ne.mpr same, List.findIdx?_cons, different]

/-- A definition of a new class is seen at this class only. -/
theorem find?_add (h : r.Indexed) {d : Definition} (fresh : r.find? d.table.domain = none)
    (other : String) :
    (r.add d).find? other = if other = d.table.domain then some d.table else r.find? other := by
  rw [(h.add fresh).find?_eq, h.add_eq fresh, List.find?_append, ← h.find?_eq]
  split
  · rename_i same
    simp [same, fresh]
  · rename_i different
    simp [Ne.symm different]

end Indexed

end Registry

end TableSchema
