import TableSchema.Proofs.Registry.Reachable

/-!
Tables with keys.

Building a link, whole or in part, changes the joining table only, and that table has no key before.
So a table that has a key is fixed: whatever is read or built later, its class leads to the same
table (`Step.find?_of_keyed`, `Sound.find?_of_keyed`). This covers every table that joins no
others, and every joining table from the moment at which it takes its first key.
-/

namespace TableSchema

namespace Registry

variable {r r' : Registry} {l : Link} {tables : LinkTables} {domain : String} {t : Table}

theorem Indexed.link (h : r.Indexed) (joins : r.Joins l tables) : (r.link l tables).Indexed := by
  have modified : (r.modify l.table fun _ => l.build tables).Indexed :=
    h.modify fun _ _ _ => h.domain_build joins
  exact ⟨modified.nodup, modified.position?_eq⟩

/-- A link that is built is seen at the class of its joining table only. -/
theorem Indexed.find?_link (h : r.Indexed) (joins : r.Joins l tables) (domain : String) :
    (r.link l tables).find? domain =
      if domain = l.table then some (l.build tables) else r.find? domain := by
  show (r.modify l.table fun _ => l.build tables).find? domain = _
  rw [h.find?_modify (fun _ _ _ => h.domain_build joins), joins.joint]
  rfl

/-- The tables of a registry keep their classes and their places when links are built. -/
theorem Indexed.domains_link (h : r.Indexed) {tables : LinkTables} (joins : r.Joins l tables) :
    (r.link l tables).tables.map Table.domain = r.tables.map Table.domain := by
  show (r.modify l.table fun _ => l.build tables).tables.map Table.domain = _
  exact h.domains_modify fun _ _ _ => h.domain_build joins

/-- A table with a key is not one that a link can be built in. -/
theorem Joins.ne_of_keyed (joins : r.Joins l tables) (found : r.find? domain = some t)
    (keyed : t.keyColumns ≠ []) : domain ≠ l.table := by
  rintro rfl
  obtain rfl := Option.some.inj (joins.joint.symm.trans found)
  exact keyed joins.keyless

/-- One call leaves a table with a key as it is. -/
theorem Step.find?_of_keyed (h : r.Indexed) (step : Step r r') (found : r.find? domain = some t)
    (keyed : t.keyColumns ≠ []) : r'.find? domain = some t := by
  cases step with
  | stay => exact found
  | add _ free =>
    obtain ⟨ht, same⟩ := h.find?_eq_some_iff.mp found
    refine (h.add free).find?_eq_some_iff.mpr ⟨?_, same⟩
    rw [h.add_eq free]
    exact List.mem_append_left _ ht
  | @clash l tables front joins _ _ =>
    have class' : (tables.joint.extend front).domain = l.table :=
      (h.find?_eq_some_iff.mp joins.joint).2
    rw [h.find?_modify fun _ _ _ => class', if_neg (joins.ne_of_keyed found keyed)]
    exact found
  | link joins _ =>
    rw [h.find?_link joins, if_neg (joins.ne_of_keyed found keyed)]
    exact found

/-- Calls leave a table with a key as it is. -/
theorem Sound.find?_of_keyed (h : r.Sound) (steps : Relation.ReflTransGen Step r r')
    (found : r.find? domain = some t) (keyed : t.keyColumns ≠ []) :
    r'.find? domain = some t :=
  h.kept_along (P := fun r => r.find? domain = some t) steps
    (fun sound step found => step.find?_of_keyed sound.indexed found keyed) found

end Registry

end TableSchema
