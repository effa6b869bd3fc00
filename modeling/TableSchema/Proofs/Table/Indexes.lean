import TableSchema.Proofs.Table.Columns

/-!
The indexes of a table.

An index holds the names of its columns as they were when its line was read. They stay good as long
as no column is lost (`WellIndexed.of_subset`): further columns may follow, the key may move to the
front or be put there, and a link may add its columns.
-/

namespace TableSchema

namespace Index

variable {i : Index} {columns others : List Column} {c : Column}

/-- Whatever the index lists is one of the columns, by both of its names. -/
def Within (i : Index) (columns : List Column) : Prop :=
  ∀ entry ∈ i.columns, ∃ c ∈ columns,
    c.fieldName = entry.fieldName ∧ c.columnName = entry.columnName

/-- The index lists some of the columns, and at least one. -/
structure Lists (i : Index) (columns : List Column) : Prop where
  filled : i.columns ≠ []
  within : i.Within columns

theorem within_empty (name : String) (columns : List Column) : (empty name).Within columns := by
  simp [Within, empty]

theorem Within.push (h : i.Within columns) (hc : c ∈ columns) : (i.push c).Within columns := by
  intro entry hentry
  rcases List.mem_append.mp hentry with old | new
  · exact h entry old
  · obtain rfl := List.mem_singleton.mp new
    exact ⟨c, hc, rfl, rfl⟩

/-- What an index lists is found again where no column is lost. -/
theorem Lists.mono (h : i.Lists columns) (kept : columns ⊆ others) : i.Lists others := by
  refine ⟨h.filled, fun entry hentry => ?_⟩
  obtain ⟨c, hc, names⟩ := h.within entry hentry
  exact ⟨c, kept hc, names⟩

end Index

namespace Table

variable {t u : Table}

/-- The indexes of the table have names of their own and list columns of the table. -/
structure WellIndexed (t : Table) : Prop where
  names : (t.indexes.map Index.name).Nodup
  lists : ∀ i ∈ t.indexes, i.Lists t.columns

theorem wellIndexed_of_nil (none : t.indexes = []) : t.WellIndexed :=
  ⟨by simp [none], by simp [none]⟩

/-- Indexes stay good while no column is lost. -/
theorem WellIndexed.of_subset (h : t.WellIndexed) (same : u.indexes = t.indexes)
    (kept : t.columns ⊆ u.columns) : u.WellIndexed := by
  refine ⟨same ▸ h.names, fun i hi => ?_⟩
  rw [same] at hi
  exact (h.lists i hi).mono kept

/-- An index is added when its name is free, so names stay different. -/
theorem WellIndexed.addIndex? (h : t.WellIndexed) {i : Index} (lists : i.Lists t.columns)
    (added : t.addIndex? i = some u) : u.WellIndexed := by
  obtain ⟨free, rfl⟩ := addIndex?_eq_some.mp added
  constructor
  · rw [List.map_append, List.nodup_append]
    refine ⟨h.names, List.nodup_singleton _, fun name taken new hnew => ?_⟩
    obtain ⟨other, hother, rfl⟩ := List.mem_map.mp taken
    obtain rfl : new = i.name := by simpa using hnew
    exact free other hother
  · intro j hj
    rcases List.mem_append.mp hj with old | new
    · exact h.lists j old
    · obtain rfl := List.mem_singleton.mp new
      exact lists

/-- Putting the key in front loses no column. -/
theorem subset_keyFirst (domain : String) (columns : List Column) :
    columns ⊆ keyFirst domain columns := by
  rcases keyFirst_cases domain columns with ⟨perm, _⟩ | ⟨added, _⟩
  · exact perm.symm.subset
  · rw [added]
    exact List.subset_cons_self _ _

theorem subset_columns_setup (t : Table) : t.columns ⊆ t.setup.columns := by
  cases joins : t.manyToMany with
  | true =>
    rw [columns_setup_of_joins joins]
    exact List.Subset.refl _
  | false =>
    rw [columns_setup_of_ordinary joins]
    exact subset_keyFirst t.domain t.columns

theorem WellIndexed.setup (h : t.WellIndexed) : t.setup.WellIndexed :=
  h.of_subset rfl (subset_columns_setup t)

end Table

end TableSchema
