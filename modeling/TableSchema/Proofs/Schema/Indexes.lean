import TableSchema.Proofs.Schema.TableInvariant

/-!
Indexes stay good.

An index is checked when its line is read, against the columns that are declared up to there. No
check follows: the sections may come in any order, the key is moved or put in front at the end of
the file, and a link adds its columns later, perhaps only some of them. None of this loses a column
or changes the names of one, so every index leads to columns of its table at any time
(`wellIndexed_of_reachable`).
-/

namespace TableSchema

namespace Table

theorem invariant_wellIndexed : Invariant WellIndexed where
  setup declared := declared.indexes.setup
  extend takes := takes.holds.of_subset rfl (List.subset_append_left _ _)
  link _ _ takes := takes.holds.of_subset rfl (List.subset_append_left _ _)
  attach _ h := h.of_subset rfl (List.Subset.refl _)

end Table

namespace Registry

variable {r : Registry}

/-- In every reachable registry and in every schema that it ends in, the indexes of a table have
names of their own, and each lists some columns of the table, and at least one. -/
theorem wellIndexed_of_reachable (h : r.Reachable) :
    (∀ t ∈ r.tables, t.WellIndexed) ∧
    ∀ g, r.finish = .ok g → ∀ t ∈ g.tables, t.WellIndexed :=
  h.forall_tables Table.invariant_wellIndexed

/-- Indexes over columns that are declared before and after others, in a table whose key is moved,
in one that gets the default key, and in a link table that is tried before it can be built. -/
def indexed : List Call :=
  [.read (.ofText ("[Settings]\nCLASS a\n[Fields]\nDATE x\n[Indexes]\nearly x\n" ++
      "[Fields]\nDATE ! b\n[Indexes]\nlate b x b\n")),
    .read (.ofText "[Settings]\nCLASS c\n[Fields]\nDATE key OWN\n[Indexes]\nonly key\n"),
    .read (.ofText "[Settings]\nCLASS l\nLINK a d\n[Fields]\nDATE since\n[Indexes]\nsince since\n"),
    .materialize ⟨"L", "A", "D"⟩,
    .read (.ofText "[Settings]\nCLASS d\n")]

theorem wellIndexed_of_reachable_indexed :
    (∀ t ∈ (run indexed).tables, t.WellIndexed) ∧
    ∃ g, (run indexed).finish = .ok g ∧ (∀ t ∈ g.tables, t.WellIndexed) ∧
      g.tables.map (fun t => t.indexes.map Index.display) =
        [["early (X)", "late (B, X, B)"], ["only (OWN)"], ["since (SINCE)"], []] := by
  obtain ⟨registered, finished⟩ := wellIndexed_of_reachable (r := run indexed) ⟨_, rfl⟩
  have shown : (run indexed).finish.map (fun g => g.tables.map fun t =>
      t.indexes.map Index.display) =
        .ok [["early (X)", "late (B, X, B)"], ["only (OWN)"], ["since (SINCE)"], []] := by
    decide +kernel
  obtain ⟨g, done, indexes⟩ := Except.map_eq_ok.mp shown
  exact ⟨registered, g, done, finished g done, indexes⟩

end Registry

end TableSchema
