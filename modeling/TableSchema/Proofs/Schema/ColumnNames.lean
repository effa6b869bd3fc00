import TableSchema.Proofs.Schema.Finish

/-!
Which tables have columns with names of their own.

Declared columns and the columns of a link are compared with the columns that are there before they
are added. The default key is not: it is put in front of the declared columns whatever they are
called. So a table has two columns of one name exactly when it was given the default key and has
declared a field `key` or a column `KEY` (`Table.KeyTaken`), and nothing that happens later changes
this (`uniqueNames_iff_not_keyTaken`).
-/

namespace TableSchema

namespace Table

variable {t : Table}

/-- The table has the default key in front of its declared columns, none of which is a key, and one
of these has a name of the default key. -/
def KeyTaken (t : Table) : Prop :=
  t.manyToMany = false ∧ ∃ declared, t.columns = defaultKey t.domain declared.head? :: declared ∧
    (∀ c ∈ declared, c.isKey = false) ∧
    ∃ c ∈ declared, c.fieldName = "key" ∨ c.columnName = "KEY"

theorem apart_defaultKey_iff {domain : String} {first : Option Column} {c : Column} :
    (defaultKey domain first).Apart c ↔ ¬(c.fieldName = "key" ∨ c.columnName = "KEY") := by
  unfold Column.Apart
  show "key" ≠ c.fieldName ∧ "KEY" ≠ c.columnName ↔ _
  rw [not_or]
  exact and_congr ne_comm ne_comm

theorem not_uniqueNames_of_keyTaken (h : t.KeyTaken) : ¬UniqueNames t.columns := by
  obtain ⟨_, declared, columns, _, c, hc, taken⟩ := h
  rw [columns]
  intro names
  have apart := (List.pairwise_cons.mp names).1 c hc
  exact apart_defaultKey_iff.mp apart taken

/-- A registered table has no other clash of names. -/
theorem Registered.uniqueNames_iff (h : t.Registered) : UniqueNames t.columns ↔ ¬t.KeyTaken := by
  constructor
  · intro names taken
    exact not_uniqueNames_of_keyTaken taken names
  · intro free
    rcases h.names with names | ⟨ordinary, declared, columns, names, keyless⟩
    · exact names
    · rw [columns]
      refine List.pairwise_cons.mpr ⟨fun c hc => apart_defaultKey_iff.mpr fun taken => ?_, names⟩
      exact free ⟨ordinary, declared, columns, keyless, c, hc, taken⟩

end Table

namespace Registry

variable {r : Registry}

/-- In every reachable registry and in every schema that it ends in, the columns of a table have
names of their own unless a declared column has taken a name of the default key. -/
theorem uniqueNames_iff_not_keyTaken (h : r.Reachable) :
    (∀ t ∈ r.tables, UniqueNames t.columns ↔ ¬t.KeyTaken) ∧
    ∀ g, r.finish = .ok g → ∀ t ∈ g.tables, UniqueNames t.columns ↔ ¬t.KeyTaken := by
  refine ⟨fun t ht => (h.sound.tables t ht).uniqueNames_iff, fun g done t ht => ?_⟩
  obtain ⟨b, finished⟩ := h.sound.finished done
  rw [finished.schema] at ht
  obtain ⟨u, hu, rfl⟩ := List.mem_map.mp ht
  show UniqueNames u.columns ↔ ¬u.KeyTaken
  exact (finished.sound.tables u hu).uniqueNames_iff

/-- A file that declares a field `key` which is not a key. -/
def keyField : List Call := [.read (.ofText "[Settings]\nCLASS a\n[Fields]\nSTRING(10) key\n")]

theorem uniqueNames_iff_not_keyTaken_keyField :
    (∀ t ∈ (run keyField).tables, UniqueNames t.columns ↔ ¬t.KeyTaken) ∧
    ∀ g, (run keyField).finish = .ok g → ∀ t ∈ g.tables, UniqueNames t.columns ↔ ¬t.KeyTaken :=
  uniqueNames_iff_not_keyTaken ⟨keyField, rfl⟩

/-- The field and the default key have one name. -/
theorem exists_not_uniqueNames : ∃ t ∈ (run keyField).tables, ¬UniqueNames t.columns := by
  decide +kernel

end Registry

end TableSchema
