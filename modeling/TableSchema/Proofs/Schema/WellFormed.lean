import TableSchema.Proofs.Schema.TableInvariant

/-!
The columns of every table are well-formed.

Columns come from field lines, as default keys, and as copies of keys, which may be copies already.
Whatever a column comes from, its storage fits its type, a key is required, and it belongs to its
table (`Table.WellFormed`). Copies are keys, and only tables that join others hold them; once such a
table has been linked it has no other keys, since nothing can be put into a table that had one.
-/

namespace TableSchema

namespace Table

/-- The columns of the table are what they should be, by themselves and in this table. -/
structure WellFormed (t : Table) : Prop where
  table : ∀ c ∈ t.columns, c.table = t.domain
  required : ∀ c ∈ t.columns, c.isKey = true → c.flags.required = true
  stores : ∀ c ∈ t.columns, c.type.Stores c.storage
  generated : ∀ c ∈ t.columns, c.linkGenerated = true → c.isKey = true ∧ t.manyToMany = true
  linked : t.endpoints ≠ none → ∀ c ∈ t.columns, c.isKey = true → c.linkGenerated = true

variable {t : Table} {cs : List Column}

theorem declared_defaultKey (domain : String) (first : Option Column) :
    (defaultKey domain first).Declared domain :=
  ⟨rfl, .long 10, fun _ => rfl, rfl⟩

/-- The columns of a definition are those of its field lines, and perhaps the default key. -/
theorem Declared.of_mem_setup (h : t.Declared) {c : Column} (hc : c ∈ t.setup.columns) :
    c.Declared t.domain := by
  cases joins : t.manyToMany with
  | true =>
    rw [columns_setup_of_joins joins] at hc
    exact h.columns c hc
  | false =>
    rw [columns_setup_of_ordinary joins] at hc
    rcases keyFirst_cases t.domain t.columns with ⟨perm, _⟩ | ⟨added, _⟩
    · exact h.columns c (perm.mem_iff.mp hc)
    · rw [added] at hc
      rcases List.mem_cons.mp hc with rfl | hc
      · exact declared_defaultKey _ _
      · exact h.columns c hc

theorem Declared.wellFormed_setup (h : t.Declared) : t.setup.WellFormed where
  table _ hc := (h.of_mem_setup hc).table
  required _ hc := (h.of_mem_setup hc).required
  stores _ hc := (h.of_mem_setup hc).stores
  generated _ hc copy := nomatch (h.of_mem_setup hc).own.symm.trans copy
  linked linked := absurd h.unlinked linked

/-- A column of a table that has taken copies was there before, or it is a copy of a key. -/
theorem Takes.mem_extend {P : Table → Prop} (h : t.Takes P cs) {c : Column}
    (hc : c ∈ (t.extend cs).columns) :
    c ∈ t.columns ∨ ∃ source key columnName, P source ∧ key ∈ source.columns ∧
      key.isKey = true ∧ c = key.linkClone t.domain columnName := by
  rcases List.mem_append.mp hc with old | new
  · exact .inl old
  · obtain ⟨source, key, columnName, holds, hkey, copy⟩ := h.copies c new
    obtain ⟨member, isKey⟩ := List.mem_filter.mp hkey
    exact .inr ⟨source, key, columnName, holds, member, isKey, copy⟩

/-- A table that has taken copies has no other keys. -/
theorem Takes.generated_of_isKey {P : Table → Prop} (h : t.Takes P cs) {c : Column}
    (hc : c ∈ (t.extend cs).columns) (isKey : c.isKey = true) : c.linkGenerated = true := by
  rcases h.mem_extend hc with old | ⟨source, key, columnName, _, _, _, rfl⟩
  · have among : c ∈ t.keyColumns := List.mem_filter.mpr ⟨old, isKey⟩
    rw [h.keyless] at among
    cases among
  · rfl

theorem Takes.wellFormed_extend (h : t.Takes WellFormed cs) : (t.extend cs).WellFormed := by
  have before : t.WellFormed := h.holds
  refine ⟨?_, ?_, ?_, ?_, fun _ _ hc => h.generated_of_isKey hc⟩
  · intro c hc
    rcases h.mem_extend hc with old | ⟨source, key, columnName, _, _, _, rfl⟩
    · exact before.table c old
    · rfl
  · intro c hc isKey
    rcases h.mem_extend hc with old | ⟨source, key, columnName, sound, hkey, original, rfl⟩
    · exact before.required c old isKey
    · rw [(key.agrees_linkClone _ _).flags]
      exact sound.required key hkey original
  · intro c hc
    rcases h.mem_extend hc with old | ⟨source, key, columnName, sound, hkey, _, rfl⟩
    · exact before.stores c old
    · have same := key.agrees_linkClone t.domain columnName
      rw [same.type, same.storage]
      exact sound.stores key hkey
  · intro c hc copy
    rcases h.mem_extend hc with old | ⟨source, key, columnName, _, _, isKey, rfl⟩
    · exact before.generated c old copy
    · exact ⟨isKey, h.manyToMany⟩

theorem Takes.wellFormed_link (h : t.Takes WellFormed cs) (one two : String) :
    ((t.extend cs).setEndpoints one two).WellFormed := by
  obtain ⟨table, required, stores, generated, _⟩ := h.wellFormed_extend
  exact ⟨table, required, stores, fun c hc copy => ⟨(generated c hc copy).1, rfl⟩,
    fun _ _ hc => h.generated_of_isKey hc⟩

theorem invariant_wellFormed : Invariant WellFormed where
  setup h := h.wellFormed_setup
  extend h := h.wellFormed_extend
  link one two h := h.wellFormed_link one two
  attach _ h := ⟨h.table, h.required, h.stores, h.generated, h.linked⟩

end Table

namespace Registry

variable {r : Registry}

/-- In every reachable registry and in every schema that it ends in, the columns of a table are
well-formed. -/
theorem wellFormed_of_reachable (h : r.Reachable) :
    (∀ t ∈ r.tables, t.WellFormed) ∧ ∀ g, r.finish = .ok g → ∀ t ∈ g.tables, t.WellFormed :=
  h.forall_tables Table.invariant_wellFormed

/-- A table with a computed key, a link of this table with itself, and a link over that link. -/
def linkOverLink : List Call :=
  [.read (.ofText "[Settings]\nCLASS a\n[Fields]\nVSTRING(9) ! c // x\n"),
    .read (.ofText "[Settings]\nCLASS m\nLINK l a\n"),
    .read (.ofText "[Settings]\nCLASS l\nLINK a a\n")]

theorem wellFormed_of_reachable_linkOverLink :
    (∀ t ∈ (run linkOverLink).tables, t.WellFormed) ∧
    ∃ g, (run linkOverLink).finish = .ok g ∧ ∀ t ∈ g.tables, t.WellFormed := by
  obtain ⟨registered, finished⟩ := wellFormed_of_reachable (r := run linkOverLink) ⟨_, rfl⟩
  refine ⟨registered, ?_⟩
  have succeeds : (run linkOverLink).finish.isOk = true := by decide +kernel
  cases done : (run linkOverLink).finish with
  | error d =>
    rw [done] at succeeds
    cases succeeds
  | ok g => exact ⟨g, rfl, finished g done⟩

end Registry

end TableSchema
