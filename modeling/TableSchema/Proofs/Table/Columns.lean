import Mathlib.Data.List.Nodup
import Mathlib.Data.List.Perm.Basic
import TableSchema.Table

/-!
The columns of a table and their names.

A column is added only where neither of its names is taken. So the declared columns of a table, and
the columns that a link adds, have names of their own (`addColumn_eq_ok`, `addLinkColumns_cases`).
The end of a definition moves the first key to the front, which changes no name, or puts a default
key there, whose names nobody has compared with the others (`keyFirst_cases`).
-/

namespace TableSchema

/-- A list with one element for every key gives that element when it is searched by its key. -/
theorem find?_eq_some_of_nodup {α κ : Type} [BEq κ] [LawfulBEq κ] {key : α → κ} {list : List α}
    (nodup : (list.map key).Nodup) {a : α} (ha : a ∈ list) :
    (list.find? fun b => key b == key a) = some a := by
  cases found : list.find? fun b => key b == key a with
  | none => simpa using List.find?_eq_none.mp found a ha
  | some b =>
    have same : key b = key a := by simpa using List.find?_some found
    rw [List.inj_on_of_nodup_map nodup (List.mem_of_find?_eq_some found) ha same]

/-- Two columns with different field names and different column names. -/
def Column.Apart (a b : Column) : Prop := a.fieldName ≠ b.fieldName ∧ a.columnName ≠ b.columnName

instance (a b : Column) : Decidable (a.Apart b) :=
  inferInstanceAs (Decidable (a.fieldName ≠ b.fieldName ∧ a.columnName ≠ b.columnName))

theorem Column.Apart.symm {a b : Column} (h : a.Apart b) : b.Apart a := ⟨h.1.symm, h.2.symm⟩

/-- No two columns have a field name or a column name in common. -/
def UniqueNames (columns : List Column) : Prop := columns.Pairwise Column.Apart

instance (columns : List Column) : Decidable (UniqueNames columns) :=
  inferInstanceAs (Decidable (columns.Pairwise Column.Apart))

theorem UniqueNames.of_perm {columns others : List Column} (h : UniqueNames columns)
    (perm : columns.Perm others) : UniqueNames others :=
  List.Pairwise.perm h perm Column.Apart.symm

namespace Table

variable {t u : Table} {c : Column}

/-- The names of `cs` are taken neither by a column of the table nor by each other. -/
def Fits (t : Table) (cs : List Column) : Prop :=
  UniqueNames cs ∧ ∀ a ∈ t.columns, ∀ b ∈ cs, a.Apart b

/-- Where names are unique, either name of a column leads to it. -/
theorem found_of_mem (names : UniqueNames t.columns) (hc : c ∈ t.columns) :
    t.column? c.fieldName = some c ∧ t.columnNamed? c.columnName = some c := by
  have fields : (t.columns.map Column.fieldName).Nodup :=
    List.pairwise_map.mpr (names.imp fun apart => apart.1)
  have columns : (t.columns.map Column.columnName).Nodup :=
    List.pairwise_map.mpr (names.imp fun apart => apart.2)
  exact ⟨find?_eq_some_of_nodup fields hc, find?_eq_some_of_nodup columns hc⟩

theorem uniqueNames_append_iff {cs : List Column} :
    UniqueNames (t.columns ++ cs) ↔ UniqueNames t.columns ∧ t.Fits cs :=
  List.pairwise_append

/-- The table with the columns `cs` of a link at its end. -/
def extend (t : Table) (cs : List Column) : Table :=
  { t with columns := t.columns ++ cs, searchFields := t.searchFields ++ searchable cs }

@[simp] theorem extend_nil (t : Table) : t.extend [] = t := by
  simp [extend, searchable]

theorem extend_extend (t : Table) (cs ds : List Column) :
    (t.extend cs).extend ds = t.extend (cs ++ ds) := by
  simp [extend, searchable]

theorem clash?_eq_none_iff : t.clash? c = none ↔ ∀ a ∈ t.columns, a.Apart c := by
  have fields : (t.column? c.fieldName).isSome = false ↔
      ∀ a ∈ t.columns, a.fieldName ≠ c.fieldName := by
    simp [column?]
  have names : (t.columnNamed? c.columnName).isSome = false ↔
      ∀ a ∈ t.columns, a.columnName ≠ c.columnName := by
    simp [columnNamed?]
  have both : t.clash? c = none ↔
      (t.column? c.fieldName).isSome = false ∧ (t.columnNamed? c.columnName).isSome = false := by
    rw [clash?]
    cases (t.column? c.fieldName).isSome <;> cases (t.columnNamed? c.columnName).isSome <;> simp
  rw [both, fields, names]
  constructor
  · rintro ⟨field, name⟩ a ha
    exact ⟨field a ha, name a ha⟩
  · intro apart
    exact ⟨fun a ha => (apart a ha).1, fun a ha => (apart a ha).2⟩

/-- A declared column is added when its names are free, and changes nothing else. -/
theorem addColumn_eq_ok :
    t.addColumn c = .ok u ↔
      (∀ a ∈ t.columns, a.Apart c) ∧ u = { t with columns := t.columns ++ [c] } := by
  rw [← clash?_eq_none_iff, addColumn]
  cases t.clash? c with
  | none => simp [eq_comm]
  | some clash => simp

/-- An index is added when its name is free, and changes nothing else. -/
theorem addIndex?_eq_some {i : Index} :
    t.addIndex? i = some u ↔
      (∀ other ∈ t.indexes, other.name ≠ i.name) ∧ u = { t with indexes := t.indexes ++ [i] } := by
  have free : (t.indexes.any fun other => other.name == i.name) = false ↔
      ∀ other ∈ t.indexes, other.name ≠ i.name := by
    simp
  rw [addIndex?, ← free]
  cases t.indexes.any fun other => other.name == i.name <;> simp [eq_comm]

/-- A column of a link is added when its names are free. -/
theorem addLinkColumn_of_free (free : ∀ a ∈ t.columns, a.Apart c) :
    t.addLinkColumn c = .ok (t.extend [c]) := by
  rw [addLinkColumn, clash?_eq_none_iff.mpr free]
  cases searched : c.isSearchable <;> simp [extend, searchable, searched]

theorem addLinkColumn_of_taken (taken : ¬∀ a ∈ t.columns, a.Apart c) :
    ∃ clash, t.clash? c = some clash ∧ t.addLinkColumn c = .error clash := by
  rw [addLinkColumn]
  cases found : t.clash? c with
  | none => exact absurd (clash?_eq_none_iff.mp found) taken
  | some clash => exact ⟨clash, rfl, rfl⟩

theorem fits_nil (t : Table) : t.Fits [] := ⟨List.Pairwise.nil, by simp⟩

theorem fits_cons {rest : List Column} :
    t.Fits (c :: rest) ↔ (∀ a ∈ t.columns, a.Apart c) ∧ (t.extend [c]).Fits rest := by
  simp only [Fits, UniqueNames, List.pairwise_cons, extend, List.mem_append, List.mem_cons,
    List.not_mem_nil, or_false]
  constructor
  · rintro ⟨⟨head, tail⟩, old⟩
    refine ⟨fun a ha => old a ha c (.inl rfl), tail, ?_⟩
    rintro a (ha | rfl) b hb
    · exact old a ha b (.inr hb)
    · exact head b hb
  · rintro ⟨free, tail, old⟩
    refine ⟨⟨fun b hb => old c (.inr rfl) b hb, tail⟩, ?_⟩
    rintro a ha b (rfl | hb)
    · exact free a ha
    · exact old a (.inl ha) b hb

/-- The columns of a link are all added when they fit. Otherwise the longest beginning that fits is
added, and it is not all of them: the next one clashes. -/
theorem addLinkColumns_cases (t : Table) (cs : List Column) :
    (t.Fits cs ∧ t.addLinkColumns cs = (t.extend cs, none)) ∨
    (¬t.Fits cs ∧ ∃ front c back clash, cs = front ++ c :: back ∧ t.Fits front ∧
      (t.extend front).clash? c = some clash ∧
      t.addLinkColumns cs = (t.extend front, some clash)) := by
  induction cs generalizing t with
  | nil => exact .inl ⟨fits_nil t, by simp [addLinkColumns]⟩
  | cons c rest ih =>
    by_cases free : ∀ a ∈ t.columns, a.Apart c
    · have step : t.addLinkColumns (c :: rest) = (t.extend [c]).addLinkColumns rest := by
        rw [addLinkColumns, addLinkColumn_of_free free]
      rw [step, fits_cons]
      rcases ih (t.extend [c]) with ⟨fits, all⟩ |
        ⟨stuck, front, d, back, clash, rfl, fits, clashes, some⟩
      · exact .inl ⟨⟨free, fits⟩, by rw [all, extend_extend]; rfl⟩
      · rw [extend_extend] at clashes some
        exact .inr ⟨fun both => stuck both.2, c :: front, d, back, clash, rfl,
          fits_cons.mpr ⟨free, fits⟩, clashes, some⟩
    · obtain ⟨clash, clashes, refused⟩ := addLinkColumn_of_taken free
      refine .inr ⟨fun fits => free (fits_cons.mp fits).1, [], c, rest, clash, rfl, fits_nil t, ?_,
        ?_⟩
      · simpa using clashes
      · rw [addLinkColumns, refused]
        simp

/-! ## The end of a definition -/

/-- The key in front is one of the columns, or there was none and it is the default key. -/
theorem keyFirst_cases (domain : String) (columns : List Column) :
    ((keyFirst domain columns).Perm columns ∧ ∃ c ∈ columns, c.isKey = true) ∨
    (keyFirst domain columns = defaultKey domain columns.head? :: columns ∧
      ∀ c ∈ columns, c.isKey = false) := by
  rw [keyFirst]
  split
  · rename_i i found
    obtain ⟨inside, key, _⟩ := List.findIdx?_eq_some_iff_getElem.mp found
    refine .inl ⟨?_, columns[i], List.getElem_mem inside, key⟩
    rw [List.getElem?_eq_getElem inside]
    exact List.getElem_cons_eraseIdx_perm inside
  · rename_i absent
    exact .inr ⟨rfl, List.findIdx?_eq_none_iff.mp absent⟩

theorem isKey_defaultKey (domain : String) (first : Option Column) :
    (defaultKey domain first).isKey = true := rfl

/-- A key stands in front. -/
theorem keyFirst_eq_cons (domain : String) (columns : List Column) :
    ∃ key rest, keyFirst domain columns = key :: rest ∧ key.isKey = true := by
  unfold keyFirst
  split
  · rename_i i found
    obtain ⟨inside, key, _⟩ := List.findIdx?_eq_some_iff_getElem.mp found
    rw [List.getElem?_eq_getElem inside]
    exact ⟨columns[i], columns.eraseIdx i, rfl, key⟩
  · exact ⟨_, columns, rfl, isKey_defaultKey _ _⟩

/-- Where a key stands in front already, it stays there. -/
theorem keyFirst_of_isKey {key : Column} (front : key.isKey = true) (domain : String)
    (rest : List Column) : keyFirst domain (key :: rest) = key :: rest := by
  have found : (key :: rest).findIdx? Column.isKey = some 0 := by
    rw [List.findIdx?_cons, if_pos front]
  simp [keyFirst, found]

theorem columns_setup_of_joins (joins : t.manyToMany = true) : t.setup.columns = t.columns := by
  simp [setup, joins]

theorem columns_setup_of_ordinary (ordinary : t.manyToMany = false) :
    t.setup.columns = keyFirst t.domain t.columns := by
  simp [setup, ordinary]

/-- The end of a definition changes nothing in a table whose search fields are right and which has a
key in front or joins others. -/
theorem setup_eq_self_iff :
    t.setup = t ↔ t.searchFields = searchable t.columns ∧
      (t.manyToMany = false → ∃ key rest, t.columns = key :: rest ∧ key.isKey = true) := by
  constructor
  · intro same
    constructor
    · -- both sides have the columns of the same table
      have fields : t.setup.searchFields = searchable t.setup.columns := rfl
      rw [same] at fields
      exact fields
    · intro ordinary
      have columns := columns_setup_of_ordinary ordinary
      rw [same] at columns
      rw [columns]
      exact keyFirst_eq_cons t.domain t.columns
  · rintro ⟨fields, front⟩
    have columns : t.setup.columns = t.columns := by
      cases joins : t.manyToMany with
      | true => exact columns_setup_of_joins joins
      | false =>
        obtain ⟨key, rest, same, isKey⟩ := front joins
        rw [columns_setup_of_ordinary joins, same]
        exact keyFirst_of_isKey isKey t.domain rest
    show { t with columns := t.setup.columns, searchFields := searchable t.setup.columns } = t
    rw [columns, ← fields]

/-- Ending a definition twice does no more than ending it once. -/
theorem setup_setup (t : Table) : t.setup.setup = t.setup := by
  refine setup_eq_self_iff.mpr ⟨rfl, fun ordinary => ?_⟩
  rw [columns_setup_of_ordinary (t := t) ordinary]
  exact keyFirst_eq_cons t.domain t.columns

/-- A table that joins no others has a key at the end of its definition. -/
theorem keyColumns_setup_ne_nil (ordinary : t.manyToMany = false) : t.setup.keyColumns ≠ [] := by
  obtain ⟨key, rest, columns, isKey⟩ := (setup_eq_self_iff.mp t.setup_setup).2 ordinary
  simp [keyColumns, columns, isKey]

end Table

end TableSchema
