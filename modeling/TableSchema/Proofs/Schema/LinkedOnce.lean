import TableSchema.Proofs.Schema.Integrity
import TableSchema.Proofs.Schema.Ordinary
import TableSchema.Proofs.Schema.WellFormed

/-!
A link is built at most once.

Nothing notes that a link has been built. But the columns that it puts into its table are keys, and
a table with a key is refused as the table of a link, whatever the ends are
(`materialize_of_keyed`). Such a table stays as it is (`Sound.find?_of_keyed`), and since the
declaration of its link stays too, the end of the run tries this link once more and fails. One
column is enough for all this, so a link that was built in part is spent as well
(`spent_of_materialize`).
-/

namespace TableSchema.Registry

/-- No link can be built in the table of the class `domain`, and a run cannot end in a schema. -/
structure Spent (r : Registry) (domain : String) : Prop where
  refused : ∀ l : Link, l.table = domain → ∃ dangling,
    r.materialize l = (r, some dangling) ∧ dangling.diagnostic.isReference = true
  unfinished : ∃ dangling, r.finish = .error dangling ∧ dangling.diagnostic.isReference = true

/-- The table of the class `domain` joins others and has a key, which it can only have from its
link. -/
def Taken (r : Registry) (domain : String) : Prop :=
  ∃ t, r.find? domain = some t ∧ t.manyToMany = true ∧ t.keyColumns ≠ []

variable {r r' : Registry} {l : Link} {domain : String} {t : Table} {outcome : Option Dangling}

theorem Taken.steps (h : r.Taken domain) (sound : r.Sound)
    (steps : Relation.ReflTransGen Step r r') : r'.Taken domain := by
  obtain ⟨t, found, joins, keyed⟩ := h
  exact ⟨t, sound.find?_of_keyed steps found keyed, joins, keyed⟩

/-- A run cannot end in a schema once a link has been built, at least in part. -/
theorem Sound.finish_of_linkedEarly (h : r.Sound) (early : r.LinkedEarly) :
    ∃ dangling, r.finish = .error dangling := by
  cases done : r.finish with
  | error dangling => exact ⟨dangling, rfl⟩
  | ok g =>
    obtain ⟨b, finished⟩ := h.finished done
    exact absurd early (not_linkedEarly_of_built h finished.built)

theorem Taken.spent (h : r.Taken domain) (sound : r.Sound) : r.Spent domain := by
  obtain ⟨t, found, joins, keyed⟩ := h
  constructor
  · intro l same
    rw [← same] at found
    exact ⟨_, materialize_of_keyed found keyed, rfl⟩
  · have member : t ∈ r.tables := (sound.indexed.find?_eq_some_iff.mp found).1
    obtain ⟨dangling, failed⟩ := sound.finish_of_linkedEarly ⟨t, member, joins, keyed⟩
    exact ⟨dangling, failed, rfl⟩

/-- A link that has been built has put its keys into its table. -/
theorem taken_of_materialize (sound : r.Sound) (built : r.materialize l = (r', none)) :
    r'.Taken l.table := by
  obtain ⟨tables, joins, _, rfl⟩ := materialize_eq_none_iff.mp built
  refine ⟨l.build tables, ?_, rfl, ?_⟩
  · rw [sound.indexed.find?_link joins, if_pos rfl]
  · rw [Link.keyColumns_build joins.keyless]
    exact Link.clones_ne_nil joins.oneKeyed

/-- Columns that are made for links are keys of tables that join others. -/
theorem Reachable.taken_of_generated (h : r.Reachable) (found : r.find? domain = some t)
    {c : Column} (hc : c ∈ t.columns) (generated : c.linkGenerated = true) : r.Taken domain := by
  have member : t ∈ r.tables := (h.sound.indexed.find?_eq_some_iff.mp found).1
  have wellFormed : t.WellFormed := (h.forall_tables Table.invariant_wellFormed).1 t member
  obtain ⟨isKey, joins⟩ := wellFormed.generated c hc generated
  exact ⟨t, found, joins, List.ne_nil_of_mem (List.mem_filter.mpr ⟨hc, isKey⟩)⟩

/-- Once a link has been built, or has failed with a column for the link in its table, no link can
be built in this table any more, whatever its ends are, and a run cannot end in a schema. Nothing
that is read or built later changes this. -/
theorem spent_of_materialize (h : r.Reachable) (call : r.materialize l = (r', outcome))
    (left : outcome = none ∨
      ∃ t, r'.find? l.table = some t ∧ ∃ c ∈ t.columns, c.linkGenerated = true)
    (later : List Call) : (later.foldl apply r').Spent l.table := by
  have reached : r'.Reachable := by
    obtain ⟨calls, rfl⟩ := h
    refine ⟨calls ++ [.materialize l], ?_⟩
    rw [run, List.foldl_append]
    exact congrArg Prod.fst call
  have taken : r'.Taken l.table := by
    rcases left with rfl | ⟨t, found, c, hc, generated⟩
    · exact taken_of_materialize h.sound call
    · exact reached.taken_of_generated found hc generated
  have steps := steps_foldl_apply later r'
  exact (taken.steps reached.sound steps).spent (reached.sound.steps steps)

/-- Two links of `a` with itself. The second copy for `m` clashes with a declared column. -/
def twins : List Call :=
  [.read (.ofText "[Settings]\nCLASS a\n"),
    .read (.ofText "[Settings]\nCLASS l\nLINK a a\n"),
    .read (.ofText "[Settings]\nCLASS m\nLINK a a\n[Fields]\nDATE x OTHER_A_KEY\n")]

theorem spent_of_materialize_twins :
    (((run twins).materialize ⟨"L", "A", "A"⟩).2 = none ∧
      ∀ later : List Call,
        (later.foldl apply ((run twins).materialize ⟨"L", "A", "A"⟩).1).Spent "L") ∧
    (((run twins).materialize ⟨"M", "A", "A"⟩).2.isSome = true ∧
      ∀ later : List Call,
        (later.foldl apply ((run twins).materialize ⟨"M", "A", "A"⟩).1).Spent "M") := by
  have reachable : (run twins).Reachable := ⟨twins, rfl⟩
  have built : ((run twins).materialize ⟨"L", "A", "A"⟩).2 = none := by decide +kernel
  have failed : ((run twins).materialize ⟨"M", "A", "A"⟩).2.isSome = true ∧
      ∃ t ∈ ((run twins).materialize ⟨"M", "A", "A"⟩).1.find? "M",
        ∃ c ∈ t.columns, c.linkGenerated = true := by
    decide +kernel
  obtain ⟨fails, left⟩ := failed
  refine ⟨⟨built, ?_⟩, fails, ?_⟩
  · exact spent_of_materialize (l := ⟨"L", "A", "A"⟩) reachable (Prod.eta _).symm (.inl built)
  · exact spent_of_materialize (l := ⟨"M", "A", "A"⟩) reachable (Prod.eta _).symm (.inr left)

end TableSchema.Registry
