import Mathlib.Logic.Relation
import TableSchema.Proofs.Definition.Declared
import TableSchema.Proofs.Registry.Linking
import TableSchema.Proofs.Registry.Lookup

/-!
Reachable registries.

A run reads inputs and builds links in any order, and goes on after a failure with whatever the
failure left. `Registry.Step` lists what a single call can do; everything that holds of reachable
registries is an invariant of these steps. The invariant here (`Registry.Sound`) says that the index
is right, that the tables that join others are those that links are declared for, and what the
columns and keys of a registered table are like.
-/

namespace TableSchema

/-- A call on a registry. -/
inductive Call where
  | read (s : Scanner)
  | materialize (l : Link)

namespace Registry

/-- The registry after a call. A refused definition changes nothing; a link that fails may leave
columns behind. -/
def apply (r : Registry) : Call → Registry
  | .read s =>
    match r.read s with
    | .ok (_, after) => after
    | .error _ => r
  | .materialize l => (r.materialize l).1

/-- The registry after a sequence of calls. -/
def run (calls : List Call) : Registry := calls.foldl apply empty

/-- A registry that some sequence of calls leads to. -/
def Reachable (r : Registry) : Prop := ∃ calls, run calls = r

/-- What a call can do to a registry. -/
inductive Step : Registry → Registry → Prop
  | stay {r : Registry} : Step r r
  | add {r : Registry} {d : Definition} :
      d.Sound → r.find? d.table.domain = none → Step r (r.add d)
  | clash {r : Registry} {l : Link} {tables : LinkTables} {front : List Column} :
      r.Joins l tables → tables.joint.Fits front → (∀ c ∈ front, c ∈ l.clones tables) →
      Step r (r.modify l.table fun _ => tables.joint.extend front)
  | link {r : Registry} {l : Link} {tables : LinkTables} :
      r.Joins l tables → tables.joint.Fits (l.clones tables) → Step r (r.link l tables)

theorem step_materialize (r : Registry) (l : Link) : Step r (r.materialize l).1 := by
  rcases materialize_cases r l with ⟨_, _, refused⟩ |
    ⟨tables, front, c, back, _, joins, _, split, fits, _, stuck⟩ | ⟨tables, joins, fits, built⟩
  · rw [refused]
    exact .stay
  · rw [stuck]
    exact .clash joins fits fun c hc => by simp [split, hc]
  · rw [built]
    exact .link joins fits

/-- What reading does: nothing, or it adds a definition of a new class. -/
theorem read_eq_ok {r after : Registry} {s : Scanner} {t : Table} (h : r.read s = .ok (t, after)) :
    (after = r ∧ Definition.ofEvents r.find? s.events = .ok (.registered t)) ∨
    ∃ d, Definition.ofEvents r.find? s.events = .ok (.fresh d) ∧ t = d.table ∧ after = r.add d := by
  obtain ⟨reading, read, h⟩ := Except.bind_eq_ok.mp h
  cases reading with
  | registered u =>
    cases h
    exact .inl ⟨rfl, read⟩
  | fresh d =>
    cases h
    exact .inr ⟨d, read, rfl, rfl⟩

theorem step_apply (r : Registry) (call : Call) : Step r (r.apply call) := by
  cases call with
  | materialize l => exact step_materialize r l
  | read s =>
    show Step r (match r.read s with
      | .ok (_, after) => after
      | .error _ => r)
    split
    · rename_i t after read
      rcases read_eq_ok read with ⟨rfl, _⟩ | ⟨d, events, _, rfl⟩
      · exact .stay
      · obtain ⟨sound, free⟩ := Definition.ofEvents_sound events
        exact .add sound free
    · exact .stay

end Registry

/-! ## Registered tables -/

namespace Table

variable {t : Table}

/-- The default key stands in front of the declared columns, none of which is a key. -/
def HasDefaultKey (t : Table) : Prop :=
  t.manyToMany = false ∧ ∃ declared, t.columns = defaultKey t.domain declared.head? :: declared ∧
    UniqueNames declared ∧ ∀ c ∈ declared, c.isKey = false

/-- What every registered table keeps to. A table that joins others has keys once it is linked, and
any other table has keys from the start. Names can only clash where the default key was added. -/
structure Registered (t : Table) : Prop where
  unattached : t.foreignKeys = []
  keyed : t.manyToMany = false → t.keyColumns ≠ []
  linked : t.endpoints ≠ none → t.manyToMany = true ∧ t.keyColumns ≠ []
  names : UniqueNames t.columns ∨ t.HasDefaultKey

theorem Declared.setup (h : t.Declared) : t.setup.Registered := by
  refine ⟨h.unattached, fun ordinary => keyColumns_setup_ne_nil (t := t) ordinary,
    fun linked => absurd h.unlinked linked, ?_⟩
  cases joins : t.manyToMany with
  | true => exact .inl (columns_setup_of_joins joins ▸ h.names)
  | false =>
    have columns := columns_setup_of_ordinary joins
    rcases keyFirst_cases t.domain t.columns with ⟨perm, _⟩ | ⟨added, keyless⟩
    · exact .inl (columns ▸ h.names.of_perm perm.symm)
    · exact .inr ⟨joins, t.columns, columns.trans added, h.names, keyless⟩

/-- Only a table that joins others can be without a key. -/
theorem Registered.manyToMany_of_keyless (h : t.Registered) (keyless : t.keyColumns = []) :
    t.manyToMany = true := by
  cases joins : t.manyToMany with
  | true => rfl
  | false => exact absurd keyless (h.keyed joins)

theorem Registered.unlinked_of_keyless (h : t.Registered) (keyless : t.keyColumns = []) :
    t.endpoints = none := by
  by_contra linked
  exact (h.linked linked).2 keyless

theorem HasDefaultKey.keyColumns_ne_nil (h : t.HasDefaultKey) : t.keyColumns ≠ [] := by
  obtain ⟨_, declared, columns, _⟩ := h
  simp [keyColumns, columns, isKey_defaultKey]

theorem Registered.names_extend (h : t.Registered) (keyless : t.keyColumns = [])
    {front : List Column} (fits : t.Fits front) : UniqueNames (t.extend front).columns := by
  rcases h.names with names | added
  · exact uniqueNames_append_iff.mpr ⟨names, fits⟩
  · exact absurd keyless added.keyColumns_ne_nil

/-- A clash leaves a table that is still registered properly. -/
theorem Registered.extend (h : t.Registered) (keyless : t.keyColumns = []) {front : List Column}
    (fits : t.Fits front) : (t.extend front).Registered where
  unattached := h.unattached
  keyed ordinary := nomatch (h.manyToMany_of_keyless keyless).symm.trans ordinary
  linked linked := absurd (h.unlinked_of_keyless keyless) linked
  names := .inl (h.names_extend keyless fits)

end Table

theorem Table.manyToMany_iff_linkClass? {t : Table} :
    t.manyToMany = true ↔ t.linkClass? = some t.domain := by
  cases h : t.manyToMany <;> simp [linkClass?, h]

/-- The joining table has keys once its link is built. -/
theorem Link.keyColumns_build {l : Link} {tables : LinkTables}
    (keyless : tables.joint.keyColumns = []) :
    (l.build tables).keyColumns = l.clones tables := by
  have keys := Table.keyColumns_extend (t := tables.joint) fun c (hc : c ∈ l.clones tables) =>
    isKey_of_mem_clones hc
  rw [keyless, List.nil_append] at keys
  exact keys

theorem Link.clones_ne_nil {l : Link} {tables : LinkTables} (keyed : tables.one.keyColumns ≠ []) :
    l.clones tables ≠ [] := by
  simp [clones, Table.keyClones, keyed]

theorem Link.registered_build {l : Link} {tables : LinkTables} (h : tables.joint.Registered)
    (keyless : tables.joint.keyColumns = []) (keyed : tables.one.keyColumns ≠ [])
    (fits : tables.joint.Fits (l.clones tables)) : (l.build tables).Registered where
  unattached := h.unattached
  keyed ordinary := by cases ordinary
  linked _ := ⟨rfl, by rw [keyColumns_build keyless]; exact clones_ne_nil keyed⟩
  names := .inl (h.names_extend keyless fits)

/-- Both keys of a link leave the joining table and have fields on both sides. -/
theorem Link.leaves_of_mem_keys {l : Link} {tables : LinkTables} {key : ForeignKey}
    (oneKeyed : tables.one.keyColumns ≠ []) (twoKeyed : tables.two.keyColumns ≠ [])
    (hkey : key ∈ l.keys tables) : key.Leaves l.table := by
  have leaves : ∀ (domain front : String) (t : Table), t.keyColumns ≠ [] →
      (l.keyTo domain t (t.keyClones l.table front)).Leaves l.table := fun domain front t keyed =>
    ⟨rfl, by simpa [keyTo, Table.keyClones] using keyed, by simpa [keyTo] using keyed⟩
  rcases List.mem_cons.mp hkey with rfl | hkey
  · exact leaves _ _ _ oneKeyed
  · obtain rfl := List.mem_singleton.mp hkey
    exact leaves _ _ _ twoKeyed

namespace Registry

variable {r r' : Registry}

/-- Building a link keeps the class of the joining table. -/
theorem Indexed.domain_build (h : r.Indexed) {l : Link} {tables : LinkTables}
    (joins : r.Joins l tables) : (l.build tables).domain = l.table :=
  (h.find?_eq_some_iff.mp joins.joint).2

/-- Once a link is built, the joining table is there as it was built. -/
theorem Indexed.build_mem (h : r.Indexed) {l : Link} {tables : LinkTables}
    (joins : r.Joins l tables) : l.build tables ∈ (r.link l tables).tables := by
  obtain ⟨found, domain⟩ := h.find?_eq_some_iff.mp joins.joint
  show l.build tables ∈ (r.modify l.table fun _ => l.build tables).tables
  rw [h.tables_modify]
  exact List.mem_map.mpr ⟨tables.joint, found, if_pos domain⟩

/-- What every reachable registry keeps to. -/
structure Sound (r : Registry) : Prop where
  indexed : r.Indexed
  links : r.links.map Link.table = r.tables.filterMap Table.linkClass?
  tables : ∀ t ∈ r.tables, t.Registered
  foreignKeys : ∀ key ∈ r.foreignKeys, ∃ t ∈ r.tables, key.Leaves t.domain

theorem sound_empty : empty.Sound :=
  ⟨indexed_empty, rfl, by simp [empty], by simp [empty]⟩

/-- Links are declared for the tables that join others, in the order of the tables. -/
theorem Sound.map_table_links (h : r.Sound) :
    r.links.map Link.table = (r.tables.filter Table.manyToMany).map Table.domain := by
  rw [h.links, ← List.filterMap_eq_map, List.filterMap_filter]
  exact List.filterMap_congr fun t _ => rfl

/-- A table joins others when a link is declared for it. -/
theorem Sound.manyToMany_iff (h : r.Sound) {t : Table} (ht : t ∈ r.tables) :
    t.manyToMany = true ↔ ∃ l ∈ r.links, l.table = t.domain := by
  rw [Table.manyToMany_iff_linkClass?, ← List.mem_map, h.links, List.mem_filterMap]
  constructor
  · intro joins
    exact ⟨t, ht, joins⟩
  · rintro ⟨u, hu, joins⟩
    have same : u.domain = t.domain := by
      unfold Table.linkClass? at joins
      split at joins
      · exact Option.some.inj joins
      · cases joins
    have found := h.indexed.find?_domain hu
    rw [same, h.indexed.find?_domain ht] at found
    obtain rfl := Option.some.inj found
    exact joins

/-- No two links are declared for one table. -/
theorem Sound.nodup_links (h : r.Sound) : (r.links.map Link.table).Nodup := by
  rw [h.map_table_links]
  exact h.indexed.nodup.sublist (List.filter_sublist.map _)

/-- Replacing a table by one of the same class that joins others if it does. -/
theorem Sound.replace (h : r.Sound) {t u : Table} (found : r.find? t.domain = some t)
    (domain : u.domain = t.domain) (joins : u.manyToMany = t.manyToMany)
    (registered : u.Registered) :
    (r.modify t.domain fun _ => u).Sound := by
  have tables := h.indexed.tables_modify t.domain fun _ => u
  have domains : ∀ x ∈ r.tables, x.domain = t.domain → x = t := fun x hx same =>
    Option.some.inj ((h.indexed.find?_eq_some_iff.mpr ⟨hx, same⟩).symm.trans found)
  refine ⟨h.indexed.modify fun _ _ _ => domain, ?_, ?_, ?_⟩
  · rw [links_modify, h.links, tables, List.filterMap_map]
    refine List.filterMap_congr fun x hx => ?_
    simp only [Function.comp_apply]
    split
    · rename_i same
      rw [domains x hx same, Table.linkClass?, Table.linkClass?, domain, joins]
    · rfl
  · rw [tables]
    intro x hx
    obtain ⟨y, hy, rfl⟩ := List.mem_map.mp hx
    split
    · exact registered
    · exact h.tables y hy
  · rw [foreignKeys_modify, tables]
    intro key hkey
    obtain ⟨x, hx, leaves⟩ := h.foreignKeys key hkey
    refine ⟨_, List.mem_map_of_mem hx, ?_⟩
    split
    · rename_i same
      rw [domain, ← same]
      exact leaves
    · exact leaves

theorem Sound.add (h : r.Sound) {d : Definition} (sound : d.Sound)
    (free : r.find? d.table.domain = none) : (r.add d).Sound := by
  refine ⟨h.indexed.add free, ?_, ?_, ?_⟩ <;> rw [h.indexed.add_eq free]
  · obtain ⟨link, _, _⟩ := sound
    simp only [List.map_append, List.filterMap_append, h.links, List.filterMap_cons,
      List.filterMap_nil, ← link]
    cases d.link <;> rfl
  · intro t ht
    rcases List.mem_append.mp ht with old | new
    · exact h.tables t old
    · obtain rfl : t = d.table := by simpa using new
      obtain ⟨u, declared, setup⟩ := sound.table
      exact setup ▸ declared.setup
  · intro key hkey
    rcases List.mem_append.mp hkey with old | new
    · obtain ⟨t, ht, leaves⟩ := h.foreignKeys key old
      exact ⟨t, List.mem_append_left _ ht, leaves⟩
    · exact ⟨d.table, by simp, sound.foreignKeys key new⟩

/-- One call keeps what every reachable registry keeps to. -/
theorem Sound.step (h : r.Sound) (step : Step r r') : r'.Sound := by
  cases step with
  | stay => exact h
  | add sound free => exact h.add sound free
  | @clash l tables front joins fits _ =>
    obtain ⟨found, domain⟩ := h.indexed.find?_eq_some_iff.mp joins.joint
    have registered := h.tables _ found
    rw [← domain]
    exact h.replace (h.indexed.find?_domain found) rfl rfl (registered.extend joins.keyless fits)
  | @link l tables joins fits =>
    obtain ⟨found, domain⟩ := h.indexed.find?_eq_some_iff.mp joins.joint
    have registered := h.tables _ found
    have built := Link.registered_build registered joins.keyless joins.oneKeyed fits
    -- building sets the flag, which a table without keys has already
    have joint : (l.build tables).manyToMany = tables.joint.manyToMany :=
      (registered.manyToMany_of_keyless joins.keyless).symm
    have replaced := h.replace (h.indexed.find?_domain found) (u := l.build tables) rfl joint built
    rw [domain] at replaced
    refine ⟨⟨replaced.indexed.nodup, replaced.indexed.position?_eq⟩, replaced.links,
      replaced.tables, fun key hkey => ?_⟩
    rcases List.mem_append.mp hkey with old | new
    · exact replaced.foreignKeys key (by rwa [foreignKeys_modify])
    · refine ⟨l.build tables, h.indexed.build_mem joins, ?_⟩
      rw [h.indexed.domain_build joins]
      exact Link.leaves_of_mem_keys joins.oneKeyed joins.twoKeyed new

theorem Sound.steps (h : r.Sound) (steps : Relation.ReflTransGen Step r r') : r'.Sound := by
  induction steps with
  | refl => exact h
  | tail _ step ih => exact ih.step step

/-- What every step of a sound registry keeps holds at the end of a run. -/
theorem Sound.kept_along {P : Registry → Prop} (h : r.Sound)
    (steps : Relation.ReflTransGen Step r r')
    (keeps : ∀ {a b : Registry}, a.Sound → Step a b → P a → P b) (start : P r) : P r' := by
  induction steps with
  | refl => exact start
  | tail steps step ih => exact keeps (h.steps steps) step ih

/-- Calls are steps. -/
theorem steps_foldl_apply (calls : List Call) (r : Registry) :
    Relation.ReflTransGen Step r (calls.foldl apply r) := by
  induction calls generalizing r with
  | nil => exact .refl
  | cons call calls ih => exact .head (step_apply r call) (ih _)

theorem Reachable.steps (h : r.Reachable) : Relation.ReflTransGen Step empty r := by
  obtain ⟨calls, rfl⟩ := h
  exact steps_foldl_apply calls empty

/-- Every reachable registry is sound. -/
theorem Reachable.sound (h : r.Reachable) : r.Sound := sound_empty.steps h.steps

end Registry

end TableSchema
