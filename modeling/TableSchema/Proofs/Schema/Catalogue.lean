import TableSchema.Proofs.Registry.History
import TableSchema.Proofs.Schema.Finish

/-!
The index of a registry.

Tables are looked up through an index from classes to positions, and nothing checks that a position
lies inside the list of tables. The index holds one entry for each table, with its class and its
position, in the order of registration (`Listed`): registering a table adds both at once, and every
other call keeps the classes where they are. So a class leads to the only table that has it
(`Catalogued`), and it keeps its position for ever. A schema has no index; the search through its
tables finds the same position (`catalogued_of_reachable`).
-/

namespace TableSchema.Registry

/-- The index lists the classes of the tables with their positions, the newest first. -/
def Listed (r : Registry) : Prop := r.positions.reverse = (r.tables.map Table.domain).zipIdx

/-- The index fits the tables: it lists each class once, with a position inside the list of tables,
and all that is looked up through it is about the table that has the class. -/
structure Catalogued (r : Registry) : Prop where
  listed : r.Listed
  nodup : (r.tables.map Table.domain).Nodup
  inside : ∀ entry ∈ r.positions, entry.2 < r.tables.length
  position : ∀ domain i,
    r.position? domain = some i ↔ ∃ t, r.tables[i]? = some t ∧ t.domain = domain
  found : ∀ domain t, r.find? domain = some t ↔ t ∈ r.tables ∧ t.domain = domain
  contains : ∀ domain, r.contains domain = true ↔ ∃ t ∈ r.tables, t.domain = domain

variable {r r' b : Registry} {domain : String} {i : Nat}

/-! ## The list of classes -/

theorem Listed.congr (h : r.Listed) (positions : r'.positions = r.positions)
    (domains : r'.tables.map Table.domain = r.tables.map Table.domain) : r'.Listed := by
  unfold Listed
  rw [positions, domains]
  exact h

/-- One call keeps the list of classes right. -/
theorem Listed.step (h : r.Listed) (indexed : r.Indexed) (step : Step r r') : r'.Listed := by
  cases step with
  | stay => exact h
  | add _ free =>
    have listed : r.positions.reverse = (r.tables.map Table.domain).zipIdx := h
    unfold Listed
    rw [indexed.add_eq free]
    simp [listed, List.zipIdx_append]
  | clash joins _ _ =>
    exact h.congr (positions_modify _ _ _)
      (indexed.domains_modify fun _ _ _ => (indexed.find?_eq_some_iff.mp joins.joint).2)
  | link joins _ => exact h.congr (positions_modify _ _ _) (indexed.domains_link joins)

theorem Sound.listed (h : r.Sound) (listed : r.Listed) (steps : Relation.ReflTransGen Step r r') :
    r'.Listed :=
  h.kept_along steps (fun sound step listed => listed.step sound.indexed step) listed

/-! ## Positions -/

/-- A class stands at the position of the table that has it. -/
theorem Indexed.position?_eq_some_iff (h : r.Indexed) :
    r.position? domain = some i ↔ ∃ t, r.tables[i]? = some t ∧ t.domain = domain := by
  have at_position : ∀ {j : Nat}, r.position? domain = some j →
      ∃ t, r.tables[j]? = some t ∧ t.domain = domain := by
    intro j found
    rw [h.position?_eq] at found
    obtain ⟨inside, same, _⟩ := List.findIdx?_eq_some_iff_getElem.mp found
    exact ⟨r.tables[j], List.getElem?_eq_getElem inside, by simpa using same⟩
  refine ⟨at_position, ?_⟩
  rintro ⟨t, ht, rfl⟩
  cases found : r.position? t.domain with
  | none =>
    rw [h.position?_eq, List.findIdx?_eq_none_iff] at found
    simpa using found t (List.mem_of_getElem? ht)
  | some j =>
    -- the table at the position that is found has the same class, so it is this one
    obtain ⟨u, hu, same⟩ := at_position found
    have classAt : (r.tables.map Table.domain)[j]? = (r.tables.map Table.domain)[i]? := by
      rw [List.getElem?_map, List.getElem?_map, hu, ht, Option.map_some, Option.map_some, same]
    have inside : j < (r.tables.map Table.domain).length := by
      rw [List.length_map]
      exact (List.getElem?_eq_some_iff.mp hu).1
    rw [(List.getElem?_inj inside h.nodup).mp classAt]

theorem Indexed.contains_iff (h : r.Indexed) :
    r.contains domain = true ↔ ∃ t ∈ r.tables, t.domain = domain := by
  rw [contains, h.position?_eq, List.findIdx?_isSome, List.any_eq_true]
  simp

/-- One call keeps the position of every class. -/
theorem Step.position?_of_some (h : r.Indexed) (step : Step r r')
    (found : r.position? domain = some i) : r'.position? domain = some i := by
  cases step with
  | stay => exact found
  | add _ free =>
    rw [h.position?_eq] at found
    rw [(h.add free).position?_eq, h.add_eq free, List.findIdx?_append, found, Option.some_or]
  | clash _ _ _ => rw [position?_modify, found]
  | link _ _ => exact (position?_modify _ _ _ _).trans found

theorem Sound.position?_of_some (h : r.Sound) (steps : Relation.ReflTransGen Step r r')
    (found : r.position? domain = some i) : r'.position? domain = some i :=
  h.kept_along (P := fun r => r.position? domain = some i) steps
    (fun sound step found => step.position?_of_some sound.indexed found) found

theorem Sound.catalogued (h : r.Sound) (listed : r.Listed) : r.Catalogued where
  listed := listed
  nodup := h.indexed.nodup
  inside entry hentry := by
    have member : entry ∈ (r.tables.map Table.domain).zipIdx := listed ▸ List.mem_reverse.mpr hentry
    have below := List.snd_lt_of_mem_zipIdx member
    rwa [List.length_map] at below
  position _ _ := h.indexed.position?_eq_some_iff
  found _ _ := h.indexed.find?_eq_some_iff
  contains _ := h.indexed.contains_iff

/-! ## The schema -/

/-- A search through the tables of a schema stops at the position that the class has in the
registry. -/
theorem Finished.table?_of_position {g : Schema} (h : r.Finished g b) (indexed : r.Indexed)
    (found : r.position? domain = some i) :
    ∃ t, g.tables[i]? = some t ∧ t.domain = domain ∧ g.table? domain = some t := by
  obtain ⟨u, hu, named⟩ := indexed.position?_eq_some_iff.mp found
  have classAt : (b.tables.map Table.domain)[i]? = some domain := by
    rw [h.domains, List.getElem?_map, hu, Option.map_some, named]
  rw [List.getElem?_map] at classAt
  obtain ⟨t, ht, named'⟩ := Option.map_eq_some_iff.mp classAt
  have tables : g.tables = b.tables.map (Table.attached g.constraints) :=
    congrArg Schema.tables h.schema
  refine ⟨t.attached g.constraints, ?_, named', ?_⟩
  · rw [tables, List.getElem?_map, ht, Option.map_some]
  · rw [h.table?_eq, h.sound.indexed.find?_eq_some_iff.mpr ⟨List.mem_of_getElem? ht, named'⟩,
      Option.map_some]

theorem Finished.table?_of_not_contains {g : Schema} (h : r.Finished g b) (indexed : r.Indexed)
    (absent : r.contains domain = false) : g.table? domain = none := by
  have free : b.find? domain = none := by
    rw [h.sound.indexed.find?_eq_none_iff]
    intro t ht named
    have member : domain ∈ r.tables.map Table.domain := by
      rw [← h.domains, ← named]
      exact List.mem_map_of_mem ht
    obtain ⟨u, hu, same⟩ := List.mem_map.mp member
    rw [indexed.contains_iff.mpr ⟨u, hu, same⟩] at absent
    cases absent
  rw [h.table?_eq, free, Option.map_none]

/-- In every reachable registry the index fits the tables. No later call moves a class, and in the
schema that a run ends in a class leads to the table at the same position, and no other class leads
to a table. -/
theorem catalogued_of_reachable (h : r.Reachable) :
    r.Catalogued ∧
    (∀ (later : List Call) domain i, r.position? domain = some i →
      (later.foldl apply r).position? domain = some i) ∧
    ∀ g, r.finish = .ok g →
      (∀ domain i, r.position? domain = some i →
        ∃ t, g.tables[i]? = some t ∧ t.domain = domain ∧ g.table? domain = some t) ∧
      ∀ domain, r.contains domain = false → g.table? domain = none := by
  have listed : r.Listed := sound_empty.listed rfl h.steps
  refine ⟨h.sound.catalogued listed, fun later domain i => ?_, fun g done => ?_⟩
  · exact h.sound.position?_of_some (steps_foldl_apply later r)
  · obtain ⟨b, finished⟩ := h.sound.finished done
    exact ⟨fun domain i => finished.table?_of_position h.sound.indexed,
      fun domain => finished.table?_of_not_contains h.sound.indexed⟩

/-- Three classes, one of which is declared twice, a file that is refused, and a link that is tried
before both of its ends are there. -/
def redeclared : List Call :=
  [.read (.ofText "[Settings]\nCLASS b\n"),
    .read (.ofText "[Settings]\nCLASS c\n[Fields]\nDATE\n"),
    .read (.ofText "[Settings]\nCLASS l\nLINK b a\n"),
    .read (.ofText "[Settings]\nCLASS b other\n"),
    .materialize ⟨"L", "B", "A"⟩,
    .read (.ofText "[Settings]\nCLASS a\n")]

theorem catalogued_of_reachable_redeclared :
    (run redeclared).Catalogued ∧ (run redeclared).position? "A" = some 2 ∧
    (∀ later : List Call, (later.foldl apply (run redeclared)).position? "A" = some 2) ∧
    (run redeclared).contains "C" = false ∧
    ∃ g, (run redeclared).finish = .ok g ∧
      (∃ t, g.tables[2]? = some t ∧ t.domain = "A" ∧ g.table? "A" = some t) ∧
      g.table? "C" = none := by
  obtain ⟨catalogued, kept, ended⟩ := catalogued_of_reachable (r := run redeclared) ⟨_, rfl⟩
  have position : (run redeclared).position? "A" = some 2 := by decide +kernel
  have absent : (run redeclared).contains "C" = false := by decide +kernel
  refine ⟨catalogued, position, fun later => kept later _ _ position, absent, ?_⟩
  have succeeds : (run redeclared).finish.isOk = true := by decide +kernel
  cases done : (run redeclared).finish with
  | error d =>
    rw [done] at succeeds
    cases succeeds
  | ok g =>
    obtain ⟨present, others⟩ := ended g done
    exact ⟨g, rfl, present _ _ position, others _ absent⟩

end TableSchema.Registry
