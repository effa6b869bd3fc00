import TableSchema.Proofs.Definition.Lines
import TableSchema.Proofs.Registry.History
import TableSchema.Proofs.Schema.Rearranged

/-!
Links and foreign keys belong to tables.

Links and foreign keys are put into the registry before the table that they are about, but a file
that is refused or given up puts nothing there. So in every reachable registry they belong to tables
that are there (`declarations_of_run`): one link for each table that joins others, and foreign keys
that leave a registered table. The foreign keys that leave a table are first those of its file, in
the order of the lines, and then those of its link, which can only be built once the table is
registered (`Sound.keysFrom_foldl_apply`).
-/

namespace TableSchema.Registry

open List (Forall₂)

/-- The foreign keys that links have declared for a class, in order. -/
def synthesisedFor (calls : List Call) (domain : String) : List ForeignKey :=
  (empty.synthesisedByAll calls).filter fun key => key.fromTable == domain

variable {r : Registry} {domain : String}

theorem Sound.class_mem_of_foreignKey (h : r.Sound) {key : ForeignKey}
    (hkey : key ∈ r.foreignKeys) :
    key.fromTable ∈ r.tables.map Table.domain := by
  obtain ⟨t, ht, leaves⟩ := h.foreignKeys key hkey
  rw [leaves.fromTable]
  exact List.mem_map_of_mem ht

/-- No foreign key leaves a class that is not registered. -/
theorem Sound.keysFrom_of_free (h : r.Sound) (free : domain ∉ r.tables.map Table.domain) :
    r.keysFrom domain = [] := by
  refine List.filter_eq_nil_iff.mpr fun key hkey leaves => free ?_
  have same : key.fromTable = domain := by simpa using leaves
  exact same ▸ h.class_mem_of_foreignKey hkey

/-- A call that reads a definition declares foreign keys of its new class only. -/
theorem Indexed.declaredBy_of_taken (h : r.Indexed) (taken : domain ∈ r.tables.map Table.domain)
    (call : Call) : (r.declaredBy call).filter (fun key => key.fromTable == domain) = [] := by
  cases call with
  | materialize l => rfl
  | read s =>
    rcases r.registeredBy_read_cases s with ⟨_, none, _⟩ | ⟨d, sound, free, _, keys, _⟩
    · rw [none]
      rfl
    · rw [keys]
      refine List.filter_eq_nil_iff.mpr fun key hkey leaves => h.free_iff.mp free ?_
      have same : key.fromTable = domain := by simpa using leaves
      rw [← (sound.foreignKeys key hkey).fromTable, same]
      exact taken

/-- Once a class is registered, only links add foreign keys that leave it, and they add them behind
those that are there. -/
theorem Sound.keysFrom_foldl_apply (h : r.Sound) (taken : domain ∈ r.tables.map Table.domain)
    (calls : List Call) :
    (calls.foldl apply r).keysFrom domain =
      r.keysFrom domain ++
        (r.synthesisedByAll calls).filter fun key => key.fromTable == domain := by
  induction calls generalizing r with
  | nil => exact (List.append_nil _).symm
  | cons call calls ih =>
    have taken' : domain ∈ (r.apply call).tables.map Table.domain := by
      rw [h.indexed.domains_apply]
      exact List.mem_append_left _ taken
    have one : (r.apply call).keysFrom domain = r.keysFrom domain ++
        (r.synthesisedBy call).filter fun key => key.fromTable == domain := by
      unfold keysFrom
      rw [h.indexed.foreignKeys_apply, List.filter_append, List.filter_append,
        h.indexed.declaredBy_of_taken taken, List.nil_append]
    rw [List.foldl_cons, ih (h.step (step_apply r call)) taken', one, synthesisedByAll,
      List.filter_append, List.append_assoc]

/-- What links have declared stays in the registry. -/
theorem Sound.mem_foreignKeys_foldl_apply (h : r.Sound) (calls : List Call) {key : ForeignKey}
    (hkey : key ∈ r.foreignKeys ∨ key ∈ r.synthesisedByAll calls) :
    key ∈ (calls.foldl apply r).foreignKeys := by
  induction calls generalizing r with
  | nil =>
    rcases hkey with old | new
    · exact old
    · cases new
  | cons call calls ih =>
    refine ih (h.step (step_apply r call)) ?_
    rw [h.indexed.foreignKeys_apply, List.mem_append, List.mem_append]
    rcases hkey with old | new
    · exact .inl (.inl old)
    · rcases List.mem_append.mp new with now | later
      · exact .inl (.inr (.inr now))
      · exact .inr later

theorem synthesisedByAll_append (r : Registry) (before after : List Call) :
    r.synthesisedByAll (before ++ after) =
      r.synthesisedByAll before ++ (before.foldl apply r).synthesisedByAll after := by
  induction before generalizing r with
  | nil => rfl
  | cons call before ih =>
    rw [List.cons_append, synthesisedByAll, ih, synthesisedByAll, List.append_assoc, List.foldl_cons]

/-- The foreign keys that leave a class are those of its definition, and behind them those of its
link. -/
theorem keysFrom_of_registered {calls : List Call} {s : Scanner} {d : Definition}
    (registered : (s, d) ∈ empty.registeredByAll calls) :
    (run calls).keysFrom d.table.domain = d.foreignKeys ++ synthesisedFor calls d.table.domain := by
  obtain ⟨before, after, rfl, events⟩ := exists_moment registered
  have sound : (run before).Sound := Reachable.sound ⟨before, rfl⟩
  obtain ⟨declared, free⟩ := Definition.ofEvents_sound events
  have free' : d.table.domain ∉ (run before).tables.map Table.domain :=
    sound.indexed.free_iff.mp free
  have sound' : ((run before).add d).Sound := sound.add declared free
  have added := sound.indexed.add_eq free
  -- at the moment of registration the foreign keys are those of the definition
  have own : ((run before).add d).keysFrom d.table.domain = d.foreignKeys := by
    have old : (run before).keysFrom d.table.domain = [] := sound.keysFrom_of_free free'
    unfold keysFrom at old ⊢
    rw [added, List.filter_append, old, List.nil_append, List.filter_eq_self]
    intro key hkey
    simpa using (declared.foreignKeys key hkey).fromTable
  -- no link could declare foreign keys for the class before
  have early : (empty.synthesisedByAll before).filter
      (fun key => key.fromTable == d.table.domain) = [] := by
    refine List.filter_eq_nil_iff.mpr fun key hkey leaves => free' ?_
    have same : key.fromTable = d.table.domain := by simpa using leaves
    rw [← same]
    exact sound.class_mem_of_foreignKey (sound_empty.mem_foreignKeys_foldl_apply before (.inr hkey))
  have taken : d.table.domain ∈ ((run before).add d).tables.map Table.domain := by
    rw [added]
    simp
  have links : synthesisedFor (before ++ .read s :: after) d.table.domain =
      (((run before).add d).synthesisedByAll after).filter
        fun key => key.fromTable == d.table.domain := by
    rw [synthesisedFor, synthesisedByAll_append, List.filter_append, early, List.nil_append,
      synthesisedByAll, apply_read_of_fresh events]
    rfl
  rw [run_read_of_fresh events, links, sound'.keysFrom_foldl_apply taken after, own]

/-- In every reachable registry, no two links are declared for one table, links are declared for the
tables that join others, and foreign keys leave registered tables and have fields on both sides. The
foreign keys that leave a table are those that the lines of its file declare, in the order of the
lines, and behind them those that were declared for its link. -/
theorem declarations_of_run (calls : List Call) :
    ((run calls).links.map Link.table).Nodup ∧
    (run calls).links.map Link.table =
      ((run calls).tables.filter Table.manyToMany).map Table.domain ∧
    (∀ key ∈ (run calls).foreignKeys, ∃ t ∈ (run calls).tables, key.Leaves t.domain) ∧
    ∀ t ∈ (run calls).tables, ∃ s d, (s, d) ∈ empty.registeredByAll calls ∧
      d.table.domain = t.domain ∧
      Forall₂ (fun line key =>
          Definition.readForeignKey t.domain line.first line.rest = .ok key)
        (Definition.foreignKeyLines s.events) d.foreignKeys ∧
      (run calls).keysFrom t.domain = d.foreignKeys ++ synthesisedFor calls t.domain := by
  have sound : (run calls).Sound := Reachable.sound ⟨calls, rfl⟩
  refine ⟨sound.nodup_links, sound.map_table_links, sound.foreignKeys, fun t ht => ?_⟩
  obtain ⟨s, d, registered, same⟩ := exists_registered ht
  obtain ⟨before, after, _, events⟩ := exists_moment registered
  refine ⟨s, d, registered, same, ?_, ?_⟩
  · rw [← same]
    exact Definition.ofEvents_foreignKeys events
  · rw [← same]
    exact keysFrom_of_registered registered

/-- A link table with two foreign keys of its own, in two sections, behind a file that is refused
for its second foreign key, and a call that builds the link. -/
def enrolment : List Call :=
  [.read (.ofText "[Settings]\nCLASS e\nLINK a b\n[ForeignKeys]\nx constrainsTo a.u\ny\n"),
    .read (.ofText ("[Settings]\nCLASS e\nLINK a b\n[ForeignKeys]\nx constrainsTo b.v\n" ++
      "[Fields]\nLONG(9) x\nLONG(9) y\n[ForeignKeys]\ny constrainsTo a.u\n")),
    .read (.ofText "[Settings]\nCLASS a\n[Fields]\nLONG(9) ! u\n"),
    .read (.ofText "[Settings]\nCLASS b\n[Fields]\nLONG(9) ! v\n"),
    .materialize ⟨"E", "A", "B"⟩]

theorem declarations_of_run_enrolment :
    (run enrolment).links.map Link.table = ["E"] ∧
    (run enrolment).foreignKeys.map ForeignKey.fromFields = [["x"], ["y"], ["aU"], ["bV"]] ∧
    ∃ s d, (s, d) ∈ empty.registeredByAll enrolment ∧ d.table.domain = "E" ∧
      Forall₂ (fun line key => Definition.readForeignKey "E" line.first line.rest = .ok key)
        (Definition.foreignKeyLines s.events) d.foreignKeys ∧
      (run enrolment).keysFrom "E" = d.foreignKeys ++ synthesisedFor enrolment "E" := by
  obtain ⟨_, links, _, declared⟩ := declarations_of_run enrolment
  have facts : ((run enrolment).tables.filter Table.manyToMany).map Table.domain = ["E"] ∧
      (run enrolment).foreignKeys.map ForeignKey.fromFields = [["x"], ["y"], ["aU"], ["bV"]] := by
    decide +kernel
  obtain ⟨joining, fields⟩ := facts
  have first : "E" ∈ ((run enrolment).tables.filter Table.manyToMany).map Table.domain := by
    rw [joining]
    exact List.mem_cons_self
  obtain ⟨t, member, named⟩ := List.mem_map.mp first
  have entry := declared t (List.mem_filter.mp member).1
  rw [named] at entry
  exact ⟨links.trans joining, fields, entry⟩

end TableSchema.Registry
