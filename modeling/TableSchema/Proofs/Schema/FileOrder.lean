import TableSchema.Proofs.Schema.Rearranged

/-!
The order of files does not matter.

A file that can be read on its own declares the same in every registry that lacks its class
(`read_of_declares`). Files of different classes can therefore be read in any order, and the
registry holds what each of them declares (`Collected`). Two orders give registries with the same
content, and from there on the order is not seen (`finish_of_perm`).
-/

namespace TableSchema

open List (Forall₂)

/-- An input that is read on its own gives the definition `d`. -/
def Scanner.Declares (s : Scanner) (d : Definition) : Prop :=
  Definition.ofEvents Registry.empty.find? s.events = .ok (.fresh d)

namespace Registry

/-- Reads inputs one after the other, up to the first that is refused. -/
def readAll (r : Registry) : List Scanner → Except Definition.Refusal Registry
  | [] => .ok r
  | s :: inputs => do
    let (_, after) ← r.read s
    after.readAll inputs

variable {r r' : Registry} {s : Scanner} {d : Definition} {inputs : List Scanner}
  {definitions : List Definition}

theorem exists_declares_of_read {t : Table} (h : empty.read s = .ok (t, r)) :
    ∃ d, s.Declares d ∧ d.table = t := by
  rcases read_eq_ok h with ⟨_, taken⟩ | ⟨d, fresh, table, _⟩
  · obtain ⟨domain, found⟩ := Definition.ofEvents_registered taken
    cases found
  · exact ⟨d, fresh, table.symm⟩

/-- What an input declares does not depend on what else was read. -/
theorem read_of_declares (declares : s.Declares d) (free : r.find? d.table.domain = none) :
    r.read s = .ok (d.table, r.add d) := by
  rw [read, Definition.ofEvents_congr declares free]
  rfl

/-- The registry `r'` holds what `r` holds and after that some definitions. -/
structure Collected (r : Registry) (definitions : List Definition) (r' : Registry) : Prop where
  sound : r'.Sound
  declared : ∀ d ∈ definitions, d.Sound
  tables : r'.tables = r.tables ++ definitions.map Definition.table
  links : r'.links = r.links ++ definitions.flatMap fun d => d.link.toList
  foreignKeys : r'.foreignKeys = r.foreignKeys ++ definitions.flatMap Definition.foreignKeys

/-- Inputs of different new classes are all read. -/
theorem readAll_of_declares (sound : r.Sound)
    (declare : Forall₂ Scanner.Declares inputs definitions)
    (free : ∀ d ∈ definitions, r.find? d.table.domain = none)
    (apart : (definitions.map fun d => d.table.domain).Nodup) :
    ∃ r', r.readAll inputs = .ok r' ∧ r.Collected definitions r' := by
  induction declare generalizing r with
  | nil => exact ⟨r, rfl, sound, by simp, by simp, by simp, by simp⟩
  | @cons s d inputs definitions declares _ ih =>
    have new : r.find? d.table.domain = none := free d List.mem_cons_self
    have declared : d.Sound := (Definition.ofEvents_sound declares).1
    have sound' : (r.add d).Sound := sound.add declared new
    obtain ⟨others, apart⟩ := List.nodup_cons.mp apart
    have free' : ∀ e ∈ definitions, (r.add d).find? e.table.domain = none := by
      intro e he
      have different : e.table.domain ≠ d.table.domain := fun same =>
        others (List.mem_map.mpr ⟨e, he, same⟩)
      rw [sound.indexed.find?_add new, if_neg different]
      exact free e (List.mem_cons_of_mem _ he)
    obtain ⟨r', read, collected⟩ := ih sound' free' apart
    refine ⟨r', ?_, collected.sound, ?_, ?_, ?_, ?_⟩
    · exact Except.bind_eq_ok.mpr ⟨_, read_of_declares declares new, read⟩
    · exact List.forall_mem_cons.mpr ⟨declared, collected.declared⟩
    · rw [collected.tables, sound.indexed.add_eq new]
      simp
    · rw [collected.links, sound.indexed.add_eq new]
      simp
    · rw [collected.foreignKeys, sound.indexed.add_eq new]
      simp

/-- Definitions of different classes give the same content in any order. -/
theorem Collected.rearranged {others : List Definition} (h : empty.Collected definitions r)
    (h' : empty.Collected others r') (perm : definitions.Perm others)
    (apart : (definitions.map fun d => d.table.domain).Nodup) : r.Rearranged r' := by
  have tables : r.tables = definitions.map Definition.table := h.tables
  have tables' : r'.tables = others.map Definition.table := h'.tables
  have links : r.links = definitions.flatMap fun d => d.link.toList := h.links
  have links' : r'.links = others.flatMap fun d => d.link.toList := h'.links
  have keys : r.foreignKeys = definitions.flatMap Definition.foreignKeys := h.foreignKeys
  have keys' : r'.foreignKeys = others.flatMap Definition.foreignKeys := h'.foreignKeys
  refine ⟨?_, ?_, ?_, fun domain => ?_⟩
  · rw [tables, tables']
    exact perm.map _
  · rw [links, links']
    exact perm.flatMap_right _
  · rw [keys, keys']
    exact perm.flatMap_right _
  · unfold keysFrom
    rw [keys, keys']
    exact filter_flatMap_of_perm perm apart
      (fun d hd key hkey => ((h.declared d hd).foreignKeys key hkey).fromTable) domain

/-- Inputs that can each be read alone declare one definition each. -/
theorem exists_definitions {tables : List Table}
    (alone : Forall₂ (fun s t => ∃ r, empty.read s = .ok (t, r)) inputs tables) :
    ∃ definitions, Forall₂ Scanner.Declares inputs definitions ∧
      definitions.map Definition.table = tables := by
  induction alone with
  | nil => exact ⟨[], .nil, rfl⟩
  | cons read _ ih =>
    obtain ⟨_, read⟩ := read
    obtain ⟨d, declares, rfl⟩ := exists_declares_of_read read
    obtain ⟨definitions, declare, rfl⟩ := ih
    exact ⟨d :: definitions, .cons declares declare, rfl⟩

/-- Inputs that can each be read alone and declare different classes can be read in any order.
Either every order ends in a schema or none does, and all these schemas are the same but for the
order of their tables, constraints and links. -/
theorem finish_of_perm {inputs others : List Scanner} {tables : List Table}
    (perm : inputs.Perm others)
    (alone : Forall₂ (fun s t => ∃ r, empty.read s = .ok (t, r)) inputs tables)
    (apart : (tables.map Table.domain).Nodup) :
    ∃ r r', empty.readAll inputs = .ok r ∧ empty.readAll others = .ok r' ∧
      ((∃ g, r.finish = .ok g) ↔ ∃ g', r'.finish = .ok g') ∧
      ∀ g g', r.finish = .ok g → r'.finish = .ok g' → g.Rearranged g' := by
  obtain ⟨definitions, declare, rfl⟩ := exists_definitions alone
  rw [List.map_map] at apart
  -- the definitions change places with their inputs
  obtain ⟨definitions', declare', perm'⟩ := List.perm_comp_forall₂ perm.symm declare
  have apart' : (definitions'.map fun d => d.table.domain).Nodup :=
    (perm'.map _).nodup_iff.mpr apart
  obtain ⟨r, read, collected⟩ := readAll_of_declares sound_empty declare (fun _ _ => rfl) apart
  obtain ⟨r', read', collected'⟩ := readAll_of_declares sound_empty declare' (fun _ _ => rfl) apart'
  have same : r.Rearranged r' := collected.rearranged collected' perm'.symm apart
  -- the argument goes both ways, since being rearranged is symmetric
  refine ⟨r, r', read, read', ⟨?_, ?_⟩, ?_⟩
  · rintro ⟨g, done⟩
    obtain ⟨g', done', _⟩ := same.finish collected.sound collected'.sound done
    exact ⟨g', done'⟩
  · rintro ⟨g', done'⟩
    obtain ⟨g, done, _⟩ := same.symm.finish collected'.sound collected.sound done'
    exact ⟨g, done⟩
  · intro g g' done done'
    obtain ⟨_, ended, rearranged⟩ := same.finish collected.sound collected'.sound done
    obtain rfl := Except.ok.inj (ended.symm.trans done')
    exact rearranged

theorem exists_read (s : Scanner) (domain : String)
    (h : ((empty.read s).toOption.map fun result => result.1.domain) = some domain) :
    ∃ t r, empty.read s = .ok (t, r) ∧ t.domain = domain := by
  cases read : empty.read s with
  | error refusal =>
    rw [read] at h
    cases h
  | ok result =>
    rw [read] at h
    exact ⟨result.1, result.2, rfl, Option.some.inj h⟩

/-- A link may be read before the tables that it joins, or after them. -/
theorem finish_of_perm_link :
    let a : Scanner := .ofText "[Settings]\nCLASS a\n[Fields]\nDATE ! on\n"
    let b : Scanner := .ofText "[Settings]\nCLASS b\n"
    let l : Scanner := .ofText "[Settings]\nCLASS l\nLINK a b\n"
    ∃ r r', empty.readAll [a, b, l] = .ok r ∧ empty.readAll [l, b, a] = .ok r' ∧
      ((∃ g, r.finish = .ok g) ↔ ∃ g', r'.finish = .ok g') ∧
      ∀ g g', r.finish = .ok g → r'.finish = .ok g' → g.Rearranged g' := by
  intro a b l
  obtain ⟨_, ra, reada, classA⟩ := exists_read a "A" (by decide +kernel)
  obtain ⟨_, rb, readb, classB⟩ := exists_read b "B" (by decide +kernel)
  obtain ⟨_, rl, readl, classL⟩ := exists_read l "L" (by decide +kernel)
  refine finish_of_perm (List.reverse_perm [l, b, a])
    (.cons ⟨ra, reada⟩ (.cons ⟨rb, readb⟩ (.cons ⟨rl, readl⟩ .nil))) ?_
  rw [List.map_cons, List.map_cons, List.map_cons, classA, classB, classL]
  decide

end Registry

end TableSchema
