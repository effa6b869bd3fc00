import Mathlib.Logic.Relation
import TableSchema.Proofs.Definition.FieldColumn
import TableSchema.Proofs.Table.Indexes
import TableSchema.Definition.Draft

/-!
How a draft grows while its file is read.

`Draft.Step` lists everything that a line can do to a draft, with what is known about the names at
that moment. A file that is read to its end takes its draft through a sequence of such steps
(`readEntries_steps`), so a property of definitions is proved one step at a time.
-/

namespace TableSchema.Definition

open Relation (ReflTransGen)

namespace Draft

/-- What one line of a file can do to a draft. -/
inductive Step (registered : String → Option Table) : Draft → Draft → Prop
  | document {d : Draft} (line : String) :
      Step registered d { d with docs := d.docs ++ [line] }
  | enter {d : Draft} (part : Option Section) :
      Step registered d { d with current := part }
  | declare {d : Draft} (domain name : String) (doc : Option String) :
      d.table = none → registered domain = none →
      Step registered d
        { d with table := some (Table.empty domain name), docs := d.docs ++ doc.toList }
  | link {d : Draft} {t : Table} (one two : String) (doc : Option String) :
      d.table = some t → d.link = none →
      Step registered d
        { d with
          table := some { t with manyToMany := true }
          link := some ⟨t.domain, one, two⟩
          docs := d.docs ++ doc.toList }
  | column {d : Draft} {t u : Table} (c : Column) :
      d.table = some t → c.Declared t.domain → t.addColumn c = .ok u →
      Step registered d { d with table := some u }
  | index {d : Draft} {t u : Table} (i : Index) :
      d.table = some t → i.Lists t.columns → t.addIndex? i = some u →
      Step registered d { d with table := some u }
  | foreignKey {d : Draft} {t : Table} (key : ForeignKey) :
      d.table = some t → key.fromTable = t.domain → key.fromFields ≠ [] → key.toFields ≠ [] →
      Step registered d { d with foreignKeys := d.foreignKeys ++ [key] }

end Draft

/-! ## Lines that are read -/

/-- A class line starts an empty table, under a name of the class's own or one that is given. -/
theorem classBody_eq_ok {domain : String} {e : Entry} {t : Table} {doc : Option String}
    (h : classBody domain e = .ok (t, doc)) : ∃ name, t = Table.empty domain name := by
  obtain ⟨⟨name, rest⟩, _, h⟩ := Except.bind_eq_ok.mp h
  obtain ⟨doc', _, h⟩ := Except.bind_eq_ok.mp h
  obtain ⟨rfl, _⟩ := Prod.mk.inj (Except.pure_eq_ok.mp h)
  exact ⟨name, rfl⟩

/-- A link line names the table of its own file as the one that joins. -/
theorem linkBody_eq_ok {domain : String} {e : Entry} {l : Link} {doc : Option String}
    (h : linkBody domain e = .ok (l, doc)) : l.table = domain := by
  obtain ⟨⟨one, _⟩, _, h⟩ := Except.bind_eq_ok.mp h
  obtain ⟨⟨two, _⟩, _, h⟩ := Except.bind_eq_ok.mp h
  obtain ⟨doc', _, h⟩ := Except.bind_eq_ok.mp h
  obtain ⟨rfl, _⟩ := Prod.mk.inj (Except.pure_eq_ok.mp h)
  rfl

/-- What a token of an index line adds to the index is a column of the table. -/
theorem within_of_addIndexed {t : Table} {index after : Index} {seen : Seen}
    (within : index.Within t.columns) (h : addIndexed t index seen = .ok after) :
    after.Within t.columns := by
  rw [addIndexed] at h
  split at h
  · cases h
    exact within
  · split at h
    · rename_i c found
      cases h
      exact within.push (List.mem_of_find?_eq_some found)
    · cases h
  · cases h

/-- An index line adds one index over columns of the table. -/
theorem readIndex_eq_ok {t u : Table} {first : Seen} {e : Entry}
    (h : readIndex t first e = .ok u) : ∃ i, i.Lists t.columns ∧ t.addIndex? i = some u := by
  rw [readIndex] at h
  split at h
  · obtain ⟨index, read, h⟩ := Except.bind_eq_ok.mp h
    obtain ⟨mark, _, h⟩ := Except.bind_eq_ok.mp h
    have within : index.Within t.columns :=
      foldlM_keeps (fun _ _ _ before step => within_of_addIndexed before step)
        (Index.within_empty _ _) read
    split at h
    · cases h
    · rename_i filled
      split at h
      · rename_i v added
        cases h
        exact ⟨index, ⟨by simpa using filled, within⟩, added⟩
      · cases h
  · cases h

/-- Foreign fields come with their class. -/
theorem ForeignFields.add_keeps {foreign foreign' : ForeignFields} {seen : Seen}
    (h : foreign.add seen = .ok foreign') (before : foreign.table.isSome → foreign.fields ≠ []) :
    foreign'.table.isSome → foreign'.fields ≠ [] := by
  rw [ForeignFields.add] at h
  split at h
  · cases h
    exact before
  · split at h
    · cases h
    · cases h
      simp
    · split at h
      · cases h
        simp
      · cases h

/-- A foreign key line declares a key that leaves the table of its file and has fields on both
sides. -/
theorem readForeignKey_eq_ok {domain : String} {first : Seen} {e : Entry} {key : ForeignKey}
    (h : readForeignKey domain first e = .ok key) :
    key.fromTable = domain ∧ key.fromFields ≠ [] ∧ key.toFields ≠ [] := by
  obtain ⟨⟨localFields, keyword, rest⟩, _, h⟩ := Except.bind_eq_ok.mp h
  dsimp only at h
  split at h
  · cases h
  · rename_i filled
    obtain ⟨foreign, read, h⟩ := Except.bind_eq_ok.mp h
    obtain ⟨mark, _, h⟩ := Except.bind_eq_ok.mp h
    split at h
    · cases h
    · rename_i table found
      cases h
      have fields : foreign.table.isSome → foreign.fields ≠ [] :=
        foldlM_keeps (fun _ _ _ before step => ForeignFields.add_keeps step before)
          (by simp [ForeignFields.start]) read
      exact ⟨rfl, by simpa using filled, fields (by simp [found])⟩

namespace Draft

variable {registered : String → Option Table} {d d' : Draft}

theorem readClass_step {first : Seen} {e : Entry}
    (h : d.readClass registered first e = .ok (.fresh d')) : Step registered d d' := by
  rw [readClass] at h
  split at h
  · cases h
  · rename_i absent
    obtain ⟨⟨domain, e⟩, _, h⟩ := Except.bind_eq_ok.mp h
    dsimp only at h
    split at h
    · cases h
    · rename_i new
      obtain ⟨⟨t, doc⟩, body, h⟩ := Except.bind_eq_ok.mp h
      obtain ⟨name, rfl⟩ := classBody_eq_ok body
      cases h
      exact .declare domain name doc (by simpa using absent) new

theorem readLink_step {first : Seen} {e : Entry} (h : d.readLink first e = .ok d') :
    Step registered d d' := by
  rw [readLink] at h
  split at h
  · cases h
  · rename_i t found
    split at h
    · cases h
    · rename_i absent
      obtain ⟨⟨⟨joint, one, two⟩, doc⟩, body, h⟩ := Except.bind_eq_ok.mp h
      obtain rfl : joint = t.domain := linkBody_eq_ok body
      cases h
      exact .link one two doc found (by simpa using absent)

theorem readSetting_step {first : Seen} {e : Entry}
    (h : d.readSetting registered first e = .ok (.fresh d')) : Step registered d d' := by
  rw [readSetting] at h
  split at h
  · exact readClass_step h
  · split at h
    · obtain ⟨_, link, h⟩ := Except.bind_eq_ok.mp h
      cases h
      exact readLink_step link
    · cases h

theorem readMember_eq_ok {first : Seen} {read : Table → Except Refusal Draft}
    (h : d.readMember first read = .ok (.fresh d')) : ∃ t, d.table = some t ∧ read t = .ok d' := by
  rw [readMember] at h
  split at h
  · cases h
  · rename_i t found
    obtain ⟨_, done, h⟩ := Except.bind_eq_ok.mp h
    cases h
    exact ⟨t, found, done⟩

/-- A line that is read takes its draft one step on. -/
theorem readDeclaration_step {first : Seen} {e : Entry}
    (h : d.readDeclaration registered first e = .ok (.fresh d')) : Step registered d d' := by
  rw [readDeclaration] at h
  split at h
  · cases h
  · exact readSetting_step h
  · obtain ⟨t, found, h⟩ := readMember_eq_ok h
    obtain ⟨u, field, h⟩ := Except.bind_eq_ok.mp h
    obtain ⟨c, declared, added⟩ := readField_eq_ok field
    cases h
    exact .column c found declared added
  · obtain ⟨t, found, h⟩ := readMember_eq_ok h
    obtain ⟨u, index, h⟩ := Except.bind_eq_ok.mp h
    obtain ⟨i, lists, added⟩ := readIndex_eq_ok index
    cases h
    exact .index i found lists added
  · obtain ⟨t, found, h⟩ := readMember_eq_ok h
    obtain ⟨key, declared, h⟩ := Except.bind_eq_ok.mp h
    obtain ⟨leaves, fromFields, toFields⟩ := readForeignKey_eq_ok declared
    cases h
    exact .foreignKey key found leaves fromFields toFields

/-- An entry that is read takes its draft through steps: one for each comment and header in front
of its declaration, and one for the declaration. -/
theorem readTokens_steps {ending : Ending} {tokens : List Seen}
    (h : readTokens registered ending d tokens = .ok (.fresh d')) :
    ReflTransGen (Step registered) d d' := by
  induction tokens generalizing d with
  | nil =>
    obtain ⟨_, _, h⟩ := Except.bind_eq_ok.mp h
    cases h
    exact .refl
  | cons seen rest ih =>
    rw [readTokens] at h
    split at h
    · exact .head (.document _) (ih h)
    · exact .head (.enter _) (ih h)
    · exact .single (readDeclaration_step h)

/-- A file that is read takes its draft through steps. -/
theorem readEntries_steps {entries : List Entry}
    (h : readEntries registered d entries = .ok (.fresh d')) :
    ReflTransGen (Step registered) d d' := by
  induction entries generalizing d with
  | nil =>
    cases h
    exact .refl
  | cons e entries ih =>
    obtain ⟨reading, read, h⟩ := Except.bind_eq_ok.mp h
    cases reading with
    | registered t => cases h
    | fresh middle => exact (readTokens_steps read).trans (ih h)

/-! ## The class of a draft -/

/-- Once a file has its class it keeps it. -/
theorem Step.keeps_class {t : Table} (step : Step registered d d') (ht : d.table = some t) :
    ∃ t', d'.table = some t' ∧ t'.domain = t.domain := by
  cases step with
  | document | enter | foreignKey => exact ⟨t, ht, rfl⟩
  | declare _ _ _ absent => simp [absent] at ht
  | link _ _ _ found =>
    obtain rfl := Option.some.inj (found.symm.trans ht)
    exact ⟨_, rfl, rfl⟩
  | column c found _ added =>
    obtain rfl := Option.some.inj (found.symm.trans ht)
    obtain ⟨_, rfl⟩ := Table.addColumn_eq_ok.mp added
    exact ⟨_, rfl, rfl⟩
  | index i found _ added =>
    obtain rfl := Option.some.inj (found.symm.trans ht)
    obtain ⟨_, rfl⟩ := Table.addIndex?_eq_some.mp added
    exact ⟨_, rfl, rfl⟩

theorem steps_keep_class {t : Table} (steps : ReflTransGen (Step registered) d d')
    (ht : d.table = some t) : ∃ t', d'.table = some t' ∧ t'.domain = t.domain := by
  induction steps with
  | refl => exact ⟨t, ht, rfl⟩
  | tail _ step ih =>
    obtain ⟨middle, found, same⟩ := ih
    obtain ⟨t', found', same'⟩ := step.keeps_class found
    exact ⟨t', found', same'.trans same⟩

end Draft

end TableSchema.Definition
