import TableSchema.Proofs.Definition.AskedClass

/-!
What every definition declares.

The invariant of drafts (`Draft.Sound`) holds of the empty draft and is kept by each step of
`Draft.Step`. At the end of the file it gives the invariant of definitions (`ofEvents_sound`): the
table joins two others exactly when a link is declared, and link and foreign keys all start from the
table of the file. What a file declares is the same in every registry that lacks its class
(`exists_asks_ofEvents`).
-/

namespace TableSchema

/-- A table as its file declares it: its columns are those of field lines and have names of their
own, so have its indexes, which list some of these columns, nothing has been attached to it, and it
has not been linked. -/
structure Table.Declared (t : Table) : Prop where
  columns : ∀ c ∈ t.columns, c.Declared t.domain
  names : UniqueNames t.columns
  indexes : t.WellIndexed
  unattached : t.foreignKeys = []
  unlinked : t.endpoints = none

/-- The link table that follows from a table: its class, if it joins two others. -/
def Table.linkClass? (t : Table) : Option String :=
  if t.manyToMany then some t.domain else none

/-- A foreign key that leaves the class `domain` and has fields on both sides. -/
structure ForeignKey.Leaves (key : ForeignKey) (domain : String) : Prop where
  fromTable : key.fromTable = domain
  fromFields : key.fromFields ≠ []
  toFields : key.toFields ≠ []

/-- What every definition keeps to. -/
structure Definition.Sound (d : Definition) : Prop where
  link : d.link.map Link.table = d.table.linkClass?
  table : ∃ t : Table, t.Declared ∧ d.table = t.setup
  foreignKeys : ∀ key ∈ d.foreignKeys, key.Leaves d.table.domain

namespace Definition

open Relation (ReflTransGen)

/-- What every draft keeps to. -/
structure Draft.Sound (d : Draft) : Prop where
  link : d.link.map Link.table = d.table.bind Table.linkClass?
  table : ∀ t, d.table = some t → t.Declared
  foreignKeys : ∀ key ∈ d.foreignKeys, ∃ t, d.table = some t ∧ key.Leaves t.domain

namespace Draft

variable {registered : String → Option Table} {d d' : Draft}

theorem sound_start : start.Sound := ⟨rfl, by simp [start], by simp [start]⟩

/-- One step keeps what every draft keeps to. -/
theorem Sound.step (h : d.Sound) (step : Step registered d d') : d'.Sound := by
  -- old foreign keys still leave the table, since it keeps its class
  have keeps : ∀ {u : Table}, d'.foreignKeys = d.foreignKeys → d'.table = some u →
      ∀ key ∈ d'.foreignKeys, ∃ t, d'.table = some t ∧ key.Leaves t.domain := by
    intro u same hu key hkey
    obtain ⟨t, ht, leaves⟩ := h.foreignKeys key (same ▸ hkey)
    obtain ⟨t', ht', domain⟩ := step.keeps_class ht
    exact ⟨t', ht', domain ▸ leaves⟩
  cases step with
  | document line => exact ⟨h.link, h.table, h.foreignKeys⟩
  | enter part => exact ⟨h.link, h.table, h.foreignKeys⟩
  | declare domain name doc absent free =>
    have unlinked : d.link = none := by simpa [absent] using h.link
    refine ⟨by simp [unlinked, Table.linkClass?, Table.empty], ?_, keeps rfl rfl⟩
    rintro t ⟨⟩
    exact ⟨by simp [Table.empty], List.Pairwise.nil, Table.wellIndexed_of_nil rfl, rfl, rfl⟩
  | link one two doc found absent =>
    refine ⟨rfl, ?_, keeps rfl rfl⟩
    rintro t ⟨⟩
    obtain ⟨columns, names, indexes, unattached, unlinked⟩ := h.table _ found
    exact ⟨columns, names, indexes.of_subset rfl (List.Subset.refl _), unattached, unlinked⟩
  | @column t u c found declared added =>
    obtain ⟨free, rfl⟩ := Table.addColumn_eq_ok.mp added
    obtain ⟨columns, names, indexes, unattached, unlinked⟩ := h.table _ found
    have link := h.link
    rw [found] at link
    refine ⟨link, ?_, keeps rfl rfl⟩
    rintro _ ⟨⟩
    refine ⟨?_, ?_, indexes.of_subset rfl (List.subset_append_left _ _), unattached, unlinked⟩
    · intro other hother
      rcases List.mem_append.mp hother with old | new
      · exact columns other old
      · obtain rfl := List.mem_singleton.mp new
        exact declared
    · exact Table.uniqueNames_append_iff.mpr
        ⟨names, Table.fits_cons.mpr ⟨free, Table.fits_nil _⟩⟩
  | @index t u i found lists added =>
    obtain ⟨columns, names, indexes, unattached, unlinked⟩ := h.table _ found
    have longer := indexes.addIndex? lists added
    obtain ⟨_, rfl⟩ := Table.addIndex?_eq_some.mp added
    have link := h.link
    rw [found] at link
    refine ⟨link, ?_, keeps rfl rfl⟩
    rintro _ ⟨⟩
    exact ⟨columns, names, longer, unattached, unlinked⟩
  | @foreignKey t key found leaves fromFields toFields =>
    refine ⟨h.link, h.table, fun other hother => ?_⟩
    rcases List.mem_append.mp hother with old | new
    · exact h.foreignKeys other old
    · obtain rfl : other = key := by simpa using new
      exact ⟨t, found, leaves, fromFields, toFields⟩

theorem Sound.steps (h : d.Sound) (steps : ReflTransGen (Step registered) d d') : d'.Sound := by
  induction steps with
  | refl => exact h
  | tail _ step ih => exact ih.step step

end Draft

/-- Comments change nothing but the comment. -/
theorem foldl_addComment (docs : List String) (t : Table) :
    ∃ comment, docs.foldl Table.addComment t = { t with comment := comment } := by
  induction docs generalizing t with
  | nil => exact ⟨t.comment, rfl⟩
  | cons line docs ih =>
    obtain ⟨comment, h⟩ := ih (t.addComment line)
    exact ⟨comment, h⟩

/-- The comment that some lines make, one below the other. -/
def joined (docs : List String) : Option String :=
  if docs = [] then none else some ("\n".intercalate docs)

/-- The comments of a file are put one below the other. -/
theorem foldl_addComment_joined {t : Table} (silent : t.comment = none) (docs : List String) :
    docs.foldl Table.addComment t = { t with comment := joined docs } := by
  cases docs with
  | nil =>
    show t = { t with comment := none }
    rw [← silent]
  | cons first docs =>
    -- once there is a comment, each further line is put below it
    have more : ∀ (text : String) (lines : List String),
        lines.foldl Table.addComment { t with comment := some text } =
          { t with comment := some ("\n".intercalate (text :: lines)) } := by
      intro text lines
      induction lines generalizing text with
      | nil => rw [String.intercalate_singleton, List.foldl_nil]
      | cons line lines ih =>
        rw [String.intercalate_cons_cons, ← String.intercalate_cons_append]
        exact ih (text ++ "\n" ++ line)
    have start : t.addComment first = { t with comment := some first } := by
      rw [Table.addComment, silent]
    rw [List.foldl_cons, start, more]
    rfl

variable {registered other : String → Option Table} {events : List Event} {definition : Definition}

theorem ofEvents_eq_fresh :
    ofEvents registered events = .ok (.fresh definition) ↔
      ∃ d, Draft.readEntries registered .start (Entry.ofEvents events) = .ok (.fresh d) ∧
        d.finish (endPlace events) = .ok definition := by
  unfold ofEvents
  rw [Except.bind_eq_ok]
  constructor
  · rintro ⟨reading, read, h⟩
    cases reading with
    | registered t => cases h
    | fresh d =>
      obtain ⟨_, done, h⟩ := Except.bind_eq_ok.mp h
      cases h
      exact ⟨d, read, done⟩
  · rintro ⟨d, read, done⟩
    exact ⟨_, read, Except.bind_eq_ok.mpr ⟨_, done, rfl⟩⟩

/-- The end of a file sets up the table of its draft, with the comments that were found. -/
theorem Draft.finish_eq_ok {d : Draft} {place : Place} (h : d.finish place = .ok definition) :
    ∃ t, d.table = some t ∧
      definition = ⟨(d.docs.foldl Table.addComment t).setup, d.link, d.foreignKeys⟩ := by
  unfold Draft.finish at h
  split at h
  · cases h
  · rename_i t found
    cases h
    exact ⟨t, found, rfl⟩

/-- A file asks the registry for one class at most. It is given up if this class is registered, and
otherwise reads the same in every registry; what it declares then has this class. -/
theorem exists_asks_ofEvents (events : List Event) :
    ∃ asked alone,
      (∀ registered, ofEvents registered events = Reading.given (asked.bind registered) alone) ∧
      ∀ definition, alone = .ok definition → asked = some definition.table.domain := by
  obtain ⟨asked, alone, h⟩ := Draft.exists_asks_readEntries .start (Entry.ofEvents events)
  refine ⟨asked, alone >>= fun d => d.finish (endPlace events), fun registered => ?_,
    fun definition done => ?_⟩
  · have read : Draft.readEntries registered .start (Entry.ofEvents events) =
        Reading.given (asked.bind registered) alone := h.eq_given registered
    unfold ofEvents
    rw [read]
    cases asked.bind registered with
    | some t => rfl
    | none =>
      cases alone with
      | error refusal => rfl
      | ok d =>
        show (d.finish (endPlace events) >>= fun definition => _) = _
        cases done : d.finish (endPlace events) <;> simp [Reading.given, Except.map, done]
  · obtain ⟨d, read, done⟩ := Except.bind_eq_ok.mp done
    obtain ⟨t, found, rfl⟩ := Draft.finish_eq_ok done
    obtain ⟨comment, commented⟩ := foldl_addComment d.docs t
    have named : d.class? = asked := h.class_eq d read
    rw [← named, Draft.class?, found, commented]
    rfl

theorem ofEvents_registered {t : Table} (h : ofEvents registered events = .ok (.registered t)) :
    ∃ domain, registered domain = some t := by
  obtain ⟨asked, alone, eq, _⟩ := exists_asks_ofEvents events
  rw [eq, Reading.given_eq_registered] at h
  obtain ⟨domain, _, found⟩ := Option.bind_eq_some_iff.mp h
  exact ⟨domain, found⟩

/-- The class of a definition is free in the registry in which it is read. -/
theorem ofEvents_free (h : ofEvents registered events = .ok (.fresh definition)) :
    registered definition.table.domain = none := by
  obtain ⟨asked, alone, eq, named⟩ := exists_asks_ofEvents events
  rw [eq, Reading.given_eq_fresh] at h
  obtain ⟨free, read⟩ := h
  rw [named definition read] at free
  exact free

/-- A definition is the same in every registry that lacks its class. -/
theorem ofEvents_congr (h : ofEvents registered events = .ok (.fresh definition))
    (free : other definition.table.domain = none) :
    ofEvents other events = .ok (.fresh definition) := by
  obtain ⟨asked, alone, eq, named⟩ := exists_asks_ofEvents events
  rw [eq, Reading.given_eq_fresh] at h ⊢
  rw [named definition h.2]
  exact ⟨free, h.2⟩

/-- Every definition that is read keeps to its invariant, and its class is free in the registry. -/
theorem ofEvents_sound (h : ofEvents registered events = .ok (.fresh definition)) :
    definition.Sound ∧ registered definition.table.domain = none := by
  obtain ⟨d, read, done⟩ := ofEvents_eq_fresh.mp h
  obtain ⟨t, found, rfl⟩ := Draft.finish_eq_ok done
  have steps := Draft.readEntries_steps read
  obtain ⟨link, table, foreignKeys⟩ := Draft.sound_start.steps steps
  obtain ⟨columns, names, indexes, unattached, unlinked⟩ := table t found
  obtain ⟨comment, commented⟩ := foldl_addComment d.docs t
  rw [found] at link
  refine ⟨⟨?_, ⟨_, ?_, rfl⟩, ?_⟩, ofEvents_free h⟩
  · rw [commented]
    exact link
  · rw [commented]
    exact ⟨columns, names, indexes.of_subset rfl (List.Subset.refl _), unattached, unlinked⟩
  · intro key hkey
    obtain ⟨u, hu, leaves⟩ := foreignKeys key hkey
    obtain rfl := Option.some.inj (found.symm.trans hu)
    rw [commented]
    exact leaves

end Definition

end TableSchema
