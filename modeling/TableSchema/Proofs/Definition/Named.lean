import TableSchema.Proofs.Definition.Blame
import TableSchema.Proofs.Definition.Declared
import TableSchema.Proofs.Token.Words

/-!
The names that a file gives.

Every name in a definition is a word of its file, or is derived from one: the class is written as a
class name, and a table or a column without a name of its own gets it from the class or the field.
The key that is added to a table without one has words for names as well. So all names of a table
that has been read are words (`ofEvents_namedByWords`). Each reader is followed once, over an entry
whose word tokens are words (`Worded`).
-/

namespace TableSchema

/-- The column name is a word, and the field name has the characters of words. -/
structure Column.WellNamed (c : Column) : Prop where
  field : Wordy c.fieldName
  column : IsWord c.columnName

/-- The class is a word, written as a class name, the name of the table is one too, and the columns
are well named. -/
structure Table.WellNamed (t : Table) : Prop where
  domain : IsWord t.domain
  titled : Identifier.titleCase t.domain = t.domain
  name : IsWord t.name
  columns : ∀ c ∈ t.columns, c.WellNamed

/-- All names of the table are words, the field names too. -/
structure Table.NamedByWords (t : Table) : Prop extends t.WellNamed where
  filled : ∀ c ∈ t.columns, c.fieldName ≠ ""

namespace Table

variable {t u : Table} {c : Column}

theorem NamedByWords.isWord (h : t.NamedByWords) (hc : c ∈ t.columns) : IsWord c.fieldName :=
  ⟨h.filled c hc, (h.columns c hc).field⟩

theorem WellNamed.append (h : t.WellNamed) {cs : List Column} (others : ∀ c ∈ cs, c.WellNamed)
    (domain : u.domain = t.domain) (name : u.name = t.name)
    (columns : u.columns = t.columns ++ cs) : u.WellNamed := by
  refine ⟨domain ▸ h.domain, domain ▸ h.titled, name ▸ h.name, ?_⟩
  rw [columns]
  exact List.forall_mem_append.mpr ⟨h.columns, others⟩

/-- Only the class, the name and the columns matter. -/
theorem NamedByWords.append (h : t.NamedByWords) {cs : List Column}
    (others : ∀ c ∈ cs, IsWord c.fieldName ∧ IsWord c.columnName) (domain : u.domain = t.domain)
    (name : u.name = t.name) (columns : u.columns = t.columns ++ cs) : u.NamedByWords := by
  refine ⟨h.toWellNamed.append ?_ domain name columns, ?_⟩
  · intro c hc
    obtain ⟨field, column⟩ := others c hc
    exact ⟨field.wordy, column⟩
  · rw [columns]
    exact List.forall_mem_append.mpr ⟨h.filled, fun c hc => (others c hc).1.filled⟩

theorem NamedByWords.congr (h : t.NamedByWords) (domain : u.domain = t.domain)
    (name : u.name = t.name) (columns : u.columns = t.columns) : u.NamedByWords :=
  h.append (List.forall_mem_nil _) domain name (columns.trans (List.append_nil _).symm)

theorem isWord_defaultKey (domain : String) (first : Option Column) :
    IsWord (defaultKey domain first).fieldName ∧ IsWord (defaultKey domain first).columnName := by
  have key : IsWord "key" := ⟨by decide, List.all_eq_true.mp (by decide)⟩
  have column : IsWord "KEY" := ⟨by decide, List.all_eq_true.mp (by decide)⟩
  exact ⟨key, column⟩

/-- The end of a definition keeps the names, and adds those of the default key at most. -/
theorem NamedByWords.setup (h : t.NamedByWords) : t.setup.NamedByWords := by
  cases joins : t.manyToMany with
  | true => exact h.congr rfl rfl (columns_setup_of_joins joins)
  | false =>
    have columns := columns_setup_of_ordinary joins
    rcases keyFirst_cases t.domain t.columns with ⟨perm, _⟩ | ⟨added, _⟩
    · refine ⟨⟨h.domain, h.titled, h.name, ?_⟩, ?_⟩
      · intro c hc
        rw [columns] at hc
        exact h.columns c (perm.subset hc)
      · intro c hc
        rw [columns] at hc
        exact h.filled c (perm.subset hc)
    · obtain ⟨field, column⟩ := isWord_defaultKey t.domain t.columns.head?
      have all : t.setup.columns = defaultKey t.domain t.columns.head? :: t.columns :=
        columns.trans added
      refine ⟨⟨h.domain, h.titled, h.name, ?_⟩, ?_⟩
      · rw [all]
        exact List.forall_mem_cons.mpr ⟨⟨field.wordy, column⟩, h.columns⟩
      · rw [all]
        exact List.forall_mem_cons.mpr ⟨field.filled, h.filled⟩

end Table

namespace Definition

/-- The word tokens among these are words. -/
def Worded (seens : List Seen) : Prop :=
  ∀ seen ∈ seens, seen.token.kind = .word → IsWord seen.token.text

variable {seens : List Seen} {e after : Entry} {seen first : Seen} {domain name : String}

theorem Worded.of_suffix (h : Worded seens) {rest : List Seen} (suffix : rest <:+ seens) :
    Worded rest := fun seen hseen => h seen (suffix.subset hseen)

theorem isWord_iff_kind {t : Token} : t.isWord = true ↔ t.kind = .word := beq_iff_eq

/-! ## Names on a line -/

theorem Worded.next (h : Worded e.seens) (read : e.next = .ok (seen, after)) :
    (seen.token.isWord = true → IsWord seen.token.text) ∧ Worded after.seens := by
  have within := within_next (List.suffix_refl e.seens)
  rw [read] at within
  obtain ⟨inside, rest⟩ := within
  exact ⟨fun word => h seen inside (isWord_iff_kind.mp word), h.of_suffix rest⟩

theorem Worded.className (h : Worded e.seens) (read : className e = .ok (domain, after)) :
    IsWord domain ∧ Identifier.titleCase domain = domain ∧ Worded after.seens := by
  obtain ⟨⟨seen, rest⟩, next, read⟩ := Except.bind_eq_ok.mp read
  obtain ⟨word, later⟩ := h.next next
  dsimp only at read
  split at read
  · rename_i isWord
    cases read
    have written := word isWord
    exact ⟨Identifier.isWord_titleCase written, Identifier.titleCase_titleCase written.wordy, later⟩
  · cases read

theorem Worded.tableName (h : Worded e.seens) (class' : IsWord domain)
    (read : tableName domain e = .ok (name, after)) : IsWord name := by
  obtain ⟨⟨seen, rest⟩, next, read⟩ := Except.bind_eq_ok.mp read
  dsimp only at read
  split at read
  · rename_i isWord
    cases read
    exact (h.next next).1 isWord
  · cases read
    exact Identifier.isWord_capsCase class'

/-- The names that were found on a field line are words. -/
structure FieldParts.Worded (parts : FieldParts) : Prop where
  name : ∀ t, parts.name = some t → IsWord t.text
  columnName : ∀ text, parts.columnName = some text → IsWord text

theorem FieldParts.worded_start : start.Worded := by
  constructor <;> rintro _ ⟨⟩

theorem FieldParts.Worded.add {parts parts' : FieldParts} (h : parts.Worded)
    (word : seen.token.kind = .word → IsWord seen.token.text)
    (read : parts.add seen = .ok parts') : parts'.Worded := by
  unfold FieldParts.add at read
  split at read
  · split at read
    · cases read
      exact ⟨h.name, h.columnName⟩
    · cases read
  · cases read
    exact ⟨h.name, h.columnName⟩
  · rename_i isWord
    have written := word isWord
    split at read
    · cases read
      refine ⟨?_, h.columnName⟩
      rintro t ⟨⟩
      exact written
    · cases read
      refine ⟨h.name, ?_⟩
      rintro text ⟨⟩
      exact written
    · cases read
  · cases read

/-- A field line adds a column whose names are words. -/
theorem Worded.readField {t u : Table} (h : Worded e.seens) (read : readField t first e = .ok u) :
    ∃ c, (IsWord c.fieldName ∧ IsWord c.columnName) ∧ t.addColumn c = .ok u := by
  rw [Definition.readField] at read
  split at read
  · split at read
    · cases read
    · rename_i type _
      obtain ⟨⟨length, rest⟩, lengthRead, read⟩ := Except.bind_eq_ok.mp read
      obtain ⟨parts, partsRead, read⟩ := Except.bind_eq_ok.mp read
      obtain ⟨mark, _, read⟩ := Except.bind_eq_ok.mp read
      have suffix := within_readTypeLength (List.suffix_refl e.seens) type
      rw [lengthRead] at suffix
      have later : Worded rest.seens := h.of_suffix suffix
      have worded : parts.Worded :=
        foldlM_keeps_of_mem (fun seen inside _ _ before step =>
            before.add (later seen (List.mem_append_left _ inside)) step)
          FieldParts.worded_start partsRead
      split at read
      · cases read
      · rename_i token named
        split at read
        · cases read
        · dsimp only at read
          split at read
          · rename_i v added
            cases read
            have field := worded.name token named
            refine ⟨_, ⟨field, ?_⟩, added⟩
            cases given : parts.columnName with
            | none => exact Identifier.isWord_capsCase field
            | some text => exact worded.columnName text given
          · cases read
  · cases read

/-! ## Drafts -/

/-- All names of the table of the draft are words. -/
def Draft.NamedByWords (d : Draft) : Prop := ∀ t, d.table = some t → t.NamedByWords

namespace Draft

variable {registered : String → Option Table} {d d' : Draft}

theorem NamedByWords.readClass (words : Worded e.seens)
    (read : d.readClass registered first e = .ok (.fresh d')) : d'.NamedByWords := by
  rw [Draft.readClass] at read
  split at read
  · cases read
  · obtain ⟨⟨domain, rest⟩, name, read⟩ := Except.bind_eq_ok.mp read
    obtain ⟨isWord, titled, later⟩ := words.className name
    dsimp only at read
    split at read
    · cases read
    · obtain ⟨⟨t, doc⟩, body, read⟩ := Except.bind_eq_ok.mp read
      obtain ⟨⟨name, _⟩, nameRead, body⟩ := Except.bind_eq_ok.mp body
      obtain ⟨doc', _, body⟩ := Except.bind_eq_ok.mp body
      cases body
      cases read
      rintro _ ⟨⟩
      exact ⟨⟨isWord, titled, later.tableName isWord nameRead, List.forall_mem_nil _⟩,
        List.forall_mem_nil _⟩

theorem NamedByWords.readLink (h : d.NamedByWords) (read : d.readLink first e = .ok d') :
    d'.NamedByWords := by
  rw [Draft.readLink] at read
  split at read
  · cases read
  · rename_i t found
    split at read
    · cases read
    · obtain ⟨⟨link, doc⟩, _, read⟩ := Except.bind_eq_ok.mp read
      cases read
      rintro _ ⟨⟩
      exact (h t found).congr rfl rfl rfl

theorem NamedByWords.readSetting (h : d.NamedByWords) (words : Worded e.seens)
    (read : d.readSetting registered first e = .ok (.fresh d')) : d'.NamedByWords := by
  rw [Draft.readSetting] at read
  split at read
  · exact .readClass words read
  · split at read
    · obtain ⟨_, link, read⟩ := Except.bind_eq_ok.mp read
      cases read
      exact h.readLink link
    · cases read

/-- A line gives its table no names but words. -/
theorem NamedByWords.readDeclaration (h : d.NamedByWords) (words : Worded e.seens)
    (read : d.readDeclaration registered first e = .ok (.fresh d')) : d'.NamedByWords := by
  rw [Draft.readDeclaration] at read
  split at read
  · cases read
  · exact h.readSetting words read
  · obtain ⟨t, found, read⟩ := readMember_eq_ok read
    obtain ⟨u, field, read⟩ := Except.bind_eq_ok.mp read
    obtain ⟨c, named, added⟩ := words.readField field
    obtain ⟨_, rfl⟩ := Table.addColumn_eq_ok.mp added
    cases read
    rintro _ ⟨⟩
    exact (h t found).append (List.forall_mem_singleton.mpr named) rfl rfl rfl
  · obtain ⟨t, found, read⟩ := readMember_eq_ok read
    obtain ⟨u, index, read⟩ := Except.bind_eq_ok.mp read
    obtain ⟨i, _, added⟩ := readIndex_eq_ok index
    obtain ⟨_, rfl⟩ := Table.addIndex?_eq_some.mp added
    cases read
    rintro _ ⟨⟩
    exact (h t found).congr rfl rfl rfl
  · obtain ⟨t, _, read⟩ := readMember_eq_ok read
    obtain ⟨key, _, read⟩ := Except.bind_eq_ok.mp read
    cases read
    exact h

theorem NamedByWords.readTokens {ending : Ending} {tokens : List Seen} (h : d.NamedByWords)
    (words : Worded (Entry.seens ⟨tokens, ending⟩))
    (read : readTokens registered ending d tokens = .ok (.fresh d')) : d'.NamedByWords := by
  induction tokens generalizing d with
  | nil =>
    obtain ⟨_, _, read⟩ := Except.bind_eq_ok.mp read
    cases read
    exact h
  | cons seen rest ih =>
    have later : Worded (Entry.seens ⟨rest, ending⟩) := words.of_suffix (List.suffix_cons _ _)
    rw [Draft.readTokens] at read
    split at read
    · refine ih ?_ later read
      exact h
    · refine ih ?_ later read
      exact h
    · exact h.readDeclaration later read

theorem NamedByWords.readEntries {entries : List Entry} (h : d.NamedByWords)
    (words : ∀ e ∈ entries, Worded e.seens)
    (read : readEntries registered d entries = .ok (.fresh d')) : d'.NamedByWords := by
  induction entries generalizing d with
  | nil =>
    cases read
    exact h
  | cons e entries ih =>
    obtain ⟨first, later⟩ := List.forall_mem_cons.mp words
    obtain ⟨reading, line, read⟩ := Except.bind_eq_ok.mp read
    cases reading with
    | registered t => cases read
    | fresh middle => exact ih (h.readTokens first line) later read

end Draft

/-- The word tokens in the entries of an input are words. -/
theorem worded_ofEvents (s : Scanner) : ∀ e ∈ Entry.ofEvents s.events, Worded e.seens := by
  refine @forall_seens_ofEvents s.events (fun t => t.kind = .word → IsWord t.text) ?_
  intro e he t reply
  exact ⟨s.isWord_of_mem_events e he t reply, nofun⟩

/-- All names in a table that has been read are words. -/
theorem ofEvents_namedByWords {registered : String → Option Table} {s : Scanner}
    {definition : Definition} (h : ofEvents registered s.events = .ok (.fresh definition)) :
    definition.table.NamedByWords := by
  obtain ⟨d, read, done⟩ := ofEvents_eq_fresh.mp h
  obtain ⟨t, found, rfl⟩ := Draft.finish_eq_ok done
  obtain ⟨comment, commented⟩ := foldl_addComment d.docs t
  have start : Draft.NamedByWords .start := by
    rintro _ ⟨⟩
  have named := start.readEntries (worded_ofEvents s) read t found
  rw [commented]
  exact (named.congr (u := { t with comment := comment }) rfl rfl rfl).setup

end Definition

end TableSchema
