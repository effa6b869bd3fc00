import TableSchema.Proofs.Definition.WrittenLines
import TableSchema.Proofs.Definition.Declared
import TableSchema.Proofs.Registry.Lookup

/-!
What is written is read again.

The draft goes through the lines of a declaration section by section (`Draft.Takes`): the settings
give it an empty table with its comments and its link, the fields give the columns, and the indexes
and foreign keys follow. At the end of the file it has become the definition that was declared
(`ofEvents_of_writes`), with any blanks between the tokens and any case of headers and keywords.
-/

namespace TableSchema.Definition

open List (Forall₂)
open Declaration

namespace Draft

variable {registered : String → Option Table} {d middle d' : Draft} {t : Table}

/-- Reading the line `ws` leads from the draft `d` to `d'`. -/
def TakesLine (registered : String → Option Table) (d : Draft) (ws : List Written) (d' : Draft) :
    Prop :=
  ∀ e : Entry, e.Shows ws → readTokens registered e.ending d e.tokens = .ok (.fresh d')

/-- Reading lines leads from one draft to another. -/
inductive Takes (registered : String → Option Table) : Draft → List (List Written) → Draft → Prop
  | nil {d : Draft} : Takes registered d [] d
  | cons {d middle d' : Draft} {ws : List Written} {content : List (List Written)} :
      TakesLine registered d ws middle → Takes registered middle content d' →
      Takes registered d (ws :: content) d'

theorem Takes.append {front back : List (List Written)} (first : Takes registered d front middle)
    (second : Takes registered middle back d') : Takes registered d (front ++ back) d' := by
  induction first with
  | nil => exact second
  | cons line _ ih => exact .cons line (ih second)

theorem Takes.readEntries {content : List (List Written)} {entries : List Entry}
    (h : Takes registered d content d') (shown : Forall₂ Entry.Shows entries content) :
    readEntries registered d entries = .ok (.fresh d') := by
  induction h generalizing entries with
  | nil =>
    obtain _ | _ := shown
    rfl
  | cons line _ ih =>
    obtain _ | ⟨first, rest⟩ := shown
    exact Except.bind_eq_ok.mpr ⟨_, line _ first, ih rest⟩

/-! ## Lines -/

theorem takesLine_header (d : Draft) {part : Section} (name : Spelling part.name) :
    TakesLine registered d [.header part name] { d with current := some part } := by
  rintro ⟨tokens, ending⟩ ⟨each, mark, rfl, _⟩
  obtain _ | ⟨first, _ | _⟩ := each
  simp only [readTokens, first.kind, Written.kind, first.heading?]
  rfl

theorem takesLine_remark (d : Draft) (r : Remark) :
    TakesLine registered d [r.written] { d with docs := d.docs ++ [r.text] } := by
  rintro ⟨tokens, ending⟩ ⟨each, mark, rfl, _⟩
  obtain _ | ⟨first, _ | _⟩ := each
  have body := Seen.Shows.commentBody first
  rw [r.trim_written] at body
  simp only [readTokens, first.kind, Remark.written, Written.kind, body]
  rfl

/-- A line that begins with a word is a declaration. -/
theorem takesLine_of_word {w : Word} {ws : List Written}
    (h : ∀ (first : Seen) (tokens : List Seen) (mark : Seen), mark.token.kind = .newLine →
      Forall₂ Seen.Shows (first :: tokens) (.word w :: ws) →
      d.readDeclaration registered first ⟨tokens, .newLine mark⟩ = .ok (.fresh d')) :
    TakesLine registered d (.word w :: ws) d' := by
  rintro ⟨tokens, ending⟩ ⟨each, mark, rfl, newLine⟩
  cases each with
  | cons first rest =>
    have read := h _ _ mark newLine (.cons first rest)
    rw [readTokens, first.kind]
    exact read

section Sections

variable {first : Seen} {e : Entry}

theorem readDeclaration_settings (h : d.current = some .settings) :
    d.readDeclaration registered first e = d.readSetting registered first e := by
  rw [readDeclaration, h]

theorem readDeclaration_fields {u : Table} (h : d.current = some .fields) (found : d.table = some t)
    (read : readField t first e = .ok u) :
    d.readDeclaration registered first e = .ok (.fresh { d with table := some u }) := by
  unfold readDeclaration readMember
  simp only [h, found, read]
  rfl

theorem readDeclaration_indexes {u : Table} (h : d.current = some .indexes)
    (found : d.table = some t) (read : readIndex t first e = .ok u) :
    d.readDeclaration registered first e = .ok (.fresh { d with table := some u }) := by
  unfold readDeclaration readMember
  simp only [h, found, read]
  rfl

theorem readDeclaration_foreignKeys {key : ForeignKey} (h : d.current = some .foreignKeys)
    (found : d.table = some t) (read : readForeignKey t.domain first e = .ok key) :
    d.readDeclaration registered first e =
      .ok (.fresh { d with foreignKeys := d.foreignKeys ++ [key] }) := by
  unfold readDeclaration readMember
  simp only [h, found, read]
  rfl

end Sections

theorem takes_remarks (d : Draft) (docs : List Remark) :
    Takes registered d (docs.map fun r => [r.written])
      { d with docs := d.docs ++ docs.map Remark.text } := by
  induction docs generalizing d with
  | nil => simpa using Takes.nil
  | cons r docs ih =>
    refine .cons (takesLine_remark d r) ?_
    simpa using ih { d with docs := d.docs ++ [r.text] }

theorem takesLine_class {declaration : Declaration} (inside : d.current = some .settings)
    (absent : d.table = none) (free : registered declaration.domain = none) :
    TakesLine registered d declaration.classLine
      { d with table := some (Table.empty declaration.domain declaration.tableText) } :=
  takesLine_of_word fun _ _ _ newLine each =>
    (readDeclaration_settings inside).trans (readClass_shown newLine absent free each)

theorem takes_ends {ends : Option Ends} (inside : d.current = some .settings)
    (found : d.table = some t) (ordinary : t.manyToMany = false) (absent : d.link = none) :
    Takes registered d (ends.toList.map Ends.line)
      { d with
        table := some { t with manyToMany := ends.isSome }
        link := ends.map fun e =>
          ⟨t.domain, Identifier.titleCase e.one.text, Identifier.titleCase e.two.text⟩ } := by
  cases ends with
  | none =>
    have same : ({ t with manyToMany := false } : Table) = t := by rw [← ordinary]
    show Takes registered d [] { d with table := some { t with manyToMany := false }, link := none }
    rw [same, ← found, ← absent]
    exact .nil
  | some e =>
    exact .cons (takesLine_of_word fun _ _ _ newLine each =>
      (readDeclaration_settings inside).trans (readLink_shown newLine found absent each)) .nil

/-- Fields become columns, in order. -/
theorem takes_fields {fields : List Field} (inside : d.current = some .fields)
    (found : d.table = some t) (fits : t.Fits (fields.map (Field.toColumn t.domain))) :
    Takes registered d (fields.map Field.line)
      { d with
        table := some
          { t with columns := t.columns ++ fields.map (Field.toColumn t.domain) } } := by
  induction fields generalizing d t with
  | nil =>
    simp only [List.map_nil, List.append_nil, ← found]
    exact .nil
  | cons f fields ih =>
    obtain ⟨free, rest⟩ := Table.fits_cons.mp fits
    refine .cons (takesLine_of_word fun _ _ _ _ each =>
      readDeclaration_fields inside found (readField_shown each free)) ?_
    have further := ih (t := { t with columns := t.columns ++ [f.toColumn t.domain] })
      (d := { d with table := some { t with columns := t.columns ++ [f.toColumn t.domain] } })
      inside rfl ⟨rest.1, rest.2⟩
    simpa using further

/-- Indexes over declared fields are added, in order. -/
theorem takes_indexes {indexes : List FieldIndex} (inside : d.current = some .indexes)
    (found : d.table = some t)
    (declared : ∀ i ∈ indexes, ∀ f ∈ i.fields, t.column? f.name.text = some (f.toColumn t.domain))
    (names : ((t.indexes.map Index.name) ++ indexes.map fun i => i.name.text).Nodup) :
    Takes registered d (indexes.map FieldIndex.line)
      { d with
        table := some { t with indexes := t.indexes ++ indexes.map FieldIndex.toIndex } } := by
  induction indexes generalizing d t with
  | nil =>
    simp only [List.map_nil, List.append_nil, ← found]
    exact .nil
  | cons i indexes ih =>
    have free : ∀ other ∈ t.indexes, other.name ≠ i.name.text := by
      intro other hother same
      have apart := (List.nodup_append.mp names).2.2
      exact apart other.name (List.mem_map_of_mem hother) i.name.text (by simp) same
    refine .cons (takesLine_of_word fun _ _ _ _ each => readDeclaration_indexes inside found
      (readIndex_shown each (declared i List.mem_cons_self) free)) ?_
    have further := ih (t := { t with indexes := t.indexes ++ [i.toIndex] })
      (d := { d with table := some { t with indexes := t.indexes ++ [i.toIndex] } }) inside rfl
      (fun j hj => declared j (List.mem_cons_of_mem _ hj))
      (by simpa [FieldIndex.toIndex] using names)
    simpa using further

/-- Foreign keys are declared, in order. -/
theorem takes_references {references : List Reference} (inside : d.current = some .foreignKeys)
    (found : d.table = some t) :
    Takes registered d (references.map Reference.line)
      { d with
        foreignKeys := d.foreignKeys ++ references.map (Reference.toForeignKey t.domain) } := by
  induction references generalizing d with
  | nil => simpa using Takes.nil
  | cons k references ih =>
    have line : TakesLine registered d k.line
        { d with foreignKeys := d.foreignKeys ++ [k.toForeignKey t.domain] } := by
      obtain ⟨w, locals, split⟩ := List.exists_cons_of_ne_nil k.filled
      have first : k.line = .word w :: (locals.map .word ++ .word k.keyword.word ::
          k.fields.map fun f => .word (qualified k.target f)) := by
        simp [Reference.line, split]
      rw [first]
      refine takesLine_of_word fun _ _ _ _ each => ?_
      rw [← first] at each
      exact readDeclaration_foreignKeys inside found (readForeignKey_shown each)
    refine .cons line ?_
    have further := ih
      (d := { d with foreignKeys := d.foreignKeys ++ [k.toForeignKey t.domain] }) inside found
    simpa using further

end Draft

/-! ## Files -/

/-- The declared columns have names of their own. -/
theorem uniqueNames_columns (d : Declaration) :
    UniqueNames (d.fields.map (Field.toColumn d.domain)) :=
  List.pairwise_map.mpr (d.distinct.imp fun apart => apart)

/-- A declared field leads to its column. -/
theorem column?_of_mem (d : Declaration) {t : Table} {f : Field}
    (columns : t.columns = d.fields.map (Field.toColumn d.domain)) (hf : f ∈ d.fields) :
    t.column? f.name.text = some (f.toColumn d.domain) := by
  have names : UniqueNames t.columns := columns ▸ uniqueNames_columns d
  have member : f.toColumn d.domain ∈ t.columns := columns ▸ List.mem_map_of_mem hf
  exact (Table.found_of_mem names member).1

/-- Reading the lines of a declaration leads to the draft of what is declared. -/
theorem takes_lines {registered : String → Option Table} (d : Declaration)
    (free : registered d.domain = none) :
    Draft.Takes registered .start d.lines
      ⟨some .foreignKeys, d.docs.map Remark.text, some { d.declaredTable with comment := none },
        d.link, d.references.map (Reference.toForeignKey d.domain)⟩ := by
  -- the table after the settings, after the fields and after the indexes
  let docs := d.docs.map Remark.text
  let opened : Table := { Table.empty d.domain d.tableText with manyToMany := d.ends.isSome }
  let filled : Table := { opened with columns := d.fields.map (Field.toColumn d.domain) }
  let indexed : Table := { d.declaredTable with comment := none }
  have settings : Draft.Takes registered ⟨some .settings, [], none, none, []⟩
      (d.docs.map (fun r => [r.written]) ++ d.classLine :: d.ends.toList.map Ends.line)
      ⟨some .settings, docs, some opened, d.link, []⟩ :=
    (Draft.takes_remarks _ d.docs).append
      (.cons (Draft.takesLine_class rfl rfl free) (Draft.takes_ends rfl rfl rfl rfl))
  have fits : opened.Fits (d.fields.map (Field.toColumn d.domain)) :=
    ⟨uniqueNames_columns d, fun _ none => nomatch none⟩
  have fields : Draft.Takes registered ⟨some .fields, docs, some opened, d.link, []⟩
      (d.fields.map Field.line) ⟨some .fields, docs, some filled, d.link, []⟩ :=
    Draft.takes_fields rfl rfl fits
  have indexes : Draft.Takes registered ⟨some .indexes, docs, some filled, d.link, []⟩
      (d.indexes.map FieldIndex.line)
      ⟨some .indexes, docs, some indexed, d.link, []⟩ :=
    Draft.takes_indexes (t := filled) rfl rfl
      (fun i hi f hf => column?_of_mem d rfl (d.declared i hi f hf)) d.indexNames
  have references : Draft.Takes registered ⟨some .foreignKeys, docs, some indexed, d.link, []⟩
      (d.references.map Reference.line)
      ⟨some .foreignKeys, docs, some indexed, d.link,
        [] ++ d.references.map (Reference.toForeignKey indexed.domain)⟩ :=
    Draft.takes_references rfl rfl
  have header (draft : Draft) (part : Section) :
      Draft.TakesLine registered draft (d.header part) { draft with current := some part } :=
    Draft.takesLine_header draft (d.headers part)
  exact ((Draft.Takes.cons (header _ .settings) settings).append (.cons (header _ .fields) fields)
    |>.append (.cons (header _ .indexes) indexes)).append (.cons (header _ .foreignKeys) references)

/-- The comments of a file are put one below the other. -/
theorem foldl_addComment_docs (docs : List Remark) (t : Table) :
    (docs.map Remark.text).foldl Table.addComment { t with comment := none } =
      { t with comment :=
          if docs = [] then none else some ("\n".intercalate (docs.map Remark.text)) } := by
  rw [foldl_addComment_joined rfl]
  simp only [joined, List.map_eq_nil_iff]

/-- A text that writes a declaration gives its definition in every registry that lacks its class. -/
theorem ofEvents_of_writes {registered : String → Option Table} (d : Declaration) {text : String}
    (writes : Writes d.lines text.toList) (free : registered d.domain = none) :
    ofEvents registered (Scanner.ofText text).events = .ok (.fresh d.definition) := by
  have read := (takes_lines d free).readEntries (Entry.shows_of_writes writes)
  refine ofEvents_eq_fresh.mpr ⟨_, read, ?_⟩
  unfold Draft.finish
  simp only [foldl_addComment_docs]
  rfl

end TableSchema.Definition
