import TableSchema.Proofs.Definition.Blocks
import TableSchema.Proofs.Definition.ForeignKeyForm
import TableSchema.Proofs.Registry.Front
import TableSchema.Proofs.Registry.Named
import TableSchema.Proofs.Schema.Finish

/-!
References to registered columns.

A foreign key line names a column as it is known to programs: its class, a dot and its field. All
names are words, so such a line is always scanned into three words, and the class is found again at
the first dot unless it has a dot itself. So every column of a registered table can be referred to
from any other file, and the reference leads back to a column of this field (`references_iff`). What
has to be left out is a class with a dot, a field without a name and a local field that is the
keyword (`Referable`).
-/

namespace TableSchema

open Text (SourceLine)
open Definition (constrainsTo)
open Relation (ReflTransGen)

/-- The line of the foreign keys section that refers from the field `x` to a field of a class. -/
def referringLine (x domain field : String) : String :=
  x ++ " " ++ constrainsTo ++ " " ++ (domain ++ "." ++ field)

/-- What a reference from the field `x` to a field of a class asks of their names: the class has no
dot, at which it would be cut, the field has a name, and `x` is not the keyword. -/
structure Referable (x domain field : String) : Prop where
  dotless : '.' ∉ domain.toList
  filled : field ≠ ""
  plain : Text.sameLetters x constrainsTo = false

/-! ## The line -/

/-- The keyword as a word. -/
def keywordWord : Word := .of constrainsTo (by decide) (by decide)

/-- The line is made of three words. -/
theorem lays_referringLine (x target : Word) :
    Lays [.word x, .word keywordWord, .word target]
      (x.text ++ " " ++ constrainsTo ++ " " ++ target.text).toList := by
  have space : IsGap [' '] := List.forall_mem_singleton.mpr (by decide)
  have before (w : Word) (rest : List Char) : (Written.word w).Before ([' '] ++ rest) := by
    rintro c ⟨⟩
    decide
  have last : Lays [.word target] ([' '] ++ target.text.toList ++ []) :=
    .token space nofun (.blank (List.forall_mem_nil _))
  have middle : Lays [.word keywordWord, .word target]
      ([' '] ++ constrainsTo.toList ++ ([' '] ++ target.text.toList ++ [])) :=
    .token space (before keywordWord _) last
  have whole : Lays [.word x, .word keywordWord, .word target] ([] ++ x.text.toList ++
      ([' '] ++ constrainsTo.toList ++ ([' '] ++ target.text.toList ++ []))) :=
    .token (List.forall_mem_nil _) (before x _) middle
  simpa using whole

namespace Definition

section

variable {x keyword target : Token} {source domain field : String}

/-- Three words with the keyword between them declare a reference to a field of a class, exactly if
the names allow it. -/
theorem declares_reference_iff (first : x.isWord = true)
    (isKeyword : keyword.isKeyword constrainsTo = true) (word : target.isWord = true)
    (text : target.text = domain ++ "." ++ field) (filled : domain ≠ "")
    (titled : Identifier.titleCase domain = domain) :
    (∃ line : ForeignKeyLine, [x, keyword, target] = line.tokens ∧
      line.Declares source ⟨source, [x.text], domain, [field]⟩) ↔
    '.' ∉ domain.toList ∧ field ≠ "" ∧ x.isKeyword constrainsTo = false := by
  have noComment : target.isComment = false := by
    simp_all [Token.isWord, Token.isComment]
  constructor
  · rintro ⟨⟨locals, keyword', foreign⟩, split, _, words, _, _, fromFields, toFields, _⟩
    obtain ⟨t, rfl, _⟩ := List.map_eq_singleton_iff.mp fromFields.symm
    cases split
    obtain ⟨field', more, ⟨_, written, same, dotless, _, named, _⟩, _, fields⟩ :=
      (namesFields_cons noComment).mp toFields
    cases fields
    have domains : domain = written := by
      have chars := congrArg String.toList (text.symm.trans same)
      simp only [String.toList_append, List.append_assoc] at chars
      exact String.toList_injective (List.append_cancel_right chars)
    exact ⟨domains ▸ dotless, named, (words x List.mem_cons_self).2⟩
  · rintro ⟨dotless, named, plain⟩
    refine ⟨⟨[x], keyword, [target]⟩, rfl, ?_⟩
    refine ⟨List.cons_ne_nil _ _, List.forall_mem_singleton.mpr ⟨first, plain⟩, isKeyword, rfl, rfl,
      ?_, List.cons_ne_nil _ _⟩
    refine (namesFields_cons noComment).mpr ⟨field, [], ?_, namesFields_nil.mpr rfl, rfl⟩
    exact ⟨word, domain, text, dotless, filled, named, titled⟩

end

variable {registered : String → Option Table} {d : Draft} {t : Table} {e : Entry} {x target : Word}
  {domain field : String}

/-- Reading the line records the reference, exactly if the names allow it. -/
theorem Draft.readTokens_reference_iff (registered : String → Option Table)
    (inside : d.current = some .foreignKeys) (found : d.table = some t)
    (shows : e.Shows [.word x, .word keywordWord, .word target])
    (text : target.text = domain ++ "." ++ field) (filled : domain ≠ "")
    (titled : Identifier.titleCase domain = domain) :
    readTokens registered e.ending d e.tokens = .ok (.fresh
      { d with foreignKeys := d.foreignKeys ++ [⟨t.domain, [x.text], domain, [field]⟩] }) ↔
    Referable x.text domain field := by
  obtain ⟨tokens, ending⟩ := e
  obtain ⟨shown, mark, ends, _⟩ := shows
  obtain rfl : ending = .newLine mark := ends
  change List.Forall₂ Seen.Shows tokens _ at shown
  obtain ⟨s₁, rest, first, shown', rfl⟩ := List.forall₂_cons_right_iff.mp shown
  obtain ⟨s₂, rest', second, shown'', rfl⟩ := List.forall₂_cons_right_iff.mp shown'
  obtain ⟨s₃, rest'', third, none, rfl⟩ := List.forall₂_cons_right_iff.mp shown''
  obtain rfl := List.forall₂_nil_right_iff.mp none
  have kind : s₁.token.kind = .word := first.kind
  have isKeyword : s₂.token.isKeyword constrainsTo = true := second.isKeyword constrainsTo
  have named : s₃.token.text = domain ++ "." ++ field := third.text_eq.trans text
  obtain ⟨accepted, _⟩ := @readTokens_foreignKeys_iff registered d t s₁ [s₂, s₃] inside found
    (by simp [kind]) (by simp [kind]) mark
  have declares := @declares_reference_iff s₁.token s₂.token s₃.token t.domain domain field
    first.isWord isKeyword third.isWord named filled titled
  rw [first.text_eq, first.isKeyword] at declares
  rw [accepted]
  constructor
  · rintro ⟨line, key, split, declared, same⟩
    have key' : d.foreignKeys ++ [⟨t.domain, [x.text], domain, [field]⟩] =
        d.foreignKeys ++ [key] := congrArg Draft.foreignKeys (Reading.fresh.inj same)
    obtain rfl := List.singleton_inj.mp (List.append_cancel_left key')
    obtain ⟨dotless, filled, plain⟩ := declares.mp ⟨line, split, declared⟩
    exact ⟨dotless, filled, plain⟩
  · rintro ⟨dotless, filled, plain⟩
    obtain ⟨line, split, declared⟩ := declares.mpr ⟨dotless, filled, plain⟩
    exact ⟨line, _, split, declared, rfl⟩

/-- A line of the foreign keys section that is read stands behind the class line, and records one
key. -/
theorem Draft.exists_key_of_readTokens {ws : List Written} {d' : Draft}
    (inside : d.current = some .foreignKeys) (shows : e.Shows (.word x :: ws))
    (read : readTokens registered e.ending d e.tokens = .ok (.fresh d')) :
    ∃ t key, d.table = some t ∧ d' = { d with foreignKeys := d.foreignKeys ++ [key] } := by
  obtain ⟨first, rest, shown, _, split⟩ := List.forall₂_cons_right_iff.mp shows.tokens
  have kind : first.token.kind = .word := shown.kind
  rw [split, readTokens_of_declaration (by simp [kind]) (by simp [kind]), readDeclaration, inside]
    at read
  obtain ⟨t, found, read⟩ := readMember_eq_ok read
  obtain ⟨key, _, read⟩ := Except.bind_eq_ok.mp read
  cases read
  exact ⟨t, key, found, by rw [inside]⟩

/-- The class of a file is that of its front part, if this has one. -/
theorem Draft.domain_of_finish {last : Draft} {place : Place} {definition : Definition}
    (steps : ReflTransGen (Step registered) d last) (done : last.finish place = .ok definition)
    (found : d.table = some t) : definition.table.domain = t.domain := by
  obtain ⟨u, hu, rfl⟩ := finish_eq_ok done
  obtain ⟨u', hu', same⟩ := steps_keep_class steps found
  obtain rfl := Option.some.inj (hu.symm.trans hu')
  obtain ⟨comment, commented⟩ := foldl_addComment last.docs u
  rw [commented]
  exact same

/-- What has been read makes a definition whatever foreign keys it has. -/
theorem Draft.finish_of_foreignKeys {place place' : Place} {definition : Definition}
    (done : d.finish place = .ok definition) (keys : List ForeignKey) :
    ({ d with foreignKeys := keys } : Draft).finish place' =
      .ok { definition with foreignKeys := keys } := by
  obtain ⟨t, found, rfl⟩ := finish_eq_ok done
  simp only [finish, found]

/-- The line in front of entries that read on in the same way: the whole adds the reference to what
is declared without the line, exactly if the line stands behind the class line and the names allow
it. -/
theorem Draft.readEntries_reference_iff {last : Draft} {entries : List Entry} {place place' : Place}
    {definition : Definition} {later : List ForeignKey} (inside : d.current = some .foreignKeys)
    (shows : e.Shows [.word x, .word keywordWord, .word target])
    (text : target.text = domain ++ "." ++ field) (filled : domain ≠ "")
    (titled : Identifier.titleCase domain = domain)
    (reads : ∀ keys, readEntries registered { d with foreignKeys := keys } entries =
      .ok (.fresh { last with foreignKeys := keys ++ later }))
    (done : last.finish place = .ok definition)
    (class' : ∀ t, d.table = some t → definition.table.domain = t.domain) :
    (∃ other, readEntries registered d (e :: entries) = .ok (.fresh other) ∧
      other.finish place' = .ok { definition with foreignKeys := d.foreignKeys ++
        ⟨definition.table.domain, [x.text], domain, [field]⟩ :: later }) ↔
    d.table ≠ none ∧ Referable x.text domain field := by
  constructor
  · rintro ⟨other, readAll, doneAll⟩
    obtain ⟨reading, line, readAll⟩ := Except.bind_eq_ok.mp readAll
    cases reading with
    | registered u => cases readAll
    | fresh d' =>
      obtain ⟨t, key, ht, rfl⟩ := exists_key_of_readTokens inside shows line
      have recorded := readTokens_reference_iff registered inside ht shows text filled titled
      refine ⟨by simp [ht], recorded.mp ?_⟩
      -- what was recorded can be told from the foreign keys of the whole
      cases readAll.symm.trans (reads (d.foreignKeys ++ [key]))
      obtain ⟨_, _, declares⟩ := finish_eq_ok doneAll
      have keys := congrArg Definition.foreignKeys declares
      rw [List.append_assoc] at keys
      have same := (List.cons.inj (List.append_cancel_left keys)).1
      rw [line, ← class' t ht, same]
  · rintro ⟨classed, referable⟩
    obtain ⟨t, ht⟩ := Option.ne_none_iff_exists'.mp classed
    have recorded := readTokens_reference_iff registered inside ht shows text filled titled
    refine ⟨_, Except.bind_eq_ok.mpr ⟨_, recorded.mpr referable, reads _⟩, ?_⟩
    rw [class' t ht, finish_of_foreignKeys done, List.append_assoc, List.singleton_append]

/-- A line of three words that is put into the foreign keys section of a file adds the reference to
what the file declares, exactly if it stands behind the class line and the names allow it. -/
theorem ofEvents_reference_iff {front rest : List SourceLine} {cs : List Char}
    {definition : Definition}
    (read : Draft.readEntries registered .start (Entry.ofEvents (Scanner.ofLines front).events) =
      .ok (.fresh d))
    (inside : d.current = some .foreignKeys)
    (plain : ofEvents registered (Scanner.ofLines (front ++ rest)).events =
      .ok (.fresh definition))
    (lays : Lays [.word x, .word keywordWord, .word target] cs)
    (text : target.text = domain ++ "." ++ field) (filled : domain ≠ "")
    (titled : Identifier.titleCase domain = domain) :
    ∃ later, definition.foreignKeys = d.foreignKeys ++ later ∧
      (ofEvents registered (Scanner.ofLines (front ++ .readable cs :: rest)).events =
        .ok (.fresh { definition with foreignKeys := d.foreignKeys ++
          ⟨definition.table.domain, [x.text], domain, [field]⟩ :: later }) ↔
      d.table ≠ none ∧ Referable x.text domain field) := by
  obtain ⟨last, whole, done⟩ := ofEvents_eq_fresh.mp plain
  have readable : .unreadable ∉ front ++ rest :=
    Scanner.readable_of_sound (sound_of_readEntries whole)
  obtain ⟨frontReadable, restReadable⟩ := not_or.mp (mt List.mem_append.mpr readable)
  rw [Draft.readEntries_ofLines_append restReadable read] at whole
  obtain ⟨later, added, elsewhere⟩ := Draft.exists_later_of_readEntries whole
  obtain ⟨e, shows, between⟩ := Entry.exists_shows_behind frontReadable
    (closed_of_sound (sound_of_readEntries read)) lays
  have declared : definition.foreignKeys = last.foreignKeys := by
    obtain ⟨_, _, rfl⟩ := Draft.finish_eq_ok done
    rfl
  refine ⟨later, declared.trans added, ?_⟩
  rw [ofEvents_eq_fresh, between rest restReadable, Draft.readEntries_append, read]
  exact Draft.readEntries_reference_iff inside shows text filled titled
    (fun keys => elsewhere keys (front.length + 1)) done
    fun t found => Draft.domain_of_finish (Draft.readEntries_steps whole) done found

end Definition

namespace Table

variable {t u : Table} {c : Column}

theorem exists_column?_of_mem (hc : c ∈ t.columns) :
    ∃ c' ∈ t.columns, c'.fieldName = c.fieldName ∧ t.column? c.fieldName = some c' := by
  have some' : (t.column? c.fieldName).isSome := List.find?_isSome.mpr ⟨c, hc, beq_self_eq_true _⟩
  obtain ⟨c', found⟩ := Option.isSome_iff_exists.mp some'
  exact ⟨c', List.mem_of_find?_eq_some found, by simpa using List.find?_some found, found⟩

/-- Columns at the end of a table hide none of those in front. -/
theorem column?_of_prefix {field : String} (front : t.columns <+: u.columns)
    (found : t.column? field = some c) : u.column? field = some c :=
  front.find?_eq_some found

end Table

namespace Registry

variable {r : Registry}

theorem Sound.adds (h : r.Sound) {s : Scanner} {d : Definition} {after : Registry}
    (adds : r.Adds s d after) : after.Sound := by
  have applied : r.apply (.read s) = after := by simp [apply, adds.read]
  rw [← applied]
  exact h.step (step_apply r (.read s))

/-- A reference from a registered column to a registered column is resolved, also after further
calls. It leads to the first column of the field that is referred to. -/
theorem Sound.exists_resolve (h : r.Sound) {source target : Table} {l c : Column}
    (hsource : source ∈ r.tables) (htarget : target ∈ r.tables) (hl : l ∈ source.columns)
    (hc : c ∈ target.columns) (calls : List Call) :
    ∃ constraint, (calls.foldl apply r).resolve
        ⟨source.domain, [l.fieldName], target.domain, [c.fieldName]⟩ = .ok constraint ∧
      constraint.fromTable = source.domain ∧ constraint.toTable = target.domain ∧
      ∃ c' ∈ target.columns, c'.fieldName = c.fieldName ∧
        constraint.toColumns = [c'.columnName] := by
  have steps := steps_foldl_apply calls r
  have indexed := (h.steps steps).indexed
  obtain ⟨s, hs, front⟩ := h.exists_columns steps (h.indexed.find?_domain hsource)
  obtain ⟨t, ht, front'⟩ := h.exists_columns steps (h.indexed.find?_domain htarget)
  obtain ⟨l', _, _, local'⟩ := Table.exists_column?_of_mem hl
  obtain ⟨c', member, same, foreign⟩ := Table.exists_column?_of_mem hc
  have fromColumns : s.columnNames [l.fieldName] = .ok [l'.columnName] :=
    Table.columnNames_eq_ok.mpr (.cons ⟨l', Table.column?_of_prefix front local', rfl⟩ .nil)
  have toColumns : t.columnNames [c.fieldName] = .ok [c'.columnName] :=
    Table.columnNames_eq_ok.mpr (.cons ⟨c', Table.column?_of_prefix front' foreign, rfl⟩ .nil)
  refine ⟨_, resolve_eq_ok.mpr ⟨s, t, _, _, hs, ht, fromColumns, toColumns, rfl, rfl⟩, ?_, ?_, c',
    member, same, rfl⟩
  · exact (indexed.find?_eq_some_iff.mp hs).2
  · exact (indexed.find?_eq_some_iff.mp ht).2

/-- Let a column of a registered table be given, and a file of another class with a field `l`. A
line that refers from this field to the column, put into the foreign keys section, is accepted and
adds this reference to the foreign keys of the file, exactly if it stands behind the class line and
the names allow it (`Referable`). Then the reference is resolved to a column of the table that has
the field referred to, also after further calls. -/
theorem references_iff (reachable : r.Reachable) {t : Table} (ht : t ∈ r.tables) {c : Column}
    (hc : c ∈ t.columns) {front rest : List SourceLine} {d : Definition.Draft}
    (read : Definition.Draft.readEntries r.find? .start
      (Definition.Entry.ofEvents (Scanner.ofLines front).events) = .ok (.fresh d))
    (inside : d.current = some .foreignKeys) {definition : Definition} {plain : Registry}
    (adds : r.Adds (.ofLines (front ++ rest)) definition plain) {l : Column}
    (hl : l ∈ definition.table.columns) :
    let line := referringLine l.fieldName t.domain c.fieldName
    let key : ForeignKey := ⟨definition.table.domain, [l.fieldName], t.domain, [c.fieldName]⟩
    ∃ later, definition.foreignKeys = d.foreignKeys ++ later ∧
      let file := Scanner.ofLines (front ++ .readable line.toList :: rest)
      let referring := { definition with foreignKeys := d.foreignKeys ++ key :: later }
      ((∃ after, r.Adds file referring after) ↔
        d.table ≠ none ∧ Referable l.fieldName t.domain c.fieldName) ∧
      ∀ after, r.Adds file referring after → ∀ calls : List Call, ∃ constraint,
        (calls.foldl apply after).resolve key = .ok constraint ∧
        constraint.fromTable = definition.table.domain ∧ constraint.toTable = t.domain ∧
        ∃ c' ∈ t.columns, c'.fieldName = c.fieldName ∧ constraint.toColumns = [c'.columnName] := by
  have sound := reachable.sound
  have events := sound.indexed.ofEvents_of_adds adds
  -- the names are words, so the line is made of three words
  have named := reachable.wellNamed t ht
  have dot : Wordy "." := List.all_eq_true.mp (by decide)
  obtain ⟨x, xText⟩ := ((Definition.ofEvents_namedByWords events).isWord hl).exists_word
  obtain ⟨target, text⟩ :=
    ((named.domain.append dot).append (named.columns c hc).field).exists_word
  have lays := lays_referringLine x target
  rw [xText, text] at lays
  obtain ⟨later, split, accepted⟩ := Definition.ofEvents_reference_iff read inside events lays text
    named.domain.filled named.titled
  rw [xText] at accepted
  refine ⟨later, split, ?_, fun after referring calls => ?_⟩
  · rw [← accepted]
    constructor
    · rintro ⟨after, referring⟩
      exact sound.indexed.ofEvents_of_adds referring
    · intro read
      exact ⟨_, sound.indexed.adds_of_ofEvents read⟩
  · have sound' := sound.adds referring
    have old : t ∈ after.tables := by
      rw [referring.tables]
      exact List.mem_append_left _ ht
    have new : definition.table ∈ after.tables := by
      rw [referring.tables]
      exact List.mem_append_right _ List.mem_cons_self
    exact sound'.exists_resolve new old hl hc calls

/-- A class `A` with a field that has a dot in its name. -/
def dottedField : List Call := [.read (.ofText "[Settings]\nCLASS a\n[Fields]\nLONG(9) n.m\n")]

/-- The lines of a file of the class `B` up to its foreign keys. -/
def bookLines : List SourceLine :=
  SourceLine.ofText "[Settings]\nCLASS b\n[Fields]\nLONG(9) x\n[ForeignKeys]\n"

/-- What has been read of these lines. -/
def bookDraft : Definition.Draft where
  current := some .foreignKeys
  docs := []
  table := some { Table.empty "B" "B" with
    columns := [⟨.bounded 9, .long, "x", "X", none, .none, "B", false⟩] }
  link := none
  foreignKeys := []

theorem references_iff_dottedField : ∃ after constraint,
    (∃ definition, (run dottedField).Adds
      (.ofLines (bookLines ++ [.readable "x constrainsTo A.n.m".toList])) definition after ∧
      definition.foreignKeys = [⟨"B", ["x"], "A", ["n.m"]⟩]) ∧
    after.resolve ⟨"B", ["x"], "A", ["n.m"]⟩ = .ok constraint ∧ constraint.toTable = "A" ∧
    constraint.toColumns = ["N.M"] := by
  have reachable : (run dottedField).Reachable := ⟨dottedField, rfl⟩
  have column : ∃ t ∈ (run dottedField).tables, ∃ c ∈ t.columns, t.domain = "A" ∧
      c.fieldName = "n.m" ∧ ∀ c' ∈ t.columns, c'.fieldName = "n.m" → c'.columnName = "N.M" := by
    decide +kernel
  obtain ⟨t, ht, c, hc, domain, field, only⟩ := column
  have opened : Definition.Draft.readEntries (run dottedField).find? .start
      (Definition.Entry.ofEvents (Scanner.ofLines bookLines).events) = .ok (.fresh bookDraft) := by
    decide +kernel
  have facts : ((run dottedField).read (.ofLines (bookLines ++ []))).map
      (fun result =>
        (result.1.domain, result.1.columns.map Column.fieldName, result.2.foreignKeys)) =
        .ok ("B", ["key", "x"], []) := by
    decide +kernel
  obtain ⟨⟨u, plain⟩, read, same⟩ := Except.map_eq_ok.mp facts
  obtain ⟨class', same⟩ := Prod.mk.inj same
  obtain ⟨fields, keys⟩ := Prod.mk.inj same
  have new : u ∉ (run dottedField).tables := fun old => by
    have others : ∀ v ∈ (run dottedField).tables, v.domain = "A" := by decide +kernel
    exact absurd (class'.symm.trans (others u old)) (by decide)
  obtain ⟨definition, rfl, adds⟩ := reachable.sound.indexed.exists_adds read new
  obtain ⟨l, hl, x⟩ : ∃ l ∈ definition.table.columns, l.fieldName = "x" := by
    rw [← List.mem_map, fields]
    decide
  obtain ⟨later, split, accepted, resolved⟩ := references_iff reachable ht hc opened rfl adds hl
  rw [x, domain, field, class'] at accepted resolved
  have none : later = [] := by
    have all := adds.foreignKeys
    rw [keys, split] at all
    exact (List.append_eq_nil_iff.mp (List.append_eq_nil_iff.mp all.symm).2).2
  subst none
  obtain ⟨after, referring⟩ := accepted.mpr ⟨nofun, by decide, by decide, by decide⟩
  obtain ⟨constraint, leads, _, target, c', hc', same, columns⟩ := resolved after referring []
  refine ⟨after, constraint, ⟨_, referring, rfl⟩, leads, target, ?_⟩
  rw [columns, only c' hc' same]

/-- A class with a dot in its name. -/
def dottedClass : List Call := [.read (.ofText "[Settings]\nCLASS a.b\n[Fields]\nLONG(9) n\n")]

/-- A link table whose columns get field names without characters. -/
def namelessFields : List Call :=
  [.read (.ofText "[Settings]\nCLASS a _\n[Fields]\nLONG(9) ! k _\n"),
    .read (.ofText "[Settings]\nCLASS c\n"),
    .read (.ofText "[Settings]\nCLASS l\nLINK a c\n"), .materialize ⟨"L", "A", "C"⟩]

/-- A file with a field that is written like the keyword, up to its foreign keys. -/
def keywordLines : List SourceLine :=
  SourceLine.ofText "[Settings]\nCLASS b\n[Fields]\nLONG(9) ConstrainsTo\n[ForeignKeys]\n"

/-- What comes behind a line in front of the class line. -/
def laterLines : List SourceLine := SourceLine.ofText "[Settings]\nCLASS b\n[Fields]\nLONG(9) x\n"

/-- Not every column can be referred to in every file. A class with a dot is cut at the dot, so that
the reference leads to another class and is not resolved. A field without a name, a local field that
is the keyword and a line in front of the class line are refused, although the file is accepted
without the line. -/
theorem not_references :
    (∃ t ∈ (run dottedClass).tables, ∃ c ∈ t.columns, t.domain = "A.b" ∧ c.fieldName = "n" ∧
      ((run dottedClass).read (.ofLines
          (bookLines ++ [.readable (referringLine "x" t.domain c.fieldName).toList]))).map
        (fun result => (result.2.foreignKeys, result.2.resolve ⟨"B", ["x"], "A", ["b.n"]⟩)) =
          .ok ([⟨"B", ["x"], "A", ["b.n"]⟩], .error (.tableMissing "B" "A"))) ∧
    (∃ t ∈ (run namelessFields).tables, ∃ c ∈ t.columns, c.fieldName = "" ∧
      ((run namelessFields).read (.ofLines
        (bookLines ++ [.readable (referringLine "x" t.domain c.fieldName).toList]))).isOk = false ∧
      ((run namelessFields).read (.ofLines bookLines)).isOk = true) ∧
    (∃ t ∈ (run dottedField).tables, ∃ c ∈ t.columns,
      ((run dottedField).read (.ofLines (keywordLines ++
        [.readable (referringLine "ConstrainsTo" t.domain c.fieldName).toList]))).isOk = false ∧
      ((run dottedField).read (.ofLines keywordLines)).isOk = true) ∧
    ∃ t ∈ (run dottedField).tables, ∃ c ∈ t.columns,
      ((run dottedField).read (.ofLines ([.readable "[ForeignKeys]".toList] ++
        .readable (referringLine "x" t.domain c.fieldName).toList :: laterLines))).isOk = false ∧
      ((run dottedField).read
        (.ofLines ([.readable "[ForeignKeys]".toList] ++ laterLines))).isOk = true := by
  refine ⟨?_, ?_, ?_, ?_⟩
  · have found : ∃ t ∈ (run dottedClass).tables, ∃ c ∈ t.columns, t.domain = "A.b" ∧
        c.fieldName = "n" := by decide +kernel
    obtain ⟨t, ht, c, hc, domain, field⟩ := found
    refine ⟨t, ht, c, hc, domain, field, ?_⟩
    rw [domain, field]
    decide +kernel
  · decide +kernel
  · decide +kernel
  · decide +kernel

end Registry

end TableSchema
