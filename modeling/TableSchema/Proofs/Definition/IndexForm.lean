import Mathlib.Data.List.Forall2
import TableSchema.Proofs.Definition.Recognized
import TableSchema.Proofs.Table.Columns

/-!
The form of an index line.

An index line has a word for the name of the index, and then comments and words that name declared
fields (`IndexLine.Declares`). Two things can be wrong behind the name: a word that names no field,
for which the line is refused as a reference into nothing, or any other token that does not belong
there, for which it is refused as a breach of the grammar. The token that comes first decides
(`MissesField`); whether the index has any fields and whether its name is free is only looked at
behind the last token. So a line is accepted exactly if it declares an index under a free name
(`Draft.readTokens_indexes_iff`).
-/

namespace TableSchema.Definition

open List (Forall₂)

/-- The token may stand behind the name of an index: a comment, or the name of a declared field. -/
def Listable (t : Table) (token : Token) : Prop :=
  token.isComment = true ∨ token.isWord = true ∧ (t.column? token.text).isSome = true

/-- The first of the tokens that may not stand behind the name of an index is the word `seen`, which
names no declared field. -/
structure MissesField (t : Table) (tokens : List Seen) (seen : Seen) : Prop where
  word : seen.token.isWord = true
  undeclared : t.column? seen.token.text = none
  first : ∃ before after, tokens = before ++ seen :: after ∧ ∀ s ∈ before, Listable t s.token

/-- The tokens are comments and words, and the words name the fields of these columns. -/
structure ListsFields (t : Table) (tokens : List Token) (listed : List IndexedColumn) : Prop where
  kinds : ∀ s ∈ tokens, s.isComment = true ∨ s.isWord = true
  columns : Forall₂ (fun s entry => ∃ c, t.column? s.text = some c ∧
    entry = ⟨c.fieldName, c.columnName⟩) (tokens.filter Token.isWord) listed

/-- The tokens of an index line, part by part. -/
structure IndexLine where
  name : Token
  fields : List Token

namespace IndexLine

/-- The tokens, one after the other. -/
def tokens (line : IndexLine) : List Token := line.name :: line.fields

/-- The line declares the index `index` over columns of the table `t`. -/
structure Declares (line : IndexLine) (t : Table) (index : Index) : Prop where
  word : line.name.isWord = true
  name : index.name = line.name.text
  fields : ListsFields t line.fields index.columns
  filled : index.columns ≠ []

end IndexLine

section

variable {t : Table} {s : Token} {ts : List Token} {listed : List IndexedColumn}

theorem listsFields_nil : ListsFields t [] listed ↔ listed = [] := by
  constructor
  · rintro ⟨_, columns⟩
    exact List.forall₂_nil_left_iff.mp columns
  · rintro rfl
    exact ⟨by simp, .nil⟩

theorem listsFields_cons_comment (comment : s.kind = .comment) :
    ListsFields t (s :: ts) listed ↔ ListsFields t ts listed := by
  have isComment : s.isComment = true := by simp [Token.isComment, comment]
  have noWord : s.isWord = false := by simp [Token.isWord, comment]
  constructor
  · rintro ⟨kinds, columns⟩
    exact ⟨(List.forall_mem_cons.mp kinds).2, by simpa [noWord] using columns⟩
  · rintro ⟨kinds, columns⟩
    exact ⟨List.forall_mem_cons.mpr ⟨.inl isComment, kinds⟩, by simpa [noWord] using columns⟩

theorem listsFields_cons_word (word : s.kind = .word) :
    ListsFields t (s :: ts) listed ↔ ∃ c more, t.column? s.text = some c ∧
      ListsFields t ts more ∧ listed = ⟨c.fieldName, c.columnName⟩ :: more := by
  have isWord : s.isWord = true := by simp [Token.isWord, word]
  constructor
  · rintro ⟨kinds, columns⟩
    rw [List.filter_cons_of_pos isWord] at columns
    obtain ⟨_, more, ⟨c, found, rfl⟩, others, rfl⟩ := List.forall₂_cons_left_iff.mp columns
    exact ⟨c, more, found, ⟨(List.forall_mem_cons.mp kinds).2, others⟩, rfl⟩
  · rintro ⟨c, more, found, ⟨kinds, columns⟩, rfl⟩
    refine ⟨List.forall_mem_cons.mpr ⟨.inr isWord, kinds⟩, ?_⟩
    rw [List.filter_cons_of_pos isWord]
    exact .cons ⟨c, found, rfl⟩ columns

/-- Every word names a field. -/
theorem ListsFields.exists_column (h : ListsFields t ts listed) (hs : s ∈ ts)
    (word : s.isWord = true) : ∃ c, t.column? s.text = some c := by
  obtain ⟨_, columns⟩ := h
  have hs : s ∈ ts.filter Token.isWord := List.mem_filter.mpr ⟨hs, word⟩
  generalize ts.filter Token.isWord = words at columns hs
  induction columns with
  | nil => cases hs
  | cons first _ ih =>
    rcases List.mem_cons.mp hs with rfl | later
    · obtain ⟨c, found, _⟩ := first
      exact ⟨c, found⟩
    · exact ih later

end

/-! ## The fields of an index -/

section

variable {t : Table} {tokens rest : List Seen} {seen first : Seen} {index : Index}

theorem MissesField.cons (listable : Listable t first.token) (h : MissesField t rest seen) :
    MissesField t (first :: rest) seen := by
  obtain ⟨before, after, rfl, listables⟩ := h.first
  exact ⟨h.word, h.undeclared, first :: before, after, rfl,
    List.forall_mem_cons.mpr ⟨listable, listables⟩⟩

/-- A token that may stand behind the name of an index is read, and the index keeps its name. -/
theorem exists_addIndexed_of_listable (index : Index) (listable : Listable t seen.token) :
    ∃ after, addIndexed t index seen = .ok after ∧ after.name = index.name := by
  unfold addIndexed
  rcases listable with comment | ⟨word, declared⟩
  · have kind : seen.token.kind = .comment := by simpa [Token.isComment] using comment
    exact ⟨index, by rw [kind], rfl⟩
  · have kind : seen.token.kind = .word := by simpa [Token.isWord] using word
    obtain ⟨c, found⟩ := Option.isSome_iff_exists.mp declared
    exact ⟨index.push c, by rw [kind, found], rfl⟩

/-- The first token that may not stand behind the name of an index decides: a word that names no
field is blamed for this. -/
theorem foldlM_addIndexed_of_missesField (index : Index) (misses : MissesField t tokens seen) :
    tokens.foldlM (addIndexed t) index =
      .error (.undeclared index.name seen.token.text t.domain (seen.placeOf seen.token)) := by
  obtain ⟨word, undeclared, before, after, rfl, listables⟩ := misses
  induction before generalizing index with
  | nil =>
    have kind : seen.token.kind = .word := by simpa [Token.isWord] using word
    have refused : addIndexed t index seen =
        .error (.undeclared index.name seen.token.text t.domain (seen.placeOf seen.token)) := by
      rw [addIndexed, kind, undeclared]
    rw [List.nil_append, List.foldlM_cons, refused, Except.error_bind]
  | cons s before ih =>
    obtain ⟨listable, listables⟩ := List.forall_mem_cons.mp listables
    obtain ⟨index', added, name⟩ := exists_addIndexed_of_listable index listable
    rw [List.cons_append, List.foldlM_cons, added, Except.ok_bind, ih index' listables, name]

/-- Where no such word comes first, the tokens behind the name are recognized by the fields that
they list. -/
theorem recognizes_foldlM_addIndexed (known : ∀ seen, ¬MissesField t tokens seen) :
    Recognizes (fun after => ∃ listed, ListsFields t (tokens.map Seen.token) listed ∧
        after = { index with columns := index.columns ++ listed })
      (tokens.foldlM (addIndexed t) index) := by
  induction tokens generalizing index with
  | nil => exact (Recognizes.pure _).congr fun _ => by simp [listsFields_nil]
  | cons first rest ih =>
    have later (listable : Listable t first.token) : ∀ seen, ¬MissesField t rest seen :=
      fun seen misses => known seen (misses.cons listable)
    rw [List.foldlM_cons, List.map_cons, addIndexed]
    cases kind : first.token.kind with
    | comment =>
      have listable : Listable t first.token := .inl (by simp [Token.isComment, kind])
      simp only [Except.ok_bind, listsFields_cons_comment kind]
      exact ih (later listable)
    | word =>
      have word : first.token.isWord = true := by simp [Token.isWord, kind]
      cases found : t.column? first.token.text with
      | none => exact absurd ⟨word, found, [], rest, rfl, nofun⟩ (known first)
      | some c =>
        have listable : Listable t first.token := .inr ⟨word, by simp [found]⟩
        simp only [Except.ok_bind, listsFields_cons_word kind, found]
        exact (ih (later listable)).congr fun _ => by simp [Index.push]
    | special | header | newLine | flaw =>
      refine .reject ?_
      rintro _ ⟨listed, ⟨kinds, _⟩, _⟩
      simp [Token.isComment, Token.isWord, kind] at kinds

/-- A line that declares an index misses no field. -/
theorem IndexLine.Declares.not_missesField {line : IndexLine} (h : line.Declares t index)
    (split : (first :: tokens).map Seen.token = line.tokens) : ¬MissesField t tokens seen := by
  rintro ⟨word, undeclared, before, after, rfl, _⟩
  obtain ⟨_, fields⟩ := List.cons.inj split
  have listed : seen.token ∈ line.fields := by simp [← fields]
  obtain ⟨c, declared⟩ := h.fields.exists_column listed word
  cases undeclared.symm.trans declared

/-- An index line is recognized by its form, if its name is free and no word without a field comes
first behind the name. -/
theorem recognizes_readIndex {mark : Seen}
    (known : first.token.isWord = true → ∀ seen, ¬MissesField t tokens seen) :
    Recognizes (fun u => ∃ index, (∃ line : IndexLine,
        (first :: tokens).map Seen.token = line.tokens ∧ line.Declares t index) ∧
        t.addIndex? index = some u)
      (readIndex t first ⟨tokens, .newLine mark⟩) := by
  have declares_iff (index : Index) :
      (∃ line : IndexLine, (first :: tokens).map Seen.token = line.tokens ∧
        line.Declares t index) ↔
      first.token.isWord = true ∧ index.name = first.token.text ∧
        ListsFields t (tokens.map Seen.token) index.columns ∧ index.columns ≠ [] := by
    constructor
    · rintro ⟨⟨name, fields⟩, split, word, same, lists, filled⟩
      cases split
      exact ⟨word, same, lists, filled⟩
    · rintro ⟨word, same, lists, filled⟩
      exact ⟨⟨first.token, tokens.map Seen.token⟩, rfl, word, same, lists, filled⟩
  simp only [declares_iff]
  unfold readIndex
  cases word : first.token.isWord with
  | false => exact .reject fun _ => by simp
  | true =>
    refine Recognizes.congr ((recognizes_foldlM_addIndexed (known word)).bind (fun index u =>
      index.columns ≠ [] ∧ t.addIndex? index = some u) ?_) fun u => ?_
    · rintro index ⟨listed, _, rfl⟩
      simp only [Ending.newLine?, Except.ok_bind]
      split
      · rename_i empty
        exact .reject fun _ => by simp [List.isEmpty_iff.mp empty]
      · rename_i filled
        split
        · rename_i u added
          exact (Recognizes.pure _).congr fun _ => by
            simp [List.isEmpty_iff.not.mp filled, added, eq_comm]
        · rename_i taken
          exact .refuse fun _ => by simp [taken]
    · constructor
      · rintro ⟨⟨name, columns⟩, ⟨_, rfl, lists, filled⟩, added⟩
        exact ⟨_, ⟨columns, lists, rfl⟩, filled, added⟩
      · rintro ⟨_, ⟨listed, lists, rfl⟩, filled, added⟩
        exact ⟨_, ⟨rfl, rfl, lists, filled⟩, added⟩

end

variable {registered : String → Option Table} {d : Draft} {t : Table} {first : Seen}
  {rest : List Seen}

/-- A line of the indexes section on which nothing is a flaw is accepted exactly when it has the
form of an index whose name is free. Then the index that it declares is added behind the others, and
nothing else is changed. A line is refused for a reference into nothing, at the word, exactly when
it begins with a name and the first token behind it that does not belong there is a word that names
no declared field. Every other line is refused for the grammar, at a place. -/
theorem Draft.readTokens_indexes_iff (inside : d.current = some .indexes) (found : d.table = some t)
    (noComment : first.token.kind ≠ .comment) (noHeader : first.token.kind ≠ .header)
    (mark : Seen) :
    (∀ reading, readTokens registered (.newLine mark) d (first :: rest) = .ok reading ↔
      ∃ (line : IndexLine) (index : Index),
        (first :: rest).map Seen.token = line.tokens ∧ line.Declares t index ∧
        (∀ other ∈ t.indexes, other.name ≠ index.name) ∧
        reading = .fresh { d with table := some { t with indexes := t.indexes ++ [index] } }) ∧
    (∀ seen, first.token.isWord = true → MissesField t rest seen →
      readTokens registered (.newLine mark) d (first :: rest) =
        .error (.undeclared first.token.text seen.token.text t.domain
          (seen.placeOf seen.token))) ∧
    ((¬∃ (line : IndexLine) (index : Index),
        (first :: rest).map Seen.token = line.tokens ∧ line.Declares t index ∧
        ∀ other ∈ t.indexes, other.name ≠ index.name) →
      (¬∃ seen, first.token.isWord = true ∧ MissesField t rest seen) →
      ∃ problem place, readTokens registered (.newLine mark) d (first :: rest) =
        .error (.grammar problem place)) := by
  have reads : d.readDeclaration registered first ⟨rest, .newLine mark⟩ =
      d.readMember first fun table => do
        let table ← readIndex table first ⟨rest, .newLine mark⟩
        return { d with table := some table } := by
    rw [readDeclaration, inside]
  have blamed (seen : Seen) (word : first.token.isWord = true) (misses : MissesField t rest seen) :
      readTokens registered (.newLine mark) d (first :: rest) =
        .error (.undeclared first.token.text seen.token.text t.domain
          (seen.placeOf seen.token)) := by
    have refused : readIndex t first ⟨rest, .newLine mark⟩ =
        .error (.undeclared first.token.text seen.token.text t.domain
          (seen.placeOf seen.token)) := by
      rw [readIndex, if_pos word, foldlM_addIndexed_of_missesField _ misses]
      rfl
    rw [readTokens_of_declaration noComment noHeader, reads, readMember, found]
    simp only [refused]
    rfl
  by_cases misses : ∃ seen, first.token.isWord = true ∧ MissesField t rest seen
  · refine ⟨fun reading => ?_, blamed, fun _ none => absurd misses none⟩
    obtain ⟨seen, word, comesFirst⟩ := misses
    rw [blamed seen word comesFirst]
    refine iff_of_false (by simp) ?_
    rintro ⟨line, index, split, declares, _⟩
    exact declares.not_missesField split comesFirst
  · have known (word : first.token.isWord = true) (seen : Seen) : ¬MissesField t rest seen :=
      fun comesFirst => misses ⟨seen, word, comesFirst⟩
    have line := recognizes_readTokens noComment noHeader found reads
      ((recognizes_readIndex known).bind _ fun table _ => .pure _)
    simp only [Table.addIndex?_eq_some] at line
    refine ⟨fun reading => ?_, blamed, fun formless _ => ?_⟩
    · rw [line.eq_ok_iff]
      constructor
      · rintro ⟨_, ⟨u, ⟨index, ⟨line, split, declares⟩, free, rfl⟩, rfl⟩, rfl⟩
        exact ⟨line, index, split, declares, free, rfl⟩
      · rintro ⟨line, index, split, declares, free, rfl⟩
        exact ⟨_, ⟨_, ⟨index, ⟨line, split, declares⟩, free, rfl⟩, rfl⟩, rfl⟩
    · refine line.eq_error ?_
      rintro _ ⟨_, ⟨u, ⟨index, ⟨line, split, declares⟩, free, _⟩, _⟩, _⟩
      exact formless ⟨line, index, split, declares, free⟩

/-- An index over one field. -/
def titleIndex : Index := ⟨"byTitle", [⟨"title", "TITLE"⟩]⟩

/-- An index that lists one of its fields twice. -/
def yearIndex : Index :=
  ⟨"byYear", [⟨"year", "PUBLISHED"⟩, ⟨"title", "TITLE"⟩, ⟨"year", "PUBLISHED"⟩]⟩

/-- A column of the table below. -/
def bookColumn (field name : String) : Column :=
  ⟨.bounded 10, .string, field, name, none, .none, "Book", false⟩

/-- A table of two fields with these indexes. -/
def bookTable (indexes : List Index) : Table :=
  { Table.empty "Book" "BOOK" with
    columns := [bookColumn "title" "TITLE", bookColumn "year" "PUBLISHED"]
    indexes := indexes }

/-- Its draft in the indexes section of its file. -/
def indexing (indexes : List Index) : Draft :=
  { Draft.start with current := some .indexes, table := some (bookTable indexes) }

/-- A line with comments between the fields and behind them. -/
def yearLine : String := "byYear year /* then */ title year // twice"

/-- A line with a name that is taken, and a word that names no field in front of a flag. -/
def strayLine : String := "byTitle year Title !"

/-- A line with such a word behind a flag. -/
def markedLine : String := "byYear ! Title"

/-- What the scanner gives for the first line. -/
def yearEntry : Entry :=
  entryOf 1 yearLine [(.word, "byYear", 0), (.word, "year", 7), (.comment, "/* then */", 12),
    (.word, "title", 23), (.word, "year", 29), (.comment, "// twice", 34)]

/-- What the scanner gives for the second line. -/
def strayEntry : Entry :=
  entryOf 2 strayLine [(.word, "byTitle", 0), (.word, "year", 8), (.word, "Title", 13),
    (.special, "!", 19)]

/-- What the scanner gives for the third line. -/
def markedEntry : Entry :=
  entryOf 3 markedLine [(.word, "byYear", 0), (.special, "!", 7), (.word, "Title", 9)]

theorem Draft.readTokens_indexes_iff_yearLine :
    Entry.ofEvents
        (Scanner.ofText (yearLine ++ "\n" ++ strayLine ++ "\n" ++ markedLine)).events =
      [yearEntry, strayEntry, markedEntry] ∧
    (∃ line : IndexLine, yearEntry.tokens.map Seen.token = line.tokens ∧
      line.Declares (bookTable [titleIndex]) yearIndex) ∧
    readTokens (fun _ => none) strayEntry.ending (indexing [titleIndex]) strayEntry.tokens =
      .error (.undeclared "byTitle" "Title" "Book" ⟨2, 14, strayLine⟩) ∧
    ∃ problem place, readTokens (fun _ => none) markedEntry.ending (indexing [titleIndex])
      markedEntry.tokens = .error (.grammar problem place) := by
  have general (first : Seen) (rest : List Seen) (noComment : first.token.kind ≠ .comment)
      (noHeader : first.token.kind ≠ .header) (mark : Seen) :=
    @readTokens_indexes_iff (fun _ => none) (indexing [titleIndex]) (bookTable [titleIndex]) first
      rest rfl rfl noComment noHeader mark
  refine ⟨by decide +kernel, ?_, ?_, ?_⟩
  · obtain ⟨accepted, _⟩ := general ⟨⟨.word, "byYear", 1, 0⟩, yearLine.toList⟩
      yearEntry.tokens.tail (by decide) (by decide)
      ⟨.lineEnd 1 yearLine.length, yearLine.toList⟩
    obtain ⟨line, index, split, declares, _, same⟩ :=
      (accepted (.fresh (indexing [titleIndex, yearIndex]))).mp (by decide +kernel)
    cases same
    exact ⟨line, split, declares⟩
  · obtain ⟨_, blamed, _⟩ := general ⟨⟨.word, "byTitle", 2, 0⟩, strayLine.toList⟩
      strayEntry.tokens.tail (by decide) (by decide)
      ⟨.lineEnd 2 strayLine.length, strayLine.toList⟩
    have misses : MissesField (bookTable [titleIndex]) strayEntry.tokens.tail
        ⟨⟨.word, "Title", 2, 13⟩, strayLine.toList⟩ := by
      refine ⟨rfl, by decide +kernel, [⟨⟨.word, "year", 2, 8⟩, strayLine.toList⟩],
        [⟨⟨.special, "!", 2, 19⟩, strayLine.toList⟩], rfl, fun s hs => ?_⟩
      obtain rfl := List.mem_singleton.mp hs
      exact .inr ⟨rfl, by decide +kernel⟩
    exact blamed _ rfl misses
  · obtain ⟨accepted, _, refused⟩ := general ⟨⟨.word, "byYear", 3, 0⟩, markedLine.toList⟩
      markedEntry.tokens.tail (by decide) (by decide)
      ⟨.lineEnd 3 markedLine.length, markedLine.toList⟩
    refine refused ?_ ?_
    · rintro ⟨line, index, split, declares, free⟩
      have given := (accepted _).mpr ⟨line, index, split, declares, free, rfl⟩
      have none : (readTokens (fun _ => none) markedEntry.ending (indexing [titleIndex])
          markedEntry.tokens).isOk = false := by
        decide +kernel
      cases (congrArg Except.isOk given).symm.trans none
    · rintro ⟨seen, _, isWord, _, before, after, split, listables⟩
      -- the flag comes first, and it is neither a comment nor a word
      cases before with
      | nil =>
        obtain ⟨rfl, _⟩ := List.cons.inj split
        cases isWord
      | cons s before =>
        obtain ⟨rfl, _⟩ := List.cons.inj split
        rcases listables _ List.mem_cons_self with comment | ⟨word, _⟩
        · cases comment
        · cases word

end TableSchema.Definition
