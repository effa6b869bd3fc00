import Mathlib.Data.List.TakeWhile
import TableSchema.Proofs.Definition.Recognized
import TableSchema.Proofs.Definition.WrittenLines

/-!
The form of a foreign key line.

A foreign key line has words for the local fields, the keyword, and then words that name fields of
one class, with comments between them (`ForeignKeyLine.Declares`). A word names a field if it can be
cut at its first dot into a class, written in any of its ways, and the field (`Token.Names`). Both
loops of the reader are shown to recognize their part of the line (`recognizes_readLocalFields`,
`recognizes_foldlM_add_start`). In a file a line is therefore accepted exactly if it declares a
foreign key, and that is the key that it records (`Draft.readTokens_foreignKeys_iff`); neither the
number of the fields nor whether they exist is looked at yet.
-/

namespace TableSchema

open List (Forall₂)

/-- A word that names a field of a class: the class as it is written, a dot, and the field. The
field may have dots of its own. -/
def Token.Names (t : Token) (domain field : String) : Prop :=
  t.isWord = true ∧ ∃ written : String, t.text = written ++ "." ++ field ∧ '.' ∉ written.toList ∧
    written ≠ "" ∧ field ≠ "" ∧ Identifier.titleCase written = domain

namespace Definition

/-- The tokens are comments and words, and the words name these fields of a class. -/
structure NamesFields (domain : String) (tokens : List Token) (fields : List String) : Prop where
  kinds : ∀ t ∈ tokens, t.isComment = true ∨ t.isWord = true
  names : Forall₂ (fun t field => t.Names domain field) (tokens.filter Token.isWord) fields

/-- The tokens of a foreign key line, part by part. -/
structure ForeignKeyLine where
  locals : List Token
  keyword : Token
  foreign : List Token

namespace ForeignKeyLine

/-- The tokens, one after the other. -/
def tokens (line : ForeignKeyLine) : List Token := line.locals ++ line.keyword :: line.foreign

/-- The line declares the foreign key `key` of the class `domain`. -/
structure Declares (line : ForeignKeyLine) (domain : String) (key : ForeignKey) : Prop where
  filled : line.locals ≠ []
  words : ∀ t ∈ line.locals, t.isWord = true ∧ t.isKeyword constrainsTo = false
  keyword : line.keyword.isKeyword constrainsTo = true
  fromTable : key.fromTable = domain
  fromFields : key.fromFields = line.locals.map Token.text
  toFields : NamesFields key.toTable line.foreign key.toFields
  aimed : key.toFields ≠ []

end ForeignKeyLine

/-! ## Words that name a field -/

/-- A text is cut at its first dot. -/
theorem splitAtDot_eq_some_iff {cs front back : List Char} :
    splitAtDot cs = some (front, back) ↔
      cs = front ++ '.' :: back ∧ '.' ∉ front ∧ front ≠ [] ∧ back ≠ [] := by
  constructor
  · intro h
    have dotless : '.' ∉ cs.takeWhile (· != '.') := fun inside => by
      simpa using List.mem_takeWhile_imp inside
    have cut := List.takeWhile_append_dropWhile (p := (· != '.')) (l := cs)
    have dot := List.head?_dropWhile_not (· != '.') cs
    unfold splitAtDot at h
    generalize cs.takeWhile (· != '.') = table at h dotless cut
    cases stop : cs.dropWhile (· != '.') with
    | nil =>
      rw [stop, List.append_nil] at cut
      subst cut
      simp only [List.drop_eq_nil_of_le (Nat.le_succ _)] at h
      split at h
      · cases h
      · cases h
      · contradiction
    | cons d field =>
      rw [stop] at dot cut
      obtain rfl : d = '.' := by simpa using dot
      subst cut
      simp only [← List.drop_drop, List.drop_left] at h
      split at h
      · cases h
      · cases h
      · rename_i filled filled'
        cases h
        exact ⟨rfl, dotless, filled, filled'⟩
  · rintro ⟨rfl, dotless, filled, filled'⟩
    exact splitAtDot_append dotless filled filled'

theorem foreignField?_eq_some_iff {t : Token} {domain field : String} :
    foreignField? t = some (domain, field) ↔ t.Names domain field := by
  rw [foreignField?, Token.Names]
  cases t.isWord with
  | false => simp
  | true =>
    simp only [if_true, true_and, Option.map_eq_some_iff, Prod.exists, splitAtDot_eq_some_iff,
      Prod.mk.injEq]
    constructor
    · rintro ⟨front, back, ⟨text, dotless, filled, filled'⟩, rfl, rfl⟩
      refine ⟨String.ofList front, ?_, by simpa, by simpa, by simpa, rfl⟩
      exact String.toList_injective (by simp [text])
    · rintro ⟨written, text, dotless, filled, filled', rfl⟩
      refine ⟨written.toList, field.toList, ⟨by simp [text], dotless, by simpa, by simpa⟩, ?_, ?_⟩
      · rw [String.ofList_toList]
      · rw [String.ofList_toList]

/-! ## The parts of a line -/

section

variable {tokens rest others : List Seen} {mark seen keyword : Seen} {fields : List String}

/-- The tokens begin with words that are not the keyword, and then comes the keyword. -/
def LocalFields (tokens : List Seen) : List String × Seen × List Seen → Prop
  | (fields, keyword, rest) => ∃ locals, tokens = locals ++ keyword :: rest ∧
      (∀ s ∈ locals, s.token.isWord = true ∧ s.token.isKeyword constrainsTo = false) ∧
      keyword.token.isKeyword constrainsTo = true ∧ fields = locals.map fun s => s.token.text

theorem not_localFields_nil {result : List String × Seen × List Seen} :
    ¬LocalFields [] result := by
  rintro ⟨locals, split, _⟩
  simp at split

theorem localFields_cons :
    LocalFields (seen :: rest) (fields, keyword, others) ↔
      (seen.token.isKeyword constrainsTo = true ∧ (fields, keyword, others) = ([], seen, rest)) ∨
      (seen.token.isWord = true ∧ seen.token.isKeyword constrainsTo = false ∧
        ∃ more, LocalFields rest (more, keyword, others) ∧ fields = seen.token.text :: more) := by
  constructor
  · rintro ⟨locals, split, words, isKeyword, rfl⟩
    cases locals with
    | nil =>
      cases split
      exact .inl ⟨isKeyword, rfl⟩
    | cons s locals =>
      cases split
      obtain ⟨first, words⟩ := List.forall_mem_cons.mp words
      exact .inr ⟨first.1, first.2, locals.map fun s => s.token.text,
        ⟨locals, rfl, words, isKeyword, rfl⟩, rfl⟩
  · rintro (⟨isKeyword, same⟩ | ⟨isWord, plain, more, ⟨locals, rfl, words, isKeyword, rfl⟩, rfl⟩)
    · cases same
      exact ⟨[], rfl, by simp, isKeyword, rfl⟩
    · exact ⟨seen :: locals, rfl, List.forall_mem_cons.mpr ⟨⟨isWord, plain⟩, words⟩, isKeyword, rfl⟩

/-- The local fields are the words in front of the keyword. -/
theorem recognizes_readLocalFields :
    Recognizes (LocalFields tokens) (readLocalFields (.newLine mark) tokens) := by
  induction tokens with
  | nil => exact .reject fun _ => not_localFields_nil
  | cons seen rest ih =>
    rw [readLocalFields]
    split
    · rename_i isKeyword
      rintro ⟨fields, keyword, others⟩
      simp [localFields_cons, isKeyword]
    · rename_i plain
      split
      · rename_i isWord
        refine Recognizes.congr (ih.bind _ fun found _ => .pure _) ?_
        rintro ⟨fields, keyword, others⟩
        simp [localFields_cons, plain, isWord]
      · rename_i noWord
        refine .reject ?_
        rintro ⟨fields, keyword, others⟩
        simp [localFields_cons, plain, noWord]

/-! ## Foreign fields -/

section

variable {t : Token} {ts : List Token} {domain : String}

theorem namesFields_nil : NamesFields domain [] fields ↔ fields = [] := by
  constructor
  · rintro ⟨_, names⟩
    exact List.forall₂_nil_left_iff.mp names
  · rintro rfl
    exact ⟨by simp, .nil⟩

theorem namesFields_cons_comment (comment : t.isComment = true) :
    NamesFields domain (t :: ts) fields ↔ NamesFields domain ts fields := by
  have noWord : t.isWord = false := by
    simp_all [Token.isComment, Token.isWord]
  constructor
  · rintro ⟨kinds, names⟩
    exact ⟨(List.forall_mem_cons.mp kinds).2, by simpa [noWord] using names⟩
  · rintro ⟨kinds, names⟩
    exact ⟨List.forall_mem_cons.mpr ⟨.inl comment, kinds⟩, by simpa [noWord] using names⟩

theorem namesFields_cons (plain : t.isComment = false) :
    NamesFields domain (t :: ts) fields ↔
      ∃ field more, t.Names domain field ∧ NamesFields domain ts more ∧ fields = field :: more := by
  constructor
  · rintro ⟨kinds, names⟩
    obtain ⟨first, kinds⟩ := List.forall_mem_cons.mp kinds
    have isWord : t.isWord = true := by simpa [plain] using first
    rw [List.filter_cons_of_pos isWord] at names
    obtain ⟨field, more, first, others, rfl⟩ := List.forall₂_cons_left_iff.mp names
    exact ⟨field, more, first, ⟨kinds, others⟩, rfl⟩
  · rintro ⟨field, more, first, ⟨kinds, names⟩, rfl⟩
    refine ⟨List.forall_mem_cons.mpr ⟨.inr first.1, kinds⟩, ?_⟩
    rw [List.filter_cons_of_pos first.1]
    exact .cons first names

end

variable {foreign : ForeignFields} {domain : String}

theorem add_of_isComment (comment : seen.token.isComment = true) :
    foreign.add seen = .ok foreign := by
  rw [ForeignFields.add, if_pos comment]

/-- The first word tells the class. -/
theorem recognizes_add_start (plain : seen.token.isComment = false) :
    Recognizes (fun after : ForeignFields =>
        ∃ domain field, seen.token.Names domain field ∧ after = ⟨some domain, [field]⟩)
      (ForeignFields.start.add seen) := by
  simp only [← foreignField?_eq_some_iff]
  unfold ForeignFields.add ForeignFields.start
  rw [plain]
  cases found : foreignField? seen.token with
  | none => exact .reject fun _ => by simp
  | some named =>
    obtain ⟨table, field⟩ := named
    exact (Recognizes.pure _).congr fun _ => by simp

/-- Every other word has to name a field of the same class. -/
theorem recognizes_add (plain : seen.token.isComment = false) :
    Recognizes (fun after : ForeignFields =>
        ∃ field, seen.token.Names domain field ∧ after = ⟨some domain, fields ++ [field]⟩)
      (ForeignFields.add ⟨some domain, fields⟩ seen) := by
  simp only [← foreignField?_eq_some_iff]
  unfold ForeignFields.add
  rw [plain, if_neg Bool.false_ne_true]
  cases found : foreignField? seen.token with
  | none => exact .reject fun _ => by simp
  | some named =>
    obtain ⟨table, field⟩ := named
    dsimp only
    split
    · rename_i same
      subst same
      exact (Recognizes.pure _).congr fun _ => by simp
    · rename_i other
      exact .reject fun _ => by simp [Ne.symm other]

/-- Once the class is known, the words have to name its fields. -/
theorem recognizes_foldlM_add :
    Recognizes (fun after : ForeignFields => ∃ more,
        NamesFields domain (tokens.map Seen.token) more ∧ after = ⟨some domain, fields ++ more⟩)
      (tokens.foldlM ForeignFields.add ⟨some domain, fields⟩) := by
  induction tokens generalizing fields with
  | nil => exact (Recognizes.pure _).congr fun _ => by simp [namesFields_nil]
  | cons seen rest ih =>
    rw [List.foldlM_cons, List.map_cons]
    cases comment : seen.token.isComment with
    | true =>
      simp only [add_of_isComment comment, Except.ok_bind, namesFields_cons_comment comment]
      exact ih
    | false =>
      refine Recognizes.congr ((recognizes_add comment).bind (fun middle after => ∃ more,
        NamesFields domain (rest.map Seen.token) more ∧
        after = ⟨some domain, middle.fields ++ more⟩) ?_) fun after => ?_
      · rintro _ ⟨_, _, rfl⟩
        exact ih
      · simp only [namesFields_cons comment]
        constructor
        · rintro ⟨_, ⟨field, more, first, others, rfl⟩, rfl⟩
          exact ⟨_, ⟨field, first, rfl⟩, more, others, by simp⟩
        · rintro ⟨_, ⟨field, first, rfl⟩, more, others, rfl⟩
          exact ⟨_, ⟨field, more, first, others, rfl⟩, by simp⟩

/-- The tokens are comments and words that name the fields of the class, or no class is named and
they are comments. -/
def Refers (tokens : List Token) : ForeignFields → Prop
  | ⟨some domain, fields⟩ => fields ≠ [] ∧ NamesFields domain tokens fields
  | ⟨none, fields⟩ => fields = [] ∧ ∀ t ∈ tokens, t.isComment = true

theorem recognizes_foldlM_add_start :
    Recognizes (Refers (tokens.map Seen.token)) (tokens.foldlM ForeignFields.add .start) := by
  induction tokens with
  | nil =>
    refine (Recognizes.pure _).congr ?_
    rintro ⟨table, fields⟩
    cases table <;> simp [Refers, namesFields_nil, ForeignFields.start]
  | cons seen rest ih =>
    rw [List.foldlM_cons, List.map_cons]
    cases comment : seen.token.isComment with
    | true =>
      rw [add_of_isComment comment, Except.ok_bind]
      refine ih.congr ?_
      rintro ⟨table, fields⟩
      cases table <;> simp [Refers, namesFields_cons_comment comment, comment]
    | false =>
      refine Recognizes.congr ((recognizes_add_start comment).bind (fun first after =>
        ∃ domain, first.table = some domain ∧ ∃ more,
          NamesFields domain (rest.map Seen.token) more ∧
          after = ⟨some domain, first.fields ++ more⟩)
        fun first ⟨domain, field, _, same⟩ => ?_) ?_
      · subst same
        exact recognizes_foldlM_add.congr fun _ => by simp
      · rintro ⟨table, fields⟩
        constructor
        · intro refers
          cases table with
          | none => simp [Refers, comment] at refers
          | some domain =>
            obtain ⟨_, names⟩ := refers
            obtain ⟨field, more, first, others, rfl⟩ := (namesFields_cons comment).mp names
            exact ⟨_, ⟨domain, field, first, rfl⟩, domain, rfl, more, others, rfl⟩
        · rintro ⟨_, ⟨domain, field, first, rfl⟩, _, ⟨⟩, more, others, same⟩
          cases same
          exact ⟨by simp, (namesFields_cons comment).mpr ⟨field, more, first, others, rfl⟩⟩

/-! ## Lines -/

/-- A foreign key line is recognized by its form. -/
theorem recognizes_readForeignKey {first : Seen} :
    Recognizes (fun key => ∃ line : ForeignKeyLine,
        (first :: tokens).map Seen.token = line.tokens ∧ line.Declares domain key)
      (readForeignKey domain first ⟨tokens, .newLine mark⟩) := by
  unfold readForeignKey
  refine Recognizes.congr (recognizes_readLocalFields.bind (fun found key =>
    found.1 ≠ [] ∧ ∃ foreign, Refers (found.2.2.map Seen.token) foreign ∧
      ∃ table, foreign.table = some table ∧ key = ⟨domain, found.1, table, foreign.fields⟩)
    ?_) fun key => ?_
  · rintro ⟨localFields, keyword, rest⟩ _
    dsimp only
    split
    · rename_i empty
      exact .reject fun _ => by simp [List.isEmpty_iff.mp empty]
    · rename_i filled
      refine Recognizes.congr (recognizes_foldlM_add_start.bind (fun foreign key =>
        ∃ table, foreign.table = some table ∧ key = ⟨domain, localFields, table, foreign.fields⟩)
        fun foreign _ => ?_) fun _ => by simp [List.isEmpty_iff.not.mp filled]
      simp only [Ending.newLine?, Except.ok_bind]
      cases foreign.table with
      | none => exact .reject fun _ => by simp
      | some table => exact (Recognizes.pure _).congr fun _ => by simp
  · constructor
    · rintro ⟨⟨locals, keyword, foreign⟩, split, filled, words, isKeyword, fromTable, fromFields,
        names, aimed⟩
      obtain ⟨locals, others, whole, rfl, hothers⟩ := List.map_eq_append_iff.mp split
      obtain ⟨seen, rest, rfl, rfl, rfl⟩ := List.map_eq_cons_iff.mp hothers
      obtain ⟨source, fields, target, targets⟩ := key
      obtain rfl : source = domain := fromTable
      refine ⟨(fields, seen, rest), ⟨locals, whole, by simpa using words, isKeyword, ?_⟩, ?_,
        ⟨some target, targets⟩, ⟨aimed, names⟩, target, rfl, rfl⟩
      · rw [List.map_map] at fromFields
        exact fromFields
      · rw [show fields = _ from fromFields]
        simpa using filled
    · rintro ⟨⟨localFields, keyword, rest⟩, ⟨locals, split, words, isKeyword, rfl⟩, filled,
        ⟨_, fields⟩, refers, table, ⟨⟩, rfl⟩
      obtain ⟨aimed, names⟩ := refers
      refine ⟨⟨locals.map Seen.token, keyword.token, rest.map Seen.token⟩, ?_, ?_⟩
      · rw [split]
        simp [ForeignKeyLine.tokens]
      · exact ⟨by simpa using filled, by simpa using words, isKeyword, rfl, by simp, names, aimed⟩

end

variable {registered : String → Option Table} {d : Draft} {t : Table} {first : Seen}
  {rest : List Seen}

/-- A line of the foreign keys section on which nothing is a flaw is accepted exactly when it has
the form of a foreign key. Then the key that it declares is recorded behind the others, and nothing
else is changed; otherwise the line is refused for the grammar, at a place, and nothing is
recorded. -/
theorem Draft.readTokens_foreignKeys_iff (inside : d.current = some .foreignKeys)
    (found : d.table = some t) (noComment : first.token.kind ≠ .comment)
    (noHeader : first.token.kind ≠ .header) (mark : Seen) :
    (∀ reading, readTokens registered (.newLine mark) d (first :: rest) = .ok reading ↔
      ∃ (line : ForeignKeyLine) (key : ForeignKey),
        (first :: rest).map Seen.token = line.tokens ∧ line.Declares t.domain key ∧
        reading = .fresh { d with foreignKeys := d.foreignKeys ++ [key] }) ∧
    ((¬∃ (line : ForeignKeyLine) (key : ForeignKey),
        (first :: rest).map Seen.token = line.tokens ∧ line.Declares t.domain key) →
      ∃ problem place, readTokens registered (.newLine mark) d (first :: rest) =
        .error (.grammar problem place)) := by
  have reads : d.readDeclaration registered first ⟨rest, .newLine mark⟩ =
      d.readMember first fun table => do
        let key ← readForeignKey table.domain first ⟨rest, .newLine mark⟩
        return { d with foreignKeys := d.foreignKeys ++ [key] } := by
    rw [readDeclaration, inside]
  have line := recognizes_readTokens noComment noHeader found reads
    (recognizes_readForeignKey.bind _ fun key _ => .pure _)
  constructor
  · intro reading
    rw [line.eq_ok_iff]
    constructor
    · rintro ⟨_, ⟨key, ⟨line, split, declares⟩, rfl⟩, rfl⟩
      exact ⟨line, key, split, declares, rfl⟩
    · rintro ⟨line, key, split, declares, rfl⟩
      exact ⟨_, ⟨key, ⟨line, split, declares⟩, rfl⟩, rfl⟩
  · intro formless
    refine line.eq_error ?_
    rintro _ ⟨_, ⟨key, ⟨line, split, declares⟩, _⟩, _⟩
    exact formless ⟨line, key, split, declares⟩

/-- A draft in its foreign keys section. -/
def referring : Draft :=
  { Draft.start with current := some .foreignKeys, table := some (Table.empty "Book" "BOOK") }

/-- A line on which a class is written in two ways and a field has a dot, with comments between. -/
def authorLine : String := "a b ConstrainsTo /* to */ author.x.y Author.z // two"

/-- A line on which the fields belong to two classes. -/
def mixedLine : String := "a constrainsTo author.x book.y"

/-- What the scanner gives for the first line. -/
def authorEntry : Entry :=
  entryOf 1 authorLine [(.word, "a", 0), (.word, "b", 2), (.word, "ConstrainsTo", 4),
    (.comment, "/* to */", 17), (.word, "author.x.y", 26), (.word, "Author.z", 37),
    (.comment, "// two", 46)]

/-- What the scanner gives for the second line. -/
def mixedEntry : Entry :=
  entryOf 2 mixedLine [(.word, "a", 0), (.word, "constrainsTo", 2), (.word, "author.x", 15),
    (.word, "book.y", 24)]

theorem Draft.readTokens_foreignKeys_iff_authorLine :
    Entry.ofEvents (Scanner.ofText (authorLine ++ "\n" ++ mixedLine)).events =
      [authorEntry, mixedEntry] ∧
    (∃ (line : ForeignKeyLine) (key : ForeignKey),
      authorEntry.tokens.map Seen.token = line.tokens ∧ line.Declares "Book" key ∧
      key = ⟨"Book", ["a", "b"], "Author", ["x.y", "z"]⟩) ∧
    ∃ problem place, readTokens (fun _ => none) mixedEntry.ending referring mixedEntry.tokens =
      .error (.grammar problem place) := by
  have general (first : Seen) (rest : List Seen) (noComment : first.token.kind ≠ .comment)
      (noHeader : first.token.kind ≠ .header) (mark : Seen) :=
    @readTokens_foreignKeys_iff (fun _ => none) referring (Table.empty "Book" "BOOK") first rest rfl
      rfl noComment noHeader mark
  refine ⟨by decide +kernel, ?_, ?_⟩
  · obtain ⟨accepted, _⟩ := general ⟨⟨.word, "a", 1, 0⟩, authorLine.toList⟩ authorEntry.tokens.tail
      (by decide) (by decide) ⟨.lineEnd 1 authorLine.length, authorLine.toList⟩
    obtain ⟨line, key, split, declares, same⟩ := (accepted (.fresh { referring with
      foreignKeys := [⟨"Book", ["a", "b"], "Author", ["x.y", "z"]⟩] })).mp (by decide +kernel)
    cases same
    exact ⟨line, _, split, declares, rfl⟩
  · obtain ⟨accepted, refused⟩ := general ⟨⟨.word, "a", 2, 0⟩, mixedLine.toList⟩
      mixedEntry.tokens.tail (by decide) (by decide)
      ⟨.lineEnd 2 mixedLine.length, mixedLine.toList⟩
    refine refused ?_
    rintro ⟨line, key, split, declares⟩
    have given := (accepted _).mpr ⟨line, key, split, declares, rfl⟩
    have none : (readTokens (fun _ => none) mixedEntry.ending referring mixedEntry.tokens).isOk =
        false := by
      decide +kernel
    cases (congrArg Except.isOk given).symm.trans none

end Definition

end TableSchema
