import TableSchema.Proofs.Definition.FieldLength
import TableSchema.Proofs.Definition.WrittenLines
import TableSchema.Proofs.Table.Columns

/-!
The form of a field line.

What a field line looks like and what it means is said here without a reader: the keyword of a type
with the length that may follow it, and how the values of the column are stored then
(`FieldLine.Typed`); behind it flags, comments, a field name and perhaps a column name, in any order
(`FieldLine.HasForm`); and the column that all this declares (`FieldLine.Declares`). The readers are
then shown to recognize the line (`recognizes_readField`). The parts behind the length are followed
token by token from the front, and what has been read always is what the tokens so far say
(`recognizes_addPart`). In a file a line is therefore accepted exactly if it declares a column whose
names are free, and that is the column that it adds (`Draft.readTokens_fields_iff`).
-/

namespace TableSchema.Definition

/-! ## The parts after the length -/

/-- Whether a token is a flag. -/
def isFlag (t : Token) : Bool := "!*-?^".toList.any t.isSpecial

/-- The marks whose characters occur among tokens. A key is required. -/
def flagsIn (tokens : List Token) : Flags where
  required := tokens.any fun t => t.isSpecial '*' || t.isSpecial '!'
  key := tokens.any (·.isSpecial '!')
  sequenceDisabled := tokens.any (·.isSpecial '-')
  searchable := tokens.any (·.isSpecial '?')
  systemTimestamp := tokens.any (·.isSpecial '^')

/-- The text of the last comment among tokens. -/
def lastComment (tokens : List Token) : Option String :=
  (tokens.filter Token.isComment).getLast?.map Token.commentBody

/-- The tokens may stand behind the length of a field: flags, comments, and no more than a field
name and a column name. -/
structure Legible (tokens : List Token) : Prop where
  kinds : ∀ t ∈ tokens, t.isWord = true ∨ t.isComment = true ∨ isFlag t = true
  names : (tokens.filter Token.isWord).length ≤ 2

/-- What tokens behind the length of a field say. -/
def partsOf (tokens : List Token) : FieldParts where
  flags := flagsIn tokens
  name := (tokens.filter Token.isWord)[0]?
  columnName := (tokens.filter Token.isWord)[1]?.map Token.text
  comment := lastComment tokens

section

variable {tokens : List Token} {t : Token} {c : Char}

theorem flagsIn_snoc_of_special? (special : t.special? = none) :
    flagsIn (tokens ++ [t]) = flagsIn tokens := by
  simp [flagsIn, Token.isSpecial, special]

/-- A character that is a flag adds its mark. -/
theorem mark?_flagsIn (special : t.special? = some c) :
    (flagsIn tokens).mark? c = if isFlag t then some (flagsIn (tokens ++ [t])) else none := by
  have same (d : Char) : t.isSpecial d = (c == d) := by simp [Token.isSpecial, special]
  unfold Flags.mark?
  split
  all_goals simp_all [flagsIn, isFlag, Flags.setKey]

theorem partsOf_nil : partsOf [] = .start := rfl

theorem legible_nil : Legible [] := ⟨by simp, by simp⟩

theorem legible_snoc_iff :
    Legible (tokens ++ [t]) ↔ Legible tokens ∧
      (t.isWord = true ∨ t.isComment = true ∨ isFlag t = true) ∧
      (t.isWord = true → (tokens.filter Token.isWord).length ≤ 1) := by
  constructor
  · rintro ⟨kinds, names⟩
    rw [List.filter_append, List.length_append] at names
    refine ⟨⟨fun s hs => kinds s (by simp [hs]), by omega⟩, kinds t (by simp), fun isWord => ?_⟩
    simpa [isWord] using names
  · rintro ⟨legible, kind, few⟩
    constructor
    · intro s hs
      rcases List.mem_append.mp hs with before | new
      · exact legible.kinds s before
      · exact List.mem_singleton.mp new ▸ kind
    · cases isWord : t.isWord with
      | false => simpa [List.filter_append, isWord] using legible.names
      | true => simpa [List.filter_append, isWord] using few isWord

/-- One more token adds to what the tokens before it say. -/
theorem recognizes_addPart {seen : Seen} (legible : Legible tokens) :
    Recognizes (fun after => Legible (tokens ++ [seen.token]) ∧
        after = partsOf (tokens ++ [seen.token]))
      ((partsOf tokens).add seen) := by
  obtain ⟨t, line⟩ := seen
  simp only [legible_snoc_iff, legible, true_and]
  unfold FieldParts.add
  dsimp only
  split
  · rename_i special
    have noWord : t.isWord = false := by simp [Token.isWord, special]
    have noComment : t.isComment = false := by simp [Token.isComment, special]
    cases found : t.special? with
    | none =>
      have noFlag : isFlag t = false := by simp [isFlag, Token.isSpecial, found]
      exact .reject fun _ => by simp [noWord, noComment, noFlag]
    | some c =>
      rw [Option.bind_some, show (partsOf tokens).flags = flagsIn tokens from rfl,
        mark?_flagsIn found]
      cases isFlag t with
      | false => exact .reject fun _ => by simp [noWord, noComment]
      | true =>
        refine (Recognizes.pure _).congr fun _ => ?_
        simp [partsOf, lastComment, List.filter_append, noWord, noComment]
  · rename_i comment
    have noWord : t.isWord = false := by simp [Token.isWord, comment]
    have isComment : t.isComment = true := by simp [Token.isComment, comment]
    have plain : t.special? = none := by simp [Token.special?, comment]
    refine (Recognizes.pure _).congr fun _ => ?_
    simp [partsOf, lastComment, List.filter_append, noWord, isComment,
      flagsIn_snoc_of_special? plain]
  · rename_i word
    have isWord : t.isWord = true := by simp [Token.isWord, word]
    have noComment : t.isComment = false := by simp [Token.isComment, word]
    have plain : t.special? = none := by simp [Token.special?, word]
    have names := legible.names
    rcases words : tokens.filter Token.isWord with _ | ⟨name, _ | ⟨column, _ | ⟨_, _⟩⟩⟩
    all_goals simp only [partsOf, words]
    · refine (Recognizes.pure _).congr fun _ => ?_
      simp [lastComment, List.filter_append, isWord, noComment, words,
        flagsIn_snoc_of_special? plain]
    · refine (Recognizes.pure _).congr fun _ => ?_
      simp [lastComment, List.filter_append, isWord, noComment, words,
        flagsIn_snoc_of_special? plain]
    · exact .reject fun _ => by simp [isWord, words]
    · simp [words] at names
  · rename_i noSpecial noComment noWord
    refine .reject fun _ => ?_
    simp_all [Token.isWord, Token.isComment, isFlag, Token.isSpecial, Token.special?]

/-- The parts are read token by token. -/
theorem recognizes_foldlM_addPart (tokens : List Seen) :
    Recognizes (fun parts => Legible (tokens.map Seen.token) ∧
        parts = partsOf (tokens.map Seen.token))
      (tokens.foldlM FieldParts.add .start) := by
  induction tokens using List.reverseRecOn with
  | nil => exact (Recognizes.pure _).congr fun _ => by simp [legible_nil, partsOf_nil]
  | append_singleton tokens seen ih =>
    rw [List.foldlM_append, List.map_append, List.map_singleton]
    refine Recognizes.congr (ih.bind (fun _ after =>
      Legible (tokens.map Seen.token ++ [seen.token]) ∧
      after = partsOf (tokens.map Seen.token ++ [seen.token])) ?_) fun after => ?_
    · rintro _ ⟨legible, rfl⟩
      simp only [List.foldlM_cons, List.foldlM_nil, bind_pure]
      exact recognizes_addPart legible
    · constructor
      · rintro ⟨legible, rfl⟩
        exact ⟨_, ⟨(legible_snoc_iff.mp legible).1, rfl⟩, legible, rfl⟩
      · rintro ⟨_, _, legible, rfl⟩
        exact ⟨legible, rfl⟩

end

/-! ## Types -/

/-- A word is at most one of the type keywords. -/
theorem FieldType.ofKeyword?_eq_some_iff {word : String} {type : FieldType} :
    ofKeyword? word = some type ↔ Text.sameLetters type.keyword word = true := by
  constructor
  · intro found
    have same := List.find?_some found
    exact same
  · intro same
    rw [Text.sameLetters, beq_iff_eq] at same
    unfold ofKeyword? Text.sameLetters
    rw [← same]
    cases type <;> decide

/-! ## Lines -/

/-- The tokens of a field line, part by part. -/
structure FieldLine where
  keyword : Token
  bracket : List Token
  parts : List Token

namespace FieldLine

/-- The type of a field with this keyword, with these tokens behind it for a length, where `comment`
is the last comment of the line: what the values are, how they are stored, and the comment that the
column is left with. -/
inductive Typed : String → List Token → Option String → ValueType → Storage → Option String → Prop
  | date {comment : Option String} : Typed "DATE" [] comment .date .plain comment
  | boolean {comment : Option String} : Typed "BOOLEAN" [] comment .boolean (.bounded 1) comment
  | blob {comment : Option String} : Typed "BLOB" [] comment .blob (.blob none) comment
  | blobSized {bracket : List Token} {comment : Option String} {n : Nat} : Sized bracket n →
      Typed "BLOB" bracket comment .blob (.blob (some n)) comment
  | double {bracket : List Token} {comment : Option String} {n : Nat} : Sized bracket n →
      Typed "DOUBLE" bracket comment .double (.decimal n none) comment
  | doublePrecise {bracket : List Token} {comment : Option String} {n p : Nat} :
      Precise bracket n p → Typed "DOUBLE" bracket comment .double (.decimal n (some p)) comment
  | integer {bracket : List Token} {comment : Option String} {n : Nat} : Sized bracket n →
      Typed "INTEGER" bracket comment .integer (.bounded n) comment
  | long {bracket : List Token} {comment : Option String} {n : Nat} : Sized bracket n →
      Typed "LONG" bracket comment .long (.bounded n) comment
  | string {bracket : List Token} {comment : Option String} {n : Nat} : Sized bracket n →
      Typed "STRING" bracket comment .string (.bounded n) comment
  | timestamp {bracket : List Token} {comment : Option String} {n : Nat} : Sized bracket n →
      Typed "TIMESTAMP" bracket comment .timestamp (.bounded n) comment
  | vstring {bracket : List Token} {expression : String} {n : Nat} : Sized bracket n →
      expression ≠ "" →
      Typed "VSTRING" bracket (some expression) .string (.computed n expression) none

/-- The types of fields are those of the keywords, each with its rule for the length. -/
theorem typed_iff {keyword : String} {bracket : List Token} {comment left : Option String}
    {valueType : ValueType} {storage : Storage} :
    Typed keyword bracket comment valueType storage left ↔
      ∃ type : FieldType, type.keyword = keyword ∧ type.valueType = valueType ∧
        ∃ length, type.lengthRule.Takes bracket length ∧
          type.storage? length comment = some (storage, left) := by
  constructor
  · intro typed
    cases typed with
    | date => exact ⟨.date, rfl, rfl, _, takes_forbidden_iff.mpr ⟨rfl, rfl⟩, rfl⟩
    | boolean => exact ⟨.boolean, rfl, rfl, _, takes_forbidden_iff.mpr ⟨rfl, rfl⟩, rfl⟩
    | blob => exact ⟨.blob, rfl, rfl, _, takes_optional_iff.mpr (.inl ⟨rfl, rfl⟩), rfl⟩
    | blobSized sized =>
      exact ⟨.blob, rfl, rfl, _, takes_optional_iff.mpr (.inr ⟨_, sized, rfl⟩), rfl⟩
    | double sized =>
      exact ⟨.double, rfl, rfl, _, takes_withPrecision_iff.mpr (.inl ⟨_, sized, rfl⟩), rfl⟩
    | doublePrecise precise =>
      exact ⟨.double, rfl, rfl, _, takes_withPrecision_iff.mpr (.inr ⟨_, _, precise, rfl⟩), rfl⟩
    | integer sized => exact ⟨.integer, rfl, rfl, _, takes_required_iff.mpr ⟨_, sized, rfl⟩, rfl⟩
    | long sized => exact ⟨.long, rfl, rfl, _, takes_required_iff.mpr ⟨_, sized, rfl⟩, rfl⟩
    | string sized => exact ⟨.string, rfl, rfl, _, takes_required_iff.mpr ⟨_, sized, rfl⟩, rfl⟩
    | timestamp sized =>
      exact ⟨.timestamp, rfl, rfl, _, takes_required_iff.mpr ⟨_, sized, rfl⟩, rfl⟩
    | vstring sized filled =>
      exact ⟨.vstring, rfl, rfl, _, takes_required_iff.mpr ⟨_, sized, rfl⟩,
        by simp [FieldType.storage?, filled]⟩
  · rintro ⟨type, rfl, rfl, length, takes, stored⟩
    cases type with
    | date =>
      obtain ⟨rfl, rfl⟩ := takes_forbidden_iff.mp takes
      cases stored
      exact .date
    | boolean =>
      obtain ⟨rfl, rfl⟩ := takes_forbidden_iff.mp takes
      cases stored
      exact .boolean
    | blob =>
      obtain ⟨rfl, rfl⟩ | ⟨n, sized, rfl⟩ := takes_optional_iff.mp takes
      · cases stored
        exact .blob
      · cases stored
        exact .blobSized sized
    | double =>
      obtain ⟨n, sized, rfl⟩ | ⟨n, p, precise, rfl⟩ := takes_withPrecision_iff.mp takes
      · cases stored
        exact .double sized
      · cases stored
        exact .doublePrecise precise
    | integer =>
      obtain ⟨n, sized, rfl⟩ := takes_required_iff.mp takes
      cases stored
      exact .integer sized
    | long =>
      obtain ⟨n, sized, rfl⟩ := takes_required_iff.mp takes
      cases stored
      exact .long sized
    | string =>
      obtain ⟨n, sized, rfl⟩ := takes_required_iff.mp takes
      cases stored
      exact .string sized
    | timestamp =>
      obtain ⟨n, sized, rfl⟩ := takes_required_iff.mp takes
      cases stored
      exact .timestamp sized
    | vstring =>
      obtain ⟨n, sized, rfl⟩ := takes_required_iff.mp takes
      simp only [FieldType.storage?] at stored
      split at stored
      · cases stored
      · split at stored
        · cases stored
        · rename_i filled
          cases stored
          exact .vstring sized filled

/-- The tokens, one after the other. -/
def tokens (line : FieldLine) : List Token := line.keyword :: (line.bracket ++ line.parts)

/-- The line has the form of a field behind its type: flags, comments, a field name and perhaps a
column name behind it. -/
structure HasForm (line : FieldLine) (name : Token) (columnName : Option Token) : Prop where
  kinds : ∀ t ∈ line.parts, t.isWord = true ∨ t.isComment = true ∨ isFlag t = true
  names : line.parts.filter Token.isWord = name :: columnName.toList

/-- The line declares the column `c` of the class `domain`. -/
structure Declares (line : FieldLine) (domain : String) (c : Column) : Prop where
  typed : ∃ keyword, line.keyword.isKeyword keyword = true ∧
    Typed keyword line.bracket (lastComment line.parts) c.type c.storage c.comment
  named : ∃ name columnName, line.HasForm name columnName ∧ c.fieldName = name.text ∧
    c.columnName = (columnName.map Token.text).getD (Identifier.capsCase name.text)
  flags : c.flags = flagsIn line.parts
  table : c.table = domain
  own : c.linkGenerated = false

end FieldLine

section

variable {tokens : List Seen} {mark first : Seen} {t u : Table} {c : Column}

/-- No part behind the length begins with a parenthesis. -/
theorem isSpecial_of_part {t : Token}
    (kind : t.isWord = true ∨ t.isComment = true ∨ isFlag t = true) : t.isSpecial '(' = false := by
  rcases kind with word | comment | flag
  · simp_all [Token.isWord, Token.isSpecial, Token.special?]
  · simp_all [Token.isComment, Token.isSpecial, Token.special?]
  · by_contra opens
    simp_all [isFlag, Token.isSpecial]

/-- The names on a legible line are a field name and perhaps a column name. -/
theorem Legible.names_iff {tokens : List Token} (legible : Legible tokens) {name : Token}
    {columnName : Option Token} :
    tokens.filter Token.isWord = name :: columnName.toList ↔
      (tokens.filter Token.isWord)[0]? = some name ∧
      (tokens.filter Token.isWord)[1]? = columnName := by
  have names := legible.names
  generalize tokens.filter Token.isWord = words at names ⊢
  rcases words with _ | ⟨a, _ | ⟨b, _ | _⟩⟩
  · simp
  · cases columnName <;> simp
  · cases columnName <;> simp
  · simp at names

/-- The column that the parts of a line make. -/
def FieldParts.column (parts : FieldParts) (type : FieldType) (name : Token) (storage : Storage)
    (comment : Option String) (domain : String) : Column where
  storage := storage
  type := type.valueType
  fieldName := name.text
  columnName := parts.columnName.getD (Identifier.capsCase name.text)
  comment := comment
  flags := parts.flags
  table := domain
  linkGenerated := false

/-- What a field line declares, as it is read. -/
theorem declares_iff {domain : String} :
    (∃ line : FieldLine, (first :: tokens).map Seen.token = line.tokens ∧ line.Declares domain c) ↔
      first.token.isWord = true ∧ ∃ type length back parts name,
        FieldType.ofKeyword? first.token.text = some type ∧
        LengthFirst type.lengthRule tokens length back ∧ Legible (back.map Seen.token) ∧
        parts = partsOf (back.map Seen.token) ∧ parts.name = some name ∧
        type.storage? length parts.comment = some (c.storage, c.comment) ∧
        c = parts.column type name c.storage c.comment domain := by
  constructor
  · rintro ⟨⟨keyword, bracket, parts⟩, split, ⟨_, isKeyword, typed⟩,
      ⟨name, columnName, ⟨kinds, names⟩, fieldName, column⟩, flags, table, own⟩
    obtain ⟨type, rfl, valueType, length, takes, stored⟩ := FieldLine.typed_iff.mp typed
    obtain ⟨rfl, split⟩ := List.cons.inj split
    obtain ⟨front, back, rfl, rfl, rfl⟩ := List.map_eq_append_iff.mp split
    dsimp only at isKeyword takes kinds names stored column flags
    have legible : Legible (back.map Seen.token) := by
      refine ⟨kinds, ?_⟩
      rw [names]
      cases columnName <;> simp
    obtain ⟨isName, isColumn⟩ := legible.names_iff.mp names
    rw [Token.isKeyword, Bool.and_eq_true] at isKeyword
    refine ⟨isKeyword.1, type, length, back, _, name, ?_, ⟨front, rfl, takes, ?_⟩, legible, rfl,
      isName, stored, ?_⟩
    · rw [FieldType.ofKeyword?_eq_some_iff, sameLetters_comm]
      exact isKeyword.2
    · rintro rfl seen hseen
      exact isSpecial_of_part (kinds _ (List.mem_map_of_mem (List.mem_of_mem_head? hseen)))
    · obtain ⟨storage, cType, cField, cColumn, comment, cFlags, cTable, cOwn⟩ := c
      subst valueType fieldName flags table own column
      simp only [FieldParts.column, partsOf, isColumn]
  · rintro ⟨isWord, type, length, back, _, name, isKeyword, ⟨front, rfl, takes, _⟩, legible, rfl,
      isName, stored, same⟩
    refine ⟨⟨first.token, front.map Seen.token, back.map Seen.token⟩, by simp [FieldLine.tokens],
      ⟨type.keyword, ?_, FieldLine.typed_iff.mpr ⟨type, rfl, ?_, length, takes, stored⟩⟩,
      ⟨name, _, ⟨legible.kinds, legible.names_iff.mpr ⟨isName, rfl⟩⟩, ?_, ?_⟩, ?_, ?_, ?_⟩
    · rw [Token.isKeyword, sameLetters_comm]
      exact Bool.and_eq_true_iff.mpr ⟨isWord, FieldType.ofKeyword?_eq_some_iff.mp isKeyword⟩
    all_goals rw [same]
    all_goals rfl

/-- A field line is recognized by its form, if the names of its column are free. -/
theorem recognizes_readField (ends : mark.token.kind = .newLine) :
    Recognizes (fun u => ∃ c, (∃ line : FieldLine, (first :: tokens).map Seen.token = line.tokens ∧
        line.Declares t.domain c) ∧ t.addColumn c = .ok u)
      (readField t first ⟨tokens, .newLine mark⟩) := by
  simp only [declares_iff]
  unfold readField
  cases isWord : first.token.isWord with
  | false => exact .reject fun _ => by simp
  | true =>
    cases keyword : FieldType.ofKeyword? first.token.text with
    | none => exact .reject fun _ => by simp
    | some type =>
      refine Recognizes.congr ((recognizes_readTypeLength ends type).bind (fun length u =>
        ∃ parts, (Legible (length.2.tokens.map Seen.token) ∧
          parts = partsOf (length.2.tokens.map Seen.token)) ∧
        ∃ name storage comment, parts.name = some name ∧
          type.storage? length.1 parts.comment = some (storage, comment) ∧
          t.addColumn (parts.column type name storage comment t.domain) = .ok u) ?_) fun u => ?_
      · rintro ⟨length, _⟩ ⟨back, _, ⟨⟩⟩
        refine Recognizes.bind (recognizes_foldlM_addPart _) _ fun parts _ => ?_
        simp only [Ending.newLine?, Except.ok_bind]
        cases parts.name with
        | none => exact .reject fun _ => by simp
        | some name =>
          cases stored : type.storage? length parts.comment with
          | none => exact .refuse fun _ => by simp
          | some given =>
            obtain ⟨storage, comment⟩ := given
            dsimp only
            simp only [FieldParts.column]
            cases added : t.addColumn _ with
            | error clash => exact .refuse fun _ => by simp [added]
            | ok u => exact (Recognizes.pure _).congr fun _ => by simp [added, eq_comm]
      · constructor
        · rintro ⟨c, ⟨_, _, length, back, _, name, ⟨⟩, first, legible, rfl, isName, stored, same⟩,
            added⟩
          exact ⟨(length, ⟨back, _⟩), ⟨back, first, rfl⟩, _, ⟨legible, rfl⟩, name, c.storage,
            c.comment, isName, stored, same ▸ added⟩
        · rintro ⟨⟨length, _⟩, ⟨back, first, ⟨⟩⟩, _, ⟨legible, rfl⟩, name, storage, comment, isName,
            stored, added⟩
          exact ⟨_, ⟨rfl, type, length, back, _, name, rfl, first, legible, rfl, isName, stored,
            rfl⟩, added⟩

end

variable {registered : String → Option Table} {d : Draft} {t : Table} {first : Seen}
  {rest : List Seen} {mark : Seen}

/-- A line of the fields section on which nothing is a flaw is accepted exactly when it has the form
of a field and the names of its column are free. Then the column that it declares is added behind
the others, and nothing else is changed; otherwise the line is refused for the grammar, at a
place. -/
theorem Draft.readTokens_fields_iff (inside : d.current = some .fields) (found : d.table = some t)
    (noComment : first.token.kind ≠ .comment) (noHeader : first.token.kind ≠ .header)
    (ends : mark.token.kind = .newLine) :
    (∀ reading, readTokens registered (.newLine mark) d (first :: rest) = .ok reading ↔
      ∃ (line : FieldLine) (c : Column),
        (first :: rest).map Seen.token = line.tokens ∧ line.Declares t.domain c ∧
        (∀ a ∈ t.columns, a.Apart c) ∧
        reading = .fresh { d with table := some { t with columns := t.columns ++ [c] } }) ∧
    ((¬∃ (line : FieldLine) (c : Column),
        (first :: rest).map Seen.token = line.tokens ∧ line.Declares t.domain c ∧
        ∀ a ∈ t.columns, a.Apart c) →
      ∃ problem place, readTokens registered (.newLine mark) d (first :: rest) =
        .error (.grammar problem place)) := by
  have reads : d.readDeclaration registered first ⟨rest, .newLine mark⟩ =
      d.readMember first fun table => do
        let table ← readField table first ⟨rest, .newLine mark⟩
        return { d with table := some table } := by
    rw [readDeclaration, inside]
  have line := recognizes_readTokens noComment noHeader found reads
    ((recognizes_readField ends).bind _ fun table _ => .pure _)
  simp only [Table.addColumn_eq_ok] at line
  constructor
  · intro reading
    rw [line.eq_ok_iff]
    constructor
    · rintro ⟨_, ⟨u, ⟨c, ⟨line, split, declares⟩, free, rfl⟩, rfl⟩, rfl⟩
      exact ⟨line, c, split, declares, free, rfl⟩
    · rintro ⟨line, c, split, declares, free, rfl⟩
      exact ⟨_, ⟨_, ⟨c, ⟨line, split, declares⟩, free, rfl⟩, rfl⟩, rfl⟩
  · intro formless
    refine line.eq_error ?_
    rintro _ ⟨_, ⟨u, ⟨c, ⟨line, split, declares⟩, free, _⟩, _⟩, _⟩
    exact formless ⟨line, c, split, declares, free⟩

/-- A table with these columns, in the fields section of its file. -/
def fielding (columns : List Column) : Draft :=
  { Draft.start with
    current := some .fields
    table := some { Table.empty "Person" "PERSON" with columns := columns } }

/-- A line with a flag given twice, a column name and two comments, of which the last counts. -/
def fullLine : String := "vString(80) ?full! FULL_NAME ? /* computed */ // first || last"

/-- A line whose field name is taken by the line before. -/
def takenLine : String := "DOUBLE(8,2) full"

/-- What the scanner gives for the first line. -/
def fullEntry : Entry :=
  entryOf 1 fullLine [(.word, "vString", 0), (.special, "(", 7), (.word, "80", 8),
    (.special, ")", 10), (.special, "?", 12), (.word, "full", 13), (.special, "!", 17),
    (.word, "FULL_NAME", 19), (.special, "?", 29), (.comment, "/* computed */", 31),
    (.comment, "// first || last", 46)]

/-- What the scanner gives for the second line. -/
def takenEntry : Entry :=
  entryOf 2 takenLine [(.word, "DOUBLE", 0), (.special, "(", 6), (.word, "8", 7),
    (.special, ",", 8), (.word, "2", 9), (.special, ")", 10), (.word, "full", 12)]

/-- The column that the line declares. -/
def fullColumn : Column where
  storage := .computed 80 "first || last"
  type := .string
  fieldName := "full"
  columnName := "FULL_NAME"
  comment := none
  flags := ⟨true, true, false, true, false⟩
  table := "Person"
  linkGenerated := false

/-- Lines of types that take no length, may have one, and take a precision. -/
def plainLines : String :=
  "DATE born\nblob photo\nBlob(16) scan // raw\ndouble(8,2) price\nDOUBLE(5)rate"

/-- What the scanner gives for these lines. -/
def plainEntries : List Entry :=
  [entryOf 1 "DATE born" [(.word, "DATE", 0), (.word, "born", 5)],
    entryOf 2 "blob photo" [(.word, "blob", 0), (.word, "photo", 5)],
    entryOf 3 "Blob(16) scan // raw" [(.word, "Blob", 0), (.special, "(", 4), (.word, "16", 5),
      (.special, ")", 7), (.word, "scan", 9), (.comment, "// raw", 14)],
    entryOf 4 "double(8,2) price" [(.word, "double", 0), (.special, "(", 6), (.word, "8", 7),
      (.special, ",", 8), (.word, "2", 9), (.special, ")", 10), (.word, "price", 12)],
    entryOf 5 "DOUBLE(5)rate" [(.word, "DOUBLE", 0), (.special, "(", 6), (.word, "5", 7),
      (.special, ")", 8), (.word, "rate", 9)]]

/-- The columns that the lines declare. -/
def plainColumns : List Column :=
  [⟨.plain, .date, "born", "BORN", none, .none, "Person", false⟩,
    ⟨.blob none, .blob, "photo", "PHOTO", none, .none, "Person", false⟩,
    ⟨.blob (some 16), .blob, "scan", "SCAN", some "raw", .none, "Person", false⟩,
    ⟨.decimal 8 (some 2), .double, "price", "PRICE", none, .none, "Person", false⟩,
    ⟨.decimal 5 none, .double, "rate", "RATE", none, .none, "Person", false⟩]

theorem Draft.readTokens_fields_iff_fullLine :
    Entry.ofEvents (Scanner.ofText (fullLine ++ "\n" ++ takenLine)).events =
      [fullEntry, takenEntry] ∧
    (∃ line : FieldLine, fullEntry.tokens.map Seen.token = line.tokens ∧
      line.Declares "Person" fullColumn) ∧
    (∃ problem place, readTokens (fun _ => none) takenEntry.ending (fielding [fullColumn])
      takenEntry.tokens = .error (.grammar problem place)) ∧
    Entry.ofEvents (Scanner.ofText plainLines).events = plainEntries ∧
    ∀ read ∈ plainEntries.zip plainColumns, ∃ line : FieldLine,
      read.1.tokens.map Seen.token = line.tokens ∧ line.Declares "Person" read.2 := by
  have general (columns : List Column) (first : Seen) (rest : List Seen)
      (noComment : first.token.kind ≠ .comment) (noHeader : first.token.kind ≠ .header)
      (mark : Seen) (ends : mark.token.kind = .newLine) :=
    @readTokens_fields_iff (fun _ => none) (fielding columns) _ first rest mark rfl rfl noComment
      noHeader ends
  have declared {row : Nat} {text : String} {first : Token.Kind × String × Nat}
      {rest : List (Token.Kind × String × Nat)} {c : Column}
      (plain : first.1 ≠ .comment ∧ first.1 ≠ .header)
      (read : readTokens (fun _ => none) (entryOf row text (first :: rest)).ending (fielding [])
        (entryOf row text (first :: rest)).tokens = .ok (.fresh (fielding [c]))) :
      ∃ line : FieldLine, (entryOf row text (first :: rest)).tokens.map Seen.token = line.tokens ∧
        line.Declares "Person" c := by
    obtain ⟨accepted, _⟩ := general [] ⟨⟨first.1, first.2.1, row, first.2.2⟩, text.toList⟩ _
      plain.1 plain.2 ⟨.lineEnd row text.length, text.toList⟩ rfl
    obtain ⟨line, c', split, declares, _, same⟩ := (accepted _).mp read
    cases same
    exact ⟨line, split, declares⟩
  refine ⟨by decide +kernel, declared (by decide) (by decide +kernel), ?_, by decide +kernel, ?_⟩
  · obtain ⟨accepted, refused⟩ := general [fullColumn] ⟨⟨.word, "DOUBLE", 2, 0⟩, takenLine.toList⟩
      takenEntry.tokens.tail (by decide) (by decide)
      ⟨.lineEnd 2 takenLine.length, takenLine.toList⟩ rfl
    refine refused ?_
    rintro ⟨line, c, split, declares, free⟩
    have given := (accepted _).mpr ⟨line, c, split, declares, free, rfl⟩
    have none : (readTokens (fun _ => none) takenEntry.ending (fielding [fullColumn])
        takenEntry.tokens).isOk = false := by
      decide +kernel
    cases (congrArg Except.isOk given).symm.trans none
  · simp only [plainEntries, plainColumns, List.zip_cons_cons, List.zip_nil_left,
      List.forall_mem_cons, List.not_mem_nil, false_imp_iff, implies_true, and_true]
    exact ⟨declared (by decide) (by decide +kernel), declared (by decide) (by decide +kernel),
      declared (by decide) (by decide +kernel), declared (by decide) (by decide +kernel),
      declared (by decide) (by decide +kernel)⟩

end TableSchema.Definition
