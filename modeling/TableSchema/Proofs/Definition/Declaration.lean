import TableSchema.Proofs.Token.Written
import TableSchema.Definition.Draft

/-!
Declarations, as they are written and as they are meant.

A declaration is everything that a definition file can say, section by section: the class with the
comments on it, a link, fields, indexes and foreign keys. Its types hold only what may be written:
words, lengths that are small enough, comments of one line. `Declaration.lines` are the tokens that
write it, with keywords and headers in any case; `Declaration.definition` is what it means.
-/

namespace TableSchema

/-- A word that is the given keyword in any case. -/
structure Keyword (keyword : String) where
  word : Word
  same : Text.sameLetters keyword word.text = true

/-- A comment of one line without blanks around it. -/
structure Remark where
  text : String
  trimmed : Text.trim text.toList = text.toList
  oneLine : '\n' ∉ text.toList

/-- A comment as it is written. -/
def Remark.written (r : Remark) : Written := .note (' ' :: r.text.toList)

theorem Remark.trim_written (r : Remark) :
    String.ofList (Text.trim (' ' :: r.text.toList)) = r.text := by
  have same : Text.trim (' ' :: r.text.toList) = Text.trim r.text.toList := rfl
  rw [same, r.trimmed, String.ofList_toList]

namespace Declaration

open Definition (FieldType lengthBound constrainsTo Setting)

/-- A length or a precision. -/
structure Size where
  value : Nat
  small : value < lengthBound

/-- A type with its length. -/
inductive DeclaredType where
  | blob (length : Option Size)
  | boolean
  | date
  | double (length : Size) (precision : Option Size)
  | integer (length : Size)
  | long (length : Size)
  | string (length : Size)
  | timestamp (length : Size)
  | vstring (length : Size)

/-- A flag of a field. -/
inductive Mark where
  | key
  | required
  | sequenceDisabled
  | searchable
  | systemTimestamp
deriving DecidableEq

/-- The type keyword. -/
def DeclaredType.fieldType : DeclaredType → FieldType
  | blob _ => .blob
  | boolean => .boolean
  | date => .date
  | double _ _ => .double
  | integer _ => .integer
  | long _ => .long
  | string _ => .string
  | timestamp _ => .timestamp
  | vstring _ => .vstring

/-- A field. A string that is computed has its expression for a comment. -/
structure Field where
  type : DeclaredType
  keyword : Keyword type.fieldType.keyword
  marks : List Mark
  name : Word
  column : Option Word
  comment : Option Remark
  computed : type.fieldType = .vstring →
    ∃ expression, comment = some expression ∧ expression.text ≠ ""

/-- The name of the column of a field. -/
def Field.columnName (f : Field) : String :=
  match f.column with
  | some column => column.text
  | none => Identifier.capsCase f.name.text

/-- An index over some fields. -/
structure FieldIndex where
  name : Word
  fields : List Field
  filled : fields ≠ []

/-- A foreign key to some fields of one class. -/
structure Reference where
  locals : List Word
  filled : locals ≠ []
  plain : ∀ w ∈ locals, Text.sameLetters w.text constrainsTo = false
  keyword : Keyword constrainsTo
  target : Word
  dotless : '.' ∉ target.text.toList
  fields : List Word
  aimed : fields ≠ []

/-- The two classes that are joined. -/
structure Ends where
  keyword : Keyword Setting.link.keyword
  one : Word
  two : Word

end Declaration

open Declaration in
/-- Everything that a definition file says. -/
structure Declaration where
  headers : (part : Section) → Spelling part.name
  docs : List Remark
  keyword : Keyword Definition.Setting.table.keyword
  className : Word
  tableName : Option Word
  ends : Option Ends
  fields : List Field
  indexes : List FieldIndex
  references : List Reference
  distinct : fields.Pairwise fun f g => f.name.text ≠ g.name.text ∧ f.columnName ≠ g.columnName
  indexNames : (indexes.map fun i => i.name.text).Nodup
  declared : ∀ i ∈ indexes, ∀ f ∈ i.fields, f ∈ fields

namespace Declaration

/-! ## What is written -/

/-- The word that writes a number. -/
def Size.word (n : Size) : Word where
  text := n.value.repr
  filled := by simp
  chars c hc := by
    have digit : c.isDigit = true :=
      Nat.isDigit_of_mem_toDigits (by decide) (by decide) (Nat.toList_repr ▸ hc)
    simp [Lexeme.isWordChar, Char.isAlphanum, digit]

/-- The character of a flag. -/
def Mark.char : Mark → Char
  | key => '!'
  | required => '*'
  | sequenceDisabled => '-'
  | searchable => '?'
  | systemTimestamp => '^'

/-- A flag as it is written. -/
def Mark.written (m : Mark) : Written := .special m.char (by cases m <;> decide)

/-- A length and a precision in parentheses. -/
def bracketed (length : Size) (precision : Option Size) : List Written :=
  .special '(' (by decide) :: .word length.word ::
    (match precision with
      | some precision => [.special ',' (by decide), .word precision.word]
      | none => []) ++
    [.special ')' (by decide)]

/-- The length of a type as it is written. -/
def DeclaredType.lengthLine : DeclaredType → List Written
  | blob none | boolean | date => []
  | blob (some length) | integer length | long length | string length | timestamp length
  | vstring length => bracketed length none
  | double length precision => bracketed length precision

/-- The line of a field. -/
def Field.line (f : Field) : List Written :=
  .word f.keyword.word :: (f.type.lengthLine ++ (f.marks.map Mark.written ++
    .word f.name :: (f.column.toList.map .word ++ f.comment.toList.map Remark.written)))

/-- The line of an index. -/
def FieldIndex.line (i : FieldIndex) : List Written :=
  .word i.name :: i.fields.map fun f => .word f.name

/-- A field behind the class that it belongs to. -/
def qualified (target field : Word) : Word where
  text := target.text ++ "." ++ field.text
  filled := by simp
  chars c hc := by
    rw [String.toList_append, String.toList_append, List.append_assoc] at hc
    rcases List.mem_append.mp hc with hc | hc
    · exact target.chars c hc
    · rcases List.mem_append.mp hc with hc | hc
      · obtain rfl : c = '.' := by simpa using hc
        decide
      · exact field.chars c hc

/-- The line of a foreign key. -/
def Reference.line (k : Reference) : List Written :=
  k.locals.map .word ++ .word k.keyword.word :: k.fields.map fun f => .word (qualified k.target f)

/-- The line of a link. -/
def Ends.line (e : Ends) : List Written := [.word e.keyword.word, .word e.one, .word e.two]

variable (d : Declaration)

/-- The line of a header. -/
def header (part : Section) : List Written := [.header part (d.headers part)]

/-- The line of the class. -/
def classLine : List Written :=
  .word d.keyword.word :: .word d.className :: d.tableName.toList.map .word

/-- The lines of a definition file. -/
def lines : List (List Written) :=
  d.header .settings ::
    (d.docs.map (fun r => [r.written]) ++ d.classLine :: d.ends.toList.map Ends.line) ++
  d.header .fields :: d.fields.map Field.line ++
  d.header .indexes :: d.indexes.map FieldIndex.line ++
  d.header .foreignKeys :: d.references.map Reference.line

/-! ## What is meant -/

/-- The length and the precision of a type. -/
def DeclaredType.length : DeclaredType → Definition.Length
  | blob length => ⟨length.map Size.value, none⟩
  | boolean | date => .absent
  | double length precision => ⟨some length.value, precision.map Size.value⟩
  | integer length | long length | string length | timestamp length | vstring length =>
    ⟨some length.value, none⟩

/-- The storage of a field. -/
def Field.storage (f : Field) : Storage :=
  match f.type with
  | .blob length => .blob (length.map Size.value)
  | .boolean => .bounded 1
  | .date => .plain
  | .double length precision => .decimal length.value (precision.map Size.value)
  | .integer length | .long length | .string length | .timestamp length => .bounded length.value
  | .vstring length => .computed length.value ((f.comment.map Remark.text).getD "")

/-- The flags of a field. A key is required. -/
def Field.flags (f : Field) : Flags where
  required := f.marks.contains .required || f.marks.contains .key
  key := f.marks.contains .key
  sequenceDisabled := f.marks.contains .sequenceDisabled
  searchable := f.marks.contains .searchable
  systemTimestamp := f.marks.contains .systemTimestamp

/-- The column of a field in the table of a class. The comment on a string that is computed has gone
into its storage. -/
def Field.toColumn (domain : String) (f : Field) : Column where
  storage := f.storage
  type := f.type.fieldType.valueType
  fieldName := f.name.text
  columnName := f.columnName
  comment := if f.type.fieldType = .vstring then none else f.comment.map Remark.text
  flags := f.flags
  table := domain
  linkGenerated := false

/-- The index over the columns of its fields. -/
def FieldIndex.toIndex (i : FieldIndex) : Index :=
  ⟨i.name.text, i.fields.map fun f => ⟨f.name.text, f.columnName⟩⟩

/-- The foreign key that leaves a class. -/
def Reference.toForeignKey (domain : String) (k : Reference) : ForeignKey where
  fromTable := domain
  fromFields := k.locals.map Word.text
  toTable := Identifier.titleCase k.target.text
  toFields := k.fields.map Word.text

/-- The class of a declaration. -/
def domain : String := Identifier.titleCase d.className.text

/-- The name of the table. -/
def tableText : String :=
  match d.tableName with
  | some name => name.text
  | none => Identifier.capsCase d.domain

/-- The comments on the class, one below the other. -/
def comment : Option String :=
  if d.docs = [] then none else some ("\n".intercalate (d.docs.map Remark.text))

/-- The table before it is set up. -/
def declaredTable : Table where
  domain := d.domain
  name := d.tableText
  comment := d.comment
  columns := d.fields.map (Field.toColumn d.domain)
  indexes := d.indexes.map FieldIndex.toIndex
  foreignKeys := []
  searchFields := []
  manyToMany := d.ends.isSome
  endpoints := none

/-- The link between the two classes that are joined. -/
def link : Option Link :=
  d.ends.map fun e => ⟨d.domain, Identifier.titleCase e.one.text, Identifier.titleCase e.two.text⟩

/-- The definition that is declared. -/
def definition : Definition where
  table := d.declaredTable.setup
  link := d.link
  foreignKeys := d.references.map (Reference.toForeignKey d.domain)

end Declaration

end TableSchema
