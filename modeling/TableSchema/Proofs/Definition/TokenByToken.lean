import TableSchema.Definition.Draft
import TableSchema.Proofs.Outcome

/-!
Reading a line token by token.

A reader that has no line in front of it has to ask for each token. Between two tokens of a
declaration it stands at a control point (`Control`), which says what has been read so far and what
is expected next, and it goes on with one token at a time (`Control.receive`). At the end of a line
it comes to the end of the declaration, or fails, wherever it stands, and it comes to the end of a
declaration nowhere else. It takes no header, and stays in its section (`Control.settled_receive`).
-/

namespace TableSchema.Definition

/-- Where the reader of a declaration stands when it asks for a further token of the line. -/
inductive Control where
  /-- Behind the keyword of a class line: the name of the class. -/
  | className
  /-- Behind the name of the class: the name of the table, or the end of the line. -/
  | tableName (domain : String)
  /-- Behind all that a settings line declares: a comment, or the end of the line. -/
  | settingEnd (setting : Setting)
  /-- Behind the comment of a settings line: the end of the line. -/
  | commentEnd (setting : Setting)
  /-- Behind the keyword of a link line: the first class. -/
  | firstLinked (table : Table)
  /-- Behind the first class of a link line: the second class. -/
  | secondLinked (table : Table) (one : String)
  /-- Behind the type of a field: an opening parenthesis, or a part of the field. -/
  | typeLength (table : Table) (type : FieldType)
  /-- Behind the opening parenthesis: the length. -/
  | number (table : Table) (type : FieldType) (withPrecision : Bool)
  /-- Behind a length that a precision may follow: a comma, or the closing parenthesis. -/
  | comma (table : Table) (type : FieldType) (size : Nat)
  /-- Behind the comma: the precision. -/
  | precision (table : Table) (type : FieldType) (size : Nat)
  /-- Behind the last number: the closing parenthesis. -/
  | close (table : Table) (type : FieldType) (length : Length)
  /-- Within the parts of a field: a further one, or the end of the line. -/
  | fieldPart (table : Table) (type : FieldType) (length : Length) (parts : FieldParts)
  /-- Within the fields of an index: a further one, or the end of the line. -/
  | indexField (table : Table) (first : Seen) (index : Index)
  /-- Within the local fields of a foreign key: a further one, or the keyword. -/
  | localField (table : Table) (fields : List String)
  /-- Within the foreign fields of a foreign key: a further one, or the end of the line. -/
  | foreignField (table : Table) (fields : List String) (foreign : ForeignFields)
deriving DecidableEq, Repr

/-- Where the reader of a file stands: between declarations, within one, or behind the name of a
class that is registered already. -/
inductive Stage where
  | between (d : Draft)
  | within (d : Draft) (c : Control)
  | registered (table : Table)
deriving DecidableEq, Repr

/-! ## One token -/

/-- The number that a token is. What else stands there is answered with `problem`. -/
def numberOf (problem : Problem) (seen : Seen) : Except Refusal Nat :=
  if seen.token.isNumeric then
    let value := decimal seen.token.text.toList
    if value < lengthBound then .ok value else .error (seen.reject (.tooLarge seen.token))
  else .error (seen.reject problem)

/-- The table with the column of a field line that ends at `mark`. -/
def endField (t : Table) (type : FieldType) (length : Length) (parts : FieldParts) (mark : Seen) :
    Except Refusal Table :=
  match parts.name with
  | none => .error (mark.reject .fieldNameExpected)
  | some name =>
    match type.storage? length parts.comment with
    | none => .error (mark.refuse name .expressionExpected)
    | some (storage, comment) =>
      let column : Column :=
        { storage := storage
          type := type.valueType
          fieldName := name.text
          columnName := parts.columnName.getD (Identifier.capsCase name.text)
          comment := comment
          flags := parts.flags
          table := t.domain
          linkGenerated := false }
      match t.addColumn column with
      | .ok t => .ok t
      | .error clash => .error (mark.refuse name (.taken clash))

/-- The table with the index of a line that begins with `first` and ends at `mark`. -/
def endIndex (t : Table) (first : Seen) (index : Index) (mark : Seen) : Except Refusal Table :=
  if index.columns.isEmpty then .error (mark.reject (.indexEmpty index.name))
  else
    match t.addIndex? index with
    | some t => .ok t
    | none => .error (mark.refuse first.token (.indexRepeated index.name t.domain))

/-- The foreign key of a line that ends at `mark`. -/
def endForeignKey (domain : String) (fields : List String) (foreign : ForeignFields) (mark : Seen) :
    Except Refusal ForeignKey :=
  match foreign.table with
  | none => .error (mark.reject .foreignFieldMissing)
  | some table => .ok ⟨domain, fields, table, foreign.fields⟩

namespace Draft

/-- The draft with an empty table for its class. -/
def withClass (d : Draft) (domain name : String) : Draft :=
  { d with table := some (Table.empty domain name) }

/-- The draft with a link that its table is for. -/
def withLink (d : Draft) (table : Table) (link : Link) : Draft :=
  { d with table := some { table with manyToMany := true }, link := some link }

/-- The draft with its table replaced. -/
def withTable (d : Draft) (table : Table) : Draft := { d with table := some table }

/-- The draft with one more foreign key. -/
def withForeignKey (d : Draft) (key : ForeignKey) : Draft :=
  { d with foreignKeys := d.foreignKeys ++ [key] }

/-- The draft with a comment that documents the table. -/
def withDoc (d : Draft) (doc : String) : Draft := { d with docs := d.docs ++ [doc] }

/-- Goes on behind all that a settings line declares. -/
def receiveSettingEnd (d : Draft) (setting : Setting) (seen : Seen) : Except Refusal Stage :=
  if seen.token.isComment then
    .ok (.within (d.withDoc seen.token.commentBody) (.commentEnd setting))
  else if seen.token.kind = .newLine then .ok (.between d)
  else .error (seen.reject (.afterSetting setting seen.token))

/-- Takes in a token of a line that may end anywhere. What the line declares is judged when it
ends. -/
def takeIn {α : Type} (d : Draft) (seen : Seen) (judged : Except Refusal Draft)
    (taken : Except Refusal α) (goOn : α → Control) : Except Refusal Stage :=
  if seen.token.kind = .newLine then judged.map .between
  else taken.map fun a => .within d (goOn a)

/-- Goes on with a part of a field, or comes to the end of its line. -/
def receivePart (d : Draft) (t : Table) (type : FieldType) (length : Length) (parts : FieldParts)
    (seen : Seen) : Except Refusal Stage :=
  d.takeIn seen ((endField t type length parts seen).map d.withTable) (parts.add seen)
    (.fieldPart t type length)

/-- Goes on with a local field, or with the keyword behind the local fields. -/
def receiveLocalField (d : Draft) (t : Table) (fields : List String) (seen : Seen) :
    Except Refusal Stage :=
  if seen.token.isKeyword constrainsTo then
    if fields.isEmpty then .error (seen.reject .localFieldMissing)
    else .ok (.within d (.foreignField t fields .start))
  else if seen.token.kind = .newLine then .error (seen.reject .constrainsToExpected)
  else if seen.token.isWord then .ok (.within d (.localField t (fields ++ [seen.token.text])))
  else .error (seen.reject .localFieldExpected)

/-- Goes on with a closing parenthesis. -/
def receiveClose (d : Draft) (t : Table) (type : FieldType) (length : Length) (seen : Seen) :
    Except Refusal Stage :=
  if seen.token.isSpecial ')' then .ok (.within d (.fieldPart t type length .start))
  else .error (seen.reject .closeParenExpected)

end Draft

namespace Control

/-- Goes on with the token that was asked for. -/
def receive (registered : String → Option Table) (d : Draft) (seen : Seen) :
    Control → Except Refusal Stage
  | .className =>
    if seen.token.isWord then
      match registered (Identifier.titleCase seen.token.text) with
      | some table => .ok (.registered table)
      | none => .ok (.within d (.tableName (Identifier.titleCase seen.token.text)))
    else .error (seen.reject (.classNameExpected seen.token))
  | .tableName domain =>
    if seen.token.isWord then
      .ok (.within (d.withClass domain seen.token.text) (.settingEnd .table))
    else (d.withClass domain (Identifier.capsCase domain)).receiveSettingEnd .table seen
  | .settingEnd setting => d.receiveSettingEnd setting seen
  | .commentEnd setting =>
    if seen.token.kind = .newLine then .ok (.between d)
    else .error (seen.reject (.afterSetting setting seen.token))
  | .firstLinked t =>
    if seen.token.isWord then
      .ok (.within d (.secondLinked t (Identifier.titleCase seen.token.text)))
    else .error (seen.reject (.linkedNameExpected .first seen.token))
  | .secondLinked t one =>
    if seen.token.isWord then
      let link : Link := ⟨t.domain, one, Identifier.titleCase seen.token.text⟩
      .ok (.within (d.withLink t link) (.settingEnd .link))
    else .error (seen.reject (.linkedNameExpected .second seen.token))
  | .typeLength t type =>
    let opened := seen.token.isSpecial '('
    match type.lengthRule with
    | .forbidden =>
      if opened then .error (seen.reject (.lengthForbidden type))
      else d.receivePart t type .absent .start seen
    | .optional =>
      if opened then .ok (.within d (.number t type false))
      else d.receivePart t type .absent .start seen
    | .required =>
      if opened then .ok (.within d (.number t type false))
      else .error (seen.reject .openParenExpected)
    | .withPrecision =>
      if opened then .ok (.within d (.number t type true))
      else .error (seen.reject .openParenExpected)
  | .number t type withPrecision =>
    (numberOf .lengthExpected seen).map fun size =>
      .within d (if withPrecision then .comma t type size else .close t type ⟨some size, none⟩)
  | .comma t type size =>
    if seen.token.isSpecial ',' then .ok (.within d (.precision t type size))
    else d.receiveClose t type ⟨some size, none⟩ seen
  | .precision t type size =>
    (numberOf .precisionExpected seen).map fun precision =>
      .within d (.close t type ⟨some size, some precision⟩)
  | .close t type length => d.receiveClose t type length seen
  | .fieldPart t type length parts => d.receivePart t type length parts seen
  | .indexField t first index =>
    d.takeIn seen ((endIndex t first index seen).map d.withTable) (addIndexed t index seen)
      (.indexField t first)
  | .localField t fields => d.receiveLocalField t fields seen
  | .foreignField t fields foreign =>
    d.takeIn seen ((endForeignKey t.domain fields foreign seen).map d.withForeignKey)
      (foreign.add seen) (.foreignField t fields)

end Control

namespace Draft

/-- Begins a line of the settings section. -/
def beginSetting (d : Draft) (first : Seen) : Except Refusal Stage :=
  if first.token.isKeyword Setting.table.keyword then
    if d.table.isSome then .error (first.reject .classRepeated) else .ok (.within d .className)
  else if first.token.isKeyword Setting.link.keyword then
    match d.table with
    | none => .error (first.reject .linkBeforeClass)
    | some t =>
      if d.link.isSome then .error (first.reject .linkRepeated)
      else .ok (.within d (.firstLinked t))
  else .error (first.reject .settingExpected)

/-- Begins a field line of `t`. -/
def beginField (d : Draft) (first : Seen) (t : Table) : Except Refusal Stage :=
  if first.token.isWord then
    match FieldType.ofKeyword? first.token.text with
    | none => .error (first.reject .typeUnknown)
    | some type => .ok (.within d (.typeLength t type))
  else .error (first.reject .typeExpected)

/-- Begins an index line of `t`. -/
def beginIndex (d : Draft) (first : Seen) (t : Table) : Except Refusal Stage :=
  if first.token.isWord then .ok (.within d (.indexField t first (Index.empty first.token.text)))
  else .error (first.reject .indexNameExpected)

/-- Begins a line of a section that comes after the class. -/
def beginMember (d : Draft) (first : Seen) (begin : Table → Except Refusal Stage) :
    Except Refusal Stage :=
  match d.table with
  | none => .error (first.reject .classMissingBefore)
  | some t => begin t

/-- Begins a declaration of the current section with its first token. -/
def begin (d : Draft) (first : Seen) : Except Refusal Stage :=
  match d.current with
  | none => .error (first.reject (.headerExpected first.token))
  | some .settings => d.beginSetting first
  | some .fields => d.beginMember first (d.beginField first)
  | some .indexes => d.beginMember first (d.beginIndex first)
  | some .foreignKeys => d.beginMember first fun t => d.receiveLocalField t [] first

end Draft

/-- Goes on with one more token of the file. -/
def Stage.receive (registered : String → Option Table) (seen : Seen) :
    Stage → Except Refusal Stage
  | .between d =>
    match seen.token.kind with
    | .newLine => .ok (.between d)
    | .comment => .ok (.between (d.withDoc seen.token.commentBody))
    | .header => .ok (.between { d with current := seen.token.heading? })
    | _ => d.begin seen
  | .within d c => c.receive registered d seen
  | .registered table => .ok (.registered table)

/-! ## What a token makes of a declaration -/

/-- Whether something is refused because a header is missing. -/
def Refusal.wantsHeader : Refusal → Bool
  | .grammar (.headerExpected _) _ => true
  | _ => false

/-- What is given has the property, and what is refused is not refused for want of a header. -/
def Settled {α : Type} (keeps : α → Prop) : Except Refusal α → Prop
  | .ok a => keeps a
  | .error refusal => refusal.wantsHeader = false

/-- A token that may stand within a declaration. -/
structure Seen.Inner (seen : Seen) : Prop where
  notNewLine : seen.token.kind ≠ .newLine
  notHeader : seen.token.kind ≠ .header

/-- A declaration of the section `part` is at its end just behind the end of its line. No header has
been taken in it, and the section is still the same. -/
inductive Stage.Stays (part : Option Section) (seen : Seen) : Stage → Prop
  | between {d : Draft} : seen.token.kind = .newLine → d.current = part →
      Stays part seen (.between d)
  | within {d : Draft} {c : Control} : seen.Inner → d.current = part → Stays part seen (.within d c)
  | registered {t : Table} : seen.Inner → Stays part seen (.registered t)

section

variable {α β : Type} {keeps : α → Prop} {keeps' : β → Prop} {d : Draft} {part : Option Section}
  {seen : Seen} {x y : Except Refusal α}

theorem Seen.inner_of_isWord (word : seen.token.isWord) : seen.Inner := by
  simp only [Token.isWord, beq_iff_eq] at word
  constructor <;> simp [word]

theorem Seen.inner_of_isComment (comment : seen.token.isComment) : seen.Inner := by
  simp only [Token.isComment, beq_iff_eq] at comment
  constructor <;> simp [comment]

theorem Seen.inner_of_isKeyword {keyword : String} (h : seen.token.isKeyword keyword) :
    seen.Inner := by
  constructor <;> intro kind <;> simp [Token.isKeyword, kind] at h

theorem Seen.inner_of_isNumeric (numeric : seen.token.isNumeric) : seen.Inner := by
  constructor <;> intro kind <;> simp [Token.isNumeric, kind] at numeric

theorem Seen.inner_of_isSpecial {c : Char} (special : seen.token.isSpecial c) : seen.Inner := by
  constructor <;> intro kind <;> simp [Token.isSpecial, Token.special?, kind] at special

theorem Settled.map {a? : Except Refusal α} {f : α → β} (h : Settled keeps a?)
    (next : ∀ a, keeps a → keeps' (f a)) : Settled keeps' (a?.map f) := by
  cases a? with
  | ok a => exact next a h
  | error refusal => exact h

theorem Settled.of_isWord (word : seen.Inner → Settled keeps x) (other : Settled keeps y) :
    Settled keeps (if seen.token.isWord then x else y) := by
  split
  · rename_i isWord
    exact word (Seen.inner_of_isWord isWord)
  · exact other

theorem Settled.of_isSpecial (c : Char) (special : seen.Inner → Settled keeps x)
    (other : Settled keeps y) : Settled keeps (if seen.token.isSpecial c then x else y) := by
  split
  · rename_i isSpecial
    exact special (Seen.inner_of_isSpecial isSpecial)
  · exact other

theorem settled_settingEnd (d : Draft) (setting : Setting) (seen : Seen) :
    Settled (Stage.Stays d.current seen) (d.receiveSettingEnd setting seen) := by
  rw [Draft.receiveSettingEnd]
  split
  · rename_i comment
    exact .within (Seen.inner_of_isComment comment) rfl
  split
  · rename_i newLine
    exact .between newLine rfl
  · rfl

theorem settled_takeIn {judged : Except Refusal Draft} {taken : Except Refusal α}
    (goOn : α → Control) (judges : Settled (fun d' : Draft => d'.current = d.current) judged)
    (takes : Settled (fun _ => seen.token.kind ≠ .header) taken) :
    Settled (Stage.Stays d.current seen) (d.takeIn seen judged taken goOn) := by
  rw [Draft.takeIn]
  split
  · rename_i newLine
    exact judges.map fun d' same => .between newLine same
  · rename_i notNewLine
    exact takes.map fun _ notHeader => .within ⟨notNewLine, notHeader⟩ rfl

theorem settled_addPart (parts : FieldParts) (seen : Seen) :
    Settled (fun _ => seen.token.kind ≠ .header) (parts.add seen) := by
  rw [FieldParts.add]
  cases kind : seen.token.kind with
  | special =>
    dsimp only
    split
    · exact nofun
    · rfl
  | comment => exact nofun
  | word =>
    dsimp only
    split
    · exact nofun
    · exact nofun
    · rfl
  | header | newLine | flaw => rfl

theorem settled_addIndexed (t : Table) (index : Index) (seen : Seen) :
    Settled (fun _ => seen.token.kind ≠ .header) (addIndexed t index seen) := by
  rw [addIndexed]
  cases kind : seen.token.kind with
  | comment => exact nofun
  | word =>
    dsimp only
    split
    · exact nofun
    · rfl
  | special | header | newLine | flaw => rfl

theorem settled_addForeign (foreign : ForeignFields) (seen : Seen) :
    Settled (fun _ => seen.token.kind ≠ .header) (foreign.add seen) := by
  rw [ForeignFields.add]
  split
  · rename_i comment
    exact fun header => by simp [Token.isComment, header] at comment
  · cases named : foreignField? seen.token with
    | none => rfl
    | some field =>
      have word : seen.token.kind ≠ .header := by
        intro header
        simp [foreignField?, Token.isWord, header] at named
      split
      · contradiction
      · exact word
      · split
        · exact word
        · rfl

theorem settled_endField (t : Table) (type : FieldType) (length : Length) (parts : FieldParts)
    (mark : Seen) : Settled (fun _ => True) (endField t type length parts mark) := by
  rw [endField]
  split
  · rfl
  · split
    · rfl
    · dsimp only
      split
      · trivial
      · rfl

theorem settled_endIndex (t : Table) (first : Seen) (index : Index) (mark : Seen) :
    Settled (fun _ => True) (endIndex t first index mark) := by
  rw [endIndex]
  split
  · rfl
  · split
    · trivial
    · rfl

theorem settled_endForeignKey (domain : String) (fields : List String) (foreign : ForeignFields)
    (mark : Seen) : Settled (fun _ => True) (endForeignKey domain fields foreign mark) := by
  rw [endForeignKey]
  split
  · rfl
  · trivial

theorem settled_part (d : Draft) (t : Table) (type : FieldType) (length : Length)
    (parts : FieldParts) (seen : Seen) :
    Settled (Stage.Stays d.current seen) (d.receivePart t type length parts seen) :=
  settled_takeIn _ ((settled_endField t type length parts seen).map fun _ _ => rfl)
    (settled_addPart parts seen)

theorem settled_localField (d : Draft) (t : Table) (fields : List String) (seen : Seen) :
    Settled (Stage.Stays d.current seen) (d.receiveLocalField t fields seen) := by
  rw [Draft.receiveLocalField]
  split
  · rename_i keyword
    split
    · rfl
    · exact .within (Seen.inner_of_isKeyword keyword) rfl
  split
  · rfl
  · exact .of_isWord (fun inner => .within inner rfl) rfl

theorem settled_close (d : Draft) (t : Table) (type : FieldType) (length : Length) (seen : Seen) :
    Settled (Stage.Stays d.current seen) (d.receiveClose t type length seen) :=
  .of_isSpecial ')' (fun inner => .within inner rfl) rfl

theorem settled_number {problem : Problem} (other : (seen.reject problem).wantsHeader = false) :
    Settled (fun _ => seen.Inner) (numberOf problem seen) := by
  rw [numberOf]
  split
  · rename_i numeric
    dsimp only
    split
    · exact Seen.inner_of_isNumeric numeric
    · rfl
  · exact other

/-- A declaration comes to its end at the end of its line, wherever its reader stands. No token of
the line opens a section or closes one, and none is refused for want of a header. -/
theorem Control.settled_receive (registered : String → Option Table) (d : Draft) (seen : Seen)
    (c : Control) : Settled (Stage.Stays d.current seen) (c.receive registered d seen) := by
  cases c with
  | className =>
    refine .of_isWord (fun inner => ?_) rfl
    split
    · exact .registered inner
    · exact .within inner rfl
  | tableName domain =>
    exact .of_isWord (fun inner => .within inner rfl) (settled_settingEnd _ _ seen)
  | settingEnd setting => exact settled_settingEnd d setting seen
  | commentEnd setting =>
    rw [receive]
    split
    · rename_i newLine
      exact .between newLine rfl
    · rfl
  | firstLinked t => exact .of_isWord (fun inner => .within inner rfl) rfl
  | secondLinked t one => exact .of_isWord (fun inner => .within inner rfl) rfl
  | typeLength t type =>
    have parts := settled_part d t type .absent .start seen
    rw [receive]
    cases type.lengthRule with
    | forbidden => exact .of_isSpecial '(' (fun _ => rfl) parts
    | optional => exact .of_isSpecial '(' (fun inner => .within inner rfl) parts
    | required => exact .of_isSpecial '(' (fun inner => .within inner rfl) rfl
    | withPrecision => exact .of_isSpecial '(' (fun inner => .within inner rfl) rfl
  | number t type withPrecision =>
    exact (settled_number rfl).map fun _ inner => .within inner rfl
  | comma t type size =>
    exact .of_isSpecial ',' (fun inner => .within inner rfl) (settled_close d t type _ seen)
  | precision t type size => exact (settled_number rfl).map fun _ inner => .within inner rfl
  | close t type length => exact settled_close d t type length seen
  | fieldPart t type length parts => exact settled_part d t type length parts seen
  | indexField t first index =>
    exact settled_takeIn _ ((settled_endIndex t first index seen).map fun _ _ => rfl)
      (settled_addIndexed t index seen)
  | localField t fields => exact settled_localField d t fields seen
  | foreignField t fields foreign =>
    exact settled_takeIn _
      ((settled_endForeignKey t.domain fields foreign seen).map fun _ _ => rfl)
      (settled_addForeign foreign seen)

theorem settled_beginMember {begin : Table → Except Refusal Stage}
    (one : ∀ t, Settled (Stage.Stays d.current seen) (begin t)) :
    Settled (Stage.Stays d.current seen) (d.beginMember seen begin) := by
  rw [Draft.beginMember]
  split
  · rfl
  · exact one _

/-- While a section is open, a declaration begins with a token of its line, and no token is refused
for want of a header. -/
theorem Draft.settled_begin (opened : d.current ≠ none) :
    Settled (Stage.Stays d.current seen) (d.begin seen) := by
  rw [begin]
  split
  · contradiction
  · rw [beginSetting]
    split
    · rename_i keyword
      split
      · rfl
      · exact .within (Seen.inner_of_isKeyword keyword) rfl
    split
    · rename_i keyword
      split
      · rfl
      · split
        · rfl
        · exact .within (Seen.inner_of_isKeyword keyword) rfl
    · rfl
  · refine settled_beginMember fun t => .of_isWord (fun inner => ?_) rfl
    split
    · rfl
    · exact .within inner rfl
  · exact settled_beginMember fun t => .of_isWord (fun inner => .within inner rfl) rfl
  · exact settled_beginMember fun t => settled_localField d t [] seen

end

/-! ## The end of a declaration -/

section

variable {d : Draft} {seen : Seen}

/-- What a token makes of a declaration. It comes to its end just when the token is the end of a
line. -/
inductive Moves (seen : Seen) : Except Refusal Stage → Prop
  | refused {refusal : Refusal} : Moves seen (.error refusal)
  | ended {d : Draft} : seen.token.kind = .newLine → Moves seen (.ok (.between d))
  | goesOn {d : Draft} {c : Control} : seen.token.kind ≠ .newLine → Moves seen (.ok (.within d c))
  | registered {t : Table} : seen.token.kind ≠ .newLine → Moves seen (.ok (.registered t))

theorem Settled.moves {part : Option Section} {x : Except Refusal Stage}
    (settled : Settled (Stage.Stays part seen) x) : Moves seen x := by
  cases x with
  | error refusal => exact .refused
  | ok stage =>
    cases settled with
    | between newLine _ => exact .ended newLine
    | within inner _ => exact .goesOn inner.notNewLine
    | registered inner => exact .registered inner.notNewLine

/-- A declaration comes to its end at the end of its line, wherever its reader stands. -/
theorem Control.moves_receive (registered : String → Option Table) (d : Draft) (seen : Seen)
    (c : Control) : Moves seen (c.receive registered d seen) :=
  (c.settled_receive registered d seen).moves

/-- The first token of a declaration is not the end of it. -/
theorem Draft.moves_begin (d : Draft) (first : Seen) : Moves first (d.begin first) := by
  by_cases opened : d.current = none
  · rw [begin, opened]
    exact .refused
  · exact (settled_begin opened).moves

/-- A reader is within a line only behind a token of this line. -/
theorem Stage.kind_ne_of_receive {registered : String → Option Table} {stage : Stage} {c : Control}
    (done : stage.receive registered seen = .ok (.within d c)) : seen.token.kind ≠ .newLine := by
  have goesOn {x : Except Refusal Stage} (moves : Moves seen x) (done : x = .ok (.within d c)) :
      seen.token.kind ≠ .newLine := by
    cases moves with
    | goesOn inner => exact inner
    | refused | ended | registered => cases done
  cases stage with
  | between d' =>
    intro newLine
    rw [receive, newLine] at done
    cases done
  | within d' c' => exact goesOn (c'.moves_receive registered d' seen) done
  | registered t => cases done

end

end TableSchema.Definition
