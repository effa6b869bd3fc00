import TableSchema.Proofs.Definition.Declaration
import TableSchema.Proofs.Definition.Shown
import TableSchema.Proofs.Outcome
import TableSchema.Proofs.Table.Columns

/-!
Reading the lines of a declaration.

Each reader of a line is followed here over an entry that shows the line of a declaration, and gives
what the line means: `readClass_shown` and `readLink_shown` for settings, `readField_shown` for
fields, `readIndex_shown` for indexes and `readForeignKey_shown` for foreign keys.
-/

namespace TableSchema.Definition

open List (Forall₂)
open Declaration

variable {tokens : List Seen} {mark : Seen}

theorem sameLetters_comm (a b : String) : Text.sameLetters a b = Text.sameLetters b a :=
  Bool.beq_comm

/-- The keyword of a type is recognized in any case. -/
theorem FieldType.ofKeyword?_keyword_word {type : FieldType} (keyword : Keyword type.keyword) :
    ofKeyword? keyword.word.text = some type := by
  have same := keyword.same
  rw [Text.sameLetters, beq_iff_eq] at same
  unfold ofKeyword? Text.sameLetters
  rw [← same]
  cases type <;> decide

/-! ## Fields -/

theorem decimal_repr (n : Nat) : decimal n.repr.toList = n := by
  have same : decimal n.repr.toList = Nat.ofDigitChars 10 (Nat.toDigits 10 n) 0 := by
    rw [Nat.toList_repr, Nat.ofDigitChars_eq_foldl, decimal]
    simp only [Nat.mul_comm]
  rw [same, Nat.ofDigitChars_ten_toDigits]

/-- A number that is small enough is read. -/
theorem readNumber_shown {problem : Problem} {n : Size} {seen : Seen}
    (h : seen.Shows (.word n.word)) {ending : Ending} :
    readNumber problem ⟨seen :: tokens, ending⟩ = .ok (n.value, ⟨tokens, ending⟩) := by
  have numeric : seen.token.isNumeric = true := by
    refine h.isNumeric fun c hc => ?_
    exact Nat.isDigit_of_mem_toDigits (by decide) (by decide) (Nat.toList_repr ▸ hc)
  have value : decimal seen.token.text.toList = n.value := by
    rw [h.text_eq]
    exact decimal_repr n.value
  show (if seen.token.isNumeric = true then
    if decimal seen.token.text.toList < lengthBound
    then Except.ok (decimal seen.token.text.toList, _)
    else _ else _) = _
  rw [if_pos numeric, value, if_pos n.small]

/-- A length in parentheses is read, with its precision where one may stand. -/
theorem readLength_shown {length : Size} {precision : Option Size} {seen : Seen}
    {rest : List Written} (withPrecision : Bool) (ending : Ending)
    (allowed : precision ≠ none → withPrecision = true)
    (h : Forall₂ Seen.Shows (seen :: tokens) (bracketed length precision ++ rest)) :
    seen.token.isSpecial '(' = true ∧
    ∃ after, readLength withPrecision ⟨tokens, ending⟩ =
        .ok (⟨some length.value, precision.map Size.value⟩, ⟨after, ending⟩) ∧
      Forall₂ Seen.Shows after rest := by
  cases precision with
  | none =>
    obtain _ | ⟨opening, _ | ⟨number, _ | ⟨closing, rest⟩⟩⟩ := h
    refine ⟨opening.isSpecial '(', _, ?_, rest⟩
    have close := closing.isSpecial ')'
    have comma := closing.isSpecial ','
    unfold readLength
    rw [readNumber_shown number]
    cases withPrecision <;>
      simp [readPrecision, Entry.next, close, comma]
  | some precision =>
    obtain rfl := allowed (by simp)
    obtain _ | ⟨opening, _ | ⟨number, _ | ⟨comma, _ | ⟨number', _ | ⟨closing, rest⟩⟩⟩⟩⟩ := h
    refine ⟨opening.isSpecial '(', _, ?_, rest⟩
    have close := closing.isSpecial ')'
    have comma := comma.isSpecial ','
    unfold readLength
    rw [readNumber_shown number]
    simp [readPrecision, Entry.next, readNumber_shown number', close, comma]

theorem readTypeLength_of_unopened {type : FieldType} {seen : Seen} {ending : Ending}
    (rule : type.lengthRule = .forbidden ∨ type.lengthRule = .optional)
    (unopened : seen.token.isSpecial '(' = false) :
    readTypeLength type ⟨seen :: tokens, ending⟩ = .ok (.absent, ⟨seen :: tokens, ending⟩) := by
  rcases rule with rule | rule <;>
    simp [readTypeLength, Entry.next, rule, unopened]

theorem readTypeLength_of_opened {type : FieldType} {seen : Seen} {ending : Ending}
    (rule : type.lengthRule ≠ .forbidden) (opened : seen.token.isSpecial '(' = true) :
    readTypeLength type ⟨seen :: tokens, ending⟩ =
      readLength (type.lengthRule == .withPrecision) ⟨tokens, ending⟩ := by
  cases found : type.lengthRule with
  | forbidden => exact absurd found rule
  | optional | required | withPrecision =>
    simp only [readTypeLength, Entry.next, found, opened, Except.ok_bind]
    rfl

/-- The length that a type was declared with is read. -/
theorem readTypeLength_shown {type : DeclaredType} {w : Written} {rest : List Written}
    (ending : Ending) (h : Forall₂ Seen.Shows tokens (type.lengthLine ++ w :: rest))
    (unopened : ∀ seen : Seen, seen.Shows w → seen.token.isSpecial '(' = false) :
    ∃ after, readTypeLength type.fieldType ⟨tokens, ending⟩ =
        .ok (type.length, ⟨after, ending⟩) ∧
      Forall₂ Seen.Shows after (w :: rest) := by
  have without (rule : type.fieldType.lengthRule = .forbidden ∨
      type.fieldType.lengthRule = .optional) (h : Forall₂ Seen.Shows tokens (w :: rest)) :
      ∃ after, readTypeLength type.fieldType ⟨tokens, ending⟩ = .ok (.absent, ⟨after, ending⟩) ∧
        Forall₂ Seen.Shows after (w :: rest) := by
    obtain _ | ⟨first, others⟩ := h
    exact ⟨_, readTypeLength_of_unopened rule (unopened _ first), .cons first others⟩
  have bracketed' {length : Size} {precision : Option Size}
      (rule : type.fieldType.lengthRule ≠ .forbidden)
      (allowed : precision ≠ none → type.fieldType.lengthRule = .withPrecision)
      (h : Forall₂ Seen.Shows tokens (bracketed length precision ++ w :: rest)) :
      ∃ after, readTypeLength type.fieldType ⟨tokens, ending⟩ =
          .ok (⟨some length.value, precision.map Size.value⟩, ⟨after, ending⟩) ∧
        Forall₂ Seen.Shows after (w :: rest) := by
    cases tokens with
    | nil => cases h
    | cons seen tokens =>
      obtain ⟨opened, after, read, shown⟩ := readLength_shown
        (type.fieldType.lengthRule == .withPrecision) ending
        (fun given => by simp [allowed given]) h
      exact ⟨after, (readTypeLength_of_opened rule opened).trans read, shown⟩
  cases type with
  | blob length =>
    cases length with
    | none => exact without (.inr rfl) h
    | some length => exact bracketed' nofun (fun given => absurd rfl given) h
  | boolean => exact without (.inl rfl) h
  | date => exact without (.inl rfl) h
  | double length precision => exact bracketed' nofun (fun _ => rfl) h
  | integer length | long length | string length | timestamp length | vstring length =>
    exact bracketed' nofun (fun given => absurd rfl given) h

/-- The flags with some marks set. -/
def withMarks (flags : Flags) (marks : List Mark) : Flags where
  required := flags.required || marks.contains .required || marks.contains .key
  key := flags.key || marks.contains .key
  sequenceDisabled := flags.sequenceDisabled || marks.contains .sequenceDisabled
  searchable := flags.searchable || marks.contains .searchable
  systemTimestamp := flags.systemTimestamp || marks.contains .systemTimestamp

theorem mark?_char (flags : Flags) (m : Mark) :
    flags.mark? m.char = some (withMarks flags [m]) := by
  cases m <;> simp [Mark.char, Flags.mark?, Flags.setKey, withMarks]

theorem withMarks_cons (flags : Flags) (m : Mark) (marks : List Mark) :
    withMarks (withMarks flags [m]) marks = withMarks flags (m :: marks) := by
  cases m <;> simp [withMarks, Bool.or_comm, Bool.or_left_comm]

/-- Flags are set one by one, in any order. -/
theorem foldlM_marks {marks : List Mark} {parts : FieldParts}
    (h : Forall₂ Seen.Shows tokens (marks.map Mark.written)) :
    tokens.foldlM FieldParts.add parts =
      .ok { parts with flags := withMarks parts.flags marks } := by
  induction marks generalizing tokens parts with
  | nil =>
    obtain _ | _ := h
    simp [withMarks]
  | cons m marks ih =>
    obtain _ | ⟨first, rest⟩ := h
    rename_i seen others
    have step : parts.add seen = .ok { parts with flags := withMarks parts.flags [m] } := by
      rw [FieldParts.add, first.kind]
      simp only [Mark.written, Written.kind, Seen.Shows.special? first, Option.bind_some,
        mark?_char]
    rw [List.foldlM_cons, step]
    refine (ih rest).trans ?_
    rw [withMarks_cons]

theorem add_remark {parts : FieldParts} {r : Remark} {seen : Seen} (h : seen.Shows r.written) :
    parts.add seen = .ok { parts with comment := some r.text } := by
  rw [FieldParts.add, h.kind]
  show Except.ok { parts with comment := some seen.token.commentBody } = _
  rw [Seen.Shows.commentBody h, r.trim_written]

/-- A column name and a comment may follow the name of a field. -/
theorem foldlM_column_comment {flags : Flags} {name : Token} {column : Option Word}
    {comment : Option Remark} (h : Forall₂ Seen.Shows tokens
      (column.toList.map .word ++ comment.toList.map Remark.written)) :
    tokens.foldlM FieldParts.add ⟨flags, some name, none, none⟩ =
      .ok ⟨flags, some name, column.map Word.text, comment.map Remark.text⟩ := by
  obtain ⟨columns, comments, rfl, hcolumns, hcomments⟩ := exists_append_of_forall₂ h
  have columnRead : columns.foldlM FieldParts.add ⟨flags, some name, none, none⟩ =
      .ok ⟨flags, some name, column.map Word.text, none⟩ := by
    cases column with
    | none =>
      obtain _ | _ := hcolumns
      rfl
    | some w =>
      obtain _ | ⟨first, _ | _⟩ := hcolumns
      rw [List.foldlM_cons, FieldParts.add, first.kind]
      simp only [Written.kind, first.text_eq]
      rfl
  rw [List.foldlM_append, columnRead]
  show comments.foldlM FieldParts.add _ = _
  cases comment with
  | none =>
    obtain _ | _ := hcomments
    rfl
  | some r =>
    obtain _ | ⟨first, _ | _⟩ := hcomments
    rw [List.foldlM_cons, add_remark first]
    rfl

/-- The parts of a field after its length are read. -/
theorem foldlM_parts {f : Field} (h : Forall₂ Seen.Shows tokens (f.marks.map Mark.written ++
      .word f.name :: (f.column.toList.map .word ++ f.comment.toList.map Remark.written))) :
    ∃ token, token.text = f.name.text ∧ tokens.foldlM FieldParts.add .start =
      .ok ⟨f.flags, some token, f.column.map Word.text, f.comment.map Remark.text⟩ := by
  obtain ⟨marks, others, rfl, hmarks, hothers⟩ := exists_append_of_forall₂ h
  obtain _ | ⟨name, hothers⟩ := hothers
  rename_i seen others
  have flags : withMarks FieldParts.start.flags f.marks = f.flags := by
    simp [withMarks, FieldParts.start, Flags.none, Field.flags]
  have named : FieldParts.add ⟨f.flags, none, none, none⟩ seen =
      .ok ⟨f.flags, some seen.token, none, none⟩ := by
    rw [FieldParts.add, name.kind]
    rfl
  refine ⟨seen.token, name.text_eq, ?_⟩
  rw [List.foldlM_append, foldlM_marks hmarks, flags]
  show List.foldlM FieldParts.add ⟨f.flags, none, none, none⟩ (seen :: others) = _
  rw [List.foldlM_cons, named]
  exact foldlM_column_comment hothers

/-- The storage of a field follows from its type, its length and its comment. -/
theorem storage?_eq (f : Field) :
    f.type.fieldType.storage? f.type.length (f.comment.map Remark.text) =
      some (f.storage,
        if f.type.fieldType = .vstring then none else f.comment.map Remark.text) := by
  cases type : f.type with
  | vstring length =>
    obtain ⟨expression, commented, filled⟩ := f.computed (by rw [type]; rfl)
    simp [DeclaredType.fieldType, FieldType.storage?, DeclaredType.length, Field.storage, type,
      commented, filled]
  | blob length | boolean | date | double length precision | integer length | long length
  | string length | timestamp length =>
    simp [DeclaredType.fieldType, FieldType.storage?, DeclaredType.length, Field.storage, type]

/-- A field whose names are free becomes the next column. -/
theorem readField_shown {t : Table} {f : Field} {first : Seen}
    (h : Forall₂ Seen.Shows (first :: tokens) f.line)
    (free : ∀ c ∈ t.columns, c.Apart (f.toColumn t.domain)) :
    readField t first ⟨tokens, .newLine mark⟩ =
      .ok { t with columns := t.columns ++ [f.toColumn t.domain] } := by
  obtain _ | ⟨keyword, others⟩ := h
  -- no parenthesis is missed: what follows the length begins with a flag or with the name
  have unopened {w : Written} {rest : List Written} (starts : f.marks.map Mark.written ++
      .word f.name :: (f.column.toList.map .word ++ f.comment.toList.map Remark.written) =
        w :: rest) (seen : Seen) (shown : seen.Shows w) : seen.token.isSpecial '(' = false := by
    cases marks : f.marks with
    | nil =>
      rw [marks] at starts
      obtain ⟨rfl, _⟩ := List.cons.inj starts
      exact shown.word_isSpecial '('
    | cons m more =>
      rw [marks] at starts
      obtain ⟨rfl, _⟩ := List.cons.inj starts
      rw [Seen.Shows.isSpecial shown]
      cases m <;> decide
  obtain ⟨w, rest, starts⟩ : ∃ w rest, f.marks.map Mark.written ++
      .word f.name :: (f.column.toList.map .word ++ f.comment.toList.map Remark.written) =
        w :: rest := List.exists_cons_of_ne_nil (by simp)
  rw [starts] at others
  obtain ⟨after, length, others⟩ := readTypeLength_shown (.newLine mark) others (unopened starts)
  rw [← starts] at others
  obtain ⟨token, name, parts⟩ := foldlM_parts others
  have type := FieldType.ofKeyword?_keyword_word f.keyword
  rw [← keyword.text_eq] at type
  have columnName : (f.column.map Word.text).getD (Identifier.capsCase f.name.text) =
      f.columnName := by
    unfold Field.columnName
    cases f.column <;> rfl
  have added := Table.addColumn_eq_ok.mpr ⟨free, rfl⟩
  unfold readField
  rw [if_pos keyword.isWord, type]
  simp only [length, parts, storage?_eq, Except.ok_bind, Ending.newLine?, name, columnName]
  simp only [Field.toColumn] at added ⊢
  rw [added]

/-! ## Indexes -/

/-- The fields of an index are looked up one by one. -/
theorem foldlM_addIndexed {t : Table} {fields : List Field} {index : Index}
    (h : Forall₂ Seen.Shows tokens (fields.map fun f => .word f.name))
    (declared : ∀ f ∈ fields, t.column? f.name.text = some (f.toColumn t.domain)) :
    tokens.foldlM (addIndexed t) index =
      .ok ⟨index.name, index.columns ++ fields.map fun f => ⟨f.name.text, f.columnName⟩⟩ := by
  induction fields generalizing tokens index with
  | nil =>
    obtain _ | _ := h
    simp
  | cons f fields ih =>
    obtain _ | ⟨first, rest⟩ := h
    rename_i seen others
    have step : addIndexed t index seen = .ok (index.push (f.toColumn t.domain)) := by
      rw [addIndexed, first.kind]
      simp only [Written.kind, first.text_eq, declared f List.mem_cons_self]
    rw [List.foldlM_cons, step]
    refine (ih rest fun g hg => declared g (List.mem_cons_of_mem _ hg)).trans ?_
    simp [Index.push, Field.toColumn]

/-- An index over declared fields is added when its name is free. -/
theorem readIndex_shown {t : Table} {i : FieldIndex} {first : Seen}
    (h : Forall₂ Seen.Shows (first :: tokens) i.line)
    (declared : ∀ f ∈ i.fields, t.column? f.name.text = some (f.toColumn t.domain))
    (free : ∀ other ∈ t.indexes, other.name ≠ i.name.text) :
    readIndex t first ⟨tokens, .newLine mark⟩ =
      .ok { t with indexes := t.indexes ++ [i.toIndex] } := by
  obtain _ | ⟨name, others⟩ := h
  have index : tokens.foldlM (addIndexed t) (Index.empty first.token.text) = .ok i.toIndex := by
    rw [foldlM_addIndexed others declared, name.text_eq]
    rfl
  have filled : i.toIndex.columns.isEmpty = false := by
    simp [FieldIndex.toIndex, i.filled]
  have added : t.addIndex? i.toIndex = some { t with indexes := t.indexes ++ [i.toIndex] } :=
    Table.addIndex?_eq_some.mpr ⟨free, rfl⟩
  unfold readIndex
  rw [if_pos name.isWord]
  simp only [index, Except.ok_bind, Ending.newLine?, filled, added]
  rfl

/-! ## Foreign keys -/

/-- The local fields reach up to the keyword. -/
theorem readLocalFields_shown {locals : List Word} {keyword : Keyword constrainsTo}
    {rest : List Written} (ending : Ending)
    (h : Forall₂ Seen.Shows tokens (locals.map .word ++ .word keyword.word :: rest))
    (plain : ∀ w ∈ locals, Text.sameLetters w.text constrainsTo = false) :
    ∃ seen after, readLocalFields ending tokens = .ok (locals.map Word.text, seen, after) ∧
      Forall₂ Seen.Shows after rest := by
  induction locals generalizing tokens with
  | nil =>
    obtain _ | ⟨first, others⟩ := h
    rename_i seen others'
    have found : seen.token.isKeyword constrainsTo = true := by
      rw [first.isKeyword, sameLetters_comm]
      exact keyword.same
    exact ⟨seen, others', by rw [readLocalFields, if_pos found]; rfl, others⟩
  | cons w locals ih =>
    obtain _ | ⟨first, others⟩ := h
    obtain ⟨seen, after, read, shown⟩ := ih others fun v hv => plain v (List.mem_cons_of_mem _ hv)
    refine ⟨seen, after, ?_, shown⟩
    have other : ¬_ = true := Bool.eq_false_iff.mp
      ((first.isKeyword constrainsTo).trans (plain w List.mem_cons_self))
    rw [readLocalFields, if_neg other, if_pos first.isWord, read, first.text_eq]
    rfl

theorem splitAtDot_append {table field : List Char} (dotless : '.' ∉ table) (named : table ≠ [])
    (filled : field ≠ []) : splitAtDot (table ++ '.' :: field) = some (table, field) := by
  have front : (table ++ '.' :: field).takeWhile (· != '.') = table := by
    rw [List.takeWhile_append_of_pos]
    · simp
    · intro c hc
      simp only [bne_iff_ne]
      rintro rfl
      exact dotless hc
  have back : (table ++ '.' :: field).drop (table.length + 1) = field := by
    rw [← List.drop_drop, List.drop_left]
    rfl
  unfold splitAtDot
  simp only [front, back]

/-- A field behind the class that it belongs to is taken apart again. -/
theorem foreignField?_shown {target field : Word} {seen : Seen} (dotless : '.' ∉ target.text.toList)
    (h : seen.Shows (.word (qualified target field))) :
    foreignField? seen.token = some (Identifier.titleCase target.text, field.text) := by
  have chars : seen.token.text.toList = target.text.toList ++ '.' :: field.text.toList := by
    rw [h.text_eq]
    simp [qualified]
  rw [foreignField?, if_pos h.isWord, chars, splitAtDot_append dotless target.filled field.filled]
  simp

/-- All foreign fields belong to the class that they are written with. -/
theorem foldlM_foreign {target : Word} {fields : List Word} {foreign : ForeignFields}
    (dotless : '.' ∉ target.text.toList)
    (h : Forall₂ Seen.Shows tokens (fields.map fun f => .word (qualified target f)))
    (same : foreign.table = some (Identifier.titleCase target.text)) :
    tokens.foldlM ForeignFields.add foreign =
      .ok { foreign with fields := foreign.fields ++ fields.map Word.text } := by
  induction fields generalizing tokens foreign with
  | nil =>
    obtain _ | _ := h
    simp
  | cons f fields ih =>
    obtain _ | ⟨first, rest⟩ := h
    rename_i seen others
    have step : foreign.add seen = .ok { foreign with fields := foreign.fields ++ [f.text] } := by
      rw [ForeignFields.add, first.word_isComment, foreignField?_shown dotless first, same]
      simp
    -- the class stays the same while the list of fields grows
    have further (fields : List String) := ih rest
      (show (ForeignFields.mk foreign.table fields).table =
        some (Identifier.titleCase target.text) from same)
    rw [List.foldlM_cons, step]
    refine (further _).trans ?_
    simp

/-- A foreign key is declared for the class of its file. -/
theorem readForeignKey_shown {domain : String} {k : Reference} {first : Seen}
    (h : Forall₂ Seen.Shows (first :: tokens) k.line) :
    readForeignKey domain first ⟨tokens, .newLine mark⟩ = .ok (k.toForeignKey domain) := by
  obtain ⟨keyword, after, locals, shown⟩ := readLocalFields_shown (.newLine mark) h k.plain
  obtain ⟨f, fields, split⟩ := List.exists_cons_of_ne_nil k.aimed
  rw [split] at shown
  obtain _ | ⟨head, rest⟩ := shown
  rename_i seen others
  have start : ForeignFields.start.add seen =
      .ok ⟨some (Identifier.titleCase k.target.text), [f.text]⟩ := by
    rw [ForeignFields.add, head.word_isComment, foreignField?_shown k.dotless head]
    rfl
  have foreign : (seen :: others).foldlM ForeignFields.add .start =
      .ok ⟨some (Identifier.titleCase k.target.text), k.fields.map Word.text⟩ := by
    rw [List.foldlM_cons, start, split]
    exact foldlM_foreign k.dotless rest rfl
  have filled : (k.locals.map Word.text).isEmpty = false := by simp [k.filled]
  unfold readForeignKey
  simp only [locals, foreign, filled, Except.ok_bind, Ending.newLine?]
  rfl

/-! ## Settings -/

/-- Nothing follows on a settings line that has ended. -/
theorem endSetting_newLine {setting : Setting} (newLine : mark.token.kind = .newLine) :
    endSetting setting ⟨[], .newLine mark⟩ = .ok none := by
  have comment : mark.token.isComment = false := by
    rw [Token.isComment, newLine]
    rfl
  unfold endSetting
  simp only [Entry.next, Ending.newLine?, Except.ok_bind, Except.pure_eq, comment, newLine]
  rfl

theorem tableName_shown {d : Declaration} (newLine : mark.token.kind = .newLine)
    (h : Forall₂ Seen.Shows tokens (d.tableName.toList.map .word)) :
    tableName d.domain ⟨tokens, .newLine mark⟩ = .ok (d.tableText, ⟨[], .newLine mark⟩) := by
  unfold Declaration.tableText
  cases given : d.tableName with
  | none =>
    rw [given] at h
    obtain _ | _ := h
    have word : mark.token.isWord = false := by
      rw [Token.isWord, newLine]
      rfl
    unfold tableName
    simp only [Entry.next, Ending.newLine?, Except.ok_bind, Except.pure_eq, word]
    rfl
  | some name =>
    rw [given] at h
    obtain _ | ⟨first, _ | _⟩ := h
    unfold tableName
    simp only [Entry.next, Except.ok_bind, Except.pure_eq, first.isWord, first.text_eq]
    rfl

theorem className_shown {w : Word} {seen : Seen} (h : seen.Shows (.word w)) (ending : Ending) :
    className ⟨seen :: tokens, ending⟩ =
      .ok (Identifier.titleCase w.text, ⟨tokens, ending⟩) := by
  unfold className
  simp only [Entry.next, Except.ok_bind, Except.pure_eq, h.isWord, h.text_eq]
  rfl

theorem linkedName_shown {w : Word} {seen : Seen} (side : Side) (h : seen.Shows (.word w))
    (ending : Ending) :
    linkedName side ⟨seen :: tokens, ending⟩ =
      .ok (Identifier.titleCase w.text, ⟨tokens, ending⟩) := by
  unfold linkedName
  simp only [Entry.next, Except.ok_bind, Except.pure_eq, h.isWord, h.text_eq]
  rfl

/-- The class line starts an empty table. -/
theorem readClass_shown {registered : String → Option Table} {draft : Draft} {d : Declaration}
    {first : Seen} (newLine : mark.token.kind = .newLine) (absent : draft.table = none)
    (free : registered d.domain = none) (h : Forall₂ Seen.Shows (first :: tokens) d.classLine) :
    draft.readSetting registered first ⟨tokens, .newLine mark⟩ =
      .ok (.fresh { draft with table := some (Table.empty d.domain d.tableText) }) := by
  obtain _ | ⟨keyword, _ | ⟨name, rest⟩⟩ := h
  rename_i classSeen others
  have isClass : first.token.isKeyword Setting.table.keyword = true := by
    rw [keyword.isKeyword, sameLetters_comm]
    exact d.keyword.same
  have body : classBody d.domain ⟨others, .newLine mark⟩ =
      .ok (Table.empty d.domain d.tableText, none) := by
    unfold classBody
    simp only [tableName_shown newLine rest, Except.ok_bind, endSetting_newLine newLine]
    rfl
  unfold Draft.readSetting
  rw [if_pos isClass]
  unfold Draft.readClass
  have domain : Identifier.titleCase d.className.text = d.domain := rfl
  simp only [absent, className_shown name, domain, free, body, Except.ok_bind, Except.pure_eq,
    Option.toList, List.append_nil]
  rfl

/-- The link line makes the table one that joins others. -/
theorem readLink_shown {registered : String → Option Table} {draft : Draft} {t : Table} {e : Ends}
    {first : Seen} (newLine : mark.token.kind = .newLine) (found : draft.table = some t)
    (absent : draft.link = none) (h : Forall₂ Seen.Shows (first :: tokens) e.line) :
    draft.readSetting registered first ⟨tokens, .newLine mark⟩ =
      .ok (.fresh { draft with
        table := some { t with manyToMany := true }
        link := some
          ⟨t.domain, Identifier.titleCase e.one.text, Identifier.titleCase e.two.text⟩ }) := by
  obtain _ | ⟨keyword, _ | ⟨one, _ | ⟨two, _ | _⟩⟩⟩ := h
  rename_i oneSeen twoSeen
  have isLink : first.token.isKeyword Setting.link.keyword = true := by
    rw [keyword.isKeyword, sameLetters_comm]
    exact e.keyword.same
  have notClass : first.token.isKeyword Setting.table.keyword = false := by
    have same := e.keyword.same
    rw [Text.sameLetters, beq_iff_eq] at same
    rw [keyword.isKeyword, Text.sameLetters, ← same]
    decide
  have body : linkBody t.domain ⟨[oneSeen, twoSeen], .newLine mark⟩ =
      .ok (⟨t.domain, Identifier.titleCase e.one.text, Identifier.titleCase e.two.text⟩, none) := by
    unfold linkBody
    simp only [linkedName_shown .first one, linkedName_shown .second two, Except.ok_bind,
      endSetting_newLine newLine]
    rfl
  unfold Draft.readSetting
  rw [if_neg (by simp [notClass]), if_pos isLink]
  unfold Draft.readLink
  simp only [found, absent, body, Except.ok_bind, Except.pure_eq, Option.toList, List.append_nil]
  rfl

end TableSchema.Definition
