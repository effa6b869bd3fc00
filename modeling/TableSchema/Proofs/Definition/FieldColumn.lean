import Mathlib.Data.List.DropRight
import TableSchema.Proofs.Outcome
import TableSchema.Definition.FieldLine

/-!
The column that a field line declares.

The parts of a field line stand in any order and may be repeated, and what a type makes of them
differs from type to type. Still the parts of the column that comes out belong together
(`Column.Declared`): its storage is one of those that its type can have (`ValueType.Stores`), it is
required if it is a key, and it belongs to the table of its file. A line that is read adds one such
column and does nothing else (`readField_eq_ok`).
-/

namespace TableSchema

/-- Trimming once is enough. -/
theorem Text.trim_trim (cs : List Char) : trim (trim cs) = trim cs := by
  have ends : dropEnd isBlank (trim cs) = trim cs :=
    List.rdropWhile_idempotent (p := isBlank) (l := cs.dropWhile isBlank)
  have starts : (trim cs).dropWhile isBlank = trim cs := by
    -- what is left begins as it did before its end was trimmed
    have front : trim cs <+: cs.dropWhile isBlank := List.rdropWhile_prefix isBlank _
    rw [List.dropWhile_eq_self_iff]
    intro filled
    rw [front.getElem filled]
    exact List.dropWhile_eq_self_iff.mp (List.dropWhile_idempotent isBlank cs) _
  rw [trim, starts, ends]

theorem Token.trim_commentBody (t : Token) :
    Text.trim t.commentBody.toList = t.commentBody.toList := by
  rw [commentBody, String.toList_ofList, Text.trim_trim]

/-- The ways in which the values of a type are stored. A string that is computed has an expression,
without blanks around it. -/
inductive ValueType.Stores : ValueType → Storage → Prop
  | blob (length : Option Nat) : Stores .blob (.blob length)
  | boolean : Stores .boolean (.bounded 1)
  | date : Stores .date .plain
  | double (length : Nat) (precision : Option Nat) : Stores .double (.decimal length precision)
  | integer (length : Nat) : Stores .integer (.bounded length)
  | long (length : Nat) : Stores .long (.bounded length)
  | timestamp (length : Nat) : Stores .timestamp (.bounded length)
  | string (length : Nat) : Stores .string (.bounded length)
  | computed (length : Nat) {expression : String} :
      expression ≠ "" → Text.trim expression.toList = expression.toList →
      Stores .string (.computed length expression)

/-- A column as a line of the file of `domain` declares it. -/
structure Column.Declared (c : Column) (domain : String) : Prop where
  table : c.table = domain
  stores : c.type.Stores c.storage
  required : c.isKey = true → c.flags.required = true
  own : c.linkGenerated = false

namespace Definition

/-- What the parts of a field line keep to: a key is required, and the comment is trimmed. -/
structure FieldParts.Sound (parts : FieldParts) : Prop where
  required : parts.flags.key = true → parts.flags.required = true
  trimmed : ∀ comment, parts.comment = some comment → Text.trim comment.toList = comment.toList

theorem FieldParts.sound_start : start.Sound := ⟨nofun, nofun⟩

theorem FieldParts.Sound.add {parts parts' : FieldParts} {seen : Seen} (h : parts.Sound)
    (added : parts.add seen = .ok parts') : parts'.Sound := by
  unfold FieldParts.add at added
  split at added
  · split at added
    · rename_i flags marked
      cases added
      obtain ⟨c, _, marked⟩ := Option.bind_eq_some_iff.mp marked
      exact ⟨Flags.required_of_mark?_eq_some h.required marked, h.trimmed⟩
    · cases added
  · cases added
    refine ⟨h.required, ?_⟩
    rintro _ ⟨⟩
    exact seen.token.trim_commentBody
  · split at added
    · cases added
      exact ⟨h.required, h.trimmed⟩
    · cases added
      exact ⟨h.required, h.trimmed⟩
    · cases added
  · cases added

/-- A type gives its values a storage that they can have. -/
theorem FieldType.stores_of_storage? {type : FieldType} {length : Length}
    {comment rest : Option String} {storage : Storage}
    (trimmed : ∀ text, comment = some text → Text.trim text.toList = text.toList)
    (h : type.storage? length comment = some (storage, rest)) : type.valueType.Stores storage := by
  cases type with
  | vstring =>
    unfold storage? at h
    dsimp only at h
    split at h
    · cases h
    · rename_i expression
      split at h
      · cases h
      · rename_i filled
        cases h
        exact .computed _ filled (trimmed expression rfl)
  | _ =>
    cases h
    constructor

/-- A field line adds one column. -/
theorem readField_eq_ok {t u : Table} {first : Seen} {e : Entry}
    (h : readField t first e = .ok u) : ∃ c, c.Declared t.domain ∧ t.addColumn c = .ok u := by
  rw [readField] at h
  split at h
  · split at h
    · cases h
    · rename_i type _
      obtain ⟨⟨length, e⟩, _, h⟩ := Except.bind_eq_ok.mp h
      obtain ⟨parts, read, h⟩ := Except.bind_eq_ok.mp h
      obtain ⟨mark, _, h⟩ := Except.bind_eq_ok.mp h
      have sound : parts.Sound :=
        foldlM_keeps (fun _ _ _ before step => before.add step) FieldParts.sound_start read
      split at h
      · cases h
      · split at h
        · cases h
        · rename_i storage comment stored
          dsimp only at h
          split at h
          · rename_i v added
            cases h
            refine ⟨_, ?_, added⟩
            exact ⟨rfl, FieldType.stores_of_storage? sound.trimmed stored, sound.required, rfl⟩
          · cases h
  · cases h

end Definition

end TableSchema
