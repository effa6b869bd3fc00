import TableSchema.Definition.Draft
import TableSchema.Proofs.Outcome

/-!
What is read does not depend on places.

Each reader looks at the kinds and the texts of the tokens of a line. Where a token stands goes into
nothing but the place of a refusal. So a line gives the same without the places of its tokens
(`Entry.bare`), and what is refused is refused for the same problem (`tell`). In the same way the
comments and the foreign keys that a draft has already are only put in front of those that are read
(`Draft.readEntries_bare`).
-/

namespace TableSchema

/-- The token without its place. -/
def Token.bare (t : Token) : Token := ⟨t.kind, t.text, 0, 0⟩

namespace Token

variable (t : Token)

@[simp] theorem bare_kind : t.bare.kind = t.kind := rfl

@[simp] theorem bare_text : t.bare.text = t.text := rfl

@[simp] theorem special?_bare : t.bare.special? = t.special? := rfl

@[simp] theorem commentBody_bare : t.bare.commentBody = t.commentBody := rfl

end Token

namespace Definition

/-- The token without its place and its line. -/
def Seen.bare (seen : Seen) : Seen := ⟨seen.token.bare, []⟩

@[simp] theorem Seen.bare_token (seen : Seen) : seen.bare.token = seen.token.bare := rfl

/-- The ending without its place. -/
def Ending.bare : Ending → Ending
  | newLine mark => newLine mark.bare
  | flaw mark => flaw mark.bare
  | unreadable => unreadable

/-- The entry without the places of its tokens. -/
def Entry.bare (e : Entry) : Entry := ⟨e.tokens.map Seen.bare, e.ending.bare⟩

/-- The problem without the place of the token that was received. -/
def Problem.bare : Problem → Problem
  | headerExpected received => headerExpected received.bare
  | classNameExpected received => classNameExpected received.bare
  | linkedNameExpected side received => linkedNameExpected side received.bare
  | afterSetting setting received => afterSetting setting received.bare
  | tooLarge number => tooLarge number.bare
  | flagExpected received => flagExpected received.bare
  | fieldPartUnexpected received => fieldPartUnexpected received.bare
  | foreignFieldExpected received => foreignFieldExpected received.bare
  | problem => problem

/-- The place of a token without a place. -/
def nowhere : Place := ⟨0, 1, String.ofList []⟩

/-- The refusal without its place. -/
def Refusal.bare : Refusal → Refusal
  | lexical message _ => lexical message nowhere
  | grammar problem _ => grammar problem.bare nowhere
  | undeclared index field domain _ => undeclared index field domain nowhere
  | unreadable failure => unreadable failure

theorem Problem.message_bare (problem : Problem) : problem.bare.message = problem.message := by
  cases problem <;> rfl

/-- Without its place a refusal has the same class and the same message. -/
theorem Refusal.diagnostic_bare (refusal : Refusal) (file : String) :
    (refusal.bare.diagnostic file).category = (refusal.diagnostic file).category ∧
      (refusal.bare.diagnostic file).message = (refusal.diagnostic file).message := by
  cases refusal with
  | grammar problem place => exact ⟨rfl, problem.message_bare⟩
  | lexical | undeclared | unreadable => exact ⟨rfl, rfl⟩

/-! ## Results -/

/-- The result without places: `f` of what was read, or the refusal without its place. -/
def tell {α β : Type} (f : α → β) : Except Refusal α → Except Refusal β
  | .ok a => .ok (f a)
  | .error refusal => .error refusal.bare

section

variable {α β γ δ : Type}

theorem eq_ok_of_tell {x : Except Refusal α} {a : α} (h : tell id x = .ok a) : x = .ok a := by
  cases x with
  | ok b => exact h
  | error refusal => cases h

theorem exists_error_of_tell {x : Except Refusal α} {f : α → β} {refusal : Refusal}
    (h : tell f x = .error refusal) : ∃ cause, x = .error cause ∧ cause.bare = refusal := by
  cases x with
  | ok a => cases h
  | error cause => exact ⟨cause, rfl, Except.error.inj h⟩

/-- Readers that are told alike step by step are told alike. -/
theorem tell_bind {x : Except Refusal α} {x' : Except Refusal β} {f : α → Except Refusal γ}
    {f' : β → Except Refusal δ} {g : α → β} {g' : γ → δ} (first : x' = tell g x)
    (next : ∀ a, f' (g a) = tell g' (f a)) : (x' >>= f') = tell g' (x >>= f) := by
  rw [first]
  cases x with
  | ok a => exact next a
  | error refusal => rfl

theorem tell_read {x : Except Refusal (α × Entry)} {x' : Except Refusal (β × Entry)}
    {f : α × Entry → Except Refusal γ} {f' : β × Entry → Except Refusal δ} {g : α → β} {g' : γ → δ}
    (first : x' = tell (Prod.map g Entry.bare) x)
    (next : ∀ a e, f' (g a, e.bare) = tell g' (f (a, e))) : (x' >>= f') = tell g' (x >>= f) :=
  tell_bind first fun result => next result.1 result.2

/-- A reader asks for kinds and texts only, so in both runs its questions are the same once they are
unfolded. -/
theorem tell_ite {c c' : Prop} [Decidable c] [Decidable c'] {x y : Except Refusal α}
    {x' y' : Except Refusal β} {f : α → β} (same : c' ↔ c) (yes : x' = tell f x)
    (no : y' = tell f y) : (if c' then x' else y') = tell f (if c then x else y) := by
  by_cases h : c
  · rw [if_pos h, if_pos (same.mpr h), yes]
  · rw [if_neg h, if_neg (mt same.mp h), no]

theorem tell_foldlM {step step' : β → Seen → Except Refusal β} {f : β → β}
    (one : ∀ b seen, step' (f b) seen.bare = tell f (step b seen)) (b : β) (tokens : List Seen) :
    (tokens.map Seen.bare).foldlM step' (f b) = tell f (tokens.foldlM step b) := by
  induction tokens generalizing b with
  | nil => rfl
  | cons seen rest ih =>
    rw [List.map_cons, List.foldlM_cons, List.foldlM_cons]
    exact tell_bind (one b seen) ih

end

variable (e : Entry) (first : Seen)

theorem newLine?_bare (ending : Ending) :
    ending.bare.newLine? = tell Seen.bare ending.newLine? := by
  cases ending <;> rfl

/-! ## The fields of a line -/

theorem next_bare : e.bare.next = tell (Prod.map Seen.bare Entry.bare) e.next := by
  obtain ⟨tokens, ending⟩ := e
  cases tokens with
  | nil => cases ending <;> rfl
  | cons seen rest => rfl

theorem readNumber_bare (problem : Problem) :
    readNumber problem.bare e.bare = tell (Prod.map id Entry.bare) (readNumber problem e) := by
  refine tell_read (next_bare e) fun seen after => tell_ite Iff.rfl ?_ rfl
  exact tell_ite Iff.rfl rfl rfl

theorem readPrecision_bare :
    readPrecision e.bare = tell (Prod.map id Entry.bare) (readPrecision e) := by
  refine tell_read (next_bare e) fun seen after => tell_ite Iff.rfl ?_ rfl
  exact tell_read (readNumber_bare after .precisionExpected) fun _ _ => rfl

theorem readLength_bare (withPrecision : Bool) :
    readLength withPrecision e.bare =
      tell (Prod.map id Entry.bare) (readLength withPrecision e) := by
  refine tell_read (readNumber_bare e .lengthExpected) fun size e => tell_ite Iff.rfl ?_ ?_
  · refine tell_read (readPrecision_bare e) fun precision e => ?_
    exact tell_read (next_bare e) fun seen after => tell_ite Iff.rfl rfl rfl
  · have absent : (.ok (none, e.bare) : Except Refusal (Option Nat × Entry)) =
        tell (Prod.map id Entry.bare) (.ok (none, e)) := rfl
    refine tell_read absent fun precision e => ?_
    exact tell_read (next_bare e) fun seen after => tell_ite Iff.rfl rfl rfl

theorem readTypeLength_bare (type : FieldType) :
    readTypeLength type e.bare = tell (Prod.map id Entry.bare) (readTypeLength type e) := by
  refine tell_read (next_bare e) fun seen after => ?_
  dsimp only
  cases type.lengthRule with
  | forbidden => exact tell_ite Iff.rfl rfl rfl
  | optional => exact tell_ite Iff.rfl (readLength_bare after false) rfl
  | required => exact tell_ite Iff.rfl (readLength_bare after false) rfl
  | withPrecision => exact tell_ite Iff.rfl (readLength_bare after true) rfl

/-- The parts without the place of the name. -/
def FieldParts.bare (parts : FieldParts) : FieldParts :=
  { parts with name := parts.name.map Token.bare }

theorem fieldPart_bare (parts : FieldParts) (seen : Seen) :
    parts.bare.add seen.bare = tell FieldParts.bare (parts.add seen) := by
  rw [FieldParts.add, FieldParts.add]
  dsimp only [Seen.bare_token, Token.bare_kind]
  cases seen.token.kind with
  | special =>
    dsimp only [FieldParts.bare, Token.special?_bare]
    cases seen.token.special?.bind parts.flags.mark? <;> rfl
  | comment => rfl
  | word =>
    obtain ⟨flags, name, columnName, comment⟩ := parts
    cases name with
    | none => rfl
    | some name => cases columnName <;> rfl
  | header | newLine | flaw => rfl

theorem readField_bare (t : Table) :
    readField t first.bare e.bare = tell id (readField t first e) := by
  refine tell_ite Iff.rfl ?_ rfl
  dsimp only [Seen.bare_token, Token.bare_text]
  cases FieldType.ofKeyword? first.token.text with
  | none => rfl
  | some type =>
    refine tell_read (readTypeLength_bare e type) fun length e => ?_
    refine tell_bind (tell_foldlM fieldPart_bare .start e.tokens) fun parts => ?_
    refine tell_bind (newLine?_bare e.ending) fun mark => ?_
    obtain ⟨flags, name, columnName, comment⟩ := parts
    cases name with
    | none => rfl
    | some name =>
      dsimp only [FieldParts.bare, Option.map, id, Token.bare_text]
      cases type.storage? length comment with
      | none => rfl
      | some stored =>
        dsimp only
        split <;> rfl

theorem addIndexed_bare (t : Table) (index : Index) (seen : Seen) :
    addIndexed t index seen.bare = tell id (addIndexed t index seen) := by
  rw [addIndexed, addIndexed]
  dsimp only [Seen.bare_token, Token.bare_kind, Token.bare_text]
  cases seen.token.kind with
  | comment => rfl
  | word => cases t.column? seen.token.text <;> rfl
  | special | header | newLine | flaw => rfl

theorem readIndex_bare (t : Table) :
    readIndex t first.bare e.bare = tell id (readIndex t first e) := by
  refine tell_ite Iff.rfl ?_ rfl
  refine tell_bind (tell_foldlM (addIndexed_bare t) _ e.tokens) fun index => ?_
  refine tell_bind (newLine?_bare e.ending) fun mark => tell_ite Iff.rfl rfl ?_
  cases t.addIndex? index <;> rfl

theorem readLocalFields_bare (ending : Ending) (tokens : List Seen) :
    readLocalFields ending.bare (tokens.map Seen.bare) =
      tell (Prod.map id (Prod.map Seen.bare (List.map Seen.bare)))
        (readLocalFields ending tokens) := by
  induction tokens with
  | nil => exact tell_bind (newLine?_bare ending) fun _ => rfl
  | cons seen rest ih =>
    refine tell_ite Iff.rfl rfl (tell_ite Iff.rfl ?_ rfl)
    exact tell_bind ih fun _ => rfl

theorem foreignField_bare (foreign : ForeignFields) (seen : Seen) :
    foreign.add seen.bare = tell id (foreign.add seen) := by
  refine tell_ite Iff.rfl rfl ?_
  have named : foreignField? seen.bare.token = foreignField? seen.token := rfl
  rw [named]
  cases foreignField? seen.token with
  | none => rfl
  | some field =>
    cases foreign.table with
    | none => rfl
    | some expected => exact tell_ite Iff.rfl rfl rfl

theorem readForeignKey_bare (domain : String) :
    readForeignKey domain first.bare e.bare = tell id (readForeignKey domain first e) := by
  refine tell_bind (readLocalFields_bare e.ending (first :: e.tokens)) ?_
  rintro ⟨fields, keyword, rest⟩
  refine tell_ite Iff.rfl rfl ?_
  refine tell_bind (tell_foldlM foreignField_bare .start rest) fun foreign => ?_
  refine tell_bind (newLine?_bare e.ending) fun mark => ?_
  cases foreign.table <;> rfl

/-! ## The settings -/

theorem endSetting_bare (setting : Setting) :
    endSetting setting e.bare = tell id (endSetting setting e) := by
  refine tell_read (next_bare e) fun seen after => tell_ite Iff.rfl ?_ ?_
  · exact tell_read (next_bare after) fun last _ => tell_ite Iff.rfl rfl rfl
  · exact tell_ite Iff.rfl rfl rfl

theorem className_bare : className e.bare = tell (Prod.map id Entry.bare) (className e) :=
  tell_read (next_bare e) fun _ _ => tell_ite Iff.rfl rfl rfl

theorem tableName_bare (domain : String) :
    tableName domain e.bare = tell (Prod.map id Entry.bare) (tableName domain e) :=
  tell_read (next_bare e) fun _ _ => tell_ite Iff.rfl rfl rfl

theorem classBody_bare (domain : String) :
    classBody domain e.bare = tell id (classBody domain e) := by
  refine tell_read (tableName_bare e domain) fun name e => ?_
  exact tell_bind (endSetting_bare e .table) fun _ => rfl

theorem linkedName_bare (side : Side) :
    linkedName side e.bare = tell (Prod.map id Entry.bare) (linkedName side e) :=
  tell_read (next_bare e) fun _ _ => tell_ite Iff.rfl rfl rfl

theorem linkBody_bare (domain : String) :
    linkBody domain e.bare = tell id (linkBody domain e) := by
  refine tell_read (linkedName_bare e .first) fun one e => ?_
  refine tell_read (linkedName_bare e .second) fun two e => ?_
  exact tell_bind (endSetting_bare e .link) fun _ => rfl

/-! ## Drafts -/

/-- The draft with some comments and foreign keys in front of its own. -/
def Draft.behind (front : List String) (keys : List ForeignKey) (d : Draft) : Draft :=
  { d with docs := front ++ d.docs, foreignKeys := keys ++ d.foreignKeys }

/-- What was read, with some comments and foreign keys in front of the others. -/
def Reading.behind (front : List String) (keys : List ForeignKey) : Reading Draft → Reading Draft
  | fresh d => fresh (d.behind front keys)
  | registered t => registered t

namespace Draft

variable (registered : String → Option Table) (front : List String) (keys : List ForeignKey)
  (d : Draft)

theorem readClass_bare : (d.behind front keys).readClass registered first.bare e.bare =
    tell (Reading.behind front keys) (d.readClass registered first e) := by
  refine tell_ite Iff.rfl rfl ?_
  refine tell_read (className_bare e) fun domain e => ?_
  dsimp only [id]
  cases registered domain with
  | some table => rfl
  | none =>
    refine tell_bind (classBody_bare e domain) ?_
    rintro ⟨table, doc⟩
    simp [behind, tell, Reading.behind]

theorem readLink_bare : (d.behind front keys).readLink first.bare e.bare =
    tell (behind front keys) (d.readLink first e) := by
  rw [readLink, readLink]
  dsimp only [behind]
  cases d.table with
  | none => rfl
  | some table =>
    refine tell_ite Iff.rfl rfl ?_
    refine tell_bind (linkBody_bare e table.domain) ?_
    rintro ⟨link, doc⟩
    simp [behind, tell]

theorem readSetting_bare : (d.behind front keys).readSetting registered first.bare e.bare =
    tell (Reading.behind front keys) (d.readSetting registered first e) := by
  refine tell_ite Iff.rfl (readClass_bare e first registered front keys d) ?_
  refine tell_ite Iff.rfl ?_ rfl
  exact tell_bind (readLink_bare e first front keys d) fun _ => rfl

theorem readMember_bare {read read' : Table → Except Refusal Draft}
    (same : ∀ t, read' t = tell (behind front keys) (read t)) :
    (d.behind front keys).readMember first.bare read' =
      tell (Reading.behind front keys) (d.readMember first read) := by
  rw [readMember, readMember]
  dsimp only [behind]
  cases d.table with
  | none => rfl
  | some table => exact tell_bind (same table) fun _ => rfl

theorem readDeclaration_bare : (d.behind front keys).readDeclaration registered first.bare e.bare =
    tell (Reading.behind front keys) (d.readDeclaration registered first e) := by
  rw [readDeclaration, readDeclaration]
  have section' : (d.behind front keys).current = d.current := rfl
  rw [section']
  cases d.current with
  | none => rfl
  | some part =>
    cases part with
    | settings => exact readSetting_bare e first registered front keys d
    | fields =>
      exact readMember_bare first front keys d fun t =>
        tell_bind (readField_bare e first t) fun _ => rfl
    | indexes =>
      exact readMember_bare first front keys d fun t =>
        tell_bind (readIndex_bare e first t) fun _ => rfl
    | foreignKeys =>
      refine readMember_bare first front keys d fun t => ?_
      refine tell_bind (readForeignKey_bare e first t.domain) fun key => ?_
      simp [behind, tell]

theorem readTokens_bare (ending : Ending) (tokens : List Seen) :
    readTokens registered ending.bare (d.behind front keys) (tokens.map Seen.bare) =
      tell (Reading.behind front keys) (readTokens registered ending d tokens) := by
  induction tokens generalizing d with
  | nil => exact tell_bind (newLine?_bare ending) fun _ => rfl
  | cons seen rest ih =>
    rw [List.map_cons, readTokens, readTokens]
    dsimp only [Seen.bare_token, Token.bare_kind]
    cases seen.token.kind with
    | comment =>
      have noted : ({ d.behind front keys with
          docs := (d.behind front keys).docs ++ [seen.token.bare.commentBody] } : Draft) =
          ({ d with docs := d.docs ++ [seen.token.commentBody] } : Draft).behind front keys := by
        simp [behind]
      dsimp only
      rw [noted]
      exact ih _
    | header => exact ih { d with current := seen.token.heading? }
    | word | special | newLine | flaw =>
      exact readDeclaration_bare ⟨rest, ending⟩ seen registered front keys d

/-- Reading entries without the places of their tokens, behind some comments and foreign keys, gives
the same draft behind these, or the same refusal without its place. -/
theorem readEntries_bare (entries : List Entry) :
    readEntries registered (d.behind front keys) (entries.map Entry.bare) =
      tell (Reading.behind front keys) (readEntries registered d entries) := by
  induction entries generalizing d with
  | nil => rfl
  | cons e entries ih =>
    refine tell_bind (readTokens_bare registered front keys d e.ending e.tokens) fun reading => ?_
    cases reading with
    | registered t => rfl
    | fresh d' => exact ih d'

end Draft

end Definition

end TableSchema
