import TableSchema.Definition.Draft
import TableSchema.Proofs.Outcome

/-!
The tokens that a refusal is about.

A refusal with a place blames one token and shows the line on which the token read last has ended.
Both are tokens of one entry, and the second is the first or stands behind it (`Refusal.Among`): a
line is refused at the token that does not fit or, when it is at its end, at one of its tokens
before. Only a missing class is not the fault of a token (`ofEvents_refused`).

Each reader is followed once, over whatever part of an entry it is given (`Within`).
-/

namespace TableSchema.Definition

/-- The place of a refusal, if it has one. -/
def Refusal.place? : Refusal → Option Place
  | lexical _ place | grammar _ place | undeclared _ _ _ place => some place
  | unreadable _ => none

theorem Refusal.location_eq (refusal : Refusal) (file : String) :
    (refusal.diagnostic file).location = refusal.place?.map (Location.mk file) := by
  cases refusal <;> rfl

/-- The token with which an entry ends, if it does not end at a line that is no text. -/
def Ending.mark? : Ending → Option Seen
  | newLine mark | flaw mark => some mark
  | unreadable => none

/-- All tokens of an entry, with the one that ends it. -/
def Entry.seens (e : Entry) : List Seen := e.tokens ++ e.ending.mark?.toList

/-- What holds of every token of some events, and of the end of a line behind it, holds of all
tokens of their entries. -/
theorem forall_seens_ofEvents {events : List Event} {holds : Token → Prop}
    (each : ∀ e ∈ events, ∀ t, e.reply = .token t →
      holds t ∧ holds (.lineEnd e.row e.line.length)) :
    ∀ entry ∈ Entry.ofEvents events, ∀ seen ∈ entry.seens, holds seen.token := by
  induction events with
  | nil =>
    intro entry hentry
    cases hentry
  | cons event events ih =>
    have later := ih fun e he => each e (List.mem_cons_of_mem _ he)
    have here := each event List.mem_cons_self
    obtain ⟨reply, row, line⟩ := event
    cases reply with
    | unreadable => exact List.forall_mem_cons.mpr ⟨nofun, later⟩
    | token t =>
      obtain ⟨token, lineEnd⟩ := here t rfl
      rw [Entry.ofEvents]
      split
      · exact List.forall_mem_cons.mpr ⟨List.forall_mem_singleton.mpr token, later⟩
      · exact List.forall_mem_cons.mpr ⟨List.forall_mem_singleton.mpr token, later⟩
      · split
        · exact List.forall_mem_singleton.mpr
            (List.forall_mem_cons.mpr ⟨token, List.forall_mem_singleton.mpr lineEnd⟩)
        · rename_i entry entries split
          rw [split] at later
          obtain ⟨rest, later⟩ := List.forall_mem_cons.mp later
          exact List.forall_mem_cons.mpr ⟨List.forall_mem_cons.mpr ⟨token, rest⟩, later⟩

/-- The place is that of the first of the tokens `read`, and shows the line of the last. -/
def Spans (place : Place) (read : List Seen) : Prop :=
  ∃ first last, read.head? = some first ∧ read.getLast? = some last ∧
    place = last.placeOf first.token

/-- The refusal has no place, or it blames one of the tokens `seens` when those up to one further on
had been read. -/
def Refusal.Among (seens : List Seen) (refusal : Refusal) : Prop :=
  ∀ place, refusal.place? = some place → ∃ read, read <:+: seens ∧ Spans place read

/-- What is read has the property, and what is refused is refused among `seens`. -/
def Within {α : Type} (seens : List Seen) (keeps : α → Prop) : Except Refusal α → Prop
  | .ok result => keeps result
  | .error refusal => refusal.Among seens

section

variable {α β : Type} {seens : List Seen} {keeps : α → Prop} {keeps' : β → Prop}

theorem Within.bind {x : Except Refusal α} {f : α → Except Refusal β} (h : Within seens keeps x)
    (next : ∀ a, keeps a → Within seens keeps' (f a)) : Within seens keeps' (x >>= f) := by
  cases x with
  | ok a => exact next a h
  | error refusal => exact h

theorem within_foldlM {step : β → α → Except Refusal β} {list : List α} {b : β} (start : keeps' b)
    (one : ∀ b, ∀ a ∈ list, keeps' b → Within seens keeps' (step b a)) :
    Within seens keeps' (list.foldlM step b) := by
  induction list generalizing b with
  | nil => exact start
  | cons a rest ih =>
    rw [List.foldlM_cons]
    exact (one b a List.mem_cons_self start).bind fun b' kept =>
      ih kept fun b a ha => one b a (List.mem_cons_of_mem _ ha)

end

variable {seens : List Seen} {seen first : Seen} {e : Entry}

theorem among_of_spans {refusal : Refusal} {place : Place} {read : List Seen}
    (located : refusal.place? = some place) (inside : read <:+: seens) (spans : Spans place read) :
    refusal.Among seens := by
  intro other hother
  obtain rfl := Option.some.inj (located.symm.trans hother)
  exact ⟨read, inside, spans⟩

/-- A refusal at the token read last. -/
theorem among_of_mem {refusal : Refusal} (h : seen ∈ seens)
    (located : refusal.place? = some (seen.placeOf seen.token)) : refusal.Among seens := by
  obtain ⟨front, back, rfl⟩ := List.append_of_mem h
  have inside : [seen] <:+: front ++ seen :: back := ⟨front, back, by simp⟩
  exact among_of_spans located inside ⟨seen, seen, rfl, rfl, rfl⟩

theorem among_reject (h : seen ∈ seens) (problem : Problem) : (seen.reject problem).Among seens :=
  among_of_mem h rfl

/-- A refusal of a token when the whole entry has been read. -/
theorem among_refuse {mark : Seen} (h : e.seens <:+ seens) (inside : seen ∈ e.tokens)
    (ends : e.ending.mark? = some mark) (problem : Problem) :
    (mark.refuse seen.token problem).Among seens := by
  obtain ⟨front, back, tokens⟩ := List.append_of_mem inside
  have suffix : seen :: back ++ [mark] <:+ e.seens := by
    refine ⟨front, ?_⟩
    unfold Entry.seens
    rw [tokens, ends]
    simp
  refine among_of_spans rfl (suffix.trans h).isInfix ⟨seen, mark, rfl, ?_, rfl⟩
  exact List.getLast?_concat

theorem Entry.mem_seens_of_mem {mark : Seen} (h : e.seens <:+ seens)
    (ends : e.ending.mark? = some mark) : mark ∈ seens := by
  refine h.subset (List.mem_append_right _ ?_)
  simp [ends]

/-! ## Readers of parts of a line -/

theorem within_newLine? (h : e.seens <:+ seens) :
    Within seens (fun mark => e.ending.mark? = some mark) e.ending.newLine? := by
  cases ending : e.ending with
  | newLine mark => rfl
  | unreadable => exact nofun
  | flaw mark => exact among_of_mem (Entry.mem_seens_of_mem h (congrArg _ ending)) rfl

/-- Reading leaves a part of the entry. -/
def Leaves {α : Type} (seens : List Seen) (result : α × Entry) : Prop := result.2.seens <:+ seens

theorem within_next (h : e.seens <:+ seens) :
    Within seens (fun result => result.1 ∈ seens ∧ Leaves seens result) e.next := by
  unfold Entry.next
  split
  · exact (within_newLine? h).bind fun mark ends => ⟨Entry.mem_seens_of_mem h ends, h⟩
  · rename_i seen rest tokens
    have whole : e.seens = seen :: ({ e with tokens := rest } : Entry).seens := by
      unfold Entry.seens
      rw [tokens, List.cons_append]
    rw [whole] at h
    exact ⟨h.subset List.mem_cons_self, (List.suffix_cons _ _).trans h⟩

theorem within_taken {α : Type} {taken : Prop} [Decidable taken] {result : α} {after : Entry}
    {problem : Problem} (inside : seen ∈ seens) (rest : after.seens <:+ seens) :
    Within seens (Leaves seens)
      (if taken then .ok (result, after) else .error (seen.reject problem)) := by
  split
  · exact rest
  · exact among_reject inside _

theorem within_readNumber (h : e.seens <:+ seens) (problem : Problem) :
    Within seens (Leaves seens) (readNumber problem e) := by
  refine (within_next h).bind fun ⟨seen, after⟩ ⟨inside, rest⟩ => ?_
  dsimp only
  split
  · exact within_taken inside rest
  · exact among_reject inside _

theorem within_readPrecision (h : e.seens <:+ seens) :
    Within seens (Leaves seens) (readPrecision e) := by
  refine (within_next h).bind fun ⟨seen, after⟩ ⟨_, rest⟩ => ?_
  dsimp only
  split
  · exact (within_readNumber rest _).bind fun ⟨precision, e⟩ rest => rest
  · exact h

theorem within_readLength (h : e.seens <:+ seens) (withPrecision : Bool) :
    Within seens (Leaves seens) (readLength withPrecision e) := by
  refine (within_readNumber h _).bind fun ⟨size, e⟩ rest => ?_
  dsimp only
  split
  · refine (within_readPrecision rest).bind fun ⟨precision, e⟩ rest => ?_
    exact (within_next rest).bind fun ⟨seen, after⟩ ⟨inside, rest⟩ => within_taken inside rest
  · exact (within_next rest).bind fun ⟨seen, after⟩ ⟨inside, rest⟩ => within_taken inside rest

theorem within_readTypeLength (h : e.seens <:+ seens) (type : FieldType) :
    Within seens (Leaves seens) (readTypeLength type e) := by
  refine (within_next h).bind fun ⟨seen, after⟩ ⟨inside, rest⟩ => ?_
  dsimp only
  split <;> split
  · exact among_reject inside _
  · exact h
  · exact within_readLength rest _
  · exact h
  · exact within_readLength rest _
  · exact among_reject inside _
  · exact within_readLength rest _
  · exact among_reject inside _

theorem within_className (h : e.seens <:+ seens) : Within seens (Leaves seens) (className e) :=
  (within_next h).bind fun ⟨_, _⟩ ⟨inside, rest⟩ => within_taken inside rest

theorem within_linkedName (h : e.seens <:+ seens) (side : Side) :
    Within seens (Leaves seens) (linkedName side e) :=
  (within_next h).bind fun ⟨_, _⟩ ⟨inside, rest⟩ => within_taken inside rest

/-! ## Lines -/

theorem within_endSetting (h : e.seens <:+ seens) (setting : Setting) :
    Within seens (fun _ => True) (endSetting setting e) := by
  refine (within_next h).bind fun ⟨seen, after⟩ ⟨inside, rest⟩ => ?_
  dsimp only
  split
  · refine (within_next rest).bind fun ⟨last, _⟩ ⟨inside, _⟩ => ?_
    dsimp only
    split
    · trivial
    · exact among_reject inside _
  · split
    · trivial
    · exact among_reject inside _

theorem within_tableName (h : e.seens <:+ seens) (domain : String) :
    Within seens (Leaves seens) (tableName domain e) := by
  refine (within_next h).bind fun ⟨seen, after⟩ ⟨_, rest⟩ => ?_
  dsimp only
  split
  · exact rest
  · exact h

theorem within_classBody (h : e.seens <:+ seens) (domain : String) :
    Within seens (fun _ => True) (classBody domain e) := by
  refine (within_tableName h domain).bind fun ⟨name, e⟩ rest => ?_
  exact (within_endSetting rest _).bind fun _ _ => trivial

theorem within_linkBody (h : e.seens <:+ seens) (domain : String) :
    Within seens (fun _ => True) (linkBody domain e) := by
  refine (within_linkedName h _).bind fun ⟨one, e⟩ rest => ?_
  refine (within_linkedName rest _).bind fun ⟨two, e⟩ rest => ?_
  exact (within_endSetting rest _).bind fun _ _ => trivial

theorem within_fieldPart {parts : FieldParts} {tokens : List Seen} (inside : seen ∈ tokens)
    (part : tokens ⊆ seens)
    (named : ∀ name, parts.name = some name → ∃ seen ∈ tokens, seen.token = name) :
    Within seens (fun parts => ∀ name, parts.name = some name → ∃ seen ∈ tokens, seen.token = name)
      (parts.add seen) := by
  have refused := part inside
  unfold FieldParts.add
  split
  · split
    · exact named
    · exact among_reject refused _
  · exact named
  · split
    · intro name hname
      exact ⟨seen, inside, Option.some.inj hname⟩
    · exact named
    · exact among_reject refused _
  · exact among_reject refused _

/-- The fields that a line may still blame at its end are among its tokens. -/
theorem within_readField (t : Table) (h : first :: e.seens <:+ seens) :
    Within seens (fun _ => True) (readField t first e) := by
  have head : first ∈ seens := h.subset List.mem_cons_self
  unfold readField
  split
  · split
    · exact among_reject head _
    · rename_i type _
      refine (within_readTypeLength ((List.suffix_cons _ _).trans h) type).bind
        fun ⟨length, e⟩ rest => ?_
      have part : e.tokens ⊆ seens := List.Subset.trans (List.subset_append_left _ _) rest.subset
      -- what is wrong with the column as a whole is answered at the token of its field name
      refine (within_foldlM nofun fun _ _ inside => within_fieldPart inside part).bind
        fun parts named => ?_
      refine (within_newLine? rest).bind fun mark ends => ?_
      dsimp only
      split
      · exact among_reject (Entry.mem_seens_of_mem rest ends) _
      · rename_i name found
        obtain ⟨seen, inside, rfl⟩ := named name found
        split
        · exact among_refuse rest inside ends _
        · split
          · trivial
          · exact among_refuse rest inside ends _
  · exact among_reject head _

theorem within_addIndexed (t : Table) (index : Index) (inside : seen ∈ seens) :
    Within seens (fun _ => True) (addIndexed t index seen) := by
  unfold addIndexed
  split
  · trivial
  · split
    · trivial
    · exact among_of_mem inside rfl
  · exact among_reject inside _

theorem within_readIndex (t : Table) (h : first :: e.seens <:+ seens) :
    Within seens (fun _ => True) (readIndex t first e) := by
  have head : first ∈ seens := h.subset List.mem_cons_self
  have rest : e.seens <:+ seens := (List.suffix_cons _ _).trans h
  have part : e.tokens ⊆ seens := List.Subset.trans (List.subset_append_left _ _) rest.subset
  unfold readIndex
  split
  · refine (within_foldlM trivial fun index seen inside _ =>
      within_addIndexed t index (part inside)).bind fun index _ => ?_
    refine (within_newLine? rest).bind fun mark ends => ?_
    split
    · exact among_reject (Entry.mem_seens_of_mem rest ends) _
    · split
      · trivial
      · exact among_refuse (e := ⟨first :: e.tokens, e.ending⟩) h List.mem_cons_self ends _
  · exact among_reject head _

theorem within_readLocalFields {ending : Ending} {tokens : List Seen}
    (h : (⟨tokens, ending⟩ : Entry).seens <:+ seens) :
    Within seens (fun result => result.2.1 ∈ seens ∧ result.2.2 ⊆ seens)
      (readLocalFields ending tokens) := by
  induction tokens with
  | nil =>
    refine (within_newLine? h).bind fun mark ends => ?_
    exact among_reject (Entry.mem_seens_of_mem h ends) _
  | cons seen rest ih =>
    have inside : seen ∈ seens := h.subset List.mem_cons_self
    have behind : (⟨rest, ending⟩ : Entry).seens <:+ seens := (List.suffix_cons _ _).trans h
    rw [readLocalFields]
    split
    · exact ⟨inside, List.Subset.trans (List.subset_append_left _ _) behind.subset⟩
    · split
      · exact (ih behind).bind fun ⟨fields, keyword, rest⟩ found => found
      · exact among_reject inside _

theorem within_foreignField (foreign : ForeignFields) (inside : seen ∈ seens) :
    Within seens (fun _ => True) (foreign.add seen) := by
  unfold ForeignFields.add
  split
  · trivial
  · split
    · exact among_reject inside _
    · trivial
    · split
      · trivial
      · exact among_reject inside _

theorem within_readForeignKey (domain : String) (h : first :: e.seens <:+ seens) :
    Within seens (fun _ => True) (readForeignKey domain first e) := by
  have locals := @within_readLocalFields _ e.ending (first :: e.tokens) h
  refine locals.bind fun ⟨fields, keyword, rest⟩ ⟨inside, part⟩ => ?_
  dsimp only
  split
  · exact among_reject inside _
  · refine (within_foldlM trivial fun foreign seen inside _ =>
      within_foreignField foreign (part inside)).bind fun foreign _ => ?_
    have whole : e.seens <:+ seens := (List.suffix_cons _ _).trans h
    refine (within_newLine? whole).bind fun mark ends => ?_
    split
    · exact among_reject (Entry.mem_seens_of_mem whole ends) _
    · trivial

/-! ## Files -/

namespace Draft

variable {registered : String → Option Table} {d : Draft}

theorem within_readClass (h : first :: e.seens <:+ seens) :
    Within seens (fun _ => True) (d.readClass registered first e) := by
  unfold readClass
  split
  · exact among_reject (h.subset List.mem_cons_self) _
  · refine (within_className ((List.suffix_cons _ _).trans h)).bind fun ⟨domain, e⟩ rest => ?_
    dsimp only
    split
    · trivial
    · exact (within_classBody rest domain).bind fun _ _ => trivial

theorem within_readLink (h : first :: e.seens <:+ seens) :
    Within seens (fun _ => True) (d.readLink first e) := by
  have head : first ∈ seens := h.subset List.mem_cons_self
  unfold readLink
  split
  · exact among_reject head _
  · split
    · exact among_reject head _
    · exact (within_linkBody ((List.suffix_cons _ _).trans h) _).bind fun _ _ => trivial

theorem within_readSetting (h : first :: e.seens <:+ seens) :
    Within seens (fun _ => True) (d.readSetting registered first e) := by
  unfold readSetting
  split
  · exact within_readClass h
  · split
    · exact (within_readLink h).bind fun _ _ => trivial
    · exact among_reject (h.subset List.mem_cons_self) _

theorem within_readMember {read : Table → Except Refusal Draft} (inside : first ∈ seens)
    (reads : ∀ t, Within seens (fun _ => True) (read t)) :
    Within seens (fun _ => True) (d.readMember first read) := by
  unfold readMember
  split
  · exact among_reject inside _
  · exact (reads _).bind fun _ _ => trivial

theorem within_readDeclaration (h : first :: e.seens <:+ seens) :
    Within seens (fun _ => True) (d.readDeclaration registered first e) := by
  have head : first ∈ seens := h.subset List.mem_cons_self
  unfold readDeclaration
  split
  · exact among_reject head _
  · exact within_readSetting h
  · exact within_readMember head fun t => (within_readField t h).bind fun _ _ => trivial
  · exact within_readMember head fun t => (within_readIndex t h).bind fun _ _ => trivial
  · exact within_readMember head fun t => (within_readForeignKey _ h).bind fun _ _ => trivial

theorem within_readTokens {ending : Ending} {tokens : List Seen}
    (h : (⟨tokens, ending⟩ : Entry).seens <:+ seens) :
    Within seens (fun _ => True) (readTokens registered ending d tokens) := by
  induction tokens generalizing d with
  | nil => exact (within_newLine? h).bind fun _ _ => trivial
  | cons seen rest ih =>
    unfold readTokens
    split
    · exact ih ((List.suffix_cons _ _).trans h)
    · exact ih ((List.suffix_cons _ _).trans h)
    · exact within_readDeclaration (e := ⟨rest, ending⟩) h

theorem readEntries_refused {entries : List Entry} {refusal : Refusal}
    (h : readEntries registered d entries = .error refusal) :
    ∃ e ∈ entries, refusal.Among e.seens := by
  induction entries generalizing d with
  | nil => cases h
  | cons e entries ih =>
    rcases Except.bind_eq_error.mp h with refused | ⟨reading, _, h⟩
    · have among := @within_readTokens _ registered d _ _ (List.suffix_refl e.seens)
      rw [refused] at among
      exact ⟨e, List.mem_cons_self, among⟩
    · cases reading with
      | registered t => cases h
      | fresh middle =>
        obtain ⟨e', he', among⟩ := ih h
        exact ⟨e', List.mem_cons_of_mem _ he', among⟩

end Draft

/-- A file is refused among the tokens of one of its entries, or because it has no class. -/
theorem ofEvents_refused {registered : String → Option Table} {events : List Event}
    {refusal : Refusal} (h : ofEvents registered events = .error refusal) :
    (∃ e ∈ Entry.ofEvents events, refusal.Among e.seens) ∨
      refusal = .grammar .classMissing (endPlace events) := by
  rcases Except.bind_eq_error.mp h with refused | ⟨reading, _, h⟩
  · exact .inl (Draft.readEntries_refused refused)
  · cases reading with
    | registered t => cases h
    | fresh d =>
      rcases Except.bind_eq_error.mp h with missing | ⟨_, _, h⟩
      · unfold Draft.finish at missing
        split at missing
        · cases missing
          exact .inr rfl
        · cases missing
      · cases h

end TableSchema.Definition
