import TableSchema.Definition.Draft
import TableSchema.Proofs.Outcome

/-!
Reading a line that is cut short.

A line is read from its tokens one by one, and its end is looked at last. So a line that is cut
short is refused for the same reason as the whole line, or given up for the same table, unless
reading comes to where it is cut (`Meets`). Each reader is followed once, over a part of a line and
what the line goes on with. The last of them reads all tokens of a line (`Draft.meets_readTokens`).
-/

namespace TableSchema.Definition

/-- The refusal is due to what is missing at the end of an input: the end of a comment or a class. -/
def Refusal.Unfinished : Refusal → Prop
  | lexical message _ => message = Flaw.openComment.message
  | grammar problem _ => problem = .classMissing
  | undeclared _ _ _ _ | unreadable _ => False

/-- The tokens stand in front of the end of their line. -/
def Inner (tokens : List Seen) : Prop := ∀ seen ∈ tokens, seen.token.kind ≠ .newLine

/-- The entry `k` with some tokens in front. -/
def Entry.behind (k : Entry) (tokens : List Seen) : Entry := ⟨tokens ++ k.tokens, k.ending⟩

/-- A line that ends as `ending` says may go on as `k` instead. A line that has come to its end
stays as it is. -/
def Replaces (ending : Ending) (k : Entry) : Prop :=
  ∀ mark, ending.newLine? = .ok mark → k = ⟨[], ending⟩

/-- What reading gives for a line with this ending, and for one that goes on as `k` there. It gives
the same, unless it fails at the end. Then it also fails at the end of `k`, if this is next. -/
inductive Meets {α β : Type} (ending : Ending) (k : Entry) (same : α → β → Prop) :
    Except Refusal α → Except Refusal β → Prop
  | ok {a : α} {b : β} : same a b → Meets ending k same (.ok a) (.ok b)
  | refused {refusal : Refusal} : ¬refusal.Unfinished →
      Meets ending k same (.error refusal) (.error refusal)
  | ended {refusal : Refusal} {y : Except Refusal β} : ending.newLine? = .error refusal →
      (k.tokens = [] → ∀ other, k.ending.newLine? = .error other → y = .error other) →
      Meets ending k same (.error refusal) y

/-- What is refused is not refused for what is missing at the end of the input. -/
inductive Plain {α : Type} : Except Refusal α → Prop
  | ok {a : α} : Plain (.ok a)
  | refused {refusal : Refusal} : ¬refusal.Unfinished → Plain (.error refusal)

/-- Reading leaves the same part of the line in both cases. -/
inductive LeavesAlike {α : Type} (ending : Ending) (k : Entry) (keeps : α → Prop) :
    α × Entry → α × Entry → Prop
  | mk {a : α} {tokens : List Seen} : keeps a → Inner tokens →
      LeavesAlike ending k keeps (a, ⟨tokens, ending⟩) (a, k.behind tokens)

/-- Both readings give the same, and the line has come to its end. -/
def Ended {α : Type} (ending : Ending) (a b : α) : Prop :=
  a = b ∧ ∃ mark, ending.newLine? = .ok mark

section

variable {α β γ δ : Type} {ending : Ending} {k : Entry} {same : α → β → Prop} {same' : γ → δ → Prop}

theorem Meets.bind {x : Except Refusal α} {y : Except Refusal β} {f : α → Except Refusal γ}
    {g : β → Except Refusal δ} (h : Meets ending k same x y)
    (next : ∀ a b, same a b → Meets ending k same' (f a) (g b)) :
    Meets ending k same' (x >>= f) (y >>= g) := by
  cases h with
  | ok both => exact next _ _ both
  | refused plain => exact .refused plain
  | ended stop others =>
    refine .ended stop fun nothing other ends => ?_
    rw [others nothing other ends]
    rfl

theorem Meets.of_ok {a : α} {y : Except Refusal β} (h : Meets ending k same (.ok a) y) :
    ∃ b, y = .ok b ∧ same a b := by
  cases h with
  | ok both => exact ⟨_, rfl, both⟩

theorem Meets.of_error {refusal : Refusal} {y : Except Refusal β}
    (h : Meets ending k same (.error refusal) y) :
    ¬refusal.Unfinished ∧ y = .error refusal ∨
      ending.newLine? = .error refusal ∧
        (k.tokens = [] → ∀ other, k.ending.newLine? = .error other → y = .error other) := by
  cases h with
  | refused plain => exact .inl ⟨plain, rfl⟩
  | ended ends stops => exact .inr ⟨ends, stops⟩

theorem Meets.read {keeps : α → Prop} {x y : Except Refusal (α × Entry)}
    {f g : α × Entry → Except Refusal γ} {same' : γ → γ → Prop}
    (h : Meets ending k (LeavesAlike ending k keeps) x y)
    (next : ∀ a tokens, keeps a → Inner tokens →
      Meets ending k same' (f (a, ⟨tokens, ending⟩)) (g (a, k.behind tokens))) :
    Meets ending k same' (x >>= f) (y >>= g) := by
  refine h.bind fun _ _ leaves => ?_
  cases leaves with
  | mk kept inner => exact next _ _ kept inner

/-- What is read from a line that has come to its end. -/
theorem Plain.meets {x : Except Refusal α} {mark : Seen} (h : Plain x)
    (ends : ending.newLine? = .ok mark) : Meets ending k (Ended ending) x x := by
  cases h with
  | ok => exact .ok ⟨rfl, mark, ends⟩
  | refused plain => exact .refused plain

theorem plain_foldlM {step : β → α → Except Refusal β} {list : List α} {b : β}
    (one : ∀ b a, Plain (step b a)) : Plain (list.foldlM step b) := by
  induction list generalizing b with
  | nil => exact .ok
  | cons a rest ih =>
    rw [List.foldlM_cons]
    have first := one b a
    cases done : step b a with
    | ok b' => exact ih
    | error refusal =>
      rw [done] at first
      cases first with
      | refused plain => exact .refused plain

theorem meets_of_ok {seen : Seen} {taken : Prop} [Decidable taken] {a : α} {tokens : List Seen}
    {problem : Problem} (other : problem ≠ .classMissing) (inner : Inner tokens) :
    Meets ending k (LeavesAlike ending k fun _ => True)
      (if taken then .ok (a, ⟨tokens, ending⟩) else .error (seen.reject problem))
      (if taken then .ok (a, k.behind tokens) else .error (seen.reject problem)) := by
  split
  · exact .ok (.mk trivial inner)
  · exact .refused other

end

theorem plain_fieldPart (parts : FieldParts) (seen : Seen) : Plain (parts.add seen) := by
  unfold FieldParts.add
  split
  · split
    · exact .ok
    · exact .refused nofun
  · exact .ok
  · split
    · exact .ok
    · exact .ok
    · exact .refused nofun
  · exact .refused nofun

theorem plain_addIndexed (t : Table) (index : Index) (seen : Seen) :
    Plain (addIndexed t index seen) := by
  unfold addIndexed
  split
  · exact .ok
  · split
    · exact .ok
    · exact .refused nofun
  · exact .refused nofun

theorem plain_foreignField (foreign : ForeignFields) (seen : Seen) : Plain (foreign.add seen) := by
  unfold ForeignFields.add
  split
  · exact .ok
  · split
    · exact .refused nofun
    · exact .ok
    · split
      · exact .ok
      · exact .refused nofun

section

variable {ending : Ending} {k : Entry} (replaces : Replaces ending k) {tokens : List Seen}

include replaces

/-! ## Readers of parts of a line -/

theorem meets_next (inner : Inner tokens) :
    Meets ending k
      (LeavesAlike ending k fun seen =>
        seen.token.kind = .newLine → ∃ mark, ending.newLine? = .ok mark)
      (Entry.next ⟨tokens, ending⟩) (k.behind tokens).next := by
  cases tokens with
  | cons seen rest =>
    obtain ⟨first, rest⟩ := List.forall_mem_cons.mp inner
    exact .ok (.mk (fun newLine => absurd newLine first) rest)
  | nil =>
    cases ends : ending.newLine? with
    | ok mark =>
      obtain rfl := replaces mark ends
      have next : Entry.next ⟨[], ending⟩ = .ok (mark, ⟨[], ending⟩) := by
        rw [Entry.next, ends]
        rfl
      show Meets ending _ _ (Entry.next ⟨[], ending⟩) (Entry.next ⟨[], ending⟩)
      rw [next]
      exact .ok (.mk (fun _ => ⟨mark, rfl⟩) nofun)
    | error refusal =>
      have next : Entry.next ⟨[], ending⟩ = .error refusal := by
        rw [Entry.next, ends]
        rfl
      rw [next]
      refine .ended ends fun nothing other stop => ?_
      rw [Entry.behind, nothing, List.append_nil, Entry.next, stop]
      rfl

theorem meets_readNumber {problem : Problem} (other : problem ≠ .classMissing)
    (inner : Inner tokens) :
    Meets ending k (LeavesAlike ending k fun _ => True) (readNumber problem ⟨tokens, ending⟩)
      (readNumber problem (k.behind tokens)) := by
  refine (meets_next replaces inner).read fun seen rest _ inner => ?_
  dsimp only
  split
  · exact meets_of_ok (by nofun) inner
  · exact .refused other

theorem meets_readPrecision (inner : Inner tokens) :
    Meets ending k (LeavesAlike ending k fun _ => True) (readPrecision ⟨tokens, ending⟩)
      (readPrecision (k.behind tokens)) := by
  refine (meets_next replaces inner).read fun seen rest _ inner' => ?_
  dsimp only
  split
  · refine (meets_readNumber replaces (by nofun) inner').read fun precision rest _ inner => ?_
    exact .ok (.mk trivial inner)
  · exact .ok (.mk trivial inner)

theorem meets_readLength (withPrecision : Bool) (inner : Inner tokens) :
    Meets ending k (LeavesAlike ending k fun _ => True) (readLength withPrecision ⟨tokens, ending⟩)
      (readLength withPrecision (k.behind tokens)) := by
  refine (meets_readNumber replaces (by nofun) inner).read fun size rest _ inner => ?_
  dsimp only
  split
  · refine (meets_readPrecision replaces inner).read fun precision rest _ inner => ?_
    exact (meets_next replaces inner).read fun seen rest _ inner => meets_of_ok (by nofun) inner
  · exact (meets_next replaces inner).read fun seen rest _ inner => meets_of_ok (by nofun) inner

theorem meets_readTypeLength (type : FieldType) (inner : Inner tokens) :
    Meets ending k (LeavesAlike ending k fun _ => True) (readTypeLength type ⟨tokens, ending⟩)
      (readTypeLength type (k.behind tokens)) := by
  refine (meets_next replaces inner).read fun seen rest _ inner' => ?_
  dsimp only
  split <;> split
  · exact .refused nofun
  · exact .ok (.mk trivial inner)
  · exact meets_readLength replaces _ inner'
  · exact .ok (.mk trivial inner)
  · exact meets_readLength replaces _ inner'
  · exact .refused nofun
  · exact meets_readLength replaces _ inner'
  · exact .refused nofun

theorem meets_className (inner : Inner tokens) :
    Meets ending k (LeavesAlike ending k fun _ => True) (className ⟨tokens, ending⟩)
      (className (k.behind tokens)) :=
  (meets_next replaces inner).read fun _ _ _ inner => meets_of_ok (by nofun) inner

theorem meets_linkedName (side : Side) (inner : Inner tokens) :
    Meets ending k (LeavesAlike ending k fun _ => True) (linkedName side ⟨tokens, ending⟩)
      (linkedName side (k.behind tokens)) :=
  (meets_next replaces inner).read fun _ _ _ inner => meets_of_ok (by nofun) inner

theorem meets_tableName (domain : String) (inner : Inner tokens) :
    Meets ending k (LeavesAlike ending k fun _ => True) (tableName domain ⟨tokens, ending⟩)
      (tableName domain (k.behind tokens)) := by
  refine (meets_next replaces inner).read fun seen rest _ inner' => ?_
  dsimp only
  split
  · exact .ok (.mk trivial inner')
  · exact .ok (.mk trivial inner)

/-! ## Lines -/

theorem meets_endSetting (setting : Setting) (inner : Inner tokens) :
    Meets ending k (Ended ending) (endSetting setting ⟨tokens, ending⟩)
      (endSetting setting (k.behind tokens)) := by
  refine (meets_next replaces inner).read fun seen rest ends inner => ?_
  dsimp only
  split
  · refine (meets_next replaces inner).read fun last rest ends inner => ?_
    dsimp only
    split
    · rename_i newLine
      exact .ok ⟨rfl, ends newLine⟩
    · exact .refused nofun
  · split
    · rename_i newLine
      exact .ok ⟨rfl, ends newLine⟩
    · exact .refused nofun

theorem meets_classBody (domain : String) (inner : Inner tokens) :
    Meets ending k (Ended ending) (classBody domain ⟨tokens, ending⟩)
      (classBody domain (k.behind tokens)) := by
  refine (meets_tableName replaces domain inner).read fun name rest _ inner => ?_
  refine (meets_endSetting replaces _ inner).bind fun doc _ ended => ?_
  obtain ⟨rfl, ends⟩ := ended
  exact .ok ⟨rfl, ends⟩

theorem meets_linkBody (domain : String) (inner : Inner tokens) :
    Meets ending k (Ended ending) (linkBody domain ⟨tokens, ending⟩)
      (linkBody domain (k.behind tokens)) := by
  refine (meets_linkedName replaces _ inner).read fun one rest _ inner => ?_
  refine (meets_linkedName replaces _ inner).read fun two rest _ inner => ?_
  refine (meets_endSetting replaces _ inner).bind fun doc _ ended => ?_
  obtain ⟨rfl, ends⟩ := ended
  exact .ok ⟨rfl, ends⟩

/-- All tokens that are left are read, then the end of the line, and then the line is judged. -/
theorem meets_foldlM {α β : Type} {step : β → Seen → Except Refusal β}
    {judge : β → Seen → Except Refusal α} {b : β}
    (one : ∀ b seen, Plain (step b seen)) (all : ∀ b mark, Plain (judge b mark)) :
    Meets ending k (Ended ending)
      (do
        let b ← tokens.foldlM step b
        let mark ← ending.newLine?
        judge b mark)
      (do
        let b ← (tokens ++ k.tokens).foldlM step b
        let mark ← k.ending.newLine?
        judge b mark) := by
  rw [List.foldlM_append]
  have plain : Plain (tokens.foldlM step b) := plain_foldlM one
  cases folded : tokens.foldlM step b with
  | error refusal =>
    rw [folded] at plain
    cases plain with
    | refused plain => exact .refused plain
  | ok b' =>
    cases ends : ending.newLine? with
    | ok mark =>
      obtain rfl := replaces mark ends
      have judged : Meets ending ⟨[], ending⟩ (Ended ending) (judge b' mark) (judge b' mark) :=
        (all b' mark).meets ends
      show Meets ending ⟨[], ending⟩ (Ended ending) (judge b' mark) (ending.newLine? >>= judge b')
      rwa [ends]
    | error refusal =>
      refine .ended ends fun nothing other stop => ?_
      rw [nothing, stop]
      rfl

theorem meets_readField (t : Table) (first : Seen) (inner : Inner tokens) :
    Meets ending k (Ended ending) (readField t first ⟨tokens, ending⟩)
      (readField t first (k.behind tokens)) := by
  unfold readField
  split
  · split
    · exact .refused nofun
    · refine (meets_readTypeLength replaces _ inner).read fun length rest _ inner => ?_
      refine meets_foldlM replaces plain_fieldPart fun parts mark => ?_
      split
      · exact .refused nofun
      · split
        · exact .refused nofun
        · dsimp only
          split
          · exact .ok
          · exact .refused nofun
  · exact .refused nofun

theorem meets_readIndex (t : Table) (first : Seen) :
    Meets ending k (Ended ending) (readIndex t first ⟨tokens, ending⟩)
      (readIndex t first (k.behind tokens)) := by
  unfold readIndex
  split
  · refine meets_foldlM replaces (plain_addIndexed t) fun index mark => ?_
    split
    · exact .refused nofun
    · split
      · exact .ok
      · exact .refused nofun
  · exact .refused nofun

theorem meets_readLocalFields :
    Meets ending k (fun locals locals' => locals' = (locals.1, locals.2.1, locals.2.2 ++ k.tokens))
      (readLocalFields ending tokens) (readLocalFields k.ending (tokens ++ k.tokens)) := by
  induction tokens with
  | nil =>
    rw [readLocalFields]
    cases ends : ending.newLine? with
    | ok mark =>
      obtain rfl := replaces mark ends
      show Meets ending _ _ _ (ending.newLine? >>= fun mark => .error (mark.reject _))
      rw [ends]
      exact .refused nofun
    | error refusal =>
      refine .ended ends fun nothing other stop => ?_
      rw [nothing, List.append_nil, readLocalFields, stop]
      rfl
  | cons seen rest ih =>
    rw [List.cons_append, readLocalFields, readLocalFields]
    split
    · exact .ok rfl
    · split
      · refine ih.bind fun ⟨fields, keyword, rest⟩ _ same => ?_
        obtain rfl := same
        exact .ok rfl
      · exact .refused nofun

theorem meets_readForeignKey (domain : String) (first : Seen) :
    Meets ending k (Ended ending) (readForeignKey domain first ⟨tokens, ending⟩)
      (readForeignKey domain first (k.behind tokens)) := by
  have locals := @meets_readLocalFields ending k replaces (first :: tokens)
  refine locals.bind fun ⟨fields, keyword, rest⟩ _ same => ?_
  obtain rfl := same
  dsimp only
  split
  · exact .refused nofun
  · refine meets_foldlM replaces plain_foreignField fun foreign mark => ?_
    split
    · exact .refused nofun
    · exact .ok

/-! ## Entries -/

/-- Both readings give the same, and it is a table that is registered or the line has come to its
end. -/
def Decided (ending : Ending) (a b : Reading Draft) : Prop :=
  a = b ∧ ((∃ t, a = .registered t) ∨ ∃ mark, ending.newLine? = .ok mark)

omit replaces in
theorem Meets.fresh {α : Type} {x y : Except Refusal α} (h : Meets ending k (Ended ending) x y)
    (draft : α → Draft) :
    Meets ending k (Decided ending) (x >>= fun a => .ok (.fresh (draft a)))
      (y >>= fun a => .ok (.fresh (draft a))) := by
  refine h.bind fun a _ ended => ?_
  obtain ⟨rfl, ends⟩ := ended
  exact .ok ⟨rfl, .inr ends⟩

variable {registered : String → Option Table} {d : Draft}

theorem Draft.meets_readClass (first : Seen) (inner : Inner tokens) :
    Meets ending k (Decided ending) (d.readClass registered first ⟨tokens, ending⟩)
      (d.readClass registered first (k.behind tokens)) := by
  unfold readClass
  split
  · exact .refused nofun
  · refine (meets_className replaces inner).read fun domain rest _ inner => ?_
    dsimp only
    split
    · exact .ok ⟨rfl, .inl ⟨_, rfl⟩⟩
    · exact (meets_classBody replaces domain inner).fresh _

theorem Draft.meets_readLink (first : Seen) (inner : Inner tokens) :
    Meets ending k (Ended ending) (d.readLink first ⟨tokens, ending⟩)
      (d.readLink first (k.behind tokens)) := by
  unfold readLink
  split
  · exact .refused nofun
  · split
    · exact .refused nofun
    · refine (meets_linkBody replaces _ inner).bind fun body _ ended => ?_
      obtain ⟨rfl, ends⟩ := ended
      exact .ok ⟨rfl, ends⟩

omit replaces in
theorem Draft.meets_readMember {first : Seen} {read read' : Table → Except Refusal Draft}
    (reads : ∀ t, Meets ending k (Ended ending) (read t) (read' t)) :
    Meets ending k (Decided ending) (d.readMember first read) (d.readMember first read') := by
  unfold readMember
  split
  · exact .refused nofun
  · exact (reads _).fresh _

theorem Draft.meets_readDeclaration (first : Seen) (inner : Inner tokens) :
    Meets ending k (Decided ending) (d.readDeclaration registered first ⟨tokens, ending⟩)
      (d.readDeclaration registered first (k.behind tokens)) := by
  unfold readDeclaration
  split
  · exact .refused nofun
  · unfold readSetting
    split
    · exact meets_readClass replaces first inner
    · split
      · exact (meets_readLink replaces first inner).fresh _
      · exact .refused nofun
  · refine meets_readMember fun t => (meets_readField replaces t first inner).bind ?_
    rintro t _ ⟨rfl, ends⟩
    exact .ok ⟨rfl, ends⟩
  · refine meets_readMember fun t => (meets_readIndex replaces t first).bind ?_
    rintro t _ ⟨rfl, ends⟩
    exact .ok ⟨rfl, ends⟩
  · refine meets_readMember fun t => (meets_readForeignKey replaces _ first).bind ?_
    rintro key _ ⟨rfl, ends⟩
    exact .ok ⟨rfl, ends⟩

/-- A line that goes on as `k` instead of its end is read alike, unless its end is read. -/
theorem Draft.meets_readTokens (inner : Inner tokens) :
    Meets ending k (Decided ending) (readTokens registered ending d tokens)
      (readTokens registered k.ending d (tokens ++ k.tokens)) := by
  induction tokens generalizing d with
  | nil =>
    rw [readTokens]
    cases ends : ending.newLine? with
    | ok mark =>
      obtain rfl := replaces mark ends
      have read : readTokens registered ending d [] = .ok (.fresh d) := by
        rw [readTokens, ends]
        rfl
      show Meets ending _ _ (.ok (Reading.fresh d)) (readTokens registered ending d [])
      rw [read]
      exact .ok ⟨rfl, .inr ⟨mark, ends⟩⟩
    | error refusal =>
      refine .ended ends fun nothing other stop => ?_
      rw [nothing, List.append_nil, readTokens, stop]
      rfl
  | cons seen rest ih =>
    obtain ⟨_, inner⟩ := List.forall_mem_cons.mp inner
    rw [List.cons_append]
    unfold readTokens
    split
    · exact ih inner
    · exact ih inner
    · exact meets_readDeclaration replaces seen inner

end

end TableSchema.Definition
