import TableSchema.Proofs.Definition.Growth

/-!
What a file asks the registry.

Reading takes the whole registry as an argument, but it asks for one class at most, the one on the
class line, and it asks once. If that class is registered, the file is given up there. Otherwise the
registry has no part in what is read (`Draft.Asks`), neither in what is declared nor in what is
refused. So a file that is not given up reads as it would read on its own
(`exists_asks_readEntries`).
-/

namespace TableSchema.Definition

/-- The result of reading when `taken` is registered for the class of the file: the file is given up
for it, or else what is read on its own comes out. -/
def Reading.given {α : Type} (taken : Option Table) (alone : Except Refusal α) :
    Except Refusal (Reading α) :=
  match taken with
  | some table => .ok (.registered table)
  | none => alone.map .fresh

namespace Reading

variable {α : Type} {taken : Option Table} {alone : Except Refusal α}

theorem given_eq_registered {t : Table} :
    given taken alone = .ok (.registered t) ↔ taken = some t := by
  cases taken with
  | some u => simp [given]
  | none => cases alone <;> simp [given, Except.map]

theorem given_eq_fresh {result : α} :
    given taken alone = .ok (.fresh result) ↔ taken = none ∧ alone = .ok result := by
  cases taken with
  | some u => simp [given]
  | none => cases alone <;> simp [given, Except.map]

theorem given_eq_error {refusal : Refusal} :
    given taken alone = .error refusal ↔ taken = none ∧ alone = .error refusal := by
  cases taken with
  | some u => simp [given]
  | none => cases alone <;> simp [given, Except.map]

end Reading

namespace Draft

/-- The class of a draft, once its class line has been read. -/
def class? (d : Draft) : Option String := d.table.map Table.domain

/-- Reading on from a draft of the class `before` asks the registry for the class `asked`, if it
asks at all, and then for no other: it is given up if this class is registered, and gives `alone` if
not. What is asked for becomes the class of the draft. -/
structure Asks (before : Option String)
    (read : (String → Option Table) → Except Refusal (Reading Draft)) (asked : Option String)
    (alone : Except Refusal Draft) : Prop where
  eq_given : ∀ registered, read registered = Reading.given (asked.bind registered) alone
  class_eq : ∀ d, alone = .ok d → d.class? = before.or asked
  once : before ≠ none → asked = none

variable {d : Draft} {first : Seen} {e : Entry}

/-- What is refused asks for nothing. -/
theorem asks_error (before : Option String) (refusal : Refusal) :
    Asks before (fun _ => .error refusal) none (.error refusal) :=
  ⟨fun _ => rfl, nofun, fun _ => rfl⟩

/-- A class line asks for its class, unless it is refused before its name has been read. -/
theorem exists_asks_readClass (d : Draft) (first : Seen) (e : Entry) :
    ∃ asked alone,
      Asks d.class? (fun registered => d.readClass registered first e) asked alone := by
  unfold readClass
  cases found : d.table with
  | some t => exact ⟨_, _, asks_error _ _⟩
  | none =>
    cases name : className e with
    | error refusal => exact ⟨_, _, asks_error _ _⟩
    | ok result =>
      obtain ⟨domain, rest⟩ := result
      refine ⟨some domain, (classBody domain rest).map fun body =>
        { d with table := some body.1, docs := d.docs ++ body.2.toList }, ?_, ?_, ?_⟩
      · intro registered
        cases taken : registered domain with
        | some t => simp [Reading.given, taken]
        | none =>
          cases body : classBody domain rest with
          | error refusal => simp [Reading.given, taken, Except.map, body]
          | ok result => simp [Reading.given, taken, Except.map, body]
      · intro d' done
        cases body : classBody domain rest with
        | error refusal =>
          rw [body] at done
          cases done
        | ok result =>
          rw [body] at done
          cases done
          obtain ⟨t, doc⟩ := result
          obtain ⟨name, rfl⟩ := classBody_eq_ok body
          simp [class?, found, Table.empty]
      · intro named
        exact absurd (by simp [class?, found]) named

/-- A line that reads the same in all registries asks for nothing. It does not give the draft its
class either, since in a registry of all classes nothing could be declared. -/
theorem asks_of_eq_map {alone : Except Refusal Draft}
    (same : ∀ registered, d.readDeclaration registered first e = alone.map .fresh) :
    Asks d.class? (fun registered => d.readDeclaration registered first e) none alone := by
  refine ⟨same, fun d' done => ?_, fun _ => rfl⟩
  have read : d.readDeclaration (fun domain => some (Table.empty domain "")) first e =
      .ok (.fresh d') := by
    rw [same, done]
    rfl
  rw [Option.or_none]
  cases found : d.table with
  | some t =>
    obtain ⟨t', found', same⟩ := (readDeclaration_step read).keeps_class found
    simp [class?, found, found', same]
  | none =>
    cases readDeclaration_step read with
    | declare domain name doc absent free => cases free
    | document | enter | foreignKey => simp [class?, found]
    | link _ _ _ had | column _ had | index _ had => simp [found] at had

theorem readMember_eq_map (d : Draft) (first : Seen) (read : Table → Except Refusal Draft) :
    ∃ alone : Except Refusal Draft, d.readMember first read = alone.map .fresh := by
  unfold readMember
  split
  · exact ⟨.error _, rfl⟩
  · exact ⟨_, rfl⟩

/-- Only a class line asks for something. -/
theorem exists_asks_readDeclaration (d : Draft) (first : Seen) (e : Entry) :
    ∃ asked alone,
      Asks d.class? (fun registered => d.readDeclaration registered first e) asked alone := by
  have silent : (∃ alone : Except Refusal Draft, ∀ registered,
      d.readDeclaration registered first e = alone.map .fresh) → ∃ asked alone,
      Asks d.class? (fun registered => d.readDeclaration registered first e) asked alone :=
    fun ⟨alone, same⟩ => ⟨none, alone, asks_of_eq_map same⟩
  cases part : d.current with
  | none => exact silent ⟨.error _, fun _ => by rw [readDeclaration, part]; rfl⟩
  | some part' =>
    cases part' with
    | settings =>
      by_cases keyword : first.token.isKeyword Setting.table.keyword
      · have line : (fun registered => d.readDeclaration registered first e) =
            fun registered => d.readClass registered first e := by
          funext registered
          simp [readDeclaration, part, readSetting, keyword]
        rw [line]
        exact exists_asks_readClass d first e
      · by_cases linked : first.token.isKeyword Setting.link.keyword
        · refine silent ⟨d.readLink first e, fun _ => ?_⟩
          simp only [readDeclaration, part, readSetting, keyword, linked]
          rfl
        · refine silent ⟨.error (first.reject .settingExpected), fun _ => ?_⟩
          simp only [readDeclaration, part, readSetting, keyword, linked]
          rfl
    | fields | indexes | foreignKeys =>
      obtain ⟨alone, same⟩ := readMember_eq_map d first _
      exact silent ⟨alone, fun _ => by rw [readDeclaration, part]; exact same⟩

theorem exists_asks_readTokens (ending : Ending) (d : Draft) (tokens : List Seen) :
    ∃ asked alone,
      Asks d.class? (fun registered => readTokens registered ending d tokens) asked alone := by
  induction tokens generalizing d with
  | nil =>
    refine ⟨none, ending.newLine?.map fun _ => d, fun registered => ?_, fun d' done => ?_,
      fun _ => rfl⟩
    · cases ending <;> rfl
    · cases last : ending.newLine? with
      | error refusal => simp [last, Except.map] at done
      | ok mark =>
        rw [last] at done
        cases done
        exact (Option.or_none).symm
  | cons seen rest ih =>
    unfold readTokens
    split
    · exact ih { d with docs := d.docs ++ [seen.token.commentBody] }
    · exact ih { d with current := seen.token.heading? }
    · exact exists_asks_readDeclaration d seen ⟨rest, ending⟩

/-- What is read in two parts asks for what the first part asks for, or else for what the second
does. -/
theorem Asks.bind {before asked : Option String} {alone : Except Refusal Draft}
    {read : (String → Option Table) → Except Refusal (Reading Draft)}
    {next : (String → Option Table) → Draft → Except Refusal (Reading Draft)}
    (h : Asks before read asked alone)
    (later : ∀ d, ∃ asked alone, Asks d.class? (fun registered => next registered d) asked alone) :
    ∃ asked alone, Asks before (fun registered => do
      match ← read registered with
      | .registered table => return .registered table
      | .fresh d => next registered d) asked alone := by
  cases alone with
  | error refusal =>
    refine ⟨asked, .error refusal, fun registered => ?_, nofun, h.once⟩
    rw [h.eq_given]
    cases asked.bind registered <;> rfl
  | ok middle =>
    obtain ⟨asked', alone', eq, class', once⟩ := later middle
    have between := h.class_eq middle rfl
    refine ⟨asked.or asked', alone', fun registered => ?_, fun d done => ?_, fun named => ?_⟩
    · rw [h.eq_given]
      cases asked with
      | none => exact eq registered
      | some domain =>
        -- the first part has asked, so the draft has its class and the second does not ask
        have silent : asked' = none := once (by rw [between]; cases before <;> nofun)
        cases taken : registered domain with
        | some t => simp [Reading.given, taken]
        | none => simp [Reading.given, taken, Except.map, eq, silent]
    · rw [class' d done, between, Option.or_assoc]
    · rw [h.once named, Option.none_or]
      refine once ?_
      rw [between, h.once named, Option.or_none]
      exact named

theorem exists_asks_readEntries (d : Draft) (entries : List Entry) :
    ∃ asked alone,
      Asks d.class? (fun registered => readEntries registered d entries) asked alone := by
  induction entries generalizing d with
  | nil => exact ⟨none, .ok d, fun _ => rfl, by rintro _ ⟨⟩; simp, fun _ => rfl⟩
  | cons e entries ih =>
    obtain ⟨_, _, h⟩ := exists_asks_readTokens e.ending d e.tokens
    exact h.bind ih

end Draft

end TableSchema.Definition
