import Mathlib.Data.List.Forall2
import TableSchema.Proofs.Definition.Declared

/-!
The declarations of a file, line by line.

An entry holds one declaration at most, behind the comments and headers that stand in front of it,
and the header that was read last tells in which section it stands (`linesOf`). The foreign keys of
a definition are what the lines of the foreign keys section declare, in the order of the file
(`ofEvents_foreignKeys`).
-/

namespace TableSchema

open List (Forall₂)

namespace Definition

/-- A declaration: the section in which it stands, its first token, and what follows on its line. -/
structure Line where
  part : Option Section
  first : Seen
  rest : Entry
deriving DecidableEq, Repr

/-- Whether a declaration stands in the foreign keys section. -/
def Line.isForeignKey (line : Line) : Bool := line.part == some .foreignKeys

/-- The section after an entry with these tokens, and the declaration of the entry. -/
def lineOf (ending : Ending) : Option Section → List Seen → Option Section × Option Line
  | part, [] => (part, none)
  | part, seen :: rest =>
    match seen.token.kind with
    | .comment => lineOf ending part rest
    | .header => lineOf ending seen.token.heading? rest
    | _ => (part, some ⟨part, seen, ⟨rest, ending⟩⟩)

/-- The declarations of entries, in order. -/
def linesOf : Option Section → List Entry → List Line
  | _, [] => []
  | part, e :: entries =>
    let (part, line?) := lineOf e.ending part e.tokens
    line?.toList ++ linesOf part entries

/-- The lines of the foreign keys section of an input. -/
def foreignKeyLines (events : List Event) : List Line :=
  (linesOf none (Entry.ofEvents events)).filter Line.isForeignKey

namespace Draft

/-- The line declares the foreign key `key` for the table of the draft. -/
def Reads (d : Draft) (line : Line) (key : ForeignKey) : Prop :=
  ∃ t, d.table = some t ∧ readForeignKey t.domain line.first line.rest = .ok key

/-- Between two drafts some lines were read, and each of those in the foreign keys section has added
the foreign key that it declares. -/
def Adds (d d' : Draft) (lines : List Line) : Prop :=
  ∃ keys, d'.foreignKeys = d.foreignKeys ++ keys ∧
    Forall₂ d'.Reads (lines.filter Line.isForeignKey) keys

variable {registered : String → Option Table} {d middle d' : Draft} {lines later : List Line}

theorem Reads.steps {line : Line} {key : ForeignKey} (h : d.Reads line key)
    (steps : Relation.ReflTransGen (Step registered) d d') : d'.Reads line key := by
  obtain ⟨t, found, read⟩ := h
  obtain ⟨t', found', same⟩ := steps_keep_class steps found
  exact ⟨t', found', same ▸ read⟩

theorem adds_nil (same : d'.foreignKeys = d.foreignKeys) : Adds d d' [] :=
  ⟨[], by rw [same, List.append_nil], .nil⟩

theorem Adds.append (h : Adds d middle lines) (h' : Adds middle d' later)
    (steps : Relation.ReflTransGen (Step registered) middle d') : Adds d d' (lines ++ later) := by
  obtain ⟨keys, added, read⟩ := h
  obtain ⟨keys', added', read'⟩ := h'
  refine ⟨keys ++ keys', by rw [added', added, List.append_assoc], ?_⟩
  rw [List.filter_append]
  exact List.rel_append (read.imp fun _ _ reads => reads.steps steps) read'

/-- A line of the settings section changes neither the section nor the foreign keys. -/
theorem readSetting_keeps {first : Seen} {e : Entry}
    (h : d.readSetting registered first e = .ok (.fresh d')) :
    d'.current = d.current ∧ d'.foreignKeys = d.foreignKeys := by
  rw [readSetting] at h
  split at h
  · rw [readClass] at h
    split at h
    · cases h
    · obtain ⟨⟨domain, e⟩, _, h⟩ := Except.bind_eq_ok.mp h
      dsimp only at h
      split at h
      · cases h
      · obtain ⟨⟨t, doc⟩, _, h⟩ := Except.bind_eq_ok.mp h
        cases h
        exact ⟨rfl, rfl⟩
  · split at h
    · obtain ⟨_, link, h⟩ := Except.bind_eq_ok.mp h
      cases h
      rw [readLink] at link
      split at link
      · cases link
      · split at link
        · cases link
        · obtain ⟨⟨l, doc⟩, _, link⟩ := Except.bind_eq_ok.mp link
          cases link
          exact ⟨rfl, rfl⟩
    · cases h

theorem readDeclaration_adds {first : Seen} {e : Entry}
    (h : d.readDeclaration registered first e = .ok (.fresh d')) :
    d'.current = d.current ∧ Adds d d' [⟨d.current, first, e⟩] := by
  -- a line of another section adds nothing
  have other : ∀ {part : Section}, d.current = some part → part ≠ .foreignKeys →
      d'.foreignKeys = d.foreignKeys → Adds d d' [⟨d.current, first, e⟩] := by
    intro part current apart same
    refine ⟨[], by rw [same, List.append_nil], ?_⟩
    have skipped : [(⟨d.current, first, e⟩ : Line)].filter Line.isForeignKey = [] := by
      simp [Line.isForeignKey, current, apart]
    rw [skipped]
    exact .nil
  rw [readDeclaration] at h
  split at h
  · cases h
  · rename_i current
    obtain ⟨part, keys⟩ := readSetting_keeps h
    exact ⟨part, other current (by decide) keys⟩
  · rename_i current
    obtain ⟨t, _, h⟩ := readMember_eq_ok h
    obtain ⟨u, _, h⟩ := Except.bind_eq_ok.mp h
    cases h
    exact ⟨rfl, other current (by decide) rfl⟩
  · rename_i current
    obtain ⟨t, _, h⟩ := readMember_eq_ok h
    obtain ⟨u, _, h⟩ := Except.bind_eq_ok.mp h
    cases h
    exact ⟨rfl, other current (by decide) rfl⟩
  · rename_i current
    obtain ⟨t, found, h⟩ := readMember_eq_ok h
    obtain ⟨key, read, h⟩ := Except.bind_eq_ok.mp h
    cases h
    refine ⟨rfl, [key], rfl, ?_⟩
    have taken : [(⟨d.current, first, e⟩ : Line)].filter Line.isForeignKey =
        [⟨d.current, first, e⟩] := by
      simp [Line.isForeignKey, current]
    rw [taken]
    exact .cons ⟨t, found, read⟩ .nil

/-- Reading an entry adds what its declaration declares, and leads to the section after it. -/
theorem readTokens_adds {ending : Ending} {tokens : List Seen}
    (h : readTokens registered ending d tokens = .ok (.fresh d')) :
    (lineOf ending d.current tokens).1 = d'.current ∧
      Adds d d' (lineOf ending d.current tokens).2.toList := by
  induction tokens generalizing d with
  | nil =>
    obtain ⟨_, _, h⟩ := Except.bind_eq_ok.mp h
    cases h
    exact ⟨rfl, adds_nil rfl⟩
  | cons seen rest ih =>
    rw [readTokens] at h
    rw [lineOf]
    cases kind : seen.token.kind with
    | comment | header =>
      rw [kind] at h
      have behind := ih h
      exact behind
    | word | special | newLine | flaw =>
      rw [kind] at h
      obtain ⟨part, added⟩ := readDeclaration_adds h
      exact ⟨part.symm, added⟩

/-- Reading entries adds what their declarations declare, in order. -/
theorem readEntries_adds {entries : List Entry}
    (h : readEntries registered d entries = .ok (.fresh d')) :
    Adds d d' (linesOf d.current entries) := by
  induction entries generalizing d with
  | nil =>
    cases h
    exact adds_nil rfl
  | cons e entries ih =>
    obtain ⟨reading, read, h⟩ := Except.bind_eq_ok.mp h
    cases reading with
    | registered t => cases h
    | fresh middle =>
      obtain ⟨part, added⟩ := readTokens_adds read
      rw [linesOf]
      dsimp only
      rw [part]
      exact added.append (ih h) (readEntries_steps h)

end Draft

variable {registered : String → Option Table} {events : List Event} {definition : Definition}

/-- The foreign keys of a definition are those that the lines of its foreign keys section declare,
in the order of these lines. -/
theorem ofEvents_foreignKeys (h : ofEvents registered events = .ok (.fresh definition)) :
    Forall₂ (fun line key =>
        readForeignKey definition.table.domain line.first line.rest = .ok key)
      (foreignKeyLines events) definition.foreignKeys := by
  obtain ⟨d, read, done⟩ := ofEvents_eq_fresh.mp h
  obtain ⟨t, found, rfl⟩ := Draft.finish_eq_ok done
  obtain ⟨comment, commented⟩ := foldl_addComment d.docs t
  obtain ⟨keys, added, reads⟩ := Draft.readEntries_adds read
  have all : d.foreignKeys = keys := added
  rw [commented]
  show Forall₂ _ _ d.foreignKeys
  rw [all]
  refine reads.imp fun line key ⟨u, hu, reads⟩ => ?_
  obtain rfl := Option.some.inj (found.symm.trans hu)
  exact reads

end Definition

end TableSchema
