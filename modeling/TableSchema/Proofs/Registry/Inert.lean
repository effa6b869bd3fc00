import TableSchema.Proofs.Definition.Comments
import TableSchema.Proofs.Registry.Front

/-!
Blank lines and comments on lines of their own.

A line that is blank or holds one comment may be put anywhere between two lines, if no block comment
is open there. The text is then read as before: it declares the same, or is given up for the same
table, or is refused with the same message. Only the comment is added to those on the table, between
what stands in front of it and what comes behind (`read_insert`).
-/

namespace TableSchema

namespace Registry

open Definition (documented joined Noted)

variable {r : Registry}

theorem noted_insert {a b line : String} {doc : Option String}
    (ended : ∀ c ∈ a.toList.getLast?, c = '\n') (closed : Closed (Scanner.ofText a).events)
    (unbroken : '\n' ∉ line.toList) (idle : IdleLine doc (Text.lineText line.toList)) :
    Noted (documented r.find? (Scanner.ofText a).events) doc
      (Definition.ofEvents r.find? (Scanner.ofText (a ++ b)).events)
      (Definition.ofEvents r.find? (Scanner.ofText (a ++ line ++ "\n" ++ b)).events) := by
  obtain ⟨n, m, remarks, h, plain, noted⟩ := Scanner.events_insert ended closed unbroken idle
  rw [plain, noted]
  have cut := @Scanner.cut_events (.ofText a) [] Text.SourceLine.unreadable_not_mem_ofText
  exact Definition.noted_ofEvents cut closed h _ n m

/-- Let a text be cut in two behind a line, or at its start, where no block comment is open, and let
a line be put there that is blank or holds one comment. If the text was refused it still is, in the
same class and with the same message; if it was given up for a table of the registry, it still is;
and if it added a definition it adds the same, but for the comment on the table. There the new one
comes behind those of the lines in front. -/
theorem read_insert (reachable : r.Reachable) {a b line : String} {doc : Option String}
    (ended : ∀ c ∈ a.toList.getLast?, c = '\n') (closed : Closed (Scanner.ofText a).events)
    (unbroken : '\n' ∉ line.toList) (idle : IdleLine doc (Text.lineText line.toList)) :
    let plain := Scanner.ofText (a ++ b)
    let noted := Scanner.ofText (a ++ line ++ "\n" ++ b)
    let before := documented r.find? (Scanner.ofText a).events
    (∀ refusal, r.read plain = .error refusal →
      ∃ refusal', r.read noted = .error refusal' ∧ ∀ file,
        (refusal'.diagnostic file).category = (refusal.diagnostic file).category ∧
        (refusal'.diagnostic file).message = (refusal.diagnostic file).message) ∧
    (∀ t after, t ∈ r.tables → r.read plain = .ok (t, after) → r.read noted = .ok (t, after)) ∧
    ∀ d after, r.Adds plain d after →
      ∃ later after', d.table.comment = joined (before ++ later) ∧
        r.Adds noted
          { d with table := { d.table with comment := joined (before ++ doc.toList ++ later) } }
          after' := by
  intro plain noted before
  have indexed : r.Indexed := reachable.sound.indexed
  have inserted : Noted before doc (Definition.ofEvents r.find? plain.events)
      (Definition.ofEvents r.find? noted.events) := noted_insert ended closed unbroken idle
  refine ⟨fun refusal refused => ?_, fun t after old given => ?_, fun d after adds => ?_⟩
  · rw [read_eq_error.mp refused] at inserted
    generalize result : Definition.ofEvents r.find? noted.events = y at inserted
    cases inserted with
    | @refused _ refusal' bare =>
      refine ⟨refusal', read_eq_error.mpr result, fun file => ?_⟩
      obtain ⟨category, message⟩ := refusal.diagnostic_bare file
      obtain ⟨category', message'⟩ := refusal'.diagnostic_bare file
      rw [← category, ← message, ← category', ← message', bare]
      exact ⟨rfl, rfl⟩
  · have events := indexed.read_eq_ok_iff.mp ⟨after, given, old⟩
    rw [events] at inserted
    generalize result : Definition.ofEvents r.find? noted.events = y at inserted
    cases inserted with
    | registered => rw [← given, read, read, events, result]
  · rw [indexed.ofEvents_of_adds adds] at inserted
    generalize result : Definition.ofEvents r.find? noted.events = y at inserted
    cases inserted with
    | @fresh _ later comment => exact ⟨later, _, comment, indexed.adds_of_ofEvents result⟩

/-- A comment and a header. -/
def opening : String := "// one\n[Settings]\n"

/-- A line with a comment on it. -/
def second : String := "\t/* two */ "

/-- The comment between texts that add a table, that are given up and that are refused. -/
theorem read_insert_opening :
    (∃ d after,
      (run single).Adds (.ofText (opening ++ second ++ "\n" ++ "CLASS p // three")) d after ∧
      d.table.comment = some "one\ntwo\nthree") ∧
    (∃ t ∈ (run single).tables,
      (run single).read (.ofText (opening ++ second ++ "\n" ++ "CLASS a")) = .ok (t, run single)) ∧
    ∃ refusal, (run single).read (.ofText (opening ++ second ++ "\n" ++ "CLASS !")) =
      .error refusal ∧
      (refusal.diagnostic "a.txt").message = "Expected a class name, received '!'." := by
  have reachable : (run single).Reachable := ⟨single, rfl⟩
  have ended := @Text.ended_of_getLast? opening.toList (by decide +kernel)
  have closed : Closed (Scanner.ofText opening).events := by
    have flawless : (Scanner.ofText opening).events.all
        (fun e => e.spelled.map Prod.fst != some .flaw) = true := by decide +kernel
    intro e he t reply leftOpen
    have kind := List.all_eq_true.mp flawless e he
    simp [Event.spelled, reply, leftOpen.kind] at kind
  have idle : IdleLine (some "two") (Text.lineText second.toList) := by
    have space : IsGap [' '] := List.forall_mem_singleton.mpr (by decide)
    have tab : IsGap ['\t'] := List.forall_mem_singleton.mpr (by decide)
    have block := @IdleLine.block _ _ ⟨" two ".toList, by decide, by decide⟩ tab space
    refine Eq.mp (congrArg₂ IdleLine ?_ ?_) block <;> decide +kernel
  have insert {b : String} :=
    @read_insert (run single) reachable opening b second _ ended closed (by decide) idle
  refine ⟨?_, ?_, ?_⟩
  · have plain : ((run single).read (.ofText (opening ++ "CLASS p // three"))).map
        (fun result => result.1.domain) = .ok "P" := by decide +kernel
    have noted : ((run single).read (.ofText (opening ++ second ++ "\n" ++ "CLASS p // three"))).map
        (fun result => result.1.comment) = .ok (some "one\ntwo\nthree") := by decide +kernel
    obtain ⟨⟨t, after⟩, read, domain⟩ := Except.map_eq_ok.mp plain
    have others : ∀ u ∈ (run single).tables, u.domain = "A" := by decide +kernel
    have new : t ∉ (run single).tables := fun old => by
      have same := others t old
      rw [domain] at same
      exact absurd same (by decide)
    obtain ⟨d, rfl, adds⟩ := reachable.sound.indexed.exists_adds read new
    obtain ⟨later, after', _, adds'⟩ := insert.2.2 d after adds
    obtain ⟨⟨t', _⟩, read', comment⟩ := Except.map_eq_ok.mp noted
    refine ⟨_, after', adds', ?_⟩
    obtain ⟨rfl, _⟩ := Prod.mk.inj (Except.ok.inj (read'.symm.trans adds'.read))
    exact comment
  · have given : ∃ t ∈ (run single).tables,
        (run single).read (.ofText (opening ++ "CLASS a")) = .ok (t, run single) := by
      decide +kernel
    obtain ⟨t, old, given⟩ := given
    exact ⟨t, old, insert.2.1 t _ old given⟩
  · have refused : ∃ refusal, (run single).read (.ofText (opening ++ "CLASS !")) = .error refusal ∧
        (refusal.diagnostic "a.txt").message = "Expected a class name, received '!'." :=
      ⟨.grammar (.classNameExpected ⟨.special, "!", 3, 6⟩) ⟨3, 7, "CLASS !"⟩, by decide +kernel,
        by decide +kernel⟩
    obtain ⟨refusal, refused, message⟩ := refused
    obtain ⟨refusal', refused', same⟩ := insert.1 refusal refused
    exact ⟨refusal', refused', (same "a.txt").2.trans message⟩

end Registry

end TableSchema
