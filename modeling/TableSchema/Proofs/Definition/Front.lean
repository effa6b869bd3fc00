import TableSchema.Proofs.Definition.Blame
import TableSchema.Proofs.Definition.CutLine
import TableSchema.Proofs.Token.Front

/-!
Reading the front part of a file.

The entries of a file begin with those of its front part, but the last of these may be cut short in
a comment (`CutEntries`). So the front part decides about the file where it is refused or given up
(`Decides`), unless it is refused for what is missing at its end. If it does not decide, reading
goes on behind it, and fails there when the next line is no text.
-/

namespace TableSchema.Definition

open Text (SourceLine)

/-- The entries of the front part of an input, and those of the whole. The last entry of the front
part may end in an open comment, and goes on as another entry then. Behind the front part comes a
line that is no text if `lost` holds. -/
inductive CutEntries (lost : Prop) : List Entry → List Entry → Prop
  | closed {whole : List Entry} : (lost → ∃ rest, whole = ⟨[], .unreadable⟩ :: rest) →
      CutEntries lost [] whole
  | inComment {tokens : List Seen} {mark : Seen} {k : Entry} {rest : List Entry} :
      Inner tokens → mark.token.LeftOpen → (lost → k = ⟨[], .unreadable⟩) →
      CutEntries lost [⟨tokens, .flaw mark⟩] (k.behind tokens :: rest)
  | entry {e : Entry} {front whole : List Entry} :
      Inner e.tokens →
      (∀ mark, e.ending = .flaw mark → mark.token.text ≠ Flaw.openComment.message) →
      CutEntries lost front whole → CutEntries lost (e :: front) (e :: whole)

theorem Entry.exists_cons_of_ne_nil {events : List Event} (filled : events ≠ []) :
    ∃ e entries, ofEvents events = e :: entries := by
  refine List.exists_cons_of_ne_nil ?_
  unfold ofEvents
  split
  · exact absurd rfl filled
  · exact List.cons_ne_nil _ _
  · split
    · exact List.cons_ne_nil _ _
    · exact List.cons_ne_nil _ _
    · split <;> exact List.cons_ne_nil _ _

theorem cutEntries_ofEvents {lost : Prop} {front whole : List Event} (h : Cut lost front whole) :
    CutEntries lost (Entry.ofEvents front) (Entry.ofEvents whole) := by
  induction h with
  | closed unread =>
    refine .closed fun lost => ?_
    obtain ⟨_, _, rest, rfl⟩ := unread lost
    exact ⟨_, rfl⟩
  | @inComment t row line whole leftOpen more unread =>
    obtain ⟨k, rest, split⟩ := Entry.exists_cons_of_ne_nil more
    have alone : Entry.ofEvents [⟨.token t, row, line⟩] = [⟨[], .flaw ⟨t, line⟩⟩] := by
      simp only [Entry.ofEvents, leftOpen.kind]
    have unreadable : lost → k = ⟨[], .unreadable⟩ := fun lost => by
      obtain ⟨_, _, rest, rfl⟩ := unread lost
      exact (List.cons.inj split).1.symm
    rw [alone, split]
    exact .inComment (List.forall_mem_nil _) leftOpen unreadable
  | @final t row line front whole final _ ih =>
    rcases final with newLine | ⟨flaw, other⟩
    · simp only [Entry.ofEvents, newLine]
      refine .entry (List.forall_mem_nil _) (fun mark ends => ?_) ih
      cases ends
    · simp only [Entry.ofEvents, flaw]
      refine .entry (List.forall_mem_nil _) (fun mark ends => ?_) ih
      cases ends
      exact other
  | @inner t row line front whole newLine flaw more _ ih =>
    obtain ⟨e, entries, split⟩ := Entry.exists_cons_of_ne_nil more
    rw [split] at ih
    simp only [Entry.ofEvents, split]
    generalize Entry.ofEvents whole = others at ih
    cases ih with
    | inComment inner leftOpen unreadable =>
      exact .inComment (List.forall_mem_cons.mpr ⟨newLine, inner⟩) leftOpen unreadable
    | entry inner closed later =>
      exact .entry (List.forall_mem_cons.mpr ⟨newLine, inner⟩) closed later

/-- What reading the front part of a file decides about reading the whole. Behind the front part
comes a line that is no text if `lost` holds. -/
inductive Decides {α : Type} (lost : Prop) :
    Except Refusal (Reading α) → Except Refusal (Reading α) → Prop
  | refused {refusal : Refusal} : ¬refusal.Unfinished →
      Decides lost (.error refusal) (.error refusal)
  | registered {t : Table} : Decides lost (.ok (.registered t)) (.ok (.registered t))
  | unfinished {refusal : Refusal} {y : Except Refusal (Reading α)} : refusal.Unfinished →
      (lost → y = .error (.unreadable .notText)) → Decides lost (.error refusal) y
  | fresh {a : α} {y : Except Refusal (Reading α)} : (lost → y = .error (.unreadable .notText)) →
      Decides lost (.ok (.fresh a)) y

section

variable {α : Type} {lost : Prop} {x y : Except Refusal (Reading α)}

theorem Decides.eq_error {refusal : Refusal} (h : Decides lost (.error refusal) y)
    (plain : ¬refusal.Unfinished) : y = .error refusal := by
  cases h with
  | refused => rfl
  | unfinished missing => exact absurd missing plain

theorem Decides.eq_registered {t : Table} (h : Decides lost (.ok (.registered t)) y) :
    y = .ok (.registered t) := by
  cases h with
  | registered => rfl

theorem Decides.eq_unreadable (h : Decides lost x y)
    (refused : ∀ refusal, x = .error refusal → refusal.Unfinished)
    (new : ∀ t, x ≠ .ok (.registered t)) (isLost : lost) : y = .error (.unreadable .notText) := by
  cases h with
  | refused plain => exact absurd (refused _ rfl) plain
  | registered => exact absurd rfl (new _)
  | unfinished _ later | fresh later => exact later isLost

/-- An input with a line that is no text is refused at a place only if the front part is. -/
theorem Decides.of_located {refusal : Refusal} {place : Place} (h : Decides lost x (.error refusal))
    (located : refusal.place? = some place) (isLost : lost) :
    x = .error refusal ∧ ¬refusal.Unfinished := by
  cases h with
  | refused plain => exact ⟨rfl, plain⟩
  | unfinished _ later | fresh later =>
    cases later isLost
    cases located

end

variable {registered : String → Option Table}

/-- Only an open comment is refused for what is missing at the end of the input. -/
theorem not_unfinished_of_readTokens {e : Entry} {d : Draft} {refusal : Refusal}
    (inner : Inner e.tokens)
    (closed : ∀ mark, e.ending = .flaw mark → mark.token.text ≠ Flaw.openComment.message)
    (h : Draft.readTokens registered e.ending d e.tokens = .error refusal) :
    ¬refusal.Unfinished := by
  -- the line is compared with itself
  have replaces : Replaces e.ending ⟨[], e.ending⟩ := fun _ _ => rfl
  have meets := @Draft.meets_readTokens _ _ replaces _ registered d inner
  rw [h] at meets
  rcases meets.of_error with ⟨plain, _⟩ | ⟨ends, _⟩
  · exact plain
  · cases ending : e.ending with
    | newLine mark =>
      rw [ending] at ends
      cases ends
    | unreadable =>
      rw [ending] at ends
      cases ends
      exact nofun
    | flaw mark =>
      rw [ending] at ends
      cases ends
      exact closed mark ending

theorem Draft.decides_readEntries {lost : Prop} {front whole : List Entry} {d : Draft}
    (h : CutEntries lost front whole) :
    Decides lost (readEntries registered d front) (readEntries registered d whole) := by
  induction h generalizing d with
  | closed unread =>
    refine .fresh fun lost => ?_
    obtain ⟨rest, rfl⟩ := unread lost
    rfl
  | @inComment tokens mark k rest inner leftOpen unread =>
    have replaces : Replaces (.flaw mark) k := nofun
    have meets := @meets_readTokens _ _ replaces _ registered d inner
    rw [readEntries, readEntries]
    show Decides lost (readTokens registered (.flaw mark) d tokens >>= _)
      (readTokens registered k.ending d (tokens ++ k.tokens) >>= _)
    cases read : readTokens registered (.flaw mark) d tokens with
    | error refusal =>
      rw [read] at meets
      rcases meets.of_error with ⟨plain, same⟩ | ⟨ends, stops⟩
      · rw [same]
        exact .refused plain
      · cases ends
        refine .unfinished leftOpen.text fun lost => ?_
        obtain rfl := unread lost
        rw [stops rfl _ rfl]
        rfl
    | ok reading =>
      rw [read] at meets
      obtain ⟨_, same, rfl, decided⟩ := meets.of_ok
      rw [same]
      rcases decided with ⟨t, rfl⟩ | ⟨_, ends⟩
      · exact .registered
      · cases ends
  | @entry e front whole inner closed _ ih =>
    rw [readEntries, readEntries]
    cases read : readTokens registered e.ending d e.tokens with
    | error refusal => exact .refused (not_unfinished_of_readTokens inner closed read)
    | ok reading =>
      cases reading with
      | registered t => exact .registered
      | fresh d' => exact ih

/-- What a front part decides about an input. A front part without a class is not decided. -/
theorem decides_ofEvents {lost : Prop} {front whole : List Event} (h : Cut lost front whole) :
    Decides lost (ofEvents registered front) (ofEvents registered whole) := by
  have decides := @Draft.decides_readEntries registered _ _ _ .start (cutEntries_ofEvents h)
  rw [ofEvents, ofEvents]
  generalize Draft.readEntries registered .start (Entry.ofEvents front) = x at decides
  generalize Draft.readEntries registered .start (Entry.ofEvents whole) = y at decides
  cases decides with
  | refused plain => exact .refused plain
  | registered => exact .registered
  | unfinished missing lostAt =>
    refine .unfinished missing fun lost => ?_
    rw [lostAt lost]
    rfl
  | @fresh d _ lostAt =>
    show Decides lost
      (d.finish (endPlace front) >>= fun definition => .ok (Reading.fresh definition)) _
    unfold Draft.finish
    split
    · refine .unfinished rfl fun lost => ?_
      rw [lostAt lost]
      rfl
    · refine .fresh fun lost => ?_
      rw [lostAt lost]
      rfl

/-- What some lines of text decide about an input that begins with them. -/
theorem decides_ofLines {front back : List SourceLine} (readable : .unreadable ∉ front) :
    Decides (back.head? = some .unreadable)
      (ofEvents registered (Scanner.ofLines front).events)
      (ofEvents registered (Scanner.ofLines (front ++ back)).events) :=
  decides_ofEvents (Scanner.cut_events readable)

end TableSchema.Definition
