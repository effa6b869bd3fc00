import TableSchema.Definition.Draft
import TableSchema.Proofs.Outcome

/-!
Readers that accept a form of line and nothing else.

A reader recognizes what is meant by a form if it gives exactly this, and if it refuses whatever has
another form for a breach of the grammar, at a place (`Recognizes`). Readers in a row recognize what
their forms mean in a row (`Recognizes.bind`), so each reader is followed once, in both directions
and with its refusals. What a reader of a section recognizes is recognized where its lines stand in
a file, too (`Draft.recognizes_readTokens`).
-/

namespace TableSchema.Definition

variable {α β : Type} {meant meant' : α → Prop} {x : Except Refusal α}

/-- One result is meant and given, or none is meant and the grammar is broken at some place. -/
def Recognizes (meant : α → Prop) : Except Refusal α → Prop
  | .ok result => ∀ other, meant other ↔ other = result
  | .error refusal => (∃ problem place, refusal = .grammar problem place) ∧ ∀ other, ¬meant other

namespace Recognizes

theorem refuse {seen : Seen} {token : Token} {problem : Problem} (h : ∀ other, ¬meant other) :
    Recognizes meant (.error (seen.refuse token problem)) := ⟨⟨problem, _, rfl⟩, h⟩

theorem reject {seen : Seen} {problem : Problem} (h : ∀ other, ¬meant other) :
    Recognizes meant (.error (seen.reject problem)) := refuse h

theorem pure (a : α) : Recognizes (· = a) (.ok a) := fun _ => Iff.rfl

theorem congr (h : Recognizes meant x) (same : ∀ a, meant' a ↔ meant a) : Recognizes meant' x := by
  cases x with
  | ok result => exact fun other => (same other).trans (h other)
  | error refusal => exact ⟨h.1, fun other => fun other' => h.2 other ((same other).mp other')⟩

theorem bind {f : α → Except Refusal β} (h : Recognizes meant x) (after : α → β → Prop)
    (next : ∀ a, meant a → Recognizes (after a) (f a)) :
    Recognizes (fun b => ∃ a, meant a ∧ after a b) (x >>= f) := by
  cases x with
  | ok a =>
    have only : ∀ b, (∃ a', meant a' ∧ after a' b) ↔ after a b := by
      intro b
      constructor
      · rintro ⟨a', hmeant, hafter⟩
        obtain rfl := (h a').mp hmeant
        exact hafter
      · exact fun hafter => ⟨a, (h a).mpr rfl, hafter⟩
    exact (next a ((h a).mpr rfl)).congr only
  | error refusal =>
    exact ⟨h.1, fun b ⟨a, hmeant, _⟩ => h.2 a hmeant⟩

/-- What is given is what is meant. -/
theorem eq_ok_iff (h : Recognizes meant x) (a : α) : x = .ok a ↔ meant a := by
  cases x with
  | ok result => exact ⟨fun same => (h a).mpr (Except.ok.inj same).symm,
      fun hmeant => congrArg _ ((h a).mp hmeant).symm⟩
  | error refusal => exact iff_of_false (by simp) (h.2 a)

/-- Where nothing is meant, the grammar is broken. -/
theorem eq_error (h : Recognizes meant x) (nothing : ∀ a, ¬meant a) :
    ∃ problem place, x = .error (.grammar problem place) := by
  cases x with
  | ok result => exact absurd ((h result).mpr rfl) (nothing result)
  | error refusal =>
    obtain ⟨problem, place, rfl⟩ := h.1
    exact ⟨problem, place, rfl⟩

end Recognizes

namespace Draft

variable {registered : String → Option Table} {d : Draft} {t : Table} {first : Seen}
  {rest : List Seen} {ending : Ending}

/-- A line with nothing in front of its declaration is read as this declaration. -/
theorem readTokens_of_declaration (noComment : first.token.kind ≠ .comment)
    (noHeader : first.token.kind ≠ .header) :
    readTokens registered ending d (first :: rest) =
      d.readDeclaration registered first ⟨rest, ending⟩ := by
  rw [readTokens]
  split
  · contradiction
  · contradiction
  · rfl

/-- A line of a section that comes after the class is recognized by the reader of the section, if
nothing stands in front of its declaration. -/
theorem recognizes_readTokens {read : Table → Except Refusal Draft} {meant : Draft → Prop}
    (noComment : first.token.kind ≠ .comment) (noHeader : first.token.kind ≠ .header)
    (found : d.table = some t)
    (section' : d.readDeclaration registered first ⟨rest, ending⟩ = d.readMember first read)
    (h : Recognizes meant (read t)) :
    Recognizes (fun reading => ∃ d', meant d' ∧ reading = .fresh d')
      (readTokens registered ending d (first :: rest)) := by
  rw [readTokens_of_declaration noComment noHeader, section', readMember, found]
  exact h.bind _ fun d' _ => .pure _

end Draft

/-- The entry of a line on which these tokens stand. -/
def entryOf (row : Nat) (line : String) (tokens : List (Token.Kind × String × Nat)) : Entry where
  tokens := tokens.map fun (kind, text, col) => ⟨⟨kind, text, row, col⟩, line.toList⟩
  ending := .newLine ⟨.lineEnd row line.length, line.toList⟩

end TableSchema.Definition
