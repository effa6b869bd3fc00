import TableSchema.Proofs.Definition.ClassLine
import TableSchema.Proofs.Registry.Front
import TableSchema.Proofs.Token.Agreement

/-!
What follows the class line of a file that is given up.

A file is given up at its class line, in some row, before anything behind that row has been looked
at. So every other input with the same lines up to this row is given up for the same table, whatever
comes behind them: errors, comments that stay open, or bytes that are no text. None of them changes
the registry (`read_of_take_eq`).
-/

namespace TableSchema

open Text (SourceLine utf8)
open Definition (classLine? classNamed? classLine?_cons classNamed?_cons)

namespace Scanner

variable {k : Nat} {s s' after : Scanner} {t : Token} {part : Option Section} {domain : String}

theorem Agrees.exists_events (h : Agrees k s s') (flawless : t.kind ≠ .flaw)
    (found : s.next = some (.token t, after)) (near : after.row ≤ k) :
    ∃ after', Agrees k after after' ∧
      s'.events = ⟨.token t, after.row, after.line⟩ :: after'.events := by
  obtain ⟨after', found', agrees⟩ := h.exists_next flawless found near
  refine ⟨after', agrees, ?_⟩
  rw [events_eq, found', agrees.here]

/-- The name of the class that is found is not in front of the place where the scanner stands. -/
theorem row_le_of_classNamed? (named : classNamed? s.events = some (k, domain)) : s.row ≤ k := by
  rw [events_eq] at named
  split at named
  · cases named
  · rename_i reply after found
    obtain ⟨token, rfl, flawless, rfl⟩ := classNamed?_cons named
    exact row_le_of_next flawless found

theorem row_le_of_classLine? (found : classLine? part s.events = some (k, domain)) : s.row ≤ k := by
  induction s using events_induction generalizing part with
  | done s none => cases found
  | step s reply after next ih =>
    obtain ⟨token, rfl, flawless, later⟩ := classLine?_cons found
    refine (row_le_of_next flawless next).trans ?_
    rcases later with ⟨part', later⟩ | later
    · exact ih ((later _).symm.trans found)
    · exact row_le_of_classNamed? ((later _).symm.trans found)

theorem Agrees.classNamed?_eq (h : Agrees k s s')
    (named : classNamed? s.events = some (k, domain)) :
    classNamed? s'.events = some (k, domain) := by
  rw [events_eq] at named
  split at named
  · cases named
  · rename_i reply after next
    obtain ⟨token, rfl, flawless, near⟩ := classNamed?_cons named
    obtain ⟨after', _, events⟩ := h.exists_events flawless next near.le
    rw [events]
    exact named

/-- A class line is found in the same way by scanners that agree up to its row. -/
theorem Agrees.classLine?_eq (h : Agrees k s s')
    (found : classLine? part s.events = some (k, domain)) :
    classLine? part s'.events = some (k, domain) := by
  induction s using events_induction generalizing part s' with
  | done s none => cases found
  | step s reply after next ih =>
    obtain ⟨token, rfl, flawless, later⟩ := classLine?_cons found
    rcases later with ⟨part', later⟩ | later
    · have behind := (later _).symm.trans found
      obtain ⟨after', agrees, events⟩ :=
        h.exists_events flawless next (row_le_of_classLine? behind)
      rw [events, later]
      exact ih agrees behind
    · have behind := (later _).symm.trans found
      obtain ⟨after', agrees, events⟩ :=
        h.exists_events flawless next (row_le_of_classNamed? behind)
      rw [events, later]
      exact agrees.classNamed?_eq behind

end Scanner

namespace Registry

variable {r : Registry}

/-- An input that is given up for a table of the registry is given up at a class line of this class.
Every input with the same lines up to the row of the class line is given up for the same table,
whatever comes behind them, and leaves the registry as it is. -/
theorem read_of_take_eq (reachable : r.Reachable) {bytes : List UInt8} {t : Table}
    {after : Registry} (abandoned : r.read (.ofBytes bytes) = .ok (t, after)) (old : t ∈ r.tables) :
    ∃ row domain, classLine? none (Scanner.ofBytes bytes).events = some (row, domain) ∧
      r.find? domain = some t ∧
      ∀ other, (SourceLine.ofBytes other).take row = (SourceLine.ofBytes bytes).take row →
        r.read (.ofBytes other) = .ok (t, r) ∧ r.apply (.read (.ofBytes other)) = r := by
  have indexed : r.Indexed := reachable.sound.indexed
  have events := indexed.read_eq_ok_iff.mp ⟨after, abandoned, old⟩
  obtain ⟨row, domain, line, found⟩ := Definition.ofEvents_eq_registered_iff.mp events
  refine ⟨row, domain, line, found, fun other same => ?_⟩
  -- no event up to the name of the class depends on the lines behind its row
  have line' : classLine? none (Scanner.ofBytes other).events = some (row, domain) :=
    (Scanner.agrees_ofLines same).classLine?_eq line
  have events' := Definition.ofEvents_eq_registered_iff.mpr ⟨row, domain, line', found⟩
  have given : r.read (.ofBytes other) = .ok (t, r) := by
    rw [read, events']
    rfl
  exact ⟨given, indexed.apply_read_eq_self (.inr ⟨t, r, given, old⟩)⟩

/-- A class line for `A`, behind a comment and a header. -/
def again : String := "/* A\n again */ [Settings]\nCLASS a // it is there\n"

/-- The lines of `again`, ended in another way, in front of an open comment and a byte that is no
text. -/
def againBroken : List UInt8 :=
  utf8 "/* A\r\n again */ [Settings]\r\nCLASS a // it is there\r\n[Fields] /* x\n" ++ [255]

theorem read_of_take_eq_again : ∃ t ∈ (run single).tables, t.domain = "A" ∧
    (run single).read (.ofBytes (utf8 again)) = .ok (t, run single) ∧
    (run single).read (.ofBytes againBroken) = .ok (t, run single) ∧
    (run single).apply (.read (.ofBytes againBroken)) = run single := by
  have given : ∃ t ∈ (run single).tables, t.domain = "A" ∧
      (run single).read (.ofText again) = .ok (t, run single) := by
    decide +kernel
  obtain ⟨t, old, named, read⟩ := given
  rw [← Scanner.ofBytes_utf8] at read
  obtain ⟨row, domain, line, _, elsewhere⟩ := read_of_take_eq ⟨single, rfl⟩ read old
  have here : classLine? none (Scanner.ofBytes (utf8 again)).events = some (3, "A") := by
    decide +kernel
  obtain ⟨rfl, rfl⟩ := Prod.mk.inj (Option.some.inj (here.symm.trans line))
  obtain ⟨read', kept⟩ := elsewhere againBroken (by decide +kernel)
  exact ⟨t, old, named, read, read', kept⟩

end Registry

end TableSchema
