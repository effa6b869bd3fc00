import TableSchema.Proofs.Definition.Front
import TableSchema.Proofs.Registry.ReadEffect
import TableSchema.Proofs.Text.Bytes

/-!
The front part of an input decides.

Take an input that begins with whole lines of text. If these lines alone are refused, though not for
what is missing at their end, or given up for a table that is registered, then so is the whole
input, whatever bytes follow. If they are not, what follows is read, and an input whose next line is
no text cannot be read (`read_append`).
-/

namespace TableSchema

open Text (SourceLine utf8)

/-- The scanner of a text is that of its bytes. -/
theorem Scanner.ofBytes_utf8 (text : String) : ofBytes (utf8 text) = ofText text :=
  congrArg ofLines (SourceLine.ofBytes_utf8 text)

namespace Registry

variable {r : Registry}

/-- An input that gives a table of the registry is given up for it. -/
theorem Indexed.read_eq_ok_iff (h : r.Indexed) {s : Scanner} {t : Table} :
    (∃ after, r.read s = .ok (t, after) ∧ t ∈ r.tables) ↔
      Definition.ofEvents r.find? s.events = .ok (.registered t) := by
  constructor
  · rintro ⟨after, read, old⟩
    rcases read_eq_ok read with ⟨_, events⟩ | ⟨d, events, rfl, _⟩
    · exact events
    · -- the class of a table that is read in full is free
      have free := Definition.ofEvents_free events
      rw [h.find?_domain old] at free
      cases free
  · intro events
    obtain ⟨domain, found⟩ := Definition.ofEvents_registered events
    refine ⟨r, ?_, ((h.find?_eq_some_iff).mp found).1⟩
    rw [read, events]
    rfl

/-- An input that gives a table which is not registered adds it. -/
theorem Indexed.exists_adds (h : r.Indexed) {s : Scanner} {t : Table} {after : Registry}
    (read : r.read s = .ok (t, after)) (new : t ∉ r.tables) :
    ∃ d, d.table = t ∧ r.Adds s d after := by
  rcases read_eq_ok read with ⟨_, events⟩ | ⟨d, events, rfl, rfl⟩
  · obtain ⟨_, _, old⟩ := h.read_eq_ok_iff.mpr events
    exact absurd old new
  · exact ⟨d, rfl, h.adds_of_ofEvents events⟩

/-- A read that is refused or given up leaves the registry as it is. -/
theorem Indexed.apply_read_eq_self (h : r.Indexed) {s : Scanner}
    (nothing : (∃ refusal, r.read s = .error refusal) ∨
      ∃ t after, r.read s = .ok (t, after) ∧ t ∈ r.tables) : r.apply (.read s) = r := by
  rw [apply]
  rcases nothing with ⟨refusal, refused⟩ | ⟨t, after, read, old⟩
  · rw [refused]
  · have events := h.read_eq_ok_iff.mp ⟨after, read, old⟩
    rw [Registry.read, events]
    rfl

/-- Let an input begin with a text that is empty or ends with a line feed. If the text alone is
refused, and not for a comment or a class that is missing at its end, the whole input is refused for
the same reason; if the text is given up for a table of the registry, so is the whole input. In all
other cases an input that goes on with a line that is no text cannot be read. No input that is
refused or given up changes the registry. -/
theorem read_append (reachable : r.Reachable) {text : String}
    (ended : ∀ c ∈ text.toList.getLast?, c = '\n') (back : List UInt8) :
    let front := Scanner.ofBytes (utf8 text)
    let whole := Scanner.ofBytes (utf8 text ++ back)
    (∀ refusal, r.read front = .error refusal → ¬refusal.Unfinished →
      r.read whole = .error refusal) ∧
    (∀ t after, r.read front = .ok (t, after) → t ∈ r.tables → r.read whole = .ok (t, r)) ∧
    ((∀ refusal, r.read front = .error refusal → refusal.Unfinished) →
      (∀ t after, r.read front = .ok (t, after) → t ∉ r.tables) →
      (SourceLine.ofBytes back).head? = some .unreadable →
      r.read whole = .error (.unreadable .notText)) ∧
    ∀ s, (∃ refusal, r.read s = .error refusal) ∨
      (∃ t after, r.read s = .ok (t, after) ∧ t ∈ r.tables) → r.apply (.read s) = r := by
  intro front whole
  have indexed : r.Indexed := reachable.sound.indexed
  have decides : Definition.Decides ((SourceLine.ofBytes back).head? = some .unreadable)
      (Definition.ofEvents r.find? front.events) (Definition.ofEvents r.find? whole.events) := by
    unfold front whole Scanner.ofBytes
    rw [SourceLine.ofBytes_utf8, SourceLine.ofBytes_append ended]
    exact Definition.decides_ofLines SourceLine.unreadable_not_mem_ofText
  refine ⟨fun refusal refused plain => ?_, fun t after read old => ?_, fun refused new lost => ?_,
    fun _ => indexed.apply_read_eq_self⟩
  · rw [read_eq_error] at refused ⊢
    rw [refused] at decides
    exact decides.eq_error plain
  · have events := indexed.read_eq_ok_iff.mp ⟨after, read, old⟩
    rw [events] at decides
    rw [Registry.read, decides.eq_registered]
    rfl
  · rw [read_eq_error]
    refine decides.eq_unreadable (fun refusal h => refused refusal (read_eq_error.mpr h))
      (fun t events => ?_) lost
    obtain ⟨after, read, old⟩ := indexed.read_eq_ok_iff.mpr events
    exact new t after read old

/-- The refusal of a word in front of all headers. -/
def misplaced : Definition.Refusal := .grammar (.headerExpected ⟨.word, "x", 1, 0⟩) ⟨1, 1, "x"⟩

/-- In front of a byte that is no text stand a word in the wrong place, a class that is registered,
and an open comment. -/
theorem read_append_single :
    (run single).read (.ofBytes (utf8 "x\n" ++ [255])) = .error misplaced ∧
    (∃ t ∈ (run single).tables,
      (run single).read (.ofBytes (utf8 "[Settings]\nCLASS a\n" ++ [255])) = .ok (t, run single)) ∧
    (run single).read (.ofBytes (utf8 "/*\n" ++ [255])) = .error (.unreadable .notText) := by
  have reachable : (run single).Reachable := ⟨single, rfl⟩
  have ended {text : String} (last : text.toList.getLast? = some '\n') :=
    read_append reachable (Text.ended_of_getLast? last) [255]
  refine ⟨?_, ?_, ?_⟩
  · refine (ended (by decide +kernel)).1 misplaced ?_ nofun
    rw [Scanner.ofBytes_utf8]
    decide +kernel
  · have given : ∃ t ∈ (run single).tables,
        (run single).read (.ofText "[Settings]\nCLASS a\n") = .ok (t, run single) := by
      decide +kernel
    obtain ⟨t, old, read⟩ := given
    rw [← Scanner.ofBytes_utf8] at read
    exact ⟨t, old, (ended (by decide +kernel)).2.1 t _ read old⟩
  · have unfinished : (run single).read (.ofBytes (utf8 "/*\n")) =
        .error (.lexical Flaw.openComment.message ⟨1, 1, "/*"⟩) := by
      rw [Scanner.ofBytes_utf8]
      decide +kernel
    refine (ended (by decide +kernel)).2.2.1
      (fun refusal refused => ?_) (fun t after read => ?_) (by decide +kernel)
    · obtain rfl := Except.error.inj (unfinished.symm.trans refused)
      rfl
    · cases unfinished.symm.trans read

end Registry

end TableSchema
