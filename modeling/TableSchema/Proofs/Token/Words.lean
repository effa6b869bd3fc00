import TableSchema.Proofs.Identifier.WordNames
import TableSchema.Proofs.Token.Rows

/-!
The words of an input.

A word token has at least one character, and no characters but those of words (`isWord_of_read`),
whatever line it is read from and wherever reading begins (`Scanner.isWord_of_mem_events`).
-/

namespace TableSchema

namespace Lexeme

variable {c : Char} {rest : List Char} {lexeme : Lexeme}

theorem isWord_of_readWord (filled : 0 < (readWord (c :: rest)).size)
    (word : (readWord (c :: rest)).kind = .word) : IsWord (readWord (c :: rest)).text := by
  have taken (filled : 0 < ((c :: rest).takeWhile isWordChar).length) :
      IsWord (String.ofList ((c :: rest).takeWhile isWordChar)) := by
    refine ⟨?_, ?_⟩
    · simpa using List.length_pos_iff.mp filled
    · intro d hd
      rw [String.toList_ofList] at hd
      exact List.mem_takeWhile_imp hd
  rw [readWord] at filled word ⊢
  split
  · rename_i stop
    rw [stop] at filled
    exact taken filled
  · rename_i d more stop
    simp only [stop] at filled word
    split
    · rename_i ends
      rw [if_pos ends] at filled
      exact taken filled
    · rename_i inside
      rw [if_neg inside] at word
      cases word

/-- A word that a line begins with is filled with the characters of words. -/
theorem isWord_of_read (start : isGap c = false) (h : read c rest = some lexeme)
    (word : lexeme.kind = .word) : IsWord lexeme.text := by
  have filled := size_pos_of_read start h
  rw [read] at h
  split at h
  · rw [readSlash.eq_def] at h
    split at h
    · cases h
      cases word
    · obtain ⟨size, _, rfl⟩ := Option.map_eq_some_iff.mp h
      cases word
    · cases h
      cases word
  · split at h
    · obtain rfl := Option.some.inj h
      rw [readBracket] at word
      split at word
      · cases word
      · split at word <;> cases word
    · split at h
      · obtain rfl := Option.some.inj h
        rw [readSpecial] at word
        split at word <;> cases word
      · obtain rfl := Option.some.inj h
        exact isWord_of_readWord filled word

end Lexeme

namespace Scanner

variable {s after : Scanner} {t : Token}

theorem isWord_of_step (done : s.step = (.token t, after)) (word : t.kind = .word) :
    IsWord t.text := by
  rw [step] at done
  dsimp only at done
  split at done
  · cases done
    cases word
  · rename_i c cs found
    have start : Lexeme.isGap c = false := by
      have stop := List.head?_dropWhile_not Lexeme.isGap (s.line.drop s.pos)
      simpa [found] using stop
    split at done
    · rename_i lexeme read
      cases done
      exact Lexeme.isWord_of_read start read word
    · rcases kind_of_closeComment done with comment | flaw
      · cases comment.symm.trans word
      · cases flaw.symm.trans word

theorem isWord_of_next (found : s.next = some (.token t, after)) (word : t.kind = .word) :
    IsWord t.text := by
  rw [next] at found
  split at found
  · split at found
    · cases found
    · cases found
    · exact isWord_of_step (Option.some.inj found) word
  · exact isWord_of_step (Option.some.inj found) word

/-- The words of an input are words. -/
theorem isWord_of_mem_events (s : Scanner) :
    ∀ e ∈ s.events, ∀ t, e.reply = .token t → t.kind = .word → IsWord t.text := by
  induction s using events_induction with
  | done s none => exact nofun
  | step s reply after found ih =>
    refine List.forall_mem_cons.mpr ⟨?_, ih⟩
    rintro t rfl word
    exact isWord_of_next found word

end Scanner

end TableSchema
