import TableSchema.Proofs.Token.Rows

/-!
Inputs that agree up to a row.

The scanner fetches a line only when the one before is used up or a comment is open there, and no
step leads back to an earlier row, unless a comment stays open. So two scanners that differ in the
lines behind a row alone (`Scanner.Agrees`) give the same token as long as the first of them does
not pass that row, and they agree afterwards (`Scanner.Agrees.exists_next`).
-/

namespace TableSchema

open Text (SourceLine)

theorem exists_cons_of_take_eq {α : Type} {a : α} {l l' : List α} {n : Nat} (pos : 0 < n)
    (same : l'.take n = (a :: l).take n) :
    ∃ rest, l' = a :: rest ∧ rest.take (n - 1) = l.take (n - 1) := by
  obtain ⟨m, rfl⟩ := Nat.exists_eq_add_of_lt pos
  cases l' with
  | nil => simp at same
  | cons b rest =>
    simp only [Nat.zero_add, List.take_succ_cons, List.cons.injEq] at same
    obtain ⟨rfl, same⟩ := same
    exact ⟨rest, rfl, by simpa using same⟩

namespace Scanner

variable {k : Nat} {s s' after opening opening' : Scanner} {t : Token}

/-- The scanners stand at the same place and have the same lines ahead up to the row `k`. -/
structure Agrees (k : Nat) (s s' : Scanner) : Prop where
  here : s' = { s with ahead := s'.ahead }
  ahead : s'.ahead.take (k - s.row) = s.ahead.take (k - s.row)

theorem agrees_ofLines {lines lines' : List SourceLine} (same : lines'.take k = lines.take k) :
    Agrees k (ofLines lines) (ofLines lines') := ⟨rfl, same⟩

/-- A comment that is closed behind its line ends on a later row. -/
theorem row_lt_of_closeComment {start : Nat} {text : List Char} {ahead : List SourceLine}
    (flawless : t.kind ≠ .flaw)
    (done : closeComment opening start text s ahead = (.token t, after)) : s.row < after.row := by
  induction ahead generalizing s text with
  | nil =>
    cases done
    exact absurd rfl flawless
  | cons next ahead ih =>
    cases next with
    | unreadable => cases done
    | readable cs =>
      rw [closeComment] at done
      split at done
      · cases done
        exact Nat.lt_succ_self _
      · exact (Nat.lt_succ_self _).trans (ih done)

theorem row_le_of_step (flawless : t.kind ≠ .flaw) (done : s.step = (.token t, after)) :
    s.row ≤ after.row := by
  have steps := s.stepsTo_step
  rw [done] at steps
  cases steps with
  | lineEnd | lexeme => exact Nat.le_refl _
  | comment _ _ _ closes => exact (row_lt_of_closeComment flawless closes).le

theorem row_le_of_next (flawless : t.kind ≠ .flaw) (found : s.next = some (.token t, after)) :
    s.row ≤ after.row := by
  rw [next] at found
  split at found
  · split at found
    · cases found
    · cases found
    · exact (Nat.le_succ _).trans (row_le_of_step flawless (Option.some.inj found))
  · exact row_le_of_step flawless (Option.some.inj found)

/-- A comment that is closed up to the row `k` is the same on other lines that are the same up to
there. -/
theorem exists_closeComment {start : Nat} {text : List Char} {ahead ahead' : List SourceLine}
    (flawless : t.kind ≠ .flaw)
    (done : closeComment opening start text s ahead = (.token t, after)) (near : after.row ≤ k)
    (opened : opening'.row = opening.row) (row : s'.row = s.row)
    (same : ahead'.take (k - s.row) = ahead.take (k - s.row)) :
    ∃ after', closeComment opening' start text s' ahead' = (.token t, after') ∧
      Agrees k after after' := by
  -- over the lines on which the comment goes on, all of them up to the row `k`
  induction ahead generalizing s s' text ahead' with
  | nil =>
    cases done
    exact absurd rfl flawless
  | cons next ahead ih =>
    have ahead_pos : 0 < k - s.row :=
      Nat.sub_pos_of_lt ((row_lt_of_closeComment flawless done).trans_le near)
    obtain ⟨rest, rfl, later⟩ := exists_cons_of_take_eq ahead_pos same
    rw [Nat.sub_sub] at later
    cases next with
    | unreadable => cases done
    | readable cs =>
      rw [closeComment] at done ⊢
      cases closing : Lexeme.closing? cs with
      | some size =>
        rw [closing] at done
        cases done
        rw [opened]
        exact ⟨_, rfl, by simp [enter, row], later⟩
      | none =>
        rw [closing] at done
        exact ih done (congrArg (· + 1) row) later

theorem Agrees.exists_step (h : Agrees k s s') (flawless : t.kind ≠ .flaw)
    (done : s.step = (.token t, after)) (near : after.row ≤ k) :
    ∃ after', s'.step = (.token t, after') ∧ Agrees k after after' := by
  obtain ⟨here, ahead⟩ := h
  rw [step] at done
  rw [here, step]
  dsimp only at done ⊢
  cases first : (s.line.drop s.pos).dropWhile Lexeme.isGap with
  | nil =>
    rw [first] at done
    cases done
    exact ⟨_, rfl, rfl, ahead⟩
  | cons c cs =>
    cases read : Lexeme.read c cs with
    | some lexeme =>
      simp only [first, read] at done ⊢
      cases done
      exact ⟨_, rfl, rfl, ahead⟩
    | none =>
      simp only [first, read] at done ⊢
      exact exists_closeComment flawless done near rfl rfl ahead

/-- A step that gives a token and stays in front of the lines in which two scanners differ is the
same for both. -/
theorem Agrees.exists_next (h : Agrees k s s') (flawless : t.kind ≠ .flaw)
    (found : s.next = some (.token t, after)) (near : after.row ≤ k) :
    ∃ after', s'.next = some (.token t, after') ∧ Agrees k after after' := by
  have spent : s'.spent = s.spent := by rw [h.here]
  rw [next] at found
  rw [next, spent]
  split at found
  · rename_i used
    split at found
    · cases found
    · cases found
    · rename_i cs ahead split
      have done := Option.some.inj found
      -- the next line has been fetched, so it is in front of the row `k`
      have fetched : s.row < after.row :=
        (Nat.lt_succ_self _).trans_le (row_le_of_step flawless done)
      have same := h.ahead
      rw [split] at same
      obtain ⟨rest, ahead', same⟩ :=
        exists_cons_of_take_eq (Nat.sub_pos_of_lt (fetched.trans_le near)) same
      have row : s'.row = s.row := by rw [h.here]
      have entered : Agrees k (s.enter cs ahead) (s'.enter cs rest) := by
        refine ⟨by simp [enter, row], ?_⟩
        rw [Nat.sub_sub] at same
        exact same
      obtain ⟨after', done', agrees⟩ := entered.exists_step flawless done near
      refine ⟨after', ?_, agrees⟩
      rw [if_pos used, ahead']
      exact congrArg some done'
  · rename_i unused
    obtain ⟨after', done', agrees⟩ := h.exists_step flawless (Option.some.inj found) near
    exact ⟨after', by rw [if_neg unused, done'], agrees⟩

end Scanner

end TableSchema
