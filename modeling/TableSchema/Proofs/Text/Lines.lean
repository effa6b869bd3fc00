import Mathlib.Data.List.TakeWhile
import TableSchema.Text.Lines

/-!
The lines of an input and the text that they come from.

A text breaks into lines (`Text.Breaks`), each with the characters that end it: nothing else is left
out when the lines are cut (`Text.breaks_cutLines`). No line has a line feed in it or a carriage
return at its end.
-/

namespace TableSchema

/-- A line that can end with a line feed or a carriage return and a line feed without a doubt about
what belongs to it. -/
def IsLine (cs : List Char) : Prop := '\n' ∉ cs ∧ cs.getLast? ≠ some '\r'

theorem isLine_of_forall {cs : List Char} (h : ∀ c ∈ cs, c ≠ '\n' ∧ c ≠ '\r') : IsLine cs :=
  ⟨fun inside => (h _ inside).1 rfl, fun last => (h _ (List.mem_of_getLast? last)).2 rfl⟩

namespace Text

/-! ## Dropping an end -/

section

variable {drop : Char → Bool} {cs : List Char}

theorem dropEnd_of_getLast? (stop : ∀ c ∈ cs.getLast?, drop c = false) : dropEnd drop cs = cs := by
  unfold dropEnd
  rw [List.getLast?_eq_head?_reverse] at stop
  cases split : cs.reverse with
  | nil => simpa using split.symm
  | cons c front =>
    rw [split] at stop
    rw [List.dropWhile_cons_of_neg (by simp [stop c rfl]), ← split, List.reverse_reverse]

theorem getLast?_dropEnd : ∀ c ∈ (dropEnd drop cs).getLast?, drop c = false := by
  intro c hc
  rw [dropEnd, List.getLast?_reverse] at hc
  have first := List.head?_dropWhile_not drop cs.reverse
  rw [Option.mem_def.mp hc] at first
  simpa using first

theorem dropEnd_append_singleton {c : Char} (dropped : drop c = true) :
    dropEnd drop (cs ++ [c]) = dropEnd drop cs := by
  simp [dropEnd, dropped]

theorem exists_append_dropEnd (drop : Char → Bool) (cs : List Char) :
    ∃ tail, cs = dropEnd drop cs ++ tail ∧ ∀ c ∈ tail, drop c = true := by
  have split : cs.reverse.takeWhile drop ++ cs.reverse.dropWhile drop = cs.reverse :=
    List.takeWhile_append_dropWhile
  refine ⟨(cs.reverse.takeWhile drop).reverse, ?_, fun c hc => ?_⟩
  · rw [dropEnd, ← List.reverse_append, split, List.reverse_reverse]
  · exact List.mem_takeWhile_imp (List.mem_reverse.mp hc)

end

theorem lineText_of_isLine {cs : List Char} (line : IsLine cs) : lineText cs = cs := by
  refine dropEnd_of_getLast? fun c hc => ?_
  rw [beq_eq_false_iff_ne]
  rintro rfl
  exact line.2 hc

/-- A line is its text and the carriage returns behind it. -/
theorem exists_returns {cs : List Char} (unbroken : '\n' ∉ cs) :
    IsLine (lineText cs) ∧ ∃ returns, cs = lineText cs ++ List.replicate returns '\r' := by
  obtain ⟨tail, split, dropped⟩ := exists_append_dropEnd (· == '\r') cs
  refine ⟨⟨fun inside => unbroken ?_, fun last => ?_⟩, tail.length, ?_⟩
  · rw [split]
    exact List.mem_append_left _ inside
  · have stop := getLast?_dropEnd _ last
    cases stop
  · have returns : tail = List.replicate tail.length '\r' :=
      List.eq_replicate_of_mem fun c hc => eq_of_beq (dropped c hc)
    rw [← returns]
    exact split

/-! ## Cutting -/

theorem not_endsLine_of_mem_cutLines {α : Type} {endsLine : α → Bool} {list : List α} :
    ∀ line ∈ cutLines endsLine list, ∀ a ∈ line, endsLine a = false := by
  intro line hline a ha
  obtain ⟨whole, _, rfl⟩ := List.mem_map.mp hline
  simpa using List.mem_takeWhile_imp ha

/-- What has no end of a line in it is one line. -/
theorem cutAfter_of_unended {α : Type} {endsLine : α → Bool} {a : α} {list : List α}
    (unended : ∀ b ∈ a :: list, endsLine b = false) :
    cutAfter endsLine (a :: list) = [a :: list] := by
  induction list generalizing a with
  | nil => simp [cutAfter, unended a]
  | cons b list ih =>
    obtain ⟨first, rest⟩ := List.forall_mem_cons.mp unended
    rw [cutAfter, ih rest, if_neg (by simp [first])]

theorem cutLines_of_unended {α : Type} {endsLine : α → Bool} {a : α} {list : List α}
    (unended : ∀ b ∈ a :: list, endsLine b = false) :
    cutLines endsLine (a :: list) = [a :: list] := by
  rw [cutLines, cutAfter_of_unended unended, List.map_singleton,
    List.takeWhile_eq_self_iff.mpr fun b hb => by simp [unended b hb]]

theorem ne_lineFeed_of_not_mem {cs : List Char} (unbroken : '\n' ∉ cs) :
    ∀ c ∈ cs, (c == '\n') = false := by
  intro c hc
  rw [beq_eq_false_iff_ne]
  rintro rfl
  exact unbroken hc

/-- The lines of a text. A line ends with a line feed, and carriage returns may stand in front of
it. The last line may lack the line feed. -/
inductive Breaks : List Char → List (List Char) → Prop
  | nil : Breaks [] []
  | line {line rest : List Char} {lines : List (List Char)} (returns : Nat) :
      IsLine line → Breaks rest lines →
      Breaks (line ++ List.replicate returns '\r' ++ '\n' :: rest) (line :: lines)
  | last {line : List Char} (returns : Nat) :
      IsLine line → line ++ List.replicate returns '\r' ≠ [] →
      Breaks (line ++ List.replicate returns '\r') [line]

/-- An induction over the parts that end lines cut a sequence into. -/
@[elab_as_elim]
theorem cut_induction {α : Type} (endsLine : α → Bool) {motive : List α → Prop} (nil : motive [])
    (last : ∀ list, list ≠ [] → (∀ a ∈ list, endsLine a = false) → motive list)
    (line : ∀ front a rest, (∀ b ∈ front, endsLine b = false) → endsLine a = true → motive rest →
      motive (front ++ a :: rest))
    (list : List α) : motive list := by
  induction size : list.length using Nat.strong_induction_on generalizing list with
  | _ n ih =>
    have split := List.takeWhile_append_dropWhile (p := fun a => !endsLine a) (l := list)
    have unended : ∀ a ∈ list.takeWhile fun a => !endsLine a, endsLine a = false := fun a ha => by
      simpa using List.mem_takeWhile_imp ha
    cases found : list.dropWhile fun a => !endsLine a with
    | nil =>
      rw [found, List.append_nil] at split
      cases list with
      | nil => exact nil
      | cons a rest => exact last _ (List.cons_ne_nil a rest) (split ▸ unended)
    | cons a rest =>
      have ends : endsLine a = true := by
        have stop := List.head?_dropWhile_not (fun a => !endsLine a) list
        simpa [found] using stop
      rw [found] at split
      have shorter : rest.length < n := by
        rw [← size, ← split, List.length_append, List.length_cons]
        omega
      rw [← split]
      exact line _ a rest unended ends (ih rest.length shorter rest rfl)

/-- An induction over the lines of a text. -/
@[elab_as_elim]
theorem lines_induction {motive : List Char → Prop} (nil : motive [])
    (last : ∀ cs, cs ≠ [] → '\n' ∉ cs → motive cs)
    (line : ∀ front rest, '\n' ∉ front → motive rest → motive (front ++ '\n' :: rest))
    (cs : List Char) : motive cs := by
  have unbroken {cs : List Char} (unended : ∀ c ∈ cs, (c == '\n') = false) : '\n' ∉ cs :=
    fun inside => absurd (unended _ inside) (by decide)
  induction cs using cut_induction (· == '\n') with
  | nil => exact nil
  | last cs filled unended => exact last cs filled (unbroken unended)
  | line front c rest unended ends ih =>
    obtain rfl := eq_of_beq ends
    exact line front rest (unbroken unended) ih

/-- Cutting finds the lines of a text. -/
theorem breaks_cutLines (cs : List Char) : Breaks cs ((cutLines (· == '\n') cs).map lineText) := by
  induction cs using lines_induction with
  | nil => exact .nil
  | last cs filled unbroken =>
    obtain ⟨isLine, returns, split⟩ := exists_returns unbroken
    have line := Breaks.last returns isLine (split ▸ filled)
    obtain ⟨c, rest, rfl⟩ := List.exists_cons_of_ne_nil filled
    rw [← split] at line
    rw [cutLines_of_unended (ne_lineFeed_of_not_mem unbroken)]
    exact line
  | line front rest unbroken ih =>
    obtain ⟨isLine, returns, split⟩ := exists_returns unbroken
    have line := Breaks.line returns isLine ih
    rw [← split] at line
    rw [cutLines_append_cons rfl _ _ (ne_lineFeed_of_not_mem unbroken)]
    exact line

/-! ## Lines of an input -/

/-- The text of a line that has one. -/
def SourceLine.text? : SourceLine → Option (List Char)
  | .readable text => some text
  | .unreadable => none

/-- The lines of an input that are text. -/
def texts (source : List SourceLine) : List (List Char) := source.filterMap SourceLine.text?

/-- An input without a line that is no text. -/
theorem map_texts {source : List SourceLine} (readable : .unreadable ∉ source) :
    (texts source).map .readable = source := by
  induction source with
  | nil => rfl
  | cons line source ih =>
    have later : .unreadable ∉ source := fun inside => readable (List.mem_cons_of_mem _ inside)
    cases line with
    | readable cs => exact congrArg (SourceLine.readable cs :: ·) (ih later)
    | unreadable => exact absurd List.mem_cons_self readable

theorem getElem?_of_texts {source : List SourceLine} (readable : .unreadable ∉ source) {n : Nat}
    {line : List Char} (here : (texts source)[n]? = some line) :
    source[n]? = some (.readable line) := by
  calc source[n]? = ((texts source).map .readable)[n]? := by rw [map_texts readable]
    _ = some (.readable line) := by rw [List.getElem?_map, here]; rfl

theorem SourceLine.unbroken_ofText {text : String} {cs : List Char}
    (h : .readable cs ∈ SourceLine.ofText text) : '\n' ∉ cs := by
  obtain ⟨line, hline, same⟩ := List.mem_map.mp h
  obtain rfl := SourceLine.readable.inj same
  have unbroken : '\n' ∉ line := fun inside => by
    simpa using not_endsLine_of_mem_cutLines line hline '\n' inside
  exact (exists_returns unbroken).1.1

theorem SourceLine.unreadable_not_mem_ofText {text : String} :
    .unreadable ∉ SourceLine.ofText text := by
  intro h
  obtain ⟨_, _, other⟩ := List.mem_map.mp h
  cases other

theorem texts_ofText (text : String) :
    texts (SourceLine.ofText text) = (cutLines (· == '\n') text.toList).map lineText := by
  unfold texts SourceLine.ofText
  rw [List.filterMap_map]
  exact congrFun List.filterMap_eq_map _

end Text

end TableSchema
