import TableSchema.Proofs.Definition.RoundTrip
import TableSchema.Proofs.Registry.Reachable

/-!
Printing declarations.

`Declaration.print` writes a declaration with one space between any two tokens of a line. It is one
of the texts that write the declaration (`writes_print`), and every such text is read as what it
declares (`Registry.read_of_writes`).
-/

namespace TableSchema

/-! ## Spaced lines -/

/-- Tokens with a space between any two. -/
def spaced : List Written → List Char
  | [] => []
  | [w] => w.chars
  | w :: v :: ws => w.chars ++ ' ' :: spaced (v :: ws)

/-- Whether a token may stand in front of others when there are spaces between them. -/
def Written.Leads : Written → List Written → Prop
  | word _, _ => True
  | special c _, ws => c = '(' → ∃ v ∈ ws, ')' ∈ v.chars
  | header _ _, _ => True
  | note text, ws => ws = [] ∧ IsLine ('/' :: '/' :: text)

/-- Every token may stand in front of those after it. -/
def Orderly : List Written → Prop
  | [] => True
  | w :: ws => w.Leads ws ∧ Orderly ws

theorem Lays.space {ws : List Written} {cs : List Char} (h : Lays ws cs) : Lays ws (' ' :: cs) := by
  have longer {gap : List Char} (blank : IsGap gap) : IsGap (' ' :: gap) :=
    List.forall_mem_cons.mpr ⟨by decide, blank⟩
  cases h with
  | blank blank => exact .blank (longer blank)
  | token blank before rest => exact .token (longer blank) before rest

theorem mem_spaced {ws : List Written} {w : Written} {c : Char} (hw : w ∈ ws) (hc : c ∈ w.chars) :
    c ∈ spaced ws := by
  induction ws with
  | nil => cases hw
  | cons v ws ih =>
    cases ws with
    | nil =>
      obtain rfl := List.mem_singleton.mp hw
      exact hc
    | cons v' ws =>
      rw [spaced]
      rcases List.mem_cons.mp hw with rfl | hw
      · exact List.mem_append_left _ hc
      · exact List.mem_append_right _ (List.mem_cons_of_mem _ (ih hw))

/-- Spaces keep tokens apart. -/
theorem lays_spaced {ws : List Written} (h : Orderly ws) : Lays ws (spaced ws) := by
  induction ws with
  | nil => exact .blank nofun
  | cons w ws ih =>
    obtain ⟨leads, rest⟩ := h
    cases ws with
    | nil =>
      have before : w.Before [] := by
        cases w with
        | word => exact nofun
        | special =>
          intro opening
          obtain ⟨_, none, _⟩ := leads opening
          cases none
        | header => trivial
        | note => exact rfl
      have alone := Lays.token (show IsGap [] from nofun) before (ih rest)
      simpa [spaced] using alone
    | cons v ws =>
      have before : w.Before (' ' :: spaced (v :: ws)) := by
        cases w with
        | word =>
          rintro c ⟨⟩
          decide
        | special =>
          intro opening
          obtain ⟨closing, hclosing, hc⟩ := leads opening
          exact List.mem_cons_of_mem _ (mem_spaced hclosing hc)
        | header => trivial
        -- a note is the last token of its line
        | note => exact nomatch leads.1
      exact Lays.token (show IsGap [] from nofun) before (ih rest).space

theorem Written.Leads.isLine {w : Written} {ws : List Written} (h : w.Leads ws) :
    IsLine w.chars := by
  refine w.isLine_chars fun text note => ?_
  rw [note] at h
  exact h.2

/-- Spaces leave a line that ends where its last token does. -/
theorem isLine_spaced {ws : List Written} (h : Orderly ws) : IsLine (spaced ws) := by
  induction ws with
  | nil => exact ⟨nofun, nofun⟩
  | cons w ws ih =>
    obtain ⟨leads, rest⟩ := h
    have first := leads.isLine
    cases ws with
    | nil => exact first
    | cons v ws =>
      obtain ⟨inside, last⟩ := ih rest
      rw [spaced]
      refine ⟨?_, ?_⟩
      · simp [first.1, inside]
      · rw [List.getLast?_append, List.getLast?_cons]
        cases ending : (spaced (v :: ws)).getLast? with
        | none => exact fun same => absurd (Option.some.inj same) (by decide)
        | some c =>
          rw [ending] at last
          exact last

/-! ## Printed declarations -/

/-- Whether a token may stand in front of any others. -/
def Written.Plain : Written → Prop
  | word _ => True
  | special c _ => c ≠ '('
  | header _ _ => True
  | note _ => False

theorem orderly_append {front back : List Written} (plain : ∀ w ∈ front, w.Plain)
    (h : Orderly back) : Orderly (front ++ back) := by
  induction front with
  | nil => exact h
  | cons w front ih =>
    obtain ⟨first, rest⟩ := List.forall_mem_cons.mp plain
    refine ⟨?_, ih rest⟩
    cases w with
    | word => trivial
    | special => exact fun opening => absurd opening first
    | header => trivial
    | note => exact first.elim

theorem orderly_of_plain {ws : List Written} (plain : ∀ w ∈ ws, w.Plain) : Orderly ws := by
  have h : Orderly (ws ++ []) := orderly_append plain trivial
  rwa [List.append_nil] at h

theorem Remark.isLine (r : Remark) : IsLine ('/' :: '/' :: ' ' :: r.text.toList) := by
  have inside := r.oneLine
  refine ⟨by simp [inside], ?_⟩
  simp only [List.getLast?_cons]
  cases ending : r.text.toList.getLast? with
  | none => exact fun same => absurd (Option.some.inj same) (by decide)
  | some c =>
    rw [← r.trimmed] at ending
    have stop : Text.isBlank c = false := Text.getLast?_dropEnd c ending
    intro same
    obtain rfl : c = '\r' := Option.some.inj same
    exact absurd stop (by decide)

namespace Declaration

theorem orderly_remark (r : Remark) : Orderly [r.written] := ⟨⟨rfl, r.isLine⟩, trivial⟩

theorem orderly_bracketed (length : Size) (precision : Option Size) {back : List Written}
    (h : Orderly back) : Orderly (bracketed length precision ++ back) := by
  cases precision with
  | none =>
    have plain : ∀ w ∈ [.word length.word, .special ')' (by decide)], Written.Plain w := by
      simp [Written.Plain]
    refine ⟨fun _ => ⟨.special ')' (by decide), by simp, List.mem_cons_self⟩, ?_⟩
    exact orderly_append plain h
  | some precision =>
    have plain : ∀ w ∈ [.word length.word, .special ',' (by decide), .word precision.word,
        .special ')' (by decide)], Written.Plain w := by
      simp [Written.Plain]
    refine ⟨fun _ => ⟨.special ')' (by decide), by simp, List.mem_cons_self⟩, ?_⟩
    exact orderly_append plain h

theorem orderly_lengthLine (type : DeclaredType) {back : List Written} (h : Orderly back) :
    Orderly (type.lengthLine ++ back) := by
  cases type with
  | blob length =>
    cases length with
    | none => exact h
    | some length => exact orderly_bracketed length none h
  | boolean => exact h
  | date => exact h
  | double length precision => exact orderly_bracketed length precision h
  | integer length | long length | string length | timestamp length | vstring length =>
    exact orderly_bracketed length none h

theorem plain_words {α : Type} {word : α → Word} {list : List α} :
    ∀ w ∈ list.map (fun a => Written.word (word a)), w.Plain := by
  intro w hw
  obtain ⟨_, _, rfl⟩ := List.mem_map.mp hw
  trivial

theorem orderly_field (f : Field) : Orderly f.line := by
  have comment : Orderly (f.comment.toList.map Remark.written) := by
    cases f.comment with
    | none => trivial
    | some r => exact orderly_remark r
  have names : Orderly (.word f.name :: (f.column.toList.map .word ++
      f.comment.toList.map Remark.written)) := ⟨trivial, orderly_append plain_words comment⟩
  have marks : ∀ w ∈ f.marks.map Mark.written, w.Plain := by
    intro w hw
    obtain ⟨m, _, rfl⟩ := List.mem_map.mp hw
    show m.char ≠ '('
    cases m <;> decide
  exact ⟨trivial, orderly_lengthLine f.type (orderly_append marks names)⟩

/-- The declaration as a text, with one space between any two tokens of a line. -/
def print (d : Declaration) : String :=
  String.ofList (d.lines.flatMap fun ws => spaced ws ++ ['\n'])

theorem orderly_of_mem_lines {d : Declaration} {ws : List Written} (hws : ws ∈ d.lines) :
    Orderly ws := by
  have header (part : Section) : Orderly (d.header part) := ⟨trivial, trivial⟩
  simp only [lines, List.mem_append, List.mem_cons, List.mem_map] at hws
  rcases hws with (((rfl | ⟨r, _, rfl⟩ | rfl | ⟨e, _, rfl⟩) | rfl | ⟨f, _, rfl⟩) |
    rfl | ⟨i, _, rfl⟩) | rfl | ⟨k, _, rfl⟩
  · exact header _
  · exact orderly_remark r
  · exact ⟨trivial, trivial, orderly_of_plain plain_words⟩
  · exact ⟨trivial, trivial, trivial, trivial⟩
  · exact header _
  · exact orderly_field f
  · exact header _
  · exact ⟨trivial, orderly_of_plain plain_words⟩
  · exact header _
  · exact orderly_append plain_words ⟨trivial, orderly_of_plain plain_words⟩

/-- The printed text writes the declaration. -/
theorem writes_print (d : Declaration) : Writes d.lines d.print.toList := by
  have each : ∀ content : List (List Written), (∀ ws ∈ content, Orderly ws) →
      Writes content (content.flatMap fun ws => spaced ws ++ ['\n']) := by
    intro content orderly
    induction content with
    | nil => exact .nil
    | cons ws content ih =>
      obtain ⟨first, rest⟩ := List.forall_mem_cons.mp orderly
      exact .line (lays_spaced first) (isLine_spaced first) (.inl rfl) (ih rest)
  rw [print, String.toList_ofList]
  exact each d.lines fun ws hws => orderly_of_mem_lines hws

end Declaration

namespace Registry

variable {r : Registry}

/-- A declaration can be printed, and every text that writes it, with any blanks between the tokens
and any case of headers and keywords, is read in a registry that lacks its class. The registry then
holds the table that was declared, at its end, and the link and the foreign keys. -/
theorem read_of_writes (d : Declaration) (reachable : r.Reachable)
    (free : r.find? d.domain = none) :
    Writes d.lines d.print.toList ∧
    ∀ text : String, Writes d.lines text.toList →
      ∃ after, r.read (.ofText text) = .ok (d.definition.table, after) ∧
        after.tables = r.tables ++ [d.definition.table] ∧
        after.find? d.domain = some d.definition.table ∧
        after.links = r.links ++ d.definition.link.toList ∧
        after.foreignKeys = r.foreignKeys ++ d.definition.foreignKeys := by
  refine ⟨d.writes_print, fun text writes => ⟨r.add d.definition, ?_, ?_⟩⟩
  · rw [read, Definition.ofEvents_of_writes d writes free]
    rfl
  · have indexed := reachable.sound.indexed
    have added := indexed.add_eq (d := d.definition) free
    refine ⟨by rw [added], ?_, by rw [added], by rw [added]⟩
    refine (indexed.add (d := d.definition) free).find?_eq_some_iff.mpr ⟨?_, rfl⟩
    rw [added]
    exact List.mem_append_right _ List.mem_cons_self

end Registry

namespace Declaration

/-- The title of a book. -/
def titleField : Field where
  type := .string ⟨40, by decide⟩
  keyword := ⟨.of "String" (by decide) (by decide), by decide⟩
  marks := [.required, .searchable]
  name := .of "title" (by decide) (by decide)
  column := none
  comment := some ⟨"as on the cover", by decide, by decide +kernel⟩
  computed := nofun

/-- Books by their titles. -/
def book : Declaration where
  headers part := ⟨part.name, by cases part <;> decide⟩
  docs := [⟨"All books.", by decide, by decide +kernel⟩]
  keyword := ⟨.of "class" (by decide) (by decide), by decide⟩
  className := .of "book" (by decide) (by decide)
  tableName := none
  ends := none
  fields := [titleField]
  indexes := [⟨.of "byTitle" (by decide) (by decide), [titleField], by decide⟩]
  references := [{
    locals := [.of "title" (by decide) (by decide)]
    filled := by simp
    plain := by simp; decide
    keyword := ⟨.of "constrainsTo" (by decide) (by decide), by decide⟩
    target := .of "work" (by decide) (by decide)
    dotless := by decide
    fields := [.of "name" (by decide) (by decide)]
    aimed := by simp }]
  distinct := by simp
  indexNames := by simp
  declared := by simp

/-- The table that is declared. No field is a key, so it has one of its own in front. -/
def bookTable : Table where
  domain := "Book"
  name := "BOOK"
  comment := some "All books."
  columns := [
    ⟨.bounded 10, .long, "key", "KEY", none, ⟨true, true, false, false, false⟩, "Book", false⟩,
    ⟨.bounded 40, .string, "title", "TITLE", some "as on the cover",
      ⟨true, false, false, true, false⟩, "Book", false⟩]
  indexes := [⟨"byTitle", [⟨"title", "TITLE"⟩]⟩]
  foreignKeys := []
  searchFields := ["title"]
  manyToMany := false
  endpoints := none

end Declaration

/-- The table and the foreign key that are registered, as values. -/
theorem Registry.read_of_writes_book :
    Writes Declaration.book.lines Declaration.book.print.toList ∧
    ∀ text : String, Writes Declaration.book.lines text.toList →
      ∃ after, empty.read (.ofText text) = .ok (Declaration.bookTable, after) ∧
        after.tables = [Declaration.bookTable] ∧
        after.find? "Book" = some Declaration.bookTable ∧
        after.links = [] ∧
        after.foreignKeys = [⟨"Book", ["title"], "Work", ["name"]⟩] := by
  obtain ⟨prints, reads⟩ := read_of_writes Declaration.book ⟨[], rfl⟩ rfl
  have declared : Declaration.book.definition =
      ⟨Declaration.bookTable, none, [⟨"Book", ["title"], "Work", ["name"]⟩]⟩ := by decide +kernel
  have domain : Declaration.book.domain = "Book" := by decide +kernel
  rw [declared, domain] at reads
  exact ⟨prints, reads⟩

example : Declaration.book.print =
    "[Settings]\n// All books.\nclass book\n" ++
    "[Fields]\nString ( 40 ) * ? title // as on the cover\n" ++
    "[Indexes]\nbyTitle title\n" ++
    "[ForeignKeys]\ntitle constrainsTo work.name\n" := by
  decide +kernel

end TableSchema
