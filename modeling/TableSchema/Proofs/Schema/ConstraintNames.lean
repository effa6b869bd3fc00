import TableSchema.Proofs.Schema.Integrity

/-!
What the name of a constraint tells.

The name of a constraint is made of the name of the table that it leaves, the names of its columns
there, and the name of the table that it leads to. They are put into capitals and joined by
underscores. The columns that it leads to are left out, so is the class of either table, and where
one part ends and the next begins cannot be seen, because the parts have underscores themselves.
Constraints that differ in one of these ways share a name (`exists_shared_name`).

What can be read off a name is the sequence of its words (`nameOf_eq_iff`). Where the parts of two
names are cut into words in the same way (`Constraint.CutAlike`), equal names have equal parts in
capitals, and where capitals tell all tables apart and all columns of a table, such constraints can
only differ in the columns that they lead to (`name_eq_iff_words`).
-/

namespace TableSchema

open Identifier (upperCase)

/-- Lists are equal when they are equal under a function that tells their elements apart. -/
theorem eq_of_map_eq {α β : Type} {f : α → β} {list other : List α}
    (apart : ∀ a ∈ list, ∀ b ∈ other, f a = f b → a = b) (same : list.map f = other.map f) :
    list = other := by
  induction list generalizing other with
  | nil => exact (List.map_eq_nil_iff.mp same.symm).symm
  | cons a rest ih =>
    cases other with
    | nil => cases same
    | cons b others =>
      obtain ⟨head, tail⟩ := List.cons.inj same
      obtain rfl := apart a List.mem_cons_self b List.mem_cons_self head
      rw [ih (fun x hx y hy => apart x (.tail _ hx) y (.tail _ hy)) tail]

namespace Constraint

/-- The words of a name in capitals, which stand between its underscores. -/
def wordsOf (name : String) : List (List Char) := (upperCase name).toList.splitOn '_'

/-- The words of the name of a constraint, after the one with which all such names begin. -/
def words (c : Constraint) : List (List Char) :=
  (wordsOf c.fromTableName ++ c.fromColumns.flatMap wordsOf) ++ "TO".toList :: wordsOf c.toTableName

/-- The names of either table have equally many words in both constraints, and so have the columns
that they leave, one by one. Where each leaves only one column, these need not be compared. -/
structure CutAlike (c d : Constraint) : Prop where
  fromTable : (wordsOf c.fromTableName).length = (wordsOf d.fromTableName).length
  toTable : (wordsOf c.toTableName).length = (wordsOf d.toTableName).length
  fromColumns : (c.isCompound = false ∧ d.isCompound = false) ∨
    (c.fromColumns.map wordsOf).map List.length = (d.fromColumns.map wordsOf).map List.length

instance (c d : Constraint) : Decidable (c.CutAlike d) :=
  decidable_of_iff (_ ∧ _ ∧ _) ⟨fun ⟨fromTable, toTable, fromColumns⟩ =>
    ⟨fromTable, toTable, fromColumns⟩, fun h => ⟨h.fromTable, h.toTable, h.fromColumns⟩⟩

/-- In capitals, the constraints leave columns of the same names in tables of the same name, and
lead to tables of the same name. -/
structure SameCapitals (c d : Constraint) : Prop where
  fromTable : upperCase c.fromTableName = upperCase d.fromTableName
  fromColumns : c.fromColumns.map upperCase = d.fromColumns.map upperCase
  toTable : upperCase c.toTableName = upperCase d.toTableName

/-! ## Words -/

/-- A text is known from what stands between its underscores. -/
theorem splitOn_injective : Function.Injective fun text : String => text.toList.splitOn '_' := by
  intro text other same
  have joined := congrArg ['_'].intercalate same
  simp only [List.intercalate_splitOn] at joined
  exact String.toList_injective joined

theorem wordsOf_inj {name other : String} :
    wordsOf name = wordsOf other ↔ upperCase name = upperCase other :=
  splitOn_injective.eq_iff

/-- Columns, each with an underscore behind it, come before the words that follow. -/
theorem splitOn_columns (columns : List String) (rest : List Char) :
    ((String.join (columns.map fun column => upperCase column ++ "_")).toList ++ rest).splitOn '_' =
      columns.flatMap wordsOf ++ rest.splitOn '_' := by
  induction columns with
  | nil => simp
  | cons column columns ih =>
    have first : (String.join ((column :: columns).map fun c => upperCase c ++ "_")).toList ++ rest =
        (upperCase column).toList ++ '_' ::
          ((String.join (columns.map fun c => upperCase c ++ "_")).toList ++ rest) := by
      simp
    rw [first, List.splitOn_append_cons_self, ih, List.flatMap_cons, List.append_assoc, wordsOf]

/-- The words of the name that a constraint gets. -/
theorem splitOn_nameOf (fromTable : String) (fromColumns : List String) (toTable : String) :
    (nameOf fromTable fromColumns toTable).toList.splitOn '_' =
      "FK".toList :: ((wordsOf fromTable ++ fromColumns.flatMap wordsOf) ++
        "TO".toList :: wordsOf toTable) := by
  have parts : (nameOf fromTable fromColumns toTable).toList =
      "FK".toList ++ '_' :: ((upperCase fromTable).toList ++ '_' ::
        ((String.join (fromColumns.map fun column => upperCase column ++ "_")).toList ++
          ("TO".toList ++ '_' :: (upperCase toTable).toList))) := by
    simp [nameOf]
  rw [parts, List.splitOn_append_cons_self, List.splitOn_append_cons_self, splitOn_columns,
    List.splitOn_append_cons_self]
  simp [wordsOf, List.splitOn_eq_singleton]

/-- Constraints get the same name exactly when its words are the same. -/
theorem nameOf_eq_iff {c d : Constraint}
    (hc : c.name = nameOf c.fromTableName c.fromColumns c.toTableName)
    (hd : d.name = nameOf d.fromTableName d.fromColumns d.toTableName) :
    c.name = d.name ↔ c.words = d.words := by
  rw [hc, hd, ← splitOn_injective.eq_iff]
  simp only [splitOn_nameOf, List.cons.injEq, true_and]
  rfl

/-! ## Parts of a name -/

/-- Columns that are cut into words alike, or single ones, are told apart by their words. -/
theorem map_upperCase_of_words {columns others : List String} (filled : columns ≠ [])
    (filled' : others ≠ []) (words : columns.flatMap wordsOf = others.flatMap wordsOf)
    (alike : (columns.length ≤ 1 ∧ others.length ≤ 1) ∨
      (columns.map wordsOf).map List.length = (others.map wordsOf).map List.length) :
    columns.map upperCase = others.map upperCase := by
  rcases alike with ⟨single, single'⟩ | lengths
  · obtain ⟨column, rfl⟩ := List.length_eq_one_iff.mp
      (le_antisymm single (List.length_pos_iff.mpr filled))
    obtain ⟨other, rfl⟩ := List.length_eq_one_iff.mp
      (le_antisymm single' (List.length_pos_iff.mpr filled'))
    simpa [wordsOf_inj] using words
  · have same : columns.map wordsOf = others.map wordsOf :=
      List.eq_iff_flatten_eq.mpr ⟨words, lengths⟩
    have split : wordsOf = (fun text : String => text.toList.splitOn '_') ∘ upperCase := by
      funext name
      rw [wordsOf, Function.comp_apply]
    rw [split, ← List.map_map, ← List.map_map] at same
    exact splitOn_injective.list_map same

/-- Constraints whose names are cut into words alike have the same parts in capitals when the words
are the same. -/
theorem CutAlike.sameCapitals {c d : Constraint} (alike : c.CutAlike d) (hc : c.fromColumns ≠ [])
    (hd : d.fromColumns ≠ []) (same : c.words = d.words) : c.SameCapitals d := by
  obtain ⟨front, back⟩ := List.append_inj' same (by simp [alike.toTable])
  obtain ⟨fromTable, fromColumns⟩ := List.append_inj front alike.fromTable
  refine ⟨wordsOf_inj.mp fromTable, map_upperCase_of_words hc hd fromColumns ?_,
    wordsOf_inj.mp (List.cons.inj back).2⟩
  exact alike.fromColumns.imp_left fun single => by simpa [isCompound] using single

end Constraint

/-- Capitals tell all tables apart, and all columns of a table. -/
structure Schema.DistinctNames (g : Schema) : Prop where
  tables : (g.tables.map fun t => upperCase t.name).Nodup
  columns : ∀ t ∈ g.tables, (t.columns.map fun c => upperCase c.columnName).Nodup

instance (g : Schema) : Decidable g.DistinctNames :=
  decidable_of_iff (_ ∧ _) ⟨fun ⟨tables, columns⟩ => ⟨tables, columns⟩,
    fun h => ⟨h.tables, h.columns⟩⟩

namespace Registry

variable {r b : Registry} {g : Schema} {c d : Constraint}

/-- The constraints of a schema are named by their tables and the columns that they leave. -/
theorem Finished.name_eq (finished : r.Finished g b) (hc : c ∈ g.constraints) :
    c.name = Constraint.nameOf c.fromTableName c.fromColumns c.toTableName := by
  obtain ⟨key, _, resolved⟩ := exists_of_resolved finished.resolved hc
  obtain ⟨source, target, fromColumns, toColumns, _, _, _, _, _, rfl⟩ := resolve_eq_ok.mp resolved
  rfl

/-- Where names are told apart by capitals, a constraint with the same parts in capitals leaves the
same columns of the same table and leads to the same table. -/
theorem eq_of_sameCapitals {source target source' target' : Table} (distinct : g.DistinctNames)
    (hsource : source ∈ g.tables) (htarget : target ∈ g.tables) (hsource' : source' ∈ g.tables)
    (htarget' : target' ∈ g.tables) (spans : c.Spans source target)
    (spans' : d.Spans source' target') (same : c.SameCapitals d) :
    c.fromTable = d.fromTable ∧ c.fromColumns = d.fromColumns ∧ c.toTable = d.toTable := by
  have tables : ∀ {t u : Table}, t ∈ g.tables → u ∈ g.tables → upperCase t.name = upperCase u.name →
      t = u := fun ht hu named => List.inj_on_of_nodup_map distinct.tables ht hu named
  have fromTable := same.fromTable
  rw [spans.fromTableName, spans'.fromTableName] at fromTable
  obtain rfl := tables hsource hsource' fromTable
  have toTable := same.toTable
  rw [spans.toTableName, spans'.toTableName] at toTable
  obtain rfl := tables htarget htarget' toTable
  refine ⟨spans.fromTable.trans spans'.fromTable.symm, eq_of_map_eq ?_ same.fromColumns,
    spans.toTable.trans spans'.toTable.symm⟩
  intro name hname other hother named
  obtain ⟨column, hcolumn, rfl⟩ := spans.fromColumns name hname
  obtain ⟨column', hcolumn', rfl⟩ := spans'.fromColumns other hother
  rw [List.inj_on_of_nodup_map (distinct.columns source hsource) hcolumn hcolumn' named]

/-- Two constraints of a schema have the same name exactly when its words are the same. Where they
are cut into words alike, they then have the same parts in capitals; and where capitals tell tables
and columns apart, they leave the same columns of the same table and lead to the same table. -/
theorem name_eq_iff_words (h : r.Reachable) (done : r.finish = .ok g) (hc : c ∈ g.constraints)
    (hd : d ∈ g.constraints) :
    (c.name = d.name ↔ c.words = d.words) ∧
    (c.CutAlike d → c.name = d.name → c.SameCapitals d ∧
      (g.DistinctNames →
        c.fromTable = d.fromTable ∧ c.fromColumns = d.fromColumns ∧ c.toTable = d.toTable)) := by
  obtain ⟨b, finished⟩ := h.sound.finished done
  have named : c.name = d.name ↔ c.words = d.words :=
    Constraint.nameOf_eq_iff (finished.name_eq hc) (finished.name_eq hd)
  obtain ⟨source, hsource, target, htarget, spans⟩ := finished.exists_spans hc
  obtain ⟨source', hsource', target', htarget', spans'⟩ := finished.exists_spans hd
  refine ⟨named, fun alike same => ?_⟩
  have capitals := alike.sameCapitals spans.filled spans'.filled (named.mp same)
  exact ⟨capitals, fun distinct =>
    eq_of_sameCapitals distinct hsource htarget hsource' htarget' spans spans' capitals⟩

/-- A column that leads to two columns of one table. -/
def twofold : List Call :=
  [.read (.ofText "[Settings]\nCLASS b\n[Fields]\nDATE ! u\nDATE v\n"),
    .read (.ofText ("[Settings]\nCLASS a\n[Fields]\nDATE x\n" ++
      "[ForeignKeys]\nx constrainsTo b.u\nx constrainsTo b.v\n"))]

theorem name_eq_iff_words_twofold :
    ∃ g, (run twofold).finish = .ok g ∧ g.DistinctNames ∧
      ∃ c ∈ g.constraints, ∃ d ∈ g.constraints, c.toColumns ≠ d.toColumns ∧ c.CutAlike d ∧
        c.name = d.name ∧ c.words = d.words ∧ c.SameCapitals d ∧ c.fromTable = d.fromTable ∧
        c.fromColumns = d.fromColumns ∧ c.toTable = d.toTable := by
  have facts : ∃ g ∈ (run twofold).finish.toOption, g.DistinctNames ∧
      ∃ c ∈ g.constraints, ∃ d ∈ g.constraints, c.toColumns ≠ d.toColumns ∧ c.CutAlike d ∧
        c.name = d.name := by
    decide +kernel
  obtain ⟨g, done, distinct, c, hc, d, hd, differ, alike, same⟩ := facts
  have done := Except.mem_toOption.mp done
  obtain ⟨words, parts⟩ := name_eq_iff_words ⟨twofold, rfl⟩ done hc hd
  obtain ⟨capitals, equal⟩ := parts alike same
  exact ⟨g, done, distinct, c, hc, d, hd, differ, alike, same, words.mp same, capitals,
    equal distinct⟩

/-- Foreign keys of one table that share a name. They lead to different columns, to tables of
different classes with one name, from columns that capitals do not tell apart, and from columns that
are joined to the name of another column. -/
def ambiguous : List Call :=
  [.read (.ofText "[Settings]\nCLASS b\n[Fields]\nDATE ! u\nDATE v\n"),
    .read (.ofText "[Settings]\nCLASS c B\n[Fields]\nDATE ! u\n"),
    .read (.ofText ("[Settings]\nCLASS a\n[Fields]\nDATE xZ\nDATE y x_z\nDATE x\nDATE z\n" ++
      "[ForeignKeys]\nxZ constrainsTo b.u\nxZ constrainsTo b.v\nxZ constrainsTo c.u\n" ++
      "y constrainsTo b.u\nx z constrainsTo b.u b.v\n"))]

/-- The constraints of these foreign keys. -/
def sharing : List Constraint :=
  [⟨"FK_A_X_Z_TO_B", "A", "A", ["X_Z"], "B", "B", ["U"]⟩,
    ⟨"FK_A_X_Z_TO_B", "A", "A", ["X_Z"], "B", "B", ["V"]⟩,
    ⟨"FK_A_X_Z_TO_B", "A", "A", ["X_Z"], "C", "B", ["U"]⟩,
    ⟨"FK_A_X_Z_TO_B", "A", "A", ["x_z"], "B", "B", ["U"]⟩,
    ⟨"FK_A_X_Z_TO_B", "A", "A", ["X", "Z"], "B", "B", ["U", "V"]⟩]

/-- Different constraints of a schema may share a name: those that lead to different columns, those
that lead to different tables, and those that leave different columns, one by one or not. -/
theorem exists_shared_name :
    (run ambiguous).Reachable ∧ ∃ g, (run ambiguous).finish = .ok g ∧
      (∃ c ∈ g.constraints, ∃ d ∈ g.constraints, c.name = d.name ∧ c.fromTable = d.fromTable ∧
        c.fromColumns = d.fromColumns ∧ c.toTable = d.toTable ∧ c.toColumns ≠ d.toColumns) ∧
      (∃ c ∈ g.constraints, ∃ d ∈ g.constraints, c.name = d.name ∧ c.toTable ≠ d.toTable) ∧
      (∃ c ∈ g.constraints, ∃ d ∈ g.constraints, c.name = d.name ∧
        c.fromColumns ≠ d.fromColumns ∧
        c.fromColumns.map upperCase = d.fromColumns.map upperCase) ∧
      ∃ c ∈ g.constraints, ∃ d ∈ g.constraints, c.name = d.name ∧
        c.fromColumns.length ≠ d.fromColumns.length := by
  have constraints : (run ambiguous).finish.map Schema.constraints = .ok sharing := by
    decide +kernel
  obtain ⟨g, done, same⟩ := Except.map_eq_ok.mp constraints
  refine ⟨⟨ambiguous, rfl⟩, g, done, ?_⟩
  rw [same]
  decide +kernel

end Registry

end TableSchema
