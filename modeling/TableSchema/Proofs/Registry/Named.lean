import TableSchema.Proofs.Definition.Named
import TableSchema.Proofs.Registry.Keyed

/-!
The names in a registry.

A table that is registered has been read from an input, so its names are words; the copies of keys
that it takes for a link have names made of those of other tables. So every table of a reachable
registry is well named (`Reachable.wellNamed`). Only the field names of copies can be without
characters, because what joins the parts of a column name is dropped in them.

No call takes a column away: a class leads to a table that begins with the columns it had before
(`Sound.exists_columns`).
-/

namespace TableSchema

/-- A copy of a key is well named, whatever word its name begins with. -/
theorem Table.WellNamed.keyClones {t : Table} (h : t.WellNamed) {front : String}
    (wordy : Wordy front) (link : String) : ∀ c ∈ t.keyClones link front, c.WellNamed := by
  intro c hc
  obtain ⟨key, hkey, rfl⟩ := List.mem_map.mp hc
  have old : IsWord key.columnName := (h.columns key (List.mem_filter.mp hkey).1).column
  have joint : Wordy "_" := List.all_eq_true.mp (by decide)
  have column : IsWord (front ++ t.name ++ "_" ++ key.columnName) :=
    old.behind ((wordy.append h.name.wordy).append joint)
  exact ⟨Identifier.wordy_camelCase column.wordy, column⟩

theorem Link.wellNamed_clones {l : Link} {tables : LinkTables} (one : tables.one.WellNamed)
    (two : tables.two.WellNamed) : ∀ c ∈ l.clones tables, c.WellNamed := by
  have second : Wordy l.secondFront := by
    rw [secondFront]
    split <;> exact List.all_eq_true.mp (by decide)
  exact List.forall_mem_append.mpr
    ⟨one.keyClones (List.all_eq_true.mp (by decide)) _, two.keyClones second _⟩

namespace Registry

variable {r r' : Registry} {domain : String} {t : Table}

/-- A call keeps tables well named. -/
theorem Sound.wellNamed_apply (h : r.Sound) (named : ∀ t ∈ r.tables, t.WellNamed) (call : Call) :
    ∀ t ∈ (r.apply call).tables, t.WellNamed := by
  have replaced : ∀ {domain : String} {u : Table}, u.WellNamed →
      ∀ t ∈ (r.modify domain fun _ => u).tables, t.WellNamed := by
    intro domain u hu t ht
    rw [h.indexed.tables_modify] at ht
    obtain ⟨old, hold, rfl⟩ := List.mem_map.mp ht
    split
    · exact hu
    · exact named old hold
  have found : ∀ {domain : String} {t : Table}, r.find? domain = some t → t.WellNamed :=
    fun there => named _ (h.indexed.find?_eq_some_iff.mp there).1
  cases call with
  | read s =>
    rw [apply]
    split
    · rename_i t after read
      rcases read_eq_ok read with ⟨rfl, _⟩ | ⟨d, events, _, rfl⟩
      · exact named
      · rw [h.indexed.add_eq (Definition.ofEvents_sound events).2]
        exact List.forall_mem_append.mpr ⟨named, List.forall_mem_singleton.mpr
          (Definition.ofEvents_namedByWords events).toWellNamed⟩
    · exact named
  | materialize l =>
    show ∀ t ∈ (r.materialize l).1.tables, t.WellNamed
    rcases materialize_cases r l with ⟨_, _, refused⟩ |
      ⟨tables, front, c, back, _, joins, _, split, _, _, stuck⟩ | ⟨tables, joins, _, built⟩
    · rw [refused]
      exact named
    · have clones := Link.wellNamed_clones (l := l) (found joins.one) (found joins.two)
      rw [split] at clones
      rw [stuck]
      exact replaced ((found joins.joint).append (List.forall_mem_append.mp clones).1 rfl rfl rfl)
    · rw [built]
      exact replaced ((found joins.joint).append
        (Link.wellNamed_clones (found joins.one) (found joins.two)) rfl rfl rfl)

theorem Sound.wellNamed_foldl_apply (h : r.Sound) (named : ∀ t ∈ r.tables, t.WellNamed)
    (calls : List Call) : ∀ t ∈ (calls.foldl apply r).tables, t.WellNamed := by
  induction calls generalizing r with
  | nil => exact named
  | cons call calls ih => exact ih (h.step (step_apply r call)) (h.wellNamed_apply named call)

/-- Every table of a reachable registry is well named. -/
theorem Reachable.wellNamed (h : r.Reachable) : ∀ t ∈ r.tables, t.WellNamed := by
  obtain ⟨calls, rfl⟩ := h
  refine sound_empty.wellNamed_foldl_apply ?_ calls
  simp [empty]

/-! ## Columns -/

/-- A call keeps the columns of every table, in front of those that it adds. -/
theorem Step.exists_columns (h : r.Indexed) (step : Step r r') (found : r.find? domain = some t) :
    ∃ u, r'.find? domain = some u ∧ t.columns <+: u.columns := by
  cases step with
  | stay => exact ⟨t, found, List.prefix_refl _⟩
  | add _ free =>
    obtain ⟨ht, same⟩ := h.find?_eq_some_iff.mp found
    refine ⟨t, (h.add free).find?_eq_some_iff.mpr ⟨?_, same⟩, List.prefix_refl _⟩
    rw [h.add_eq free]
    exact List.mem_append_left _ ht
  | @clash l tables front joins _ _ =>
    have class' : (tables.joint.extend front).domain = l.table :=
      (h.find?_eq_some_iff.mp joins.joint).2
    rw [h.find?_modify fun _ _ _ => class']
    split
    · rename_i same
      subst same
      obtain rfl := Option.some.inj (joins.joint.symm.trans found)
      rw [found]
      exact ⟨_, rfl, List.prefix_append _ _⟩
    · exact ⟨t, found, List.prefix_refl _⟩
  | @link l tables joins _ =>
    rw [h.find?_link joins]
    split
    · rename_i same
      subst same
      obtain rfl := Option.some.inj (joins.joint.symm.trans found)
      exact ⟨_, rfl, List.prefix_append _ _⟩
    · exact ⟨t, found, List.prefix_refl _⟩

/-- Calls keep the columns of every table, in front of those that they add. -/
theorem Sound.exists_columns (h : r.Sound) (steps : Relation.ReflTransGen Step r r')
    (found : r.find? domain = some t) :
    ∃ u, r'.find? domain = some u ∧ t.columns <+: u.columns := by
  refine h.kept_along (P := fun r => ∃ u, r.find? domain = some u ∧ t.columns <+: u.columns) steps
    ?_ ⟨t, found, List.prefix_refl _⟩
  rintro a b sound step ⟨u, found, front⟩
  obtain ⟨v, found', front'⟩ := step.exists_columns sound.indexed found
  exact ⟨v, found', front.trans front'⟩

end Registry

end TableSchema
