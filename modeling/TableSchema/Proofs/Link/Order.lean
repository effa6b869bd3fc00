import TableSchema.Proofs.Registry.Building

/-!
The order in which links are built.

The order is a permutation of the links (`buildOrder_perm`). If the links can be put into an order
in which none needs itself or a later one, the order that is chosen is such an order
(`ordered_buildOrder`): the first of the good order waits for nothing, so there always is a link
that waits for nothing, and the one that is chosen is not waiting either. A link that no other link
waits for can be added at the end (`buildOrder_append`).
-/

namespace TableSchema.Link

theorem nextReady_lt {pending : List Link} (filled : pending ≠ []) :
    nextReady pending < pending.length := by
  unfold nextReady
  cases found : pending.findIdx? fun l => !pending.any l.waitsFor with
  | none => simpa using List.length_pos_iff.mpr filled
  | some i => exact (List.findIdx?_eq_some_iff_getElem.mp found).1

/-- The order begins with the link that is chosen, and goes on with the order of the others. -/
theorem buildOrder_of_chosen {pending : List Link} {l : Link}
    (chosen : pending[nextReady pending]? = some l) :
    buildOrder pending = l :: buildOrder (pending.eraseIdx (nextReady pending)) := by
  have inside : nextReady pending < pending.length := (List.getElem?_eq_some_iff.mp chosen).1
  have length : pending.length = (pending.eraseIdx (nextReady pending)).length + 1 := by
    rw [List.length_eraseIdx_of_lt inside]
    omega
  unfold buildOrder
  rw [length, buildOrderWithin, chosen]

/-- Induction on pending links: one of them is chosen, and the others stay pending. -/
@[elab_as_elim]
theorem choice_induction {motive : List Link → Prop} (links : List Link) (none : motive [])
    (choice : ∀ pending l, pending[nextReady pending]? = some l →
      motive (pending.eraseIdx (nextReady pending)) → motive pending) : motive links := by
  induction size : links.length generalizing links with
  | zero =>
    obtain rfl := List.length_eq_zero_iff.mp size
    exact none
  | succ n ih =>
    have inside : nextReady links < links.length := by
      refine nextReady_lt ?_
      rintro rfl
      cases size
    refine choice links _ (List.getElem?_eq_getElem inside) (ih _ ?_)
    rw [List.length_eraseIdx_of_lt inside]
    omega

/-- An element and the others are all elements. -/
theorem perm_of_getElem? {α : Type} {list : List α} {i : Nat} {a : α} (found : list[i]? = some a) :
    (a :: list.eraseIdx i).Perm list := by
  obtain ⟨inside, rfl⟩ := List.getElem?_eq_some_iff.mp found
  exact List.getElem_cons_eraseIdx_perm inside

/-- The order holds the same links. -/
theorem buildOrder_perm (links : List Link) : (buildOrder links).Perm links := by
  induction links using choice_induction with
  | none => exact .refl _
  | choice pending l chosen ih =>
    rw [buildOrder_of_chosen chosen]
    exact (ih.cons l).trans (perm_of_getElem? chosen)

theorem not_waitsFor_of_not_needs {l other : Link} (h : ¬l.Needs other) :
    l.waitsFor other = false := by
  simp only [Needs, not_or] at h
  simp [waitsFor, h]

theorem waitsFor_of_needs {l other : Link} (self : ¬l.Needs l) (h : l.Needs other) :
    l.waitsFor other = true := by
  have apart : other.table ≠ l.table := by
    intro own
    rw [Needs, own] at h
    exact self h
  rw [Needs] at h
  simpa [waitsFor, apart] using h

/-- When a good order exists, some pending link waits for no other. -/
theorem exists_ready {pending good : List Link} (perm : pending.Perm good) (ordered : Ordered good)
    (filled : pending ≠ []) : ∃ l ∈ pending, (!pending.any l.waitsFor) = true := by
  obtain ⟨first, rest, rfl⟩ : ∃ first rest, good = first :: rest :=
    List.exists_cons_of_ne_nil fun none => filled (List.perm_nil.mp (none ▸ perm))
  -- the first link of the good order waits for nothing
  refine ⟨first, perm.mem_iff.mpr List.mem_cons_self, ?_⟩
  simp only [Bool.not_eq_true', List.any_eq_false, Bool.not_eq_true]
  intro other hother
  obtain ⟨own, later, _⟩ := ordered_cons.mp ordered
  rcases List.mem_cons.mp (perm.mem_iff.mp hother) with rfl | hother
  · exact not_waitsFor_of_not_needs own
  · exact not_waitsFor_of_not_needs (later other hother)

/-- Where some pending link waits for no other, such a link is chosen. -/
theorem findIdx?_nextReady {pending : List Link}
    (ready : ∃ l ∈ pending, (!pending.any l.waitsFor) = true) :
    (pending.findIdx? fun l => !pending.any l.waitsFor) = some (nextReady pending) := by
  obtain ⟨i, found⟩ : ∃ i, (pending.findIdx? fun l => !pending.any l.waitsFor) = some i :=
    Option.isSome_iff_exists.mp (List.findIdx?_isSome.trans (List.any_eq_true.mpr ready))
  rw [nextReady, found, Option.getD_some]

/-- When a good order exists, the link that is chosen needs none of the pending ones. -/
theorem not_needs_nextReady {pending good : List Link} {l : Link} (perm : pending.Perm good)
    (ordered : Ordered good) (chosen : pending[nextReady pending]? = some l) :
    ∀ other ∈ pending, ¬l.Needs other := by
  have member : l ∈ pending := List.mem_of_getElem? chosen
  have self : ¬l.Needs l := ordered.1 l (perm.mem_iff.mp member)
  have found := findIdx?_nextReady (exists_ready perm ordered (List.ne_nil_of_mem member))
  obtain ⟨inside, waits, _⟩ := List.findIdx?_eq_some_iff_getElem.mp found
  obtain ⟨_, rfl⟩ := List.getElem?_eq_some_iff.mp chosen
  intro other hother needs
  simp only [Bool.not_eq_true', List.any_eq_false] at waits
  exact waits other hother (waitsFor_of_needs self needs)

theorem Ordered.erase {links : List Link} (h : Ordered links) (l : Link) :
    Ordered (links.erase l) :=
  ⟨fun m hm => h.1 m (List.mem_of_mem_erase hm), h.2.sublist List.erase_sublist⟩

/-- When a good order exists, there is one of the links that stay pending. -/
theorem exists_ordered_of_chosen {pending good : List Link} {l : Link} (perm : pending.Perm good)
    (ordered : Ordered good) (chosen : pending[nextReady pending]? = some l) :
    ∃ left, (pending.eraseIdx (nextReady pending)).Perm left ∧ Ordered left := by
  have member : l ∈ good := perm.mem_iff.mp (List.mem_of_getElem? chosen)
  have split : (l :: pending.eraseIdx (nextReady pending)).Perm (l :: good.erase l) :=
    (perm_of_getElem? chosen).trans (perm.trans (List.perm_cons_erase member))
  exact ⟨good.erase l, split.cons_inv, ordered.erase l⟩

/-- The order is good whenever a good order exists. -/
theorem ordered_buildOrder {links good : List Link} (perm : links.Perm good)
    (ordered : Ordered good) : Ordered (buildOrder links) := by
  induction links using choice_induction generalizing good with
  | none => exact ⟨by simp [buildOrder, buildOrderWithin], List.Pairwise.nil⟩
  | choice pending l chosen ih =>
    have free := not_needs_nextReady perm ordered chosen
    obtain ⟨left, perm', ordered'⟩ := exists_ordered_of_chosen perm ordered chosen
    rw [buildOrder_of_chosen chosen, ordered_cons]
    refine ⟨free l (List.mem_of_getElem? chosen), fun other hother => free other ?_,
      ih perm' ordered'⟩
    exact List.mem_of_mem_eraseIdx ((buildOrder_perm _).mem_iff.mp hother)

/-- A link that no other needs makes no difference for the choice among the others. -/
theorem nextReady_append {links : List Link} {l : Link}
    (ready : ∃ m ∈ links, (!links.any m.waitsFor) = true) (unneeded : ∀ m ∈ links, ¬m.Needs l) :
    nextReady (links ++ [l]) = nextReady links := by
  have same : ∀ m ∈ links, (links ++ [l]).any m.waitsFor = links.any m.waitsFor := by
    intro m hm
    simp [not_waitsFor_of_not_needs (unneeded m hm)]
  obtain ⟨inside, free, earlier⟩ :=
    List.findIdx?_eq_some_iff_getElem.mp (findIdx?_nextReady ready)
  have found : ((links ++ [l]).findIdx? fun m => !(links ++ [l]).any m.waitsFor) =
      some (nextReady links) := by
    refine List.findIdx?_eq_some_iff_getElem.mpr ⟨by simp; omega, ?_, fun j hj => ?_⟩
    · rw [List.getElem_append_left inside, same _ (List.getElem_mem inside)]
      exact free
    · rw [List.getElem_append_left (hj.trans inside), same _ (List.getElem_mem _)]
      exact earlier j hj
  rw [nextReady, found, Option.getD_some]

/-- A link that is declared last and that no other needs is built last. -/
theorem buildOrder_append {links good : List Link} {l : Link} (perm : links.Perm good)
    (ordered : Ordered good) (unneeded : ∀ m ∈ links, ¬m.Needs l) :
    buildOrder (links ++ [l]) = buildOrder links ++ [l] := by
  induction links using choice_induction generalizing good with
  | none => exact List.perm_singleton.mp (buildOrder_perm [l])
  | choice pending m chosen ih =>
    have inside : nextReady pending < pending.length := (List.getElem?_eq_some_iff.mp chosen).1
    have filled : pending ≠ [] := List.ne_nil_of_length_pos (Nat.zero_lt_of_lt inside)
    have same := nextReady_append (exists_ready perm ordered filled) unneeded
    have chosen' : (pending ++ [l])[nextReady (pending ++ [l])]? = some m := by
      rw [same, List.getElem?_append_left inside, chosen]
    obtain ⟨left, perm', ordered'⟩ := exists_ordered_of_chosen perm ordered chosen
    have rest := ih perm' ordered' fun n hn => unneeded n (List.mem_of_mem_eraseIdx hn)
    rw [buildOrder_of_chosen chosen', buildOrder_of_chosen chosen, same,
      List.eraseIdx_append_of_lt_length inside, rest, List.cons_append]

end TableSchema.Link
