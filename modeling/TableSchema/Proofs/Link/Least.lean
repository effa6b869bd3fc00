import Mathlib.Data.Fintype.Card
import Mathlib.Data.Fintype.EquivFin
import Mathlib.Data.Fintype.Sets
import Mathlib.Data.List.FinRange
import Mathlib.Order.WellFounded
import TableSchema.Proofs.Link.Order

/-!
The order of links is the least good one.

Links that await each other in no circle can be put into an order in which none comes before one
that it awaits. Among all such orders `buildOrder` finds the one that begins with the earliest
declared link that can stand first, goes on with the earliest that can stand second, and so on
(`buildOrder_least`). Two links that are declared alike count as two, so orders are compared by the
positions of the links in the declaration.

* `exists_ready_of_acyclic`: where there is no circle, some link awaits none.
* `least_of_acyclic`: the choice of the earliest such link, made over and over, is the least order.
* `buildOrder_buildOrder`: the order of an order is this order itself. A circle makes no difference
  here: whether a link is ready depends on which links are pending, not on where they stand, so the
  link that was chosen is chosen again when it stands first.
-/

namespace TableSchema.Link

/-- An end of `l` is the table that `other` builds, and this is not the table of `l` itself. -/
def Awaits (l other : Link) : Prop := l.Needs other ∧ other.table ≠ l.table

instance (l other : Link) : Decidable (l.Awaits other) :=
  inferInstanceAs (Decidable ((other.table = l.one ∨ other.table = l.two) ∧ other.table ≠ l.table))

/-- No link comes before one that it awaits. -/
def Timely (links : List Link) : Prop := links.Pairwise fun l later => ¬l.Awaits later

/-- Both links are among `links`, and `l` awaits `other`. -/
def AwaitsIn (links : List Link) (l other : Link) : Prop :=
  l ∈ links ∧ other ∈ links ∧ l.Awaits other

/-- No links await each other in a circle. -/
def Acyclic (links : List Link) : Prop := ∀ l, ¬Relation.TransGen (AwaitsIn links) l l

/-- An order of the positions of all links in which no link comes before one that it awaits. -/
structure Schedule (links : List Link) (order : List (Fin links.length)) : Prop where
  perm : order.Perm (List.finRange links.length)
  timely : Timely (order.map links.get)

theorem not_awaits_self (l : Link) : ¬l.Awaits l := fun h => h.2 rfl

theorem waitsFor_iff {l other : Link} : l.waitsFor other = true ↔ l.Awaits other := by
  simp [waitsFor, Awaits, Needs, and_comm]

/-- A link is ready when it awaits none of the pending ones. -/
theorem ready_iff {pending : List Link} {l : Link} :
    (!pending.any l.waitsFor) = true ↔ ∀ other ∈ pending, ¬l.Awaits other := by
  simp only [Bool.not_eq_true', List.any_eq_false, waitsFor_iff]

theorem Timely.cons_iff {l : Link} {rest : List Link} :
    Timely (l :: rest) ↔ (∀ other ∈ rest, ¬l.Awaits other) ∧ Timely rest := List.pairwise_cons

/-- The link that stands first in a good order of the pending links is ready. -/
theorem Timely.ready {l : Link} {rest pending : List Link} (h : Timely (l :: rest))
    (perm : (l :: rest).Perm pending) : (!pending.any l.waitsFor) = true := by
  refine ready_iff.mpr fun other hother => ?_
  rcases List.mem_cons.mp (perm.mem_iff.mpr hother) with rfl | later
  · exact not_awaits_self other
  · exact (Timely.cons_iff.mp h).1 other later

/-! ## The first link -/

theorem Acyclic.mono {links others : List Link} (h : Acyclic links) (among : others ⊆ links) :
    Acyclic others := by
  intro l circle
  refine h l (circle.lift id ?_)
  rintro a b ⟨ha, hb, awaits⟩
  exact ⟨among ha, among hb, awaits⟩

/-- Links with ranks that fall from each link to those that it awaits are in no circle. -/
theorem acyclic_of_rank {links : List Link} (rank : Link → Nat)
    (falls : ∀ l ∈ links, ∀ other ∈ links, l.Awaits other → rank other < rank l) :
    Acyclic links := by
  have path : ∀ {l other}, Relation.TransGen (AwaitsIn links) l other → rank other < rank l := by
    intro l other steps
    induction steps with
    | single step => exact falls _ step.1 _ step.2.1 step.2.2
    | tail _ step ih => exact (falls _ step.1 _ step.2.1 step.2.2).trans ih
  exact fun l circle => Nat.lt_irrefl _ (path circle)

/-- Where links await each other in no circle, one of them awaits none. -/
theorem exists_ready_of_acyclic {pending : List Link} (acyclic : Acyclic pending)
    (filled : pending ≠ []) : ∃ l ∈ pending, (!pending.any l.waitsFor) = true := by
  let Later (a b : { l // l ∈ pending }) := Relation.TransGen (AwaitsIn pending) b.1 a.1
  have : IsTrans _ Later := ⟨fun _ _ _ ab bc => bc.trans ab⟩
  have : Std.Irrefl Later := ⟨fun a => acyclic a.1⟩
  have wellFounded : WellFounded Later := Finite.wellFounded_of_trans_of_irrefl Later
  obtain ⟨l, hl⟩ := List.exists_mem_of_ne_nil pending filled
  obtain ⟨first, _, least⟩ := wellFounded.has_min Set.univ ⟨⟨l, hl⟩, trivial⟩
  refine ⟨first.1, first.2, ready_iff.mpr fun other hother awaits => ?_⟩
  exact least ⟨other, hother⟩ trivial (.single ⟨first.2, hother, awaits⟩)

/-- Where some pending link is ready, the link that is chosen is ready. -/
theorem ready_of_chosen {pending : List Link} {l : Link}
    (ready : ∃ m ∈ pending, (!pending.any m.waitsFor) = true)
    (chosen : pending[nextReady pending]? = some l) : (!pending.any l.waitsFor) = true := by
  obtain ⟨inside, free, _⟩ := List.findIdx?_eq_some_iff_getElem.mp (findIdx?_nextReady ready)
  obtain ⟨_, rfl⟩ := List.getElem?_eq_some_iff.mp chosen
  exact free

/-! ## The least order -/

section Least

variable {α : Type} [LinearOrder α] {link : α → Link} {positions : List α} {p q : α}

/-- The link that is chosen is declared before all others that are ready. -/
theorem le_of_chosen (sorted : positions.Pairwise (· < ·))
    (chosen : positions[nextReady (positions.map link)]? = some p) (hq : q ∈ positions)
    (ready : (!(positions.map link).any (link q).waitsFor) = true) : p ≤ q := by
  have found := findIdx?_nextReady ⟨link q, List.mem_map_of_mem hq, ready⟩
  obtain ⟨_, _, earlier⟩ := List.findIdx?_eq_some_iff_getElem.mp found
  obtain ⟨inside, rfl⟩ := List.getElem?_eq_some_iff.mp chosen
  obtain ⟨j, hj, rfl⟩ := List.mem_iff_getElem.mp hq
  rcases Nat.lt_trichotomy (nextReady (positions.map link)) j with before | same | after
  · exact (List.pairwise_iff_getElem.mp sorted _ _ inside hj before).le
  · simp only [same, le_refl]
  · have busy := earlier j after
    rw [List.getElem_map] at busy
    exact absurd ready busy

/-- The chosen position followed by the least order of the others is the least order. -/
theorem least_of_chosen (sorted : positions.Pairwise (· < ·))
    (chosen : positions[nextReady (positions.map link)]? = some p) {order other : List α}
    (least : ∀ other, other.Perm (positions.eraseIdx (nextReady (positions.map link))) →
      Timely (other.map link) → order = other ∨ List.Lex (· < ·) order other)
    (perm : other.Perm positions) (timely : Timely (other.map link)) :
    p :: order = other ∨ List.Lex (· < ·) (p :: order) other := by
  have split := perm_of_getElem? chosen
  cases other with
  | nil => exact absurd (perm.trans split.symm).length_eq (by simp)
  | cons q others =>
    have first : p ≤ q := le_of_chosen sorted chosen (perm.subset List.mem_cons_self)
      (timely.ready (perm.map link))
    rcases first.lt_or_eq with before | rfl
    · exact .inr (.rel before)
    · -- what follows is an order of the positions that stay
      have others' := (perm.trans split.symm).cons_inv
      rcases least others others' (Timely.cons_iff.mp timely).2 with rfl | before
      · exact .inl rfl
      · exact .inr (.cons before)

/-- Choosing the earliest ready link over and over gives the least of all orders in which no link
comes before one that it awaits. -/
theorem least_of_acyclic (sorted : positions.Pairwise (· < ·))
    (acyclic : Acyclic (positions.map link)) :
    ∃ order, order.Perm positions ∧ buildOrder (positions.map link) = order.map link ∧
      Timely (order.map link) ∧
      ∀ other, other.Perm positions → Timely (other.map link) →
        order = other ∨ List.Lex (· < ·) order other := by
  obtain ⟨pending, same⟩ : ∃ pending, pending = positions.map link := ⟨_, rfl⟩
  induction pending using choice_induction generalizing positions with
  | none =>
    obtain rfl : positions = [] := by simpa using same.symm
    exact ⟨[], .refl _, rfl, List.Pairwise.nil,
      fun other perm _ => .inl (List.perm_nil.mp perm).symm⟩
  | choice pending l chosen ih =>
    subst same
    obtain ⟨p, found, rfl⟩ : ∃ p, positions[nextReady (positions.map link)]? = some p ∧
        link p = l := by
      rw [List.getElem?_map] at chosen
      exact Option.map_eq_some_iff.mp chosen
    have others : (positions.map link).eraseIdx (nextReady (positions.map link)) =
        (positions.eraseIdx (nextReady (positions.map link))).map link := List.eraseIdx_map _ _ _
    obtain ⟨order, perm, built, timely, least⟩ :=
      ih (sorted.sublist (List.eraseIdx_sublist _ _))
        (acyclic.mono ((List.eraseIdx_sublist _ _).map link).subset) others
    have whole : (p :: order).Perm positions := (perm.cons p).trans (perm_of_getElem? found)
    have free : ∀ other ∈ positions.map link, ¬(link p).Awaits other := by
      have filled := List.ne_nil_of_mem (List.mem_of_getElem? chosen)
      exact ready_iff.mp (ready_of_chosen (exists_ready_of_acyclic acyclic filled) chosen)
    refine ⟨p :: order, whole, ?_, ?_, fun other => least_of_chosen sorted found least⟩
    · rw [buildOrder_of_chosen chosen, others, built, List.map_cons]
    · refine Timely.cons_iff.mpr ⟨fun other hother => free other ?_, timely⟩
      exact (whole.map link).subset (List.mem_cons_of_mem _ hother)

end Least

/-! ## The order of an order -/

theorem buildOrder_cons {l : Link} {rest : List Link} (front : nextReady (l :: rest) = 0) :
    buildOrder (l :: rest) = l :: buildOrder rest := by
  have chosen : (l :: rest)[nextReady (l :: rest)]? = some l := by
    rw [front]
    rfl
  rw [buildOrder_of_chosen chosen, front, List.eraseIdx_cons_zero]

theorem nextReady_of_ready {l : Link} {rest : List Link}
    (ready : (!(l :: rest).any l.waitsFor) = true) : nextReady (l :: rest) = 0 := by
  rw [nextReady, List.findIdx?_cons, if_pos ready, Option.getD_some]

/-- The link that is chosen is chosen again when it stands first. -/
theorem nextReady_of_chosen {pending rest : List Link} {l : Link}
    (chosen : pending[nextReady pending]? = some l) (perm : (l :: rest).Perm pending) :
    nextReady (l :: rest) = 0 := by
  have same : ∀ m : Link, (l :: rest).any m.waitsFor = pending.any m.waitsFor :=
    fun m => perm.any_eq
  by_cases ready : ∃ m ∈ pending, (!pending.any m.waitsFor) = true
  · refine nextReady_of_ready ?_
    rw [same]
    exact ready_of_chosen ready chosen
  · have stuck : ((l :: rest).findIdx? fun m => !(l :: rest).any m.waitsFor) = none := by
      refine List.findIdx?_eq_none_iff.mpr fun m hm => ?_
      rw [same, ← Bool.not_eq_true]
      exact fun free => ready ⟨m, perm.subset hm, free⟩
    rw [nextReady, stuck, Option.getD_none]

theorem buildOrder_buildOrder (links : List Link) :
    buildOrder (buildOrder links) = buildOrder links := by
  induction links using choice_induction with
  | none => rfl
  | choice pending l chosen ih =>
    have perm : (l :: buildOrder (pending.eraseIdx (nextReady pending))).Perm pending :=
      ((buildOrder_perm _).cons l).trans (perm_of_getElem? chosen)
    rw [buildOrder_of_chosen chosen, buildOrder_cons (nextReady_of_chosen chosen perm), ih]

/-- Links in a good order are built in this order. -/
theorem buildOrder_of_timely {links : List Link} (h : Timely links) : buildOrder links = links := by
  induction links with
  | nil => rfl
  | cons l rest ih =>
    rw [buildOrder_cons (nextReady_of_ready (h.ready (.refl _))), ih (Timely.cons_iff.mp h).2]

/-- The order of links holds the same links, and it is the order of itself. Links in which none
comes before one that it awaits are ordered already. When links await each other in no circle, the
order is the least of all in which none comes before one that it awaits. -/
theorem buildOrder_least (links : List Link) :
    (buildOrder links).Perm links ∧ buildOrder (buildOrder links) = buildOrder links ∧
    (Timely links → buildOrder links = links) ∧
    (Acyclic links → Timely (buildOrder links) ∧
      ∃ order, Schedule links order ∧ buildOrder links = order.map links.get ∧
        ∀ other, Schedule links other → order = other ∨ List.Lex (· < ·) order other) := by
  refine ⟨buildOrder_perm links, buildOrder_buildOrder links, buildOrder_of_timely,
    fun acyclic => ?_⟩
  have all : (List.finRange links.length).map links.get = links := List.map_get_finRange links
  obtain ⟨order, perm, built, timely, least⟩ :=
    least_of_acyclic (List.pairwise_lt_finRange _) (all.symm ▸ acyclic)
  rw [all] at built
  exact ⟨built ▸ timely, order, ⟨perm, timely⟩, built,
    fun other schedule => least other schedule.perm schedule.timely⟩

/-- A link over two link tables, of which one is declared by two links, a link of its own table, and
a link that awaits none. -/
def layered : List Link :=
  [⟨"M", "L", "K"⟩, ⟨"L", "A", "A"⟩, ⟨"S", "S", "A"⟩, ⟨"K", "L", "A"⟩, ⟨"L", "A", "B"⟩,
    ⟨"N", "A", "B"⟩]

theorem buildOrder_least_layered :
    buildOrder layered = [⟨"L", "A", "A"⟩, ⟨"S", "S", "A"⟩, ⟨"L", "A", "B"⟩, ⟨"K", "L", "A"⟩,
      ⟨"M", "L", "K"⟩, ⟨"N", "A", "B"⟩] ∧
    Timely (buildOrder layered) ∧
    ∃ order, Schedule layered order ∧ buildOrder layered = order.map layered.get ∧
      ∀ other, Schedule layered other → order = other ∨ List.Lex (· < ·) order other := by
  obtain ⟨_, _, _, least⟩ := buildOrder_least layered
  refine ⟨by decide, least (acyclic_of_rank (fun l => if l.table = "M" then 2 else
    if l.table = "K" then 1 else 0) (by decide))⟩

end TableSchema.Link
