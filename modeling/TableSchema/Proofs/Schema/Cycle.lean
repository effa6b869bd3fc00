import TableSchema.Proofs.Schema.Finish

/-!
Links that need each other.

Links that need each other in a circle have no order in which they could be built, and the order
that is chosen then says nothing. It does not have to: what a successful run builds stands in an
order in which every link comes after those that it needs (`Link.Ordered`), so along a circle the
positions would have to fall for ever (`Link.Ordered.not_cyclic`). No run that ends in a schema has
a circle among its links (`Sound.not_cyclic_of_finish`), whatever order was tried, whatever keys the
link tables declare themselves, and whatever columns earlier attempts have left there.
-/

namespace TableSchema

namespace Link

/-- Both links are among `links`, and an end of `l` is the table that `other` builds. -/
def NeedsIn (links : List Link) (l other : Link) : Prop :=
  l ∈ links ∧ other ∈ links ∧ l.Needs other

/-- Some links need each other in a circle, or one needs itself. -/
def Cyclic (links : List Link) : Prop := ∃ l, Relation.TransGen (NeedsIn links) l l

theorem Cyclic.of_perm {links others : List Link} (h : Cyclic links) (perm : links.Perm others) :
    Cyclic others := by
  obtain ⟨l, circle⟩ := h
  refine ⟨l, circle.lift id ?_⟩
  rintro a b ⟨ha, hb, needs⟩
  exact ⟨perm.mem_iff.mp ha, perm.mem_iff.mp hb, needs⟩

/-- In a good order a link comes after every link that it needs. -/
theorem Ordered.idxOf_lt {links : List Link} {l other : Link} (h : Ordered links)
    (needs : NeedsIn links l other) : links.idxOf other < links.idxOf l := by
  obtain ⟨hl, hother, needs⟩ := needs
  have inside : links.idxOf l < links.length := List.idxOf_lt_length_of_mem hl
  have inside' : links.idxOf other < links.length := List.idxOf_lt_length_of_mem hother
  by_contra later
  rcases Nat.eq_or_lt_of_le (Nat.le_of_not_lt later) with same | before
  · obtain rfl := (List.idxOf_inj hl).mp same
    exact h.1 l hl needs
  · have free := List.pairwise_iff_getElem.mp h.2 _ _ inside inside' before
    rw [List.getElem_idxOf, List.getElem_idxOf] at free
    exact free needs

/-- Links in a good order do not need each other in a circle. -/
theorem Ordered.not_cyclic {links : List Link} (h : Ordered links) : ¬Cyclic links := by
  rintro ⟨l, circle⟩
  have falls : ∀ other, Relation.TransGen (NeedsIn links) l other →
      links.idxOf other < links.idxOf l := by
    intro other path
    induction path with
    | single needs => exact h.idxOf_lt needs
    | tail _ needs ih => exact (h.idxOf_lt needs).trans ih
  exact Nat.lt_irrefl _ (falls l circle)

end Link

namespace Registry

variable {r : Registry}

/-- The links of a run that ends in a schema do not need each other in a circle. -/
theorem Sound.not_cyclic_of_finish {g : Schema} (h : r.Sound) (done : r.finish = .ok g) :
    ¬Link.Cyclic r.links := by
  obtain ⟨b, constraints, build, _, _⟩ := finish_eq_ok.mp done
  obtain ⟨_, _, ordered⟩ := built_of_materializeAll h.indexed h.nodup_buildOrder build
  intro cyclic
  exact ordered.not_cyclic (cyclic.of_perm (Link.buildOrder_perm r.links).symm)

/-- A run whose links need each other in a circle ends with a link or a foreign key that does not
fit. In other words, the links of a run that ends in a schema have no circle. -/
theorem finish_of_cyclic (h : r.Reachable) :
    (Link.Cyclic r.links → ∃ d, r.finish = .error d ∧ d.diagnostic.isReference = true) ∧
    ∀ g, r.finish = .ok g → ¬Link.Cyclic r.links := by
  refine ⟨fun cyclic => ?_, fun g done => h.sound.not_cyclic_of_finish done⟩
  cases done : r.finish with
  | ok g => exact absurd cyclic (h.sound.not_cyclic_of_finish done)
  | error d => exact ⟨d, rfl, rfl⟩

/-- Three link tables, each of which is an end of another. One has a key of its own, and another has
been tried before. -/
def circle : List Call :=
  [.read (.ofText "[Settings]\nCLASS a\n"),
    .read (.ofText "[Settings]\nCLASS x\nLINK y a\n"),
    .read (.ofText "[Settings]\nCLASS y\nLINK z a\n[Fields]\nLONG(9) ! id\n"),
    .materialize ⟨"X", "Y", "A"⟩,
    .read (.ofText "[Settings]\nCLASS z\nLINK x a\n")]

theorem cyclic_circle : Link.Cyclic (run circle).links := by
  have links : (run circle).links = [⟨"X", "Y", "A"⟩, ⟨"Y", "Z", "A"⟩, ⟨"Z", "X", "A"⟩] := by
    decide +kernel
  rw [links]
  refine ⟨⟨"X", "Y", "A"⟩, .tail (b := ⟨"Z", "X", "A"⟩) (.tail (b := ⟨"Y", "Z", "A"⟩) ?_ ?_) ?_⟩
  · exact .single ⟨by decide, by decide, .inl rfl⟩
  · exact ⟨by decide, by decide, .inl rfl⟩
  · exact ⟨by decide, by decide, .inl rfl⟩

theorem finish_of_cyclic_circle :
    ((∃ d, (run circle).finish = .error d ∧ d.diagnostic.isReference = true) ∧
      ∀ g, (run circle).finish = .ok g → ¬Link.Cyclic (run circle).links) := by
  obtain ⟨fails, acyclic⟩ := finish_of_cyclic (r := run circle) ⟨circle, rfl⟩
  exact ⟨fails cyclic_circle, acyclic⟩

end Registry

end TableSchema
