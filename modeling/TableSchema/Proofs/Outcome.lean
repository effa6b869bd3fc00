/-!
Results that may fail, opened from the side of success.

A computation in several steps succeeds when each step does (`Except.bind_eq_ok`), and a loop keeps
what each of its steps keeps (`foldlM_keeps`).
-/

namespace TableSchema

variable {ε α β : Type}

@[simp] theorem Except.ok_bind {a : α} {f : α → Except ε β} : (.ok a >>= f) = f a := rfl

@[simp] theorem Except.error_bind {e : ε} {f : α → Except ε β} : (.error e >>= f) = .error e := rfl

@[simp] theorem Except.pure_eq {a : α} : (pure a : Except ε α) = .ok a := rfl

/-- Two steps succeed when the first gives a value on which the second succeeds. -/
theorem Except.bind_eq_ok {x : Except ε α} {f : α → Except ε β} {b : β} :
    (x >>= f) = .ok b ↔ ∃ a, x = .ok a ∧ f a = .ok b := by
  cases x with
  | error e => simp
  | ok a => simp

/-- Two steps fail when the first fails, or the second fails on the value of the first. -/
theorem Except.bind_eq_error {x : Except ε α} {f : α → Except ε β} {e : ε} :
    (x >>= f) = .error e ↔ x = .error e ∨ ∃ a, x = .ok a ∧ f a = .error e := by
  cases x with
  | error e' => simp
  | ok a => simp

theorem Except.pure_eq_ok {a b : α} : (pure a : Except ε α) = .ok b ↔ a = b := by
  simp

theorem Except.map_eq_ok {x : Except ε α} {f : α → β} {b : β} :
    x.map f = .ok b ↔ ∃ a, x = .ok a ∧ f a = b := by
  cases x with
  | error e => simp [Except.map]
  | ok a => simp [Except.map]

theorem Except.exists_of_isOk {x : Except ε α} (h : x.isOk = true) : ∃ a, x = .ok a := by
  cases x with
  | error e => cases h
  | ok a => exact ⟨a, rfl⟩

theorem Except.mem_toOption {x : Except ε α} {a : α} : a ∈ x.toOption ↔ x = .ok a := by
  cases x with
  | error e => simp [Except.toOption]
  | ok b => simp [Except.toOption]

/-- A loop that succeeds keeps what every successful step on one of its elements keeps. -/
theorem foldlM_keeps_of_mem {step : β → α → Except ε β} {keeps : β → Prop} {list : List α}
    (one : ∀ a ∈ list, ∀ b b', keeps b → step b a = .ok b' → keeps b') {b b' : β}
    (start : keeps b) (done : list.foldlM step b = .ok b') : keeps b' := by
  induction list generalizing b with
  | nil =>
    obtain rfl := Except.pure_eq_ok.mp done
    exact start
  | cons a rest ih =>
    rw [List.foldlM_cons] at done
    obtain ⟨middle, first, tail⟩ := Except.bind_eq_ok.mp done
    obtain ⟨head, others⟩ := List.forall_mem_cons.mp one
    exact ih others (head b middle start first) tail

/-- A loop that succeeds keeps what every successful step keeps. -/
theorem foldlM_keeps {step : β → α → Except ε β} {keeps : β → Prop}
    (one : ∀ b a b', keeps b → step b a = .ok b' → keeps b') {list : List α} {b b' : β}
    (start : keeps b) (done : list.foldlM step b = .ok b') : keeps b' :=
  foldlM_keeps_of_mem (fun a _ b b' => one b a b') start done

end TableSchema
