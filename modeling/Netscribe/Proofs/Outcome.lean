/-!
# Outcomes of computations that may fail

`Yields x P a` says when a computation succeeds and what it then gives. It goes through the ways in
which computations are put together, so that the success condition of a function is read off those
of the functions it calls.
-/

namespace Netscribe

/-- The computation `x` succeeds exactly if `P` holds, and then gives `a`. -/
def Yields {ε α : Type} (x : Except ε α) (P : Prop) (a : α) : Prop :=
  ∀ b, x = .ok b ↔ P ∧ b = a

namespace Yields

variable {ε ε' α β : Type} {x : Except ε α} {P Q : Prop} {a : α} {b : β}

theorem ok (a : α) : Yields (.ok a : Except ε α) True a := by
  intro b
  simp [eq_comm]

theorem error (e : ε) (h : ¬ P) : Yields (.error e) P a := by
  intro b
  simp [h]

theorem holds (h : Yields x P a) {b : α} (hx : x = .ok b) : P := ((h b).mp hx).1

theorem value (h : Yields x P a) {b : α} (hx : x = .ok b) : b = a := ((h b).mp hx).2

theorem exists_iff (h : Yields x P a) : (∃ b, x = .ok b) ↔ P := by
  constructor
  · intro hex
    obtain ⟨b, hb⟩ := hex
    exact h.holds hb
  · intro hP
    exact ⟨a, (h a).mpr ⟨hP, rfl⟩⟩

/-- The condition may be restated, and the value where the condition holds. -/
theorem congr {c : α} (h : Yields x P a) (hPQ : P ↔ Q) (hac : P → a = c) : Yields x Q c := by
  intro b
  rw [h b, ← hPQ]
  constructor
  · intro hall
    obtain ⟨hP, rfl⟩ := hall
    exact ⟨hP, hac hP⟩
  · intro hall
    obtain ⟨hP, rfl⟩ := hall
    exact ⟨hP, (hac hP).symm⟩

theorem map (h : Yields x P a) (f : α → β) : Yields (x.map f) P (f a) := by
  intro b
  cases x with
  | error e =>
    have hP : ¬ P := fun hP => by cases (h a).mpr ⟨hP, rfl⟩
    simp [Except.map, hP]
  | ok c =>
    obtain ⟨hP, rfl⟩ := (h c).mp rfl
    simp [Except.map, hP, eq_comm]

theorem mapError (h : Yields x P a) (f : ε → ε') : Yields (x.mapError f) P a := by
  intro b
  rw [← h b]
  cases x with
  | error e =>
    show (Except.error (f e) : Except ε' α) = .ok b ↔ (Except.error e : Except ε α) = .ok b
    simp
  | ok c =>
    show (Except.ok c : Except ε' α) = .ok b ↔ (Except.ok c : Except ε α) = .ok b
    simp

/-- A second step may depend on the success of the first one. -/
theorem bind {f : α → Except ε β} (h : Yields x P a) (hf : P → Yields (f a) Q b) :
    Yields (x >>= f) (P ∧ Q) b := by
  intro c
  cases x with
  | error e =>
    have hP : ¬ P := fun hP => by cases (h a).mpr ⟨hP, rfl⟩
    simp [Bind.bind, Except.bind, hP]
  | ok d =>
    obtain ⟨hP, rfl⟩ := (h d).mp rfl
    have hstep := hf hP c
    simp only [Bind.bind, Except.bind, hP, true_and]
    exact hstep

/-- The last step of a computation only shapes its result. -/
theorem bind_pure (h : Yields x P a) (f : α → β) :
    Yields (x >>= fun a => (pure (f a) : Except ε β)) P (f a) := by
  have hb := h.bind (f := fun a => (pure (f a) : Except ε β)) fun _ => ok (f a)
  exact hb.congr (and_iff_left trivial) fun _ => rfl

end Yields

/-! ### Steps of a success -/

theorem exists_of_bind_eq_ok {ε α β : Type} {x : Except ε α} {f : α → Except ε β} {b : β}
    (h : x >>= f = .ok b) : ∃ a, x = .ok a ∧ f a = .ok b := by
  cases x with
  | error e => cases h
  | ok a => exact ⟨a, rfl, h⟩

theorem eq_ok_of_mapError {ε ε' α : Type} {x : Except ε α} {f : ε → ε'} {a : α}
    (h : x.mapError f = .ok a) : x = .ok a := by
  cases x with
  | error e => cases h
  | ok b =>
    cases h
    rfl

end Netscribe
