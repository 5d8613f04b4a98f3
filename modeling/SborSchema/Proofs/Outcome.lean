/-
# Outcomes of steps

Parsing is a sequence of steps, each of which succeeds with a value or fails.
What is known of the outcome of the sequence is known of its steps. Loading and
the commands are such sequences too, but their steps also change a state, and a
step that fails leaves the state behind.

Key theorems: `bind_eq_ok`, `bind_eq_error`, `mapM_eq_error`, `run_bind_ok`, `run_bind_error`,
`run_bind_eq_ok`.
-/

namespace SborSchema

variable {ε α β : Type} {x : Except ε α} {f : α → Except ε β}

/-- A step after a success. -/
theorem ok_bind (a : α) (f : α → Except ε β) : (Except.ok a >>= f) = f a := rfl

/-- A step after a failure. -/
theorem error_bind (e : ε) (f : α → Except ε β) : (Except.error e >>= f) = .error e := rfl

/-- Two steps succeed if both do. -/
theorem bind_eq_ok {b : β} : (x >>= f) = .ok b ↔ ∃ a, x = .ok a ∧ f a = .ok b := by
  cases x with
  | ok a => simp only [ok_bind, Except.ok.injEq, exists_eq_left']
  | error e => simp only [error_bind, reduceCtorEq, false_and, exists_false]

/-- Two steps fail if the first does, or the second after it. -/
theorem bind_eq_error {e : ε} :
    (x >>= f) = .error e ↔ x = .error e ∨ ∃ a, x = .ok a ∧ f a = .error e := by
  cases x with
  | ok a => simp only [ok_bind, Except.ok.injEq, exists_eq_left', reduceCtorEq, false_or]
  | error e' =>
    simp only [error_bind, Except.error.injEq, reduceCtorEq, false_and, exists_false, or_false]

/-- A step that only uses the result of the one before it does not fail. -/
theorem bind_pure_eq_error {g : α → β} {e : ε} :
    (x >>= fun a => pure (g a)) = .error e ↔ x = .error e := by
  cases x <;> simp [bind, Except.bind, pure, Except.pure]

theorem map_eq_ok {g : α → β} {b : β} : x.map g = .ok b ↔ ∃ a, x = .ok a ∧ g a = b := by
  cases x <;> simp [Except.map]

/-- Applying a function after two steps applies it after the second one. -/
theorem map_bind {γ : Type} (x : Except ε α) (f : α → Except ε β) (g : β → γ) :
    (x >>= f).map g = x >>= fun a => (f a).map g := by
  cases x <;> rfl

theorem map_map {γ : Type} (x : Except ε α) (f : α → β) (g : β → γ) :
    (x.map f).map g = x.map (g ∘ f) := by
  cases x <;> rfl

/-- Applying a function between two steps is left to the second one. -/
theorem bind_map {γ : Type} (x : Except ε α) (f : α → β) (g : β → Except ε γ) :
    x.map f >>= g = x >>= fun a => g (f a) := by
  cases x <;> rfl

theorem mapError_eq_ok {ε' : Type} {g : ε → ε'} {a : α} : x.mapError g = .ok a ↔ x = .ok a := by
  cases x with
  | ok b =>
    change (Except.ok b : Except ε' α) = .ok a ↔ _
    rw [Except.ok.injEq, Except.ok.injEq]
  | error e =>
    change (Except.error (g e) : Except ε' α) = .ok a ↔ _
    simp only [reduceCtorEq]

theorem mapError_eq_error {ε' : Type} {g : ε → ε'} {e' : ε'} :
    x.mapError g = .error e' ↔ ∃ e, x = .error e ∧ g e = e' := by
  cases x with
  | ok a =>
    change (Except.ok a : Except ε' α) = .error e' ↔ _
    simp only [reduceCtorEq, false_and, exists_false]
  | error e =>
    change (Except.error (g e) : Except ε' α) = .error e' ↔ _
    simp only [Except.error.injEq, exists_eq_left']

theorem map_eq_error {g : α → β} {e : ε} : x.map g = .error e ↔ x = .error e := by
  cases x <;> simp [Except.map]

/-- Reading a list stops at the first member that cannot be read; the ones before it could. -/
theorem mapM_eq_error {l : List α} {e : ε} : l.mapM f = .error e ↔
    ∃ before a after, l = before ++ a :: after ∧ (∀ a' ∈ before, ∃ b, f a' = .ok b) ∧
      f a = .error e := by
  induction l with
  | nil =>
    rw [List.mapM_nil]
    simp [pure, Except.pure]
  | cons a l ih =>
    rw [List.mapM_cons, bind_eq_error]
    constructor
    · rintro (ha | ⟨b, ha, h⟩)
      · exact ⟨[], a, l, rfl, nofun, ha⟩
      · obtain hl | ⟨bs, -, h⟩ := bind_eq_error.mp h
        · obtain ⟨before, a', after, rfl, hbefore, ha'⟩ := ih.mp hl
          exact ⟨a :: before, a', after, rfl, List.forall_mem_cons.mpr ⟨⟨b, ha⟩, hbefore⟩, ha'⟩
        · cases h
    · rintro ⟨before, a', after, hsplit, hbefore, ha'⟩
      cases before with
      | nil =>
        obtain ⟨rfl, rfl⟩ := List.cons.inj hsplit
        exact .inl ha'
      | cons a₀ before =>
        obtain ⟨rfl, rfl⟩ := List.cons.inj hsplit
        obtain ⟨⟨b, ha⟩, hbefore⟩ := List.forall_mem_cons.mp hbefore
        exact .inr ⟨b, ha, bind_eq_error.mpr (.inl (ih.mpr ⟨before, a', after, rfl, hbefore, ha'⟩))⟩

/-- A step has succeeded if something is known of its result. -/
theorem exists_ok_of_toOption_map {g : α → β} {b : β} (h : x.toOption.map g = some b) :
    ∃ a, x = .ok a ∧ g a = b := by
  cases x with
  | ok a => exact ⟨a, rfl, Option.some.inj h⟩
  | error e => cases h

/-! ### Steps with a state -/

section State

variable {σ : Type} {m : ExceptT ε (StateM σ) α} {s s' : σ}

/-- A step after a success goes on from the state that is left behind. -/
theorem run_bind_ok {a : α} (h : m.run.run s = (.ok a, s')) (k : α → ExceptT ε (StateM σ) β) :
    (m >>= k).run.run s = (k a).run.run s' := by
  rw [ExceptT.run_bind, StateT.run_bind, h]
  rfl

/-- A step after a failure is not taken. -/
theorem run_bind_error {e : ε} (h : m.run.run s = (.error e, s'))
    (k : α → ExceptT ε (StateM σ) β) : (m >>= k).run.run s = (.error e, s') := by
  rw [ExceptT.run_bind, StateT.run_bind, h]
  rfl

/-- Two steps succeed if both do, the second one from the state after the first. -/
theorem run_bind_eq_ok {k : α → ExceptT ε (StateM σ) β} {b : β} :
    (m >>= k).run.run s = (.ok b, s') ↔
      ∃ a s₁, m.run.run s = (.ok a, s₁) ∧ (k a).run.run s₁ = (.ok b, s') := by
  cases h : m.run.run s with
  | mk outcome s₁ =>
    cases outcome with
    | ok a =>
      rw [run_bind_ok h]
      refine ⟨fun hk => ⟨a, s₁, rfl, hk⟩, fun ⟨_, _, heq, hk⟩ => ?_⟩
      cases heq
      exact hk
    | error e =>
      rw [run_bind_error h]
      exact ⟨nofun, nofun⟩

end State

end SborSchema
