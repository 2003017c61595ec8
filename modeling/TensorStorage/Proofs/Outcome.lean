import TensorStorage.Error
/-!
# Outcome — opening computations that may fail

What a computation that succeeds has done: its steps succeeded (`bind_eq_ok`), its guards let it pass (`guard_eq_ok`),
and what it took over from a computation of another kind succeeded there.
-/
namespace TensorStorage

variable {ε α β : Type}

theorem bind_eq_ok {x : Except ε α} {f : α → Except ε β} {b : β} :
    (x >>= f) = .ok b ↔ ∃ a, x = .ok a ∧ f a = .ok b := by
  cases x with
  | error e =>
    constructor
    · intro h; cases h
    · rintro ⟨a, h, -⟩; cases h
  | ok a =>
    constructor
    · intro h; exact ⟨a, rfl, h⟩
    · rintro ⟨a', h, hf⟩; cases h; exact hf

theorem bind_eq_error {x : Except ε α} {f : α → Except ε β} {e : ε} :
    (x >>= f) = .error e ↔ x = .error e ∨ ∃ a, x = .ok a ∧ f a = .error e := by
  cases x with
  | error e' =>
    constructor
    · intro h; cases h; exact .inl rfl
    · rintro (h | ⟨a, h, -⟩)
      · cases h; rfl
      · cases h
  | ok a =>
    constructor
    · intro h; exact .inr ⟨a, rfl, h⟩
    · rintro (h | ⟨a', h, hf⟩)
      · cases h
      · cases h; exact hf

/-- What is made of a result without failing fails for no other reason. -/
theorem bind_pure_eq_error {x : Except ε α} {f : α → β} {e : ε} :
    (x >>= fun a => pure (f a)) = .error e ↔ x = .error e := by
  rw [bind_eq_error]
  exact ⟨fun h => h.resolve_right (by rintro ⟨a, -, h⟩; cases h), .inl⟩

/-- **A list of computations fails as the first of them that fails.** -/
theorem mapM_eq_error_iff {f : α → Except ε β} {e : ε} : ∀ {l : List α}, l.mapM f = .error e ↔
    ∃ before a after, l = before ++ a :: after ∧ (∀ b ∈ before, ∃ y, f b = .ok y) ∧ f a = .error e
  | [] => by
    refine ⟨nofun, ?_⟩
    rintro ⟨before, a, after, h, -⟩
    exact absurd h.symm (by simp)
  | a :: l => by
    have ih := @mapM_eq_error_iff f e l
    rw [List.mapM_cons, bind_eq_error]
    simp only [bind_pure_eq_error]
    constructor
    · rintro (h | ⟨y, hy, h⟩)
      · exact ⟨[], a, l, rfl, by simp, h⟩
      · obtain ⟨before, b, after, rfl, hbefore, hb⟩ := ih.1 h
        exact ⟨a :: before, b, after, rfl, List.forall_mem_cons.2 ⟨⟨y, hy⟩, hbefore⟩, hb⟩
    · rintro ⟨before, b, after, hl, hbefore, hb⟩
      cases before with
      | nil =>
        cases hl
        exact .inl hb
      | cons c before =>
        cases hl
        obtain ⟨⟨y, hy⟩, hbefore⟩ := List.forall_mem_cons.1 hbefore
        exact .inr ⟨y, hy, ih.2 ⟨before, b, after, rfl, hbefore, hb⟩⟩

@[simp] theorem ok_bind (a : α) (f : α → Except ε β) : (Except.ok a >>= f) = f a := rfl

@[simp] theorem error_bind (e : ε) (f : α → Except ε β) : ((Except.error e : Except ε α) >>= f) = .error e := rfl

@[simp] theorem pure_eq_ok (a : α) : (pure a : Except ε α) = .ok a := rfl

theorem guard_eq_ok {c : Prop} [Decidable c] {e : ε} {x : Except ε α} {a : α} :
    (if c then .error e else x) = .ok a ↔ ¬ c ∧ x = .ok a := by
  by_cases h : c <;> simp [h]

theorem guard_eq_error {c : Prop} [Decidable c] {e e' : ε} {x : Except ε α} :
    (if c then .error e else x) = .error e' ↔ c ∧ e' = e ∨ ¬ c ∧ x = .error e' := by
  by_cases h : c <;> simp [h, eq_comm]

namespace Outcome

@[simp] theorem liftM_checked (x : Checked α) : (liftM x : Outcome α) = ofChecked x := rfl

@[simp] theorem liftM_option (x : Option α) : (liftM x : Outcome α) = ofOption x := rfl

theorem ofChecked_eq_ok {x : Checked α} {a : α} : ofChecked x = .ok a ↔ x = .ok a := by
  cases x with
  | error e => simp
  | ok b => simp

theorem ofChecked_eq_error {x : Checked α} {e : Failure} :
    ofChecked x = .error e ↔ ∃ cause, x = .error cause ∧ e = .refused cause := by
  cases x with
  | error cause => simp [eq_comm]
  | ok b => simp

theorem ofOption_eq_ok {x : Option α} {a : α} : ofOption x = .ok a ↔ x = some a := by
  cases x with
  | none => simp
  | some b => simp

theorem ofOption_eq_error {x : Option α} {e : Failure} : ofOption x = .error e ↔ x = none ∧ e = .breach := by
  cases x with
  | none => simp [eq_comm]
  | some b => simp

end Outcome

end TensorStorage
