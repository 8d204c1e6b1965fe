/-
FatJar.Proofs.Outcome — computations that can fail, taken apart.

A computation in `Except` that binds one step after another succeeds exactly
when every step does. `bind_eq_ok` takes off the first step, so that a proof
about a run never opens `bind` itself. `Alike.bind` does the same for two runs
that are followed side by side.
-/
namespace FatJar.Outcome

variable {ε α β : Type}

/-- A bound computation succeeds exactly when its first step and the rest do. -/
theorem bind_eq_ok {x : Except ε α} {f : α → Except ε β} {b : β} :
    x >>= f = .ok b ↔ ∃ a, x = .ok a ∧ f a = .ok b := by
  cases x with
  | error e => simp [bind, Except.bind]
  | ok a => simp [bind, Except.bind]

/-- It fails exactly when its first step does, or else the rest. -/
theorem bind_eq_error {x : Except ε α} {f : α → Except ε β} {e : ε} :
    x >>= f = .error e ↔ x = .error e ∨ ∃ a, x = .ok a ∧ f a = .error e := by
  cases x with
  | error e => simp [bind, Except.bind]
  | ok a => simp [bind, Except.bind]

/-- A computation whose result can be seen has succeeded. -/
theorem eq_ok_of_toOption {x : Except ε α} {a : α} (h : x.toOption = some a) : x = .ok a := by
  cases x with
  | error e => cases h
  | ok b => cases h; rfl

/-! ## Failures -/

/-- The error with which a computation fails, if it does. -/
def failure? : Except ε α → Option ε
  | .ok _ => none
  | .error e => some e

theorem failure?_eq_some {x : Except ε α} {e : ε} : failure? x = some e ↔ x = .error e := by
  cases x <;> simp [failure?]

theorem failure?_eq_none {x : Except ε α} : failure? x = none ↔ ∃ a, x = .ok a := by
  cases x <;> simp [failure?]

/-! ## Two computations side by side -/

/-- Two computations end alike: both succeed, with results in the relation `R`, or both fail, with
errors in the relation `E`. -/
def Alike (E : ε → ε → Prop) (R : α → β → Prop) : Except ε α → Except ε β → Prop
  | .ok a, .ok b => R a b
  | .error e, .error f => E e f
  | _, _ => False

namespace Alike

variable {γ δ : Type} {E : ε → ε → Prop} {R : α → β → Prop} {S : γ → δ → Prop}
  {x : Except ε α} {y : Except ε β}

theorem bind {f : α → Except ε γ} {g : β → Except ε δ} (h : Alike E R x y)
    (hnext : ∀ a b, R a b → Alike E S (f a) (g b)) : Alike E S (x >>= f) (y >>= g) := by
  cases x with
  | error e =>
    cases y with
    | error e' => exact h
    | ok b => exact h.elim
  | ok a =>
    cases y with
    | error e' => exact h.elim
    | ok b => exact hnext a b h

theorem exists_ok_iff (h : Alike E R x y) : (∃ a, x = .ok a) ↔ ∃ b, y = .ok b := by
  cases x <;> cases y <;> simp_all [Alike]

theorem error_iff (h : Alike Eq R x y) (e : ε) : x = .error e ↔ y = .error e := by
  cases x <;> cases y <;> simp_all [Alike]

theorem related {a : α} {b : β} (h : Alike E R x y) (hx : x = .ok a) (hy : y = .ok b) :
    R a b := by
  subst hx hy
  exact h

end Alike

end FatJar.Outcome
