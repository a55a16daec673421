import Mathlib.Data.List.Basic
import Mathlib.Data.List.Perm.Basic

/-!
# Fallible computations

`Except ε` with the error or the exception that ends a computation. A list of checks runs until
one fails. Which error it ends with depends on the order of the checks; whether it ends with one
does not (`forM_eq_ok`, `forM_eq_ok_of_perm`).
-/

namespace Lib

variable {ε α β : Type}

theorem ok_bind (a : α) (f : α → Except ε β) : (Except.ok a >>= f) = f a := rfl

theorem error_bind (e : ε) (f : α → Except ε β) : (Except.error e >>= f) = .error e := rfl

/-- A sequence of two computations succeeds if and only if both do. -/
theorem bind_eq_ok {x : Except ε α} {f : α → Except ε β} {b : β} :
    (x >>= f) = .ok b ↔ ∃ a, x = .ok a ∧ f a = .ok b := by
  cases x with
  | error e => simp [error_bind]
  | ok a => simp [ok_bind]

/-- **A list of checks** succeeds if and only if every check does. -/
theorem forM_eq_ok {check : α → Except ε Unit} {xs : List α} :
    forM xs check = .ok () ↔ ∀ x ∈ xs, check x = .ok () := by
  induction xs with
  | nil => simp [pure, Except.pure]
  | cons x xs ih =>
    rw [List.forM_cons, bind_eq_ok, List.forall_mem_cons, ← ih]
    exact ⟨fun ⟨(), hx, hs⟩ => ⟨hx, hs⟩, fun ⟨hx, hs⟩ => ⟨(), hx, hs⟩⟩

/-- The order of the checks does not matter for success. -/
theorem forM_eq_ok_of_perm {check : α → Except ε Unit} {xs ys : List α} (h : xs.Perm ys) :
    forM xs check = .ok () ↔ forM ys check = .ok () := by
  simp only [forM_eq_ok, h.mem_iff]

end Lib
