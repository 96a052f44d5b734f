import Mathlib.Tactic

/-!
# Fallible computations

How a sequence of fallible steps succeeds or fails, and how a success passes through.
-/
namespace Coaptic.Result

variable {ε α β : Type}

theorem bind_eq_ok {x : Except ε α} {f : α → Except ε β} {b : β} :
    (x >>= f) = .ok b ↔ ∃ a, x = .ok a ∧ f a = .ok b := by
  cases x with
  | error e => simp [bind, Except.bind]
  | ok a => simp [bind, Except.bind]

@[simp] theorem ok_bind (a : α) (f : α → Except ε β) : (Except.ok a >>= f) = f a := rfl

@[simp] theorem error_bind (e : ε) (f : α → Except ε β) :
    ((Except.error e : Except ε α) >>= f) = .error e := rfl

@[simp] theorem isOk_ok (a : α) : (Except.ok a : Except ε α).isOk = true := rfl

@[simp] theorem isOk_error (e : ε) : (Except.error e : Except ε α).isOk = false := rfl

@[simp] theorem map_ok (f : α → β) (a : α) : (Except.ok a : Except ε α).map f = .ok (f a) := rfl

@[simp] theorem map_error (f : α → β) (e : ε) : (Except.error e : Except ε α).map f = .error e := rfl

theorem bind_eq_error {x : Except ε α} {f : α → Except ε β} {e : ε} :
    (x >>= f) = .error e ↔ x = .error e ∨ ∃ a, x = .ok a ∧ f a = .error e := by
  cases x with
  | error e => simp
  | ok a => simp

end Coaptic.Result
