import Mathlib.Tactic

/-!
# Runs of a deterministic machine

A machine is a step function on states and inputs. Invariants are carried along a whole run
once, here, also for runs in which every input meets a condition on the state it arrives in.
-/
namespace Coaptic.Run

variable {σ ι : Type}

/-- The state after the inputs, in order. -/
def run (step : σ → ι → σ) (s : σ) (inputs : List ι) : σ := inputs.foldl step s

/-- Every input meets `ok` in the state it is applied to. -/
def Meets (step : σ → ι → σ) (ok : σ → ι → Prop) : σ → List ι → Prop
  | _, [] => True
  | s, i :: rest => ok s i ∧ Meets step ok (step s i) rest

instance Meets.decidable (step : σ → ι → σ) (ok : σ → ι → Prop) [∀ s i, Decidable (ok s i)] :
    ∀ (s : σ) (inputs : List ι), Decidable (Meets step ok s inputs)
  | _, [] => .isTrue trivial
  | s, i :: rest =>
    have := Meets.decidable step ok (step s i) rest
    inferInstanceAs (Decidable (ok s i ∧ Meets step ok (step s i) rest))

variable {step : σ → ι → σ} {ok : σ → ι → Prop} {P : σ → Prop}

@[simp] theorem run_nil (s : σ) : run step s [] = s := rfl

@[simp] theorem run_cons (s : σ) (i : ι) (rest : List ι) :
    run step s (i :: rest) = run step (step s i) rest := rfl

theorem run_append (s : σ) (front back : List ι) :
    run step s (front ++ back) = run step (run step s front) back :=
  List.foldl_append

/-- A condition on inputs alone is met along every run. -/
theorem meets_of_forall {ok : ι → Prop} {inputs : List ι} (h : ∀ i ∈ inputs, ok i) (s : σ) :
    Meets step (fun _ => ok) s inputs := by
  induction inputs generalizing s with
  | nil => trivial
  | cons i rest ih =>
    exact ⟨h i List.mem_cons_self, ih (fun j later => h j (List.mem_cons_of_mem i later)) _⟩

/-- What a step preserves under `ok`, a run preserves whose inputs all meet `ok`. -/
theorem invariant_of_meets (keeps : ∀ s i, P s → ok s i → P (step s i)) {s : σ}
    (start : P s) {inputs : List ι} (meets : Meets step ok s inputs) :
    P (run step s inputs) := by
  induction inputs generalizing s with
  | nil => exact start
  | cons i rest ih => exact ih (keeps s i start meets.1) meets.2

/-- What every step preserves, every run preserves. -/
theorem invariant_run (keeps : ∀ s i, P s → P (step s i)) {s : σ} (start : P s)
    (inputs : List ι) : P (run step s inputs) := by
  induction inputs generalizing s with
  | nil => exact start
  | cons i rest ih => exact ih (keeps s i start)

/-- A state that no input changes is where every run from it ends. -/
theorem run_of_fixed {s : σ} (fixed : ∀ i, step s i = s) (inputs : List ι) :
    run step s inputs = s := by
  induction inputs with
  | nil => rfl
  | cons i rest ih => rw [run_cons, fixed, ih]

end Coaptic.Run
