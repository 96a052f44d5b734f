import Coaptic.Lib.Run

/-!
# Traces of a machine

The inputs of a run, each with the state it arrives in: what holds in every one of these states,
and what relates an earlier one to a later one.
-/
namespace Coaptic.Run

open List

variable {σ ι : Type}

/-- The inputs of a run, each with the state that it is applied to. -/
def trace (step : σ → ι → σ) : σ → List ι → List (σ × ι)
  | _, [] => []
  | s, i :: rest => (s, i) :: trace step (step s i) rest

variable {step : σ → ι → σ}

@[simp] theorem trace_nil (s : σ) : trace step s [] = [] := rfl

@[simp] theorem trace_cons (s : σ) (i : ι) (rest : List ι) :
    trace step s (i :: rest) = (s, i) :: trace step (step s i) rest := rfl

/-- An entry of a trace is reached by the inputs before it. -/
theorem exists_of_mem_trace {s : σ} {inputs : List ι} {entry : σ × ι}
    (mem : entry ∈ trace step s inputs) :
    ∃ front back, inputs = front ++ entry.2 :: back ∧ entry.1 = run step s front := by
  induction inputs generalizing s with
  | nil => simp at mem
  | cons i rest ih =>
  rw [trace_cons, mem_cons] at mem
  obtain rfl | later := mem
  · exact ⟨[], rest, rfl, rfl⟩
  · obtain ⟨front, back, rfl, reached⟩ := ih later
    exact ⟨i :: front, back, rfl, reached⟩

/-- What every step preserves holds in every state of the trace. -/
theorem invariant_trace {Inv : σ → Prop} (keeps : ∀ s i, Inv s → Inv (step s i)) {s : σ}
    (start : Inv s) {inputs : List ι} {entry : σ × ι} (mem : entry ∈ trace step s inputs) :
    Inv entry.1 := by
  obtain ⟨front, back, -, reached⟩ := exists_of_mem_trace mem
  rw [reached]
  exact invariant_run keeps start front

section Relation

variable {R : σ → σ → Prop} (refl : ∀ s, R s s) (trans : ∀ a b c, R a b → R b c → R a c)
  (steps : ∀ s i, R s (step s i))

include refl trans steps

/-- A preorder that every step respects relates the ends of a run. -/
theorem rel_run (s : σ) (inputs : List ι) : R s (run step s inputs) := by
  induction inputs generalizing s with
  | nil => exact refl s
  | cons i rest ih => exact trans _ _ _ (steps s i) (ih (step s i))

/-- It relates the state after an entry of the trace to every later one. -/
theorem pairwise_trace (s : σ) (inputs : List ι) :
    (trace step s inputs).Pairwise fun a b => R (step a.1 a.2) b.1 := by
  induction inputs generalizing s with
  | nil => exact List.Pairwise.nil
  | cons i rest ih =>
  refine List.Pairwise.cons ?_ (ih (step s i))
  intro entry mem
  obtain ⟨front, back, -, reached⟩ := exists_of_mem_trace mem
  rw [reached]
  exact rel_run refl trans steps (step s i) front

end Relation

/-- What excludes itself later on happens at most once. -/
theorem length_filter_le_one {α : Type} {p : α → Bool} {entries : List α}
    (once : entries.Pairwise fun a b => p a = true → ¬p b = true) :
    (entries.filter p).length ≤ 1 := by
  induction once with
  | nil => simp
  | @cons a rest excludes _ ih =>
  rw [filter_cons]
  split
  next here =>
    have nothing := filter_eq_nil_iff.mpr fun b mem => excludes b mem here
    simp [nothing]
  · exact ih

/-! ### Meters -/

section Meter

variable (step : σ → ι → σ) (window level : σ → Nat) (cost : σ → ι → Nat)

/-- What a run costs in one window. -/
def spending (w : Nat) (s : σ) (inputs : List ι) : Nat :=
  ((trace step s inputs).map fun entry =>
    if window (step entry.1 entry.2) = w then cost entry.1 entry.2 else 0).sum

variable {step window level cost} {Inv : σ → Prop} {limit : Nat}

/-- A level that is charged with every cost, is reset only where a later window begins and stays
under its limit bounds what every window costs. -/
theorem spending_le (keeps : ∀ s i, Inv s → Inv (step s i)) (bounded : ∀ s, Inv s → level s ≤ limit)
    (meters : ∀ s i, Inv s →
      (window (step s i) = window s ∧ level s + cost s i ≤ level (step s i)) ∨
        (window s < window (step s i) ∧ cost s i ≤ level (step s i)))
    {s : σ} (start : Inv s) (inputs : List ι) (w : Nat) :
    spending step window cost w s inputs ≤ limit := by
  -- what the level has been charged with in its own window counts as spent
  have charged : (w < window s → spending step window cost w s inputs = 0) ∧
      spending step window cost w s inputs + (if w = window s then level s else 0) ≤ limit := by
    induction inputs generalizing s with
    | nil =>
      refine ⟨fun _ => rfl, ?_⟩
      have := bounded s start
      simp only [spending, trace_nil, map_nil, sum_nil]
      split <;> omega
    | cons i rest ih =>
    obtain ⟨earlier, spent⟩ := ih (keeps s i start)
    have := bounded s start
    simp only [spending, trace_cons, map_cons, sum_cons] at earlier spent ⊢
    obtain ⟨same, level'⟩ | ⟨later, level'⟩ := meters s i start
    · rw [same] at earlier spent ⊢
      constructor
      · intro before
        rw [earlier before, if_neg (by omega)]
      by_cases here : window s = w
      · rw [if_pos here.symm] at spent
        rw [if_pos here, if_pos here.symm]
        omega
      rw [if_neg (Ne.symm here)] at spent
      rw [if_neg here, if_neg (Ne.symm here)]
      omega
    · constructor
      · intro before
        rw [earlier (by omega), if_neg (by omega)]
      by_cases here : window (step s i) = w
      · rw [if_pos here.symm] at spent
        rw [if_pos here, if_neg (by omega)]
        omega
      rw [if_neg (Ne.symm here)] at spent
      rw [if_neg here]
      by_cases old : w = window s
      · rw [if_pos old, earlier (by omega)]
        omega
      · rw [if_neg old]
        omega
  omega

end Meter

end Coaptic.Run
