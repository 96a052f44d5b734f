import Mathlib.Tactic

/-!
# Bitmaps

A machine word read as the set of its one-bits.
-/
namespace Coaptic.Bitmap

open BitVec List

variable {w : Nat}

def bit (w i : Nat) : BitVec w := 1#w <<< i

/-- The word whose one-bits are those below `n`. -/
def below (w n : Nat) : BitVec w := 1#w <<< n - 1#w

section

variable (mask : BitVec w)

/-- Number of one-bits before the first zero-bit. -/
def trailingOnes : Nat :=
  ((List.range w).find? fun i => !mask.getLsbD i).getD w

/-- Drop the low `shift` bits; shifts of the width and more clear the word. -/
def slide (shift : Nat) : BitVec w := if w ≤ shift then 0#w else mask >>> shift

theorem getLsbD_slide (shift i : Nat) :
    (slide mask shift).getLsbD i = mask.getLsbD (shift + i) := by
  unfold slide
  split
  · rw [getLsbD_zero, getLsbD_of_ge _ _ (by omega)]
  · exact getLsbD_ushiftRight mask shift i

theorem getLsbD_bit (i j : Nat) : (bit w i).getLsbD j = (decide (j < w) && decide (i = j)) := by
  by_cases inside : j < w
  · rw [bit, getLsbD_shiftLeft]
    by_cases before : j < i
    · simp only [before, decide_true, Bool.not_true, Bool.and_false, Bool.false_and]
      simp; omega
    by_cases same : i = j
    · subst same
      simp [inside]
      omega
    · simp [inside, before, same, getLsbD_one]
      omega
  · rw [getLsbD_of_ge _ _ (Nat.not_lt.mp inside)]
    simp [inside]

theorem and_bit_ne_zero {i : Nat} (inside : i < w) :
    mask &&& bit w i ≠ 0#w ↔ mask.getLsbD i = true := by
  constructor
  · intro h
    by_contra unset
    apply h
    apply eq_of_getLsbD_eq
    intro j bound
    rw [getLsbD_and, getLsbD_bit, getLsbD_zero]
    by_cases same : i = j
    · subst same
      simp [unset]
    · simp [same]
  · intro set h
    have := congrArg (fun m => m.getLsbD i) h
    simp only [getLsbD_and, getLsbD_bit, inside, set, getLsbD_zero] at this
    cases this

theorem getLsbD_insert {i : Nat} (inside : i < w) (j : Nat) :
    (mask ||| bit w i).getLsbD j = true ↔ mask.getLsbD j = true ∨ i = j := by
  rw [getLsbD_or, getLsbD_bit, Bool.or_eq_true, Bool.and_eq_true, decide_eq_true_eq,
    decide_eq_true_eq]
  constructor
  · rintro (set | ⟨-, same⟩)
    · exact .inl set
    · exact .inr same
  rintro (set | same)
  · exact .inl set
  · exact .inr ⟨same ▸ inside, same⟩

theorem shiftRight_ne_zero (k : Nat) : mask >>> k ≠ 0#w ↔ ∃ j, k ≤ j ∧ mask.getLsbD j = true := by
  constructor
  · intro h
    by_contra none
    push Not at none
    apply h
    apply eq_of_getLsbD_eq
    intro j bound
    rw [getLsbD_ushiftRight, getLsbD_zero]
    simpa using none (k + j) (Nat.le_add_right k j)
  rintro ⟨j, above, set⟩ h
  have := congrArg (fun m => m.getLsbD (j - k)) h
  simp only [getLsbD_ushiftRight, Nat.add_sub_cancel' above, set,
    getLsbD_zero] at this
  cases this

theorem and_not_eq_zero (mask other : BitVec w) :
    mask &&& ~~~other = 0#w ↔ ∀ i, mask.getLsbD i = true → other.getLsbD i = true := by
  constructor
  · intro h i set
    have inside : i < w := lt_of_getLsbD set
    have := congrArg (fun m => m.getLsbD i) h
    simpa [set, inside] using this
  intro contained
  apply eq_of_getLsbD_eq
  intro i inside
  cases set : mask.getLsbD i with
  | false => simp [set]
  | true => simp [set, contained i set]

/-- The highest one-bit is set, and no one-bit is above it. -/
theorem getLsbD_highest {mask : BitVec w} (h : mask ≠ 0#w) :
    mask.getLsbD (w - 1 - mask.clz.toNat) = true ∧
      ∀ i, mask.getLsbD i = true → i ≤ w - 1 - mask.clz.toNat := by
  have wide : 0 < w := by
    rcases Nat.eq_zero_or_pos w with rfl | wide
    · exact absurd (eq_nil mask) h
    · exact wide
  refine ⟨getLsbD_true_clz_of_ne_zero wide h, ?_⟩
  intro i set
  by_contra above
  have small : mask.toNat < 2 ^ i :=
    lt_of_lt_of_le toNat_lt_two_pow_sub_clz (Nat.pow_le_pow_right (by decide) (by omega))
  rw [getLsbD, Nat.testBit_lt_two_pow small] at set
  cases set

theorem getLsbD_of_lt_trailingOnes {i : Nat} (h : i < trailingOnes mask) :
    mask.getLsbD i = true := by
  unfold trailingOnes at h
  cases found : (range w).find? fun i => !mask.getLsbD i with
  | none =>
    rw [found] at h
    have := find?_eq_none.mp found i (mem_range.mpr h)
    simpa using this
  | some k =>
  rw [found] at h
  obtain ⟨-, -, earlier⟩ := find?_range_eq_some.mp found
  simpa using earlier i h

theorem trailingOnes_le : trailingOnes mask ≤ w := by
  unfold trailingOnes
  cases found : (range w).find? fun i => !mask.getLsbD i with
  | none => exact Nat.le_refl w
  | some k =>
    obtain ⟨-, member, -⟩ := find?_range_eq_some.mp found
    exact (mem_range.mp member).le

theorem getLsbD_trailingOnes : mask.getLsbD (trailingOnes mask) = false := by
  unfold trailingOnes
  cases found : (range w).find? fun i => !mask.getLsbD i with
  | none => exact getLsbD_of_ge _ _ (Nat.le_refl w)
  | some k =>
    obtain ⟨unset, -, -⟩ := find?_range_eq_some.mp found
    simpa using unset

end

end Coaptic.Bitmap
