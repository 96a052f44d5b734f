import Mathlib.Tactic

/-!
# Big-endian numbers

The value of a byte string read in network order, the bytes of a number, and what leading
zeroes do to either.
-/
namespace Coaptic.BigEndian

open List

section

variable (bytes : List UInt8)

/-- Value of a byte string in network order. -/
def ofBe : Nat := bytes.foldl (fun value byte => value * 256 + byte.toNat) 0

/-- The low `n` bytes of `value` in network order. -/
def toBe : (n value : Nat) → List UInt8
  | 0, _ => []
  | n + 1, value => toBe n (value / 256) ++ [UInt8.ofNat (value % 256)]

@[simp] theorem ofBe_nil : ofBe [] = 0 := rfl

theorem ofBe_concat (byte : UInt8) : ofBe (bytes ++ [byte]) = ofBe bytes * 256 + byte.toNat := by
  rw [ofBe, foldl_append]
  rfl

theorem ofBe_cons (byte : UInt8) (rest : List UInt8) :
    ofBe (byte :: rest) = byte.toNat * 256 ^ rest.length + ofBe rest := by
  induction rest using reverseRecOn with
  | nil => simp [ofBe]
  | append_singleton front last ih =>
  rw [← cons_append, ofBe_concat, ih, ofBe_concat, length_append, length_singleton,
    Nat.pow_succ]
  ring

theorem ofBe_lt : ofBe bytes < 256 ^ bytes.length := by
  induction bytes with
  | nil => decide
  | cons byte rest ih =>
  have digit := byte.toNat_lt
  rw [ofBe_cons, length_cons, Nat.pow_succ]
  calc byte.toNat * 256 ^ rest.length + ofBe rest
      < byte.toNat * 256 ^ rest.length + 256 ^ rest.length := by omega
    _ = (byte.toNat + 1) * 256 ^ rest.length := by ring
    _ ≤ 256 * 256 ^ rest.length := Nat.mul_le_mul_right _ digit
    _ = 256 ^ rest.length * 256 := Nat.mul_comm _ _

@[simp] theorem length_toBe (n value : Nat) : (toBe n value).length = n := by
  induction n generalizing value with
  | zero => rfl
  | succ n ih => rw [toBe, length_append, ih, length_singleton]

theorem ofBe_toBe {n value : Nat} (bound : value < 256 ^ n) : ofBe (toBe n value) = value := by
  induction n generalizing value with
  | zero =>
    rw [Nat.pow_zero] at bound
    have : value = 0 := by omega
    rw [this]
    rfl
  | succ n ih =>
  have digit : (UInt8.ofNat (value % 256)).toNat = value % 256 := by
    rw [UInt8.toNat_ofNat']
    omega
  rw [toBe, ofBe_concat, ih (by rw [Nat.pow_succ] at bound; omega), digit]
  omega

theorem toBe_inj {n a b : Nat} (ha : a < 256 ^ n) (hb : b < 256 ^ n) (same : toBe n a = toBe n b) :
    a = b := by
  rw [← ofBe_toBe ha, same, ofBe_toBe hb]

/-- Leading zeroes do not change the value. -/
theorem ofBe_zeroes (k : Nat) (bytes : List UInt8) :
    ofBe (List.replicate k 0 ++ bytes) = ofBe bytes := by
  induction k with
  | zero => rfl
  | succ k ih =>
    rw [replicate_succ, cons_append, ofBe_cons, ih]
    simp

theorem ofBe_dropWhile : ofBe (bytes.dropWhile (· == 0)) = ofBe bytes := by
  induction bytes with
  | nil => rfl
  | cons byte rest ih =>
  rw [dropWhile_cons]
  split
  next zero =>
    rw [ih, ofBe_cons, beq_iff_eq.mp zero]
    simp
  · rfl

end

/-- Of strings of one length, the lesser is the lesser number. -/
theorem lt_iff_ofBe_lt {a b : List UInt8} (same : a.length = b.length) :
    a < b ↔ ofBe a < ofBe b := by
  induction a generalizing b with
  | nil =>
    cases b with
    | nil => simp
    | cons y ys => cases same
  | cons x xs ih =>
  cases b with
  | nil => cases same
  | cons y ys =>
  simp only [length_cons, Nat.add_right_cancel_iff] at same
  rw [cons_lt_cons_iff, ih same, ofBe_cons, ofBe_cons, same]
  have left := ofBe_lt xs
  have right := ofBe_lt ys
  rw [same] at left
  generalize 256 ^ ys.length = weight at left right
  constructor
  · rintro (less | ⟨rfl, less⟩)
    · have step : (x.toNat + 1) * weight ≤ y.toNat * weight := Nat.mul_le_mul_right _ less
      rw [Nat.succ_mul] at step
      omega
    · omega
  intro less
  by_cases equal : x = y
  · subst equal
    exact .inr ⟨rfl, by omega⟩
  refine .inl ?_
  by_contra above
  have digits : y.toNat + 1 ≤ x.toNat := by
    have le : y.toNat ≤ x.toNat := Nat.not_lt.mp above
    have ne : y.toNat ≠ x.toNat := fun h => equal (UInt8.toNat_inj.mp h.symm)
    omega
  have step := Nat.mul_le_mul_right weight digits
  rw [Nat.succ_mul] at step
  omega

/-- The low bytes alone, without the leading one. -/
theorem toBe_succ_drop (n value : Nat) : (toBe (n + 1) value).drop 1 = toBe n value := by
  induction n generalizing value with
  | zero => rfl
  | succ n ih =>
    rw [toBe, drop_append_of_le_length (by simp), ih]
    rfl

end Coaptic.BigEndian
