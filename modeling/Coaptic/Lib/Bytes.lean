import Mathlib.Data.List.Basic
import Mathlib.Tactic

/-!
# Byte strings

Machine-independent facts about byte buffers: bytes split into two nibbles or joined
into a big-endian pair, and a bounded buffer written left to right.
-/
namespace Coaptic.Bytes

open List

/-! ### Nibbles and big-endian pairs -/

section

variable (high low : UInt8)

/-- Two nibbles packed into one byte, high nibble first. -/
def pack : UInt8 := (high <<< 4) ||| low

theorem toNat_shiftRight_four (byte : UInt8) : (byte >>> 4).toNat = byte.toNat / 16 := by
  simp [UInt8.toNat_shiftRight, Nat.shiftRight_eq_div_pow]

theorem toNat_and_fifteen (byte : UInt8) : (byte &&& 0x0f).toNat = byte.toNat % 16 := by
  rw [UInt8.toNat_and]
  exact Nat.and_two_pow_sub_one_eq_mod byte.toNat 4

theorem toNat_pack (highLt : high.toNat < 16) (lowLt : low.toNat < 16) :
    (pack high low).toNat = high.toNat * 16 + low.toNat := by
  have shifted : (high <<< 4).toNat = high.toNat * 2 ^ 4 := by
    rw [UInt8.toNat_shiftLeft]
    simp only [UInt8.reduceToNat, Nat.reduceMod, Nat.shiftLeft_eq, Nat.reducePow]
    omega
  rw [pack, UInt8.toNat_or, shifted, Nat.mul_comm, ← Nat.two_pow_add_eq_or_of_lt lowLt high.toNat]
  omega

/-- The nibbles of a byte put it back together. -/
theorem pack_nibbles (byte : UInt8) : pack (byte >>> 4) (byte &&& 0x0f) = byte := by
  have highLt : (byte >>> 4).toNat < 16 := by
    rw [toNat_shiftRight_four]
    have := byte.toNat_lt
    omega
  have lowLt : (byte &&& 0x0f).toNat < 16 := by
    rw [toNat_and_fifteen]
    omega
  apply UInt8.toNat_inj.mp
  rw [toNat_pack _ _ highLt lowLt, toNat_shiftRight_four, toNat_and_fifteen]
  omega

theorem pack_high (highLt : high.toNat < 16) (lowLt : low.toNat < 16) :
    pack high low >>> 4 = high := by
  apply UInt8.toNat_inj.mp
  rw [toNat_shiftRight_four, toNat_pack _ _ highLt lowLt]
  omega

theorem pack_low (highLt : high.toNat < 16) (lowLt : low.toNat < 16) :
    pack high low &&& 0x0f = low := by
  apply UInt8.toNat_inj.mp
  rw [toNat_and_fifteen, toNat_pack _ _ highLt lowLt]
  omega

def be16 : Nat := high.toNat * 256 + low.toNat

def ofBe16 (n : Nat) : List UInt8 := [UInt8.ofNat (n / 256), UInt8.ofNat (n % 256)]

theorem be16_lt : be16 high low < 65536 := by
  have := high.toNat_lt
  have := low.toNat_lt
  simp only [be16]
  omega

theorem ofBe16_be16 : ofBe16 (be16 high low) = [high, low] := by
  have := low.toNat_lt
  have highPart : be16 high low / 256 = high.toNat := by simp only [be16]; omega
  have lowPart : be16 high low % 256 = low.toNat := by simp only [be16]; omega
  simp [ofBe16, highPart, lowPart]

end

theorem be16_ofBe16 (n : Nat) (bound : n < 65536) :
    be16 (UInt8.ofNat (n / 256)) (UInt8.ofNat (n % 256)) = n := by
  simp only [be16, UInt8.toNat_ofNat']
  omega

/-! ### Reading a byte string at a position -/

theorem drop_eq_cons_iff {α : Type} (xs : List α) (i : Nat) (x : α) (rest : List α) :
    xs.drop i = x :: rest ↔ xs[i]? = some x ∧ rest = xs.drop (i + 1) := by
  constructor
  · intro h
    have found : xs[i]? = some x := by
      rw [← head?_drop, h, head?_cons]
    have tail : xs.drop (i + 1) = rest := by
      rw [← tail_drop, h, tail_cons]
    exact ⟨found, tail.symm⟩
  rintro ⟨found, rfl⟩
  obtain ⟨bound, rfl⟩ := List.getElem?_eq_some_iff.mp found
  exact List.drop_eq_getElem_cons bound

theorem drop_of_append {α : Type} {xs front back : List α} {i : Nat}
    (h : xs.drop i = front ++ back) : xs.drop (i + front.length) = back := by
  rw [← drop_drop, h, drop_left]

/-! ### Writing into a buffer -/

variable {α : Type}

section

variable (buf : List α) (i : Nat) (xs : List α)

/-- Overwrite the elements from position `i` with `xs`, as `copy_from_slice` does on the
range `i .. i + xs.length`. -/
def writeAt : List α :=
  buf.take i ++ xs ++ buf.drop (i + xs.length)

theorem length_writeAt (fits : i + xs.length ≤ buf.length) :
    (writeAt buf i xs).length = buf.length := by
  simp only [writeAt, length_append, length_take, length_drop]
  omega

theorem getElem?_writeAt (fits : i + xs.length ≤ buf.length) (j : Nat) :
    (writeAt buf i xs)[j]? = if i ≤ j ∧ j < i + xs.length then xs[j - i]? else buf[j]? := by
  have front : (buf.take i).length = i := by rw [length_take]; omega
  rw [writeAt, append_assoc]
  by_cases before : j < i
  · rw [if_neg (by omega), getElem?_append_left (by omega), getElem?_take_of_lt before]
  rw [getElem?_append_right (by omega), front]
  by_cases inside : j < i + xs.length
  · rw [if_pos ⟨by omega, inside⟩, getElem?_append_left (by omega)]
  rw [if_neg (by omega), getElem?_append_right (by omega), getElem?_drop]
  congr 1
  omega

end

/-- A buffer filled up to position `front.length` takes the next write at its end. -/
theorem writeAt_append (front xs rest : List α) :
    writeAt (front ++ rest) front.length xs = front ++ xs ++ rest.drop xs.length := by
  simp only [writeAt, take_left]
  rw [← drop_drop, drop_left]

/-- A write that starts where the one before it ended extends it. -/
theorem writeAt_writeAt (buf : List α) (i j : Nat) (xs ys : List α) (inside : i ≤ buf.length)
    (next : j = i + xs.length) : writeAt (writeAt buf i xs) j ys = writeAt buf i (xs ++ ys) := by
  have position : j = (buf.take i ++ xs).length := by
    rw [next, length_append, length_take, Nat.min_eq_left inside]
  conv_lhs => rw [position, writeAt.eq_def buf i xs, writeAt_append]
  rw [drop_drop, writeAt, length_append]
  simp only [append_assoc, Nat.add_assoc]

/-- Writing right-aligned into a field of `n` fillers pads on the left. -/
theorem writeAt_leftpad (front back xs : List α) (n : Nat) (fill : α) (fits : xs.length ≤ n) :
    writeAt (front ++ (replicate n fill ++ back)) (front.length + n - xs.length) xs =
      front ++ (leftpad n fill xs ++ back) := by
  have parts : front ++ (replicate n fill ++ back) =
      (front ++ replicate (n - xs.length) fill) ++ (replicate xs.length fill ++ back) := by
    rw [append_assoc, ← append_assoc (replicate _ _) (replicate _ _),
      replicate_append_replicate, Nat.sub_add_cancel fits]
  have position : front.length + n - xs.length =
      (front ++ replicate (n - xs.length) fill).length := by
    rw [length_append, length_replicate]
    omega
  rw [parts, position, writeAt_append, drop_left' length_replicate]
  simp only [leftpad, append_assoc]

/-- Left padding to one width keeps strings of equal length apart. -/
theorem leftpad_inj {n : Nat} {fill : α} {xs ys : List α} (length : xs.length = ys.length)
    (h : leftpad n fill xs = leftpad n fill ys) : xs = ys := by
  simp only [leftpad, length] at h
  exact append_cancel_left h

/-! ### Masks -/

/-- Masking with one mask keeps strings of its length apart. -/
theorem zipWith_xor_inj {mask xs ys : List UInt8} (left : xs.length = mask.length)
    (right : ys.length = mask.length)
    (h : zipWith (· ^^^ ·) xs mask = zipWith (· ^^^ ·) ys mask) : xs = ys := by
  induction mask generalizing xs ys with
  | nil => rw [length_eq_zero_iff.mp left, length_eq_zero_iff.mp right]
  | cons m mask ih =>
  obtain ⟨x, xs, rfl⟩ := exists_cons_of_length_eq_add_one left
  obtain ⟨y, ys, rfl⟩ := exists_cons_of_length_eq_add_one right
  simp only [zipWith_cons_cons, cons.injEq] at h
  rw [UInt8.xor_left_inj m |>.mp h.1, ih (Nat.succ.inj left) (Nat.succ.inj right) h.2]

end Coaptic.Bytes
