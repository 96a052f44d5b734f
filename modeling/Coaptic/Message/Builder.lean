import Coaptic.Lib.StableSort
import Coaptic.Message.Decode

/-!
# Option lists

The fixed-capacity option list that keeps its options in number order, and the look-up of one
option of a decoded message.
-/
namespace Coaptic.Codec

open List

/-- Option list of at most `n` options. -/
structure OptionsBuilder (n : Nat) where
  items : List Opt
  length_le : items.length ≤ n
deriving DecidableEq

namespace OptionsBuilder

variable {n : Nat}

def new : OptionsBuilder n := ⟨[], Nat.zero_le _⟩

/-- The options that `opt` goes in front of: those at the end with a larger number. -/
def larger (items : List Opt) (opt : Opt) : List Opt :=
  (items.reverse.takeWhile fun item => opt.number < item.number).reverse

theorem length_larger (items : List Opt) (opt : Opt) :
    (larger items opt).length ≤ items.length := by
  rw [larger, length_reverse]
  simpa using (takeWhile_sublist (l := items.reverse) _).length_le

/-- Insert `opt` so numbers stay non-decreasing; `none` when the list is full. -/
def push (builder : OptionsBuilder n) (opt : Opt) : Option (OptionsBuilder n) :=
  if h : builder.items.length < n then
    let after := larger builder.items opt
    some ⟨builder.items.take (builder.items.length - after.length) ++ opt :: after, by
      have := length_larger builder.items opt
      simp only [List.length_append, List.length_take, List.length_cons, after]
      omega⟩
  else none

def pushAll (builder : OptionsBuilder n) (opts : List Opt) : Option (OptionsBuilder n) :=
  opts.foldlM push builder

/-! ### The list is the stable sort of what was pushed -/

open StableSort

def key (opt : Opt) : Nat := opt.number.toNat

/-- The split of the list at which `opt` is inserted. -/
theorem split_larger {items : List Opt} (sorted : Sorted key items) (opt : Opt) :
    ∃ before, items = before ++ larger items opt ∧
      items.take (items.length - (larger items opt).length) = before ∧
      (∀ item ∈ before, key item ≤ key opt) ∧ ∀ item ∈ larger items opt, key opt < key item := by
  have whole : items = (items.reverse.dropWhile fun item => opt.number < item.number).reverse ++
      larger items opt := by
    rw [larger, ← reverse_append, takeWhile_append_dropWhile, reverse_reverse]
  have above : ∀ item ∈ larger items opt, key opt < key item := by
    intro item member
    have := all_eq_true.mp all_takeWhile item (mem_reverse.mp member)
    simpa [key, UInt16.lt_iff_toNat_lt] using this
  generalize rest : items.reverse.dropWhile (fun item => opt.number < item.number) = dropped
    at whole
  refine ⟨dropped.reverse, whole, ?_, ?_, above⟩
  · have length := congrArg length whole
    rw [length_append] at length
    rw [show items.length - (larger items opt).length = dropped.reverse.length by omega]
    conv_lhs => rw [whole]
    exact take_left
  -- the first option kept back is not larger, and the ones before it are no larger than it
  cases dropped with
  | nil => simp
  | cons last earlier =>
  have kept : key last ≤ key opt := by
    have head := head?_dropWhile_not (fun item : Opt => decide (opt.number < item.number))
      items.reverse
    rw [rest] at head
    simpa [key, UInt16.le_iff_toNat_le] using head
  intro item member
  rw [reverse_cons, mem_append, mem_singleton] at member
  rcases member with before | rfl
  · have ordered : Sorted key (last :: earlier).reverse := by
      rw [whole] at sorted
      exact (pairwise_append.mp sorted).1
    rw [reverse_cons] at ordered
    have := (pairwise_append.mp ordered).2.2 item before last (mem_singleton.mpr rfl)
    omega
  · exact kept

variable {builder result : OptionsBuilder n} {opts : List Opt}

/-- Pushing keeps the order and puts the option last among those of its number. -/
theorem push_spec {opt : Opt} (sorted : Sorted key builder.items)
    (h : builder.push opt = some result) :
    Sorted key result.items ∧ result.items.length = builder.items.length + 1 ∧
      ∀ k, level key k result.items = level key k (builder.items ++ [opt]) := by
  simp only [push] at h
  split at h
  · cases h
    obtain ⟨before, whole, front, below, above⟩ := split_larger sorted opt
    simp only [front]
    generalize larger builder.items opt = after at *
    rw [whole] at sorted ⊢
    obtain ⟨sortedBefore, sortedAfter, across⟩ := pairwise_append.mp sorted
    refine ⟨pairwise_append.mpr ⟨sortedBefore, pairwise_cons.mpr ⟨?_, sortedAfter⟩, ?_⟩,
      ?_, ?_⟩
    · intro item member
      exact (above item member).le
    · intro item member other later
      rcases mem_cons.mp later with rfl | later
      · exact below item member
      · exact across item member other later
    · simp only [length_append, length_cons]
      omega
    intro k
    rw [level_append, level_cons, level_append, level_append, level_cons, level_nil]
    split
    next same =>
      -- no option after the new one has its number
      have none : level key k after = [] := by
        rw [level, filter_eq_nil_iff]
        intro item member
        have := above item member
        simp only [decide_eq_true_eq]
        omega
      rw [none, append_nil]
    · rw [append_nil]
  · cases h

theorem pushAll_spec (sorted : Sorted key builder.items) (h : builder.pushAll opts = some result) :
    Sorted key result.items ∧ result.items.length = builder.items.length + opts.length ∧
      ∀ k, level key k result.items = level key k (builder.items ++ opts) := by
  induction opts generalizing builder with
  | nil =>
    cases h
    exact ⟨sorted, rfl, fun k => by rw [append_nil]⟩
  | cons opt opts ih =>
  rw [pushAll, foldlM_cons] at h
  obtain ⟨next, pushed, h⟩ := Option.bind_eq_some_iff.mp h
  obtain ⟨sortedNext, lengthNext, levelNext⟩ := push_spec sorted pushed
  obtain ⟨sortedResult, lengthResult, levelResult⟩ := ih sortedNext h
  refine ⟨sortedResult, by rw [lengthResult, lengthNext, length_cons]; omega, ?_⟩
  intro k
  rw [levelResult, level_append, levelNext, ← level_append, append_assoc]
  rfl

theorem pushAll_new (h : (new : OptionsBuilder n).pushAll opts = some result) :
    result.items = sortBy key opts := by
  have start : Sorted key (new : OptionsBuilder n).items := List.Pairwise.nil
  obtain ⟨sorted, -, levels⟩ := pushAll_spec start h
  exact eq_sortBy sorted levels

/-- An option list has room for as many options as its capacity. -/
theorem pushAll_isSome (builder : OptionsBuilder n) (opts : List Opt)
    (room : builder.items.length + opts.length ≤ n) :
    ∃ result, builder.pushAll opts = some result := by
  induction opts generalizing builder with
  | nil => exact ⟨builder, rfl⟩
  | cons opt rest ih =>
  rw [length_cons] at room
  have inside : builder.items.length < n := by omega
  have larger := length_larger builder.items opt
  simp only [pushAll, foldlM_cons, push, dif_pos inside]
  apply ih
  simp only [length_append, length_take, length_cons]
  omega

end OptionsBuilder

def ParsedMessage.getOption {maxLen : Nat} (msg : ParsedMessage maxLen) (number : OptionNumber) :
    Option Opt :=
  msg.options.find? (·.number == number)

end Coaptic.Codec
