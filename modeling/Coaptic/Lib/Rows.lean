import Coaptic.Lib.Slots

/-!
# Rows by slot

A table of optional rows as a partial function of the slot: what writing, clearing and rewriting
rows does to it, and to the number of rows.
-/
namespace Coaptic.Slots

open List

variable {α κ : Type} {key : α → κ} {slots after : List (Option α)} {i j : Nat} {a b : α}

def row (slots : List (Option α)) (i : Nat) : Option α := slots[i]?.join

theorem row_eq_some : row slots i = some a ↔ slots[i]? = some (some a) := by
  rw [row, Option.join_eq_some_iff]

theorem lt_of_row (held : row slots i = some a) : i < slots.length :=
  (List.getElem?_eq_some_iff.mp (row_eq_some.mp held)).1

theorem mem_iff_row : some a ∈ slots ↔ ∃ i, row slots i = some a := by
  simp only [row_eq_some, mem_iff_getElem?]

@[simp] theorem row_replicate (n i : Nat) : row (List.replicate n (none : Option α)) i = none := by
  rw [row, getElem?_replicate]
  split <;> rfl

theorem row_set (inside : i < slots.length) (value : Option α) :
    row (slots.set i value) j = if i = j then value else row slots j := by
  rw [row, getElem?_set]
  split
  · rfl
  · rfl

/-- A row of the table is the one written or was there before. -/
theorem of_row_set {value : Option α} (held : row (slots.set i value) j = some a) :
    (i = j ∧ value = some a) ∨ row slots j = some a :=
  (of_set (row_eq_some.mp held)).imp_right fun old => row_eq_some.mpr old.2

/-- Some row still has the property when a row that has it is replaced by one that has it. -/
theorem exists_row_set {P : α → Prop} (inside : i < slots.length)
    (some_ : ∃ j a, row slots j = some a ∧ P a) (kept : ∀ a, row slots i = some a → P a → P b) :
    ∃ j a, row (slots.set i (some b)) j = some a ∧ P a := by
  obtain ⟨j, a, held, holds⟩ := some_
  by_cases here : i = j
  · subst here
    exact ⟨i, b, by rw [row_set inside, if_pos rfl], kept a held holds⟩
  · exact ⟨j, a, by rw [row_set inside, if_neg here, held], holds⟩

theorem set_row (held : row slots i = some a) : slots.set i (some a) = slots := by
  obtain ⟨inside, here⟩ := List.getElem?_eq_some_iff.mp (row_eq_some.mp held)
  rw [← here, List.set_getElem_self]

/-- A table without rows. -/
theorem distinct_of_none (none_ : ∀ i, row slots i = none) : Distinct key slots := by
  intro i j a b held
  rw [← row_eq_some, none_] at held
  cases held

theorem find_of_none [DecidableEq κ] (none_ : ∀ i, row slots i = none) (k : κ) :
    find key slots k = none := by
  rw [find_eq_none_iff]
  intro b mem
  obtain ⟨i, held⟩ := mem_iff_row.mp mem
  rw [none_] at held
  cases held

variable {β : Type} {test : α → Bool} {f : α → Option (β × α)}

theorem row_map {f : Option α → Option β} (empty : f none = none) (slots : List (Option α))
    (i : Nat) : row (slots.map f) i = f (row slots i) := by
  rw [row, row, getElem?_map]
  cases slots[i]? with
  | none => exact empty.symm
  | some slot => rfl

theorem row_map_bind (f : α → Option β) (slots : List (Option α)) (i : Nat) :
    row (slots.map (·.bind f)) i = (row slots i).bind f := row_map rfl slots i

theorem row_map_map (f : α → β) (slots : List (Option α)) (i : Nat) :
    row (slots.map (·.map f)) i = (row slots i).map f := row_map rfl slots i

theorem row_map_none (slots : List (Option α)) (i : Nat) :
    row (slots.map fun _ => (none : Option α)) i = none := row_map rfl slots i

theorem any_row : slots.any (·.any test) = true ↔ ∃ i a, row slots i = some a ∧ test a = true := by
  rw [any_eq_true]
  constructor
  · rintro ⟨slot, member, passes⟩
    rw [Option.any_eq_true] at passes
    obtain ⟨a, rfl, passes⟩ := passes
    obtain ⟨i, held⟩ := mem_iff_row.mp member
    exact ⟨i, a, held, passes⟩
  · rintro ⟨i, a, held, passes⟩
    exact ⟨some a, mem_iff_row.mpr ⟨i, held⟩, passes⟩

theorem findIdx_row (found : slots.findIdx? (·.any test) = some i) :
    ∃ a, row slots i = some a ∧ test a = true := by
  obtain ⟨a, here, passes, -⟩ := findIdx_any found
  exact ⟨a, row_eq_some.mpr here, passes⟩

theorem findIdx_row_free (found : slots.findIdx? (·.isNone) = some i) :
    row slots i = none ∧ i < slots.length := by
  obtain ⟨here, inside⟩ := findIdx_free found
  rw [row, here]
  exact ⟨rfl, inside⟩

theorem findIdx_free_isSome (held : row slots i = none) (inside : i < slots.length) :
    (slots.findIdx? (·.isNone)).isSome = true := by
  have free : slots[i]? = some none := by
    rw [row, getElem?_eq_getElem inside] at held
    rw [getElem?_eq_getElem inside]
    exact congrArg some held
  exact Option.isSome_iff_exists.mpr (findIdx_of_none (mem_of_getElem? free))

theorem amend_row {result : β} (h : amend f slots = some (result, after)) :
    ∃ i a a', row slots i = some a ∧ f a = some (result, a') ∧ after = slots.set i (some a') := by
  obtain ⟨i, a, a', held, answer, same⟩ := amend_eq_some h
  exact ⟨i, a, a', row_eq_some.mpr held, answer, same⟩

theorem amend_none (h : amend f slots = none) (held : row slots i = some a) : f a = none :=
  amend_eq_none.mp h a (mem_iff_row.mpr ⟨i, held⟩)

/-! ### Counting -/

@[simp] theorem count_replicate (n : Nat) : count (List.replicate n (none : Option α)) = 0 := by
  simp [count, countP_replicate]

theorem count_map_bind_le (f : α → Option α) (slots : List (Option α)) :
    count (slots.map (·.bind f)) ≤ count slots := by
  simp only [count, countP_map]
  refine countP_mono_left ?_
  intro slot _ some_
  cases slot with
  | none => cases some_
  | some a => rfl

@[simp] theorem count_map_map (f : α → α) (slots : List (Option α)) :
    count (slots.map (·.map f)) = count slots := by
  simp only [count, countP_map]
  congr 1
  funext slot
  cases slot <;> rfl

/-- One slot is counted by what it holds. -/
theorem count_set (inside : i < slots.length) (value : Option α) :
    count (slots.set i value) + (if (row slots i).isSome then 1 else 0) =
      count slots + if value.isSome then 1 else 0 := by
  induction slots generalizing i with
  | nil => cases inside
  | cons slot rest ih =>
  cases i with
  | zero =>
    have here : row (slot :: rest) 0 = slot := rfl
    rw [here]
    simp only [set_cons_zero, count, countP_cons]
    omega
  | succ i =>
  have there : row (slot :: rest) (i + 1) = row rest i := rfl
  have later := ih (Nat.lt_of_succ_lt_succ inside)
  rw [there]
  simp only [count] at later
  simp only [set_cons_succ, count, countP_cons]
  omega

theorem count_fill (free : row slots i = none) (inside : i < slots.length) :
    count (slots.set i (some a)) = count slots + 1 := by
  have counted := count_set inside (some a)
  simpa [free] using counted

theorem count_replace (held : row slots i = some b) :
    count (slots.set i (some a)) = count slots := by
  have counted := count_set (lt_of_row held) (some a)
  simpa [held] using counted

theorem count_clear (held : row slots i = some a) : count (slots.set i none) + 1 = count slots := by
  have counted := count_set (lt_of_row held) none
  simpa [held] using counted

theorem count_clear_le (slots : List (Option α)) (i : Nat) :
    count (slots.set i none) ≤ count slots := by
  by_cases inside : i < slots.length
  · have counted := count_set inside none
    simp only [Option.isSome_none, Bool.false_eq_true, if_false, Nat.add_zero] at counted
    omega
  · rw [set_eq_of_length_le (Nat.not_lt.mp inside)]

/-- Tables that are filled in the same places. -/
theorem count_congr {others : List (Option β)} (length : others.length = slots.length)
    (same : ∀ i, (row others i).isSome = (row slots i).isSome) : count others = count slots := by
  induction slots generalizing others with
  | nil => rw [length_eq_zero_iff.mp length]; rfl
  | cons slot rest ih =>
  cases others with
  | nil => cases length
  | cons other others =>
  have here : other.isSome = slot.isSome := same 0
  have there := ih (Nat.succ.inj length) fun i => same (i + 1)
  simp only [count] at there
  simp only [count, countP_cons, there, here]

theorem findIdx_of_count_lt (room : count slots < slots.length) :
    ∃ i, slots.findIdx? (·.isNone) = some i := by
  by_contra none_free
  have all : count slots = slots.length := by
    rw [count, countP_eq_length]
    intro slot member
    cases slot with
    | none => exact absurd (findIdx_of_none member) none_free
    | some a => rfl
  omega

end Coaptic.Slots
