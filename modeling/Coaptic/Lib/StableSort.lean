import Mathlib.Data.List.Sort
import Mathlib.Tactic

/-!
# Stable sorting

Sorting by a key is determined by two facts: the keys are in order, and the elements of each
key keep their order. A list built in another way is recognised as the stable sort by them.
-/
namespace Coaptic.StableSort

open List

variable {α κ : Type} [LinearOrder κ] (key : α → κ)

/-- The elements in the order of their keys, elements of one key as they were. -/
def sortBy (xs : List α) : List α := xs.insertionSort fun a b => key a ≤ key b

/-- The keys do not decrease. -/
def Sorted (xs : List α) : Prop := xs.Pairwise fun a b => key a ≤ key b

def level (k : κ) (xs : List α) : List α := xs.filter fun a => decide (key a = k)

variable {key}

@[simp] theorem level_nil (k : κ) : level key k [] = [] := rfl

theorem level_cons (k : κ) (a : α) (xs : List α) :
    level key k (a :: xs) = if key a = k then a :: level key k xs else level key k xs := by
  simp [level, filter_cons]

@[simp] theorem level_append (k : κ) (xs ys : List α) :
    level key k (xs ++ ys) = level key k xs ++ level key k ys := List.filter_append ..

variable {k : κ} {a : α} {xs ys : List α}

theorem mem_level : a ∈ level key k xs ↔ a ∈ xs ∧ key a = k := by
  simp [level]

/-- A test that only looks at the key keeps a level whole or drops it. -/
theorem level_filter {test : α → Bool} {keep : Bool} (same : ∀ a, key a = k → test a = keep)
    (xs : List α) : level key k (xs.filter test) = if keep then level key k xs else [] := by
  simp only [level, filter_filter]
  split
  next kept =>
    apply filter_congr
    intro a _
    by_cases found : key a = k
    · simp [found, same a found, kept]
    · simp [found]
  next dropped =>
  rw [filter_eq_nil_iff]
  rintro a - both
  simp only [Bool.and_eq_true, decide_eq_true_eq] at both
  rw [same a both.1] at both
  exact dropped both.2

theorem level_map (k : κ) {f : α → α} (keeps : ∀ a, key (f a) = key a) (xs : List α) :
    level key k (xs.map f) = (level key k xs).map f := by
  induction xs with
  | nil => rfl
  | cons a xs ih =>
  rw [map_cons, level_cons, level_cons, keeps, ih]
  split
  · rfl
  · rfl

theorem sorted_sortBy (xs : List α) : Sorted key (sortBy key xs) := by
  have total : Std.Total fun a b : α => key a ≤ key b := ⟨fun a b => le_total (key a) (key b)⟩
  have trans : IsTrans α fun a b : α => key a ≤ key b := ⟨fun _ _ _ h h' => le_trans h h'⟩
  exact pairwise_insertionSort _ xs

theorem length_sortBy (xs : List α) : (sortBy key xs).length = xs.length :=
  (perm_insertionSort _ xs).length_eq

theorem mem_sortBy : a ∈ sortBy key xs ↔ a ∈ xs :=
  (perm_insertionSort _ xs).mem_iff

theorem level_orderedInsert (k : κ) (a : α) (xs : List α) :
    level key k (xs.orderedInsert (fun a b => key a ≤ key b) a) = level key k (a :: xs) := by
  induction xs with
  | nil => rfl
  | cons b xs ih =>
  rw [orderedInsert_cons]
  split
  · rfl
  next above =>
  -- the two keys differ, so at most one of the two elements is of the level
  rw [level_cons, ih, level_cons, level_cons, level_cons]
  by_cases first : key b = k
  · rw [if_pos first, if_neg, if_neg, if_pos first]
    all_goals
      rintro rfl
      exact above (le_of_eq first.symm)
  · rw [if_neg first, if_neg first]

theorem level_sortBy (k : κ) (xs : List α) : level key k (sortBy key xs) = level key k xs := by
  induction xs with
  | nil => rfl
  | cons a xs ih =>
  have step : sortBy key (a :: xs) =
      (sortBy key xs).orderedInsert (fun a b => key a ≤ key b) a := rfl
  rw [step, level_orderedInsert, level_cons, level_cons, ih]

/-- A sorted list is determined by its levels. -/
theorem eq_of_level (hx : Sorted key xs) (hy : Sorted key ys)
    (same : ∀ k, level key k xs = level key k ys) : xs = ys := by
  induction xs generalizing ys with
  | nil =>
    cases ys with
    | nil => rfl
    | cons b ys =>
    have := same (key b)
    rw [level_cons, if_pos rfl] at this
    cases this
  | cons a xs ih =>
  cases ys with
  | nil =>
    have := same (key a)
    rw [level_cons, if_pos rfl] at this
    cases this
  | cons b ys =>
  -- each head's key occurs in the other list, whose head has the least key
  have least {a b : α} {xs ys : List α} (sorted : Sorted key (b :: ys))
      (same : level key (key a) (a :: xs) = level key (key a) (b :: ys)) : key b ≤ key a := by
    have member : a ∈ level key (key a) (b :: ys) := by
      rw [← same]
      exact mem_level.mpr ⟨mem_cons_self .., rfl⟩
    rcases mem_cons.mp (mem_level.mp member).1 with rfl | later
    · exact le_refl _
    · exact (pairwise_cons.mp sorted).1 a later
  have heads : key a = key b := le_antisymm (least hx (same (key b)).symm) (least hy (same _))
  have first := same (key a)
  rw [level_cons, level_cons, if_pos rfl, if_pos heads.symm, cons.injEq] at first
  obtain ⟨rfl, -⟩ := first
  rw [ih hx.of_cons hy.of_cons]
  intro k
  have tails := same k
  rw [level_cons, level_cons] at tails
  split at tails
  · exact (cons.inj tails).2
  · exact tails

theorem eq_sortBy (sorted : Sorted key ys) (same : ∀ k, level key k ys = level key k xs) :
    ys = sortBy key xs :=
  eq_of_level sorted (sorted_sortBy xs) fun k => (same k).trans (level_sortBy k xs).symm

theorem sortBy_congr (same : ∀ k, level key k xs = level key k ys) :
    sortBy key xs = sortBy key ys :=
  eq_sortBy (sorted_sortBy xs) fun k => (level_sortBy k xs).trans (same k)

end Coaptic.StableSort
