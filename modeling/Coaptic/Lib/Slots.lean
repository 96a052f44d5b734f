import Mathlib.Tactic

/-!
# Tables of optional rows

A fixed number of slots, each free or holding a row, no two rows with the same key. Such a
table is a finite map: a look-up by key is a membership, and writing or clearing one slot
changes the map at one key.
-/
namespace Coaptic.Slots

open List

variable {α κ : Type} (key : α → κ)

/-- No two slots hold rows of one key. -/
def Distinct (slots : List (Option α)) : Prop :=
  ∀ (i j : Nat) (a b : α), slots[i]? = some (some a) → slots[j]? = some (some b) → key a = key b → i = j

variable {key} {slots : List (Option α)} {i : Nat} {k : κ}

theorem distinct_replicate_none (n : Nat) : Distinct key (List.replicate n none) := by
  intro i j a b hi
  have := mem_of_getElem? hi
  simp at this

/-- A row may be written where its key's row is, or anywhere when there is none. -/
def Accepts (key : α → κ) (slots : List (Option α)) (i : Nat) (row : α) : Prop :=
  ∀ (j : Nat) (a : α), slots[j]? = some (some a) → key a = key row → j = i

variable {a row : α} {β : Type} {keys : Finset κ} {f : α → Option β} {b : β}

/-- A row after a write is the one written, or stands in another slot and was there before. -/
theorem of_set {slot : Option α} {j : Nat} (held : (slots.set i slot)[j]? = some (some a)) :
    (i = j ∧ slot = some a) ∨ (i ≠ j ∧ slots[j]? = some (some a)) := by
  rw [getElem?_set] at held
  split at held
  next here =>
    split at held
    · exact .inl ⟨here, Option.some.inj held⟩
    · cases held
  next there => exact .inr ⟨there, held⟩

theorem Distinct.set (distinct : Distinct key slots) (accepts : Accepts key slots i row) :
    Distinct key (slots.set i (some row)) := by
  intro m n a b hm hn same
  obtain ⟨rfl, ⟨⟩⟩ | ⟨-, hm⟩ := of_set hm <;> obtain ⟨rfl, ⟨⟩⟩ | ⟨-, hn⟩ := of_set hn
  · rfl
  · exact (accepts n b hn same.symm).symm
  · exact accepts m a hm same
  · exact distinct m n a b hm hn same

theorem Distinct.clear (distinct : Distinct key slots) (i : Nat) :
    Distinct key (slots.set i none) := by
  intro m n a b hm hn same
  obtain ⟨-, ⟨⟩⟩ | ⟨-, hm⟩ := of_set hm
  obtain ⟨-, ⟨⟩⟩ | ⟨-, hn⟩ := of_set hn
  exact distinct m n a b hm hn same

/-! ### Where a row goes -/

theorem findIdx_any {test : α → Bool} (h : slots.findIdx? (·.any test) = some i) :
    ∃ a, slots[i]? = some (some a) ∧ test a = true ∧ i < slots.length := by
  obtain ⟨inside, holds, -⟩ := findIdx?_eq_some_iff_getElem.mp h
  rw [Option.any_eq_true] at holds
  obtain ⟨a, here, passes⟩ := holds
  exact ⟨a, by rw [getElem?_eq_getElem inside, here], passes, inside⟩

theorem findIdx_free (h : slots.findIdx? (·.isNone) = some i) :
    slots[i]? = some none ∧ i < slots.length := by
  obtain ⟨inside, holds, -⟩ := findIdx?_eq_some_iff_getElem.mp h
  have here := getElem?_eq_getElem inside
  generalize slots[i] = slot at here holds
  cases slot with
  | none => exact ⟨here, inside⟩
  | some row => cases holds

theorem vacant_of_map (free : (slots.map Option.isSome)[i]? = some false) :
    slots[i]? = some none := by
  rw [getElem?_map, Option.map_eq_some_iff] at free
  obtain ⟨slot, here, absent⟩ := free
  rw [here, Option.not_isSome_iff_eq_none.mp (ne_true_of_eq_false absent)]

theorem findIdx_of_none (free : none ∈ slots) : ∃ i, slots.findIdx? (·.isNone) = some i := by
  rw [← Option.isSome_iff_exists, findIdx?_isSome, any_eq_true]
  exact ⟨none, free, rfl⟩

/-! ### The first row that answers -/

def count (slots : List (Option α)) : Nat := slots.countP (·.isSome)

/-- Let the rows answer in turn; the first that does may change. -/
def amend {β : Type} (f : α → Option (β × α)) : List (Option α) → Option (β × List (Option α))
  | [] => none
  | none :: rest => (amend f rest).map fun result => (result.1, none :: result.2)
  | some a :: rest =>
    match f a with
    | some (b, a') => some (b, some a' :: rest)
    | none => (amend f rest).map fun result => (result.1, some a :: result.2)

theorem amend_eq_none {f : α → Option (β × α)} :
    amend f slots = none ↔ ∀ a, some a ∈ slots → f a = none := by
  induction slots with
  | nil => simp [amend]
  | cons slot rest ih =>
  cases slot with
  | none => simp [amend, ih]
  | some a =>
  cases answer : f a with
  | none => simp [amend, answer, ih]
  | some result => simp [amend, answer]

theorem amend_eq_some {f : α → Option (β × α)} {after : List (Option α)}
    (h : amend f slots = some (b, after)) :
    ∃ i a a', slots[i]? = some (some a) ∧ f a = some (b, a') ∧ after = slots.set i (some a') := by
  induction slots generalizing after with
  | nil => cases h
  | cons slot rest ih =>
  have later (tail : amend f rest = some (b, after.tail) ∧ after = slot :: after.tail) :
      ∃ i a a', (slot :: rest)[i]? = some (some a) ∧ f a = some (b, a') ∧
        after = (slot :: rest).set i (some a') := by
    obtain ⟨i, a, a', held, answer, result⟩ := ih tail.1
    exact ⟨i + 1, a, a', held, answer, by rw [tail.2, result]; rfl⟩
  cases slot with
  | none =>
    simp only [amend, Option.map_eq_some_iff, Prod.mk.injEq, Prod.exists] at h
    obtain ⟨_, tail, answered, rfl, rfl⟩ := h
    exact later ⟨answered, rfl⟩
  | some a =>
  cases answer : f a with
  | some result =>
    simp only [amend, answer, Option.some.injEq, Prod.mk.injEq] at h
    obtain ⟨rfl, rfl⟩ := h
    exact ⟨0, a, result.2, rfl, by rw [answer], rfl⟩
  | none =>
  simp only [amend, answer, Option.map_eq_some_iff, Prod.mk.injEq, Prod.exists] at h
  obtain ⟨_, tail, answered, rfl, rfl⟩ := h
  exact later ⟨answered, rfl⟩

theorem Distinct.tail {slot : Option α} (distinct : Distinct key (slot :: slots)) :
    Distinct key slots := by
  intro m n a b hm hn same
  have := distinct (m + 1) (n + 1) a b (by simpa using hm) (by simpa using hn) same
  omega

/-! ### Look-up -/

section

variable {test : α → Bool}

theorem join_find_eq_none : (slots.find? (·.any test)).join = none ↔
    ∀ a, some a ∈ slots → test a = false := by
  induction slots with
  | nil => simp
  | cons slot rest ih =>
  cases slot with
  | none => simpa using ih
  | some a => cases passes : test a <;> simp [passes, ih]

theorem of_join_find (h : (slots.find? (·.any test)).join = some a) :
    some a ∈ slots ∧ test a = true := by
  rw [Option.join_eq_some_iff] at h
  have holds := find?_some h
  exact ⟨mem_of_find?_eq_some h, by simpa using holds⟩

end

variable [DecidableEq κ]

def find (key : α → κ) (slots : List (Option α)) (k : κ) : Option α :=
  (slots.find? fun slot => slot.any fun row => key row = k).join

theorem find_eq_none_iff : find key slots k = none ↔ ∀ a, some a ∈ slots → key a ≠ k := by
  simp only [find, join_find_eq_none, decide_eq_false_iff_not, ne_eq]

theorem mem_of_find (h : find key slots k = some a) : some a ∈ slots ∧ key a = k := by
  simpa using of_join_find h

/-- A write to a slot that has no row of the key, before or after, leaves what the key finds. -/
theorem find_set_of_ne {new : Option α} (before : ∀ a, slots[i]? = some (some a) → key a ≠ k)
    (after : ∀ a, new = some a → key a ≠ k) : find key (slots.set i new) k = find key slots k := by
  induction slots generalizing i with
  | nil => rfl
  | cons slot rest ih =>
  cases i with
  | succ i =>
    have rest := ih before
    simp only [find, set_cons_succ, find?_cons] at rest ⊢
    split
    · rfl
    · exact rest
  | zero =>
  have skips (slot : Option α) (h : ∀ a, slot = some a → key a ≠ k) :
      find key (slot :: rest) k = find key rest k := by
    cases slot with
    | none => rfl
    | some a => simp [find, h a rfl]
  rw [set_cons_zero, skips new after, skips slot fun a here => before a (by rw [here]; rfl)]

/-- A row is written, which changes the map at its key. -/
structure Wrote (key : α → κ) (slots : List (Option α)) (i : Nat) (row : α) : Prop where
  distinct : Distinct key (slots.set i (some row))
  find (k : κ) : Slots.find key (slots.set i (some row)) k =
    if key row = k then some row else Slots.find key slots k

section

variable (distinct : Distinct key slots)
include distinct

/-- In a table without duplicates a look-up finds the row there is. -/
theorem Distinct.find_eq_some_iff : find key slots k = some a ↔ some a ∈ slots ∧ key a = k := by
  refine ⟨mem_of_find, ?_⟩
  rintro ⟨member, same⟩
  cases found : find key slots k with
  | none => exact absurd same (find_eq_none_iff.mp found a member)
  | some b =>
  obtain ⟨other, same'⟩ := mem_of_find found
  obtain ⟨i, hi⟩ := mem_iff_getElem?.mp member
  obtain ⟨j, hj⟩ := mem_iff_getElem?.mp other
  obtain rfl := distinct i j a b hi hj (same.trans same'.symm)
  rw [hi] at hj
  cases hj
  rfl

/-- The slot of one key is written: the map changes at that key only. -/
theorem Distinct.find_write {new : Option α} {k₀ : κ} (after : Distinct key (slots.set i new))
    (inside : i < slots.length) (keyed : ∀ a, new = some a → key a = k₀)
    (own : ∀ j a, slots[j]? = some (some a) → (key a = k₀ ↔ j = i)) :
    find key (slots.set i new) k = if k₀ = k then new else find key slots k := by
  have membership (a : α) : some a ∈ slots.set i new ↔
      new = some a ∨ (some a ∈ slots ∧ key a ≠ k₀) := by
    constructor
    · intro member
      obtain ⟨j, hj⟩ := mem_iff_getElem?.mp member
      obtain ⟨-, same⟩ | ⟨there, hj⟩ := of_set hj
      · exact .inl same
      · exact .inr ⟨mem_of_getElem? hj, fun same => there ((own j a hj).mp same).symm⟩
    · rintro (rfl | ⟨member, other⟩)
      · exact mem_set inside _
      obtain ⟨j, hj⟩ := mem_iff_getElem?.mp member
      refine mem_iff_getElem?.mpr ⟨j, ?_⟩
      rw [getElem?_set_ne (fun same => other ((own j a hj).mpr same.symm)), hj]
  apply Option.ext
  intro a
  rw [after.find_eq_some_iff, membership]
  split
  next here =>
    constructor
    · rintro ⟨same | ⟨-, other⟩, there⟩
      · exact same
      · exact absurd (there.trans here.symm) other
    · intro same
      exact ⟨.inl same, (keyed a same).trans here⟩
  next there =>
  rw [distinct.find_eq_some_iff]
  constructor
  · rintro ⟨same | ⟨member, -⟩, here⟩
    · exact absurd ((keyed a same).symm.trans here) there
    · exact ⟨member, here⟩
  · rintro ⟨member, here⟩
    exact ⟨.inr ⟨member, fun same => there (same.symm.trans here)⟩, here⟩

/-- Writing a row changes the map at its key, and at the key of the row it replaces. -/
theorem Distinct.find_set (accepts : Accepts key slots i row) (inside : i < slots.length)
    (replaced : ∀ a, slots[i]? = some (some a) → key a = key row) :
    find key (slots.set i (some row)) k = if key row = k then some row else find key slots k := by
  apply distinct.find_write (distinct.set accepts) inside
  · rintro a ⟨⟩
    rfl
  · intro j a hj
    refine ⟨accepts j a hj, ?_⟩
    rintro rfl
    exact replaced a hj

/-- A row replaces the row of its key. -/
theorem Distinct.replace (held : slots[i]? = some (some a)) (same : key a = key row) :
    Wrote key slots i row := by
  have accepts : Accepts key slots i row := fun j b there equal =>
    distinct j i b a there held (equal.trans same.symm)
  refine ⟨distinct.set accepts, fun k => ?_⟩
  refine distinct.find_set accepts (List.getElem?_eq_some_iff.mp held).1 fun b here => ?_
  cases held.symm.trans here
  exact same

/-- The row of a new key goes into a free slot. -/
theorem Distinct.fill (free : slots[i]? = some none) (absent : find key slots (key row) = none) :
    Wrote key slots i row := by
  have accepts : Accepts key slots i row := fun j b there equal =>
    absurd equal (find_eq_none_iff.mp absent b (mem_of_getElem? there))
  refine ⟨distinct.set accepts, fun k => ?_⟩
  refine distinct.find_set accepts (List.getElem?_eq_some_iff.mp free).1 fun b here => ?_
  cases free.symm.trans here

/-- Clearing a slot removes its row. -/
theorem Distinct.find_clear (held : slots[i]? = some (some row)) :
    find key (slots.set i none) k = if key row = k then none else find key slots k := by
  apply distinct.find_write (distinct.clear i) (List.getElem?_eq_some_iff.mp held).1
  · exact nofun
  · intro j a hj
    refine ⟨distinct j i a row hj held, ?_⟩
    rintro rfl
    cases hj.symm.trans held
    rfl

/-! ### One row of a key -/

omit distinct in
theorem findIdx_none : slots.findIdx? (fun slot => slot.any fun row => key row = k) = none ↔
    find key slots k = none := by
  simp [findIdx?_eq_none_iff, find_eq_none_iff, Option.forall]

/-- Where the search for a key stops is where its row is. -/
theorem Distinct.findIdx_some (h : slots.findIdx?
    (fun slot => slot.any fun row => key row = k) = some i) :
    ∃ a, slots[i]? = some (some a) ∧ key a = k ∧ find key slots k = some a ∧ i < slots.length := by
  obtain ⟨a, at_, same, inside⟩ := findIdx_any h
  rw [decide_eq_true_eq] at same
  exact ⟨a, at_, same, distinct.find_eq_some_iff.mpr ⟨mem_of_getElem? at_, same⟩, inside⟩

/-- A row found by a further test is the row of the key, if that passes the test. -/
theorem Distinct.find_test (test : α → Bool) :
    (slots.find? fun slot => slot.any fun row => test row && key row = k).join =
      (find key slots k).filter test := by
  apply Option.ext
  intro a
  rw [Option.filter_eq_some_iff, distinct.find_eq_some_iff]
  constructor
  · intro found
    obtain ⟨member, passes⟩ := of_join_find found
    rw [Bool.and_eq_true, decide_eq_true_eq] at passes
    exact ⟨⟨member, passes.2⟩, passes.1⟩
  rintro ⟨⟨member, same⟩, passes⟩
  generalize found : (slots.find? fun slot => slot.any fun row => test row && key row = k).join = first
  cases first with
  | none =>
    have := join_find_eq_none.mp found a member
    simp [same, passes] at this
  | some b =>
  obtain ⟨other, passes'⟩ := of_join_find found
  rw [Bool.and_eq_true, decide_eq_true_eq] at passes'
  rw [← distinct.find_eq_some_iff.mpr ⟨other, passes'.2⟩]
  exact distinct.find_eq_some_iff.mpr ⟨member, same⟩

end

theorem mem_select :
    b ∈ slots.filterMap (·.bind f) ↔ ∃ (i : Nat) (a : α), slots[i]? = some (some a) ∧ f a = some b := by
  rw [mem_filterMap]
  constructor
  · rintro ⟨slot, member, hit⟩
    obtain ⟨a, rfl, selected⟩ := Option.bind_eq_some_iff.mp hit
    obtain ⟨i, here⟩ := mem_iff_getElem?.mp member
    exact ⟨i, a, here, selected⟩
  · rintro ⟨i, a, here, selected⟩
    exact ⟨some a, mem_of_getElem? here, selected⟩

/-- What is selected when only one row is. -/
theorem select_single (one : ∀ (i j : Nat) (a a' : α) (b b' : β), slots[i]? = some (some a) →
    slots[j]? = some (some a') → f a = some b → f a' = some b' → i = j)
    (here : slots[i]? = some (some a)) (hit : f a = some b) : slots.filterMap (·.bind f) = [b] := by
  induction slots generalizing i with
  | nil => cases here
  | cons slot rest ih =>
  cases i with
  | zero =>
    cases here
    have first : (some a :: rest).filterMap (·.bind f) = b :: rest.filterMap (·.bind f) :=
      filterMap_cons_some hit
    have none_left : rest.filterMap (·.bind f) = [] := by
      rw [eq_nil_iff_forall_not_mem]
      intro b' member
      obtain ⟨j, a', there, hit'⟩ := mem_select.mp member
      cases one 0 (j + 1) a a' b b' rfl there hit hit'
    rw [first, none_left]
  | succ i =>
  have skip : (slot :: rest).filterMap (·.bind f) = rest.filterMap (·.bind f) := by
    refine filterMap_cons_none (Option.eq_none_iff_forall_ne_some.mpr fun b' hit' => ?_)
    obtain ⟨a', rfl, hit'⟩ := Option.bind_eq_some_iff.mp hit'
    cases one 0 (i + 1) a' a b' b rfl here hit' hit
  rw [skip]
  refine ih (fun m n a a' b b' hm hn hit hit' => ?_) here
  have := one (m + 1) (n + 1) a a' b b' hm hn hit hit'
  omega

/-! ### Room -/

/-- The keys of a table that is full are as many as its slots. -/
theorem Distinct.card_le (distinct : Distinct key slots)
    (within : ∀ a, some a ∈ slots → key a ∈ keys) (full : none ∉ slots) :
    slots.length ≤ keys.card := by
  induction slots generalizing keys with
  | nil => exact Nat.zero_le _
  | cons slot slots ih =>
  cases slot with
  | none => simp at full
  | some a =>
  -- The first row's key belongs to no other row, so the rest keeps to the other keys.
  have others : ∀ b, some b ∈ slots → key b ∈ keys.erase (key a) := by
    intro b member
    obtain ⟨n, hn⟩ := mem_iff_getElem?.mp member
    refine Finset.mem_erase.mpr ⟨?_, within b (mem_cons_of_mem _ member)⟩
    intro same
    have := distinct (n + 1) 0 b a (by simpa using hn) (by simp) same
    omega
  have count := ih distinct.tail others fun member => full (mem_cons_of_mem _ member)
  rw [Finset.card_erase_of_mem (within a (mem_cons_self ..))] at count
  have some_key : 0 < keys.card := Finset.card_pos.mpr ⟨_, within a (mem_cons_self ..)⟩
  rw [length_cons]
  omega

/-- There is a free slot for a key without a row, if the keys in use are no more than the slots. -/
theorem Distinct.findIdx_free (distinct : Distinct key slots)
    (within : ∀ a, some a ∈ slots → key a ∈ keys) (few : keys.card ≤ slots.length)
    (member : k ∈ keys) (absent : find key slots k = none) :
    ∃ i, slots.findIdx? (·.isNone) = some i := by
  by_contra none_free
  have full : none ∉ slots := fun free => none_free (findIdx_of_none free)
  have others : ∀ a, some a ∈ slots → key a ∈ keys.erase k := fun a held =>
    Finset.mem_erase.mpr ⟨find_eq_none_iff.mp absent a held, within a held⟩
  have count := distinct.card_le others full
  rw [Finset.card_erase_of_mem member] at count
  have := Finset.card_pos.mpr ⟨k, member⟩
  omega

end Coaptic.Slots
