import Coaptic.Storage.Block

/-!
# Occupancy

The rotating occupancy that hands out the slots of every pool and table: which slots are taken,
where the next search starts, and a live count.
-/
namespace Coaptic.Block

open List

/-- Occupied and pinned flags per slot, the search cursor and the live count. -/
structure Occupancy where
  occupied : List Bool
  pinned : List Bool
  cursor : Nat
  count : Nat
deriving DecidableEq

namespace Occupancy

def new (n : Nat) : Occupancy := ⟨List.replicate n false, List.replicate n false, 0, 0⟩

/-- Flags of a table: its rows are never pinned, so there are no pin flags. -/
def unpinned (n : Nat) : Occupancy := ⟨List.replicate n false, [], 0, 0⟩

section

variable (occ : Occupancy)

def isOccupied (id : Nat) : Bool := occ.occupied[id]?.getD false

/-- First free slot of a slice. The source scans long slices 32 flags at a time. -/
def firstFree (occupied : List Bool) : Option Nat := occupied.findIdx? (!·)

/-- First free slot in cyclic order from the cursor. -/
def search : Option Nat :=
  match firstFree (occ.occupied.drop occ.cursor) with
  | some offset => some (occ.cursor + offset)
  | none => firstFree (occ.occupied.take occ.cursor)

def acquire : Option (Nat × Occupancy) :=
  if occ.count = occ.occupied.length ∨ occ.occupied.length = 0 then none
  else
  match occ.search with
  | none => none
  | some id =>
  some (id,
    { occupied := occ.occupied.set id true
      pinned := occ.pinned.set id false
      cursor := if id + 1 = occ.occupied.length then 0 else id + 1
      count := occ.count + 1 })

def release (id : Nat) : Except SlotError Occupancy :=
  match occ.occupied[id]? with
  | none => .error .invalidSlot
  | some false => .error .notOccupied
  | some true =>
    if occ.pinned[id]?.getD false then .error .pinned
    else .ok { occ with occupied := occ.occupied.set id false, count := occ.count - 1 }

end

/-- What `acquire` and `release` keep: the count is the number of occupied slots and the cursor
stays inside the flags. -/
structure Sound (occ : Occupancy) : Prop where
  counted : occ.count = occ.occupied.count true
  cursor_le : occ.cursor ≤ occ.occupied.length

variable {occupied : List Bool} {id : Nat} {occ occ' : Occupancy}

theorem firstFree_eq_some (h : firstFree occupied = some id) : occupied[id]? = some false := by
  obtain ⟨inside, at_, -⟩ := findIdx?_eq_some_iff_getElem.mp h
  rw [getElem?_eq_getElem inside]
  simpa using at_

theorem firstFree_isSome (h : false ∈ occupied) : (firstFree occupied).isSome := by
  rw [firstFree, findIdx?_isSome, any_eq_true]
  exact ⟨false, h, rfl⟩

theorem true_eq_of_not_mem (full : false ∉ occupied) (flag : Bool) (mem : flag ∈ occupied) :
    true = flag := by
  cases flag with
  | true => rfl
  | false => exact absurd mem full

/-- The slot the search stops at is free. -/
theorem search_eq_some (h : occ.search = some id) : occ.occupied[id]? = some false := by
  unfold search at h
  split at h
  next offset found =>
    cases h
    rw [← getElem?_drop]
    exact firstFree_eq_some found
  · have free := firstFree_eq_some h
    rw [getElem?_take] at free
    split at free
    · exact free
    · cases free

theorem search_isSome (free : false ∈ occ.occupied) : occ.search.isSome := by
  unfold search
  split
  · rfl
  next none =>
  -- Not behind the cursor, so in front of it.
  apply firstFree_isSome
  rw [← take_append_drop occ.cursor occ.occupied] at free
  rcases mem_append.mp free with early | late
  · exact early
  rw [Option.eq_none_iff_forall_ne_some] at none
  obtain ⟨offset, found⟩ := Option.isSome_iff_exists.mp (firstFree_isSome late)
  exact absurd found (none offset)

theorem acquire_eq (acquired : occ.acquire = some (id, occ')) : occ.search = some id ∧ occ' =
      { occupied := occ.occupied.set id true
        pinned := occ.pinned.set id false
        cursor := if id + 1 = occ.occupied.length then 0 else id + 1
        count := occ.count + 1 } := by
  simp only [acquire] at acquired
  split at acquired
  · cases acquired
  split at acquired
  · cases acquired
  next found =>
  cases acquired
  exact ⟨found, rfl⟩

/-- An acquired slot was free and is occupied afterwards; no other slot changes. -/
theorem acquire_some (h : occ.acquire = some (id, occ')) :
    id < occ.occupied.length ∧ occ.occupied[id]? = some false ∧
      occ'.occupied = occ.occupied.set id true := by
  obtain ⟨found, rfl⟩ := acquire_eq h
  have free := search_eq_some found
  exact ⟨(List.getElem?_eq_some_iff.mp free).1, free, rfl⟩

/-- Without pin flags nothing is ever pinned. -/
theorem acquire_pinned (none : occ.pinned = []) (h : occ.acquire = some (id, occ')) :
    occ'.pinned = [] := by
  rw [(acquire_eq h).2, none]
  rfl

theorem Sound.new (n : Nat) : (new n).Sound :=
  ⟨by simp [Occupancy.new, count_replicate], by simp [Occupancy.new]⟩

theorem Sound.unpinned (n : Nat) : (unpinned n).Sound :=
  ⟨by simp [Occupancy.unpinned, count_replicate], by simp [Occupancy.unpinned]⟩

theorem Sound.acquire (sound : occ.Sound) (h : occ.acquire = some (id, occ')) :
    occ'.Sound ∧ occ'.count = occ.count + 1 := by
  obtain ⟨inside, free, -⟩ := acquire_some h
  obtain ⟨-, rfl⟩ := acquire_eq h
  refine ⟨⟨?_, ?_⟩, rfl⟩
  · have := List.getElem_of_getElem? free
    obtain ⟨_, this⟩ := this
    simp [sound.counted, count_set inside, this]
  · simp only [length_set]
    split <;> omega

/-- A slot is found whenever the count leaves room. -/
theorem Sound.acquire_isSome (sound : occ.Sound) (room : occ.count < occ.occupied.length) :
    ∃ id occ', occ.acquire = some (id, occ') := by
  have free : false ∈ occ.occupied := by
    by_contra full
    have := count_eq_length.mpr (true_eq_of_not_mem full)
    have := sound.counted
    omega
  obtain ⟨id, found⟩ := Option.isSome_iff_exists.mp (search_isSome free)
  unfold Occupancy.acquire
  rw [if_neg (by omega), found]
  exact ⟨id, _, rfl⟩

theorem Sound.acquire_eq_none (sound : occ.Sound) (none : occ.acquire = none) :
    occ.count = occ.occupied.length := by
  have le := sound.counted ▸ count_le_length
  by_contra ne
  obtain ⟨id, occ', found⟩ := sound.acquire_isSome (by omega)
  rw [none] at found
  cases found

theorem release_ok (h : occ.release id = .ok occ') : occ.occupied[id]? = some true ∧
      occ' = { occ with occupied := occ.occupied.set id false, count := occ.count - 1 } := by
  unfold release at h
  split at h
  · cases h
  · cases h
  next taken =>
  split at h
  · cases h
  · cases h
    exact ⟨taken, rfl⟩

theorem release_unpinned (none : occ.pinned = []) (taken : occ.occupied[id]? = some true) :
    occ.release id =
      .ok { occ with occupied := occ.occupied.set id false, count := occ.count - 1 } := by
  simp [release, taken, none]

theorem length_release (h : occ.release id = .ok occ') :
    occ'.occupied.length = occ.occupied.length := by
  rw [(release_ok h).2]
  exact length_set

theorem Sound.release (sound : occ.Sound) (h : occ.release id = .ok occ') : occ'.Sound := by
  obtain ⟨taken, rfl⟩ := release_ok h
  obtain ⟨inside, taken⟩ := List.getElem_of_getElem? taken
  refine ⟨?_, by simpa using sound.cursor_le⟩
  simp [sound.counted, count_set inside, taken]

theorem Sound.room_of_release (sound : occ.Sound) (h : occ.release id = .ok occ') :
    occ'.count < occ.occupied.length := by
  obtain ⟨taken, rfl⟩ := release_ok h
  have some_ := count_pos_iff.mpr (mem_of_getElem? taken)
  have few := sound.counted ▸ count_le_length
  rw [← sound.counted] at some_
  dsimp only
  omega

end Occupancy

end Coaptic.Block
