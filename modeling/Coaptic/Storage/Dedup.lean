import Coaptic.Lib.Slots
import Coaptic.Storage.Datagram
import Mathlib.Data.Finset.Card
import Mathlib.Data.List.ReduceOption

/-!
# Dedup table

History rows of answered messages, by Message ID and peer. A row holds the reply to send again,
inline or as the number of the datagram slot that still has it, and the time it lapses. No two
rows have the same key.
-/
namespace Coaptic.Block

open Codec List Occupancy Slots

structure DedupKey (η : Type) where
  messageId : MessageId
  endpoint : η
deriving DecidableEq

/-- Occupied row. `dueMs` 0 is a row that does not lapse. -/
structure DedupEntry (η ν : Type) where
  key : DedupKey η
  dueMs : Nat
  replay : Option (Packet ν)
  txPin : Option Nat
deriving DecidableEq

variable {η ν : Type}

namespace DedupEntry

def replayMax : Nat := 256

def new (messageId : MessageId) (endpoint : η) : DedupEntry η ν :=
  ⟨⟨messageId, endpoint⟩, 0, none, none⟩

section

variable (entry : DedupEntry η ν)

def withDueMs (dueMs : Nat) : DedupEntry η ν := { entry with dueMs }

/-- Keep a reply that fits. An empty one leaves no replay. -/
def withReplay (packet : Packet ν) : DedupEntry η ν :=
  if replayMax < packet.bytes.length then entry
  else { entry with replay := if packet.bytes.isEmpty then none else some packet, txPin := none }

def withTxPin (id : Nat) : DedupEntry η ν :=
  { entry with replay := none, txPin := some id }

def hasUsableReplay : Bool := entry.replay.isSome || entry.txPin.isSome

@[simp] theorem key_withReplay (packet : Packet ν) : (entry.withReplay packet).key = entry.key := by
  unfold withReplay
  split <;> rfl

@[simp] theorem dueMs_withReplay (packet : Packet ν) :
    (entry.withReplay packet).dueMs = entry.dueMs := by
  unfold withReplay
  split <;> rfl

end

end DedupEntry

/-- Table of compact history rows. -/
@[ext] structure DedupTable (η ν : Type) where
  entries : List (Option (DedupEntry η ν))
  occ : Occupancy
  occupied_eq : occ.occupied = entries.map Option.isSome
  sound : occ.Sound
  unpinned : occ.pinned = []
  unique : ∀ {i j : Nat} {a b : DedupEntry η ν}, entries[i]? = some (some a) →
    entries[j]? = some (some b) → a.key = b.key → i = j

instance [DecidableEq η] [DecidableEq ν] : DecidableEq (DedupTable η ν) :=
  fun _ _ => decidable_of_iff' _ DedupTable.ext_iff

namespace DedupTable

def new (n : Nat) : DedupTable η ν where
  entries := List.replicate n none
  occ := .unpinned n
  occupied_eq := by simp [Occupancy.unpinned]
  sound := .unpinned n
  unpinned := rfl
  unique at_i := by
    rw [List.getElem?_replicate] at at_i
    split at at_i <;> cases at_i

section

variable (table : DedupTable η ν)

def Holds (entry : DedupEntry η ν) : Prop :=
  ∃ i : Nat, table.entries[i]? = some (some entry)

def entry (id : Nat) : Option (DedupEntry η ν) := table.entries[id]?.join

def fill (row : DedupEntry η ν) (fresh : ∀ old, table.Holds old → old.key ≠ row.key) :
    Option (Nat × DedupTable η ν) :=
  match acquired : table.occ.acquire with
  | none => none
  | some (id, occ) =>
    some (id, {
      entries := table.entries.set id (some row)
      occ
      occupied_eq := by
        rw [(acquire_some acquired).2.2, table.occupied_eq, List.map_set]
        rfl
      sound := (table.sound.acquire acquired).1
      unpinned := acquire_pinned table.unpinned acquired
      unique := by
        intro i j a b at_i at_j same
        obtain ⟨rfl, ⟨⟩⟩ | ⟨-, at_i⟩ := of_set at_i <;>
          obtain ⟨rfl, ⟨⟩⟩ | ⟨-, at_j⟩ := of_set at_j
        · rfl
        · exact absurd same.symm (fresh b ⟨j, at_j⟩)
        · exact absurd same (fresh a ⟨i, at_i⟩)
        · exact table.unique at_i at_j same })

/-- One step of the scan for the row to give up: a row that lapses, and before the best so far. -/
def older (best : Option (DedupEntry η ν)) : Option (DedupEntry η ν) → Option (DedupEntry η ν)
  | none => best
  | some row =>
    if row.dueMs ≠ 0 ∧ best.all (fun least => row.dueMs < least.dueMs) then some row else best

def oldest : Option (DedupEntry η ν) := table.entries.foldl older none

end

def release (table : DedupTable η ν) (id : Nat) : Except SlotError (DedupTable η ν) :=
  match released : table.occ.release id with
  | .error e => .error e
  | .ok occ =>
    .ok {
      entries := table.entries.set id none
      occ
      occupied_eq := by
        rw [(release_ok released).2, List.map_set, ← table.occupied_eq]
        rfl
      sound := table.sound.release released
      unpinned := by rw [(release_ok released).2, table.unpinned]
      unique := by
        intro i j a b at_i at_j
        obtain ⟨-, ⟨⟩⟩ | ⟨-, at_i⟩ := of_set at_i
        obtain ⟨-, ⟨⟩⟩ | ⟨-, at_j⟩ := of_set at_j
        exact table.unique at_i at_j }

variable {table table' : DedupTable η ν} {old other row : DedupEntry η ν} {id : Nat}
  {key : DedupKey η} {best slot : Option (DedupEntry η ν)}
  {fresh : ∀ old, table.Holds old → old.key ≠ row.key}

/-- `fill` adds its row and nothing else. -/
theorem holds_fill (h : table.fill row fresh = some (id, table')) (other : DedupEntry η ν) :
    table'.Holds other ↔ other = row ∨ table.Holds other := by
  unfold fill at h
  split at h
  · cases h
  next acquired =>
  cases h
  obtain ⟨inside, free, -⟩ := acquire_some acquired
  rw [table.occupied_eq, length_map] at inside
  -- The acquired slot held no row, so no row is overwritten.
  rw [table.occupied_eq] at free
  have empty := vacant_of_map free
  constructor
  · rintro ⟨i, at_i⟩
    obtain ⟨-, ⟨⟩⟩ | ⟨-, old⟩ := of_set at_i
    · exact .inl rfl
    · exact .inr ⟨i, old⟩
  rintro (rfl | ⟨i, at_i⟩)
  · exact ⟨id, by simp [inside]⟩
  refine ⟨i, ?_⟩
  rw [getElem?_set, if_neg, at_i]
  rintro rfl
  rw [empty] at at_i
  cases at_i

theorem length_fill (h : table.fill row fresh = some (id, table')) :
    table'.entries.length = table.entries.length := by
  unfold fill at h
  split at h
  · cases h
  · cases h
    exact length_set

/-- `fill` fails only when every slot holds a row. -/
theorem full_of_fill (h : table.fill row fresh = none) :
    table.occ.count = table.entries.length := by
  unfold fill at h
  split at h
  next none =>
    rw [table.sound.acquire_eq_none none, table.occupied_eq, length_map]
  · cases h

theorem fill_isSome (fresh : ∀ old, table.Holds old → old.key ≠ row.key)
    (room : table.occ.count < table.entries.length) :
    ∃ id table', table.fill row fresh = some (id, table') := by
  cases filled : table.fill row fresh with
  | some result => exact ⟨result.1, result.2, rfl⟩
  | none =>
    have := full_of_fill filled
    omega

/-- `release` takes its row out and nothing else, and leaves room. -/
theorem holds_release (at_id : table.entries[id]? = some (some row)) :
    ∃ table', table.release id = .ok table' ∧
      (∀ other, table'.Holds other ↔ other ≠ row ∧ table.Holds other) ∧
      table'.entries.length = table.entries.length ∧
      table'.occ.count < table.entries.length := by
  have inside := (List.getElem?_eq_some_iff.mp at_id).1
  have taken : table.occ.occupied[id]? = some true := by
    simp [table.occupied_eq, at_id]
  have released := release_unpinned table.unpinned taken
  unfold release
  split
  next failed =>
    rw [released] at failed
    cases failed
  next done =>
  rw [released] at done
  cases done
  refine ⟨_, rfl, ?_, by simp, ?_⟩
  · intro other
    constructor
    · rintro ⟨i, at_i⟩
      obtain ⟨-, ⟨⟩⟩ | ⟨there, old⟩ := of_set at_i
      refine ⟨?_, i, old⟩
      rintro rfl
      exact there (table.unique at_id old rfl)
    rintro ⟨ne, i, at_i⟩
    refine ⟨i, ?_⟩
    rw [getElem?_set_ne, at_i]
    rintro rfl
    rw [at_id] at at_i
    cases at_i
    exact ne rfl
  · have room := table.sound.room_of_release released
    rwa [table.occupied_eq, length_map] at room

theorem older_eq (h : older best slot = some old) : best = some old ∨ slot = some old := by
  cases slot with
  | none => exact .inl h
  | some row =>
  simp only [older] at h
  split at h
  · exact .inr h
  · exact .inl h

/-- A step keeps a row that lapses no later than either candidate. -/
theorem older_le (candidate : best = some row ∨ (slot = some row ∧ row.dueMs ≠ 0)) :
    ∃ next, older best slot = some next ∧ next.dueMs ≤ row.dueMs := by
  cases slot with
  | none =>
    obtain rfl := candidate.resolve_right (by simp)
    exact ⟨row, rfl, Nat.le_refl _⟩
  | some first =>
  simp only [older]
  split
  next newer =>
    refine ⟨first, rfl, ?_⟩
    rcases candidate with rfl | ⟨eq, -⟩
    · exact Nat.le_of_lt (by simpa using newer.2)
    · cases eq
      exact Nat.le_refl _
  next stays =>
  rcases candidate with rfl | ⟨eq, lapses⟩
  · exact ⟨row, rfl, Nat.le_refl _⟩
  cases eq
  cases best with
  | none => simp [lapses] at stays
  | some least => exact ⟨least, rfl, by simpa [lapses] using stays⟩

/-- The scan ends at a row it met, and at one that lapses no later than any row it met. -/
theorem foldl_older (entries : List (Option (DedupEntry η ν))) (best : Option (DedupEntry η ν)) :
    (∀ old, entries.foldl older best = some old → best = some old ∨ some old ∈ entries) ∧
      ∀ row, best = some row ∨ (some row ∈ entries ∧ row.dueMs ≠ 0) →
        ∃ old, entries.foldl older best = some old ∧ old.dueMs ≤ row.dueMs := by
  induction entries generalizing best with
  | nil =>
    refine ⟨fun old h => .inl h, fun row h => ?_⟩
    exact ⟨row, h.resolve_right (by simp), Nat.le_refl _⟩
  | cons slot entries ih =>
  obtain ⟨met, least⟩ := ih (older best slot)
  rw [foldl_cons]
  refine ⟨?_, ?_⟩
  · intro old h
    rcases met old h with isNext | mem
    · exact (older_eq isNext).imp_right fun first => by simp [first]
    · exact .inr (mem_cons_of_mem _ mem)
  intro row candidate
  by_cases rest : some row ∈ entries ∧ row.dueMs ≠ 0
  · exact least row (.inr rest)
  -- The row is the best so far or the first one met.
  have first : best = some row ∨ (slot = some row ∧ row.dueMs ≠ 0) := by
    refine candidate.imp_right fun ⟨mem, lapses⟩ => ⟨?_, lapses⟩
    rcases mem_cons.mp mem with eq | mem
    · exact eq.symm
    · exact absurd ⟨mem, lapses⟩ rest
  obtain ⟨next, isNext, le⟩ := older_le first
  obtain ⟨old, isOld, le'⟩ := least next (.inl isNext)
  exact ⟨old, isOld, le'.trans le⟩

theorem oldest_spec (held : table.Holds row) (lapses : row.dueMs ≠ 0) :
    ∃ old, table.oldest = some old ∧ table.Holds old ∧
      ∀ other, table.Holds other → other.dueMs ≠ 0 → old.dueMs ≤ other.dueMs := by
  obtain ⟨met, least⟩ := foldl_older table.entries none
  have found : ∀ other, table.Holds other → other.dueMs ≠ 0 →
      ∃ old, table.oldest = some old ∧ old.dueMs ≤ other.dueMs := by
    rintro other ⟨i, at_i⟩ lapses
    exact least other (.inr ⟨mem_of_getElem? at_i, lapses⟩)
  obtain ⟨old, isOld, -⟩ := found row held lapses
  refine ⟨old, isOld, ?_, ?_⟩
  · exact mem_iff_getElem?.mp ((met old isOld).resolve_left (by simp))
  intro other held lapses
  obtain ⟨_, isOld', le⟩ := found other held lapses
  rw [isOld] at isOld'
  cases isOld'
  exact le

theorem holds_of_entry {i : Nat} (h : table.entry i = some row) : table.Holds row :=
  ⟨i, by simpa [entry, Option.join_eq_some_iff] using h⟩

theorem not_holds_of_empty (empty : table.entries.length = 0) (row : DedupEntry η ν) :
    ¬table.Holds row := by
  rintro ⟨i, at_⟩
  rw [length_eq_zero_iff.mp empty] at at_
  cases at_

variable [DecidableEq η]

def lookup (table : DedupTable η ν) (key : DedupKey η) : Option Nat :=
  table.entries.findIdx? fun row => row.any (·.key == key)

def find (table : DedupTable η ν) (key : DedupKey η) : Option (DedupEntry η ν) :=
  (table.lookup key).bind table.entry

theorem lookup_eq_some (h : table.lookup key = some id) :
    ∃ row, table.entries[id]? = some (some row) ∧ row.key = key := by
  obtain ⟨row, here, found, -⟩ := findIdx_any h
  exact ⟨row, here, by simpa using found⟩

theorem lookup_eq_none (h : table.lookup key = none) : ∀ row, table.Holds row → row.key ≠ key := by
  rintro row ⟨i, at_i⟩ same
  have := findIdx?_eq_none_iff.mp h (some row) (mem_of_getElem? at_i)
  simp [same] at this

/-- `find` is the look-up of a finite map. -/
theorem find_eq_some : table.find key = some row ↔ table.Holds row ∧ row.key = key := by
  unfold find
  cases found : table.lookup key with
  | none =>
    simp only [Option.bind_none, reduceCtorEq, false_iff, not_and]
    exact lookup_eq_none found row
  | some id =>
  obtain ⟨old, at_id, isKey⟩ := lookup_eq_some found
  simp only [Option.bind_some, entry, at_id, Option.join_some, Option.some.injEq]
  constructor
  · rintro rfl
    exact ⟨⟨id, at_id⟩, isKey⟩
  rintro ⟨⟨i, at_i⟩, same⟩
  have := table.unique at_id at_i (isKey.trans same.symm)
  subst this
  rw [at_id] at at_i
  simpa using at_i

/-- There is one row of a key. -/
theorem eq_of_key (held : table.Holds old) (rest : table.Holds other) (same : other.key = old.key) :
    other = old := by
  have found := find_eq_some.mpr ⟨rest, same⟩
  rw [find_eq_some.mpr ⟨held, rfl⟩] at found
  exact (Option.some.inj found).symm

theorem find_eq_none : table.find key = none ↔ ∀ row, table.Holds row → row.key ≠ key := by
  simp only [Option.eq_none_iff_forall_ne_some, ne_eq, find_eq_some, not_and]

/-- Insert `row`, or leave the table alone if its key is already there. -/
def insert (table : DedupTable η ν) (row : DedupEntry η ν) : Option (Nat × DedupTable η ν) :=
  match found : table.lookup row.key with
  | some id => some (id, table)
  | none => table.fill row (lookup_eq_none found)

theorem length_insert (h : table.insert row = some (id, table')) :
    table'.entries.length = table.entries.length := by
  unfold insert at h
  split at h
  · cases h
    rfl
  · exact length_fill h

section

variable (table : DedupTable η ν)

def remove (key : DedupKey η) : DedupTable η ν :=
  match table.lookup key with
  | none => table
  | some id =>
  match table.release id with
  | .error _ => table
  | .ok table => table

/-- Store `row`, in place of the row with its key or, in a full table, of the oldest row. Returns
whether it was stored, and the datagram slot that the row it replaced held. -/
def tryStoreApp (row : DedupEntry η ν) : Bool × Option Nat × DedupTable η ν :=
  match found : table.find row.key with
  | some old =>
    match (table.remove old.key).insert row with
    | none => (false, old.txPin, table.remove old.key)
    | some (_, table) => (true, old.txPin, table)
  | none =>
    match table.fill row (find_eq_none.mp found) with
    | some (_, table) => (true, none, table)
    | none =>
    match table.oldest with
    | none => (false, none, table)
    | some old =>
    match (table.remove old.key).insert row with
    | none => (false, old.txPin, table.remove old.key)
    | some (_, table) => (true, old.txPin, table)

end

/-- Removing a row that is there takes it out and nothing else, and leaves room. -/
theorem remove_spec (held : table.Holds old) :
    (∀ other, (table.remove old.key).Holds other ↔ other ≠ old ∧ table.Holds other) ∧
      (table.remove old.key).entries.length = table.entries.length ∧
      (table.remove old.key).occ.count < table.entries.length := by
  obtain ⟨id, found⟩ : ∃ id, table.lookup old.key = some id := by
    cases none : table.lookup old.key with
    | some id => exact ⟨id, rfl⟩
    | none => exact absurd rfl (lookup_eq_none none old held)
  obtain ⟨row, at_id, isKey⟩ := lookup_eq_some found
  obtain ⟨i, at_i⟩ := held
  have := table.unique at_id at_i isKey
  subst this
  rw [at_id] at at_i
  cases at_i
  obtain ⟨table', released, facts⟩ := holds_release at_id
  have eq : table.remove old.key = table' := by
    simp only [remove, found, released]
  exact eq ▸ facts

/-- A row whose key is new goes into a free slot. -/
theorem insert_of_room (row : DedupEntry η ν) (fresh : ∀ old, table.Holds old → old.key ≠ row.key)
    (room : table.occ.count < table.entries.length) :
    ∃ id table', table.insert row = some (id, table') ∧
      ∀ other, table'.Holds other ↔ other = row ∨ table.Holds other := by
  unfold insert
  split
  next found =>
    obtain ⟨old, at_, isKey⟩ := lookup_eq_some found
    exact absurd isKey (fresh old ⟨_, at_⟩)
  next none =>
  have absent := lookup_eq_none none
  obtain ⟨id, table', filled⟩ := fill_isSome absent room
  exact ⟨id, table', filled, holds_fill filled⟩

/-- A full table has as many keys as slots. -/
theorem keys_of_full (full : table.occ.count = table.entries.length) :
    ∃ keys : Finset (DedupKey η), keys.card = table.entries.length ∧
      ∀ key ∈ keys, (table.find key).isSome := by
  refine ⟨(table.entries.reduceOption.map DedupEntry.key).toFinset, ?_, ?_⟩
  · have distinct : Slots.Distinct DedupEntry.key table.entries := fun _ _ _ _ => table.unique
    refine le_antisymm ((toFinset_card_le _).trans ?_) (distinct.card_le ?_ ?_)
    · rw [length_map]
      exact reduceOption_length_le _
    · intro row member
      rw [mem_toFinset]
      exact mem_map_of_mem (reduceOption_mem_iff.mpr member)
    -- a slot without a row would not be counted
    intro free
    rw [table.sound.counted, table.occupied_eq, ← length_map Option.isSome] at full
    cases count_eq_length.mp full false (mem_map.mpr ⟨none, free, rfl⟩)
  intro key mem
  obtain ⟨row, mem, isKey⟩ := mem_map.mp (mem_toFinset.mp mem)
  have held : table.Holds row := mem_iff_getElem?.mp (reduceOption_mem_iff.mp mem)
  rw [find_eq_some.mpr ⟨held, isKey⟩]
  rfl

/-! ### Storing a row -/

theorem length_remove (table : DedupTable η ν) (key : DedupKey η) :
    (table.remove key).entries.length = table.entries.length := by
  unfold remove
  split
  · rfl
  split
  · rfl
  next released =>
  unfold release at released
  split at released
  · cases released
  · cases released
    exact length_set

/-- The row with `key` goes, and nothing else. -/
theorem holds_remove (table : DedupTable η ν) (key : DedupKey η) (other : DedupEntry η ν) :
    (table.remove key).Holds other ↔ other.key ≠ key ∧ table.Holds other := by
  cases found : table.find key with
  | none =>
    have absent := find_eq_none.mp found
    have eq : table.remove key = table := by
      unfold remove
      split
      · rfl
      next isSlot =>
      obtain ⟨row, at_, isKey⟩ := lookup_eq_some isSlot
      exact absurd isKey (absent row ⟨_, at_⟩)
    rw [eq]
    exact ⟨fun held => ⟨absent other held, held⟩, And.right⟩
  | some old =>
  obtain ⟨held, rfl⟩ := find_eq_some.mp found
  rw [(remove_spec held).1 other]
  exact and_congr_left fun rest => not_congr ⟨fun eq => eq ▸ rfl, eq_of_key held rest⟩

theorem holds_of_insert (h : table.insert row = some (id, table')) (held : table'.Holds other) :
    other = row ∨ table.Holds other := by
  unfold insert at h
  split at h
  · cases h
    exact .inr held
  · exact (holds_fill h other).mp held

/-- What a store leaves: the row itself if it was stored, and of the others neither the one with
its key nor the one whose datagram slot is to be released. -/
theorem tryStoreApp_rows {stored : Bool} {pin : Option Nat}
    (h : table.tryStoreApp row = (stored, pin, table')) :
    ∃ old : Option (DedupEntry η ν), pin = old.bind (·.txPin) ∧
      (∀ gone, old = some gone → table.Holds gone) ∧
      ∀ other, table'.Holds other → (other = row ∧ stored = true) ∨
        (table.Holds other ∧ old ≠ some other ∧ other.key ≠ row.key) := by
  -- Both ways to give up a row: it is removed, and the new row inserted.
  have swapped : ∀ old, table.Holds old →
      (∀ other, table.Holds other → other.key ≠ old.key → other.key ≠ row.key) →
      (match (table.remove old.key).insert row with
        | none => (false, old.txPin, table.remove old.key)
        | some (_, table) => (true, old.txPin, table)) = (stored, pin, table') →
      pin = old.txPin ∧ ∀ other, table'.Holds other → (other = row ∧ stored = true) ∨
        (table.Holds other ∧ some old ≠ some other ∧ other.key ≠ row.key) := by
    intro old held fresh result
    have rest : ∀ other, (table.remove old.key).Holds other →
        table.Holds other ∧ some old ≠ some other ∧ other.key ≠ row.key := by
      intro other stays
      obtain ⟨ne, stays⟩ := (holds_remove table old.key other).mp stays
      refine ⟨stays, ?_, fresh other stays ne⟩
      rintro ⟨⟩
      exact ne rfl
    split at result
    · cases result
      exact ⟨rfl, fun other stays => .inr (rest other stays)⟩
    next inserted =>
    cases result
    exact ⟨rfl, fun other stays => (holds_of_insert inserted stays).imp (⟨·, rfl⟩) (rest other)⟩
  unfold tryStoreApp at h
  split at h
  next old found =>
    obtain ⟨held, isKey⟩ := find_eq_some.mp found
    obtain ⟨isPin, rows⟩ := swapped old held (fun _ _ ne => isKey ▸ ne) h
    exact ⟨some old, isPin, fun gone eq => Option.some.inj eq ▸ held, rows⟩
  next absent =>
  have fresh := find_eq_none.mp absent
  split at h
  next filled =>
    cases h
    refine ⟨none, rfl, nofun, fun other stays => ?_⟩
    exact ((holds_fill filled other).mp stays).imp (⟨·, rfl⟩) fun old => ⟨old, nofun, fresh other old⟩
  · split at h
    · cases h
      exact ⟨none, rfl, nofun, fun other stays => .inr ⟨stays, nofun, fresh other stays⟩⟩
    next old isOld =>
    have met := (foldl_older table.entries none).1 old isOld
    have held : table.Holds old := mem_iff_getElem?.mp (met.resolve_left (by simp))
    obtain ⟨isPin, rows⟩ := swapped old held (fun other stays _ => fresh other stays) h
    exact ⟨some old, isPin, fun gone eq => Option.some.inj eq ▸ held, rows⟩

/-- A store brings in no row but the one stored. -/
theorem holds_of_tryStoreApp (held : (table.tryStoreApp row).2.2.Holds other) :
    other = row ∨ table.Holds other := by
  obtain ⟨_, -, -, rows⟩ := tryStoreApp_rows (Eq.refl (table.tryStoreApp row))
  exact (rows other held).imp And.left And.left

theorem length_tryStoreApp (table : DedupTable η ν) (row : DedupEntry η ν) :
    (table.tryStoreApp row).2.2.entries.length = table.entries.length := by
  have replaced : ∀ (key : DedupKey η) id table',
      (table.remove key).insert row = some (id, table') →
        table'.entries.length = table.entries.length :=
    fun key id table' inserted => (length_insert inserted).trans (length_remove table key)
  unfold tryStoreApp
  split
  · split
    · exact length_remove table _
    next inserted => exact replaced _ _ _ inserted
  split
  next filled => exact length_fill filled
  · split
    · rfl
    split
    · exact length_remove table _
    next inserted => exact replaced _ _ _ inserted

theorem find_congr (same : ∀ row, row.key = key → (table'.Holds row ↔ table.Holds row)) :
    table'.find key = table.find key := by
  cases found : table.find key with
  | none =>
    rw [find_eq_none] at found ⊢
    exact fun row held isKey => found row ((same row isKey).mp held) isKey
  | some row =>
    obtain ⟨held, isKey⟩ := find_eq_some.mp found
    exact find_eq_some.mpr ⟨(same row isKey).mpr held, isKey⟩

/-- The table after a store that costs no other key its row. -/
structure Replaces (table table' : DedupTable η ν) (row : DedupEntry η ν) : Prop where
  stored : table'.find row.key = some row
  others : ∀ key, key ≠ row.key → table'.find key = table.find key

/-- The table after a store of a new key in place of the oldest row of a full table. -/
structure Evicts (table table' : DedupTable η ν) (row old : DedupEntry η ν) : Prop where
  new : table.find row.key = none
  held : table.find old.key = some old
  full : table.occ.count = table.entries.length
  least : ∀ other, table.Holds other → old.dueMs ≤ other.dueMs
  stored : table'.find row.key = some row
  gone : table'.find old.key = none
  others : ∀ key, key ≠ row.key → key ≠ old.key → table'.find key = table.find key

/-- Removing `old` and inserting `row`, whose key no other row has. -/
theorem insert_remove (row : DedupEntry η ν) (held : table.Holds old)
    (fresh : ∀ other, other ≠ old → table.Holds other → other.key ≠ row.key) :
    ∃ id table', (table.remove old.key).insert row = some (id, table') ∧
      ∀ other, table'.Holds other ↔ other = row ∨ (other ≠ old ∧ table.Holds other) := by
  obtain ⟨holds, length, room⟩ := remove_spec held
  obtain ⟨id, table', inserted, holds'⟩ := insert_of_room row
    (fun other rest => fresh other ((holds other).mp rest).1 ((holds other).mp rest).2)
    (length ▸ room)
  refine ⟨id, table', inserted, ?_⟩
  intro other
  rw [holds', holds]

theorem find_insert_remove (holds : ∀ other, table'.Holds other ↔ other = row ∨
    (other ≠ old ∧ table.Holds other))
    (ne : key ≠ row.key) (ne' : key ≠ old.key) : table'.find key = table.find key := by
  apply find_congr
  rintro other rfl
  rw [holds]
  constructor
  · rintro (rfl | ⟨-, rest⟩)
    · exact absurd rfl ne
    · exact rest
  intro rest
  refine .inr ⟨?_, rest⟩
  rintro rfl
  exact ne' rfl

/-- When every row lapses and there is a slot at all, a row is always stored. -/
theorem tryStoreApp_spec (table : DedupTable η ν) (row : DedupEntry η ν)
    (lapses : ∀ other, table.Holds other → other.dueMs ≠ 0) (slots : 0 < table.entries.length) :
    ∃ pin table', table.tryStoreApp row = (true, pin, table') ∧
      (table.Replaces table' row ∨ ∃ old, table.Evicts table' row old) := by
  unfold tryStoreApp
  split
  next old found =>
    -- The key has a row: it goes, and the new one takes the slot it leaves.
    obtain ⟨held, isKey⟩ := find_eq_some.mp found
    obtain ⟨id, table', inserted, holds⟩ := insert_remove row held
      fun other ne rest same => ne (eq_of_key held rest (same.trans isKey.symm))
    rw [inserted]
    refine ⟨_, table', rfl, .inl ⟨?_, ?_⟩⟩
    · exact find_eq_some.mpr ⟨(holds row).mpr (.inl rfl), rfl⟩
    · intro key ne
      exact find_insert_remove holds ne (isKey ▸ ne)
  next none =>
    split
    next filled =>
      have holds := holds_fill filled
      refine ⟨_, _, rfl, .inl ⟨?_, ?_⟩⟩
      · exact find_eq_some.mpr ⟨(holds row).mpr (.inl rfl), rfl⟩
      intro key ne
      apply find_congr
      rintro other rfl
      rw [holds]
      exact ⟨fun h => h.resolve_left (by rintro rfl; exact ne rfl), .inr⟩
    next failed =>
      -- No free slot: the oldest row goes.
      have full := full_of_fill failed
      obtain ⟨some_row, at_⟩ : ∃ some_row, table.Holds some_row := by
        obtain ⟨keys, card, held⟩ := keys_of_full full
        obtain ⟨key, mem⟩ := Finset.card_pos.mp (card ▸ slots)
        obtain ⟨some_row, found⟩ := Option.isSome_iff_exists.mp (held key mem)
        exact ⟨some_row, (find_eq_some.mp found).1⟩
      obtain ⟨old, isOld, held, least⟩ := oldest_spec at_ (lapses _ at_)
      have fresh := find_eq_none.mp none
      obtain ⟨id, table', inserted, holds⟩ :=
        insert_remove row held fun other _ rest => fresh other rest
      rw [isOld]
      simp only [inserted]
      refine ⟨_, table', rfl, .inr ⟨old, ?_⟩⟩
      exact {
        new := none
        held := find_eq_some.mpr ⟨held, rfl⟩
        full := full
        least := fun other rest => least other rest (lapses other rest)
        stored := find_eq_some.mpr ⟨(holds row).mpr (.inl rfl), rfl⟩
        gone := by
          rw [find_eq_none]
          intro other rest same
          rcases (holds other).mp rest with rfl | ⟨ne, rest⟩
          · exact fresh old held same.symm
          · exact ne (eq_of_key held rest same)
        others := fun key ne ne' => find_insert_remove holds ne ne' }

end DedupTable

end Coaptic.Block
