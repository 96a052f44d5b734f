import Coaptic.Storage.Occupancy

/-!
# Datagram pools

Slots for whole datagrams. A slot holds the bytes recorded as its current datagram: encoding
overwrites whatever the buffer held before, up to the length it records. Next to the bytes a
slot keeps the peer and, for a Confirmable message that awaits its acknowledgement, the Message
ID. `ν` is what the proofs remember about a datagram; no operation looks at it.
-/
namespace Coaptic.Block

open Codec Occupancy List

/-- The bytes of a datagram and what is known about them. -/
structure Packet (ν : Type) where
  bytes : List UInt8
  sealing : Option ν
deriving DecidableEq

structure DatagramSlot (η ν : Type) where
  packet : Packet ν
  endpoint : Option η
  pending : Option MessageId
deriving DecidableEq

variable {η ν : Type}

def DatagramSlot.blank : DatagramSlot η ν := ⟨⟨[], none⟩, none, none⟩

/-- Pool of datagram slots. -/
structure DatagramPool (η ν : Type) where
  slots : List (DatagramSlot η ν)
  occ : Occupancy
  sized : slots.length = occ.occupied.length
  sound : occ.Sound
deriving DecidableEq

namespace DatagramPool

def new (n : Nat) : DatagramPool η ν where
  slots := List.replicate n .blank
  occ := .new n
  sized := by simp [Occupancy.new]
  sound := .new n

def modifySlot (pool : DatagramPool η ν) (id : Nat) (f : DatagramSlot η ν → DatagramSlot η ν) :
    DatagramPool η ν :=
  { pool with slots := pool.slots.modify id f, sized := by rw [List.length_modify, pool.sized] }

def acquire (pool : DatagramPool η ν) : Option (Nat × DatagramPool η ν) :=
  match acquired : pool.occ.acquire with
  | none => none
  | some (id, occ) =>
    have sized : pool.slots.length = occ.occupied.length := by
      rw [(Occupancy.acquire_some acquired).2.2, List.length_set, pool.sized]
    have sound := (pool.sound.acquire acquired).1
    some (id, ({ pool with occ, sized, sound } : DatagramPool η ν).modifySlot id fun _ => .blank)

def release (pool : DatagramPool η ν) (id : Nat) : Except SlotError (DatagramPool η ν) :=
  match released : pool.occ.release id with
  | .error e => .error e
  | .ok occ =>
    have sized : pool.slots.length = occ.occupied.length := by
      rw [Occupancy.length_release released, pool.sized]
    have sound := pool.sound.release released
    .ok (({ pool with occ, sized, sound } : DatagramPool η ν).modifySlot id fun _ => .blank)

def slot (pool : DatagramPool η ν) (id : Nat) : Except SlotError (DatagramSlot η ν) :=
  match pool.slots[id]? with
  | none => .error .invalidSlot
  | some slot => if pool.occ.isOccupied id then .ok slot else .error .notOccupied

def free (pool : DatagramPool η ν) : Nat := pool.slots.length - pool.occ.count

variable {pool pool' : DatagramPool η ν} {id other : Nat} {slot : DatagramSlot η ν}
  {f : DatagramSlot η ν → DatagramSlot η ν}

section

variable (h : pool.acquire = some (id, pool'))
include h

/-- What `acquire` does: the slot was free and is blank and occupied afterwards. -/
theorem acquire_some : ∃ occ, pool.occ.acquire = some (id, occ) ∧ pool'.occ = occ ∧
      pool'.slots = pool.slots.modify id fun _ => .blank := by
  unfold acquire at h
  split at h
  · cases h
  next found =>
  cases h
  exact ⟨_, found, rfl, rfl⟩

omit h in
/-- Slots are read alike in pools that agree on the slot and its flag. -/
theorem slot_congr (same : pool'.slots[id]? = pool.slots[id]?)
    (taken : pool'.occ.occupied[id]? = pool.occ.occupied[id]?) : pool'.slot id = pool.slot id := by
  have flag : pool'.occ.isOccupied id = pool.occ.isOccupied id := by
    rw [isOccupied, taken, isOccupied]
  rw [slot, same, flag, slot]

/-- The slot that is handed out was free. -/
theorem slot_of_acquire (slot : DatagramSlot η ν) : pool.slot id ≠ .ok slot := by
  obtain ⟨occ, found, -⟩ := acquire_some h
  obtain ⟨-, free, -⟩ := Occupancy.acquire_some found
  simp only [DatagramPool.slot, Occupancy.isOccupied, free]
  split <;> simp

theorem slot_acquire_of_ne (ne : other ≠ id) : pool'.slot other = pool.slot other := by
  obtain ⟨occ, found, rfl, slots⟩ := acquire_some h
  obtain ⟨-, -, occupied⟩ := Occupancy.acquire_some found
  apply slot_congr
  · rw [slots, getElem?_modify_ne _ _ (Ne.symm ne)]
  · rw [occupied, getElem?_set_ne (Ne.symm ne)]

/-- An acquired slot reads as a blank one. -/
theorem slot_acquire : pool'.slot id = .ok .blank := by
  obtain ⟨occ, found, rfl, slots⟩ := acquire_some h
  obtain ⟨inside, -, occupied⟩ := Occupancy.acquire_some found
  have inSlots := pool.sized ▸ inside
  have taken : pool'.occ.isOccupied id = true := by
    simp [isOccupied, occupied, inside]
  simp [slot, slots, inSlots, taken]

end

/-- `release` blanks the slot, which was occupied. -/
theorem release_ok (h : pool.release id = .ok pool') :
    (∃ occ, pool.occ.release id = .ok occ ∧ pool'.occ = occ) ∧
      pool'.slots = pool.slots.modify id fun _ => .blank := by
  unfold release at h
  split at h
  · cases h
  next released =>
  cases h
  exact ⟨⟨_, released, rfl⟩, rfl⟩

theorem slot_release_of_ne (h : pool.release id = .ok pool') (ne : other ≠ id) :
    pool'.slot other = pool.slot other := by
  obtain ⟨⟨occ, released, rfl⟩, slots⟩ := release_ok h
  apply slot_congr
  · rw [slots, getElem?_modify_ne _ _ (Ne.symm ne)]
  · rw [(Occupancy.release_ok released).2, getElem?_set_ne (Ne.symm ne)]

theorem slot_modifySlot_of_ne (ne : other ≠ id) :
    (pool.modifySlot id f).slot other = pool.slot other :=
  slot_congr (getElem?_modify_ne _ _ (Ne.symm ne)) rfl

theorem slot_modifySlot (h : pool.slot id = .ok slot) :
    (pool.modifySlot id f).slot id = .ok (f slot) := by
  unfold DatagramPool.slot at h ⊢
  simp only [modifySlot, getElem?_modify, if_true]
  split at h
  · cases h
  next at_ =>
  split at h
  · cases h
    simp_all
  · cases h

end DatagramPool

end Coaptic.Block
