import Coaptic.Storage.Occupancy

/-!
# Body pools

Slots for complete bodies, each with its bytes, its visible length and its transfer sidecar.
-/
namespace Coaptic.Block

open Bytes

/-! ### Slots -/

/-- One complete-body slot of `capacity` bytes. -/
@[ext] structure BodySlot (κ : Type) (capacity : Nat) where
  bytes : List UInt8
  length_bytes : bytes.length = capacity
  len : Nat
  transfer : Option (BlockTransfer κ)

instance {κ : Type} {capacity : Nat} [DecidableEq κ] : DecidableEq (BodySlot κ capacity) :=
  fun _ _ => decidable_of_iff' _ BodySlot.ext_iff

/-- Pool of complete-body slots; occupancy flags and slots have the same number. -/
structure BodyPool (κ : Type) (capacity : Nat) where
  slots : List (BodySlot κ capacity)
  occ : Occupancy
  sized : slots.length = occ.occupied.length
deriving DecidableEq

/-- Result of writing one incoming range. -/
structure BlockProgress where
  id : Nat
  filled : Nat
  complete : Bool
deriving DecidableEq

variable {κ : Type} {capacity : Nat}

/-- Write `payload` at `offset`; `contiguous` is the visible prefix of a Q-Block body. -/
def storeIncoming (slot : BodySlot κ capacity) (offset : Nat) (payload : List UInt8)
    (contiguous : Option Nat) : Except BlockTransferError (BodySlot κ capacity) :=
  if fits : offset + payload.length ≤ slot.bytes.length then
    .ok { slot with
          bytes := writeAt slot.bytes offset payload
          length_bytes := (length_writeAt _ _ _ fits).trans slot.length_bytes
          len := contiguous.getD (offset + payload.length) }
  else .error .overflow

namespace BodyPool

section

variable (pool : BodyPool κ capacity)

def modifySlot (id : Nat) (f : BodySlot κ capacity → BodySlot κ capacity) : BodyPool κ capacity :=
  { pool with slots := pool.slots.modify id f, sized := by rw [List.length_modify, pool.sized] }

def reset (id : Nat) : BodyPool κ capacity :=
  pool.modifySlot id fun slot => { slot with len := 0, transfer := none }

def acquire (pool : BodyPool κ capacity) : Option (Nat × BodyPool κ capacity) :=
  match acquired : pool.occ.acquire with
  | none => none
  | some (id, occ) =>
    have sized : pool.slots.length = occ.occupied.length := by
      rw [(Occupancy.acquire_some acquired).2.2, List.length_set, pool.sized]
    some (id, ({ pool with occ, sized } : BodyPool κ capacity).reset id)

def release (pool : BodyPool κ capacity) (id : Nat) : Except SlotError (BodyPool κ capacity) :=
  match released : pool.occ.release id with
  | .error e => .error e
  | .ok occ =>
    have sized : pool.slots.length = occ.occupied.length := by
      rw [Occupancy.length_release released, pool.sized]
    .ok (({ pool with occ, sized } : BodyPool κ capacity).reset id)

def payload (id : Nat) : Option (List UInt8) :=
  if pool.occ.isOccupied id then
    pool.slots[id]?.map fun slot =>
      match slot.transfer with
      | some { qReceive := .static body, .. } => body.take slot.len
      | _ => slot.bytes.take slot.len
  else none

def transfer (pool : BodyPool κ capacity) (id : Nat) : Option (BlockTransfer κ) :=
  if pool.occ.isOccupied id then pool.slots[id]?.bind (·.transfer) else none

/-- Admit an incoming Block / Q-Block body: acquire a slot and write the first block. -/
def admitIncoming (key : κ) (role : BlockRole) (block : BlockValue) (payload : List UInt8)
    (expectedLen : Option Nat) : Except BlockTransferError Nat × BodyPool κ capacity :=
  match BlockTransfer.startIncoming key role block payload.length capacity expectedLen with
  | .error e => (.error e, pool)
  | .ok t =>
  match pool.acquire with
  | none => (.error .saturated, pool)
  | some (id, pool) =>
  match (if role.isQBlock then blockOffset block.num block.size else .ok 0), pool.slots[id]? with
  | .error e, _ => (.error e, pool)
  | .ok _, none => (.error (.slot .invalidSlot), pool)
  | .ok offset, some slot =>
  match storeIncoming slot offset payload
      (if role.isQBlock then some t.filled else none) with
  | .error e =>
    match pool.release id with
    | .error _ => (.error e, pool)
    | .ok pool => (.error e, pool)
  | .ok slot => (.ok id, pool.modifySlot id fun _ => { slot with transfer := some t })

/-- Write the next incoming range into `id`. The transfer is updated in place before the bytes
are stored. -/
def writeIncoming (id : Nat) (role : BlockRole) (block : BlockValue) (payload : List UInt8) :
    Except BlockTransferError BlockProgress × BodyPool κ capacity :=
  if !pool.occ.isOccupied id then
    (.error (.slot (if id < pool.slots.length then .notOccupied else .invalidSlot)), pool)
  else
  match pool.slots[id]? with
  | none => (.error (.slot .invalidSlot), pool)
  | some slot =>
  match slot.transfer with
  | none => (.error .noTransfer, pool)
  | some t =>
  if t.role ≠ role then (.error .identityMismatch, pool)
  else
  match t.acceptIncomingRole block payload.length capacity with
  | (.error e, t) => (.error e, pool.modifySlot id fun _ => { slot with transfer := some t })
  | (.ok offset, t) =>
  let slot := { slot with transfer := some t }
  match storeIncoming slot offset payload
      (if role.isQBlock then some t.filled else none) with
  | .error e => (.error e, pool.modifySlot id fun _ => slot)
  | .ok slot => (.ok ⟨id, t.filled, t.complete⟩, pool.modifySlot id fun _ => slot)

/-- Admit an outgoing body: acquire a slot and copy the complete body. -/
def startOutgoing (key : κ) (role : BlockRole) (body : List UInt8) (szx : Nat) :
    Except BlockTransferError Nat × BodyPool κ capacity :=
  match (if role.isQBlock then BlockTransfer.outgoingQ key role body.length szx capacity
    else BlockTransfer.outgoing key role body.length szx capacity) with
  | .error e => (.error e, pool)
  | .ok t =>
  match pool.acquire with
  | none => (.error .saturated, pool)
  | some (id, pool) =>
  match pool.slots[id]? with
  | none => (.error (.slot .invalidSlot), pool)
  | some slot =>
  match storeIncoming slot 0 body none with
  | .error e =>
    match pool.release id with
    | .error _ => (.error e, pool)
    | .ok pool => (.error e, pool)
  | .ok slot => (.ok id, pool.modifySlot id fun _ => { slot with transfer := some t })

end

end BodyPool

end Coaptic.Block
