import Coaptic.Lib.Run
import Coaptic.Message.Decode
import Coaptic.Storage.Datagram

/-!
# Pending Confirmables

The outgoing datagram slots with all that stands beside the bytes: the peer, and for a
Confirmable message the Message ID and the retransmission state. A slot is reserved for a
Confirmable before it is sent and started when the transport has accepted it. Every operation
that finishes work begun earlier presents the snapshot it was begun with.

`u64` and `u32` values are natural numbers with the saturating sums of the source.
-/
namespace Coaptic.Pending

open Codec Block Option Occupancy Run

/-- UDP peer, with the namespace of an App-local association. -/
structure Endpoint where
  octets : List UInt8
  scope : UInt32
  association : UInt32
  port : UInt16
  ipv6 : Bool
deriving DecidableEq

/-- Physical UDP address without the association. -/
def Endpoint.physical (endpoint : Endpoint) : Endpoint := { endpoint with association := 0 }

def ackTimeoutMs : Nat := 2000
def ackRandomSpanMs : Nat := 1000
def maxRetransmit : Nat := 4
def nstart : Nat := 1

def u64Max : Nat := 2 ^ 64 - 1
def u32Max : Nat := 2 ^ 32 - 1

/-- `ACK_TIMEOUT` plus the jitter, which is cut off at the random span. -/
def initialTimeoutMs (jitterMs : Nat) : Nat :=
  min (ackTimeoutMs + if ackRandomSpanMs < jitterMs then ackRandomSpanMs else jitterMs) u32Max

/-! ### Retransmission state -/

/-- Retransmit counter and timeout of one pending Confirmable. -/
structure PendingRto where
  attempts : Nat
  started : Bool
  nextTimeoutMs : Nat
  timeoutMs : Nat
deriving DecidableEq

namespace PendingRto

def new (nowMs jitterMs : Nat) : PendingRto where
  attempts := 0
  started := true
  timeoutMs := initialTimeoutMs jitterMs
  nextTimeoutMs := min (nowMs + initialTimeoutMs jitterMs) u64Max

def reserved : PendingRto := ⟨0, false, 0, 0⟩

def isDue (rto : PendingRto) (nowMs : Nat) : Bool := rto.started && decide (rto.nextTimeoutMs ≤ nowMs)

/-- Doubled timeout and one more attempt, `none` when the attempts are used up. -/
def nextAttempt (rto : PendingRto) (nowMs : Nat) : Option PendingRto :=
  if !rto.started || decide (maxRetransmit ≤ rto.attempts) then none
  else
  let timeoutMs := min (rto.timeoutMs * 2) u32Max
  some { attempts := min (rto.attempts + 1) 255, started := true, timeoutMs
         nextTimeoutMs := min (nowMs + timeoutMs) u64Max }

end PendingRto

/-- What a caller sees of a pending Confirmable, and presents again later. -/
structure PendingCon where
  messageId : MessageId
  endpoint : Endpoint
  txSlot : Nat
  rto : PendingRto
deriving DecidableEq

inductive Retransmit
  | due (pending : PendingCon)
  | giveUp (pending : PendingCon)
deriving DecidableEq

namespace Retransmit

def txSlot : Retransmit → Nat
  | due pending => pending.txSlot
  | giveUp pending => pending.txSlot

/-- What is pending after the event. -/
def remains : Retransmit → Option PendingCon
  | due pending => some pending
  | giveUp _ => none

end Retransmit

/-- Message ID and retransmission state on a slot. -/
structure PendingMark where
  messageId : MessageId
  rto : PendingRto
deriving DecidableEq

/-- A slot whose timeout is due, with what that leads to. -/
structure DueSlot where
  id : Nat
  event : Retransmit
  mark : Option PendingMark
deriving DecidableEq

structure TxSlot where
  bytes : List UInt8
  endpoint : Option Endpoint
  mark : Option PendingMark
deriving DecidableEq

def TxSlot.blank : TxSlot := ⟨[], none, none⟩

/-- What is left of a slot without its retransmission state. -/
def TxSlot.datagram (slot : TxSlot) : DatagramSlot Endpoint Unit :=
  ⟨⟨slot.bytes, none⟩, slot.endpoint, slot.mark.map (·.messageId)⟩

inductive ReplaceError
  | stale
  | invalidMessage
  | slot (error : SlotError)
  | body (error : BlockTransferError)
  | unsupported
deriving DecidableEq

/-- The outgoing datagram pool and the cursor of the retransmission scan. -/
structure TxMemory where
  slots : List TxSlot
  occ : Occupancy
  slotBytes : Nat
  retransmitCursor : Nat
deriving DecidableEq

namespace TxMemory

def new (n slotBytes : Nat) : TxMemory := ⟨List.replicate n .blank, .new n, slotBytes, 0⟩

/-! ### Slots -/

section

variable (memory : TxMemory)

def modifySlot (id : Nat) (f : TxSlot → TxSlot) : TxMemory :=
  { memory with slots := memory.slots.modify id f }

def slot (id : Nat) : Option TxSlot :=
  if memory.occ.isOccupied id then memory.slots[id]? else none

def acquireTx : Option Nat × TxMemory :=
  match memory.occ.acquire with
  | none => (none, memory)
  | some (id, occ) => (some id, { memory with occ }.modifySlot id fun _ => .blank)

section

variable (id : Nat)

def releaseTx : Except SlotError Unit × TxMemory :=
  match memory.occ.release id with
  | .error e => (.error e, memory)
  | .ok occ => (.ok (), { memory with occ }.modifySlot id fun _ => .blank)

/-- A guard on the slot's bytes, which pins an occupied slot that has none. -/
def access : TxMemory :=
  if memory.occ.isOccupied id then
    { memory with occ := { memory.occ with pinned := memory.occ.pinned.set id true } }
  else memory

def unpin : TxMemory :=
  { memory with occ := { memory.occ with pinned := memory.occ.pinned.set id false } }

/-- The caller writes a datagram into the slot's buffer and sets its length. -/
def fill (bytes : List UInt8) : TxMemory :=
  if memory.occ.isOccupied id ∧ bytes.length ≤ memory.slotBytes then
    memory.modifySlot id fun slot => { slot with bytes }
  else memory

def setEndpoint (endpoint : Endpoint) : Except SlotError Unit × TxMemory :=
  if memory.occ.isOccupied id then
    (.ok (), memory.modifySlot id fun slot => { slot with endpoint := some endpoint })
  else (.error (if id < memory.slots.length then .notOccupied else .invalidSlot), memory)

def setPending (messageId : MessageId) (rto : PendingRto) : Except SlotError Unit × TxMemory :=
  if memory.occ.isOccupied id then
    (.ok (), memory.modifySlot id fun slot => { slot with mark := some ⟨messageId, rto⟩ })
  else (.error (if id < memory.slots.length then .notOccupied else .invalidSlot), memory)

def clearPendingMid : Except SlotError Unit × TxMemory :=
  if memory.occ.isOccupied id then
    (.ok (), memory.modifySlot id fun slot => { slot with mark := none })
  else (.error (if id < memory.slots.length then .notOccupied else .invalidSlot), memory)

/-! ### Pending Confirmables -/

def pendingCon : Option PendingCon := do
  let slot ← memory.slot id
  let mark ← slot.mark
  let endpoint ← slot.endpoint
  some ⟨mark.messageId, endpoint, id, mark.rto⟩

end

def outstandingPending (endpoint : Endpoint) : Nat :=
  ((List.range memory.slots.length).filter fun id =>
    (memory.pendingCon id).any fun pending => pending.endpoint.physical = endpoint.physical).length

/-- Whether a new mark may be recorded: `some false` keeps what is there, `none` is refused. -/
def recordAdmission (existing : Option PendingCon) (messageId : MessageId) (endpoint : Endpoint)
    (outstanding : Nat) : Option Bool :=
  let admitted := if nstart ≤ outstanding then none else some true
  match existing with
  | none => admitted
  | some pending =>
  if pending.messageId = messageId ∧ pending.endpoint = endpoint then some false
  else if pending.endpoint.physical = endpoint.physical then some true
  else admitted

section

variable (id : Nat) (endpoint : Endpoint) (messageId : MessageId)

/-- Endpoint and mark on an occupied slot, in the source's order of writes. -/
def mark (rto : PendingRto) : Bool × TxMemory :=
  match memory.setEndpoint id endpoint with
  | (.error _, memory) => (false, memory)
  | (.ok (), memory) =>
  match memory.setPending id messageId rto with
  | (.error _, memory) => (false, memory)
  | (.ok (), memory) => (true, memory)

def reservePendingCon : Option PendingCon × TxMemory :=
  if !memory.occ.isOccupied id then (none, memory)
  else
  match memory.pendingCon id with
  | some current =>
    (if !current.rto.started ∧ current.messageId = messageId ∧ current.endpoint = endpoint
      then some current else none, memory)
  | none =>
    match recordAdmission none messageId endpoint (memory.outstandingPending endpoint) with
    | none => (none, memory)
    | some _ =>
    match memory.mark id endpoint messageId .reserved with
    | (false, memory) => (none, memory)
    | (true, memory) => (memory.pendingCon id, memory)

/-- Start the retransmission timer after the transport accepted the reserved message. -/
def commitPendingCon (expected : PendingCon) (nowMs jitterMs : Nat) :
    Option PendingCon × TxMemory :=
  if expected.rto.started ∨ memory.pendingCon expected.txSlot ≠ some expected then (none, memory)
  else
  match memory.setPending expected.txSlot expected.messageId (.new nowMs jitterMs) with
  | (.error _, memory) => (none, memory)
  | (.ok (), memory) => (memory.pendingCon expected.txSlot, memory)

/-- Cancel exactly the reservation that was never sent. -/
def cancelPendingCon (expected : PendingCon) : Bool × TxMemory :=
  if expected.rto.started ∨ memory.pendingCon expected.txSlot ≠ some expected then (false, memory)
  else
  match memory.clearPendingMid expected.txSlot with
  | (.error _, memory) => (false, memory)
  | (.ok (), memory) => (true, memory)

def recordPendingCon (nowMs jitterMs : Nat) : Option Nat × TxMemory :=
  if !memory.occ.isOccupied id then (none, memory)
  else if (memory.pendingCon id).any fun pending => !pending.rto.started then (none, memory)
  else
  match recordAdmission (memory.pendingCon id) messageId endpoint
      (memory.outstandingPending endpoint) with
  | none => (none, memory)
  | some false => (some id, memory)
  | some true =>
  match memory.mark id endpoint messageId (.new nowMs jitterMs) with
  | (false, memory) => (none, memory)
  | (true, memory) => (some id, memory)

end

/-- The slot an ACK or a Reset matches: started, with this Message ID and peer. -/
def lookupPendingCon (messageId : MessageId) (endpoint : Endpoint) : Option Nat :=
  (List.range memory.slots.length).find? fun id =>
    (memory.slot id).any fun slot =>
      slot.mark.map (·.messageId) == some messageId && slot.endpoint == some endpoint &&
        slot.mark.any (·.rto.started)

def takePendingCon (messageId : MessageId) (endpoint : Endpoint) : Option Nat × TxMemory :=
  match memory.lookupPendingCon messageId endpoint with
  | none => (none, memory)
  | some id =>
  match memory.clearPendingMid id with
  | (.error _, memory) => (none, memory)
  | (.ok (), memory) => (some id, memory)

/-- What a due timeout leads to: the next attempt, or giving up. -/
def dueSnapshot (pending : PendingCon) (nowMs : Nat) : Option DueSlot :=
  if !pending.rto.isDue nowMs then none
  else
  match pending.rto.nextAttempt nowMs with
  | some rto =>
    some ⟨pending.txSlot, .due { pending with rto }, some ⟨pending.messageId, rto⟩⟩
  | none => some ⟨pending.txSlot, .giveUp pending, none⟩

/-- The due slot the scan comes to first, from the cursor on and round. -/
def nextDueSlot (slotCount cursor nowMs : Nat) (pendingAt : Nat → Option PendingCon) :
    Option DueSlot :=
  if slotCount = 0 then none
  else
  let start := cursor % slotCount
  (List.range' start (slotCount - start) ++ List.range start).findSome? fun id =>
    (pendingAt id).bind fun pending => dueSnapshot pending nowMs

/-- Select a due Confirmable. Neither its timer nor the cursor changes. -/
def peekRetransmit (nowMs : Nat) : Option PendingCon :=
  (nextDueSlot memory.slots.length memory.retransmitCursor nowMs memory.pendingCon).bind
    fun due => memory.pendingCon due.id

def writeMark (id : Nat) : Option PendingMark → Except SlotError Unit × TxMemory
  | some mark => memory.setPending id mark.messageId mark.rto
  | none => memory.clearPendingMid id

/-- Count a selected timeout after the caller has completed its work. -/
def commitRetransmit (expected : PendingCon) (nowMs : Nat) : Option Retransmit × TxMemory :=
  if memory.pendingCon expected.txSlot ≠ some expected then (none, memory)
  else
  match dueSnapshot expected nowMs with
  | none => (none, memory)
  | some due =>
  match memory.writeMark due.id due.mark with
  | (.error _, memory) => (none, memory)
  | (.ok (), memory) => (some due.event, { memory with retransmitCursor := due.id + 1 })

def pollRetransmit (nowMs : Nat) : Option Retransmit × TxMemory :=
  match memory.peekRetransmit nowMs with
  | none => (none, memory)
  | some expected => memory.commitRetransmit expected nowMs

def validateReplacement (expected : PendingCon) (current : Option PendingCon)
    (original : Option (List UInt8)) (bytes : List UInt8) (capacity : Nat) (pinned : Bool) :
    Except ReplaceError PendingCon :=
  if current ≠ some expected ∨ !expected.rto.started then .error .stale
  else if pinned then .error (.slot .pinned)
  else if capacity < bytes.length then .error (.slot .lengthExceedsSlot)
  else
  match original with
  | none => .error .stale
  | some original =>
  match extendedDecode original, extendedDecode bytes with
  | .error _, _ => .error .invalidMessage
  | .ok _, .error _ => .error .invalidMessage
  | .ok old, .ok new =>
  if old.header.ty ≠ .confirmable ∨ old.header.code.isEmpty ∨
      old.header.id ≠ expected.messageId ∨ new.header.ty ≠ .confirmable ∨
      new.header.code.isEmpty ∨ new.header.id = expected.messageId ∨ new.token ≠ old.token then
    .error .invalidMessage
  else .ok { expected with messageId := new.header.id }

/-- Replace the message in its slot, with a new Message ID and the same timer. -/
def replacePendingCon (expected : PendingCon) (bytes : List UInt8) :
    Except ReplaceError PendingCon × TxMemory :=
  let id := expected.txSlot
  match validateReplacement expected (memory.pendingCon id) ((memory.slot id).map (·.bytes)) bytes
      memory.slotBytes (memory.occ.pinned[id]?.getD false) with
  | .error e => (.error e, memory)
  | .ok replacement =>
    (.ok replacement, memory.modifySlot id fun slot =>
      { slot with bytes, mark := some ⟨replacement.messageId, replacement.rto⟩ })

/-! ### Sending -/

/-- Who has to clean up when a first send does not come to its end. -/
structure SendOwner where
  tx : Nat
  reserved : Option PendingCon
  release : Bool
deriving DecidableEq

/-- What an owner does when it goes away. -/
def drop (owner : SendOwner) : TxMemory :=
  let memory := match owner.reserved with
    | none => memory
    | some reserved => (memory.cancelPendingCon reserved).2
  if owner.release then (memory.releaseTx owner.tx).2 else memory

section

variable (tx : Nat) (dest : Endpoint) (mid : Option MessageId) (expected : Option PendingCon)

/-- Whether the slot may be sent from: nothing pending, or exactly the reservation presented. -/
def mayPrepare : Bool :=
  match expected with
  | some expected =>
    decide (memory.pendingCon tx = some expected ∧ expected.rto.started = false ∧
      expected.endpoint = dest ∧ some expected.messageId = mid)
  | none => (memory.pendingCon tx).isNone

def prepare : Option SendOwner × TxMemory :=
  if !memory.mayPrepare tx dest mid expected then (none, memory)
  else
  let owner : SendOwner := ⟨tx, expected, true⟩
  match memory.setEndpoint tx dest with
  | (.error _, memory) => (none, memory.drop owner)
  | (.ok (), memory) =>
  match mid, expected with
  | some mid, none =>
    match memory.reservePendingCon tx dest mid with
    | (none, memory) => (none, memory.drop owner)
    | (some reserved, memory) => (some { owner with reserved := some reserved }, memory)
  | _, _ => (some owner, memory)

/-- The transport accepted the message: a Confirmable keeps its slot, with its timer started. -/
def commit (owner : SendOwner) (nowMs jitterMs : Nat) : Bool × SendOwner × TxMemory :=
  match owner.reserved with
  | none => (true, owner, memory)
  | some reserved =>
  match memory.commitPendingCon reserved nowMs jitterMs with
  | (none, memory) => (false, owner, memory)
  | (some _, memory) => (true, { owner with reserved := none, release := false }, memory)

/-- A first send from beginning to end; `accepted` is what the transport says. -/
def send (nowMs jitterMs : Nat) (accepted : Bool) : Bool × TxMemory :=
  match memory.prepare tx dest mid expected with
  | (none, memory) => (false, memory)
  | (some owner, memory) =>
  if !accepted then (false, memory.drop owner)
  else
    match memory.commit owner nowMs jitterMs with
    | (sent, owner, memory) => (sent, memory.drop owner)

end

def finish (tx : Nat) (dest : Endpoint) (pending : Option (Nat × MessageId × Nat))
    (accepted : Bool) : Bool × TxMemory :=
  let (nowMs, jitterMs) := pending.elim (0, 0) fun (now, _, jitter) => (now, jitter)
  memory.send tx dest (pending.map fun (_, mid, _) => mid) none nowMs jitterMs accepted

def finishPrepared (tx : Nat) (dest : Endpoint) (pending : Option (PendingCon × Nat))
    (nowMs : Nat) (accepted : Bool) : Bool × TxMemory :=
  memory.send tx dest (pending.map (·.1.messageId)) (pending.map (·.1)) nowMs
    (pending.elim 0 (·.2)) accepted

/-! ### Events -/

/-- One call on the pool. A send holds the pool from its reservation to its end, so it is one
event with the transport's outcome. -/
inductive Event
  | acquireTx
  | releaseTx (id : Nat)
  | access (id : Nat)
  | unpin (id : Nat)
  | fill (id : Nat) (bytes : List UInt8)
  | reserve (id : Nat) (endpoint : Endpoint) (messageId : MessageId)
  | commit (expected : PendingCon) (nowMs jitterMs : Nat)
  | cancel (expected : PendingCon)
  | record (id : Nat) (endpoint : Endpoint) (messageId : MessageId) (nowMs jitterMs : Nat)
  | take (messageId : MessageId) (endpoint : Endpoint)
  | commitRetransmit (expected : PendingCon) (nowMs : Nat)
  | poll (nowMs : Nat)
  | replace (expected : PendingCon) (bytes : List UInt8)
  | finish (tx : Nat) (dest : Endpoint) (pending : Option (Nat × MessageId × Nat)) (accepted : Bool)
  | finishPrepared (tx : Nat) (dest : Endpoint) (pending : Option (PendingCon × Nat)) (nowMs : Nat)
      (accepted : Bool)
deriving DecidableEq

def step : Event → TxMemory
  | .acquireTx => memory.acquireTx.2
  | .releaseTx id => (memory.releaseTx id).2
  | .access id => memory.access id
  | .unpin id => memory.unpin id
  | .fill id bytes => memory.fill id bytes
  | .reserve id endpoint messageId => (memory.reservePendingCon id endpoint messageId).2
  | .commit expected nowMs jitterMs => (memory.commitPendingCon expected nowMs jitterMs).2
  | .cancel expected => (memory.cancelPendingCon expected).2
  | .record id endpoint messageId nowMs jitterMs =>
    (memory.recordPendingCon id endpoint messageId nowMs jitterMs).2
  | .take messageId endpoint => (memory.takePendingCon messageId endpoint).2
  | .commitRetransmit expected nowMs => (memory.commitRetransmit expected nowMs).2
  | .poll nowMs => (memory.pollRetransmit nowMs).2
  | .replace expected bytes => (memory.replacePendingCon expected bytes).2
  | .finish tx dest pending accepted => (memory.finish tx dest pending accepted).2
  | .finishPrepared tx dest pending nowMs accepted =>
    (memory.finishPrepared tx dest pending nowMs accepted).2

/-! ### One pending Confirmable per physical endpoint -/

/-- No other slot is pending to this physical endpoint. -/
def Admitted (id : Nat) (endpoint : Endpoint) : Prop :=
  ∀ j pending, j ≠ id → memory.pendingCon j = some pending →
    pending.endpoint.physical ≠ endpoint.physical

/-- At most one Confirmable, reserved or started, is pending to a physical endpoint. -/
def Single : Prop :=
  ∀ i j p q, memory.pendingCon i = some p → memory.pendingCon j = some q →
    p.endpoint.physical = q.endpoint.physical → i = j

end

/-- What every operation keeps. A mark never stands without its endpoint: a send that sets the
endpoint of a slot must not bring an old mark back to life. -/
structure Sound (memory : TxMemory) : Prop where
  single : memory.Single
  addressed : ∀ id slot, memory.slot id = some slot → slot.mark.isSome → slot.endpoint.isSome

variable {memory memory' : TxMemory} {id : Nat} {endpoint : Endpoint} {pending : PendingCon}

theorem pendingCon_eq_some : memory.pendingCon id = some pending ↔
    ∃ slot, memory.slot id = some slot ∧ slot.mark = some ⟨pending.messageId, pending.rto⟩ ∧
      slot.endpoint = some pending.endpoint ∧ pending.txSlot = id := by
  simp only [pendingCon, bind_eq_bind, bind_eq_some_iff, some.injEq]
  constructor
  · rintro ⟨slot, at_, mark, marked, endpoint, addressed, rfl⟩
    exact ⟨slot, at_, marked, addressed, rfl⟩
  · rintro ⟨slot, at_, marked, addressed, rfl⟩
    exact ⟨slot, at_, _, marked, _, addressed, rfl⟩

theorem txSlot_of_pendingCon (h : memory.pendingCon id = some pending) : pending.txSlot = id := by
  obtain ⟨_, _, _, _, same⟩ := pendingCon_eq_some.mp h
  exact same

theorem taken_of_pendingCon (h : memory.pendingCon id = some pending) :
    memory.occ.isOccupied id = true ∧ id < memory.slots.length := by
  obtain ⟨slot, at_, -⟩ := pendingCon_eq_some.mp h
  rw [TxMemory.slot, ite_none_right_eq_some] at at_
  exact ⟨at_.1, (List.getElem?_eq_some_iff.mp at_.2).1⟩

/-- The pending view reads nothing but the slot. -/
theorem pendingCon_congr (h : memory'.slot id = memory.slot id) :
    memory'.pendingCon id = memory.pendingCon id := by
  simp only [pendingCon, h]

theorem slot_modifySlot (f : TxSlot → TxSlot) (j : Nat) :
    (memory.modifySlot id f).slot j = if j = id then (memory.slot j).map f else memory.slot j := by
  simp only [TxMemory.slot, modifySlot, List.getElem?_modify]
  by_cases same : id = j
  · subst same
    by_cases taken : memory.occ.isOccupied id <;> simp [taken]
  · by_cases taken : memory.occ.isOccupied j <;> simp [taken, same, Ne.symm same]

/-- The pool of datagrams that the memory is, but for retransmission. -/
structure Shows (memory : TxMemory) (pool : DatagramPool Endpoint Unit) : Prop where
  slots : pool.slots = memory.slots.map TxSlot.datagram
  occ : pool.occ = memory.occ

namespace Shows

theorem new (n slotBytes : Nat) : Shows (.new n slotBytes) (.new n) :=
  ⟨by rw [TxMemory.new, List.map_replicate]; rfl, rfl⟩

variable {pool pool' : DatagramPool Endpoint Unit} (shows : Shows memory pool)
include shows

theorem reset (slots : pool'.slots = pool.slots.modify id fun _ => .blank) :
    Shows ({ memory with occ := pool'.occ }.modifySlot id fun _ => .blank) pool' := by
  refine ⟨List.ext_getElem? fun j => ?_, rfl⟩
  simp only [slots, shows.slots, TxMemory.modifySlot, List.getElem?_map, List.getElem?_modify]
  by_cases here : id = j <;> simp [here]
  rfl

/-- Slots are taken and given back as in a pool of datagrams. -/
theorem acquireTx (acquired : pool.acquire = some (id, pool')) :
    memory.acquireTx.1 = some id ∧ Shows memory.acquireTx.2 pool' := by
  obtain ⟨_, found, rfl, slots⟩ := DatagramPool.acquire_some acquired
  rw [shows.occ] at found
  rw [TxMemory.acquireTx, found]
  exact ⟨rfl, shows.reset slots⟩

theorem releaseTx (released : pool.release id = .ok pool') :
    (memory.releaseTx id).1 = .ok () ∧ Shows (memory.releaseTx id).2 pool' := by
  obtain ⟨⟨_, freed, rfl⟩, slots⟩ := DatagramPool.release_ok released
  rw [shows.occ] at freed
  rw [TxMemory.releaseTx, freed]
  exact ⟨rfl, shows.reset slots⟩

end Shows

/-- A step that touches one slot is safe if a mark it leaves there is addressed and admitted. -/
theorem Sound.change (sound : memory.Sound) (id : Nat)
    (others : ∀ j, j ≠ id → memory'.slot j = memory.slot j)
    (here : ∀ slot, memory'.slot id = some slot → slot.mark.isSome →
      ∃ endpoint, slot.endpoint = some endpoint ∧ memory.Admitted id endpoint) :
    memory'.Sound := by
  -- A pending message at `id` is admitted against every other slot, and those are as before.
  have alone : ∀ j p q, memory'.pendingCon id = some p → memory'.pendingCon j = some q → j ≠ id →
      q.endpoint.physical ≠ p.endpoint.physical := by
    intro j p q atId atJ other
    obtain ⟨slot, at_, marked, addressed, -⟩ := pendingCon_eq_some.mp atId
    obtain ⟨endpoint, isEndpoint, admitted⟩ := here slot at_ (by simp [marked])
    rw [pendingCon_congr (others j other)] at atJ
    rw [addressed] at isEndpoint
    cases isEndpoint
    exact admitted j q other atJ
  constructor
  · intro i j p q atI atJ same
    by_cases iHere : i = id
    · subst iHere
      by_contra different
      exact alone j p q atI atJ (Ne.symm different) same.symm
    by_cases jHere : j = id
    · subst jHere
      exact absurd same (alone i q p atJ atI iHere)
    rw [pendingCon_congr (others i iHere)] at atI
    rw [pendingCon_congr (others j jHere)] at atJ
    exact sound.single i j p q atI atJ same
  · intro j slot at_ marked
    by_cases jHere : j = id
    · subst jHere
      obtain ⟨endpoint, isEndpoint, -⟩ := here slot at_ marked
      simp [isEndpoint]
    · rw [others j jHere] at at_
      exact sound.addressed j slot at_ marked

theorem Sound.modifySlot (sound : memory.Sound) (id : Nat) (f : TxSlot → TxSlot)
    (here : ∀ slot, memory.slot id = some slot → (f slot).mark.isSome →
      ∃ endpoint, (f slot).endpoint = some endpoint ∧ memory.Admitted id endpoint) :
    (memory.modifySlot id f).Sound := by
  apply sound.change id
  · intro j other
    rw [slot_modifySlot, if_neg other]
  intro slot at_ marked
  rw [slot_modifySlot, if_pos rfl, map_eq_some_iff] at at_
  obtain ⟨before, at_, rfl⟩ := at_
  exact here before at_ marked

/-- What is pending was admitted, also against a peer with another association. -/
theorem Sound.admitted (sound : memory.Sound) (h : memory.pendingCon id = some pending)
    (same : pending.endpoint.physical = endpoint.physical) : memory.Admitted id endpoint := by
  intro j other different atJ equal
  exact different (sound.single j id other pending atJ h (equal.trans same.symm))

theorem admitted_of_outstanding (none : memory.outstandingPending endpoint = 0) :
    memory.Admitted id endpoint := by
  intro j pending _ atJ same
  -- The slot is one of those counted.
  have inside := (taken_of_pendingCon atJ).2
  rw [outstandingPending, List.length_eq_zero_iff, List.filter_eq_nil_iff] at none
  apply none j (List.mem_range.mpr inside)
  simp [atJ, same]

variable {slot : TxSlot} {occ : Occupancy} {j nowMs : Nat} {messageId : MessageId} {due : DueSlot}
  {expected : PendingCon}

section

variable (sound : memory.Sound)
include sound

/-- A slot with its endpoint and mark as they were keeps the invariant. -/
theorem Sound.kept (at_ : memory.slot id = some slot) (marked : slot.mark.isSome) :
    ∃ endpoint, slot.endpoint = some endpoint ∧ memory.Admitted id endpoint := by
  obtain ⟨mark, isMark⟩ := isSome_iff_exists.mp marked
  obtain ⟨endpoint, isEndpoint⟩ := isSome_iff_exists.mp (sound.addressed id slot at_ marked)
  have here : memory.pendingCon id = some ⟨mark.messageId, endpoint, id, mark.rto⟩ :=
    pendingCon_eq_some.mpr ⟨slot, at_, isMark, isEndpoint, rfl⟩
  exact ⟨endpoint, isEndpoint, sound.admitted here rfl⟩

/-! ### Every operation keeps the invariant -/

omit sound in
theorem Sound.new (n slotBytes : Nat) : (new n slotBytes).Sound := by
  have free : ∀ id, (TxMemory.new n slotBytes).slot id = none := by
    intro id
    simp only [TxMemory.slot, TxMemory.new, Occupancy.isOccupied, Occupancy.new,
      List.getElem?_replicate]
    by_cases inside : id < n <;> simp [inside]
  constructor
  · intro i j p q atI
    obtain ⟨slot, at_, -⟩ := pendingCon_eq_some.mp atI
    rw [free] at at_
    cases at_
  intro id slot at_
  rw [free] at at_
  cases at_

omit sound in
/-- Slots other than the one acquired or released are as before. -/
theorem slot_reset {flag : Bool} (flags : occ.occupied = memory.occ.occupied.set id flag)
    (other : j ≠ id) :
    (({ memory with occ }.modifySlot id fun _ => TxSlot.blank).slot j) = memory.slot j := by
  have taken : occ.isOccupied j = memory.occ.isOccupied j := by
    rw [isOccupied, flags, List.getElem?_set_ne (Ne.symm other), isOccupied]
  rw [slot_modifySlot, if_neg other, TxMemory.slot, TxMemory.slot, taken]

omit sound in
theorem mark_reset (at_ : ({ memory with occ }.modifySlot id fun _ =>
    TxSlot.blank).slot id = some slot) :
    slot.mark = none := by
  rw [slot_modifySlot, if_pos rfl, map_eq_some_iff] at at_
  obtain ⟨-, -, rfl⟩ := at_
  rfl

theorem Sound.acquireTx : memory.acquireTx.2.Sound := by
  simp only [TxMemory.acquireTx]
  split
  · exact sound
  next id occ acquired =>
  apply sound.change id
  · intro j other
    exact slot_reset (acquire_some acquired).2.2 other
  · intro slot at_ marked
    simp [mark_reset at_] at marked

theorem Sound.releaseTx (id : Nat) : (memory.releaseTx id).2.Sound := by
  simp only [TxMemory.releaseTx]
  split
  · exact sound
  next occ released =>
  have flags : occ.occupied = memory.occ.occupied.set id false := by
    rw [(release_ok released).2]
  apply sound.change id
  · intro j other
    exact slot_reset flags other
  · intro slot at_ marked
    simp [mark_reset at_] at marked

/-- Pins and the scan's cursor are not read by the invariant. -/
theorem Sound.of_slot (same : ∀ id, memory'.slot id = memory.slot id) : memory'.Sound :=
  sound.change 0 (fun j _ => same j) fun _ at_ marked => sound.kept ((same 0).symm.trans at_) marked

theorem Sound.access (id : Nat) : (memory.access id).Sound := by
  simp only [TxMemory.access]
  split
  · exact sound.of_slot fun _ => rfl
  · exact sound

/-- A slot may be rewritten under its endpoint if no mark is set where none was. -/
theorem Sound.rewrite (f : TxSlot → TxSlot) (peer : ∀ slot, (f slot).endpoint = slot.endpoint)
    (marked : ∀ slot, memory.slot id = some slot → (f slot).mark.isSome → slot.mark.isSome) :
    (memory.modifySlot id f).Sound := by
  apply sound.modifySlot
  intro slot at_ after
  rw [peer]
  exact sound.kept at_ (marked slot at_ after)

omit sound in
theorem marked_of_pendingCon (h : memory.pendingCon id = some pending)
    (at_ : memory.slot id = some slot) : slot.mark.isSome := by
  obtain ⟨here, at', marked, -⟩ := pendingCon_eq_some.mp h
  rw [at_] at at'
  cases at'
  simp [marked]

theorem Sound.fill (id : Nat) (bytes : List UInt8) : (memory.fill id bytes).Sound := by
  simp only [TxMemory.fill]
  split
  · exact sound.rewrite _ (fun _ => rfl) fun _ _ marked => marked
  · exact sound

theorem Sound.clearPendingMid (id : Nat) : (memory.clearPendingMid id).2.Sound := by
  simp only [TxMemory.clearPendingMid]
  split
  · apply sound.modifySlot
    intro slot _ marked
    cases marked
  · exact sound

/-- A new mark where one already stands: the endpoint is the old one. -/
theorem Sound.setPending (h : memory.pendingCon id = some pending) (messageId : MessageId)
    (rto : PendingRto) : (memory.setPending id messageId rto).2.Sound := by
  simp only [TxMemory.setPending]
  split
  · exact sound.rewrite _ (fun _ => rfl) fun _ at_ _ => marked_of_pendingCon h at_
  · exact sound

theorem Sound.setEndpoint (admitted : memory.Admitted id endpoint) :
    (memory.setEndpoint id endpoint).2.Sound := by
  simp only [TxMemory.setEndpoint]
  split
  · exact sound.modifySlot _ _ fun _ _ _ => ⟨endpoint, rfl, admitted⟩
  · exact sound

/-- A slot with nothing pending may be given any endpoint: it has no mark. -/
theorem Sound.setEndpoint_idle (idle : memory.pendingCon id = none) :
    (memory.setEndpoint id endpoint).2.Sound := by
  simp only [TxMemory.setEndpoint]
  split
  · apply sound.modifySlot
    intro slot at_ marked
    have marked : slot.mark.isSome := marked
    obtain ⟨mark, isMark⟩ := isSome_iff_exists.mp marked
    obtain ⟨old, isEndpoint⟩ := isSome_iff_exists.mp (sound.addressed id slot at_ marked)
    simp [pendingCon, at_, isMark, isEndpoint] at idle
  · exact sound

end

theorem mark_eq (taken : memory.occ.isOccupied id) (messageId : MessageId) (rto : PendingRto) :
    memory.mark id endpoint messageId rto =
      (true, (memory.modifySlot id fun slot => { slot with endpoint := some endpoint }).modifySlot id
        fun slot => { slot with mark := some ⟨messageId, rto⟩ }) := by
  simp only [mark, TxMemory.setEndpoint, TxMemory.setPending, modifySlot, taken, if_true]

section

variable (sound : memory.Sound)
include sound

theorem Sound.mark (taken : memory.occ.isOccupied id) (admitted : memory.Admitted id endpoint)
    (messageId : MessageId) (rto : PendingRto) :
    (memory.mark id endpoint messageId rto).2.Sound := by
  rw [mark_eq taken]
  apply sound.change id
  · intro j other
    rw [slot_modifySlot, if_neg other, slot_modifySlot, if_neg other]
  intro slot at_ _
  rw [slot_modifySlot, if_pos rfl, slot_modifySlot, if_pos rfl, map_map,
    map_eq_some_iff] at at_
  obtain ⟨before, -, rfl⟩ := at_
  exact ⟨endpoint, rfl, admitted⟩

/-- A new mark is admitted: over a mark to the same physical endpoint, or with none to it. -/
theorem Sound.recordAdmission (h : recordAdmission (memory.pendingCon id) messageId endpoint
    (memory.outstandingPending endpoint) = some true) : memory.Admitted id endpoint := by
  have fresh : (if nstart ≤ memory.outstandingPending endpoint then none else some true) = some true →
      memory.Admitted id endpoint := by
    intro admitted
    split at admitted
    · cases admitted
    next few =>
    apply admitted_of_outstanding
    simp only [nstart] at few
    omega
  simp only [TxMemory.recordAdmission] at h
  split at h
  · exact fresh h
  next pending here =>
  split at h
  · cases h
  split at h
  next same => exact sound.admitted here same
  · exact fresh h

theorem Sound.reserve (id : Nat) (endpoint : Endpoint) (messageId : MessageId) :
    (memory.reservePendingCon id endpoint messageId).2.Sound := by
  simp only [reservePendingCon]
  split
  · exact sound
  next taken =>
  split
  · exact sound
  next idle =>
  split
  · exact sound
  next keep admitted =>
  have new : keep = true := by
    simp only [TxMemory.recordAdmission] at admitted
    split at admitted <;> simp_all
  have kept := sound.mark (by simpa using taken)
    (sound.recordAdmission (by rw [idle, admitted, new])) messageId .reserved
  split <;> simp_all

theorem Sound.commitPendingCon (expected : PendingCon) (nowMs jitterMs : Nat) :
    (memory.commitPendingCon expected nowMs jitterMs).2.Sound := by
  simp only [TxMemory.commitPendingCon]
  split
  · exact sound
  next current =>
  have kept := sound.setPending (by tauto : memory.pendingCon expected.txSlot = some expected)
    expected.messageId (.new nowMs jitterMs)
  split <;> simp_all

theorem Sound.cancel (expected : PendingCon) : (memory.cancelPendingCon expected).2.Sound := by
  simp only [cancelPendingCon]
  split
  · exact sound
  · have kept := sound.clearPendingMid expected.txSlot
    split <;> simp_all

theorem Sound.record (id : Nat) (endpoint : Endpoint) (messageId : MessageId)
    (nowMs jitterMs : Nat) :
    (memory.recordPendingCon id endpoint messageId nowMs jitterMs).2.Sound := by
  simp only [recordPendingCon]
  split
  · exact sound
  next taken =>
  split
  · exact sound
  split
  · exact sound
  · exact sound
  next admitted =>
  have kept := sound.mark (by simpa using taken) (sound.recordAdmission admitted) messageId
    (.new nowMs jitterMs)
  split <;> simp_all

theorem Sound.take (messageId : MessageId) (endpoint : Endpoint) :
    (memory.takePendingCon messageId endpoint).2.Sound := by
  simp only [takePendingCon]
  split
  · exact sound
  next id _ =>
  have kept := sound.clearPendingMid id
  split <;> simp_all

end

theorem dueSnapshot_eq_some (h : dueSnapshot pending nowMs = some due) :
    pending.rto.started = true ∧ due.id = pending.txSlot := by
  simp only [dueSnapshot] at h
  split at h
  · cases h
  next isDue =>
  have started : pending.rto.started = true := by
    simp only [PendingRto.isDue] at isDue
    simp_all
  split at h <;> cases h <;> exact ⟨started, rfl⟩

theorem Sound.commitRetransmit (sound : memory.Sound) (expected : PendingCon) (nowMs : Nat) :
    (memory.commitRetransmit expected nowMs).2.Sound := by
  simp only [TxMemory.commitRetransmit]
  split
  · exact sound
  next current =>
  split
  · exact sound
  next due found =>
  have current : memory.pendingCon due.id = some expected := by
    rw [(dueSnapshot_eq_some found).2]
    exact not_not.mp current
  have kept : (memory.writeMark due.id due.mark).2.Sound := by
    cases due.mark with
    | none => exact sound.clearPendingMid due.id
    | some mark => exact sound.setPending current mark.messageId mark.rto
  split
  · simp_all
  next written =>
  rw [written] at kept
  exact kept.of_slot fun _ => rfl

theorem Sound.poll (sound : memory.Sound) (nowMs : Nat) :
    (memory.pollRetransmit nowMs).2.Sound := by
  simp only [pollRetransmit]
  split
  · exact sound
  · exact sound.commitRetransmit _ nowMs

theorem validateReplacement_ok {current : Option PendingCon} {original : Option (List UInt8)}
    {bytes : List UInt8} {capacity : Nat} {pinned : Bool} {replacement : PendingCon}
    (h : validateReplacement expected current original bytes capacity pinned = .ok replacement) :
    current = some expected := by
  simp only [validateReplacement] at h
  split at h
  · cases h
  next fresh => tauto

section

variable (sound : memory.Sound)
include sound

theorem Sound.replace (expected : PendingCon) (bytes : List UInt8) :
    (memory.replacePendingCon expected bytes).2.Sound := by
  simp only [replacePendingCon]
  split
  · exact sound
  next replacement valid =>
  exact sound.rewrite _ (fun _ => rfl)
    fun _ at_ _ => marked_of_pendingCon (validateReplacement_ok valid) at_

/-! ### Sends -/

theorem Sound.drop (owner : SendOwner) : (memory.drop owner).Sound := by
  simp only [TxMemory.drop]
  have cancelled : (match owner.reserved with
      | none => memory
      | some reserved => (memory.cancelPendingCon reserved).2).Sound := by
    split
    · exact sound
    · exact sound.cancel _
  split
  · exact cancelled.releaseTx owner.tx
  · exact cancelled

section

variable (tx : Nat) (dest : Endpoint) (mid : Option MessageId) (expected : Option PendingCon)

theorem Sound.prepare : (memory.prepare tx dest mid expected).2.Sound := by
  simp only [TxMemory.prepare]
  split
  · exact sound
  next may =>
  -- Nothing is pending in the slot, or a reservation to this very endpoint.
  have addressed : (memory.setEndpoint tx dest).2.Sound := by
    cases expected with
    | none =>
      apply sound.setEndpoint_idle
      simpa [mayPrepare] using may
    | some expected =>
      simp only [mayPrepare, Bool.not_eq_true', decide_eq_false_iff_not, not_not] at may
      exact sound.setEndpoint (sound.admitted may.1 (by rw [may.2.2.1]))
  split
  next memory' failed =>
    rw [failed] at addressed
    exact Sound.drop addressed ⟨tx, expected, true⟩
  next memory' set =>
  rw [set] at addressed
  split
  next mid =>
    have kept := addressed.reserve tx dest mid
    split
    next memory' failed =>
      rw [failed] at kept
      exact Sound.drop kept ⟨tx, none, true⟩
    next reserved =>
    rw [reserved] at kept
    exact kept
  · exact addressed

theorem Sound.commit (owner : SendOwner) (nowMs jitterMs : Nat) :
    (memory.commit owner nowMs jitterMs).2.2.Sound := by
  simp only [TxMemory.commit]
  split
  · exact sound
  next reserved _ =>
  have kept := sound.commitPendingCon reserved nowMs jitterMs
  split <;> simp_all

theorem Sound.send (nowMs jitterMs : Nat) (accepted : Bool) :
    (memory.send tx dest mid expected nowMs jitterMs accepted).2.Sound := by
  simp only [TxMemory.send]
  have prepared := sound.prepare tx dest mid expected
  split
  next refused =>
    rw [refused] at prepared
    exact prepared
  next owner memory' owned =>
  rw [owned] at prepared
  split
  · exact prepared.drop owner
  · exact (prepared.commit owner nowMs jitterMs).drop _

end

theorem Sound.step (event : Event) : (memory.step event).Sound := by
  cases event with
  | acquireTx => exact sound.acquireTx
  | releaseTx id => exact sound.releaseTx id
  | access id => exact sound.access id
  | unpin id => exact sound.of_slot fun _ => rfl
  | fill id bytes => exact sound.fill id bytes
  | reserve id endpoint messageId => exact sound.reserve id endpoint messageId
  | commit expected nowMs jitterMs => exact sound.commitPendingCon expected nowMs jitterMs
  | cancel expected => exact sound.cancel expected
  | record id endpoint messageId nowMs jitterMs =>
    exact sound.record id endpoint messageId nowMs jitterMs
  | take messageId endpoint => exact sound.take messageId endpoint
  | commitRetransmit expected nowMs => exact sound.commitRetransmit expected nowMs
  | poll nowMs => exact sound.poll nowMs
  | replace expected bytes => exact sound.replace expected bytes
  | finish tx dest pending accepted => exact sound.send ..
  | finishPrepared tx dest pending nowMs accepted => exact sound.send ..

end

theorem Sound.run (n slotBytes : Nat) (events : List Event) :
    (run TxMemory.step (TxMemory.new n slotBytes) events).Sound :=
  invariant_run (fun _ event sound => sound.step event) (.new n slotBytes) events

/-! ### Reservations -/

theorem lookupPendingCon_eq_some (h : memory.lookupPendingCon messageId endpoint = some id) :
    ∃ pending, memory.pendingCon id = some pending ∧ pending.messageId = messageId ∧
      pending.endpoint = endpoint ∧ pending.rto.started = true := by
  have found := List.find?_some h
  obtain ⟨slot, at_, found⟩ := (any_eq_true _ _).mp found
  simp only [Bool.and_eq_true, beq_iff_eq] at found
  obtain ⟨⟨isMid, isEndpoint⟩, started⟩ := found
  obtain ⟨mark, isMark, isMid⟩ := map_eq_some_iff.mp isMid
  refine ⟨⟨messageId, endpoint, id, mark.rto⟩, ?_, rfl, rfl, ?_⟩
  · exact pendingCon_eq_some.mpr ⟨slot, at_, by rw [isMark, ← isMid], isEndpoint, rfl⟩
  · simpa [isMark] using started

theorem nextDueSlot_eq_some {slotCount cursor : Nat} {pendingAt : Nat → Option PendingCon}
    (h : nextDueSlot slotCount cursor nowMs pendingAt = some due) :
    ∃ id pending, pendingAt id = some pending ∧ dueSnapshot pending nowMs = some due := by
  simp only [nextDueSlot] at h
  split at h
  · cases h
  obtain ⟨id, -, found⟩ := List.exists_of_findSome?_eq_some h
  obtain ⟨pending, here, isDue⟩ := bind_eq_some_iff.mp found
  exact ⟨id, pending, here, isDue⟩

theorem peekRetransmit_started (h : memory.peekRetransmit nowMs = some pending) :
    pending.rto.started = true := by
  obtain ⟨due, found, here⟩ := bind_eq_some_iff.mp h
  obtain ⟨id, current, at_, isDue⟩ := nextDueSlot_eq_some found
  obtain ⟨started, isId⟩ := dueSnapshot_eq_some isDue
  -- The slot is read again by its own number.
  rw [isId, txSlot_of_pendingCon at_, at_] at here
  cases here
  exact started

theorem pendingCon_clearPendingMid (other : j ≠ id) :
    (memory.clearPendingMid id).2.pendingCon j = memory.pendingCon j := by
  apply pendingCon_congr
  simp only [clearPendingMid]
  split
  · rw [slot_modifySlot, if_neg other]
  · rfl

theorem pendingCon_setPending (other : j ≠ id) (messageId : MessageId) (rto : PendingRto) :
    (memory.setPending id messageId rto).2.pendingCon j = memory.pendingCon j := by
  apply pendingCon_congr
  simp only [TxMemory.setPending]
  split
  · rw [slot_modifySlot, if_neg other]
  · rfl

theorem pendingCon_writeMark (other : j ≠ id) (mark : Option PendingMark) :
    (memory.writeMark id mark).2.pendingCon j = memory.pendingCon j := by
  cases mark with
  | none => exact pendingCon_clearPendingMid other
  | some mark => exact pendingCon_setPending other mark.messageId mark.rto

theorem pendingCon_writeMark_self (here : memory.pendingCon id = some pending)
    (mark : Option PendingMark) : (memory.writeMark id mark).1 = .ok () ∧
      (memory.writeMark id mark).2.pendingCon id =
        mark.map fun mark => { pending with messageId := mark.messageId, rto := mark.rto } := by
  have taken := (taken_of_pendingCon here).1
  obtain ⟨slot, at_, -, addressed, isId⟩ := pendingCon_eq_some.mp here
  cases mark with
  | none => simp [writeMark, clearPendingMid, taken, pendingCon, slot_modifySlot, at_]
  | some mark =>
    simp [writeMark, TxMemory.setPending, taken, pendingCon, slot_modifySlot, at_, addressed, isId]

/-- A counted timeout leaves in its slot what it reports, and every other slot as it was. -/
theorem commitRetransmit_cases (memory : TxMemory) (expected : PendingCon) (nowMs : Nat) :
    memory.commitRetransmit expected nowMs = (none, memory) ∨
      ∃ due, memory.pendingCon expected.txSlot = some expected ∧
        dueSnapshot expected nowMs = some due ∧ due.event.txSlot = expected.txSlot ∧
        (memory.commitRetransmit expected nowMs).1 = some due.event ∧
        (memory.commitRetransmit expected nowMs).2.pendingCon expected.txSlot = due.event.remains ∧
        ∀ j ≠ expected.txSlot,
          (memory.commitRetransmit expected nowMs).2.pendingCon j = memory.pendingCon j := by
  simp only [TxMemory.commitRetransmit]
  split
  · exact .inl rfl
  next current =>
  split
  · exact .inl rfl
  next due found =>
  have here := not_not.mp current
  have isId := (dueSnapshot_eq_some found).2
  -- The mark that is written is what the event reports.
  have reports : due.event.txSlot = expected.txSlot ∧ due.event.remains =
      due.mark.map fun mark => { expected with messageId := mark.messageId, rto := mark.rto } := by
    simp only [dueSnapshot] at found
    split at found
    · cases found
    · split at found <;> cases found <;> exact ⟨rfl, rfl⟩
  obtain ⟨written, after⟩ := pendingCon_writeMark_self here due.mark
  rw [← reports.2, ← isId] at after
  rw [← isId] at written
  refine .inr ⟨due, here, found, reports.1, ?_⟩
  split
  next failed =>
    rw [failed] at written
    cases written
  next memory' wrote =>
    rw [wrote] at after
    refine ⟨rfl, ?_, fun j other => ?_⟩
    · rw [← isId, ← after]
      rfl
    · have kept : (memory.writeMark due.id due.mark).2.pendingCon j = memory.pendingCon j :=
        pendingCon_writeMark (isId ▸ other) due.mark
      rw [wrote] at kept
      exact kept

/-- What no ACK, Reset or timeout does to a reservation. -/
structure Unreached (memory : TxMemory) (reservation : PendingCon) : Prop where
  unmatched : ∀ messageId endpoint,
    memory.lookupPendingCon messageId endpoint ≠ some reservation.txSlot
  kept_take : ∀ messageId endpoint,
    (memory.takePendingCon messageId endpoint).2.pendingCon reservation.txSlot = some reservation
  not_due : ∀ nowMs, memory.peekRetransmit nowMs ≠ some reservation
  not_counted : ∀ nowMs, memory.commitRetransmit reservation nowMs = (none, memory)
  kept_retransmit : ∀ expected nowMs,
    (memory.commitRetransmit expected nowMs).2.pendingCon reservation.txSlot = some reservation
  kept_poll : ∀ nowMs,
    (memory.pollRetransmit nowMs).2.pendingCon reservation.txSlot = some reservation

section Reservation

variable {reservation : PendingCon} (here : memory.pendingCon id = some reservation)
  (unsent : reservation.rto.started = false)
include here unsent

theorem lookup_ne_reservation (messageId : MessageId) (endpoint : Endpoint) :
    memory.lookupPendingCon messageId endpoint ≠ some id := by
  intro found
  obtain ⟨pending, at_, -, -, started⟩ := lookupPendingCon_eq_some found
  rw [here] at at_
  cases at_
  simp [unsent] at started

theorem take_reservation (messageId : MessageId) (endpoint : Endpoint) :
    (memory.takePendingCon messageId endpoint).2.pendingCon id = some reservation := by
  simp only [takePendingCon]
  split
  · exact here
  next matched found =>
  have other : id ≠ matched := by
    rintro rfl
    exact lookup_ne_reservation here unsent messageId endpoint found
  have kept := (pendingCon_clearPendingMid other).trans here
  split <;> simp_all

theorem commitRetransmit_reservation (expected : PendingCon) (nowMs : Nat) :
    (memory.commitRetransmit expected nowMs).2.pendingCon id = some reservation := by
  obtain refused | ⟨due, current, found, -, -, -, others⟩ := memory.commitRetransmit_cases expected nowMs
  · rw [refused]
    exact here
  -- The snapshot is current and started, so it is not the reservation's slot that is due.
  have other : id ≠ expected.txSlot := by
    rintro rfl
    cases here.symm.trans current
    cases unsent.symm.trans (dueSnapshot_eq_some found).1
  exact (others id other).trans here

theorem Unreached.of_reservation : memory.Unreached reservation where
  unmatched messageId endpoint := by
    rw [txSlot_of_pendingCon here]
    exact lookup_ne_reservation here unsent messageId endpoint
  kept_take messageId endpoint := by
    rw [txSlot_of_pendingCon here]
    exact take_reservation here unsent messageId endpoint
  not_due nowMs due := by
    have started := peekRetransmit_started due
    rw [unsent] at started
    cases started
  not_counted nowMs := by
    simp [TxMemory.commitRetransmit, dueSnapshot, PendingRto.isDue, unsent]
  kept_retransmit expected nowMs := by
    rw [txSlot_of_pendingCon here]
    exact commitRetransmit_reservation here unsent expected nowMs
  kept_poll nowMs := by
    rw [txSlot_of_pendingCon here]
    simp only [pollRetransmit]
    split
    · exact here
    · exact commitRetransmit_reservation here unsent _ nowMs

end Reservation

/-! ### Stale snapshots -/

/-- The operation with this snapshot is refused, and the pool is as before. -/
structure Refused (memory : TxMemory) (expected : PendingCon) : Prop where
  commit : ∀ nowMs jitterMs, memory.commitPendingCon expected nowMs jitterMs = (none, memory)
  cancel : memory.cancelPendingCon expected = (false, memory)
  commitRetransmit : ∀ nowMs, memory.commitRetransmit expected nowMs = (none, memory)
  replace : ∀ bytes, memory.replacePendingCon expected bytes = (.error .stale, memory)
  finishPrepared : ∀ tx dest jitterMs nowMs accepted,
    memory.finishPrepared tx dest (some (expected, jitterMs)) nowMs accepted = (false, memory)

/-- A snapshot is stale when it is not what is pending in its slot. -/
theorem Refused.of_stale (stale : memory.pendingCon expected.txSlot ≠ some expected) :
    memory.Refused expected where
  commit nowMs jitterMs := by simp [TxMemory.commitPendingCon, stale]
  cancel := by simp [cancelPendingCon, stale]
  commitRetransmit nowMs := by simp [TxMemory.commitRetransmit, stale]
  replace bytes := by simp [replacePendingCon, validateReplacement, stale]
  finishPrepared tx dest jitterMs nowMs accepted := by
    have stale : memory.pendingCon tx ≠ some expected := by
      intro here
      rw [txSlot_of_pendingCon here] at stale
      exact stale here
    simp [TxMemory.finishPrepared, TxMemory.send, TxMemory.prepare, mayPrepare, stale]

/-- In every state a run of the pool comes to, at most one Confirmable is pending to each physical
endpoint, no ACK, Reset or timeout reaches a reservation, and stale snapshots are refused. -/
theorem pending_nstart (n slotBytes : Nat) (events : List Event) :
    (run step (new n slotBytes) events).Single ∧
      (∀ id reservation, (run step (new n slotBytes) events).pendingCon id = some reservation →
        reservation.rto.started = false →
        (run step (new n slotBytes) events).Unreached reservation) ∧
      ∀ expected, (run step (new n slotBytes) events).pendingCon expected.txSlot ≠ some expected →
        (run step (new n slotBytes) events).Refused expected :=
  ⟨(Sound.run n slotBytes events).single, fun _ _ here unsent => .of_reservation here unsent,
    fun _ stale => .of_stale stale⟩

/-- Two reservations to one address under different associations, the second refused. -/
def rivalry : List Event :=
  let peer : Endpoint := ⟨List.replicate 16 0, 0, 0, 5683, false⟩
  [.acquireTx, .acquireTx, .reserve 0 peer 7, .reserve 1 { peer with association := 3 } 8]

def rivalryOwner : PendingCon := ⟨7, ⟨List.replicate 16 0, 0, 0, 5683, false⟩, 0, .reserved⟩

/-- The first reservation stands and cannot be reached; once it is committed the snapshot of the
reservation is stale, and only then does an ACK match. -/
theorem pending_nstart_rivalry :
    (run step (new 2 64) rivalry).pendingCon 0 = some rivalryOwner ∧
      (run step (new 2 64) rivalry).pendingCon 1 = none ∧
      (run step (new 2 64) rivalry).Unreached rivalryOwner ∧
      (run step (new 2 64) (rivalry ++ [.commit rivalryOwner 10 0])).Refused rivalryOwner ∧
      (run step (new 2 64) (rivalry ++ [.commit rivalryOwner 10 0])).lookupPendingCon 7
        rivalryOwner.endpoint = some 0 :=
  ⟨by decide, by decide,
    (pending_nstart 2 64 rivalry).2.1 0 rivalryOwner (by decide) rfl,
    (pending_nstart 2 64 (rivalry ++ [.commit rivalryOwner 10 0])).2.2 rivalryOwner (by decide),
    by decide⟩

/-! ### Acknowledgements -/

/-- In every state a run comes to, an ACK or a Reset ends the Confirmable with its Message ID to its
sender and no other, and frees the sender's address. One that matches none changes nothing. -/
theorem ack_ends_one (n slotBytes : Nat) (events : List Event) (messageId : MessageId)
    (endpoint : Endpoint) :
    let memory := run step (new n slotBytes) events
    let after := memory.takePendingCon messageId endpoint
    (∀ id, after.1 = some id →
      (∃ pending, memory.pendingCon id = some pending ∧ pending.messageId = messageId ∧
        pending.endpoint = endpoint ∧ pending.rto.started = true) ∧
      after.2.pendingCon id = none ∧ (∀ j ≠ id, after.2.pendingCon j = memory.pendingCon j) ∧
      after.2.outstandingPending endpoint = 0) ∧
    (after.1 = none → after.2 = memory ∧ ∀ id pending, memory.pendingCon id = some pending →
      pending.rto.started = true → pending.messageId = messageId → pending.endpoint ≠ endpoint) := by
  intro memory after
  cases found : memory.lookupPendingCon messageId endpoint with
  | none =>
    have ended : after = (none, memory) := by simp only [after, takePendingCon, found]
    rw [ended]
    refine ⟨nofun, fun _ => ⟨rfl, ?_⟩⟩
    rintro id pending here started rfl rfl
    obtain ⟨slot, at_, marked, addressed, -⟩ := pendingCon_eq_some.mp here
    have unmatched := List.find?_eq_none.mp found id (List.mem_range.mpr (taken_of_pendingCon here).2)
    simp [at_, marked, addressed, started] at unmatched
  | some id =>
    obtain ⟨pending, here, isMid, isEndpoint, started⟩ := lookupPendingCon_eq_some found
    have taken := (taken_of_pendingCon here).1
    have ended : after = (some id, (memory.clearPendingMid id).2) := by
      simp only [after, takePendingCon, found, clearPendingMid, taken, if_true]
    have cleared : (memory.clearPendingMid id).2.pendingCon id = none := by
      obtain ⟨slot, at_, -⟩ := pendingCon_eq_some.mp here
      simp [clearPendingMid, taken, pendingCon, slot_modifySlot, at_]
    rw [ended]
    refine ⟨?_, nofun⟩
    rintro _ ⟨⟩
    refine ⟨⟨pending, here, isMid, isEndpoint, started⟩, cleared,
      fun j other => pendingCon_clearPendingMid other, ?_⟩
    -- another one to the address would have been pending beside it
    rw [outstandingPending, List.length_eq_zero_iff, List.filter_eq_nil_iff]
    intro j _ counted
    obtain ⟨other, at_, same⟩ := (Option.any_eq_true _ _).mp counted
    by_cases equal : j = id
    · rw [equal, cleared] at at_
      cases at_
    · rw [pendingCon_clearPendingMid equal] at at_
      exact equal ((Sound.run n slotBytes events).single j id other pending at_ here
        (by rw [of_decide_eq_true same, isEndpoint]))

/-! ### Back-off -/

/-- The timeout that a call counts, and when. -/
def retransmission (memory : TxMemory) : Event → Option (Nat × Retransmit)
  | .poll nowMs => (memory.pollRetransmit nowMs).1.map (nowMs, ·)
  | .commitRetransmit expected nowMs => (memory.commitRetransmit expected nowMs).1.map (nowMs, ·)
  | _ => none

/-- When the message in slot `id` is sent again in a run, and when it is given up. -/
def schedule (id : Nat) (memory : TxMemory) : List Event → List Nat × List Nat
  | [] => ([], [])
  | event :: rest =>
    let (again, ended) := schedule id (memory.step event) rest
    match (memory.retransmission event).filter (·.2.txSlot = id) with
    | none => (again, ended)
    | some (nowMs, .due _) => (nowMs :: again, ended)
    | some (nowMs, .giveUp _) => (again, nowMs :: ended)

/-- Nothing but a timeout changes what is pending in the slot. -/
def Undisturbed (id : Nat) (memory : TxMemory) : Event → Prop
  | .poll _ => True
  | .commitRetransmit _ _ => True
  | event => (memory.step event).pendingCon id = memory.pendingCon id

theorem commitPendingCon_eq_some {jitterMs : Nat}
    (sent : (memory.commitPendingCon expected nowMs jitterMs).1 = some pending) :
    (memory.commitPendingCon expected nowMs jitterMs).2.pendingCon pending.txSlot = some pending ∧
      pending.rto = .new nowMs jitterMs := by
  revert sent
  simp only [TxMemory.commitPendingCon]
  split
  · exact nofun
  next current =>
  have here : memory.pendingCon expected.txSlot = some expected := by tauto
  obtain ⟨slot, at_, -, addressed, -⟩ := pendingCon_eq_some.mp here
  simp only [TxMemory.setPending, (taken_of_pendingCon here).1, if_true]
  intro sent
  have isId := txSlot_of_pendingCon sent
  refine ⟨by rw [isId]; exact sent, ?_⟩
  obtain ⟨after, at', marked, -⟩ := pendingCon_eq_some.mp sent
  rw [slot_modifySlot, if_pos rfl, at_] at at'
  cases at'
  exact (congrArg PendingMark.rto (some.inj marked)).symm

theorem retransmission_cases {event : Event} (undisturbed : memory.Undisturbed id event) :
    ((memory.retransmission event).filter (·.2.txSlot = id) = none ∧
        (memory.step event).pendingCon id = memory.pendingCon id) ∨
      ∃ pending nowMs due, memory.pendingCon id = some pending ∧
        dueSnapshot pending nowMs = some due ∧
        (memory.retransmission event).filter (·.2.txSlot = id) = some (nowMs, due.event) ∧
        (memory.step event).pendingCon id = due.event.remains := by
  have counted (expected : PendingCon) (nowMs : Nat) :
      (((memory.commitRetransmit expected nowMs).1.map (nowMs, ·)).filter (·.2.txSlot = id) = none ∧
        (memory.commitRetransmit expected nowMs).2.pendingCon id = memory.pendingCon id) ∨
      ∃ pending nowMs' due, memory.pendingCon id = some pending ∧
        dueSnapshot pending nowMs' = some due ∧
        ((memory.commitRetransmit expected nowMs).1.map (nowMs, ·)).filter (·.2.txSlot = id) =
          some (nowMs', due.event) ∧
        (memory.commitRetransmit expected nowMs).2.pendingCon id = due.event.remains := by
    obtain refused | ⟨due, here, found, isId, event, after, others⟩ :=
      memory.commitRetransmit_cases expected nowMs
    · exact .inl (by simp [refused])
    by_cases own : expected.txSlot = id
    · subst own
      exact .inr ⟨expected, nowMs, due, here, found, by simp [event, isId], after⟩
    · exact .inl ⟨by simp [event, isId, own], others id (Ne.symm own)⟩
  cases event with
  | commitRetransmit expected nowMs => exact counted expected nowMs
  | poll nowMs =>
    simp only [retransmission, step, pollRetransmit]
    split
    · exact .inl ⟨rfl, rfl⟩
    · exact counted _ nowMs
  | _ => exact .inl ⟨rfl, undisturbed⟩

/-- The timer after `a` retransmissions of a message that was sent at `startMs`. -/
structure Waits (startMs timeoutMs a : Nat) (rto : PendingRto) : Prop where
  started : rto.started = true
  attempts : rto.attempts = a
  timeout : rto.timeoutMs = timeoutMs * 2 ^ a
  next : min (startMs + timeoutMs * (2 ^ (a + 1) - 1)) u64Max ≤ rto.nextTimeoutMs

theorem schedule_of_none {events : List Event} (none_ : memory.pendingCon id = none)
    (alone : Run.Meets step (Undisturbed id) memory events) :
    schedule id memory events = ([], []) ∧ (run step memory events).pendingCon id = none := by
  induction events generalizing memory with
  | nil => exact ⟨rfl, none_⟩
  | cons event rest ih =>
  obtain ⟨silent, same⟩ | ⟨pending, nowMs, due, here, -⟩ := retransmission_cases alone.1
  · obtain ⟨quiet, ended⟩ := ih (same.trans none_) alone.2
    exact ⟨by simp only [schedule, silent, quiet], ended⟩
  · cases none_.symm.trans here

section

variable {startMs timeoutMs a : Nat} {rto : PendingRto}
  (short : timeoutMs ≤ ackTimeoutMs + ackRandomSpanMs)
include short

theorem Waits.nextAttempt (waits : Waits startMs timeoutMs a rto) (few : a < maxRetransmit)
    (due : rto.nextTimeoutMs ≤ nowMs) :
    ∃ rto', rto.nextAttempt nowMs = some rto' ∧ Waits startMs timeoutMs (a + 1) rto' := by
  obtain ⟨started, attempts, timeout, next⟩ := waits
  refine ⟨_, if_neg (by simp [started, attempts, few]), rfl, ?_, ?_, ?_⟩
  all_goals
    simp only [maxRetransmit, ackTimeoutMs, ackRandomSpanMs, u32Max, u64Max] at *
    interval_cases a <;> omega

/-- A timeout is not early. It is the next attempt, or the end after the last one. -/
theorem Waits.dueSnapshot (waits : Waits startMs timeoutMs a pending.rto) (few : a ≤ maxRetransmit)
    (found : dueSnapshot pending nowMs = some due) :
    min (startMs + timeoutMs * (2 ^ (a + 1) - 1)) u64Max ≤ nowMs ∧
      ((a = maxRetransmit ∧ due.event = .giveUp pending) ∨
        ∃ rto, a < maxRetransmit ∧ due.event = .due { pending with rto } ∧
          Waits startMs timeoutMs (a + 1) rto) := by
  simp only [TxMemory.dueSnapshot, PendingRto.isDue, waits.started, Bool.true_and] at found
  split at found
  · cases found
  next isDue =>
  have isDue : pending.rto.nextTimeoutMs ≤ nowMs := by simpa using isDue
  refine ⟨waits.next.trans isDue, ?_⟩
  rcases few.eq_or_lt with last | fewer
  · have used : pending.rto.nextAttempt nowMs = none := by
      simp [PendingRto.nextAttempt, waits.attempts, last]
    rw [used] at found
    cases found
    exact .inl ⟨last, rfl⟩
  · obtain ⟨rto, again, waits'⟩ := waits.nextAttempt short fewer isDue
    rw [again] at found
    cases found
    exact .inr ⟨rto, fewer, rfl, waits'⟩

theorem Waits.schedule {events : List Event} (here : memory.pendingCon id = some pending)
    (waits : Waits startMs timeoutMs a pending.rto) (few : a ≤ maxRetransmit)
    (alone : Run.Meets step (Undisturbed id) memory events) :
    let sent := schedule id memory events
    (∀ k t, sent.1[k]? = some t → a + k < maxRetransmit ∧
      min (startMs + timeoutMs * (2 ^ (a + k + 1) - 1)) u64Max ≤ t) ∧
    (sent.2 = [] ∧ (∃ later, (run step memory events).pendingCon id = some later ∧
        later.rto.attempts = a + sent.1.length) ∨
      ∃ t, sent.2 = [t] ∧ a + sent.1.length = maxRetransmit ∧
        min (startMs + timeoutMs * (2 ^ (maxRetransmit + 1) - 1)) u64Max ≤ t ∧
        (run step memory events).pendingCon id = none) := by
  induction events generalizing memory pending a with
  | nil => exact ⟨by simp [TxMemory.schedule], .inl ⟨rfl, pending, here, waits.attempts⟩⟩
  | cons event rest ih =>
  obtain ⟨silent, same⟩ | ⟨pending', nowMs, due, here', found, counted, after⟩ :=
    retransmission_cases alone.1
  · simp only [TxMemory.schedule, silent]
    exact ih (same.trans here) waits few alone.2
  cases here.symm.trans here'
  obtain ⟨notEarly, ⟨rfl, isEnd⟩ | ⟨rto, fewer, isDue, waits'⟩⟩ := waits.dueSnapshot short few found
  · rw [isEnd] at counted after
    obtain ⟨quiet, ended⟩ := schedule_of_none after alone.2
    simp only [TxMemory.schedule, counted, quiet]
    exact ⟨by simp, .inr ⟨nowMs, rfl, rfl, notEarly, ended⟩⟩
  · rw [isDue] at counted after
    obtain ⟨later, ended⟩ := ih after waits' fewer alone.2
    simp only [TxMemory.schedule, counted]
    constructor
    · intro k t at_
      cases k with
      | zero => cases at_; exact ⟨fewer, notEarly⟩
      | succ k => simpa [Nat.add_assoc, Nat.add_comm 1] using later k t at_
    · simpa [Nat.add_assoc, Nat.add_comm 1] using ended

end

/-- However the pool is polled, a Confirmable is sent again at most four times, no earlier than one,
three, seven and fifteen timeouts after it was sent, and given up at most once, after all four and no
earlier than after 31: then nothing is pending in its slot any more. -/
theorem backoff_schedule {memory : TxMemory} {expected pending : PendingCon} {nowMs jitterMs : Nat}
    (sent : (memory.commitPendingCon expected nowMs jitterMs).1 = some pending) {events : List Event}
    (alone : Run.Meets step (Undisturbed pending.txSlot)
      (memory.commitPendingCon expected nowMs jitterMs).2 events) :
    let start := (memory.commitPendingCon expected nowMs jitterMs).2
    let times := schedule pending.txSlot start events
    (∀ k t, times.1[k]? = some t → k < maxRetransmit ∧
      min (nowMs + initialTimeoutMs jitterMs * (2 ^ (k + 1) - 1)) u64Max ≤ t) ∧
    (times.2 = [] ∧ (∃ later, (run step start events).pendingCon pending.txSlot = some later ∧
        later.rto.attempts = times.1.length) ∨
      ∃ t, times.2 = [t] ∧ times.1.length = maxRetransmit ∧
        min (nowMs + initialTimeoutMs jitterMs * 31) u64Max ≤ t ∧
        (run step start events).pendingCon pending.txSlot = none) := by
  have short : initialTimeoutMs jitterMs ≤ ackTimeoutMs + ackRandomSpanMs := by
    simp only [initialTimeoutMs]
    split <;> omega
  obtain ⟨here, isNew⟩ := commitPendingCon_eq_some sent
  have waits : Waits nowMs (initialTimeoutMs jitterMs) 0 pending.rto := by
    rw [isNew]
    exact ⟨rfl, rfl, by simp [PendingRto.new], by simp [PendingRto.new]⟩
  have law := waits.schedule short here (Nat.zero_le _) alone
  simpa [maxRetransmit] using law

/-- The reservation of the first rival is sent, acknowledged by nobody and given up. -/
def unanswered : List Event :=
  [.poll 100, .poll 2010, .poll 6010, .poll 14010, .poll 30010, .poll 62010, .poll 90000]

theorem backoff_schedule_unanswered :
    let start := ((run step (new 2 64) rivalry).commitPendingCon rivalryOwner 10 0).2
    schedule 0 start unanswered = ([2010, 6010, 14010, 30010], [62010]) ∧
      (run step start unanswered).pendingCon 0 = none := by
  have sent : ((run step (new 2 64) rivalry).commitPendingCon rivalryOwner 10 0).1 =
      some { rivalryOwner with rto := .new 10 0 } := by decide
  have alone : Run.Meets step (Undisturbed 0)
      ((run step (new 2 64) rivalry).commitPendingCon rivalryOwner 10 0).2 unanswered := by
    simp [unanswered, Run.Meets, Undisturbed]
  refine ⟨by decide, ?_⟩
  obtain ⟨-, ⟨none_, -⟩ | ⟨t, -, -, -, gone⟩⟩ := backoff_schedule sent alone
  · revert none_
    decide
  · exact gone

end TxMemory

end Coaptic.Pending
