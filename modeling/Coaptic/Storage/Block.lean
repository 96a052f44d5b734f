import Coaptic.Lib.Bitmap
import Coaptic.Message.Basic

/-!
# Block transfers

The sidecar that tracks one body transferred block by block: classic Block, BERT and Q-Block,
in both directions. A method that takes the transfer by mutable reference returns its outcome
together with the transfer it leaves behind, so an assignment made before a refusal shows.

`usize` is 64 bits wide and `u32` values are natural numbers below `2 ^ 32`. A checked sum
whose overflow and whose capacity test give the same refusal is one comparison here.
-/
namespace Coaptic.Block

open Bitmap

/-! ### Values and errors -/

inductive ValueError
  | illegalSzx
  | blockNumOverflow
deriving DecidableEq

inductive SlotError
  | invalidSlot
  | notOccupied
  | lengthExceedsSlot
  | pinned
deriving DecidableEq

inductive BlockTransferError
  | noBodyPools
  | saturated
  | slot (error : SlotError)
  | noTransfer
  | identityMismatch
  | overlap
  | gap
  | outsideWindow
  | duplicate
  | szxMismatch
  | overflow
  | lengthInconsistent
  | missingIdentity
  | alreadyComplete
  | payloadLength
  | value (error : ValueError)
deriving DecidableEq

/-- Largest NUM that fits in a 3-byte Block option value (20 bits). -/
def numMax : Nat := 0x000fffff

def szxBert : Nat := 7

/-- NUM/M/SZX fields of Block1, Block2, Q-Block1 and Q-Block2. Every constructor of the source
checks the two bounds. -/
structure BlockValue where
  num : Nat
  more : Bool
  szx : Nat
  num_le : num ≤ numMax
  szx_le : szx ≤ szxBert
deriving DecidableEq

namespace BlockValue

def new (num : Nat) (more : Bool) (szx : Nat) : Except ValueError BlockValue :=
  if szxOk : szx ≤ szxBert then
    if numOk : num ≤ numMax then .ok ⟨num, more, szx, numOk, szxOk⟩
    else .error .blockNumOverflow
  else .error .illegalSzx

def isBert (block : BlockValue) : Bool := block.szx == szxBert

/-- Block size in bytes; BERT uses 1024. -/
def size (block : BlockValue) : Nat := if block.isBert then 1024 else 16 <<< block.szx

/-- The payload length contradicts the block size: a non-final block is full, a final block is
at most full. -/
def refusesLength (block : BlockValue) (payloadLen : Nat) : Bool :=
  if block.more then payloadLen != block.size else decide (block.size < payloadLen)

end BlockValue

def sizeFromSzx (szx : Nat) : Except ValueError Nat :=
  if szx = szxBert then .ok 1024
  else if 6 < szx then .error .illegalSzx
  else .ok (16 <<< szx)

/-- Which body-pool direction a sidecar describes. -/
inductive BlockRole
  | incomingBlock1
  | incomingBlock2
  | incomingQBlock1
  | incomingQBlock2
  | outgoingBlock1
  | outgoingBlock2
  | outgoingQBlock1
  | outgoingQBlock2
deriving DecidableEq

namespace BlockRole

def isIncoming : BlockRole → Bool
  | incomingBlock1 | incomingBlock2 | incomingQBlock1 | incomingQBlock2 => true
  | _ => false

def isOutgoing : BlockRole → Bool
  | outgoingBlock1 | outgoingBlock2 | outgoingQBlock1 | outgoingQBlock2 => true
  | _ => false

def isQBlock : BlockRole → Bool
  | incomingQBlock1 | incomingQBlock2 | outgoingQBlock1 | outgoingQBlock2 => true
  | _ => false

end BlockRole

/-! ### The sidecar -/

def maxPayloads : Nat := 10

/-- Mask of a fully received or fully issued window. -/
def windowFull : BitVec 16 := below 16 maxPayloads

/-- Current `MAX_PAYLOADS_SET`; bit `i` of `mask` is NUM `base + i`. -/
structure QWindow where
  base : Nat
  mask : BitVec 16
  finalNum : Option Nat
  finalPayloadLen : Nat
  continueTrigger : Option Nat
  continueAck : Option Nat
deriving DecidableEq

namespace QWindow

def empty : QWindow := ⟨0, 0#16, none, 0, none, none⟩

end QWindow

/-- Recovery counter, due time and wait of an incoming Q-Block body. Outgoing notification
bodies keep flags and a sequence number in the same fields. -/
structure QBlockReceiveWait where
  attempts : Nat
  nextTimeoutMs : Nat
  timeoutMs : Nat
deriving DecidableEq

/-- What the body slot holds besides its bytes: a timer, or a static body. -/
inductive BodyRetention
  | none
  | wait (state : QBlockReceiveWait)
  | static (body : List UInt8)
deriving DecidableEq

def BodyRetention.waiting : BodyRetention → Option QBlockReceiveWait
  | .wait state => some state
  | _ => Option.none

/-- Block transfer sidecar stored next to one body-slot buffer. `κ` is the transfer's key. -/
structure BlockTransfer (κ : Type) where
  key : κ
  role : BlockRole
  num : Nat
  szx : Nat
  more : Bool
  nextNum : Nat
  filled : Nat
  complete : Bool
  expectedLen : Option Nat
  q : Option QWindow
  qReceive : BodyRetention
deriving DecidableEq

/-- Outcome of a mutating method and the transfer it leaves behind. -/
abbrev Outcome (κ α : Type) := Except BlockTransferError α × BlockTransfer κ

def blockOffset (num size : Nat) : Except BlockTransferError Nat :=
  if num * size < 2 ^ 64 then .ok (num * size) else .error .overflow

variable {κ : Type}

namespace BlockTransfer

section

variable (t : BlockTransfer κ)

def isBert : Bool := t.szx == szxBert

/-- A NON Q-Block2 notification body in its confirmable recovery pass. -/
def qObserveRecovery : Bool :=
  match t.role, t.qReceive.waiting with
  | .outgoingQBlock2, some state => state.attempts.testBit 0 && state.attempts.testBit 1
  | _, _ => false

/-! ### Incoming classic blocks -/

/-- The smaller-size continuation at the start of `accept_incoming`. A block of the same size
passes; a smaller size is adopted when it addresses the first byte not yet received. -/
def adoptIncomingSzx (block : BlockValue) : Outcome κ Unit :=
  if block.szx = t.szx then (.ok (), t)
  else if t.isBert || block.isBert || t.szx < block.szx then (.error .szxMismatch, t)
  else
  match blockOffset block.num block.size with
  | .error e => (.error e, t)
  | .ok offset =>
    if offset ≠ t.filled then (.error .gap, t)
    else (.ok (), { t with szx := block.szx, nextNum := block.num })

section

variable (block : BlockValue) (payloadLen capacity : Nat)

def acceptBertIncoming : Outcome κ Nat :=
  if !block.isBert then (.error .szxMismatch, t)
  else if block.more ∧ (payloadLen = 0 ∨ payloadLen % 1024 ≠ 0) then (.error .payloadLength, t)
  else
  match blockOffset block.num 1024 with
  | .error e => (.error e, t)
  | .ok offset =>
  if capacity < offset + payloadLen then (.error .overflow, t)
  else if 2 ^ 32 ≤ payloadLen / 1024 then (.error .overflow, t)
  else
  let t := { t with num := block.num, more := block.more, filled := offset + payloadLen }
  if 2 ^ 32 ≤ block.num + payloadLen / 1024 then (.error .overflow, t)
  else
    (.ok offset, { t with nextNum := block.num + payloadLen / 1024, complete := !block.more })

/-- `accept_incoming` after the block number was found to be the next one. -/
def acceptNextIncoming : Outcome κ Nat :=
  if block.refusesLength payloadLen then (.error .payloadLength, t)
  else
  match blockOffset block.num block.size with
  | .error e => (.error e, t)
  | .ok offset =>
  if capacity < offset + payloadLen then (.error .overflow, t)
  else
  let t := { t with num := block.num, more := block.more, filled := offset + payloadLen }
  if 2 ^ 32 ≤ block.num + 1 then (.error .overflow, t)
  else (.ok offset, { t with nextNum := block.num + 1, complete := !block.more })

/-- Accept one in-order incoming block. Returns the write offset. -/
def acceptIncoming : Outcome κ Nat :=
  if !t.role.isIncoming || t.role.isQBlock then (.error .identityMismatch, t)
  else if t.complete then (.error .alreadyComplete, t)
  else
  match t.adoptIncomingSzx block with
  | (.error e, t) => (.error e, t)
  | (.ok (), t) =>
  if block.num < t.nextNum then (.error .overlap, t)
  else if t.nextNum < block.num then (.error .gap, t)
  else if block.isBert then t.acceptBertIncoming block payloadLen capacity
  else t.acceptNextIncoming block payloadLen capacity

end

end

/-- Incoming sidecar after the first accepted block, which is NUM 0. -/
def incoming (key : κ) (role : BlockRole) (block : BlockValue) (payloadLen capacity : Nat)
    (expectedLen : Option Nat) : Except BlockTransferError (BlockTransfer κ) :=
  if !role.isIncoming || role.isQBlock then .error .identityMismatch
  else if block.num ≠ 0 then .error .gap
  else
  let t : BlockTransfer κ :=
    { key, role, num := 0, szx := block.szx, more := block.more, nextNum := 0, filled := 0
      complete := false, expectedLen, q := none, qReceive := .none }
  match t.acceptIncoming block payloadLen capacity with
  | (.error e, _) => .error e
  | (.ok _, t) => .ok t

/-! ### Incoming Q-Blocks -/

/-- Range checks of an incoming Q-Block. Returns the write offset and the payload length. -/
def qIncomingRange (block : BlockValue) (payloadLen capacity : Nat) (expectedLen : Option Nat) :
    Except BlockTransferError (Nat × Nat) :=
  if block.refusesLength payloadLen then .error .payloadLength
  else if 2 ^ 16 ≤ payloadLen then .error .overflow
  else
  match blockOffset block.num block.size with
  | .error e => .error e
  | .ok offset =>
  if capacity < offset + payloadLen then .error .overflow
  else
  match expectedLen with
  | none => .ok (offset, payloadLen)
  | some expected =>
  if expected < offset + payloadLen ∨ (¬ block.more ∧ offset + payloadLen ≠ expected) then
    .error .lengthInconsistent
  else .ok (offset, payloadLen)

end BlockTransfer

/-- The window after its `idx`-th block arrived; a full window without the final block moves
on. The source loops while the window is full, but the first round empties the mask. -/
def QWindow.receive (q : QWindow) (block : BlockValue) (payloadLen : Nat) :
    Except BlockTransferError Unit × QWindow :=
  let q := { q with mask := q.mask ||| bit 16 (block.num - q.base) }
  let q := if block.more then q
    else { q with finalNum := some block.num, finalPayloadLen := payloadLen }
  if q.mask = windowFull ∧ q.finalNum = none then
    if 2 ^ 32 ≤ q.base + (maxPayloads - 1) then (.error .overflow, q)
    else
      let q := { q with continueTrigger := some block.num
                        continueAck := some (q.base + (maxPayloads - 1)) }
      if 2 ^ 32 ≤ q.base + maxPayloads then (.error .overflow, q)
      else (.ok (), { q with base := q.base + maxPayloads, mask := 0#16 })
  else (.ok (), q)

namespace BlockTransfer

/-- Progress fields from the window: the contiguous prefix, and completion once it covers the
final block. -/
def noteContiguous (t : BlockTransfer κ) (q : QWindow) (size : Nat) : Outcome κ Unit :=
  let contig := q.base + trailingOnes q.mask
  if 2 ^ 32 ≤ contig then (.error .overflow, t)
  else
  let partway : Outcome κ Unit :=
    match blockOffset contig size with
    | .error e => (.error e, t)
    | .ok filled => (.ok (), { t with filled, complete := false, nextNum := contig })
  match q.finalNum with
  | none => partway
  | some finalNum =>
  if finalNum < contig then
    match blockOffset finalNum size with
    | .error e => (.error e, t)
    | .ok offset =>
      let t := { t with filled := offset + q.finalPayloadLen, complete := true }
      if 2 ^ 32 ≤ finalNum + 1 then (.error .overflow, t)
      else (.ok (), { t with nextNum := finalNum + 1 })
  else partway

/-- Accept one incoming Q-Block in the current window. Returns the write offset. -/
def acceptQIncoming (t : BlockTransfer κ) (block : BlockValue) (payloadLen capacity : Nat) :
    Outcome κ Nat :=
  if !t.role.isQBlock then (.error .identityMismatch, t)
  else if block.isBert then (.error (.value .illegalSzx), t)
  else if t.complete then (.error .alreadyComplete, t)
  else if block.szx ≠ t.szx then (.error .szxMismatch, t)
  else
  match t.q with
  | none => (.error .identityMismatch, t)
  | some q =>
  if block.num < q.base then (.error .duplicate, t)
  else if maxPayloads ≤ block.num - q.base then (.error .outsideWindow, t)
  else if q.mask &&& bit 16 (block.num - q.base) ≠ 0#16 then (.error .duplicate, t)
  else if q.finalNum.any (· < block.num) then (.error .lengthInconsistent, t)
  else if !block.more ∧ block.num - q.base + 1 < maxPayloads ∧
      q.mask >>> (block.num - q.base + 1) ≠ 0#16 then (.error .lengthInconsistent, t)
  else
    match qIncomingRange block payloadLen capacity t.expectedLen with
    | .error e => (.error e, t)
    | .ok (offset, finalPayloadLen) =>
    match q.receive block finalPayloadLen with
    | (.error e, q) => (.error e, { t with q := some q })
    | (.ok (), q) =>
    match ({ t with q := some q } : BlockTransfer κ).noteContiguous q block.size with
    | (.error e, t) => (.error e, t)
    | (.ok (), t) => (.ok offset, { t with num := block.num, more := block.more })

section

variable (key : κ) (role : BlockRole)

/-- Incoming Q-Block sidecar after the first accepted block, any NUM of the first window. -/
def incomingQ (block : BlockValue) (payloadLen capacity : Nat) (expectedLen : Option Nat) :
    Except BlockTransferError (BlockTransfer κ) :=
  if !role.isIncoming || !role.isQBlock then .error .identityMismatch
  else if block.isBert then .error (.value .illegalSzx)
  else
  let t : BlockTransfer κ :=
    { key, role, num := 0, szx := block.szx, more := block.more, nextNum := 0, filled := 0
      complete := false, expectedLen, q := some QWindow.empty, qReceive := .none }
  match t.acceptQIncoming block payloadLen capacity with
  | (.error e, _) => .error e
  | (.ok _, t) => .ok t

/-! ### Outgoing blocks -/

/-- An issued block: its option value, its offset in the body and its length. -/
abbrev Issued := BlockValue × Nat × Nat

section

variable (bodyLen szx capacity : Nat)

def outgoingCommon (q : Option QWindow) : Except BlockTransferError (BlockTransfer κ) :=
  match sizeFromSzx szx with
  | .error e => .error (.value e)
  | .ok _ =>
  if capacity < bodyLen then .error .overflow
  else if bodyLen < 2 ^ 32 then
    .ok { key, role, num := 0, szx, more := false, nextNum := 0, filled := bodyLen
          complete := false, expectedLen := some bodyLen, q, qReceive := .none }
  else .error .overflow

/-- Outgoing sidecar for a complete body already in the slot. -/
def outgoing : Except BlockTransferError (BlockTransfer κ) :=
  if !role.isOutgoing || role.isQBlock then .error .identityMismatch
  else outgoingCommon key role bodyLen szx capacity none

/-- Outgoing Q-Block sidecar for a complete body already in the slot. -/
def outgoingQ : Except BlockTransferError (BlockTransfer κ) :=
  if !role.isOutgoing || !role.isQBlock then .error .identityMismatch
  else if szx = szxBert then .error (.value .illegalSzx)
  else outgoingCommon key role bodyLen szx capacity (some QWindow.empty)

end

section

variable (t : BlockTransfer κ)

def outgoingRange (num : Nat) : Except BlockTransferError Issued :=
  match sizeFromSzx t.szx with
  | .error e => .error (.value e)
  | .ok size =>
  match blockOffset num size with
  | .error e => .error e
  | .ok offset =>
  if t.filled < offset ∨ (offset = t.filled ∧ 0 < t.filled) then .error .gap
  else
  let remaining := t.filled - offset
  match BlockValue.new num (size < remaining) t.szx with
  | .error e => .error (.value e)
  | .ok block => .ok (block, offset, min remaining size)

/-- Whether the window lets `num` be issued: inside it and not issued yet. -/
def windowAdmits (num : Nat) : Except BlockTransferError Unit :=
  match t.q with
  | none => .ok ()
  | some q =>
  if num < q.base then .error .duplicate
  else if maxPayloads ≤ num - q.base then .error .outsideWindow
  else if q.mask &&& bit 16 (num - q.base) ≠ 0#16 then .error .duplicate
  else .ok ()

def markIssued (num : Nat) : Option QWindow :=
  t.q.map fun q => { q with mask := q.mask ||| bit 16 (num - q.base) }

def issueRange (num : Nat) : Outcome κ Issued :=
  match t.windowAdmits num with
  | .error e => (.error e, t)
  | .ok () =>
  match t.outgoingRange num with
  | .error e => (.error e, t)
  | .ok (block, offset, len) =>
  let t := { t with q := t.markIssued num, num, more := block.more }
  if 2 ^ 32 ≤ num + 1 then (.error .overflow, t)
  else
  (.ok (block, offset, len),
    { t with
      nextNum := num + 1
      complete := !block.more ||
        (t.qObserveRecovery && t.q.any fun q => decide (q.mask = windowFull)) })

def issueBertOutgoing (maxPayload : Nat) : Outcome κ Issued :=
  if !t.role.isOutgoing || t.role.isQBlock then (.error .identityMismatch, t)
  else if !t.isBert then (.error .szxMismatch, t)
  else if t.complete then (.error .alreadyComplete, t)
  else
  match blockOffset t.nextNum 1024 with
  | .error e => (.error e, t)
  | .ok offset =>
  if t.filled < offset ∨ (offset = t.filled ∧ 0 < t.filled) then (.error .gap, t)
  else
  let remaining := t.filled - offset
  let len := if remaining ≤ maxPayload then remaining else maxPayload / 1024 * 1024
  if 0 < remaining ∧ len = 0 then (.error .payloadLength, t)
  else if len < remaining ∧ (len = 0 ∨ len % 1024 ≠ 0) then (.error .payloadLength, t)
  else
  match BlockValue.new t.nextNum (len < remaining) szxBert with
  | .error e => (.error (.value e), t)
  | .ok block =>
  if 2 ^ 32 ≤ len / 1024 then (.error .overflow, t)
  else
  let t' := { t with num := t.nextNum, more := block.more }
  if 2 ^ 32 ≤ t.nextNum + len / 1024 then (.error .overflow, t')
  else
    (.ok (block, offset, len),
      { t' with nextNum := t.nextNum + len / 1024, complete := !block.more })

def issueOutgoing : Outcome κ Issued :=
  if !t.role.isOutgoing || t.role.isQBlock then (.error .identityMismatch, t)
  else if t.complete then (.error .alreadyComplete, t)
  else if t.isBert then t.issueBertOutgoing t.filled
  else t.issueRange t.nextNum

/-- Continue an outgoing classic transfer at a smaller size. -/
def adoptSmallerSzx (szx : Nat) : Outcome κ Unit :=
  if !t.role.isOutgoing || t.role.isQBlock || t.isBert then (.error .identityMismatch, t)
  else if t.complete then (.error .alreadyComplete, t)
  else if t.szx ≤ szx then (.error .szxMismatch, t)
  else
  match sizeFromSzx t.szx, sizeFromSzx szx with
  | .ok old, .ok new =>
    match blockOffset t.nextNum old with
    | .error e => (.error e, t)
    | .ok issued =>
      if issued % new ≠ 0 then (.error .gap, t)
      else
        let t := { t with szx }
        if 2 ^ 32 ≤ issued / new then (.error .overflow, t)
        else (.ok (), { t with nextNum := issued / new })
  | _, _ => (.error .szxMismatch, t)

def issueQOutgoing : Outcome κ Issued :=
  if !t.role.isOutgoing || !t.role.isQBlock then (.error .identityMismatch, t)
  else if t.complete then (.error .alreadyComplete, t)
  else
  match t.q with
  | none => (.error .identityMismatch, t)
  | some q =>
  if maxPayloads ≤ trailingOnes q.mask then (.error .outsideWindow, t)
  else if 2 ^ 32 ≤ q.base + trailingOnes q.mask then (.error .overflow, t)
  else t.issueRange (q.base + trailingOnes q.mask)

/-- Reissue one Q-Block payload; the window does not change. -/
def reissueQOutgoing (num : Nat) : Except BlockTransferError Issued :=
  if !t.role.isOutgoing || !t.role.isQBlock then .error .identityMismatch
  else t.outgoingRange num

/-- Open the next NON Q-Block1 payload set after caller-enforced pacing. -/
def paceQBlock1 : Outcome κ Unit :=
  if t.role ≠ .outgoingQBlock1 then (.error .identityMismatch, t)
  else if t.complete then (.error .alreadyComplete, t)
  else
  match t.q with
  | none => (.error .identityMismatch, t)
  | some q =>
  if q.mask ≠ windowFull then (.error .gap, t)
  else if 2 ^ 32 ≤ q.base + maxPayloads then (.error .overflow, t)
  else (.ok (), { t with q := some { q with base := q.base + maxPayloads, mask := 0#16 } })

/-- The window step of `ack_q_window`, by role. -/
def ackWindow (window : Option QWindow) (num : Nat) : Except BlockTransferError QWindow :=
  match role with
  | .outgoingQBlock1 =>
    match window with
    | none => .error .identityMismatch
    | some q =>
      if num < q.base then .error .duplicate
      else if maxPayloads ≤ num - q.base then .error .outsideWindow
      else if num - q.base ≠ maxPayloads - 1 then .error .gap
      else if q.mask &&& below 16 (num - q.base + 1) ≠ below 16 (num - q.base + 1) then .error .gap
      else if 2 ^ 32 ≤ num + 1 then .error .overflow
      else .ok { q with base := num + 1, mask := 0#16 }
  | .outgoingQBlock2 =>
    if num = 0 ∨ num % maxPayloads ≠ 0 then .error .gap
    else
      match window with
      | none => .error .identityMismatch
      | some q =>
        if 2 ^ 32 ≤ q.base + maxPayloads then .error .overflow
        else if num < q.base + maxPayloads then .error .duplicate
        else if q.base + maxPayloads < num then .error .outsideWindow
        else if q.mask ≠ windowFull then .error .gap
        else .ok { q with base := num, mask := 0#16 }
  | _ => .error .identityMismatch

/-- Advance the outgoing Q-Block window after a peer window ACK. Returns the body length and
whether the last block has been issued. -/
def ackQWindow (num : Nat) : Outcome κ (Nat × Bool) :=
  if !t.role.isOutgoing || !t.role.isQBlock then (.error .identityMismatch, t)
  else if t.complete then (.error .alreadyComplete, t)
  else
  match ackWindow t.role t.q num with
  | .error e => (.error e, t)
  | .ok q => (.ok (t.filled, t.complete), { t with q := some q })

end

/-! ### Dispatch by role -/

def startIncoming (block : BlockValue) (payloadLen capacity : Nat) (expectedLen : Option Nat) :
    Except BlockTransferError (BlockTransfer κ) :=
  if role.isQBlock then incomingQ key role block payloadLen capacity expectedLen
  else incoming key role block payloadLen capacity expectedLen

end

def acceptIncomingRole (t : BlockTransfer κ) (block : BlockValue) (payloadLen capacity : Nat) :
    Outcome κ Nat :=
  if t.role.isQBlock then t.acceptQIncoming block payloadLen capacity
  else t.acceptIncoming block payloadLen capacity

end BlockTransfer

end Coaptic.Block
