import Coaptic.Client.Lives
import Coaptic.Lib.Program
import Coaptic.Message.RoundTrip
import Coaptic.Storage.Exchange

/-!
# State of the client

The client's share of an App: its outstanding Calls and inbox, the exchanges they wait on, the
outgoing datagram slots, the observations it holds, and the bodies that are being received and
uploaded. Operations that cannot fail are functions on the state.

What the environment decides is read off two queues: `plans` has what is staged for the next
datagram, with the transport's answer, and `answers` the outcomes of everything else. The last
three fields are histories that no operation reads.
-/
namespace Coaptic.Client

open Codec Block Pending Slots

variable {maxLen : Nat}

inductive Error
  | saturated
  | identity
  | io
  | slot
  | parse
  | message (error : EncodeError)
  | block (error : BlockTransferError)
  | oscore
  | backoff (untilMs : Nat)
  | fetchRequestTooLarge
  | observeRequestTooLarge
  | deadlineElapsed
  | observeCancellationMismatch
  | observeCancellationAmbiguous
  | observeRefreshMismatch
  | requestTagRequired
  | requestTagInUse
  | noResponseUploadUnsupported
  | conditionalUploadUnsupported
deriving DecidableEq

def responseBody : Nat := 4096
def rxHeadroom : Nat := 1
def txHeadroom : Nat := 1

/-- Code, options and payload that are handed to the encoder, protected where that applies. -/
structure Draft where
  code : Code
  options : List Opt
  payload : List UInt8
deriving DecidableEq

/-- One datagram as the environment provides it: the next Message ID, the jitter drawn with it,
what there is to encode, and whether the transport accepts it. -/
structure Staging where
  mid : Option MessageId
  jitterMs : Nat
  draft : Except Error Draft
  accepted : Bool
deriving DecidableEq

/-- Representation that is being received by blocks, or has been. -/
structure Download (maxLen : Nat) where
  call : Call maxLen
  etag : Option (List UInt8)
  q : Bool
  complete : Bool
  payload : List UInt8
deriving DecidableEq

/-- Request body that is being sent by blocks. -/
structure Upload (maxLen : Nat) where
  call : Call maxLen
  tag : Option (List UInt8)
  q : Bool
deriving DecidableEq

structure State (maxLen : Nat) where
  fullResponses : Bool
  oscoreActive : Bool
  tx : TxMemory
  rx : Occupancy
  exchanges : ExchangeTable maxLen
  lives : ClientLives maxLen
  inbox : ClientInbox maxLen
  observes : List (Call maxLen)
  downloads : List (Option (Download maxLen))
  uploads : List (Upload maxLen)
  jitterMs : Nat
  plans : List Staging
  answers : List Bool
  owed : List (Call maxLen × Except CallFailure ReplyMeta)

def Call.key (call : Call maxLen) : ExchangeKey maxLen := ⟨call.token, call.peer⟩

def ofEntry (entry : ExchangeEntry maxLen) : Call maxLen := ⟨entry.key.token, entry.key.endpoint⟩

@[simp] theorem key_ofEntry (entry : ExchangeEntry maxLen) : (ofEntry entry).key = entry.key := rfl

theorem Call.key_inj {a b : Call maxLen} : a.key = b.key ↔ a = b := by
  cases a
  cases b
  simp [Call.key]

namespace State

/-! ### Slots and rows -/

section

variable (s : State maxLen) (call : Call maxLen)

def takeExchange : Option (ExchangeEntry maxLen) × State maxLen :=
  ((s.exchanges.take call.key).1, { s with exchanges := (s.exchanges.take call.key).2 })

def releaseTx (s : State maxLen) (tx : Nat) : State maxLen := { s with tx := (s.tx.releaseTx tx).2 }

def releaseRx (rx : Nat) : State maxLen :=
  match s.rx.release rx with
  | .error _ => s
  | .ok occ => { s with rx := occ }

/-- Stop the retransmission of a Confirmable and free its slot. -/
def takePending (messageId : MessageId) (peer : Endpoint) : State maxLen :=
  match s.tx.takePendingCon messageId peer with
  | (none, tx) => { s with tx }
  | (some id, tx) => { s with tx := (tx.releaseTx id).2 }

def takeObserve : State maxLen :=
  { s with observes := s.observes.filter (· ≠ call) }

def clientObserveLive : Bool := s.observes.contains call

def releaseRxBody (id : Nat) : State maxLen :=
  { s with downloads := s.downloads.set id none }

def releaseDatagram : State maxLen :=
  let s' := { s with inbox := (s.inbox.takeDatagram call).2 }
  match (s.inbox.takeDatagram call).1 with
  | none => s'
  | some rx => s'.releaseRx rx

/-- Upload under the Call's request tag, classic before Q-Block. -/
def uploadBody : Option (Upload maxLen) :=
  let tag := (s.lives.get call).bind (·.requestTag)
  (s.uploads.find? (· = ⟨call, tag, false⟩)).or (s.uploads.find? (· = ⟨call, tag, true⟩))

def releaseTxBody (upload : Upload maxLen) : State maxLen :=
  { s with uploads := s.uploads.erase upload }

/-! ### Ends of a Call -/

def owe (result : Except CallFailure ReplyMeta) : State maxLen :=
  { s with owed := (call, result) :: s.owed.filter (·.1 ≠ call) }

/-- The Call's result was handed over, or the request was made again. -/
def settle : State maxLen :=
  { s with owed := s.owed.filter (·.1 ≠ call) }

/-- Stop the request of an exchange that was removed. The slot it names is freed only if a
pending Confirmable shows that it is still the request's. -/
def releaseRequest (entry : ExchangeEntry maxLen) : State maxLen :=
  let reserved := (s.tx.pendingCon entry.txSlot).filter fun pending =>
    pending.messageId = entry.messageId ∧ pending.endpoint = entry.key.endpoint ∧
      pending.rto.started = false
  match reserved with
  | some reserved =>
    match s.tx.cancelPendingCon reserved with
    | (true, tx) => { s with tx := (tx.releaseTx entry.txSlot).2 }
    | (false, tx) => { s with tx }
  | none => s.takePending entry.messageId entry.key.endpoint

/-- Store a result; the body its row had before is released. -/
def complete (result : Except CallFailure ReplyMeta) (body : Option Nat) : State maxLen :=
  match s.inbox.insert call result body with
  | (.ok previous, inbox) =>
    match previous with
    | some id => if some id = body then { s with inbox } else { s with inbox }.releaseRxBody id
    | none => { s with inbox }
  | (.error (), inbox) =>
    match body with
    | some id => { s with inbox }.releaseRxBody id
    | none => { s with inbox }

def releaseDownloads : State maxLen :=
  { s with downloads := s.downloads.map fun slot => slot.filter (·.call ≠ call) }

def releaseUpload : State maxLen :=
  match s.uploadBody call with
  | none => s
  | some upload => s.releaseTxBody upload

def disarm : State maxLen :=
  { s with lives := s.lives.map (Option.map fun live =>
      if live.call = call then { live with dueMs := 0, deadlineMs := none } else live) }

def failCall (failure : CallFailure) (releasePending : Bool) : State maxLen :=
  let (entry, s) := s.takeExchange call
  let s := match entry with
    | some entry => if releasePending then s.releaseRequest entry else s
    | none => s
  let s := (s.takeObserve call).releaseDatagram call
  let s := (s.complete call (.error failure) none).releaseDownloads call
  ((s.releaseUpload call).disarm call).owe call (.error failure)

/-- Store a reply. It is the Call's last one unless the Call is observing. -/
def storeReply (reply : ReplyMeta) (body : Option Nat) : State maxLen :=
  let s := (s.releaseDatagram call).complete call (.ok reply) body
  if s.clientObserveLive call then s else s.owe call (.ok reply)

/-- The packet in a slot is a request of the Call that may be sent again. -/
def isRequestOf (id : Nat) : Bool :=
  (s.tx.slot id).any fun slot => slot.endpoint = some call.peer ∧
    ((decodeWithToken maxLen slot.bytes).toOption.any fun parsed =>
      parsed.token = call.token ∧ parsed.header.code.isRequest)

def abandonPacket (s : State maxLen) (id : Nat) : State maxLen :=
  match s.tx.pendingCon id with
  | none => s
  | some pending =>
  if s.isRequestOf call id then
    { s with tx := ((s.tx.takePendingCon pending.messageId call.peer).2.releaseTx id).2 }
  else s

/-- Give up all that a request owns: its exchange, its packets and its upload. -/
def abandonSend : State maxLen :=
  let s := (s.takeExchange call).2
  let s := (List.range s.tx.slots.length).foldl (abandonPacket call) s
  { s with uploads := s.uploads.filter (·.call ≠ call) }

end

section

variable (s : State maxLen)

/-- A reserved request that was not sent yet: all of its identity is still in its slot. -/
def exchangeIsUnsent (entry : ExchangeEntry maxLen) : Bool :=
  (s.tx.pendingCon entry.txSlot).any fun pending =>
    pending.messageId = entry.messageId ∧ pending.endpoint = entry.key.endpoint ∧
      pending.rto.started = false

/-- Remove the first exchange that names the slot of a datagram which was not sent. -/
def dropExchangeForTx (tx : Nat) : State maxLen :=
  match s.exchanges.forTx tx with
  | none => s
  | some entry => (s.takeExchange (ofEntry entry)).2

def failPendingClient (tx : Nat) (failure : CallFailure) : State maxLen :=
  match s.exchanges.forTx tx with
  | none => s
  | some entry => s.failCall (ofEntry entry) failure false

def giveUpClient (pending : PendingCon) : State maxLen :=
  s.failPendingClient pending.txSlot .timedOut

/-- A Reset ends the Call of the pending request it matches by its slot, or else of the exchange
it matches by Message ID. -/
def completeClientRst (messageId : MessageId) (peer : Endpoint) : State maxLen :=
  let entry := ((s.tx.lookupPendingCon messageId peer).bind s.exchanges.forTx).or
    ((s.exchanges.forMid messageId peer).filter fun entry => !s.exchangeIsUnsent entry)
  match entry with
  | none => s
  | some entry => s.failCall (ofEntry entry) .reset false

end

end State

end Coaptic.Client
