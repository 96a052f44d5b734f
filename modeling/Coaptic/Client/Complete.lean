import Coaptic.Client.Send

/-!
# Responses and the ends of Calls

What an incoming response, a timer and the application do to a Call. A response is accepted in
stages: it is matched and acknowledged, then it may continue an upload, then a block of a
representation is assembled, and at last a reply is stored for the application.
-/
namespace Coaptic.Client

open Codec Block Pending Program

variable {maxLen : Nat}

/-! ### Matching -/

namespace State

section

variable (s : State maxLen) (parsed : ParsedMessage maxLen)

/-- The exchange a response answers. A reserved request that was not sent yet has no answer. -/
def matchingExchange (peer : Endpoint) : Option (ExchangeEntry maxLen) :=
  (s.exchanges.find ⟨parsed.token, peer⟩).filter fun entry =>
    matchesResponse parsed entry.messageId && !s.exchangeIsUnsent entry

def matchingObserve (peer : Endpoint) : Bool :=
  parsed.header.code.isResponse &&
    (parsed.header.ty = .confirmable || parsed.header.ty = .nonConfirmable) &&
    s.clientObserveLive ⟨parsed.token, peer⟩

def stopRequest (entry : Option (ExchangeEntry maxLen)) (peer : Endpoint) : State maxLen :=
  match entry with
  | none => s
  | some entry => s.takePending entry.messageId peer

/-- A piggybacked response is an acknowledgement whatever else it is. -/
def stopOnAck (entry : Option (ExchangeEntry maxLen)) (peer : Endpoint) : State maxLen :=
  if parsed.header.ty = .acknowledgement then s.stopRequest entry peer else s

end

def recordObservation (s : State maxLen) (call : Call maxLen) (parsed : ParsedMessage maxLen)
    (nowMs : Nat) : State maxLen :=
  { s with lives := s.lives.recordObservation call parsed nowMs }

end State

/-! ### Empty messages -/

def sendEmpty (dest : Endpoint) (message : Message maxLen) : Act maxLen Unit := do
  let tx ← controlTx
  let s ← get
  match encode message (List.replicate s.tx.slotBytes 0) with
  | (.error error, _) => do
    modify (·.releaseTx tx)
    throw (.message error)
  | (.ok n, out) => do
    set { s with tx := ((s.tx.fill tx (out.take n)).setEndpoint tx dest).2 }
    let accepted ← answer
    modify (·.releaseTx tx)
    if accepted then pure () else throw .io

def reject (parsed : ParsedMessage maxLen) (peer : Endpoint) : Act maxLen Unit :=
  if parsed.header.ty = .confirmable then sendEmpty peer (.emptyRst parsed.header.id) else pure ()

def acknowledge (parsed : ParsedMessage maxLen) (peer : Endpoint) : Act maxLen Unit :=
  if parsed.header.ty = .confirmable then sendEmpty peer (.emptyAck parsed.header.id) else pure ()

def always {α : Type} (p : Act maxLen α) (last : State maxLen → State maxLen) : Act maxLen α := do
  match ← attempt p with
  | .ok value => do
    modify last
    pure value
  | .error error => do
    modify last
    throw error

def onError {α : Type} (p : Act maxLen α) (last : State maxLen → State maxLen) : Act maxLen α := do
  match ← attempt p with
  | .ok value => pure value
  | .error error => do
    modify last
    throw error

/-! ### Assembling a representation -/

/-- What writing one block comes to, for a slot that takes it. -/
inductive BlockOutcome
  | progress (complete : Bool) (payload : List UInt8)
  | refused (error : BlockTransferError)
deriving DecidableEq

/-- Write a block into the Call's transfer of this entity tag and kind, or into a new one. -/
def State.applyCallBlock2 (s : State maxLen) (call : Call maxLen) (etag : Option (List UInt8))
    (q : Bool) (outcome : BlockOutcome) : Except BlockTransferError (Nat × Bool) × State maxLen :=
  let known := s.downloads.findIdx? fun slot =>
    slot.any fun download => download.call = call ∧ download.etag = etag ∧ download.q = q
  match outcome with
  | .refused error => (.error error, s)
  | .progress complete payload =>
  match known with
  | some id =>
    if (s.downloads[id]?.join).any (·.complete) then (.error .alreadyComplete, s)
    else
      (.ok (id, complete),
        { s with downloads := s.downloads.set id (some ⟨call, etag, q, complete, payload⟩) })
  | none =>
    match s.downloads.findIdx? (·.isNone) with
    | none => (.error .saturated, s)
    | some id =>
      (.ok (id, complete),
        { s with downloads := s.downloads.set id (some ⟨call, etag, q, complete, payload⟩) })

def State.rxBodyPayload (s : State maxLen) (id : Nat) : Option (List UInt8) :=
  (s.downloads[id]?.join).map (·.payload)

section

variable (call : Call maxLen) (parsed : ParsedMessage maxLen)

/-- A response decides whether the Call observes: it starts, goes on or ends. -/
def acceptClientObserve (viaExchange : Bool) : Act maxLen Unit := do
  let s ← get
  let live := s.lives.get call
  let subscribed := live.any (·.observe = .register) || s.clientObserveLive call
  if live.any (·.observe = .deregister) then modify (·.takeObserve call)
  else if subscribed && parsed.observe.join.isSome && parsed.header.code.isSuccess then do
    -- The table of observations may be full.
    let room ← answer
    modify fun s =>
      if s.clientObserveLive call || !room then s else { s with observes := call :: s.observes }
  else if viaExchange || subscribed then modify (·.takeObserve call)
  else pure ()

/-- `acceptClientObserve` for the first block of a representation, by its stored header. -/
def acceptOriginal (reply : ReplyMeta) (viaExchange : Bool) : Act maxLen Unit :=
  match decodeWithToken maxLen reply.header with
  | .ok original => acceptClientObserve call original viaExchange
  -- The header was encoded from a message.
  | .error _ => pure ()

def finishAssembled (rx id : Nat) (reply : ReplyMeta) (viaExchange : Bool) : Act maxLen Unit := do
  let s ← get
  if !s.fullResponses && (s.rxBodyPayload id).any (responseBody < ·.length) then
    modify fun s => (s.failCall call .responseBodyBounds true).releaseRx rx
  else do
    let reply := (s.inbox.partialMeta call id).getD reply
    acceptOriginal call reply viaExchange
    modify fun s => ((s.takeExchange call).2.storeReply call reply (some id)).releaseRx rx

def continueBlock2 (q : Bool) (nowMs : Nat) : Act maxLen Unit := do
  if !q then do
    modify fun s => (s.takeExchange call).2
    if ← answer then sendFollowup call false none nowMs else pure ()
  -- Confirmable blocks go on by their acknowledgements.
  else if parsed.header.ty = .confirmable then pure ()
  else if ← answer then do
    modify fun s => (s.takeExchange call).2
    if ← answer then sendFollowup call true none nowMs else pure ()
  else pure ()

def isRepeat (q : Bool) (error : BlockTransferError) : Bool :=
  error = .alreadyComplete || if q then error = .duplicate else error = .overlap

def retainPartial (call : Call maxLen) (reply : ReplyMeta) (rx id : Nat) : Act maxLen Unit := do
  modify (·.releaseDatagram call)
  match ← modifyGet fun s =>
      ((s.inbox.retainPartial call reply id).1,
        { s with inbox := (s.inbox.retainPartial call reply id).2 }) with
  | .ok (some previous) => modify fun s => if previous = id then s else s.releaseRxBody previous
  | .ok none => pure ()
  | .error () => do
    modify fun s => (s.releaseRxBody id).releaseRx rx
    throw .saturated

/-- A response that carries one block of a representation. -/
def acceptBlock (reply : ReplyMeta) (rx nowMs : Nat) (viaExchange q : Bool)
    (outcome : BlockOutcome) : Act maxLen Unit := do
  let etag := (parsed.getOption .etag).map (·.value)
  match ← modifyGet (·.applyCallBlock2 call etag q outcome) with
  | .ok (id, true) => do
    modify (·.recordObservation call parsed nowMs)
    finishAssembled call rx id reply viaExchange
  | .ok (id, false) => do
    modify (·.recordObservation call parsed nowMs)
    retainPartial call reply rx id
    always (orFail call (continueBlock2 call parsed q nowMs)) (·.releaseRx rx)
  | .error error =>
    modify fun s =>
      (if isRepeat q error then s else s.failCall call (.blockTransfer error) true).releaseRx rx

/-! ### Storing a reply -/

def State.freeRx (s : State maxLen) : Nat := s.rx.occupied.length - s.rx.count

/-- The packet stays with the Call's row, or goes if there is none. -/
def State.keepDatagram (s : State maxLen) (call : Call maxLen) (rx : Nat) : State maxLen :=
  if s.inbox.any fun slot => slot.any fun row => row.call = call then
    { s with inbox := s.inbox.update call fun row => { row with datagram := some rx } }
  else s.releaseRx rx

def acceptDatagram (reply : ReplyMeta) (rx nowMs : Nat) (viaExchange : Bool) : Act maxLen Unit := do
  let s ← get
  let replacing := s.inbox.any fun slot =>
    slot.any fun row => row.call = call && row.datagram.isSome
  if s.fullResponses && !replacing && decide (s.freeRx < rxHeadroom) then
    modify fun s => (s.failCall call .packetHeadroom true).releaseRx rx
  else do
    modify (·.recordObservation call parsed nowMs)
    acceptClientObserve call parsed viaExchange
    modify fun s =>
      let s := (s.takeExchange call).2.storeReply call reply none
      if s.fullResponses then s.keepDatagram call rx else s.releaseRx rx

def acceptReply (rx nowMs : Nat) (viaExchange : Bool) (outcome : BlockOutcome) : Act maxLen Unit :=
  match ReplyMeta.fromParsed parsed call.peer nowMs with
  | .error failure => modify fun s => (s.failCall call failure true).releaseRx rx
  | .ok reply => do
    modify fun s => { s with lives := s.lives.recordBackoff call parsed nowMs }
    let overloaded :=
      parsed.header.code = .tooManyRequests || parsed.header.code = .serviceUnavailable
    if !overloaded && parsed.block2.isSome then
      acceptBlock call parsed reply rx nowMs viaExchange false outcome
    else if !overloaded && !parsed.qBlock2.isEmpty then
      acceptBlock call parsed reply rx nowMs viaExchange true outcome
    else acceptDatagram call parsed reply rx nowMs viaExchange

/-- `application/missing-blocks+cbor-seq`. -/
def missingBlocks : Nat := 272

/-- A fresh response, once it is acknowledged: it may continue an upload. -/
def acceptResponse (rx nowMs : Nat) (viaExchange : Option (ExchangeEntry maxLen))
    (outcome : BlockOutcome) : Act maxLen Unit := do
  modify fun s => (s.stopRequest viaExchange call.peer).takePending parsed.header.id call.peer
  let s ← get
  match s.uploadBody call with
  | none => acceptReply call parsed rx nowMs viaExchange.isSome outcome
  | some upload =>
    if upload.q && parsed.header.code = .requestEntityIncomplete &&
        parsed.contentFormat == some (some missingBlocks) &&
        (s.lives.get call).any (·.ty = .nonConfirmable) then
      always (orFail call (reissueQBlock1Missing call nowMs)) (·.releaseRx rx)
    else if parsed.header.code = .continue231 then
      always (orFail call (continueBlock1Tx call upload nowMs)) (·.releaseRx rx)
    else do
      modify (·.releaseTxBody upload)
      acceptReply call parsed rx nowMs viaExchange.isSome outcome

end

def completeClient (peer : Endpoint) (parsed : ParsedMessage maxLen) (rx nowMs : Nat)
    (outcome : BlockOutcome) : Act maxLen Unit := do
  let s ← get
  let call : Call maxLen := ⟨parsed.token, peer⟩
  let viaExchange := s.matchingExchange parsed peer
  if viaExchange.isNone && !s.matchingObserve parsed peer then
    always (reject parsed peer) (·.releaseRx rx)
  else if parsed.unknownCritical then do
    modify (·.stopOnAck parsed viaExchange peer)
    always (reject parsed peer) (·.releaseRx rx)
  else if !s.lives.observeFormatAdmissible call parsed nowMs s.oscoreActive then
    always (reject parsed peer) fun s =>
      (s.failCall call .observeFormatMismatch true).releaseRx rx
  else do
    onError (acknowledge parsed peer) (·.releaseRx rx)
    -- A protected response is committed to its binding.
    onError (demand .oscore) (·.releaseRx rx)
    modify (·.stopOnAck parsed viaExchange peer)
    if s.oscoreActive || s.lives.observeFresh call parsed nowMs then
      acceptResponse call parsed rx nowMs viaExchange outcome
    else modify (·.releaseRx rx)

/-! ### Timers -/

def recoverQBlock2 (id nowMs : Nat) : Act maxLen Unit := do
  let s ← get
  match s.downloads[id]?.join with
  | none => pure ()
  | some download =>
    if download.q && !download.complete && (s.lives.get download.call).isSome then
      orFail download.call (sendFollowup download.call true (some .nonConfirmable) nowMs)
    else pure ()

/-- Send the next payload set of the upload whose timer is due first. -/
def paceQBlock1 (nowMs : Nat) : Act maxLen Unit := do
  let s ← get
  let due := s.lives.reduceOption.filter fun live => live.qPaceMs ≠ 0 ∧ live.qPaceMs ≤ nowMs
  match due.argmin (·.qPaceMs) with
  | none => pure ()
  | some live => do
    set { s with lives := s.lives.update (·.call = live.call) fun row => { row with qPaceMs := 0 } }
    match s.uploadBody live.call with
    | none => pure ()
    | some upload =>
      orFail live.call do
        demand (.block .outsideWindow)
        continueBlock1Tx live.call upload nowMs

/-- An acknowledged block of a Confirmable upload is followed by the next one. -/
def continueQBlock1Ack (mid : MessageId) (peer : Endpoint) (nowMs : Nat) : Act maxLen Unit := do
  let s ← get
  match s.exchanges.forMid mid peer with
  | none => pure ()
  | some entry =>
    let call := ofEntry entry
    match (s.lives.get call).filter (·.ty = .confirmable), s.uploadBody call with
    | some _, some upload =>
      if !upload.q then pure ()
      -- A body that is sent has nothing to follow.
      else if ← answer then
        orFail call do
          demand (.block .outsideWindow)
          continueBlock1Tx call upload nowMs
      else pure ()
    | _, _ => pure ()

def control (isReset : Bool) (mid : MessageId) (peer : Endpoint) (nowMs : Nat) :
    Act maxLen Unit := do
  if isReset then do
    modify (·.completeClientRst mid peer)
    modify (·.takePending mid peer)
  else do
    let s ← get
    modify (·.takePending mid peer)
    if (s.tx.lookupPendingCon mid peer).isSome then continueQBlock1Ack mid peer nowMs else pure ()

namespace State

section

variable (s : State maxLen)

def retransmit (nowMs : Nat) : State maxLen :=
  match s.tx.pollRetransmit nowMs with
  | (some (.giveUp pending), tx) => ({ s with tx }.giveUpClient pending).releaseTx pending.txSlot
  | (_, tx) => { s with tx }

/-- A retransmission whose delivery is uncertain ends its request. -/
def retransmitFailed (tx : Nat) : State maxLen :=
  match s.tx.pendingCon tx with
  | none => s
  | some _ => (s.failPendingClient tx .continuationFailed).releaseTx tx

/-- A newer notification takes the place of the one that waits in its slot. -/
def supersede (expected : PendingCon) (bytes : List UInt8) : State maxLen :=
  match s.tx.replacePendingCon expected bytes with
  | (.error _, _) => s
  | (.ok _, tx) => { s with tx }

/-- A Q-Block representation that is not completed in time is dropped with its Call. -/
def qblockGiveUp (id : Nat) : State maxLen :=
  match s.downloads[id]?.join with
  | none => s
  | some download =>
  if download.q && !download.complete then
    let s := s.releaseRxBody id
    if (s.lives.get download.call).isSome then s.failCall download.call .timedOut true else s
  else s

def waiting (call : Call maxLen) : Bool :=
  !s.inbox.contains call || s.clientObserveLive call

def expiry (live : LiveCall maxLen) (nowMs : Nat) : Option (Call maxLen × CallFailure) :=
  let deadlineReached := live.deadlineMs.any (· ≤ nowMs)
  let lifetimeReached := live.dueMs ≠ 0 && decide (live.dueMs ≤ nowMs)
  if live.retired || (!deadlineReached && !lifetimeReached) || !s.waiting live.call then none
  else if deadlineReached then some (live.call, .deadlineExceeded)
  else if (s.exchanges.find live.call.key).isSome then some (live.call, .timedOut)
  else none

def expireClientExchanges (nowMs : Nat) : State maxLen :=
  let s := { s with lives := s.lives.expireBackoffs nowMs }
  (s.lives.reduceOption.filterMap (s.expiry · nowMs)).foldl
    (fun s (call, failure) => s.failCall call failure true) s

/-! ### The application -/

def takeResponse (call : Call maxLen) :
    Option (Except CallFailure (ReplyMeta × Option (List UInt8))) × State maxLen :=
  let s := s.releaseDatagram call
  match s.inbox.take call with
  | (none, _) => (none, s)
  | (some row, inbox) =>
  let s := { s with inbox }
  let s := if s.clientObserveLive call then s else { s with lives := s.lives.remove call }
  let s := s.settle call
  match row.body with
  | none => (some (row.result.map (·, none)), s)
  | some id =>
  if (s.rxBodyPayload id).any (responseBody < ·.length) then
    (some (.error .responseBodyBounds), s.releaseRxBody id)
  else (some (row.result.map (·, s.rxBodyPayload id)), s.releaseRxBody id)

end

end State

inductive ResponseBufferError
  | unavailable
  | tooSmall (required available : Nat)
deriving DecidableEq

namespace State

section

variable (s : State maxLen)

/-- Complete payload of a stored reply; `packet` is what the retained datagram decodes to. -/
def replyBytes (row : InboxRow maxLen) (reply : ReplyMeta) (packet : Option (List UInt8)) :
    Option (List UInt8) :=
  match row.body, row.datagram with
  | some id, _ => s.rxBodyPayload id
  | none, some _ => packet
  | none, none => if reply.payload.length < reply.payloadSrcLen then none else some reply.payload

def takeResponseInto (call : Call maxLen) (available : Nat) (packet : Option (List UInt8)) :
    Except ResponseBufferError (Option (Except CallFailure (ReplyMeta × List UInt8))) ×
      State maxLen :=
  match s.inbox.completed call with
  | none => (.ok none, s)
  | some row =>
  let copied : Except ResponseBufferError (Except CallFailure (ReplyMeta × List UInt8)) :=
    match row.result with
    | .error failure => .ok (.error failure)
    | .ok reply =>
      match s.replyBytes row reply packet with
      | none => .error .unavailable
      | some bytes =>
        if available < bytes.length then .error (.tooSmall bytes.length available)
        else .ok (.ok (reply, bytes))
  match copied with
  | .error error => (.error error, s)
  | .ok result =>
  let s := s.releaseDatagram call
  let s := { s with inbox := (s.inbox.take call).2 }
  let s : State maxLen := match row.body with
    | none => s
    | some id => s.releaseRxBody id
  let s := if s.clientObserveLive call then s else { s with lives := s.lives.remove call }
  (.ok (some result), s.settle call)

def cancel (call : Call maxLen) : Bool × State maxLen :=
  if (s.lives.get call).isNone || !s.waiting call then (false, s)
  else (true, s.failCall call .cancelled true)

section

variable (peer : Endpoint)

/-- Fail the Call of one row and clear the row, if its peer is the association's. -/
def revokeRow (s : State maxLen) (i : Nat) : State maxLen :=
  match (s.lives[i]?.join).filter (·.call.peer = peer) with
  | none => s
  | some live =>
    let s := s.failCall live.call .associationRevoked true
    { s with lives := s.lives.set i none }

def revokeAssociation : State maxLen :=
  (List.range s.lives.length).foldl (revokeRow peer) s

/-- Release one datagram slot of an association that is removed, with its exchange and timer. -/
def sweepTx (s : State maxLen) (id : Nat) : State maxLen :=
  let s : State maxLen := match (s.exchanges.entries[id]?.join).filter (·.key.endpoint = peer) with
    | none => s
    | some entry => (s.takeExchange (ofEntry entry)).2
  let s : State maxLen := match (s.tx.pendingCon id).filter (·.endpoint = peer) with
    | none => s
    | some pending => { s with tx := (s.tx.takePendingCon pending.messageId peer).2 }
  if ((s.tx.slot id).bind (·.endpoint)) = some peer then s.releaseTx id else s

/-- Remove an association: its Calls fail and all that belongs to its route is released. -/
def removeAssociation : State maxLen :=
  let s := s.revokeAssociation peer
  let s := { s with observes := s.observes.filter (·.peer ≠ peer) }
  let s := (List.range s.tx.slots.length).foldl (sweepTx peer) s
  { s with
    downloads := s.downloads.map fun slot => slot.filter (·.call.peer ≠ peer)
    uploads := s.uploads.filter (·.call.peer ≠ peer) }

end

end

end State

end Coaptic.Client
