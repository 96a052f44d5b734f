import Coaptic.Client.Complete
import Coaptic.Client.Identity

/-!
# Requests, and the client as a machine

A request is admitted, staged and recorded before it is sent, and its Call is installed only when
all of its first datagrams are sent. Everything that can happen to a client is an event; what the
environment decides comes with the event.
-/
namespace Coaptic.Client

open Codec Block Pending Program Run

variable {maxLen : Nat}

/-! ### Requests -/

namespace State

section

variable (s : State maxLen)

def registered (spec : RequestSpec maxLen) : Option (Call maxLen) :=
  if spec.observe ≠ .register ∨ spec.refreshing then none
  else
  (s.lives.reduceOption.find? fun live =>
    live.call.peer = spec.dest ∧ live.observe = .register ∧ live.dueMs ≠ 0 ∧
      s.waiting live.call ∧
      (live.requestIdentity.any fun original =>
        spec.identity.any fun identity => ObserveRequest.sameTarget original identity)).map (·.call)

/-- Packets that outstanding Calls and stored replies may keep. -/
def responseCredits : Nat :=
  s.lives.reduceOption.countP (fun row => !row.retired &&
      !s.inbox.any fun slot => slot.any fun reply =>
        reply.call = row.call && reply.complete && reply.result.toOption.isNone) +
    s.inbox.reduceOption.countP fun row => row.result.toOption.isSome && (s.lives.get row.call).isNone

def tagInUse (spec : RequestSpec maxLen) (token : OwnedToken maxLen) : Bool :=
  spec.requestTag.isSome && s.lives.reduceOption.any fun live =>
    !live.retired && live.call.peer = spec.dest && live.requestTag = spec.requestTag &&
      live.call.token ≠ token

/-- The first of at most eight drawn tokens that no row has. -/
def nextToken (draws : List (OwnedToken maxLen)) : Option (OwnedToken maxLen) :=
  (draws.take 8).find? fun token => !s.lives.reduceOption.any (·.call.token = token)

end

end State

def mergeDeadline : Option Nat → Option Nat → Option Nat
  | some new, some old => some (min new old)
  | new, old => new.or old

/-- Check a request against the Calls that are outstanding, up to the choice of its token. A
registration that exists already is handed back with no request to send. -/
def admitCall (spec : RequestSpec maxLen) (draws : List (OwnedToken maxLen)) (nowMs : Nat) :
    Act maxLen (Call maxLen ⊕ Call maxLen) := do
  if spec.deadlineMs.any (· ≤ nowMs) then throw .deadlineElapsed
  else
  match spec.checks with
  | .error error => throw error
  | .ok () => do
    modify fun s => { s with lives := s.lives.expireBackoffs nowMs }
    let s ← get
    match s.lives.backoffUntil spec.dest spec.code spec.path spec.queries with
    | some untilMs => throw (.backoff untilMs)
    | none =>
    match spec.requestIdentity with
    | .error error => throw error
    | .ok _ =>
    match s.registered spec with
    | some call => pure (.inl call)
    | none =>
    if s.fullResponses && !spec.replacing &&
        decide (s.rx.occupied.length - rxHeadroom ≤ s.responseCredits) then throw .saturated
    else if !spec.replacing && decide (s.lives.length ≤ s.lives.reduceOption.length) then
      throw .saturated
    else
    let chosen : Except Error (OwnedToken maxLen) :=
      if spec.replacing then
        match s.lives.observeCall spec.dest spec.identity spec.observeTarget s.waiting with
        | .ok call => .ok call.token
        | .error error => .error (spec.mismatch error)
      else
        match s.nextToken draws with
        | some token => .ok token
        | none => .error .identity
    match chosen with
    | .error error => throw error
    | .ok token =>
      if !s.lives.canAdmit ⟨token, spec.dest⟩ then throw .saturated
      else if spec.qBlock1 && spec.requestTag.isNone then throw .requestTagRequired
      else if s.tagInUse spec token then throw .requestTagInUse
      else pure (.inr ⟨token, spec.dest⟩)

/-- Free slots that hold cached replies, as long as only the headroom is left. -/
def State.evictPins (s : State maxLen) (pins : List Nat) : State maxLen :=
  (pins.take (txHeadroom + 1)).foldl
    (fun s tx => if s.freeTx ≤ txHeadroom then s.releaseTx tx else s) s

section

variable (call : Call maxLen) (spec : RequestSpec maxLen)

def stageClient : Act maxLen (Staged maxLen) := do
  let plan ← nextPlan
  let mid ← midOf plan
  let tx ← ordinaryTx
  match ← attempt (encodeRequest call tx spec.ty mid plan.draft) with
  | .ok () => pure ⟨tx, mid, plan.jitterMs, plan.accepted, none, false⟩
  | .error error =>
    if error ≠ .message .bufferTooSmall then do
      modify (·.releaseTx tx)
      throw error
    else if !spec.qBlock1 && spec.noResponse.any (·.suppresses .continue231) then do
      modify (·.releaseTx tx)
      throw .noResponseUploadUnsupported
    else if spec.hasEtag && spec.code ≠ .fetch then do
      modify (·.releaseTx tx)
      throw .conditionalUploadUnsupported
    else stageClientBlock1 call spec.requestTag spec.qBlock1 spec.ty tx mid plan.jitterMs

/-- Record a staged datagram, and reserve its slot if it is Confirmable. -/
def admitStaged (ty : MsgType) (staged : Staged maxLen) : Act maxLen (Option PendingCon) := do
  admitRequest staged.tx call.peer
  if ty = .confirmable then do
    match ← modifyGet fun s =>
        ((s.tx.reservePendingCon staged.tx call.peer staged.mid).1,
          { s with tx := (s.tx.reservePendingCon staged.tx call.peer staged.mid).2 }) with
    | none => throw .saturated
    | some pending => pure (some pending)
  else pure none

def finishPrepared (call : Call maxLen) (staged : Staged maxLen) (pending : Option PendingCon)
    (nowMs : Nat) : Act maxLen Unit := do
  let reserved := pending.map (·, staged.jitterMs)
  if ← modifyGet fun s =>
      ((s.tx.finishPrepared staged.tx call.peer reserved nowMs staged.accepted).1,
        { s with
          tx := (s.tx.finishPrepared staged.tx call.peer reserved nowMs staged.accepted).2 }) then
    pure ()
  else throw .io

def sendPrepared (ty : MsgType) (nowMs : Nat) (staged : Staged maxLen) : Act maxLen Unit := do
  let pending ← holding staged.tx (admitStaged call ty staged)
  finishPrepared call staged pending nowMs

def sendFirstSet (call : Call maxLen) (ty : MsgType) (nowMs : Nat) : Nat → Act maxLen Unit
  | 0 => pure ()
  | fuel + 1 => do
    if ← answer then do
      let complete ← answer
      let staged ← stageBlock1Issued call ty
      sendPrepared call ty nowMs staged
      if complete then pure () else sendFirstSet call ty nowMs fuel
    else demand (.block .noTransfer)

/-- Stage and send a new request. What it owns goes if it is not sent in full. -/
def sendCall (nowMs : Nat) : Act maxLen Unit :=
  onError (do
    let staged ← stageClient call spec
    sendPrepared call spec.ty nowMs staged
    if staged.continueQ then sendFirstSet call spec.ty nowMs maxPayloads else pure ())
    (·.abandonSend call)

def nonLifetimeMs : Nat := 145000
def exchangeLifetimeMs : Nat := 247000

/-- The row of a request. A refreshed registration keeps what it has observed. -/
def liveCall (prior : Option (LiveCall maxLen)) (nowMs : Nat) : LiveCall maxLen where
  call
  queries := spec.queries
  path := spec.path
  requestTag := spec.requestTag
  code := spec.code
  ty := spec.ty
  noResponse := spec.noResponse
  observe := spec.observe
  observed := prior.bind (·.observed)
  observedFormat := prior.bind (·.observedFormat)
  requestIdentity := spec.identity
  dueMs := min (nowMs + if spec.ty = .nonConfirmable then nonLifetimeMs else exchangeLifetimeMs) u64Max
  deadlineMs := mergeDeadline spec.deadlineMs (prior.bind (·.deadlineMs))
  qPaceMs := 0
  backoffUntilMs := 0
  retired := false

end

def State.commitCall (s : State maxLen) (live : LiveCall maxLen) (replacing : Bool) : State maxLen :=
  let s := if replacing then
      let s := s.releaseDatagram live.call
      ({ s with inbox := s.inbox.discard live.call }).settle live.call
    else s
  { s with lives := s.lives.insert live }

/-- Send a request. `pins` are the slots of cached replies that may be evicted for it. -/
def request (spec : RequestSpec maxLen) (draws : List (OwnedToken maxLen)) (pins : List Nat)
    (nowMs : Nat) : Act maxLen (Call maxLen) := do
  match ← admitCall spec draws nowMs with
  | .inl call => pure call
  | .inr call => do
    let s ← get
    let prior := if spec.refreshing then s.lives.get call else none
    if (mergeDeadline spec.deadlineMs (prior.bind (·.deadlineMs))).any (· ≤ nowMs) then
      throw .deadlineElapsed
    else do
      -- A new request under an old token: nothing of the old request stays.
      modify fun s =>
        if spec.replacing then
          (s.abandonSend call).failCall call
            (if spec.refreshing then .reregistrationFailed else .cancellationFailed) true
        else s
      modify (·.evictPins pins)
      sendCall call spec nowMs
      modify (·.commitCall (liveCall call spec prior nowMs) spec.replacing)
      armQPacing call nowMs
      pure call

/-! ### Events -/

inductive Event (maxLen : Nat)
  | request (spec : RequestSpec maxLen) (draws : List (OwnedToken maxLen)) (pins : List Nat)
      (nowMs : Nat)
  | receive (peer : Endpoint) (parsed : ParsedMessage maxLen) (nowMs : Nat) (outcome : BlockOutcome)
  | control (isReset : Bool) (mid : MessageId) (peer : Endpoint) (nowMs : Nat)
  | expire (nowMs : Nat)
  | retransmit (nowMs : Nat)
  | retransmitFailed (tx : Nat)
  | recover (id nowMs : Nat)
  | qExpire (id : Nat)
  | pace (nowMs : Nat)
  | take (call : Call maxLen)
  | takeInto (call : Call maxLen) (available : Nat) (packet : Option (List UInt8))
  | cancel (call : Call maxLen)
  | removeAssociation (peer : Endpoint)
  -- The server's share of the outgoing slots.
  | serve (bytes : List UInt8) (dest : Endpoint) (pending : Option (Nat × MessageId × Nat))
      (accepted : Bool)
  | cache (bytes : List UInt8)
  | supersede (expected : PendingCon) (bytes : List UInt8)
  | release (tx : Nat)

/-- An event, with what the environment decides while it is handled. -/
structure Input (maxLen : Nat) where
  event : Event maxLen
  plans : List Staging
  answers : List Bool

def serve (bytes : List UInt8) (dest : Endpoint) (pending : Option (Nat × MessageId × Nat))
    (accepted : Bool) : Act maxLen Unit := do
  let tx ← ordinaryTx
  modify fun s => { s with tx := s.tx.fill tx bytes }
  finishSend tx dest pending accepted

def cache (bytes : List UInt8) : Act maxLen Unit := do
  let tx ← ordinaryTx
  modify fun s => { s with tx := s.tx.fill tx bytes }

def receive (peer : Endpoint) (parsed : ParsedMessage maxLen) (nowMs : Nat)
    (outcome : BlockOutcome) : Act maxLen Unit := do
  let s ← get
  match s.rx.acquire with
  | none => throw .saturated
  | some (rx, occ) => do
    set { s with rx := occ }
    completeClient peer parsed rx nowMs outcome

namespace State

def handle (s : State maxLen) : Event maxLen → State maxLen
  | .request spec draws pins nowMs => (exec (Client.request spec draws pins nowMs) s).2
  | .receive peer parsed nowMs outcome => (exec (Client.receive peer parsed nowMs outcome) s).2
  | .control isReset mid peer nowMs => (exec (Client.control isReset mid peer nowMs) s).2
  | .expire nowMs => s.expireClientExchanges nowMs
  | .retransmit nowMs => s.retransmit nowMs
  | .retransmitFailed tx => s.retransmitFailed tx
  | .recover id nowMs => (exec (recoverQBlock2 id nowMs) s).2
  | .qExpire id => s.qblockGiveUp id
  | .pace nowMs => (exec (paceQBlock1 nowMs) s).2
  | .take call => (s.takeResponse call).2
  | .takeInto call available packet => (s.takeResponseInto call available packet).2
  | .cancel call => (s.cancel call).2
  | .removeAssociation peer => s.removeAssociation peer
  | .serve bytes dest pending accepted => (exec (Client.serve bytes dest pending accepted) s).2
  | .cache bytes => (exec (Client.cache bytes) s).2
  | .supersede expected bytes => s.supersede expected bytes
  | .release tx => s.releaseTx tx

def step (s : State maxLen) (input : Input maxLen) : State maxLen :=
  { s with plans := input.plans, answers := input.answers }.handle input.event

end State

/-- Sizes of an App's tables. -/
structure Config where
  calls : Nat
  txSlots : Nat
  slotBytes : Nat
  rxSlots : Nat
  rxBodies : Nat
  fullResponses : Bool
  oscoreActive : Bool

def State.new (cfg : Config) : State maxLen where
  fullResponses := cfg.fullResponses
  oscoreActive := cfg.oscoreActive
  tx := .new cfg.txSlots cfg.slotBytes
  rx := .new cfg.rxSlots
  -- The exchange table has a row for each outgoing slot.
  exchanges := .new cfg.txSlots
  lives := List.replicate cfg.calls none
  inbox := List.replicate cfg.calls none
  observes := []
  downloads := List.replicate cfg.rxBodies none
  uploads := []
  jitterMs := 0
  plans := []
  answers := []
  owed := []

def reached (cfg : Config) (inputs : List (Input maxLen)) : State maxLen :=
  run State.step (State.new cfg) inputs

end Coaptic.Client
