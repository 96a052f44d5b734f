import Coaptic.Client.State

/-!
# Sending requests and continuations

Every datagram of a client request takes a slot, is encoded there, is recorded in the exchange
table and is then handed to the transport. Programs fail the way the source's functions return
early; whoever started a continuation ends the Call when it fails.

The blocks of a body are not part of the state: which of them is next, and whether the transfer
allows it, is one of the environment's answers.
-/
namespace Coaptic.Client

open Codec Block Pending Program

variable {maxLen : Nat}

abbrev Act (maxLen : Nat) := EStateM Error (State maxLen)

/-! ### The environment -/

/-- The environment's next decision; a queue that is used up refuses. -/
def answer : Act maxLen Bool := modifyGet fun s =>
  match s.answers with
  | [] => (false, s)
  | first :: rest => (first, { s with answers := rest })

/-- The next datagram the environment provides. The jitter is drawn with the Message ID. -/
def nextPlan : Act maxLen Staging := modifyGet fun s =>
  match s.plans with
  | [] => (⟨none, s.jitterMs, .error (.message .bufferTooSmall), false⟩, s)
  | plan :: rest => (plan, { s with plans := rest, jitterMs := plan.jitterMs })

def demand (error : Error) : Act maxLen Unit := do
  if ← answer then pure () else throw error

def midOf (plan : Staging) : Act maxLen MessageId :=
  match plan.mid with
  | none => throw .identity
  | some mid => pure mid

/-! ### Slots -/

def State.freeTx (s : State maxLen) : Nat := s.tx.occ.occupied.length - s.tx.occ.count

def State.acquireTx (s : State maxLen) : Option Nat × State maxLen :=
  (s.tx.acquireTx.1, { s with tx := s.tx.acquireTx.2 })

/-- A slot that may be kept, unless only the headroom is left. -/
def ordinaryTx : Act maxLen Nat := do
  match ← modifyGet fun s => if s.freeTx ≤ txHeadroom then (none, s) else s.acquireTx with
  | none => throw .saturated
  | some tx => pure tx

def controlTx : Act maxLen Nat := do
  match ← modifyGet State.acquireTx with
  | none => throw .saturated
  | some tx => pure tx

section

variable (call : Call maxLen)

section

variable (ty : MsgType)

/-- Run a step that has taken a slot; the slot is freed if the step fails. -/
def holding {α : Type} (tx : Nat) (step : Act maxLen α) : Act maxLen α := do
  match ← attempt step with
  | .ok value => pure value
  | .error error => do
    modify (·.releaseTx tx)
    throw error

/-! ### One datagram -/

def encodeRequest (tx : Nat) (ty : MsgType) (mid : MessageId) (draft : Except Error Draft) :
    Act maxLen Unit :=
  match draft with
  | .error error => throw error
  | .ok draft => do
    let s ← get
    let message : Message maxLen := ⟨ty, draft.code, mid, call.token, draft.options, draft.payload⟩
    match encode message (List.replicate s.tx.slotBytes 0) with
    | (.error error, _) => throw (.message error)
    | (.ok n, out) => set { s with tx := s.tx.fill tx (out.take n) }

/-- Record the request in a slot as outstanding. What is recorded is read back from the slot. A
key that has a row keeps it. -/
def recordRequest (tx : Nat) (endpoint : Endpoint) : Act maxLen Bool := do
  let s ← get
  match (s.tx.slot tx).map fun slot => decodeWithToken maxLen slot.bytes with
  | none => throw .slot
  | some (.error _) => throw .parse
  | some (.ok parsed) =>
    if !isConOrNonRequest parsed then pure false
    else do
      let (place, exchanges) := s.exchanges.insert ⟨⟨parsed.token, endpoint⟩, parsed.header.id, tx⟩
      set { s with tx := (s.tx.setEndpoint tx endpoint).2, exchanges }
      pure place.isSome

/-- As `recordRequest`; a request that cannot be recorded is refused. -/
def admitRequest (tx : Nat) (endpoint : Endpoint) : Act maxLen Unit := do
  if ← recordRequest tx endpoint then pure () else throw .saturated

def finishSend (tx : Nat) (dest : Endpoint) (pending : Option (Nat × MessageId × Nat))
    (accepted : Bool) : Act maxLen Unit := do
  if ← modifyGet fun s =>
      ((s.tx.finish tx dest pending accepted).1,
        { s with tx := (s.tx.finish tx dest pending accepted).2 }) then pure ()
  else throw .io

def pendingOf (nowMs : Nat) (mid : MessageId) (jitterMs : Nat) : Option (Nat × MessageId × Nat) :=
  if ty = .confirmable then some (nowMs, mid, jitterMs) else none

def finishClientSend (tx : Nat) (ty : MsgType) (nowMs : Nat) (mid : MessageId) (jitterMs : Nat)
    (accepted : Bool) : Act maxLen Unit := do
  holding tx (admitRequest tx call.peer)
  match ← attempt (finishSend tx call.peer (pendingOf ty nowMs mid jitterMs) accepted) with
  | .ok () => pure ()
  | .error error => do
    modify (·.dropExchangeForTx tx)
    throw error

/-- Datagram that is staged in its slot, with the upload it starts. -/
structure Staged (maxLen : Nat) where
  tx : Nat
  mid : MessageId
  jitterMs : Nat
  accepted : Bool
  body : Option (Upload maxLen)
  continueQ : Bool

def stageBlock1Issued : Act maxLen (Staged maxLen) := do
  -- The range is copied out of the body first.
  demand (.block .noTransfer)
  let tx ← ordinaryTx
  let plan ← nextPlan
  let mid ← holding tx (midOf plan)
  holding tx (encodeRequest call tx ty mid plan.draft)
  pure ⟨tx, mid, plan.jitterMs, plan.accepted, none, false⟩

def sendBlock1Issued (nowMs : Nat) : Act maxLen Unit := do
  let staged ← stageBlock1Issued call ty
  finishClientSend call staged.tx ty nowMs staged.mid staged.jitterMs staged.accepted

end

/-! ### Uploads -/

/-- Send blocks until the window is full or the body is sent; one block if Confirmable. Whether
anything was sent is the outcome. -/
def issueQBlock1Window (call : Call maxLen) (ty : MsgType) (nowMs : Nat) (takeFirst sent : Bool) :
    Nat → Act maxLen Bool
  | 0 => pure sent
  | fuel + 1 => do
    if ← answer then do
      modify fun s => if takeFirst && !sent then (s.takeExchange call).2 else s
      sendBlock1Issued call ty nowMs
      let complete ← answer
      if ty = .confirmable || complete then pure true
      else issueQBlock1Window call ty nowMs takeFirst true fuel
    else do
      -- The window is full, or the transfer fails.
      demand (.block .noTransfer)
      pure sent

def nonTimeoutMs : Nat := 2000

/-- Timer of the next payload set of an upload that gets no Continue; 0 for none. -/
def LiveCall.pace (live : LiveCall maxLen) (ready : Bool) (nowMs jitterMs : Nat) : LiveCall maxLen :=
  let dueMs := nowMs + (nonTimeoutMs + jitterMs)
  { live with
    qPaceMs :=
      if ready && live.ty = .nonConfirmable && live.noResponse.any (·.suppresses .continue231) &&
          dueMs ≤ u64Max then dueMs
      else 0 }

def armQPacing (nowMs : Nat) : Act maxLen Unit := do
  -- The upload is a Q-Block1 one, and its current set is sent and not its last.
  let ready ← answer
  modify fun s =>
    { s with lives := s.lives.update (·.call = call) (·.pace ready nowMs s.jitterMs) }

/-- Send the next block of an upload, or its next payload set. -/
def continueBlock1Tx (upload : Upload maxLen) (nowMs : Nat) : Act maxLen Unit := do
  -- A smaller block size may be adopted first.
  demand (.block .szxMismatch)
  if ← answer then pure ()
  else do
    let ty := (((← get).lives.get call).map (·.ty)).getD .confirmable
    if !upload.q then do
      modify fun s => (s.takeExchange call).2
      demand (.block .noTransfer)
      sendBlock1Issued call ty nowMs
    else if ← answer then do
      demand (.block .outsideWindow)
      let _ ← issueQBlock1Window call ty nowMs true false maxPayloads
      armQPacing call nowMs
    -- A paced upload waits for the Continue of its current set.
    else pure ()

/-- Send the blocks again that the peer reports missing; whether there were any is the outcome. -/
def resendMissing (call : Call maxLen) (nowMs : Nat) (sent : Bool) : Nat → Act maxLen Bool
  | 0 => pure sent
  | fuel + 1 => do
    if ← answer then do
      demand (.block .noTransfer)
      sendBlock1Issued call .nonConfirmable nowMs
      resendMissing call nowMs true fuel
    else pure sent

def reissueQBlock1Missing (nowMs : Nat) : Act maxLen Unit := do
  -- A malformed report, or one about blocks that were never sent, is ignored.
  if ← answer then do
    if ((← get).lives.get call).isNone then pure ()
    else if ← resendMissing call nowMs false maxPayloads then armQPacing call nowMs
    else pure ()
  else pure ()

def stageClientBlock1 (tag : Option (List UInt8)) (q : Bool) (ty : MsgType) (tx : Nat)
    (mid : MessageId) (jitterMs : Nat) : Act maxLen (Staged maxLen) :=
  holding tx do
    -- Of the seven block sizes the largest whose first block fits is taken.
    let plan ← nextPlan
    encodeRequest call tx ty mid plan.draft
    demand (.block .saturated)
    let upload : Upload maxLen := ⟨call, tag, q⟩
    modify fun s => { s with uploads := upload :: s.uploads }
    if ← answer then do
      let complete ← answer
      pure ⟨tx, mid, jitterMs, plan.accepted, some upload, q && ty = .nonConfirmable && !complete⟩
    else do
      -- The options do not fit beside the transfer, or it has no first block.
      modify (·.releaseTxBody upload)
      throw (.block .noTransfer)

def sendStagedClient (ty : MsgType) (nowMs : Nat) (staged : Staged maxLen) : Act maxLen Unit := do
  let outcome ← attempt do
    finishClientSend call staged.tx ty nowMs staged.mid staged.jitterMs staged.accepted
    if staged.continueQ then do
      let _ ← issueQBlock1Window call ty nowMs false false maxPayloads
      pure ()
    else pure ()
  match outcome with
  | .ok () => pure ()
  | .error error => do
    modify fun s => staged.body.elim s s.releaseTxBody
    throw error

/-! ### Follow-up requests -/

/-- A follow-up that does not fit: a FETCH is sent by blocks instead. -/
def sendFetchByBlocks (live : LiveCall maxLen) (q : Bool) (ty : MsgType) (nowMs tx : Nat)
    (mid : MessageId) (jitterMs : Nat) : Act maxLen Unit := do
  if q && live.requestTag.isNone then do
    modify (·.releaseTx tx)
    throw (.block .missingIdentity)
  else do
    let staged ← stageClientBlock1 call live.requestTag q ty tx mid jitterMs
    sendStagedClient call ty nowMs staged

/-- Record and send a follow-up. Its exchange stays when it is not sent: the caller ends the Call. -/
def finishFollowup (tx : Nat) (ty : MsgType) (nowMs : Nat) (mid : MessageId) (jitterMs : Nat)
    (accepted : Bool) : Act maxLen Unit := do
  holding tx (admitRequest tx call.peer)
  finishSend tx call.peer (pendingOf ty nowMs mid jitterMs) accepted

def followup (live : Option (LiveCall maxLen)) (q : Bool) (ty : MsgType) (nowMs : Nat) :
    Act maxLen Unit := do
  demand (.message .optionsFull)
  let plan ← nextPlan
  let mid ← midOf plan
  let tx ← ordinaryTx
  match ← attempt (encodeRequest call tx ty mid plan.draft) with
  | .ok () => finishFollowup call tx ty nowMs mid plan.jitterMs plan.accepted
  | .error error =>
    match live.filter fun live => live.code = .fetch ∧ error = .message .bufferTooSmall with
    | some live => sendFetchByBlocks call live q ty nowMs tx mid plan.jitterMs
    | none => do
      modify (·.releaseTx tx)
      throw error

def sendFollowup (q : Bool) (recoveryTy : Option MsgType) (nowMs : Nat) : Act maxLen Unit := do
  let s ← get
  let live := s.lives.get call
  followup call live q (recoveryTy.getD ((live.map (·.ty)).getD .confirmable)) nowMs

def orFail (continuation : Act maxLen Unit) : Act maxLen Unit := do
  match ← attempt continuation with
  | .ok () => pure ()
  | .error error => do
    modify fun s => (s.abandonSend call).failCall call .continuationFailed true
    throw error

end

end Coaptic.Client
