import Coaptic.App.Response
import Coaptic.Lib.Program
import Coaptic.Oscore.Context
import Coaptic.Storage.Dedup

/-!
# State of the App

What a server App holds between polls to answer duplicates, and its access to datagram slots and
the transport. Programs are `EStateM` actions: a failure keeps the state it happened in.

Whether the transport accepts a datagram is read off `answers`. Fields after `answers` are
histories that no action reads: every datagram handed to the transport and every row stored in the
dedup table.
-/
namespace Coaptic.App

open Codec Block Program
open Oscore (RequestRef PartialIv)

/-- Failures of the App. -/
inductive Error
  | commitAfterSend
  | identity
  | deferredUnknown
  | response (error : ResponseError)
  | io
  | slot (error : SlotError)
  | parse (error : ParseError)
  | message (error : EncodeError)
  | saturated
  | block (error : BlockTransferError)
  | oscore (error : Oscore.Error)
  | oscoreCheckpointFailed
deriving DecidableEq

/-- Capacities. -/
structure Config where
  maxLen : Nat
  txBytes : Nat

/-! ### What is retained -/

abbrev Resource := Nat

abbrev Selection := List UInt8

/-- Where a response goes and which request it answers. -/
structure SendResponse (η : Type) (maxLen : Nat) where
  dest : η
  ty : MsgType
  mid : MessageId
  token : OwnedToken maxLen
  noResponse : NoResponse
  block2 : Option BlockValue
  qBlock2 : Option BlockValue
  qRequest : Option (List BlockValue)
  block1 : Option BlockOpt
  oscore : Option RequestRef
  request : Code
deriving DecidableEq

/-- Header of a deferred response that has been sent in part. -/
structure ReplyMeta where
  header : List UInt8
  response : Response
deriving DecidableEq

/-- Observe registration of a deferred request. -/
structure DeferredObserve where
  resource : Resource
  attempted : Option (Nat × Option (Option Nat))
  failedMid : Option (MessageId × Nat)
deriving DecidableEq

/-- Authority to complete deferred work. -/
structure DeferredReply where
  nonce : Token
  generation : Nat
deriving DecidableEq

structure DeferredRow (η : Type) (maxLen : Nat) where
  handle : DeferredReply
  reply : SendResponse η maxLen
  deadlineMs : Nat
  selection : Selection
  qSelectors : List BlockValue
  snapshot : Option (Nat × ReplyMeta)
  completed : Bool
  observe : Option DeferredObserve
deriving DecidableEq

/-- Last POST, PATCH or FETCH whose row could not be stored. -/
structure DedupClosed (η : Type) where
  key : DedupKey η
  dueMs : Nat
deriving DecidableEq

/-! ### Histories -/

/-- What a protected datagram was sealed with, and for which request. -/
structure Sealing where
  key : List UInt8
  nonce : List UInt8
  request : RequestRef
  piv : Option PartialIv
deriving DecidableEq

/-- What a server App holds for the replies it may have to repeat. -/
structure State (η : Type) (cfg : Config) where
  tx : DatagramPool η Sealing
  dedup : DedupTable η Sealing
  dedupClosed : Option (DedupClosed η)
  now : Nat
  answers : List Bool
  sent : List (η × Packet Sealing)
  stored : List (DedupKey η × Nat)

abbrev Act (η : Type) (cfg : Config) := EStateM Error (State η cfg)

variable {η : Type} {cfg : Config}

def ofExcept {α : Type} : Except Error α → Act η cfg α
  | .ok a => pure a
  | .error e => throw e

def answer : Act η cfg Bool := modifyGet fun s =>
  (s.answers.headD true, { s with answers := s.answers.tail })

/-! ### Transmit slots -/

def acquireTx : Act η cfg (Option Nat) := modifyGet fun s =>
  match s.tx.acquire with
  | none => (none, s)
  | some (id, tx) => (some id, { s with tx })

section

variable (tx : Nat)

/-- Callers ignore that the slot may be free already. -/
def releaseTx : Act η cfg Unit := modify fun s =>
  match s.tx.release tx with
  | .error _ => s
  | .ok pool => { s with tx := pool }

def modifyTx (f : DatagramSlot η Sealing → DatagramSlot η Sealing) : Act η cfg Unit := do
  match (← get).tx.slot tx with
  | .error e => throw (.slot e)
  | .ok _ => modify fun s => { s with tx := s.tx.modifySlot tx f }

def setTxEndpoint (dest : η) : Act η cfg Unit :=
  modifyTx tx fun slot => { slot with endpoint := some dest }

def fillTx (packet : Packet Sealing) : Act η cfg Unit :=
  modifyTx tx fun slot => { slot with packet }

/-- Serialize into an occupied slot. The slot keeps what it had when `build` fails. -/
def intoTx (build : Act η cfg (Packet Sealing)) : Act η cfg Unit := do
  match (← get).tx.slot tx with
  | .error e => throw (.slot e)
  | .ok _ =>
    let packet ← build
    modify fun s => { s with tx := s.tx.modifySlot tx fun slot => { slot with packet } }

def plainPacket (msg : Message cfg.maxLen) : Act η cfg (Packet Sealing) :=
  match Codec.encode msg (List.replicate cfg.txBytes 0) with
  | (.error e, _) => throw (.message e)
  | (.ok n, out) => return ⟨out.take n, none⟩

def encodeTx (msg : Message cfg.maxLen) : Act η cfg Unit := intoTx tx (plainPacket msg)

/-- Hand the slot's datagram to the transport. It counts as handed over also when the transport
reports a failure or a short length. -/
def sendTx : Act η cfg Unit := do
  match (← get).tx.slot tx with
  | .error e => throw (.slot e)
  | .ok slot =>
    match slot.endpoint with
    | none => throw .io
    | some endpoint =>
      modify fun s => { s with sent := s.sent ++ [(endpoint, slot.packet)] }
      if ← answer then pure () else throw .io

/-! ### Dedup deadlines -/

def exchangeLifetimeMs : Nat := 247000

/-- When a dedup row lapses. The clock is a `u64` and the sum saturates. -/
def dedupDueMs (nowMs : Nat) : Nat := min (nowMs + exchangeLifetimeMs) (2 ^ 64 - 1)

/-! ### Sending -/

/-- Send and give the slot back in any case. -/
def sendAndRelease : Act η cfg Unit := do
  let outcome ← attempt (sendTx tx)
  releaseTx tx
  ofExcept outcome

end

end Coaptic.App
