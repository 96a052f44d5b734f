import Coaptic.Provisioning.Cloud
import Coaptic.Oscore.Wire

/-!
# Sending, hand-off and routing on a shared listener

One flush sends at most one saved reply, and owners take turns. A finished handshake is handed to
the application once its last reply is out.
-/
namespace Coaptic.Provisioning

open Codec (OptionNumber decode)

variable {prim : Primitives} {edhoc : Edhoc prim} {ε : Type}

/-! ### Outgoing datagrams -/

/-- The transport: how many bytes of a datagram it says it has sent. -/
abbrev Transport (ε : Type) : Type := UdpEndpoint → List UInt8 → Except ε Nat

section

variable (io : Transport ε) (endpoint : UdpEndpoint)

def send (bytes : List UInt8) : Except (CloudError ε) Unit :=
  match io endpoint bytes with
  | .error e => .error (.io e)
  | .ok sent => if sent ≠ bytes.length then .error .shortSend else .ok ()

/-- A saved reply of an owner. -/
inductive Reply
  | first
  | second
  | receipt
  | challenge
deriving DecidableEq

/-- What one saved reply comes to: whether the call ends with it, and with what; the bytes passed
to the transport; and the reply afterwards. -/
structure Visit (ε α : Type) where
  outcome : Option (Except (CloudError ε) Status)
  sent : Option (List UInt8)
  after : α

section

variable (localId : ConnectionId) (now : Nat)

def sendExchange (x : Exchange) : Visit ε Exchange :=
  if x.queued = false ∨ x.expires ≤ now then ⟨none, none, { x with queued := false }⟩
  else
  match x.response with
  | none => ⟨none, none, { x with queued := false }⟩
  | some reply =>
  match send io endpoint reply.bytes with
  | .error e => ⟨some (.error e), some reply.bytes, x⟩
  | .ok () =>
  let outcome : Except (CloudError ε) Status :=
    match x.notice with
    | none => .ok .progress
    | some notice => .error (notice.error endpoint localId)
  ⟨some outcome, some reply.bytes, { x with queued := false }⟩

def flushReceipt (r : ErrorReceipt) : Visit ε ErrorReceipt :=
  if r.expires ≤ now then ⟨none, none, r⟩
  else
  let report (r : ErrorReceipt) (progress : Bool) (sent : Option (List UInt8)) :
      Visit ε ErrorReceipt :=
    if r.reported then ⟨if progress then some (.ok .progress) else none, sent, r⟩
    else ⟨some (.error (.peerAbort endpoint localId r.code)), sent, { r with reported := true }⟩
  if r.pending then
    match send io endpoint r.acknowledgement with
    | .error e => ⟨some (.error e), some r.acknowledgement, r⟩
    | .ok () => report { r with pending := false } true (some r.acknowledgement)
  else report r false none

/-- A reply that is not there has nothing to send. -/
def Visit.ofOption {α : Type} (visit : α → Visit ε α) : Option α → Visit ε (Option α)
  | none => ⟨none, none, none⟩
  | some a => ⟨(visit a).outcome, (visit a).sent, some (visit a).after⟩

/-- The replies of one owner in turn, up to the first with which the call ends. -/
def flushOwner (xs : Exchanges) (receipt : Option ErrorReceipt) :
    Option (Except (CloudError ε) Status) × Option (Reply × List UInt8) × Exchanges ×
      Option ErrorReceipt :=
  let first := Visit.ofOption (sendExchange io endpoint localId now) xs.first
  if first.outcome.isSome then
    (first.outcome, first.sent.map (.first, ·), { xs with first := first.after }, receipt)
  else
  let second := Visit.ofOption (sendExchange io endpoint localId now) xs.second
  if second.outcome.isSome then
    (second.outcome, second.sent.map (.second, ·), ⟨first.after, second.after⟩, receipt)
  else
    let last := Visit.ofOption (flushReceipt io endpoint localId now) receipt
    (last.outcome, last.sent.map (.receipt, ·), ⟨first.after, second.after⟩, last.after)

end

end

/-- A datagram passed to the transport: which owner's, counted around all owners, and which of its
replies. -/
structure Attempt where
  owner : Nat
  reply : Reply
  endpoint : UdpEndpoint
  bytes : List UInt8
deriving DecidableEq

structure Flushed (edhoc : Edhoc prim) (ε : Type) where
  status : Except (CloudError ε) Status
  state : CloudAdmission edhoc
  attempt : Option Attempt

namespace CloudAdmission

section

variable (s : CloudAdmission edhoc)

def owners : Nat := s.pending.length + s.retained.length + 1

def flushAt (io : Transport ε) (now index : Nat) :
    Option (Except (CloudError ε) Status) × Option Attempt × CloudAdmission edhoc :=
  let next (outcome : Option (Except (CloudError ε) Status)) : Nat :=
    if outcome.isSome then (index + 1) % s.owners else s.sendCursor
  if index < s.pending.length then
    match Slots.row s.pending index with
    | none => (none, none, s)
    | some p =>
      let (outcome, sent, exchanges, receipt) :=
        flushOwner io p.endpoint p.localId now p.exchanges p.finalError
      (outcome, sent.map fun r => ⟨index, r.1, p.endpoint, r.2⟩,
        { s with
          pending := s.pending.set index (some { p with exchanges := exchanges, finalError := receipt })
          sendCursor := next outcome })
  else if index < s.pending.length + s.retained.length then
    match Slots.row s.retained (index - s.pending.length) with
    | none => (none, none, s)
    | some r =>
      let (outcome, sent, exchanges, receipt) :=
        flushOwner io r.association.endpoint r.association.localId now r.exchanges r.finalError
      (outcome, sent.map fun x => ⟨index, x.1, r.association.endpoint, x.2⟩,
        { s with
          retained := s.retained.set (index - s.pending.length)
            (some { r with exchanges := exchanges, finalError := receipt })
          sendCursor := next outcome })
  else
    match s.challenge with
    | none => (none, none, s)
    | some challenge =>
    let attempt : Attempt := ⟨index, .challenge, challenge.endpoint, challenge.response.bytes⟩
    let s := { s with sendCursor := (index + 1) % s.owners }
    match send io challenge.endpoint challenge.response.bytes with
    | .error e => (some (.error e), some attempt, s)
    | .ok () => (some (.ok .progress), some attempt, { s with challenge := none })

def flushFrom (s : CloudAdmission edhoc) (io : Transport ε) (now : Nat) : List Nat → Flushed edhoc ε
  | [] => ⟨.ok .idle, s, none⟩
  | index :: rest =>
    match s.flushAt io now index with
    | (some outcome, attempt, s) => ⟨outcome, s, attempt⟩
    | (none, _, s) => s.flushFrom io now rest

/-- The order of one flush: all owners, from the cursor on. -/
def turns : List Nat :=
  (List.range s.owners).map fun offset => (s.sendCursor + offset) % s.owners

def flush (io : Transport ε) (now : Nat) (registry : AdmissionRegistry prim) : Flushed edhoc ε :=
  match s.maintain now registry with
  | (.error e, s) => ⟨.error e, s, none⟩
  | (.ok (), s) => s.flushFrom io now s.turns

/-! ### Hand-off -/

def Pending.handsOff (p : Pending edhoc) : Bool := p.ready.isSome && !p.exchanges.anyQueued

/-- The least identifier wins; of equal ones the first. -/
def oldest : List (Nat × Pending edhoc) → Option (Nat × Pending edhoc)
  | [] => none
  | item :: rest =>
    match oldest rest with
    | none => some item
    | some best => if best.2.localId.bytes < item.2.localId.bytes then some best else some item

def candidates : List (Nat × Pending edhoc) :=
  (s.pending.zipIdx.filterMap fun entry => entry.1.map (entry.2, ·)).filter fun item =>
    Pending.handsOff item.2

def handOff (registry : AdmissionRegistry prim) (slot : Nat) (p : Pending edhoc) (ready : Ready)
    (activeSlot cacheSlot : Nat) :
    Except (CloudError ε) (Option AdmittedSession) × CloudAdmission edhoc :=
  let refused : CloudAdmission edhoc :=
    { s with
      pending := s.pending.set slot
        (some { p with ready := none, exchanges := p.exchanges.disable }) }
  match registry ready.association.reference with
  | none => (.error (.provisioning .unauthorized), refused)
  | some trust =>
  match trust.acceptSession ready.association.grant ready.session with
  | .error _ => (.error (.provisioning .unauthorized), refused)
  | .ok session =>
  (.ok (some ⟨session, ready.association⟩),
    { s with
      pending := s.pending.set slot none
      active := s.active.set activeSlot (some ready.association)
      retained := s.retained.set cacheSlot
        (some ⟨ready.association, p.exchanges, p.expires, p.finalError, true⟩) })

def takeSession (now : Nat) (registry : AdmissionRegistry prim) :
    Except (CloudError ε) (Option AdmittedSession) × CloudAdmission edhoc :=
  match s.maintain now registry with
  | (.error e, s) => (.error e, s)
  | (.ok (), s) =>
  match s.retained.findIdx? (·.isNone) with
  | none => (.ok none, s)
  | some cacheSlot =>
  match s.active.findIdx? (·.isNone) with
  | none => (.ok none, s)
  | some activeSlot =>
  match oldest s.candidates with
  | none => (.ok none, s)
  | some (slot, p) =>
  match p.ready with
  | none => (.ok none, s)
  | some ready => s.handOff registry slot p ready activeSlot cacheSlot

/-! ### Routing and release -/

def routeOscore (bytes : List UInt8) (endpoint : UdpEndpoint) (now : Nat)
    (registry : AdmissionRegistry prim) :
    Except (CloudError ε) (Option Association) × CloudAdmission edhoc :=
  match s.maintain now registry with
  | (.error e, s) => (.error e, s)
  | (.ok (), s) =>
  match decode bytes with
  | .error _ => (.ok none, s)
  | .ok parsed =>
  if !parsed.header.code.isRequest || s.reservesMessageId parsed.header.id endpoint now then
    (.ok none, s)
  else
  match parsed.options.filter (·.number = OptionNumber.oscore) with
  | [option] =>
    match Oscore.OscoreHeader.parse option.value with
    | .error _ => (.ok none, s)
    | .ok header =>
      match header.kidContext, header.piv, header.kid with
      | none, some _, some kid =>
        (.ok (s.active.find? (·.any fun a =>
          a.endpoint = endpoint && a.localId.bytes = kid && current registry a)).join, s)
      | _, _, _ => (.ok none, s)
  | _ => (.ok none, s)

def release (association : Association) : Bool × CloudAdmission edhoc :=
  match s.active.findIdx? (· = some association) with
  | none => (false, s)
  | some slot => (true, { s with active := s.active.set slot none })

end

end CloudAdmission

/-! ### Calls -/

variable (prim ε) in
/-- The calls on a listener. A poll of a shared App is upkeep, releases, datagrams and a flush. -/
inductive CloudCall
  | ingest (bytes : List UInt8) (endpoint : UdpEndpoint) (now : Nat)
      (registry : AdmissionRegistry prim) (entropy : Option (List UInt8))
  | flush (io : Transport ε) (now : Nat) (registry : AdmissionRegistry prim)
  | takeSession (now : Nat) (registry : AdmissionRegistry prim)
  | routeOscore (bytes : List UInt8) (endpoint : UdpEndpoint) (now : Nat)
      (registry : AdmissionRegistry prim)
  | maintain (now : Nat) (registry : AdmissionRegistry prim)
  | release (association : Association)

namespace CloudCall

def observes : CloudCall prim ε → Option (Nat × AdmissionRegistry prim)
  | .ingest _ _ now registry _ => some (now, registry)
  | .flush _ now registry => some (now, registry)
  | .takeSession now registry => some (now, registry)
  | .routeOscore _ _ now registry => some (now, registry)
  | .maintain now registry => some (now, registry)
  | .release _ => none

end CloudCall

namespace CloudAdmission

def step (s : CloudAdmission edhoc) : CloudCall prim ε → CloudAdmission edhoc
  | .ingest bytes endpoint now registry entropy =>
    (s.ingest bytes endpoint now registry entropy : Ingested edhoc ε).state
  | .flush io now registry => (s.flush io now registry).state
  | .takeSession now registry =>
    (s.takeSession now registry : Except (CloudError ε) (Option AdmittedSession) × _).2
  | .routeOscore bytes endpoint now registry =>
    (s.routeOscore bytes endpoint now registry : Except (CloudError ε) (Option Association) × _).2
  | .maintain now registry => (s.maintain now registry : Except (CloudError ε) Unit × _).2
  | .release association => (s.release association).2

def events (s : CloudAdmission edhoc) : CloudCall prim ε → List CloudEvent
  | .ingest bytes endpoint now registry entropy =>
    (s.ingest bytes endpoint now registry entropy : Ingested edhoc ε).events
  | _ => []

/-! ### A listener to evaluate the model with -/

def sample : CloudAdmission (Edhoc.sample Primitives.sample) where
  identity := ⟨PinnedPeer.sample 1⟩
  active := [none]
  pending := [none]
  retained := [none]
  sources := [none]
  challenge := none
  echoKey := ⟨List.replicate 32 1, rfl⟩
  limits := .default
  lastNow := 0
  windowStart := 0
  datagrams := 0
  crypto := 0
  nextId := 1
  sendCursor := 0
  blocked := false

theorem new_sample : (new (Edhoc.sample Primitives.sample) (1, 1, 1, 1) ⟨PinnedPeer.sample 1⟩ 0 .default
    (some ⟨List.replicate 32 1, rfl⟩) : Except (CloudError Unit) _) = .ok sample := rfl

def sampleEndpoint : UdpEndpoint := .v4 ⟨[10, 0, 0, 7], rfl⟩ 5683

def sampleRequest (mid : UInt8) (echo payload : List UInt8) : List UInt8 :=
  [0x40, 0x02, 0, mid, 0xbb] ++ wellKnown ++ [0x05] ++ edhocName ++ [0x11, 65] ++ echo ++
    0xff :: payload

def sampleTransport (works : Bool) : Transport Unit :=
  fun _ bytes => if works then .ok bytes.length else .error ()

def strangerCall : CloudCall Primitives.sample Unit :=
  .ingest (sampleRequest 1 [] [0xf5, 7]) sampleEndpoint 10 (fun _ => none) none

/-- The stranger's message 1 again, with the Echo value that it was given. -/
def echoedCall : CloudCall Primitives.sample Unit :=
  .ingest (sampleRequest 2 ([0xdd, 227, 11] ++ sample.echo sampleEndpoint 10) [0xf5, 7])
    sampleEndpoint 20 (fun _ => none) none

end CloudAdmission
end Coaptic.Provisioning
