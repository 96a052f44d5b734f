import Coaptic.Provisioning.CloudTables
import Coaptic.Lib.Rows

/-!
# Admission on a shared listener

The listener asks a stranger to echo a value before it computes anything for them, counts what it
computes, answers a repeated request with the reply that it saved, and finishes a handshake only
with a peer that the registry lets in.
-/
namespace Coaptic.Provisioning

open Receipts (Fixed)
open BigEndian
open Codec (Code MessageId ParsedMessage decode)

variable {prim : Primitives} {edhoc : Edhoc prim} {ε : Type}

/-! ### Upkeep -/

namespace Pending

def halt (p : Pending edhoc) : Pending edhoc :=
  { p with
    responder := none
    ready := none
    exchanges := p.exchanges.disable
    finalError := p.finalError.map .disable }

/-- Drop a handshake that has expired, and silence one whose peer is not let in any more. -/
def maintain (now : Nat) (registry : AdmissionRegistry prim) (p : Pending edhoc) :
    Option (Pending edhoc) :=
  if p.expires ≤ now then none
  else if p.ready.any fun ready => !current registry ready.association then
    some { p with ready := none, exchanges := p.exchanges.disable }
  else some p

end Pending

namespace Retained

def halt (r : Retained) : Retained :=
  { r with
    exchanges := r.exchanges.disable
    enabled := false
    finalError := r.finalError.map .disable }

def maintain (now : Nat) (registry : AdmissionRegistry prim) (r : Retained) : Option Retained :=
  if r.expires ≤ now then none
  else if !current registry r.association then some r.halt
  else some r

end Retained

namespace CloudAdmission

def new (edhoc : Edhoc prim) (capacity : Nat × Nat × Nat × Nat) (identity : Identity prim)
    (nowMs : Nat) (limits : AdmissionLimits) (entropy : Option (Fixed 32)) :
    Except (CloudError ε) (CloudAdmission edhoc) :=
  let (active, pending, retained, sources) := capacity
  if active = 0 ∨ pending = 0 ∨ retained = 0 ∨ sources = 0 ∨ limits.windowMs = 0 ∨
      limits.globalDatagrams = 0 ∨ limits.sourceDatagrams = 0 ∨ limits.globalCrypto = 0 ∨
      limits.sourceCrypto = 0 ∨ limits.globalDatagrams < limits.sourceDatagrams ∨
      limits.globalCrypto < limits.sourceCrypto ∨ limits.echoLifetimeMs = 0 ∨
      exchangeLifetimeMs < limits.echoLifetimeMs then .error .capacity
  else if (exchangeExpiry nowMs).isNone then .error .clock
  else
  match entropy with
  | none => .error (.provisioning .entropy)
  | some key =>
  if key = zeros 32 then .error (.provisioning .entropy)
  else
  .ok { identity := identity
        active := List.replicate active none
        pending := List.replicate pending none
        retained := List.replicate retained none
        sources := List.replicate sources none
        challenge := none
        echoKey := key
        limits := limits
        lastNow := nowMs
        windowStart := nowMs
        datagrams := 0
        crypto := 0
        nextId := 1
        sendCursor := 0
        blocked := false }

/-- Nothing is answered any more once the clock has gone back. -/
def halt (s : CloudAdmission edhoc) : CloudAdmission edhoc :=
  { s with
    blocked := true
    pending := s.pending.map (·.map .halt)
    retained := s.retained.map (·.map .halt)
    challenge := none }

section

variable (s : CloudAdmission edhoc)

def renew (now : Nat) : CloudAdmission edhoc :=
  if s.limits.windowMs ≤ now - s.windowStart then
    { s with
      windowStart := now
      datagrams := 0
      crypto := 0
      sources := s.sources.map fun _ => none }
  else s

def expire (now : Nat) (registry : AdmissionRegistry prim) : CloudAdmission edhoc :=
  { s with
    challenge := s.challenge.filter fun item => now < item.expires
    pending := s.pending.map (·.bind (Pending.maintain now registry))
    retained := s.retained.map (·.bind (Retained.maintain now registry)) }

/-- Every call that has a clock and a registry begins with this. -/
def maintain (now : Nat) (registry : AdmissionRegistry prim) :
    Except (CloudError ε) Unit × CloudAdmission edhoc :=
  if s.blocked = true ∨ now < s.lastNow ∨ (exchangeExpiry now).isNone = true then
    (.error .clock, s.halt)
  else (.ok (), (({ s with lastNow := now }).renew now).expire now registry)

/-! ### Budgets and reservations -/

section

variable (endpoint : UdpEndpoint)

def admitDatagram : Option Nat × CloudAdmission edhoc :=
  if s.limits.globalDatagrams ≤ s.datagrams then (none, s)
  else
  let known := s.sources.findIdx? fun item => item.any fun row => row.address = endpoint.address
  match known.or (s.sources.findIdx? (·.isNone)) with
  | none => (none, s)
  | some slot =>
  let source := (Slots.row s.sources slot).getD ⟨endpoint.address, 0, 0⟩
  if s.limits.sourceDatagrams ≤ source.datagrams then
    (none, { s with sources := s.sources.set slot (some source) })
  else
  (some slot,
    { s with
      sources := s.sources.set slot (some { source with datagrams := source.datagrams + 1 })
      datagrams := s.datagrams + 1 })

def admitCrypto (slot : Nat) : Bool × CloudAdmission edhoc :=
  match Slots.row s.sources slot with
  | none => (false, s)
  | some entry =>
  if s.limits.globalCrypto ≤ s.crypto ∨ s.limits.sourceCrypto ≤ entry.crypto then (false, s)
  else
  (true,
    { s with
      crypto := s.crypto + 1
      sources := s.sources.set slot (some { entry with crypto := entry.crypto + 1 }) })

def reservesConnectionId (id : ConnectionId) : Bool :=
  (s.active.any (·.any (·.localId = id))) || (s.pending.any (·.any (·.localId = id))) ||
    s.retained.any (·.any (·.association.localId = id))

def reservesMessageId (s : CloudAdmission edhoc) (mid : MessageId) (endpoint : UdpEndpoint)
    (now : Nat) : Bool :=
  (s.pending.any (·.any fun item => item.endpoint = endpoint &&
    (item.exchanges.reservesMessageId mid now ||
      item.finalError.any (·.reservesMessageId mid now)))) ||
  s.retained.any (·.any fun item => item.association.endpoint = endpoint &&
    (item.exchanges.reservesMessageId mid now ||
      item.finalError.any (·.reservesMessageId mid now)))

def counterId (n : Nat) : ConnectionId := ⟨(toBe 8 n).drop 1, by simp⟩

def allocateId (s : CloudAdmission edhoc) (peerId : ConnectionId) :
    Nat → Except (CloudError ε) ConnectionId × CloudAdmission edhoc
  | 0 => (.error .identifiers, s)
  | tries + 1 =>
    if maxCounter < s.nextId then (.error .identifiers, s)
    else
    let id := counterId s.nextId
    let taken := { s with nextId := s.nextId + 1 }
    if id ≠ peerId ∧ taken.reservesConnectionId id = false then (.ok id, taken)
    else allocateId taken peerId tries

/-! ### Echo values -/

/-- What an Echo value authenticates: the exact endpoint, and when it was issued. -/
def echoInput (issued : Nat) : List UInt8 :=
  echoDomain ++
    (match endpoint with
    | .v4 address port => 4 :: (address.bytes ++ toBe 2 port.toNat)
    | .v6 address port scope => 6 :: (address.bytes ++ toBe 2 port.toNat ++ toBe 4 scope.toNat)) ++
    toBe 8 issued

def echo (issued : Nat) : List UInt8 :=
  toBe 8 issued ++ (prim.keyed s.echoKey (echoInput endpoint issued)).bytes.take 16

end

def validEcho (value : Option (List UInt8)) (endpoint : UdpEndpoint) (now : Nat) : Bool :=
  match value with
  | none => false
  | some value =>
  if value.length ≠ echoLen then false
  else
    let issued := ofBe (value.take 8)
    issued ≤ now && now - issued < s.limits.echoLifetimeMs && value = s.echo endpoint issued

end

/-! ### Incoming datagrams -/

end CloudAdmission

def Pending.late (p : Pending edhoc) (wire : Wire) (parsed : ParsedMessage 8) (code : PeerErrorCode)
    (expires : Nat) : Pending edhoc :=
  { p with
    ready := none
    finalError := some (.new wire parsed code expires)
    expires := max p.expires expires }

def Retained.late (r : Retained) (wire : Wire) (parsed : ParsedMessage 8) (code : PeerErrorCode)
    (expires : Nat) : Retained :=
  { r with
    finalError := some (.new wire parsed code expires)
    expires := max r.expires expires }

/-- A datagram that a provisional handshake already answers: a duplicate, a changed request under a
used message ID, or a late error of the peer. -/
def Pending.answer (p : Pending edhoc) (wire : Wire) (mid : MessageId) (now : Nat)
    (reserved : Bool) : Option (Except (CloudError ε) Status × Pending edhoc) :=
  match p.exchanges.classify wire.bytes mid now with
  | some (queued, exchanges) =>
    some (.ok (if queued then .progress else .ignored), { p with exchanges := exchanges })
  | none =>
  match p.finalError with
  | some receipt =>
    if receipt.classify wire.bytes now = .noMatch then none
    else
      match receipt.queue wire.bytes now with
      | (true, receipt) => some (.ok .progress, { p with finalError := some receipt })
      | (false, _) => some (.ok .ignored, p)
  | none =>
    if reserved = false ∧ p.ready.isSome = true ∧ p.exchanges.anyQueued = false then
      match lateError wire.bytes p.localId with
      | none => none
      | some (parsed, code) =>
        match exchangeExpiry now with
        | none => some (.error .clock, p)
        | some expires =>
          some (.ok .progress, p.late wire parsed code expires)
    else none

def Retained.answer (r : Retained) (wire : Wire) (mid : MessageId) (now : Nat) (reserved : Bool) :
    Option (Except (CloudError ε) Status × Retained) :=
  match r.exchanges.classify wire.bytes mid now with
  | some (queued, exchanges) =>
    some (.ok (if queued then .progress else .ignored), { r with exchanges := exchanges })
  | none =>
  match r.finalError with
  | some receipt =>
    if receipt.classify wire.bytes now = .noMatch then none
    else if r.enabled = false then some (.ok .ignored, r)
    else
      match receipt.queue wire.bytes now with
      | (true, receipt) => some (.ok .progress, { r with finalError := some receipt })
      | (false, _) => some (.ok .ignored, r)
  | none =>
    if reserved = false ∧ r.enabled = true then
      match lateError wire.bytes r.association.localId with
      | none => none
      | some (parsed, code) =>
        match exchangeExpiry now with
        | none => some (.error .clock, r)
        | some expires =>
          some (.ok .progress, r.late wire parsed code expires)
    else none

namespace CloudAdmission

/-- The saved state that answers a datagram, provisional handshakes first. -/
def answer (s : CloudAdmission edhoc) (wire : Wire) (mid : MessageId) (endpoint : UdpEndpoint)
    (now : Nat) : Option (Except (CloudError ε) Status × CloudAdmission edhoc) :=
  let reserved := s.reservesMessageId mid endpoint now
  let fromPending (p : Pending edhoc) : Option (Except (CloudError ε) Status × Pending edhoc) :=
    if p.endpoint ≠ endpoint then none else p.answer wire mid now reserved
  let fromRetained (r : Retained) : Option (Except (CloudError ε) Status × Retained) :=
    if r.association.endpoint ≠ endpoint then none else r.answer wire mid now reserved
  match Slots.amend fromPending s.pending with
  | some (status, pending) => some (status, { s with pending := pending })
  | none =>
  match Slots.amend fromRetained s.retained with
  | some (status, retained) => some (status, { s with retained := retained })
  | none => none

def ignored (s : CloudAdmission edhoc) : Ingested edhoc ε := ⟨.ok .ignored, s, []⟩

section

variable (s : CloudAdmission edhoc)

def failed (error : CloudError ε) : Ingested edhoc ε := ⟨.error error, s, []⟩

def sendChallenge (parsed : ParsedMessage 8) (endpoint : UdpEndpoint) (now : Nat) :
    Ingested edhoc ε :=
  if s.challenge.isSome then s.ignored
  else
  match checkedAdd now s.limits.echoLifetimeMs with
  | none => s.failed .clock
  | some expires =>
  match response parsed Code.unauthorized [] (some (s.echo endpoint now)) with
  | .error e => s.failed e
  | .ok reply =>
    ⟨.ok .progress, { s with challenge := some ⟨endpoint, reply, expires⟩ },
      [.issued endpoint now]⟩

/-- Whether message 1 fails before any cryptography, and how. -/
def refusal (edhoc : Edhoc prim) (message : EdhocMessage) : Option MessageFailure :=
  if (edhoc.wrongSelectedSuitePeerId message).isSome then some ⟨.profile, .wrongCipherSuite⟩
  else if (edhoc.message1PeerId message).isOk then none
  else some (.ofError .profile)

/-- Answer message 1 under a fresh identifier, and keep a provisional handshake. -/
def open_ (slot : Nat) (wire : Wire) (parsed : ParsedMessage 8) (message : EdhocMessage)
    (peerId : ConnectionId) (endpoint : UdpEndpoint) (now expires : Nat)
    (entropy : Option (List UInt8)) : Ingested edhoc ε :=
  match s.allocateId peerId 2 with
  | (.error e, s) => s.failed e
  | (.ok localId, s) =>
  let result : Except MessageFailure (RegistryResponder edhoc × EdhocMessage) :=
    match refusal edhoc message with
    | some failure => .error failure
    | none =>
      match RegistryResponder.receiveMessage1 s.identity localId message entropy with
      | .error e => .error (.ofError e)
      | .ok answered => .ok answered
  let events : List CloudEvent :=
    .allocated localId ::
      if (refusal edhoc message).isSome then [] else [.message1 endpoint parsed.header.id now]
  let reply : Except (CloudError ε) (Option (RegistryResponder edhoc) × Exchange) :=
    match result with
    | .ok (responder, message) => (exchange wire parsed message expires).map (some responder, ·)
    | .error failure => (errorExchange wire parsed expires failure).map (none, ·)
  match reply with
  | .error e => ⟨.error e, s, events⟩
  | .ok (responder, reply) =>
  ⟨.ok .progress,
    { s with
      pending := s.pending.set slot (some
        { localId := localId
          peerId := peerId
          endpoint := endpoint
          responder := responder
          ready := none
          exchanges := ⟨some reply, none⟩
          expires := expires
          finalError := none }) },
    events⟩

def receiveMessage1 (wire : Wire) (parsed : ParsedMessage 8) (value : Option (List UInt8))
    (endpoint : UdpEndpoint) (source now : Nat) (entropy : Option (List UInt8)) :
    Ingested edhoc ε :=
  match EdhocMessage.fromSlice (parsed.payload.drop 1) with
  | .error _ => s.ignored
  | .ok message =>
  match edhoc.routingId message with
  | none => s.ignored
  | some peerId =>
  if (s.pending.any (·.any (·.endpoint = endpoint))) = true ∨
      s.active.length ≤ Slots.count s.active + Slots.count s.pending then s.ignored
  else
    match s.pending.findIdx? (·.isNone) with
    | none => s.ignored
    | some slot =>
    if s.validEcho value endpoint now = false then s.sendChallenge parsed endpoint now
    else
    match exchangeExpiry now with
    | none => s.failed .clock
    | some expires =>
    match if (refusal edhoc message).isSome then (true, s) else s.admitCrypto source with
    | (false, s) => s.ignored
    | (true, s) => s.open_ slot wire parsed message peerId endpoint now expires entropy

section

variable (identity : Identity prim)

def authorize (registry : AdmissionRegistry prim) (reference : CredentialReference)
    (principal : Principal) : Option TrustGrant :=
  match registry reference with
  | none => none
  | some trust =>
  match trust.grant identity with
  | .error _ => none
  | .ok grant => if trust.permits grant principal then some grant else none

def authenticate (registry : AdmissionRegistry prim) (responder : RegistryResponder edhoc)
    (body : List UInt8) :
    Except MessageFailure (Session × EdhocMessage × CredentialReference × TrustGrant) :=
  match EdhocMessage.fromSlice body with
  | .error e => .error (.ofError e)
  | .ok message =>
  responder.receiveMessage3 message
    (fun hint => (registry hint).map fun trust => trust.record.peer)
    (authorize identity registry)

/-- What message 3, or the error in its place, makes of a provisional handshake whose responder
is used up. -/
def advance (p : Pending edhoc) (responder : RegistryResponder edhoc) (wire : Wire)
    (parsed : ParsedMessage 8) (body : List UInt8) (now expires : Nat)
    (registry : AdmissionRegistry prim) :
    Except (CloudError ε) Status × Pending edhoc × List CloudEvent :=
  let p := { p with responder := none }
  match PeerError.parse body with
  | some code =>
    match abortExchange wire parsed expires code with
    | .error e => (.error e, p, [])
    | .ok reply =>
      (.ok .progress,
        { p with
          exchanges := { p.exchanges with second := some reply }
          expires := max p.expires expires },
        [])
  | none =>
    -- the request stays reserved while it is processed
    let quarantined : Exchange := ⟨wire, none, parsed.header.id, p.expires, false, none⟩
    let p := { p with exchanges := { p.exchanges with second := some quarantined } }
    let events : List CloudEvent :=
      if (EdhocMessage.fromSlice body).isOk then [.message3 p.endpoint parsed.header.id now] else []
    match authenticate identity registry responder body with
    | .error failure =>
      match errorExchange wire parsed expires failure with
      | .error e => (.error e, p, events)
      | .ok reply =>
        (.ok .progress,
          { p with
            exchanges := { p.exchanges with second := some reply }
            expires := max p.expires expires },
          events)
    | .ok (session, message, reference, grant) =>
      let association : Association := ⟨p.localId, p.peerId, p.endpoint, reference, grant⟩
      let p := { p with ready := some ⟨session, association⟩ }
      match exchange wire parsed message expires with
      | .error e => (.error e, p, events)
      | .ok reply =>
      (.ok .complete,
        { p with
          exchanges := { p.exchanges with second := some reply }
          expires := expires },
        events)

end

def conclude (slot : Nat) (wire : Wire) (parsed : ParsedMessage 8) (body : List UInt8) (now : Nat)
    (registry : AdmissionRegistry prim) : Ingested edhoc ε :=
  match exchangeExpiry now with
  | none => s.failed .clock
  | some expires =>
  match Slots.row s.pending slot with
  | none => s.ignored
  | some p =>
  match p.responder with
  | none => s.ignored
  | some responder =>
    let result := advance s.identity p responder wire parsed body now expires registry
    ⟨result.1, { s with pending := s.pending.set slot (some result.2.1) }, result.2.2⟩

def computesMessage3 (body : List UInt8) : Bool :=
  (PeerError.parse body).isNone && (EdhocMessage.fromSlice body).isOk

def receiveMessage3 (wire : Wire) (parsed : ParsedMessage 8) (endpoint : UdpEndpoint)
    (source now : Nat) (registry : AdmissionRegistry prim) : Ingested edhoc ε :=
  match ConnectionId.decodePrefix parsed.payload with
  | .error _ => s.ignored
  | .ok (localId, len) =>
  match s.pending.findIdx? (·.any fun item =>
      item.localId = localId && item.endpoint = endpoint && item.responder.isSome) with
  | none => s.ignored
  | some slot =>
  let body := parsed.payload.drop len
  if PeerError.parse body = some .wrongCipherSuite ∨
      ((PeerError.parse body).isNone = true ∧
        (body.head?.all fun byte : UInt8 => byte >>> 5 ≠ 2) = true) then s.ignored
  else
    match if computesMessage3 body then s.admitCrypto source else (true, s) with
    | (false, s) => s.ignored
    | (true, s) => s.conclude slot wire parsed body now registry

def receive (bytes : List UInt8) (endpoint : UdpEndpoint) (now : Nat)
    (registry : AdmissionRegistry prim) (entropy : Option (List UInt8)) : Ingested edhoc ε :=
  match Wire.copy bytes with
  | none => s.ignored
  | some wire =>
  match decode bytes with
  | .error _ => s.ignored
  | .ok parsed =>
  match metadata parsed with
  | none => s.ignored
  | some value =>
  match s.admitDatagram endpoint with
  | (none, s) => s.ignored
  | (some source, s) =>
  match s.answer wire parsed.header.id endpoint now with
  | some (status, s) => ⟨status, s, []⟩
  | none =>
  if parsed.payload.head? = some 0xf5 then
    s.receiveMessage1 wire parsed value endpoint source now entropy
  else s.receiveMessage3 wire parsed endpoint source now registry

def ingest (bytes : List UInt8) (endpoint : UdpEndpoint) (now : Nat)
    (registry : AdmissionRegistry prim) (entropy : Option (List UInt8)) : Ingested edhoc ε :=
  match s.maintain now registry with
  | (.error e, s) => s.failed e
  | (.ok (), s) => s.receive bytes endpoint now registry entropy

end

end CloudAdmission

end Coaptic.Provisioning
