import Coaptic.Provisioning.Edhoc

/-!
# The tables of a shared listener

A cloud listener runs EDHOC with many devices over one UDP socket. It keeps a bounded number of
provisional handshakes, of associations and of completed handshakes whose replies may have to be
sent again. Here are its tables, the replies that they save, and how a reply is written.
-/
namespace Coaptic.Provisioning

open Receipts (Fixed)
open BigEndian
open Codec (Code MessageId MsgType Opt OptionNumber OwnedToken ParsedMessage decode encode
  decodeUint16)

variable {prim : Primitives} {edhoc : Edhoc prim} {ε : Type}

def datagramCapacity : Nat := 384
def exchangeLifetimeMs : Nat := 247000
def echoLen : Nat := 24

/-- When an exchange that begins now may be forgotten. The lifetime stands first, so that a sum with
an unknown time is never counted up in unary. -/
def exchangeExpiry (now : Nat) : Option Nat := checkedAdd exchangeLifetimeMs now

theorem exchangeExpiry_eq_some {now expires : Nat} : exchangeExpiry now = some expires ↔
    now + exchangeLifetimeMs ≤ u64Max ∧ expires = now + exchangeLifetimeMs := by
  rw [exchangeExpiry, checkedAdd_eq_some, Nat.add_comm]

/-- "coaptic cloud EDHOC reachability v1" -/
def echoDomain : List UInt8 :=
  [99, 111, 97, 112, 116, 105, 99, 32, 99, 108, 111, 117, 100, 32, 69, 68, 72, 79, 67, 32,
   114, 101, 97, 99, 104, 97, 98, 105, 108, 105, 116, 121, 32, 118, 49]
def maxCounter : Nat := 0x00ffffffffffffff

inductive UdpEndpoint
  | v4 (address : Fixed 4) (port : UInt16)
  | v6 (address : Fixed 16) (port : UInt16) (scope : UInt32)
deriving DecidableEq

/-- The source address: an endpoint without its port. -/
def UdpEndpoint.address : UdpEndpoint → UdpEndpoint
  | .v4 address _ => .v4 address 0
  | .v6 address _ scope => .v6 address 0 scope

abbrev AdmissionRegistry (prim : Primitives) : Type := CredentialReference → Option (PeerTrust prim)

structure AdmissionLimits where
  windowMs : Nat
  globalDatagrams : Nat
  sourceDatagrams : Nat
  globalCrypto : Nat
  sourceCrypto : Nat
  echoLifetimeMs : Nat
deriving DecidableEq

def AdmissionLimits.default : AdmissionLimits where
  windowMs := 1000
  globalDatagrams := 64
  sourceDatagrams := 8
  globalCrypto := 8
  sourceCrypto := 2
  echoLifetimeMs := 10000

inductive CloudError (ε : Type)
  | capacity
  | provisioning (error : Error)
  | peerAbort (endpoint : UdpEndpoint) (localId : ConnectionId) (code : PeerErrorCode)
  | clock
  | identifiers
  | io (error : ε)
  | shortSend
deriving DecidableEq

inductive Status
  | idle
  | progress
  | complete
  | ignored
deriving DecidableEq

structure Association where
  localId : ConnectionId
  peerId : ConnectionId
  endpoint : UdpEndpoint
  reference : CredentialReference
  grant : TrustGrant
deriving DecidableEq

structure AdmittedSession where
  session : Session
  association : Association
deriving DecidableEq

def current (registry : AdmissionRegistry prim) (a : Association) : Bool :=
  (registry a.reference).any fun trust => trust.permits a.grant a.grant.principal

/-! ### Saved replies -/

structure Wire where
  bytes : List UInt8
  length_le : bytes.length ≤ datagramCapacity
deriving DecidableEq

def Wire.copy (bytes : List UInt8) : Option Wire :=
  if fits : bytes.length ≤ datagramCapacity then some ⟨bytes, fits⟩ else none

/-- What is reported once the reply has been sent. -/
inductive Notice
  | localFailure (error : Error)
  | peer (code : PeerErrorCode)
deriving DecidableEq

def Notice.error (endpoint : UdpEndpoint) (localId : ConnectionId) : Notice → CloudError ε
  | .localFailure error => .provisioning error
  | .peer code => .peerAbort endpoint localId code

structure Exchange where
  request : Wire
  response : Option Wire
  mid : MessageId
  expires : Nat
  queued : Bool
  notice : Option Notice
deriving DecidableEq

namespace Exchange

/-- A datagram under the exchange's message ID; the very same one queues the reply again. -/
def classify (x : Exchange) (bytes : List UInt8) (mid : MessageId) (now : Nat) :
    Option (Bool × Exchange) :=
  if x.expires ≤ now ∨ mid ≠ x.mid then none
  else
    let exact := x.request.bytes = bytes ∧ x.response.isSome = true
    some (exact, if exact then { x with queued := true } else x)

def disable (x : Exchange) : Exchange := { x with response := none, queued := false }

end Exchange

/-- The exchanges of messages 1 and 3. -/
structure Exchanges where
  first : Option Exchange
  second : Option Exchange
deriving DecidableEq

namespace Exchanges

def toList (xs : Exchanges) : List Exchange := [xs.first, xs.second].filterMap id

def disable (xs : Exchanges) : Exchanges := ⟨xs.first.map .disable, xs.second.map .disable⟩

def anyQueued (xs : Exchanges) : Bool := xs.toList.any (·.queued)

def classify (xs : Exchanges) (bytes : List UInt8) (mid : MessageId) (now : Nat) :
    Option (Bool × Exchanges) :=
  match xs.first.bind (·.classify bytes mid now) with
  | some (queued, x) => some (queued, { xs with first := some x })
  | none =>
  match xs.second.bind (·.classify bytes mid now) with
  | some (queued, x) => some (queued, { xs with second := some x })
  | none => none

def reservesMessageId (xs : Exchanges) (mid : MessageId) (now : Nat) : Bool :=
  xs.toList.any fun x => x.mid = mid && now < x.expires

end Exchanges

/-! ### Error requests of a peer -/

def optionSupported (option : Opt) (repeated : Bool) : Bool :=
  if option.number = OptionNumber.uriPath then option.value.length ≤ 255
  else if option.number = OptionNumber.contentFormat then !repeated && option.value.length ≤ 2
  else false

/-- The options that count: those understood, and critical ones. -/
def profileOptions : Option OptionNumber → List Opt → List Opt
  | _, [] => []
  | previous, option :: rest =>
    let kept := profileOptions (some option.number) rest
    if optionSupported option (previous = some option.number) || option.number.isCritical then
      option :: kept
    else kept

/-- ".well-known" and "edhoc" -/
def wellKnown : List UInt8 := [46, 119, 101, 108, 108, 45, 107, 110, 111, 119, 110]
def edhocName : List UInt8 := [101, 100, 104, 111, 99]

def edhocPath (a b c : Opt) : Bool :=
  a.number = OptionNumber.uriPath && a.value = wellKnown &&
  (b.number = OptionNumber.uriPath && b.value = edhocName) &&
  (c.number = OptionNumber.contentFormat && decodeUint16 c.value = some 65)

section

variable (m : ParsedMessage 8)

def isConfirmablePost : Bool :=
  m.header.ty = .confirmable && m.header.code = Code.post

def requestMetadata : Bool :=
  isConfirmablePost m &&
    match profileOptions none m.options with
    | [a, b, c] => edhocPath a b c
    | _ => false

def metadata : Option (Option (List UInt8)) :=
  if isConfirmablePost m then
    match m.options with
    | [a, b, c] => if edhocPath a b c then some none else none
    | [a, b, c, d] =>
      if edhocPath a b c && d.number = OptionNumber.echo &&
          (1 ≤ d.value.length && d.value.length ≤ 40) then some (some d.value)
      else none
    | _ => none
  else none

end

/-- A late error of a peer that names the handshake: what its acknowledgement repeats, and its
code. -/
def lateError (bytes : List UInt8) (localId : ConnectionId) :
    Option (ParsedMessage 8 × PeerErrorCode) :=
  if datagramCapacity < bytes.length then none
  else
  match decode bytes with
  | .error _ => none
  | .ok parsed =>
  if !requestMetadata parsed then none
  else
  match ConnectionId.decodePrefix parsed.payload with
  | .error _ => none
  | .ok (id, len) =>
  if id ≠ localId then none
  else
  match PeerError.parse (parsed.payload.drop len) with
  | some .reservedSuccess => some (parsed, .reservedSuccess)
  | some .unspecified => some (parsed, .unspecified)
  | _ => none

structure ErrorReceipt where
  request : Wire
  mid : MessageId
  token : OwnedToken 8
  code : PeerErrorCode
  expires : Nat
  pending : Bool
  reported : Bool
deriving DecidableEq

inductive CompletedCacheMatch
  | exactDuplicate
  | midCollision
  | noMatch
deriving DecidableEq

namespace ErrorReceipt

def new (request : Wire) (parsed : ParsedMessage 8) (code : PeerErrorCode) (expires : Nat) :
    ErrorReceipt where
  request := request
  mid := parsed.header.id
  token := parsed.token
  code := code
  expires := expires
  pending := true
  reported := false

/-- Requests and responses count their message IDs apart. -/
def sameMidNamespace (left right : UInt8) : Bool := (left ^^^ right) &&& 0x20 = 0

section

variable (r : ErrorReceipt)

def classify (bytes : List UInt8) (now : Nat) : CompletedCacheMatch :=
  if r.expires ≤ now ∨ bytes.length < 4 then .noMatch
  else if (r.request.bytes.drop 2).take 2 ≠ (bytes.drop 2).take 2 ∨
      sameMidNamespace (r.request.bytes.headD 0) (bytes.headD 0) = false then .noMatch
  else if r.request.bytes = bytes then .exactDuplicate
  else .midCollision

def queue (bytes : List UInt8) (now : Nat) : Bool × ErrorReceipt :=
  if r.classify bytes now ≠ .exactDuplicate then (false, r) else (true, { r with pending := true })

def disable : ErrorReceipt := { r with pending := false, reported := true }

def reservesMessageId (mid : MessageId) (now : Nat) : Bool :=
  now < r.expires && r.mid = mid

end

def acknowledgement (r : ErrorReceipt) : List UInt8 :=
  let message : Codec.Message 8 :=
    { ty := .acknowledgement, code := Code.changed, id := r.mid, token := r.token, options := [],
      payload := [] }
  match encode message (List.replicate 12 0) with
  | (.ok n, out) => out.take n
  | (.error _, _) => []

end ErrorReceipt

/-! ### Tables -/

structure Ready where
  session : Session
  association : Association

structure Pending (edhoc : Edhoc prim) where
  localId : ConnectionId
  peerId : ConnectionId
  endpoint : UdpEndpoint
  responder : Option (RegistryResponder edhoc)
  ready : Option Ready
  exchanges : Exchanges
  expires : Nat
  finalError : Option ErrorReceipt

structure Retained where
  association : Association
  exchanges : Exchanges
  expires : Nat
  finalError : Option ErrorReceipt
  enabled : Bool

structure Challenge where
  endpoint : UdpEndpoint
  response : Wire
  expires : Nat

structure Source where
  address : UdpEndpoint
  datagrams : Nat
  crypto : Nat

/-- The listener. A table has as many slots as its capacity. -/
structure CloudAdmission (edhoc : Edhoc prim) where
  identity : Identity prim
  active : List (Option Association)
  pending : List (Option (Pending edhoc))
  retained : List (Option Retained)
  sources : List (Option Source)
  challenge : Option Challenge
  echoKey : Fixed 32
  limits : AdmissionLimits
  lastNow : Nat
  windowStart : Nat
  datagrams : Nat
  crypto : Nat
  nextId : Nat
  sendCursor : Nat
  blocked : Bool

/-- What a call does that its answer does not say: the identifiers that it takes, the Echo values
that it issues and the handshake computations that it runs. -/
inductive CloudEvent
  | allocated (localId : ConnectionId)
  | issued (endpoint : UdpEndpoint) (at_ : Nat)
  | message1 (endpoint : UdpEndpoint) (mid : MessageId) (at_ : Nat)
  | message3 (endpoint : UdpEndpoint) (mid : MessageId) (at_ : Nat)
deriving DecidableEq

structure Ingested (edhoc : Edhoc prim) (ε : Type) where
  status : Except (CloudError ε) Status
  state : CloudAdmission edhoc
  events : List CloudEvent

/-! ### Replies -/

def responseOptions (payload : List UInt8) : Option (List UInt8) → List Opt
  | some echo => [⟨OptionNumber.echo, echo⟩]
  | none => if payload.isEmpty then [] else [⟨OptionNumber.contentFormat, [64]⟩]

section

variable (parsed : ParsedMessage 8) (code : Code) (payload : List UInt8) (echo : Option (List UInt8))

def responseMessage : Codec.Message 8 where
  ty := .acknowledgement
  code := code
  id := parsed.header.id
  token := parsed.token
  options := responseOptions payload echo
  payload := payload

def response : Except (CloudError ε) Wire :=
  match encode (responseMessage parsed code payload echo) (List.replicate datagramCapacity 0) with
  | (.ok n, out) =>
    match Wire.copy (out.take n) with
    | some wire => .ok wire
    | none => .error (.provisioning .parsing)
  | (.error _, _) => .error (.provisioning .parsing)

end

section

variable (request : Wire) (parsed : ParsedMessage 8)

def exchange (message : EdhocMessage) (expires : Nat) : Except (CloudError ε) Exchange := do
  let reply ← response parsed Code.changed message.bytes none
  return ⟨request, some reply, parsed.header.id, expires, true, none⟩

def errorExchange (expires : Nat) (failure : MessageFailure) : Except (CloudError ε) Exchange := do
  let reply ← response parsed failure.responseCode failure.payload none
  return ⟨request, some reply, parsed.header.id, expires, true, some (.localFailure failure.error)⟩

def abortExchange (expires : Nat) (code : PeerErrorCode) : Except (CloudError ε) Exchange := do
  let reply ← response parsed Code.changed [] none
  return ⟨request, some reply, parsed.header.id, expires, true, some (.peer code)⟩

end

end Coaptic.Provisioning
