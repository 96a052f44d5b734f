import Coaptic.Provisioning.Trust
import Coaptic.Message.Values

/-!
# EDHOC as the admission of a cloud listener uses it

Connection identifiers, peer errors and the responder that looks its peer up in message 3. The
handshake library is a parameter: how it reads its messages, and what its key exchange answers.
-/
namespace Coaptic.Provisioning

open Receipts (Fixed)
open Codec (Code)

/-- Failures of provisioning. -/
inductive Error
  | invalidKey
  | entropy
  | parsing
  | profile
  | authentication
  | unauthorized
  | selfPeer
  | derivation
deriving DecidableEq

/-! ### Connection identifiers -/

structure ConnectionId where
  bytes : List UInt8
  length_le : bytes.length ≤ 7
deriving DecidableEq

namespace ConnectionId

@[ext] theorem ext {a b : ConnectionId} (same : a.bytes = b.bytes) : a = b := by
  cases a
  cases b
  cases same
  rfl

def fromSlice (bytes : List UInt8) : Except Error ConnectionId :=
  if short : bytes.length ≤ 7 then .ok ⟨bytes, short⟩ else .error .profile

/-- Integers that stand for themselves in one byte. -/
def compact (value : UInt8) : Bool := value ≤ 23 || (32 ≤ value && value ≤ 55)

/-- An identifier at the front of some bytes, and how many it takes. -/
def decodePrefix : List UInt8 → Except Error (ConnectionId × Nat)
  | [] => .error .profile
  | header :: tail =>
    if compact header then do
      let id ← fromSlice [header]
      return (id, 1)
    else if 64 ≤ header && header ≤ 71 then
      let len := (header &&& 0x1f).toNat
      if tail.length < len then .error .parsing
      else
        let value := tail.take len
        -- one byte that could have stood for itself
        if value.length = 1 && value.all compact then .error .profile
        else do
          let id ← fromSlice value
          return (id, len + 1)
    else .error .profile

def fromLakers (cbor : List UInt8) : Except Error ConnectionId := do
  let (id, len) ← decodePrefix cbor
  if len ≠ cbor.length then .error .profile else return id

end ConnectionId

/-! ### Messages -/

def maxMessageSizeLen : Nat := 192

@[ext] structure EdhocMessage where
  bytes : List UInt8
  nonempty : bytes ≠ []
  length_le : bytes.length ≤ maxMessageSizeLen

instance : DecidableEq EdhocMessage := fun _ _ => decidable_of_iff' _ EdhocMessage.ext_iff

def EdhocMessage.fromSlice (bytes : List UInt8) : Except Error EdhocMessage :=
  if fits : bytes ≠ [] ∧ bytes.length ≤ maxMessageSizeLen then .ok ⟨bytes, fits.1, fits.2⟩
  else .error .parsing

inductive CipherSuite
  | suite2
  | suite3
deriving DecidableEq

def CipherSuite.selected (suites : List UInt8) : Option CipherSuite :=
  match suites.getLast? with
  | none => none
  | some last =>
  if suites.dropLast.any fun suite => suite = 2 || suite = 3 then none
  else if last = 2 then some .suite2
  else if last = 3 then some .suite3
  else none

inductive PeerErrorCode
  | reservedSuccess
  | unspecified
  | wrongCipherSuite
  | unknownCredential
deriving DecidableEq

namespace CborDecoder

/-- The length in the lower five bits of a header, or in the byte after it. -/
def asUsize (info : UInt8) (rest : List UInt8) : Option (Nat × List UInt8) :=
  if info ≤ 0x17 then some (info.toNat, rest)
  else if info = 0x18 then
    match rest with
    | [] => none
    | argument :: rest => if argument < 24 then none else some (argument.toNat, rest)
  else none

def u8 : List UInt8 → Option (UInt8 × List UInt8)
  | [] => none
  | n :: rest =>
    if n ≤ 0x17 then some (n, rest)
    else if n = 0x18 then
      match rest with
      | [] => none
      | value :: rest => if value < 24 then none else some (value, rest)
    else none

def i8 : List UInt8 → Option (List UInt8)
  | [] => none
  | n :: rest =>
    if n ≤ 0x17 || (0x20 ≤ n && n ≤ 0x37) then some rest
    else if n = 0x18 || n = 0x38 then
      match rest with
      | [] => none
      | argument :: rest => if argument < 24 || 127 < argument then none else some rest
    else none

def i8s : Nat → List UInt8 → Option (List UInt8)
  | 0, rest => some rest
  | n + 1, rest => (i8 rest).bind (i8s n)

def str : List UInt8 → Option (List UInt8 × List UInt8)
  | [] => none
  | b :: rest =>
    if b &&& 0xe0 ≠ 0x60 || b &&& 0x1f = 31 then none
    else
    match asUsize (b &&& 0x1f) rest with
    | none => none
    | some (n, rest) => if rest.length < n then none else some (rest.take n, rest.drop n)

def array : List UInt8 → Option (Nat × List UInt8)
  | [] => none
  | b :: rest =>
    if b &&& 0xe0 ≠ 0x80 || b &&& 0x1f = 31 then none else asUsize (b &&& 0x1f) rest

end CborDecoder

namespace PeerError

def suitesCapacity : Nat := 9

/-- The suites of a wrong-suite error: one integer, or an array of at least two. -/
def suites (rest : List UInt8) : Option (List UInt8) :=
  match rest with
  | [] => none
  | current :: _ =>
  if current >>> 5 = 4 then
    match CborDecoder.array rest with
    | none => none
    | some (count, rest) =>
      if count < 2 || suitesCapacity < count then none else CborDecoder.i8s count rest
  else CborDecoder.i8 rest

/-- The code of a complete, well-formed error. A reserved success aborts whatever follows it. -/
def parse (bytes : List UInt8) : Option PeerErrorCode :=
  match CborDecoder.u8 bytes with
  | none => none
  | some (code, rest) =>
  if code = 0 then some .reservedSuccess
  else if code = 1 then
    match CborDecoder.str rest with
    | none => none
    | some (text, rest) =>
      if (ByteArray.mk text.toArray).validateUTF8 && rest.isEmpty then some .unspecified else none
  else if code = 2 then
    match suites rest with
    | none => none
    | some rest => if rest.isEmpty then some .wrongCipherSuite else none
  else if code = 3 then if rest = [0xf5] then some .unknownCredential else none
  else none

end PeerError

/-- Why a message was refused, and what the peer is told. -/
structure MessageFailure where
  error : Error
  code : PeerErrorCode
deriving DecidableEq

namespace MessageFailure

def ofError (error : Error) : MessageFailure := ⟨error, .unspecified⟩

def responseCode (failure : MessageFailure) : Code :=
  match failure.error with
  | .entropy | .selfPeer | .derivation => .internalServerError
  | _ => .badRequest

def payload (failure : MessageFailure) : List UInt8 :=
  match failure.code with
  | .wrongCipherSuite => [2, 0x82, 2, 3]
  | .unknownCredential => [3, 0xf5]
  | _ => [1, 0x6c] ++ [69, 68, 72, 79, 67, 32, 102, 97, 105, 108, 101, 100] -- "EDHOC failed"

end MessageFailure

/-! ### The responder -/

/-- The lookup hint of message 3. -/
structure CredentialReference where
  kid : UInt8
deriving DecidableEq

def CredentialReference.fromId (id : List UInt8) : Except Error CredentialReference :=
  match id with
  | [0xa1, 4, 0x41, kid] => .ok ⟨kid⟩
  | _ => .error .profile

/-- What message 1 says before any cryptography: its method, its suites and the identifier of the
initiator. -/
structure Message1 where
  method : UInt8
  suites : List UInt8
  cid : List UInt8

/-- The handshake library. It reads messages; it answers message 1 with fresh keys; and for a
message 3 it says which credential that names, whether the credential's owner made it, and the
message 4 that ends the handshake. -/
structure Edhoc (prim : Primitives) where
  State : Type
  parseMessage1 : EdhocMessage → Option Message1
  parseMessage1RoutingId : EdhocMessage → Option (List UInt8)
  prepareMessage2 : Identity prim → ConnectionId → EdhocMessage → Option (List UInt8) →
    Except Error (State × EdhocMessage)
  parseMessage3 : State → EdhocMessage → Except Error (List UInt8)
  verifyMessage3 : State → EdhocMessage → PinnedPeer prim → Except Error Unit
  prepareMessage4 : State → EdhocMessage → PinnedPeer prim → Except Error EdhocMessage

variable {prim : Primitives}

namespace Edhoc

/-- A library to evaluate the model with. The first byte of message 1 is the initiator's
identifier, the last of message 3 its key identifier; messages are answered with themselves. -/
def sample (prim : Primitives) : Edhoc prim where
  State := Unit
  parseMessage1 message := some ⟨3, [2], message.bytes.take 1⟩
  parseMessage1RoutingId _ := none
  prepareMessage2 _ _ message _ := .ok ((), message)
  parseMessage3 _ message := .ok [0xa1, 4, 0x41, message.bytes.getLast message.nonempty]
  verifyMessage3 _ _ _ := .ok ()
  prepareMessage4 _ message _ := .ok message

variable (edhoc : Edhoc prim)

section

variable (message : EdhocMessage)

def message1PeerId : Except Error ConnectionId :=
  match edhoc.parseMessage1 message with
  | none => .error .profile
  | some fields =>
    if fields.method ≠ 3 || (CipherSuite.selected fields.suites).isNone then .error .profile
    else ConnectionId.fromLakers fields.cid

def wrongSelectedSuitePeerId : Option ConnectionId :=
  match edhoc.parseMessage1 message with
  | none => none
  | some fields =>
    if fields.method ≠ 3 || (CipherSuite.selected fields.suites).isSome then none
    else (ConnectionId.fromLakers fields.cid).toOption

/-- Where an answer to message 1 goes, read also where the rest of the message is refused. -/
def routingId : Option ConnectionId :=
  match edhoc.message1PeerId message with
  | .ok id => some id
  | .error _ => (edhoc.parseMessage1RoutingId message).bind fun cid =>
      (ConnectionId.fromLakers cid).toOption

end

end Edhoc

/-- A responder that waits for message 3. -/
structure RegistryResponder (edhoc : Edhoc prim) where
  state : edhoc.State
  localPrincipal : Principal
  localPublicX : Fixed 32
  localId : ConnectionId
  peerId : ConnectionId

namespace RegistryResponder

variable {edhoc : Edhoc prim}

def receiveMessage1 (identity : Identity prim) (localId : ConnectionId) (message : EdhocMessage)
    (entropy : Option (List UInt8)) : Except Error (RegistryResponder edhoc × EdhocMessage) := do
  let peerId ← edhoc.message1PeerId message
  if peerId = localId then .error .profile
  else
    let (state, reply) ← edhoc.prepareMessage2 identity localId message entropy
    return (⟨state, identity.peer.principal, identity.publicX, localId, peerId⟩, reply)

/-- Message 3. The peer is looked up by the hint and has to prove possession of its key; then the
caller says whether it is let in, and on which ground. -/
def receiveMessage3 {γ : Type} (r : RegistryResponder edhoc) (message : EdhocMessage)
    (resolve : CredentialReference → Option (PinnedPeer prim))
    (authorize : CredentialReference → Principal → Option γ) :
    Except MessageFailure (Session × EdhocMessage × CredentialReference × γ) :=
  match edhoc.parseMessage3 r.state message with
  | .error e => .error (.ofError e)
  | .ok id =>
    match CredentialReference.fromId id with
    | .error e => .error (.ofError e)
    | .ok reference =>
      match resolve reference with
      | none => .error ⟨.authentication, .unknownCredential⟩
      | some peer =>
        if id ≠ [0xa1, 4, 0x41, peer.kid] then .error ⟨.authentication, .unknownCredential⟩
        else if peer.publicX = r.localPublicX then .error (.ofError .selfPeer)
        else
          match edhoc.verifyMessage3 r.state message peer with
          | .error e => .error (.ofError e)
          | .ok () =>
            match authorize reference peer.principal with
            | none => .error (.ofError .unauthorized)
            | some grounds =>
              match edhoc.prepareMessage4 r.state message peer with
              | .error e => .error (.ofError e)
              | .ok reply => .ok (⟨peer.principal, r.localPrincipal⟩, reply, reference, grounds)

/-- What an accepted message 3 was authorized on. -/
theorem receiveMessage3_eq_ok {γ : Type} {r : RegistryResponder edhoc} {message : EdhocMessage}
    {resolve : CredentialReference → Option (PinnedPeer prim)}
    {authorize : CredentialReference → Principal → Option γ} {session : Session}
    {reply : EdhocMessage} {reference : CredentialReference} {grounds : γ}
    (accepted : r.receiveMessage3 message resolve authorize = .ok
      (session, reply, reference, grounds)) :
    authorize reference session.principal = some grounds ∧
      session.localPrincipal = r.localPrincipal := by
  revert accepted
  fun_cases receiveMessage3 r message resolve authorize with
  | case9 _ _ _ _ _ _ _ _ _ _ granted =>
    rintro ⟨⟩
    exact ⟨granted, rfl⟩
  | _ => exact nofun

end RegistryResponder

end Coaptic.Provisioning
