import Coaptic.Message.Builder
import Coaptic.Oscore.Context

/-!
# Protect and unprotect

Sealing a message into an OSCORE datagram and opening one. A function that writes into a
buffer returns its outcome together with the buffer it leaves behind.
-/
namespace Coaptic.Oscore

open Codec Bytes

variable {requests maxLen : Nat}

/-- Outcome of writing into a buffer, and the buffer afterwards. -/
abbrev Sealed := Except Error Nat × List UInt8

def optSlots : Nat := 16

def innerLen : Nat := 1280

def isObserve (opt : Opt) : Bool := opt.number == 6

/-- Outer Code: FETCH or Content when Observe is present, else POST or Changed. -/
def outerCode (inner : Code) (opts : List Opt) : Code :=
  if opts.any isObserve then if inner.isRequest then .fetch else .content
  else if inner.isRequest then .post else .changed

/-! ### Plaintext -/

/-- The inner options from position `i`, after running number `prev`. A notification's inner
Observe is empty. -/
def plaintextOptions (notify : Bool) (out : List UInt8) (i prev : Nat) : List Opt → Sealed
  | [] => (.ok i, out)
  | opt :: rest =>
    if isOscore opt.number || !(classify opt.number).inPlaintext then
      plaintextOptions notify out i prev rest
    else if opt.number.toNat < prev then (.error (.encode .optionsNotAscending), out)
    else
    match writeOption out i (opt.number.toNat - prev)
        (if opt.number == 6 && notify then [] else opt.value) with
    | (.error e, out) => (.error (.encode e), out)
    | (.ok i, out) => plaintextOptions notify out i opt.number.toNat rest

def encodePlaintext (plain : Message maxLen) (out : List UInt8) : Sealed :=
  if out = [] then (.error .bufferTooSmall, out)
  else
  match plaintextOptions plain.code.isResponse (writeAt out 0 [plain.code.raw]) 1 0
      plain.options with
  | (.error e, out) => (.error e, out)
  | (.ok i, out) =>
  match writePayload out i plain.payload with
  | (.error _, out) => (.error .bufferTooSmall, out)
  | (.ok i, out) => (.ok i, out)

/-! ### The outer message -/

/-- Options of the OSCORE datagram: the outer ones, the OSCORE option, and Max-Age 0 on an
Observe response. -/
def outerOptions (code : Code) (innerOpts : List Opt) (oscore : List UInt8) :
    Except Error (OptionsBuilder optSlots) :=
  let copied := innerOpts.filter fun opt => !isOscore opt.number && encodeAsOuter opt.number
  match (OptionsBuilder.new.pushAll copied).bind (·.push ⟨9, oscore⟩) with
  | none => .error .options
  | some opts =>
  if code.isResponse && innerOpts.any isObserve then
    match opts.push ⟨14, []⟩ with
    | none => .error (.encode .optionsFull)
    | some opts => .ok opts
  else .ok opts

/-- What a datagram is sealed with. -/
structure SealParams where
  key : List UInt8
  nonce : List UInt8
  aad : List UInt8
  piv : Option PartialIv
  kidContext : Option (List UInt8)
  kid : Option (List UInt8)
deriving DecidableEq

def encodeOuter (plain : Message maxLen) (params : SealParams) (ciphertext out : List UInt8) :
    Sealed :=
  let code := outerCode plain.code plain.options
  match encodeOption (1 + maxPivLen + 1 + maxIdContextLen + maxIdLen) params.piv params.kidContext
      params.kid with
  | .error e => (.error e, out)
  | .ok oscore =>
  match outerOptions code plain.options oscore with
  | .error e => (.error e, out)
  | .ok opts =>
  match Codec.encode ⟨plain.ty, code, plain.id, plain.token, opts.items, ciphertext⟩ out with
  | (.error e, out) => (.error (.encode e), out)
  | (.ok n, out) => (.ok n, out)

/-! ### Sealing -/

/-- Encrypt the first `plaintextLen` bytes of `buffer` in place and append the tag. -/
def sealInPlace (prim : Primitives) (params : SealParams) (plaintextLen : Nat)
    (buffer : List UInt8) : Sealed :=
  if buffer.length < plaintextLen + tagLen then (.error .bufferTooSmall, buffer)
  else
  match prim.encrypt params.key params.nonce params.aad (buffer.take plaintextLen) with
  | none => (.error .encrypt, buffer)
  | some ciphertext => (.ok (plaintextLen + tagLen), writeAt buffer 0 ciphertext)

section

variable (prim : Primitives) (plain : Message maxLen) (params : SealParams) (out : List UInt8)

/-- Seal in the tail of the final output, after the outer message and the marker. -/
def sealDirect : Sealed :=
  match encodeOuter plain params [] out with
  | (.error e, out) => (.error e, out)
  | (.ok start, out) =>
  if out.length ≤ start then (.error .bufferTooSmall, out)
  else
  let out := writeAt out start [0xff]
  let tail := (out.drop (start + 1)).take innerLen
  match encodePlaintext plain tail with
  | (.error e, tail) => (.error e, writeAt out (start + 1) tail)
  | (.ok plaintextLen, tail) =>
  match sealInPlace prim params plaintextLen tail with
  | (.error e, tail) => (.error e, writeAt out (start + 1) tail)
  | (.ok n, tail) => (.ok (start + 1 + n), writeAt out (start + 1) tail)

/-- Seal in scratch memory and encode the outer message around the ciphertext. -/
def sealMessageStaged : Sealed :=
  match encodePlaintext plain (List.replicate innerLen 0) with
  | (.error e, _) => (.error e, out)
  | (.ok plaintextLen, scratch) =>
  match sealInPlace prim params plaintextLen scratch with
  | (.error e, _) => (.error e, out)
  | (.ok n, scratch) => encodeOuter plain params (scratch.take n) out

/-- The direct path, and the staged one when it fails. -/
def sealMessage : Sealed :=
  match sealDirect prim plain params out with
  | (.ok n, out) => (.ok n, out)
  | (.error _, out) => sealMessageStaged prim plain params out

end

namespace SecurityContext

section

variable (ctx : SecurityContext requests maxLen) (plain : Message maxLen)

/-- The check and the Partial IV at the start of `protect_request`. -/
def beginRequest : Except Error PartialIv × SecurityContext requests maxLen :=
  if !plain.code.isRequest then (.error .messageLength, ctx) else ctx.takeSenderPiv

/-- The binding that `protect_request` keeps: a Block2 or Q-Block2 request without Observe is a
body request. -/
def rememberRequest (request : RequestRef) : Except Error Unit × SecurityContext requests maxLen :=
  let observe := plain.options.any isObserve
  let blocks := plain.options.any fun opt => opt.number == 23 || opt.number == 31
  if !observe && blocks then ctx.rememberDownload plain.token request
  else ctx.rememberLive plain.token request observe

/-- Protect a request: a new Partial IV, the sealed datagram, and the live binding. -/
def protectRequest (prim : Primitives) (ctx : SecurityContext requests maxLen)
    (plain : Message maxLen) (out : List UInt8) : Sealed × SecurityContext requests maxLen :=
  match ctx.beginRequest plain with
  | (.error e, ctx) => ((.error e, out), ctx)
  | (.ok piv, ctx) =>
  let request := ctx.requestRef piv
  match aad request.kid.bytes piv.bytes with
  | .error e => ((.error e, out), ctx)
  | .ok aad =>
  match sealMessage prim plain
      { key := ctx.senderKey, nonce := ctx.requestNonce piv, aad, piv := some piv
        kidContext := if ctx.idContext = [] then none else some ctx.idContext
        kid := some ctx.senderId.bytes } out with
  | (.error e, out) => ((.error e, out), ctx)
  | (.ok n, out) =>
  match ctx.rememberRequest plain request with
  | (.error e, ctx) => ((.error e, out), ctx)
  | (.ok (), ctx) => ((.ok n, out), ctx)

def responseNonce (request : RequestRef) : List UInt8 :=
  nonce ctx.commonIv request.kid.bytes request.piv

/-- Protect the single response without a new Partial IV. The context does not change. -/
def protectResponse (prim : Primitives) (ctx : SecurityContext requests maxLen)
    (plain : Message maxLen) (request : RequestRef) (out : List UInt8) : Sealed :=
  if !plain.code.isResponse then (.error .messageLength, out)
  else
  match aad request.kid.bytes request.piv.bytes with
  | .error e => (.error e, out)
  | .ok aad =>
  sealMessage prim plain
    { key := ctx.senderKey, nonce := ctx.responseNonce request, aad, piv := none
      kidContext := none, kid := none } out

/-- The check and the Partial IV at the start of `protect_response_piv`. -/
def beginResponse : Except Error PartialIv × SecurityContext requests maxLen :=
  if !plain.code.isResponse then (.error .messageLength, ctx) else ctx.takeSenderPiv

end

def protectResponsePiv (prim : Primitives) (ctx : SecurityContext requests maxLen)
    (plain : Message maxLen) (request : RequestRef) (out : List UInt8) :
    Sealed × SecurityContext requests maxLen :=
  match ctx.beginResponse plain with
  | (.error e, ctx) => ((.error e, out), ctx)
  | (.ok piv, ctx) =>
  match aad request.kid.bytes request.piv.bytes with
  | .error e => ((.error e, out), ctx)
  | .ok aad =>
  (sealMessage prim plain
    { key := ctx.senderKey, nonce := ctx.requestNonce piv, aad, piv := some piv
      kidContext := none, kid := none } out, ctx)

end SecurityContext

/-! ### Opening -/

/-- The OSCORE option of a protected message, which must have a payload. -/
def parseProtected (msg : ParsedMessage maxLen) : Except Error OscoreHeader :=
  match msg.getOption 9 with
  | none => .error .header
  | some opt => if msg.payload = [] then .error .messageLength else OscoreHeader.parse opt.value

def openCiphertext (prim : Primitives) (key nonce aad ciphertext : List UInt8) (limit : Nat) :
    Except Error (List UInt8) :=
  if ciphertext.length < tagLen then .error .messageLength
  else if limit < ciphertext.length - tagLen then .error .bufferTooSmall
  else
  match prim.decrypt key nonce aad ciphertext with
  | none => .error .decrypt
  | some plaintext => .ok plaintext

/-- Merge the outer options with the authenticated inner message and encode the result. -/
def stitchInner (ty : MsgType) (mid : MessageId) (token : OwnedToken maxLen) (outerOpts : List Opt)
    (plaintext out : List UInt8) : Sealed :=
  match plaintext with
  | [] => (.error .messageLength, out)
  | code :: rest =>
  match splitOptionsAndPayload rest 0 with
  | .error e => (.error (.parse e), out)
  | .ok (innerOpts, payload) =>
  let kept := outerOpts.filter fun opt =>
    !isOscore opt.number && classify opt.number == .outer
  match OptionsBuilder.pushAll (n := optSlots) .new (kept ++ Codec.options innerOpts) with
  | none => (.error .options, out)
  | some opts =>
  let limit := min out.length innerLen
  match Codec.encode ⟨ty, ⟨code⟩, mid, token, opts.items, payload⟩ (out.take limit) with
  | (.error e, front) => (.error (.encode e), front ++ out.drop limit)
  | (.ok n, front) => (.ok n, front ++ out.drop limit)

namespace SecurityContext

/-- A request that passed every check up to and including the AEAD. -/
structure Opened where
  kid : List UInt8
  piv : PartialIv
  plaintext : List UInt8
deriving DecidableEq

section

variable (prim : Primitives) (ctx : SecurityContext requests maxLen)

section

variable (msg : ParsedMessage maxLen)

/-- The checks of `unprotect_request_wire` up to the AEAD, which do not change the context. -/
def openRequest : Except Error Opened := do
  let header ← parseProtected msg
  if !ctx.matchesRecipient header.kid header.kidContext then .error .context
  else
    match header.piv with
    | none => .error .partialIv
    | some piv =>
      if !ctx.replayFresh piv.seq then .error .replay
      else if msg.payload.length < tagLen then .error .messageLength
      else
        let kid := header.kid.getD []
        let aad ← aad kid piv.bytes
        let plaintext ←
          openCiphertext prim ctx.recipientKey (ctx.recipientNonce piv) aad msg.payload innerLen
        .ok ⟨kid, piv, plaintext⟩

def stitchRequest (opened : Opened) (out : List UInt8) :
    Except Error (Nat × RequestRef) × List UInt8 :=
  match opened.plaintext with
  | [] => (.error .messageLength, out)
  | code :: _ =>
  if !(⟨code⟩ : Code).isRequest then (.error .messageCode, out)
  else
  match stitchInner msg.header.ty msg.header.id msg.token msg.options opened.plaintext out with
  | (.error e, out) => (.error e, out)
  | (.ok n, out) =>
  match RequestRef.fromKid opened.kid opened.piv with
  | .error e => (.error e, out)
  | .ok request => (.ok (n, request), out)

/-- Open a request. The replay window is marked right after the AEAD accepted. -/
def unprotectRequestWire (out : List UInt8) :
    (Except Error (Nat × RequestRef) × List UInt8) × SecurityContext requests maxLen :=
  match ctx.openRequest prim msg with
  | .error e => ((.error e, out), ctx)
  | .ok opened => (stitchRequest msg opened out, ctx.replayAccept opened.piv.seq)

end

def decodeOwned (wire : List UInt8) : Except Error (ParsedMessage maxLen) :=
  match decodeWithToken maxLen wire with
  | .ok msg => .ok msg
  | .error (.malformed e) => .error (.parse e)
  | .error (.capacity _) => .error .messageLength

def unprotectRequest (msg : ParsedMessage maxLen) (out : List UInt8) :
    Except Error (ParsedMessage maxLen × RequestRef) × SecurityContext requests maxLen :=
  match ctx.unprotectRequestWire prim msg out with
  | ((.error e, _), ctx) => (.error e, ctx)
  | ((.ok (n, request), out), ctx) =>
  match decodeOwned (out.take n) with
  | .error e => (.error e, ctx)
  | .ok msg => (.ok (msg, request), ctx)

end

end SecurityContext

end Coaptic.Oscore
