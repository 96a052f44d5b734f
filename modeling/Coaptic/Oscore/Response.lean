import Coaptic.Message.RoundTrip
import Coaptic.Oscore.Protect

/-!
# Responses

The table of live requests as the client reads it, and the opening of a response under the
request its token is bound to. At the end, what an attacker can do with the outer options that
are not authenticated: nothing.
-/
namespace Coaptic.Oscore

open Codec Bytes

variable {requests maxLen : Nat}

namespace SecurityContext

/-! ### The live table -/

section

variable (ctx : SecurityContext requests maxLen) (token : OwnedToken maxLen)

def remember (request : RequestRef) : Except Error Unit × SecurityContext requests maxLen :=
  ctx.rememberLive token request false

def liveRow : Option (LiveRequest maxLen) :=
  (ctx.live.find? fun row => row.any (·.token = token)).join

def lookup : Option RequestRef :=
  (ctx.liveRow token).map (·.request)

def observeRequest (ctx : SecurityContext requests maxLen) (token : OwnedToken maxLen) :
    Option RequestRef :=
  (ctx.liveRow token).bind (·.observeRequest)

def take : Option RequestRef × SecurityContext requests maxLen :=
  match ctx.live.findIdx? fun row => row.any (·.token = token) with
  | none => (none, ctx)
  | some i => ((ctx.live[i]?).join.map (·.request), { ctx with
      live := ctx.live.set i none, length_live := by rw [List.length_set, ctx.length_live] })

end

/-! ### Opening -/

/-- Nonce of a response to `candidate`: of its own Partial IV, or of the request's. -/
def candidateNonce (ctx : SecurityContext requests maxLen) (header : OscoreHeader)
    (candidate : RequestRef) : List UInt8 :=
  match header.piv with
  | some piv => nonce ctx.commonIv ctx.recipientId.bytes piv
  | none => nonce ctx.commonIv candidate.kid.bytes candidate.piv

section

variable (prim : Primitives) (ctx : SecurityContext requests maxLen)

def openCandidate (header : OscoreHeader) (payload : List UInt8) (candidate : RequestRef) :
    Except Error (List UInt8) := do
  let aad ← aad candidate.kid.bytes candidate.piv.bytes
  openCiphertext prim ctx.recipientKey (ctx.candidateNonce header candidate) aad payload innerLen

/-- The first candidate the AEAD accepts. Any other failure than of the AEAD ends the search. -/
def openCandidates (prim : Primitives) (ctx : SecurityContext requests maxLen)
    (header : OscoreHeader) (payload : List UInt8) :
    List RequestRef → Except Error (List UInt8 × RequestRef)
  | [] => .error .decrypt
  | candidate :: rest =>
    match ctx.openCandidate prim header payload candidate with
    | .ok plaintext => .ok (plaintext, candidate)
    | .error .decrypt => openCandidates prim ctx header payload rest
    | .error e => .error e

section

variable (msg : ParsedMessage maxLen)

/-- The checks up to the AEAD, and the candidate that it accepted. -/
def openResponse (candidates : List RequestRef) : Except Error (List UInt8 × RequestRef) := do
  let header ← parseProtected msg
  if msg.payload.length < tagLen then .error .messageLength
  else ctx.openCandidates prim header msg.payload candidates

def stitchResponse (plaintext : List UInt8) (request : RequestRef) (out : List UInt8) :
    Except Error (Nat × RequestRef) × List UInt8 :=
  match plaintext with
  | [] => (.error .messageLength, out)
  | code :: _ =>
  if !(⟨code⟩ : Code).isResponse then (.error .messageCode, out)
  else
  match stitchInner msg.header.ty msg.header.id msg.token msg.options plaintext out with
  | (.error e, out) => (.error e, out)
  | (.ok n, out) => (.ok (n, request), out)

def unprotectResponseCandidates (request : RequestRef) (fallback : Option RequestRef)
    (out : List UInt8) : Except Error (Nat × RequestRef) × List UInt8 :=
  match ctx.openResponse prim msg (request :: fallback.toList) with
  | .error e => (.error e, out)
  | .ok (plaintext, accepted) => stitchResponse msg plaintext accepted out

/-- Open a response under the latest binding of its token, or else under the registration the
token retains. -/
def unprotectBoundResponseWire (out : List UInt8) : Except Error (Nat × RequestRef) × List UInt8 :=
  match ctx.lookup msg.token with
  | none => (.error .context, out)
  | some request =>
    ctx.unprotectResponseCandidates prim msg request
      ((ctx.observeRequest msg.token).filter (· ≠ request)) out

def unprotectBoundResponse (out : List UInt8) : Except Error (ParsedMessage maxLen × RequestRef) :=
  match ctx.unprotectBoundResponseWire prim msg out with
  | (.error e, _) => .error e
  | (.ok (n, request), out) =>
  match decodeOwned (out.take n) with
  | .error e => .error e
  | .ok msg => .ok (msg, request)

def unprotectResponse (request : RequestRef) (out : List UInt8) :
    Except Error (ParsedMessage maxLen) :=
  match ctx.unprotectResponseCandidates prim msg request none out with
  | (.error e, _) => .error e
  | (.ok (n, _), out) => decodeOwned (out.take n)

end

end

end SecurityContext

open SecurityContext

/-! ### Outer options that are not authenticated -/

def keptOuter (opt : Opt) : Bool := !isOscore opt.number && classify opt.number == .outer

/-- Two protected messages that differ at most in outer options the receiver discards. -/
structure AgreeProtected (msg msg' : ParsedMessage maxLen) : Prop where
  ty : msg.header.ty = msg'.header.ty
  code : msg.header.code = msg'.header.code
  id : msg.header.id = msg'.header.id
  token : msg.token = msg'.token
  oscore : msg.getOption 9 = msg'.getOption 9
  payload : msg.payload = msg'.payload
  outer : msg.options.filter keptOuter = msg'.options.filter keptOuter

theorem stitchInner_congr {ty : MsgType} {mid : MessageId} {token : OwnedToken maxLen}
    {opts opts' : List Opt} (same : opts.filter keptOuter = opts'.filter keptOuter)
    (plaintext out : List UInt8) :
    stitchInner ty mid token opts plaintext out = stitchInner ty mid token opts' plaintext out := by
  have kept : (opts.filter fun opt => !isOscore opt.number && classify opt.number == .outer) =
      opts'.filter fun opt => !isOscore opt.number && classify opt.number == .outer := same
  simp only [stitchInner, kept]

namespace AgreeProtected

variable {msg msg' : ParsedMessage maxLen}

section

variable (agree : AgreeProtected msg msg')
include agree

theorem parseProtected_eq : parseProtected msg = parseProtected msg' := by
  simp only [parseProtected, agree.oscore, agree.payload]

section

variable (prim : Primitives) (ctx : SecurityContext requests maxLen)

theorem openRequest_eq : ctx.openRequest prim msg = ctx.openRequest prim msg' := by
  simp only [openRequest, agree.parseProtected_eq, agree.payload]

theorem stitchInner_eq (plaintext out : List UInt8) :
    stitchInner msg.header.ty msg.header.id msg.token msg.options plaintext out =
      stitchInner msg'.header.ty msg'.header.id msg'.token msg'.options plaintext out := by
  rw [agree.ty, agree.id, agree.token]
  exact stitchInner_congr agree.outer plaintext out

theorem unprotectRequestWire_eq (out : List UInt8) :
    ctx.unprotectRequestWire prim msg out = ctx.unprotectRequestWire prim msg' out := by
  simp only [unprotectRequestWire, agree.openRequest_eq,
    stitchRequest, agree.stitchInner_eq]

theorem unprotectBoundResponseWire_eq (out : List UInt8) :
    ctx.unprotectBoundResponseWire prim msg out = ctx.unprotectBoundResponseWire prim msg' out := by
  simp only [unprotectBoundResponseWire,
    unprotectResponseCandidates, openResponse,
    stitchResponse, agree.parseProtected_eq, agree.payload, agree.token,
    stitchInner_congr agree.outer, agree.ty, agree.id]

end

end

end AgreeProtected

/-- Editing outer options that are not authenticated changes nothing: not the outcome of
opening a request or a response, not the bytes delivered, and not the context. -/
theorem unprotect_ignores_discarded_options {prim : Primitives} {msg msg' : ParsedMessage maxLen}
    (agree : AgreeProtected msg msg') (ctx : SecurityContext requests maxLen) (out : List UInt8) :
    ctx.unprotectRequest prim msg out = ctx.unprotectRequest prim msg' out ∧
    ctx.unprotectRequestWire prim msg out = ctx.unprotectRequestWire prim msg' out ∧
    ctx.unprotectBoundResponseWire prim msg out = ctx.unprotectBoundResponseWire prim msg' out := by
  refine ⟨?_, agree.unprotectRequestWire_eq prim ctx out,
    agree.unprotectBoundResponseWire_eq prim ctx out⟩
  simp only [SecurityContext.unprotectRequest, agree.unprotectRequestWire_eq prim ctx out]

/-- A request with Partial IV 0 for Uri-Path `a`, and the same with an Observe and a Max-Age
option put on the outside: both are accepted and deliver the same message. -/
theorem unprotect_ignores_discarded_options_observe :
    ∃ (ctx : SecurityContext 4 8) (msg msg' : ParsedMessage 8),
      SecurityContext.derive clearPrimitives 4 8 serverParams = .ok ctx ∧
      decodeWithToken 8 ([0x40, 0x02, 0, 1, 0x92, 0x09, 0, 0xff] ++ [1, 0xb1, 0x61] ++
        List.replicate 8 0) = .ok msg ∧
      decodeWithToken 8 ([0x40, 0x02, 0, 1, 0x60, 0x32, 0x09, 0, 0x51, 7, 0xff] ++
        [1, 0xb1, 0x61] ++ List.replicate 8 0) = .ok msg' ∧
      msg.options ≠ msg'.options ∧
      ((ctx.unprotectRequest clearPrimitives msg (List.replicate 64 0)).1.map
        fun delivered => delivered.1.options) = .ok [⟨11, [0x61]⟩] ∧
      ctx.unprotectRequest clearPrimitives msg (List.replicate 64 0) =
        ctx.unprotectRequest clearPrimitives msg' (List.replicate 64 0) := by
  refine ⟨_, _, _, rfl, rfl, rfl, by decide, by rfl, ?_⟩
  exact (unprotect_ignores_discarded_options
    ⟨rfl, rfl, rfl, rfl, rfl, rfl, rfl⟩ _ (List.replicate 64 0)).1

end Coaptic.Oscore
