import Coaptic.Lib.Bitmap
import Coaptic.Lib.Result
import Coaptic.Oscore.Wire

/-!
# Pairwise security context

Keys, sender sequence number, granted reservation, replay window and the table of live
requests. A method that takes the context by mutable reference returns its outcome together
with the context it leaves behind. `u64` values are natural numbers; the checked sum that can
pass `u64` also passes the sequence space, which is the test made here.
-/
namespace Coaptic.Oscore

open Codec Bytes Bitmap List

/-- The primitives of other crates: HKDF-SHA-256 expansion, and AES-CCM-16-64-128 with its tag
appended to the ciphertext. -/
structure Primitives where
  expand : (salt secret info : List UInt8) → (len : Nat) → Option (List UInt8)
  encrypt : (key nonce aad plaintext : List UInt8) → Option (List UInt8)
  decrypt : (key nonce aad ciphertext : List UInt8) → Option (List UInt8)
  length_expand : ∀ {salt secret info : List UInt8} {len : Nat} {out : List UInt8},
    expand salt secret info len = some out → out.length = len
  length_encrypt : ∀ {key nonce aad plaintext out : List UInt8},
    encrypt key nonce aad plaintext = some out → out.length = plaintext.length + tagLen
  length_decrypt : ∀ {key nonce aad ciphertext out : List UInt8},
    decrypt key nonce aad ciphertext = some out → out.length + tagLen = ciphertext.length

/-- Primitives that hide nothing, to evaluate the model with. -/
def clearPrimitives : Primitives where
  expand _ _ _ len := some (replicate len 0)
  encrypt _ _ _ plaintext := some (plaintext ++ replicate tagLen 0)
  decrypt _ _ _ ciphertext :=
    if tagLen ≤ ciphertext.length then some (ciphertext.take (ciphertext.length - tagLen)) else none
  length_expand := by
    rintro _ _ _ _ _ ⟨⟩
    exact length_replicate
  length_encrypt := by
    rintro _ _ _ _ _ ⟨⟩
    simp
  length_decrypt := by
    intro _ _ _ ciphertext _ h
    simp only [Option.ite_none_right_eq_some, Option.some.injEq] at h
    obtain ⟨enough, rfl⟩ := h
    rw [length_take]
    omega

/-- Sender or Recipient ID. -/
structure Id where
  bytes : List UInt8
  length_le : bytes.length ≤ maxIdLen
deriving DecidableEq

def Id.new (bytes : List UInt8) : Except Error Id :=
  if h : bytes.length ≤ maxIdLen then .ok ⟨bytes, h⟩ else .error .id

/-- Binding of a request Partial IV and `kid`. -/
structure RequestRef where
  kid : Id
  piv : PartialIv
deriving DecidableEq

def RequestRef.fromKid (kid : List UInt8) (piv : PartialIv) : Except Error RequestRef := do
  let kid ← Id.new kid
  .ok ⟨kid, piv⟩

/-- Token to request row of the live table. -/
structure LiveRequest (maxLen : Nat) where
  token : OwnedToken maxLen
  request : RequestRef
  observe : Bool
  observeRequest : Option RequestRef
  responseNoPiv : Bool
  notifyNoPiv : Bool
  notifyNumber : Option Nat
deriving DecidableEq

/-- Recipient replay-window checkpoint: lower bound and bitmap, bit zero names `left`. -/
structure ReplayCheckpoint where
  left : Nat
  received : BitVec 32
deriving DecidableEq

def seqEnd : Nat := 2 ^ 40

def replayWindow : Nat := 32

/-- `sender_reserved_end` of an unguarded context. -/
def unguarded : Nat := 2 ^ 64 - 1

/-- Pairwise context with `requests` live rows. -/
structure SecurityContext (requests maxLen : Nat) where
  senderId : Id
  recipientId : Id
  idContext : List UInt8
  senderKey : List UInt8
  recipientKey : List UInt8
  commonIv : List UInt8
  length_commonIv : commonIv.length = nonceLen
  senderSeq : Nat
  senderReservedEnd : Nat
  replayLeft : Nat
  replayBits : BitVec 32
  live : List (Option (LiveRequest maxLen))
  length_live : live.length = requests
deriving DecidableEq

/-- Inputs of `derive`. -/
structure DeriveParams where
  masterSecret : List UInt8
  masterSalt : List UInt8
  senderId : List UInt8
  recipientId : List UInt8
  idContext : List UInt8
deriving DecidableEq

/-- A server with Sender ID `01` for the client with the empty one. -/
def serverParams : DeriveParams :=
  { masterSecret := [1], masterSalt := [], senderId := [1], recipientId := [], idContext := [] }

/-- AEAD nonce: the identifier's length, the identifier and the Partial IV right-aligned in
their fields, all masked with the common IV. -/
def nonce (commonIv idPiv : List UInt8) (piv : PartialIv) : List UInt8 :=
  let raw := replicate nonceLen 0
  let raw := writeAt raw 0 [UInt8.ofNat idPiv.length]
  let raw := writeAt raw (1 + (nonceLen - 6) - idPiv.length) idPiv
  let raw := writeAt raw (nonceLen - piv.bytes.length) piv.bytes
  zipWith (· ^^^ ·) raw commonIv

def hkdfExpand (prim : Primitives) (masterSecret masterSalt id : List UInt8)
    (idContext : Option (List UInt8)) (label : List UInt8) (len : Nat) :
    Except Error (List UInt8) :=
  if 255 < len then .error .derive
  else do
    let info ← encodeInfo 48 id idContext label (UInt8.ofNat len)
    match prim.expand masterSalt masterSecret info len with
    | none => .error .derive
    | some out => .ok out

theorem length_hkdfExpand {prim : Primitives} {secret salt id label out : List UInt8}
    {idContext : Option (List UInt8)} {len : Nat}
    (h : hkdfExpand prim secret salt id idContext label len = .ok out) : out.length = len := by
  unfold hkdfExpand at h
  split at h
  · cases h
  obtain ⟨info, -, h⟩ := Result.bind_eq_ok.mp h
  split at h
  · cases h
  next expanded =>
  cases h
  exact prim.length_expand expanded

def keyLabel : List UInt8 := [0x4b, 0x65, 0x79]
def ivLabel : List UInt8 := [0x49, 0x56]

namespace SecurityContext

variable {requests maxLen : Nat}

def derive (prim : Primitives) (requests maxLen : Nat) (params : DeriveParams) :
    Except Error (SecurityContext requests maxLen) :=
  if params.masterSecret = [] ∨ 64 < params.masterSecret.length then .error .masterSecret
  else if 64 < params.masterSalt.length then .error .masterSalt
  else if maxIdContextLen < params.idContext.length then .error .id
  else
  match Id.new params.senderId, Id.new params.recipientId with
  | .error e, _ => .error e
  | .ok _, .error e => .error e
  | .ok senderId, .ok recipientId =>
  if senderId.bytes = recipientId.bytes then .error .idCollision
  else
  let idContext := if params.idContext = [] then none else some params.idContext
  let derived := hkdfExpand prim params.masterSecret params.masterSalt
  match derived senderId.bytes idContext keyLabel keyLen,
    derived recipientId.bytes idContext keyLabel keyLen,
    derivedIv : derived [] idContext ivLabel nonceLen with
  | .error e, _, _ => .error e
  | .ok _, .error e, _ => .error e
  | .ok _, .ok _, .error e => .error e
  | .ok senderKey, .ok recipientKey, .ok commonIv =>
  .ok
    { senderId, recipientId
      idContext := params.idContext
      senderKey, recipientKey, commonIv
      length_commonIv := length_hkdfExpand derivedIv
      senderSeq := 0
      senderReservedEnd := unguarded
      replayLeft := 0
      replayBits := 0#32
      live := replicate requests none
      length_live := length_replicate }

/-! ### Sender sequence -/

section

variable (ctx : SecurityContext requests maxLen)

def setSenderSeq (seq : Nat) : Except Error Unit × SecurityContext requests maxLen :=
  if seq < ctx.senderSeq then (.error .sequenceRollback, ctx)
  else if seqEnd < seq then (.error .sequenceExhausted, ctx)
  else (.ok (), { ctx with senderSeq := seq })

def restoreSenderReservation (exclusiveEnd : Nat) :
    Except Error Unit × SecurityContext requests maxLen :=
  if exclusiveEnd < ctx.senderSeq ∨
      (ctx.senderReservedEnd ≠ unguarded ∧ exclusiveEnd < ctx.senderReservedEnd) then
    (.error .sequenceRollback, ctx)
  else if seqEnd < exclusiveEnd then (.error .sequenceExhausted, ctx)
  else (.ok (), { ctx with senderSeq := exclusiveEnd, senderReservedEnd := exclusiveEnd })

/-- Exclusive end of the granted range, or `none` for an unguarded context. -/
def senderReservationEnd : Option Nat :=
  if ctx.senderReservedEnd = unguarded then none else some ctx.senderReservedEnd

end

end SecurityContext

/-- Failure to extend a guarded sender reservation. -/
inductive SenderReservationError (ε : Type)
  | notEnabled
  | invalidSize
  | sequenceExhausted
  | persistence (error : ε)
deriving DecidableEq

namespace SecurityContext

variable {requests maxLen : Nat}

def reservationBound {ε : Type} (ctx : SecurityContext requests maxLen) (additional : Nat) :
    Except (SenderReservationError ε) Nat :=
  match ctx.senderReservationEnd with
  | none => .error .notEnabled
  | some stop =>
  if additional = 0 then .error .invalidSize
  else if max stop ctx.senderSeq + additional ≤ seqEnd then
    .ok (max stop ctx.senderSeq + additional)
  else .error .sequenceExhausted

/-- Grant `additional` sender sequences only after `persist` stored the new bound. The callback has
effects: it is given the bound and leaves `storage` behind, whether it succeeds or not. -/
def reserveSenderSequences {ε σ : Type} (ctx : SecurityContext requests maxLen) (additional : Nat)
    (persist : Nat → σ → Except ε Unit × σ) (storage : σ) :
    Except (SenderReservationError ε) Nat × SecurityContext requests maxLen × σ :=
  match ctx.reservationBound additional with
  | .error e => (.error e, ctx, storage)
  | .ok stop =>
  match persist stop storage with
  | (.error e, storage) => (.error (.persistence e), ctx, storage)
  | (.ok (), storage) => (.ok stop, { ctx with senderReservedEnd := stop }, storage)

section

variable (ctx : SecurityContext requests maxLen)

def takeSenderPiv : Except Error PartialIv × SecurityContext requests maxLen :=
  if seqEnd ≤ ctx.senderSeq then (.error .sequenceExhausted, ctx)
  else if ctx.senderReservedEnd ≤ ctx.senderSeq then (.error .sequenceUnreserved, ctx)
  else
  match PartialIv.fromSeq ctx.senderSeq with
  | .error e => (.error e, ctx)
  | .ok piv => (.ok piv, { ctx with senderSeq := ctx.senderSeq + 1 })

def requestRef (piv : PartialIv) : RequestRef :=
  ⟨ctx.senderId, piv⟩

def requestNonce (piv : PartialIv) : List UInt8 :=
  nonce ctx.commonIv ctx.senderId.bytes piv

def recipientNonce (piv : PartialIv) : List UInt8 :=
  nonce ctx.commonIv ctx.recipientId.bytes piv

/-! ### Live requests -/

def matchesRecipient (kid kidContext : Option (List UInt8)) : Bool :=
  if kid.getD [] ≠ ctx.recipientId.bytes then false
  else
  match kidContext with
  | none => ctx.idContext.length == 0
  | some context => context == ctx.idContext

/-- Put `row` in the first row of its token, else in the first free row. -/
def rememberLive (token : OwnedToken maxLen) (request : RequestRef) (observe : Bool) :
    Except Error Unit × SecurityContext requests maxLen :=
  let binding : LiveRequest maxLen :=
    { token, request, observe, observeRequest := if observe then some request else none
      responseNoPiv := false, notifyNoPiv := false, notifyNumber := none }
  match ctx.live.findIdx? fun row => row.any (·.token = token) with
  | some i => (.ok (), { ctx with
      live := ctx.live.set i (some binding), length_live := by rw [length_set, ctx.length_live] })
  | none =>
    match ctx.live.findIdx? (·.isNone) with
    | some i => (.ok (), { ctx with
        live := ctx.live.set i (some binding)
        length_live := by rw [length_set, ctx.length_live] })
    | none => (.error .saturated, ctx)

/-- A body request replaces only the latest binding of an Observe row. -/
def rememberDownload (token : OwnedToken maxLen) (request : RequestRef) :
    Except Error Unit × SecurityContext requests maxLen :=
  match ctx.live.findIdx? fun row => row.any fun r => r.token = token && r.observe with
  | some i => (.ok (), { ctx with
      live := ctx.live.modify i (Option.map fun r => { r with request, responseNoPiv := false })
      length_live := by rw [length_modify, ctx.length_live] })
  | none => ctx.rememberLive token request false

/-! ### Replay window -/

/-- `true` if `seq` may be accepted. Does not update. -/
def replayFresh (seq : Nat) : Bool :=
  if seqEnd ≤ seq ∨ seq < ctx.replayLeft then false
  else if replayWindow ≤ seq - ctx.replayLeft then true
  else ctx.replayBits &&& bit 32 (seq - ctx.replayLeft) == 0#32

def replayAccept (seq : Nat) : SecurityContext requests maxLen :=
  if seqEnd ≤ seq ∨ seq < ctx.replayLeft then ctx
  else if replayWindow ≤ seq - ctx.replayLeft then
    { ctx with
      replayLeft := seq - (replayWindow - 1)
      replayBits := slide ctx.replayBits (seq - ctx.replayLeft - (replayWindow - 1)) |||
        bit 32 (replayWindow - 1) }
  else { ctx with replayBits := ctx.replayBits ||| bit 32 (seq - ctx.replayLeft) }

def replayCheckpoint : ReplayCheckpoint :=
  ⟨ctx.replayLeft, ctx.replayBits⟩

end

end SecurityContext

namespace ReplayCheckpoint

def fromParts (left : Nat) (received : BitVec 32) : Except Error ReplayCheckpoint :=
  if seqEnd < left ∨ (received ≠ 0#32 ∧
      (left = seqEnd ∨ seqEnd - left ≤ 31 - received.clz.toNat)) then .error .replayState
  else .ok ⟨left, received⟩

/-- `next` rejects every sequence that `checkpoint` rejects. -/
def validateSuccessor (checkpoint next : ReplayCheckpoint) : Except Error Unit :=
  if next.left < checkpoint.left then .error .replayRollback
  else
    let retained := slide checkpoint.received (next.left - checkpoint.left)
    if retained &&& ~~~next.received ≠ 0#32 then .error .replayRollback else .ok ()

end ReplayCheckpoint

/-- Restore a checkpoint without weakening the live window. -/
def SecurityContext.restoreReplay {requests maxLen : Nat} (ctx : SecurityContext requests maxLen)
    (checkpoint : ReplayCheckpoint) : Except Error Unit × SecurityContext requests maxLen :=
  match ctx.replayCheckpoint.validateSuccessor checkpoint with
  | .error e => (.error e, ctx)
  | .ok () =>
    (.ok (), { ctx with replayLeft := checkpoint.left, replayBits := checkpoint.received })

end Coaptic.Oscore
