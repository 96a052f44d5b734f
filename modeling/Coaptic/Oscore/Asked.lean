import Coaptic.Oscore.Reservation
import Coaptic.Oscore.Seal

/-!
# What is sealed

A call that protects a message asks the AEAD for an encryption, unless it fails before. What it
asks for is read off the call itself: an input is asked for if the outcome of the call hangs on
the answer to that input. A call asks for at most one, made of its context, its message and the
request that it answers.
-/
namespace Coaptic.Oscore

open Codec Bytes Result

variable {requests maxLen : Nat}

/-- What the AEAD is given. -/
structure SealInputs where
  key : List UInt8
  nonce : List UInt8
  aad : List UInt8
  plaintext : List UInt8
deriving DecidableEq

def Primitives.answer (prim : Primitives) (inputs : SealInputs) : Option (List UInt8) :=
  prim.encrypt inputs.key inputs.nonce inputs.aad inputs.plaintext

/-- A call that protects a message, in the context it is made in, with its output buffer. -/
inductive SealCall (maxLen : Nat)
  | request {requests : Nat} (ctx : SecurityContext requests maxLen) (plain : Message maxLen)
      (out : List UInt8)
  | response {requests : Nat} (ctx : SecurityContext requests maxLen) (plain : Message maxLen)
      (request : RequestRef) (out : List UInt8)
  | responsePiv {requests : Nat} (ctx : SecurityContext requests maxLen) (plain : Message maxLen)
      (request : RequestRef) (out : List UInt8)

namespace SealCall

def run (prim : Primitives) : SealCall maxLen → Sealed
  | request ctx plain out => (ctx.protectRequest prim plain out).1
  | response ctx plain answered out => ctx.protectResponse prim plain answered out
  | responsePiv ctx plain answered out => (ctx.protectResponsePiv prim plain answered out).1

/-- The call asks the AEAD to seal `inputs`: with another answer to them, and the same answers to
all others, it would end in another way. -/
def Asks (prim : Primitives) (call : SealCall maxLen) (inputs : SealInputs) : Prop :=
  ∃ prim' : Primitives, (∀ other ≠ inputs, prim'.answer other = prim.answer other) ∧
    call.run prim' ≠ call.run prim

/-- The request that the call answers. -/
def answers : SealCall maxLen → Option RequestRef
  | request _ _ _ => none
  | response _ _ answered _ => some answered
  | responsePiv _ _ answered _ => some answered

/-- What a call can ask for, if it gets that far. -/
def inputs : SealCall maxLen → Except Error SealInputs
  | request ctx plain _ => do
    let piv ← (ctx.beginRequest plain).1
    let aad ← aad ctx.senderId.bytes piv.bytes
    .ok ⟨ctx.senderKey, ctx.requestNonce piv, aad, plainWire plain⟩
  | response ctx plain answered _ =>
    if !plain.code.isResponse then .error .messageLength
    else do
      let aad ← aad answered.kid.bytes answered.piv.bytes
      .ok ⟨ctx.senderKey, ctx.responseNonce answered, aad, plainWire plain⟩
  | responsePiv ctx plain answered _ => do
    let piv ← (ctx.beginResponse plain).1
    let aad ← aad answered.kid.bytes answered.piv.bytes
    .ok ⟨ctx.senderKey, ctx.requestNonce piv, aad, plainWire plain⟩

end SealCall

/-! ### Sealing hangs on one answer -/

section

variable {prim prim' : Primitives} {plain : Message maxLen} {params : SealParams} {out : List UInt8}
  (same : prim'.encrypt params.key params.nonce params.aad (plainWire plain) =
    prim.encrypt params.key params.nonce params.aad (plainWire plain))
include same

theorem sealInPlace_congr {scratch buffer : List UInt8} {n : Nat}
    (written : encodePlaintext plain scratch = (.ok n, buffer)) :
    sealInPlace prim' params n buffer = sealInPlace prim params n buffer := by
  obtain ⟨-, -, rfl, rfl⟩ := encodePlaintext_ok written
  simp only [sealInPlace, List.take_left, same]

theorem sealDirect_congr : sealDirect prim' plain params out = sealDirect prim plain params out := by
  unfold sealDirect
  split
  · rfl
  split
  · rfl
  simp only
  split
  · rfl
  next written => rw [sealInPlace_congr same written]

theorem sealMessageStaged_congr :
    sealMessageStaged prim' plain params out = sealMessageStaged prim plain params out := by
  unfold sealMessageStaged
  split
  · rfl
  next written => rw [sealInPlace_congr same written]

theorem sealMessage_congr :
    sealMessage prim' plain params out = sealMessage prim plain params out := by
  rw [sealMessage, sealMessage, sealDirect_congr same]
  split
  · rfl
  · exact sealMessageStaged_congr same

end

namespace SealCall

open SecurityContext

variable {prim prim' : Primitives} {call : SealCall maxLen}

/-- A call ends in the same way under an AEAD with the same answer to its input. -/
theorem run_congr (same : ∀ asked, call.inputs = .ok asked → prim'.answer asked = prim.answer asked) :
    call.run prim' = call.run prim := by
  cases call with
  | request ctx plain out =>
    simp only [run, protectRequest]
    rcases ctx.takes_beginRequest plain with ⟨e, refused⟩ | ⟨piv, -, -, -, taken⟩
    · rw [refused]
    rw [taken]
    simp only
    cases made : aad ctx.senderId.bytes piv.bytes with
    | error e => simp only [requestRef, made]
    | ok bytes =>
    have inputs : (request ctx plain out).inputs =
        .ok ⟨ctx.senderKey, ctx.requestNonce piv, bytes, plainWire plain⟩ := by
      simp only [SealCall.inputs, taken, made, bind, Except.bind]
    simp only [requestRef, made]
    rw [sealMessage_congr]
    exact same _ inputs
  | response ctx plain answered out =>
    simp only [run, protectResponse]
    split
    · rfl
    next isResponse =>
    cases made : aad answered.kid.bytes answered.piv.bytes with
    | error e => rfl
    | ok bytes =>
    refine sealMessage_congr (same ⟨ctx.senderKey, ctx.responseNonce answered, bytes, plainWire plain⟩ ?_)
    rw [SealCall.inputs, if_neg isResponse, made]
    rfl
  | responsePiv ctx plain answered out =>
  simp only [run, protectResponsePiv]
  rcases ctx.takes_beginResponse plain with ⟨e, refused⟩ | ⟨piv, -, -, -, taken⟩
  · rw [refused]
  rw [taken]
  simp only
  cases made : aad answered.kid.bytes answered.piv.bytes with
  | error e => rfl
  | ok bytes =>
  refine sealMessage_congr (same ⟨ctx.senderKey, ctx.requestNonce piv, bytes, plainWire plain⟩ ?_)
  simp only [SealCall.inputs, taken, made, bind, Except.bind]

/-- What a call asks for is made of its context, its message and the request it answers. -/
theorem Asks.inputs_eq {asked : SealInputs} (asks : call.Asks prim asked) :
    call.inputs = .ok asked := by
  obtain ⟨prim', same, differs⟩ := asks
  by_contra other
  refine differs (run_congr fun input made => same input ?_)
  rintro rfl
  exact other made

end SealCall

end Coaptic.Oscore
