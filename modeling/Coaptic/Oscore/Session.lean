import Coaptic.Oscore.Arrival
import Coaptic.Oscore.Checkpoint
import Coaptic.Oscore.Nonce

/-!
# Protection round trips

What one end of a session protects, the other end delivers. The ends are contexts derived from
mirrored parameters, after any calls on either side in which no number was accepted that the
peer has not used.
-/
namespace Coaptic.Oscore

open Codec Bytes SecurityContext

variable {requests requests' maxLen : Nat}

/-! ### Mirrored contexts -/

/-- Decryption under the same key, nonce and associated data undoes encryption. -/
def Primitives.Inverts (prim : Primitives) : Prop :=
  ∀ key nonce aad plaintext ciphertext, prim.encrypt key nonce aad plaintext = some ciphertext →
    prim.decrypt key nonce aad ciphertext = some plaintext

/-- The peer's parameters: the two identifiers swapped. -/
def DeriveParams.mirror (params : DeriveParams) : DeriveParams :=
  { params with senderId := params.recipientId, recipientId := params.senderId }

namespace SecurityContext

/-- What `a` sends, `b` can open: the keys and identifiers are swapped, and `b` refuses none of
the numbers that `a` has not used. -/
structure Sends (a : SecurityContext requests maxLen) (b : SecurityContext requests' maxLen) :
    Prop where
  id : a.senderId = b.recipientId
  key : a.senderKey = b.recipientKey
  iv : a.commonIv = b.commonIv
  idContext : a.idContext = b.idContext
  unseen : ∀ seq, a.senderSeq ≤ seq → seq < seqEnd → b.replayFresh seq = true

variable {a a' ctx next : SecurityContext requests maxLen} {b : SecurityContext requests' maxLen}
  {prim : Primitives}

/-- Accepting a number leaves the larger ones as they were. -/
theorem replayFresh_replayAccept {seq later : Nat} (before : seq < later)
    (fresh : ctx.replayFresh later = true) : (ctx.replayAccept seq).replayFresh later = true := by
  have width : replayWindow = 32 := rfl
  rw [← Bool.not_eq_false, replayFresh_eq_false_iff] at fresh ⊢
  intro rejected
  apply fresh
  simp only [replayAccept] at rejected
  split at rejected
  · exact rejected
  next inside =>
  split at rejected
  next ahead =>
    rcases rejected with beyond | behind | received
    · exact .inl beyond
    · simp only [replayCheckpoint] at behind
      omega
    rcases (Bitmap.getLsbD_insert _ (by decide) _).mp received with old | last
    · -- the bit of `later` has moved with the window
      rw [Bitmap.getLsbD_slide] at old
      simp only [replayCheckpoint] at old
      have position : seq - ctx.replayLeft - (replayWindow - 1) +
          (later - (seq - (replayWindow - 1))) = later - ctx.replayLeft := by omega
      rw [position] at old
      exact .inr (.inr old)
    · simp only [replayCheckpoint] at last
      omega
  next within =>
    rcases rejected with beyond | behind | received
    · exact .inl beyond
    · exact .inr (.inl behind)
    rcases (Bitmap.getLsbD_insert _ (by omega) _).mp received with old | same
    · exact .inr (.inr old)
    · simp only [replayCheckpoint] at same
      omega

/-- The same end of the session: keys and identifiers have not changed. -/
structure SameKeys (a a' : SecurityContext requests maxLen) : Prop where
  senderId : a'.senderId = a.senderId
  recipientId : a'.recipientId = a.recipientId
  senderKey : a'.senderKey = a.senderKey
  recipientKey : a'.recipientKey = a.recipientKey
  commonIv : a'.commonIv = a.commonIv
  idContext : a'.idContext = a.idContext

/-- What a sender's operation may do: raise its counter, and anything to its reservation and
its live requests. -/
structure Continues (a a' : SecurityContext requests maxLen) : Prop extends SameKeys a a' where
  forward : a.senderSeq ≤ a'.senderSeq
  window : a'.replayCheckpoint = a.replayCheckpoint

theorem Continues.of_takes {outcome : Except Error PartialIv × SecurityContext requests maxLen}
    (taking : ctx.Takes outcome) (same : outcome.2.SameButLive next) : Continues ctx next := by
  obtain ⟨live, length, rfl⟩ := same
  rcases taking with ⟨e, rfl⟩ | ⟨piv, -, -, -, rfl⟩
  · exact ⟨⟨rfl, rfl, rfl, rfl, rfl, rfl⟩, Nat.le_refl _, rfl⟩
  · exact ⟨⟨rfl, rfl, rfl, rfl, rfl, rfl⟩, Nat.le_succ _, rfl⟩

theorem Continues.of_live (same : ctx.SameButLive next) : Continues ctx next := by
  obtain ⟨live, length, rfl⟩ := same
  exact ⟨⟨rfl, rfl, rfl, rfl, rfl, rfl⟩, Nat.le_refl _, rfl⟩

section

variable (ctx : SecurityContext requests maxLen)

theorem continues_setSenderSeq (seq : Nat) : Continues ctx (ctx.setSenderSeq seq).2 := by
  simp only [setSenderSeq]
  split
  · exact .of_live (.refl _)
  next forward =>
  split
  · exact .of_live (.refl _)
  · exact ⟨⟨rfl, rfl, rfl, rfl, rfl, rfl⟩, Nat.not_lt.mp forward, rfl⟩

theorem continues_restoreSenderReservation (bound : Nat) :
    Continues ctx (ctx.restoreSenderReservation bound).2 := by
  simp only [restoreSenderReservation]
  split
  · exact .of_live (.refl _)
  next forward =>
  split
  · exact .of_live (.refl _)
  · exact ⟨⟨rfl, rfl, rfl, rfl, rfl, rfl⟩, Nat.not_lt.mp (not_or.mp forward).1, rfl⟩

theorem continues_reserveSenderSequences {σ : Type} (additional : Nat)
    (persist : Nat → σ → Except Unit Unit × σ) (storage : σ) :
    Continues ctx (ctx.reserveSenderSequences additional persist storage).2.1 := by
  simp only [reserveSenderSequences]
  split
  · exact .of_live (.refl _)
  split
  · exact .of_live (.refl _)
  · exact ⟨⟨rfl, rfl, rfl, rfl, rfl, rfl⟩, Nat.le_refl _, rfl⟩

end

theorem Sends.of_sender (sends : Sends a b) (same : SameKeys a a')
    (forward : a.senderSeq ≤ a'.senderSeq) : Sends a' b :=
  ⟨same.senderId.trans sends.id, same.senderKey.trans sends.key, same.commonIv.trans sends.iv,
    same.idContext.trans sends.idContext, fun seq unused => sends.unseen seq (forward.trans unused)⟩

theorem Sends.of_receiver {b' : SecurityContext requests' maxLen} (sends : Sends a b)
    (same : SameKeys b b')
    (open' : ∀ seq, a.senderSeq ≤ seq → b.replayFresh seq = true → b'.replayFresh seq = true) :
    Sends a b' :=
  ⟨sends.id.trans same.recipientId.symm, sends.key.trans same.recipientKey.symm,
    sends.iv.trans same.commonIv.symm, sends.idContext.trans same.idContext.symm,
    fun seq unused inSpace => open' seq unused (sends.unseen seq unused inSpace)⟩

def Mirrored (a : SecurityContext requests maxLen) (b : SecurityContext requests' maxLen) : Prop :=
  Sends a b ∧ Sends b a

theorem Mirrored.continue (mirrored : Mirrored a b) (goes : Continues a a') : Mirrored a' b := by
  refine ⟨mirrored.1.of_sender goes.toSameKeys goes.forward,
    mirrored.2.of_receiver goes.toSameKeys ?_⟩
  intro seq _ fresh
  rw [← Bool.not_eq_false, replayFresh_eq_false_iff] at fresh ⊢
  rwa [goes.window]

/-- Opening a request with a number the peer has used marks no other number. -/
theorem Mirrored.receive (mirrored : Mirrored a b) (msg : ParsedMessage maxLen) (out : List UInt8)
    (used : ∀ header piv, parseProtected msg = .ok header → header.piv = some piv →
      piv.seq < a.senderSeq) :
    Mirrored a (b.unprotectRequest prim msg out).2 := by
  rw [unprotectRequest_context]
  cases opens : b.openRequest prim msg with
  | error e => exact mirrored
  | ok opened =>
  obtain ⟨header, parsed, piv⟩ := (openRequest_ok opens).2
  have below := used header opened.piv parsed piv
  obtain ⟨left, bits, marked⟩ := b.replayAccept_eq opened.piv.seq
  have same : SameKeys b (b.replayAccept opened.piv.seq) := by
    rw [marked]
    exact ⟨rfl, rfl, rfl, rfl, rfl, rfl⟩
  show Mirrored a (b.replayAccept opened.piv.seq)
  refine ⟨mirrored.1.of_receiver same ?_, mirrored.2.of_sender same ?_⟩
  · intro seq unused fresh
    exact replayFresh_replayAccept (by omega) fresh
  · rw [marked]

/-- Contexts derived from mirrored parameters are mirrored. -/
theorem mirrored_derive {params : DeriveParams} (left : derive prim requests maxLen params = .ok a)
    (right : derive prim requests' maxLen params.mirror = .ok b) : Mirrored a b := by
  have l := derive_spec left
  have r := derive_spec right
  have id := Except.ok.inj (l.sender.symm.trans r.recipient)
  have id' : b.senderId = a.recipientId := Except.ok.inj (r.sender.symm.trans l.recipient)
  have key : a.senderKey = b.recipientKey := by
    have other := r.recipientKey
    rw [← id] at other
    exact Except.ok.inj (l.senderKey.symm.trans other)
  have key' : b.senderKey = a.recipientKey := by
    have other := r.senderKey
    rw [id'] at other
    exact Except.ok.inj (other.symm.trans l.recipientKey)
  have iv := Except.ok.inj (l.commonIv.symm.trans r.commonIv)
  have context := l.idContext.trans r.idContext.symm
  -- a window that has received nothing refuses nothing
  have unseen {requests : Nat} {ctx : SecurityContext requests maxLen} (left : ctx.replayLeft = 0)
      (bits : ctx.replayBits = 0#32) (seq : Nat) (inSpace : seq < seqEnd) :
      ctx.replayFresh seq = true := by
    apply ((windowOf_empty left bits).replayFresh_iff seq).mpr
    exact ⟨inSpace, fun member => member, fun _ member => nomatch member⟩
  exact ⟨⟨id, key, iv, context, fun seq _ => unseen r.replayLeft r.replayBits seq⟩,
    ⟨id', key', iv.symm, context.symm, fun seq _ => unseen l.replayLeft l.replayBits seq⟩⟩

end SecurityContext

open SecurityContext

/-! ### Sessions -/

/-- The two ends of an association after any history: derived from mirrored parameters, then
calls on either side in any order. A request is received that carries no number the peer has
not used; everything else about it is arbitrary. -/
inductive Session (prim : Primitives) {maxLen : Nat} : {requests requests' : Nat} →
    SecurityContext requests maxLen → SecurityContext requests' maxLen → Prop
  | start {requests requests' : Nat} {params : DeriveParams}
      {a : SecurityContext requests maxLen} {b : SecurityContext requests' maxLen}
      (left : derive prim requests maxLen params = .ok a)
      (right : derive prim requests' maxLen params.mirror = .ok b) :
      Session prim a b
  | swap {requests requests' : Nat} {a : SecurityContext requests maxLen}
      {b : SecurityContext requests' maxLen} (before : Session prim a b) : Session prim b a
  | request {requests requests' : Nat} {a : SecurityContext requests maxLen}
      {b : SecurityContext requests' maxLen} (before : Session prim a b) (plain : Message maxLen)
      (out : List UInt8) : Session prim (a.protectRequest prim plain out).2 b
  | responsePiv {requests requests' : Nat} {a : SecurityContext requests maxLen}
      {b : SecurityContext requests' maxLen} (before : Session prim a b) (plain : Message maxLen)
      (request : RequestRef) (out : List UInt8) :
      Session prim (a.protectResponsePiv prim plain request out).2 b
  | receive {requests requests' : Nat} {a : SecurityContext requests maxLen}
      {b : SecurityContext requests' maxLen} (before : Session prim a b)
      (msg : ParsedMessage maxLen) (out : List UInt8)
      (used : ∀ header piv, parseProtected msg = .ok header → header.piv = some piv →
        piv.seq < a.senderSeq) : Session prim a (b.unprotectRequest prim msg out).2
  | setSenderSeq {requests requests' : Nat} {a : SecurityContext requests maxLen}
      {b : SecurityContext requests' maxLen} (before : Session prim a b) (seq : Nat) :
      Session prim (a.setSenderSeq seq).2 b
  | restoreSenderReservation {requests requests' : Nat} {a : SecurityContext requests maxLen}
      {b : SecurityContext requests' maxLen} (before : Session prim a b) (bound : Nat) :
      Session prim (a.restoreSenderReservation bound).2 b
  | reserveSenderSequences {requests requests' : Nat} {a : SecurityContext requests maxLen}
      {b : SecurityContext requests' maxLen} {σ : Type} (before : Session prim a b)
      (additional : Nat) (persist : Nat → σ → Except Unit Unit × σ) (storage : σ) :
      Session prim (a.reserveSenderSequences additional persist storage).2.1 b
  /-- Bindings are remembered, taken, or marked. -/
  | bindings {requests requests' : Nat} {a a' : SecurityContext requests maxLen}
      {b : SecurityContext requests' maxLen} (before : Session prim a b)
      (same : a.SameButLive a') : Session prim a' b

theorem Session.mirrored {prim : Primitives} {a : SecurityContext requests maxLen}
    {b : SecurityContext requests' maxLen} (session : Session prim a b) : a.Mirrored b := by
  open SecurityContext in
  induction session with
  | start left right => exact mirrored_derive left right
  | swap _ ih => exact ih.symm
  | request _ plain out ih =>
    exact ih.continue (.of_takes (takes_beginRequest _ plain)
      (sameButLive_protectRequest prim _ plain out))
  | responsePiv _ plain request out ih =>
    apply ih.continue
    rw [protectResponsePiv_context]
    exact .of_takes (takes_beginResponse _ plain) (.refl _)
  | receive _ msg out used ih => exact ih.receive msg out used
  | setSenderSeq _ seq ih => exact ih.continue (continues_setSenderSeq _ seq)
  | restoreSenderReservation _ bound ih =>
    exact ih.continue (continues_restoreSenderReservation _ bound)
  | reserveSenderSequences _ additional persist storage ih =>
    exact ih.continue (continues_reserveSenderSequences _ additional persist storage)
  | bindings _ same ih => exact ih.continue (.of_live same)

/-! ### Delivery -/

namespace SecurityContext

variable {code : Code} {a ctx : SecurityContext requests maxLen} {plain : Message maxLen}
  {piv : PartialIv} {prim : Primitives} {out out' : List UInt8} {n : Nat}
  {b : SecurityContext requests' maxLen}

theorem isEmpty_of_isRequest (h : code.isRequest = true) : code.isEmpty = false := by
  simp only [Code.isRequest, Bool.and_eq_true, Bool.not_eq_true'] at h
  exact h.2

theorem isEmpty_of_isResponse (h : code.isResponse = true) : code.isEmpty = false := by
  cases empty : code.isEmpty with
  | false => rfl
  | true =>
  have raw : code = ⟨0⟩ := by
    cases code
    simpa [Code.isEmpty] using empty
  rw [raw] at h
  cases h

theorem beginRequest_ok (begun : (ctx.beginRequest plain).1 = .ok piv) :
    plain.code.isRequest = true ∧ piv.seq = ctx.senderSeq ∧ ctx.senderSeq < seqEnd := by
  refine ⟨?_, ?_⟩
  · cases request : plain.code.isRequest with
    | true => rfl
    | false => simp [beginRequest, request] at begun
  rcases ctx.takes_beginRequest plain with ⟨e, refused⟩ | ⟨piv', seq, inSpace, -, taken⟩
  · rw [refused] at begun
    cases begun
  rw [taken] at begun
  cases begun
  exact ⟨seq, inSpace⟩

theorem protectRequest_ok {ctx' : SecurityContext requests maxLen}
    (h : ctx.protectRequest prim plain out = ((.ok n, out'), ctx')) :
    ∃ piv aadBytes, (ctx.beginRequest plain).1 = .ok piv ∧
      aad ctx.senderId.bytes piv.bytes = .ok aadBytes ∧
      sealMessage prim plain
        { key := ctx.senderKey, nonce := ctx.requestNonce piv, aad := aadBytes, piv := some piv
          kidContext := if ctx.idContext = [] then none else some ctx.idContext
          kid := some ctx.senderId.bytes } out = (.ok n, out') := by
  have taking := ctx.takes_beginRequest plain
  revert h
  fun_cases protectRequest prim ctx plain out with
  | case5 piv _ begun _ aadBytes made _ _ packed =>
    rintro ⟨⟩
    rw [begun] at taking ⊢
    rcases taking with ⟨e, ⟨⟩⟩ | ⟨_, -, -, -, ⟨⟩⟩
    exact ⟨piv, aadBytes, rfl, made, packed⟩
  | _ => exact nofun

/-- A protected request arrives. -/
theorem Sends.request (inverts : prim.Inverts) {a' : SecurityContext requests maxLen}
    (sends : Sends a b) (h : a.protectRequest prim plain out = ((.ok n, out'), a')) :
    ∃ msg, decodeWithToken maxLen (out'.take n) = .ok msg ∧
      ∀ room : List UInt8, Fits plain room.length →
        ∃ inner request, (b.unprotectRequest prim msg room).1 = .ok (inner, request) ∧
          inner.view = delivered plain := by
  obtain ⟨piv, aadBytes, begun, made, packed⟩ := protectRequest_ok h
  obtain ⟨isRequest, seq, inSpace⟩ := beginRequest_ok begun
  obtain ⟨oscore, opts, ciphertext, s⟩ := sealMessage_ok packed
  obtain ⟨msg, read, carries⟩ := s.decoded
  refine ⟨msg, read, ?_⟩
  intro room fits
  have named := isEmpty_of_isRequest isRequest
  -- the receiver selects the context, finds the number new and opens the ciphertext
  have selected : b.matchesRecipient (some a.senderId.bytes)
      (if a.idContext = [] then none else some a.idContext) = true := by
    by_cases empty : a.idContext = []
    · simp [matchesRecipient, sends.id, ← sends.idContext, empty]
    · simp [matchesRecipient, sends.id, ← sends.idContext, empty]
  have fresh := sends.unseen piv.seq (Nat.le_of_eq seq.symm) (seq ▸ inSpace)
  have long : ¬ciphertext.length < tagLen := by
    have := s.length_ciphertext
    omega
  have decrypted := s.openCiphertext_ok (inverts _ _ _ _ _ s.encrypted)
  have nonce : b.recipientNonce piv = a.requestNonce piv := by
    rw [recipientNonce, requestNonce, sends.iv, sends.id]
  have opens : b.openRequest prim msg = .ok ⟨a.senderId.bytes, piv, plainWire plain⟩ := by
    simp only [openRequest, s.parseProtected_ok carries, carries.payload, selected, fresh, long,
      made, nonce, ← sends.key, decrypted, bind, Except.bind, Bool.not_true, Bool.false_eq_true,
      if_false, Option.getD_some]
  obtain ⟨filled, stitched, front⟩ := s.stitchInner_ok named fits
  rw [← carries.ty, ← carries.id, ← carries.token, ← carries.options] at stitched
  obtain ⟨inner, decoded, view⟩ := decodeOwned_delivered (s.delivered_wellFormed named) front
  have kid : RequestRef.fromKid a.senderId.bytes piv = .ok ⟨a.senderId, piv⟩ := by
    simp only [RequestRef.fromKid, Id.new, dif_pos a.senderId.length_le]
    rfl
  refine ⟨inner, ⟨a.senderId, piv⟩, ?_, view⟩
  simp only [unprotectRequest, unprotectRequestWire, opens, stitchRequest]
  simp only [plainWire] at stitched ⊢
  simp only [stitched, isRequest, kid, decoded, Bool.not_true, Bool.false_eq_true, if_false]

/-- A response sealed for `request` arrives, whichever nonce it is sealed with, when the
receiver opens it with the same one. -/
theorem Sends.response (inverts : prim.Inverts) (sends : Sends a b) {request : RequestRef}
    {params : SealParams} (isResponse : plain.code.isResponse = true)
    (key : params.key = a.senderKey)
    (made : aad request.kid.bytes request.piv.bytes = .ok params.aad)
    (nonce : b.candidateNonce ⟨params.piv, params.kidContext, params.kid⟩ request = params.nonce)
    (packed : sealMessage prim plain params out = (.ok n, out')) :
    ∃ msg, decodeWithToken maxLen (out'.take n) = .ok msg ∧
      ∀ room : List UInt8, Fits plain room.length →
        ∃ inner, b.unprotectResponse prim msg request room = .ok inner ∧
          inner.view = delivered plain ∧
          (b.lookup plain.token = some request →
            b.unprotectBoundResponse prim msg room = .ok (inner, request)) := by
  obtain ⟨oscore, opts, ciphertext, s⟩ := sealMessage_ok packed
  obtain ⟨msg, read, carries⟩ := s.decoded
  refine ⟨msg, read, ?_⟩
  intro room fits
  have named := isEmpty_of_isResponse isResponse
  have long : ¬ciphertext.length < tagLen := by
    have := s.length_ciphertext
    omega
  have decrypted := s.openCiphertext_ok (inverts _ _ _ _ _ s.encrypted)
  have first : b.openCandidate prim ⟨params.piv, params.kidContext, params.kid⟩ ciphertext request =
      .ok (plainWire plain) := by
    simp only [openCandidate, made, nonce, ← sends.key, ← key, decrypted, bind, Except.bind]
  obtain ⟨filled, stitched, front⟩ := s.stitchInner_ok named fits
  rw [← carries.ty, ← carries.id, ← carries.token, ← carries.options] at stitched
  obtain ⟨inner, decoded, view⟩ := decodeOwned_delivered (s.delivered_wellFormed named) front
  -- the first candidate opens, so a second one is not tried
  have opens (fallback : Option RequestRef) :
      b.unprotectResponseCandidates prim msg request fallback room =
        (.ok ((wire (delivered plain)).length, request), filled) := by
    simp only [unprotectResponseCandidates, openResponse, s.parseProtected_ok carries,
      carries.payload, long, openCandidates, first, bind, Except.bind, if_false, stitchResponse]
    simp only [plainWire] at stitched ⊢
    simp only [stitched, isResponse, Bool.not_true, Bool.false_eq_true, if_false]
  refine ⟨inner, ?_, view, ?_⟩
  · simp only [unprotectResponse, opens, decoded]
  intro bound
  rw [← carries.token] at bound
  simp only [unprotectBoundResponse, unprotectBoundResponseWire, bound, opens, decoded]

theorem protectResponse_ok {request : RequestRef}
    (h : ctx.protectResponse prim plain request out = (.ok n, out')) :
    ∃ aadBytes, plain.code.isResponse = true ∧
      aad request.kid.bytes request.piv.bytes = .ok aadBytes ∧
      sealMessage prim plain
        { key := ctx.senderKey, nonce := ctx.responseNonce request, aad := aadBytes, piv := none
          kidContext := none, kid := none } out = (.ok n, out') := by
  simp only [protectResponse] at h
  split at h
  · cases h
  next isResponse =>
  split at h
  · cases h
  next aadBytes made => exact ⟨aadBytes, by simpa using isResponse, made, h⟩

theorem beginResponse_ok (begun : (ctx.beginResponse plain).1 = .ok piv) :
    plain.code.isResponse = true := by
  cases response : plain.code.isResponse with
  | true => rfl
  | false => simp [beginResponse, response] at begun

theorem protectResponsePiv_ok {request : RequestRef}
    (h : (ctx.protectResponsePiv prim plain request out).1 = (.ok n, out')) :
    ∃ piv aadBytes, (ctx.beginResponse plain).1 = .ok piv ∧
      aad request.kid.bytes request.piv.bytes = .ok aadBytes ∧
      sealMessage prim plain
        { key := ctx.senderKey, nonce := ctx.requestNonce piv, aad := aadBytes, piv := some piv
          kidContext := none, kid := none } out = (.ok n, out') := by
  simp only [protectResponsePiv] at h
  split at h
  · cases h
  next piv after begun =>
  have taking := ctx.takes_beginResponse plain
  rw [begun] at taking ⊢
  rcases taking with ⟨e, ⟨⟩⟩ | ⟨piv, -, -, -, ⟨⟩⟩
  split at h
  · cases h
  next aadBytes made => exact ⟨piv, aadBytes, rfl, made, h⟩

end SecurityContext

/-- What one end of a session protects, the other end delivers: type, Message ID, token, code
and payload as they were, and the options in the stable order of their numbers, without OSCORE
and without a notification's Observe value. -/
theorem protect_roundTrips {prim : Primitives} (inverts : prim.Inverts)
    {a : SecurityContext requests maxLen} {b : SecurityContext requests' maxLen}
    (session : Session prim a b) : (∀ (plain : Message maxLen) (out out' : List UInt8) (n : Nat)
      (a' : SecurityContext requests maxLen),
      a.protectRequest prim plain out = ((.ok n, out'), a') →
      ∃ msg, decodeWithToken maxLen (out'.take n) = .ok msg ∧
        ∀ room : List UInt8, Fits plain room.length →
          ∃ inner request, (b.unprotectRequest prim msg room).1 = .ok (inner, request) ∧
            inner.view = delivered plain) ∧
    (∀ (plain : Message maxLen) (request : RequestRef) (out out' : List UInt8) (n : Nat),
      (a.protectResponse prim plain request out = (.ok n, out') ∨
        (a.protectResponsePiv prim plain request out).1 = (.ok n, out')) →
      ∃ msg, decodeWithToken maxLen (out'.take n) = .ok msg ∧
        ∀ room : List UInt8, Fits plain room.length →
          ∃ inner, b.unprotectResponse prim msg request room = .ok inner ∧
            inner.view = delivered plain ∧
            (b.lookup plain.token = some request →
              b.unprotectBoundResponse prim msg room = .ok (inner, request))) := by
  have sends := session.mirrored.1
  constructor
  · intro plain out out' n a' h
    exact sends.request inverts h
  rintro plain request out out' n (h | h)
  · obtain ⟨aadBytes, isResponse, made, packed⟩ := protectResponse_ok h
    apply sends.response inverts isResponse rfl made ?_ packed
    rw [candidateNonce, responseNonce, sends.iv]
  obtain ⟨piv, aadBytes, begun, made, packed⟩ := protectResponsePiv_ok h
  apply sends.response inverts (beginResponse_ok begun) rfl made ?_ packed
  rw [candidateNonce, requestNonce, sends.iv, sends.id]

theorem clearPrimitives_inverts : clearPrimitives.Inverts := by
  rintro key nonce aad plaintext ciphertext ⟨⟩
  simp [clearPrimitives]

/-- A notification with Observe 5, a Content-Format and a Uri-Host out of order. -/
def notification : Message 8 :=
  { ty := .nonConfirmable, code := .content, id := 7, token := ⟨[1], by decide⟩
    options := [⟨6, [5]⟩, ⟨12, [50]⟩, ⟨3, [104]⟩], payload := [21] }

/-- The notification answers a request with Partial IV 0 of the client, with a Partial IV of
its own; it arrives in order and with an empty Observe. -/
theorem protect_roundTrips_notification :
    ∃ (server client : SecurityContext 4 8) (request : RequestRef) (out : List UInt8) (n : Nat)
      (msg inner : ParsedMessage 8),
      Session clearPrimitives server client ∧
      (server.protectResponsePiv clearPrimitives notification request
        (List.replicate 64 0)).1 = (.ok n, out) ∧
      decodeWithToken 8 (out.take n) = .ok msg ∧
      client.unprotectResponse clearPrimitives msg request (List.replicate 64 0) = .ok inner ∧
      inner.options = [⟨3, [104]⟩, ⟨6, []⟩, ⟨12, [50]⟩] := by
  have pair : ∃ server client : SecurityContext 4 8,
      derive clearPrimitives 4 8 serverParams = .ok server ∧
      derive clearPrimitives 4 8 serverParams.mirror = .ok client ∧
      ∃ n out, (server.protectResponsePiv clearPrimitives notification ⟨client.senderId, ⟨[0],
        by decide, by decide⟩⟩ (List.replicate 64 0)).1 = (.ok n, out) :=
    ⟨_, _, rfl, rfl, _, _, rfl⟩
  obtain ⟨server, client, left, right, n, out, packed⟩ := pair
  have session : Session clearPrimitives server client := .start left right
  obtain ⟨msg, read, opens⟩ :=
    (protect_roundTrips clearPrimitives_inverts session).2 _ _ _ _ _ (.inr packed)
  have fits : Fits notification (List.replicate 64 (0 : UInt8)).length := ⟨by decide, by decide⟩
  obtain ⟨inner, delivers, view, -⟩ := opens _ fits
  refine ⟨server, client, _, out, n, msg, inner, session, packed, read, delivers, ?_⟩
  have options : inner.options = (delivered notification).options := congrArg (·.options) view
  rw [options]
  decide

end Coaptic.Oscore
