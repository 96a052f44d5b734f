import Coaptic.Oscore.Asked

/-!
# Nonces under the sender key

Requests and responses with a Partial IV use the sender's identifier and a number of its own;
a response without one uses the peer's identifier and the number of the request it answers.
The layout of a nonce keeps all of these apart: identifiers by their length and bytes, numbers
by their value. What remains is that the own numbers grow, that the window accepts no request
number twice, and that the two identifiers differ.
-/
namespace Coaptic.Oscore

open Codec Bytes BigEndian List Result PartialIv
open List (append_nil leftpad replicate)

variable {requests maxLen : Nat}

/-! ### The layout -/

/-- A nonce before masking: length, identifier and number, each in its own field. -/
def nonceFields (idPiv : List UInt8) (piv : PartialIv) : List UInt8 :=
  UInt8.ofNat idPiv.length ::
    (leftpad maxIdLen 0 idPiv ++ leftpad maxPivLen 0 piv.bytes)

theorem nonce_eq (commonIv idPiv : List UInt8) (piv : PartialIv) (short : idPiv.length ≤ maxIdLen) :
    nonce commonIv idPiv piv = List.zipWith (· ^^^ ·) (nonceFields idPiv piv) commonIv := by
  have id := writeAt_leftpad [UInt8.ofNat idPiv.length] (replicate maxPivLen 0) idPiv
    maxIdLen 0 short
  have number := writeAt_leftpad
    (UInt8.ofNat idPiv.length :: leftpad maxIdLen 0 idPiv) [] piv.bytes maxPivLen 0
    piv.length_le
  have width : (UInt8.ofNat idPiv.length :: leftpad maxIdLen 0 idPiv).length = 8 := by
    rw [length_cons, length_leftpad, Nat.max_eq_left short]
    rfl
  rw [width, append_nil, append_nil] at number
  -- the three writes fill the fields from left to right
  have filled : writeAt (writeAt (writeAt (replicate nonceLen 0) 0
        [UInt8.ofNat idPiv.length]) (1 + (nonceLen - 6) - idPiv.length) idPiv)
        (nonceLen - piv.bytes.length) piv.bytes = nonceFields idPiv piv := by
    calc _ = writeAt (writeAt ([UInt8.ofNat idPiv.length] ++
              (replicate maxIdLen 0 ++ replicate maxPivLen 0))
            (1 + maxIdLen - idPiv.length) idPiv) (nonceLen - piv.bytes.length) piv.bytes := rfl
      _ = writeAt ((UInt8.ofNat idPiv.length :: leftpad maxIdLen 0 idPiv) ++
            replicate maxPivLen 0) (8 + maxPivLen - piv.bytes.length) piv.bytes := by
        rw [← length_singleton (a := UInt8.ofNat idPiv.length), id]
        rfl
      _ = nonceFields idPiv piv := number
  rw [nonce, filled]

theorem length_nonceFields {idPiv : List UInt8} (piv : PartialIv)
    (short : idPiv.length ≤ maxIdLen) : (nonceFields idPiv piv).length = nonceLen := by
  rw [nonceFields, length_cons, length_append, length_leftpad, length_leftpad,
    Nat.max_eq_left short, Nat.max_eq_left piv.length_le]
  rfl

/-- Under one common IV a nonce determines the identifier and the number. Partial IVs that
differ only in leading zeroes have the same nonce and the same number. -/
theorem nonce_inj {commonIv id id' : List UInt8} {piv piv' : PartialIv}
    (length : commonIv.length = nonceLen) (short : id.length ≤ maxIdLen)
    (short' : id'.length ≤ maxIdLen) (h : nonce commonIv id piv = nonce commonIv id' piv') :
    id = id' ∧ piv.seq = piv'.seq := by
  rw [nonce_eq _ _ _ short, nonce_eq _ _ _ short'] at h
  have fields := zipWith_xor_inj ((length_nonceFields piv short).trans length.symm)
    ((length_nonceFields piv' short').trans length.symm) h
  simp only [nonceFields, cons.injEq] at fields
  obtain ⟨sizes, fields⟩ := fields
  have sameSize : id.length = id'.length := by
    have := congrArg UInt8.toNat sizes
    simp only [UInt8.toNat_ofNat', maxIdLen] at this short short'
    omega
  obtain ⟨ids, numbers⟩ := append_inj fields (by simp only [length_leftpad, sameSize])
  refine ⟨leftpad_inj sameSize ids, ?_⟩
  have := congrArg ofBe numbers
  simpa only [seq, leftpad, ofBe_zeroes] using this

namespace SecurityContext

section

variable (ctx : SecurityContext requests maxLen)

theorem requestNonce_inj {piv piv' : PartialIv} (h : ctx.requestNonce piv = ctx.requestNonce piv') :
    piv.seq = piv'.seq :=
  (nonce_inj ctx.length_commonIv ctx.senderId.length_le ctx.senderId.length_le h).2

theorem recipientNonce_inj {piv piv' : PartialIv}
    (h : ctx.recipientNonce piv = ctx.recipientNonce piv') : piv.seq = piv'.seq :=
  (nonce_inj ctx.length_commonIv ctx.recipientId.length_le ctx.recipientId.length_le h).2

theorem requestNonce_ne (ids : ctx.senderId.bytes ≠ ctx.recipientId.bytes) (piv piv' : PartialIv) :
    ctx.requestNonce piv ≠ ctx.recipientNonce piv' := fun h =>
  ids (nonce_inj ctx.length_commonIv ctx.senderId.length_le ctx.recipientId.length_le h).1

/-! ### What a request leaves behind -/

/-- Marking a number changes the window and nothing else. -/
theorem replayAccept_eq (seq : Nat) :
    ∃ left bits, ctx.replayAccept seq = { ctx with replayLeft := left, replayBits := bits } := by
  unfold replayAccept
  split
  · exact ⟨_, _, rfl⟩
  split
  · exact ⟨_, _, rfl⟩
  · exact ⟨_, _, rfl⟩

end

theorem stitchRequest_ok {msg : ParsedMessage maxLen} {opened : Opened} {out buffer : List UInt8}
    {n : Nat} {request : RequestRef}
    (h : stitchRequest msg opened out = (.ok (n, request), buffer)) :
    request.kid.bytes = opened.kid ∧ request.piv = opened.piv := by
  revert h
  fun_cases stitchRequest msg opened out with
  | case5 _ _ _ _ _ _ _ _ built =>
    rintro ⟨⟩
    obtain ⟨kid, made, ref⟩ := bind_eq_ok.mp built
    unfold Id.new at made
    split at made
    · cases made
      cases ref
      exact ⟨rfl, rfl⟩
    · cases made
  | _ => exact nofun

/-- A reference handed out names the peer and the number of the request that was opened. -/
theorem unprotectRequest_ok {prim : Primitives} {ctx : SecurityContext requests maxLen}
    {msg inner : ParsedMessage maxLen} {out : List UInt8} {request : RequestRef}
    (h : (ctx.unprotectRequest prim msg out).1 = .ok (inner, request)) :
    ∃ opened, ctx.openRequest prim msg = .ok opened ∧
      request.kid.bytes = ctx.recipientId.bytes ∧ request.piv = opened.piv := by
  unfold unprotectRequest unprotectRequestWire at h
  cases opens : ctx.openRequest prim msg with
  | error e =>
    rw [opens] at h
    cases h
  | ok opened =>
  rw [opens] at h
  simp only at h
  split at h
  · cases h
  next stitched =>
  split at h
  · cases h
  cases h
  have := stitchRequest_ok (Prod.mk.inj stitched).1
  rw [← (openRequest_ok opens).1.1]
  exact ⟨opened, rfl, this⟩

end SecurityContext

open SecurityContext

/-! ### Runs of one context -/

/-- One context, the references it handed out that are not answered yet, and the calls that
protected a message. -/
structure Endpoint (requests maxLen : Nat) where
  ctx : SecurityContext requests maxLen
  unanswered : List RequestRef
  calls : List (SealCall maxLen)

inductive EndpointEvent (maxLen : Nat)
  | request (plain : Message maxLen) (out : List UInt8)
  | responsePiv (plain : Message maxLen) (request : RequestRef) (out : List UInt8)
  | receive (msg : ParsedMessage maxLen) (out : List UInt8)
  /-- The response without a Partial IV, once for each reference handed out. -/
  | response (plain : Message maxLen) (request : RequestRef) (out : List UInt8)

/-! ### The nonces of calls -/

def pivNonce (ctx : SecurityContext requests maxLen) : Except Error PartialIv → List (List UInt8)
  | .ok piv => [ctx.requestNonce piv]
  | .error _ => []

/-- The nonce that a call seals with if it comes to that. -/
def SealCall.nonces : SealCall maxLen → List (List UInt8)
  | .request ctx plain _ => pivNonce ctx (ctx.beginRequest plain).1
  | .response ctx plain answered _ =>
    if plain.code.isResponse then [ctx.responseNonce answered] else []
  | .responsePiv ctx plain _ _ => pivNonce ctx (ctx.beginResponse plain).1

theorem SealCall.nonce_mem {call : SealCall maxLen} {asked : SealInputs}
    (made : call.inputs = .ok asked) : asked.nonce ∈ call.nonces := by
  cases call with
  | request ctx plain out =>
    obtain ⟨piv, begun, made⟩ := bind_eq_ok.mp made
    obtain ⟨aadBytes, -, ⟨⟩⟩ := bind_eq_ok.mp made
    simp [nonces, begun, pivNonce]
  | response ctx plain answered out =>
    simp only [inputs] at made
    split at made
    · cases made
    next isResponse =>
    obtain ⟨aadBytes, -, ⟨⟩⟩ := bind_eq_ok.mp made
    simp_all [nonces]
  | responsePiv ctx plain answered out =>
  obtain ⟨piv, begun, made⟩ := bind_eq_ok.mp made
  obtain ⟨aadBytes, -, ⟨⟩⟩ := bind_eq_ok.mp made
  simp [nonces, begun, pivNonce]

namespace Endpoint

def handedOut : Except Error (ParsedMessage maxLen × RequestRef) → List RequestRef
  | .ok (_, request) => [request]
  | .error _ => []

def step (prim : Primitives) (s : Endpoint requests maxLen) :
    EndpointEvent maxLen → Endpoint requests maxLen
  | .request plain out =>
    { s with
      ctx := (s.ctx.protectRequest prim plain out).2
      calls := s.calls ++ [.request s.ctx plain out] }
  | .responsePiv plain request out =>
    { s with
      ctx := (s.ctx.protectResponsePiv prim plain request out).2
      calls := s.calls ++ [.responsePiv s.ctx plain request out] }
  | .receive msg out =>
    { s with
      ctx := (s.ctx.unprotectRequest prim msg out).2
      unanswered := s.unanswered ++ handedOut (s.ctx.unprotectRequest prim msg out).1 }
  | .response plain request out =>
    if request ∈ s.unanswered then
      { s with
        unanswered := s.unanswered.erase request
        calls := s.calls ++ [.response s.ctx plain request out] }
    else s

def nonces (s : Endpoint requests maxLen) : List (List UInt8) := s.calls.flatMap (·.nonces)

theorem nonces_append (ctx : SecurityContext requests maxLen) (refs : List RequestRef)
    (calls : List (SealCall maxLen)) (call : SealCall maxLen) :
    nonces ⟨ctx, refs, calls ++ [call]⟩ = nonces ⟨ctx, refs, calls⟩ ++ call.nonces := by
  simp [nonces]

/-- Where a nonce in use comes from: an own number below the counter, or a received number
whose reference is spent. -/
def Explained (s : Endpoint requests maxLen) (received : Set Nat) (used : List UInt8) : Prop :=
  (∃ piv : PartialIv, used = s.ctx.requestNonce piv ∧ piv.seq < s.ctx.senderSeq) ∨
  ∃ piv : PartialIv, used = s.ctx.recipientNonce piv ∧ piv.seq ∈ received ∧
    ∀ request ∈ s.unanswered, request.piv.seq ≠ piv.seq

/-- The window stands for the received numbers; each reference at hand names one of them and
no two name the same; every nonce in use is explained, and none was used twice. -/
structure Inv (s : Endpoint requests maxLen) (received : Set Nat) : Prop where
  ids : s.ctx.senderId.bytes ≠ s.ctx.recipientId.bytes
  window : s.ctx.WindowOf received
  peer : ∀ request ∈ s.unanswered, request.kid.bytes = s.ctx.recipientId.bytes
  arrived : ∀ request ∈ s.unanswered, request.piv.seq ∈ received
  apart : (s.unanswered.map (·.piv.seq)).Nodup
  explained : ∀ used ∈ s.nonces, s.Explained received used
  distinct : s.nonces.Nodup

variable {s : Endpoint requests maxLen} {received : Set Nat}

section

variable (inv : Inv s received)
include inv

/-- A call that takes a Partial IV seals with the counter's nonce, which no earlier call used. -/
theorem Inv.take {outcome : Except Error PartialIv × SecurityContext requests maxLen}
    (taking : s.ctx.Takes outcome) {next : SecurityContext requests maxLen}
    (same : outcome.2.SameButLive next) {call : SealCall maxLen}
    (sealed : call.nonces = pivNonce s.ctx outcome.1) :
    Inv { s with ctx := next, calls := s.calls ++ [call] } received := by
  obtain ⟨live, length, rfl⟩ := same
  rcases taking with ⟨e, rfl⟩ | ⟨piv, seq, -, -, rfl⟩
  · have none (ctx : SecurityContext requests maxLen) :
        nonces ⟨ctx, s.unanswered, s.calls ++ [call]⟩ = s.nonces := by
      rw [nonces_append, sealed]
      exact append_nil _
    refine { inv with window := { inv.window with }, explained := ?_, distinct := ?_ }
    · rw [none]
      exact inv.explained
    · rw [none]
      exact inv.distinct
  have one (ctx : SecurityContext requests maxLen) :
      nonces ⟨ctx, s.unanswered, s.calls ++ [call]⟩ = s.nonces ++ [s.ctx.requestNonce piv] := by
    rw [nonces_append, sealed]
    rfl
  refine { inv with window := { inv.window with }, explained := ?_, distinct := ?_ }
  · rw [one]
    intro used member
    rcases mem_append.mp member with old | new
    · rcases inv.explained used old with ⟨own, rfl, below⟩ | answered
      · exact .inl ⟨own, rfl, Nat.lt_succ_of_lt below⟩
      · exact .inr answered
    · rw [mem_singleton.mp new]
      exact .inl ⟨piv, rfl, by simp only; omega⟩
  rw [one]
  refine nodup_append.mpr ⟨inv.distinct, nodup_singleton _, ?_⟩
  rintro used old last new rfl
  -- an old nonce is of a smaller number or of the other identifier
  rw [mem_singleton.mp new] at old
  rcases inv.explained _ old with ⟨own, equal, below⟩ | ⟨theirs, equal, -⟩
  · have := s.ctx.requestNonce_inj equal
    omega
  · exact s.ctx.requestNonce_ne inv.ids piv theirs equal

/-- The response without a Partial IV spends the reference it answers. -/
theorem Inv.response {request : RequestRef} (pending : request ∈ s.unanswered)
    (plain : Message maxLen) (out : List UInt8) :
    Inv { s with
      unanswered := s.unanswered.erase request
      calls := s.calls ++ [.response s.ctx plain request out] } received := by
  have remaining : ∀ other ∈ s.unanswered.erase request, other ∈ s.unanswered :=
    fun other member => mem_of_mem_erase member
  have spent : ∀ other ∈ s.unanswered.erase request, other.piv.seq ≠ request.piv.seq := by
    intro other member equal
    have nodup : s.unanswered.Nodup := .of_map _ inv.apart
    have := inj_on_of_nodup_map inv.apart (remaining other member) pending equal
    rw [this] at member
    exact nodup.not_mem_erase member
  have theirs : s.ctx.responseNonce request = s.ctx.recipientNonce request.piv := by
    rw [responseNonce, inv.peer request pending]
    rfl
  have kept : ∀ used ∈ s.nonces,
      Explained { s with unanswered := s.unanswered.erase request, calls := [] } received used := by
    intro used old
    rcases inv.explained used old with own | ⟨piv, rfl, member, answered⟩
    · exact .inl own
    · exact .inr ⟨piv, rfl, member, fun other still => answered other (remaining other still)⟩
  refine ⟨inv.ids, inv.window, fun other still => inv.peer other (remaining other still),
    fun other still => inv.arrived other (remaining other still),
    inv.apart.sublist (erase_sublist.map _), ?_, ?_⟩
  · rw [nonces_append, SealCall.nonces]
    intro used member
    rcases mem_append.mp member with old | new
    · exact kept used old
    split at new
    · rw [mem_singleton.mp new, theirs]
      exact .inr ⟨request.piv, rfl, inv.arrived request pending, spent⟩
    · cases new
  rw [nonces_append, SealCall.nonces]
  refine nodup_append.mpr ⟨inv.distinct, by split <;> simp, ?_⟩
  rintro used old last new rfl
  split at new
  · -- an answered number is not the number of a reference still at hand
    rw [mem_singleton.mp new, theirs] at old
    rcases inv.explained _ old with ⟨own, equal, -⟩ | ⟨piv, equal, -, answered⟩
    · exact s.ctx.requestNonce_ne inv.ids own request.piv equal.symm
    · exact answered request pending (s.ctx.recipientNonce_inj equal)
  · cases new

/-- A fresh number is marked, and at most one reference to it is handed out. -/
theorem Inv.mark {seq : Nat} (fresh : s.ctx.replayFresh seq = true) {refs : List RequestRef}
    (single : (refs.map (·.piv.seq)).Nodup)
    (named : ∀ request ∈ refs, request.kid.bytes = s.ctx.recipientId.bytes ∧ request.piv.seq = seq) :
    Inv { s with ctx := s.ctx.replayAccept seq, unanswered := s.unanswered ++ refs }
      {r | r ∈ received ∨ (r = seq ∧ seq < seqEnd)} := by
  obtain ⟨inSpace, new, -⟩ := (inv.window.replayFresh_iff seq).mp fresh
  have window := inv.window.replayAccept seq
  obtain ⟨left, bits, marked⟩ := s.ctx.replayAccept_eq seq
  rw [marked] at window ⊢
  refine ⟨inv.ids, window, ?_, ?_, ?_, ?_, inv.distinct⟩
  · intro request member
    rcases mem_append.mp member with old | last
    · exact inv.peer request old
    · exact (named request last).1
  · intro request member
    rcases mem_append.mp member with old | last
    · exact .inl (inv.arrived request old)
    · exact .inr ⟨(named request last).2, inSpace⟩
  · rw [map_append]
    refine nodup_append.mpr ⟨inv.apart, single, ?_⟩
    rintro n old m last rfl
    obtain ⟨request, earlier, rfl⟩ := mem_map.mp old
    obtain ⟨latest, handed, equal⟩ := mem_map.mp last
    -- the new number was not received before
    apply new
    rw [← (named latest handed).2, equal]
    exact inv.arrived request earlier
  intro used member
  rcases inv.explained used member with own | ⟨piv, rfl, old, answered⟩
  · exact .inl own
  refine .inr ⟨piv, rfl, .inl old, ?_⟩
  intro request pending
  rcases mem_append.mp pending with earlier | last
  · exact answered request earlier
  intro equal
  rw [(named request last).2] at equal
  exact new (equal ▸ old)

/-- A datagram that does not open leaves no trace; one that does adds its number. -/
theorem Inv.receive (prim : Primitives) (msg : ParsedMessage maxLen) (out : List UInt8) :
    ∃ received, Inv (s.step prim (.receive msg out)) received := by
  have context := s.ctx.unprotectRequest_context prim msg out
  simp only [step]
  rw [context]
  cases outcome : (s.ctx.unprotectRequest prim msg out).1 with
  | error e =>
    simp only [handedOut, append_nil]
    split
    · exact ⟨received, inv⟩
    next opened opens =>
    have unnamed : ([] : List RequestRef).map (·.piv.seq) |>.Nodup := nodup_nil
    have marked := inv.mark (openRequest_ok opens).1.2 unnamed nofun
    rw [append_nil] at marked
    exact ⟨_, marked⟩
  | ok found =>
  obtain ⟨opened, opens, kid, piv⟩ := unprotectRequest_ok outcome
  simp only [opens, handedOut]
  refine ⟨_, inv.mark (openRequest_ok opens).1.2 (nodup_singleton _) ?_⟩
  intro request member
  rw [mem_singleton.mp member, piv]
  exact ⟨kid, rfl⟩

theorem Inv.after (prim : Primitives) (event : EndpointEvent maxLen) :
    ∃ received, Inv (s.step prim event) received := by
  cases event with
  | request plain out =>
    exact ⟨received, inv.take (s.ctx.takes_beginRequest plain)
      (s.ctx.sameButLive_protectRequest prim plain out) rfl⟩
  | responsePiv plain request out =>
    exact ⟨received, inv.take (s.ctx.takes_beginResponse plain)
      (s.ctx.protectResponsePiv_context prim plain request out ▸ .refl _) rfl⟩
  | receive msg out => exact inv.receive prim msg out
  | response plain request out =>
  simp only [step]
  split
  next pending => exact ⟨received, inv.response pending plain out⟩
  · exact ⟨received, inv⟩

end

end Endpoint

/-- A nonce determines identifier and number. In every run of a derived context that answers each
request at most once without a Partial IV, a call asks the AEAD for one encryption at most, and no
two calls ask for one under the same nonce. -/
theorem nonces_distinct : (∀ commonIv : List UInt8, commonIv.length = nonceLen →
      ∀ id id' : List UInt8, id.length ≤ 7 → id'.length ≤ 7 →
      ∀ seq < 2 ^ 40, ∀ seq' < 2 ^ 40, ∃ piv piv' : PartialIv,
        fromSeq seq = .ok piv ∧ fromSeq seq' = .ok piv' ∧
        (nonce commonIv id piv = nonce commonIv id' piv' → id = id' ∧ seq = seq')) ∧
    ∀ (prim : Primitives) (params : DeriveParams) (ctx : SecurityContext requests maxLen),
      SecurityContext.derive prim requests maxLen params = .ok ctx →
      ∀ events : List (EndpointEvent maxLen),
        let calls := (Run.run (Endpoint.step prim) ⟨ctx, [], []⟩ events).calls
        (∀ call ∈ calls, ∀ a b, call.Asks prim a → call.Asks prim b → a = b) ∧
        calls.Pairwise fun first second =>
          ∀ a b, first.Asks prim a → second.Asks prim b → a.nonce ≠ b.nonce := by
  constructor
  · intro commonIv length id id' short short' seq inSpace seq' inSpace'
    obtain ⟨piv, made, rfl⟩ := fromSeq_ok inSpace
    obtain ⟨piv', made', rfl⟩ := fromSeq_ok inSpace'
    exact ⟨piv, piv', made, made', nonce_inj length short short'⟩
  intro prim params ctx derived events calls
  obtain ⟨left, bits, -, -, ids⟩ := SecurityContext.derive_ok derived
  have start : ∃ received, Endpoint.Inv ⟨ctx, [], []⟩ received :=
    ⟨∅, ids, SecurityContext.windowOf_empty left bits, nofun, nofun, List.nodup_nil, nofun,
      List.nodup_nil⟩
  obtain ⟨received, inv⟩ := Run.invariant_run
    (fun s event (inv : ∃ received, Endpoint.Inv s received) => inv.elim fun _ inv =>
      inv.after prim event) start events
  constructor
  · intro call member a b asksA asksB
    exact Except.ok.inj (asksA.inputs_eq.symm.trans asksB.inputs_eq)
  refine (nodup_flatMap.mp inv.distinct).2.imp ?_
  intro first second apart a b asksA asksB equal
  exact apart (SealCall.nonce_mem asksA.inputs_eq) (equal ▸ SealCall.nonce_mem asksB.inputs_eq)

def protectedGet : ParsedMessage 8 :=
  ⟨⟨1, .confirmable, 0, .post, 9⟩, ⟨[], by decide⟩, [0x92, 0x01, 0x05], 0x01 :: replicate tagLen 0⟩

def plainContent : Message 8 := ⟨.acknowledgement, .content, 9, ⟨[], by decide⟩, [], []⟩

/-- A request of its own, a response, a second attempt at it, and a notification. -/
def exchange : List (EndpointEvent 8) :=
  let reference : RequestRef := ⟨⟨[], by decide⟩, ⟨[5], by decide, by decide⟩⟩
  [.request plainGet (replicate 32 0), .receive protectedGet (replicate 32 0),
    .response plainContent reference (replicate 32 0),
    .response plainContent reference (replicate 32 0),
    .responsePiv plainContent reference (replicate 32 0)]

theorem nonces_distinct_exchange : ∃ ctx : SecurityContext 4 8,
      SecurityContext.derive clearPrimitives 4 8 serverParams = .ok ctx ∧
      let calls := (Run.run (Endpoint.step clearPrimitives) ⟨ctx, [], []⟩ exchange).calls
      calls.map (·.run clearPrimitives |>.1.isOk) = [true, true, true] ∧
      calls.Pairwise fun first second => ∀ a b, first.Asks clearPrimitives a →
        second.Asks clearPrimitives b → a.nonce ≠ b.nonce :=
  ⟨_, rfl, by decide, (nonces_distinct.2 clearPrimitives serverParams _ rfl exchange).2⟩

end Coaptic.Oscore
