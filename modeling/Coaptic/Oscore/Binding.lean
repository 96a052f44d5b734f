import Coaptic.Lib.Slots
import Coaptic.Oscore.Session

/-!
# Responses belong to their requests

The live table is a finite map from tokens to the latest request and the Observe registration.
A response is opened only under what its token is bound to at that moment. The associated data
determine the request they were made for, so with an AEAD that opens nothing but what was
sealed, the response was made for exactly that request.
-/
namespace Coaptic.Oscore

open Codec Bytes List Option Result Function
open SecurityContext (derive derive_spec)

variable {requests maxLen : Nat}

/-! ### Associated data -/

/-- A byte string of at most 23 bytes in CBOR. -/
def shortBstr (value : List UInt8) : List UInt8 := (0x40 ||| UInt8.ofNat value.length) :: value

theorem push_of_lt {limit : Nat} {out : List UInt8} {byte : UInt8} (fits : out.length < limit) :
    push limit out byte = .ok (out ++ [byte]) :=
  if_neg (Nat.not_le.mpr fits)

theorem putBstr_of_le {limit : Nat} {out value : List UInt8} (short : value.length ≤ 23)
    (fits : out.length + 1 + value.length ≤ limit) :
    putBstr limit out value = .ok (out ++ shortBstr value) := by
  have first : push limit out (0x40 ||| UInt8.ofNat value.length) =
      .ok (out ++ [0x40 ||| UInt8.ofNat value.length]) := push_of_lt (by omega)
  have rest : pushSlice limit (out ++ [0x40 ||| UInt8.ofNat value.length]) value =
      .ok (out ++ [0x40 ||| UInt8.ofNat value.length] ++ value) := by
    rw [pushSlice, if_neg (by rw [length_append, length_singleton]; omega)]
  simp only [putBstr, putLen, if_pos short, first, bind, Except.bind, rest, shortBstr,
    append_assoc, singleton_append]

theorem shortBstr_append_inj {a b restA restB : List UInt8} (ha : a.length ≤ 23)
    (hb : b.length ≤ 23) (h : shortBstr a ++ restA = shortBstr b ++ restB) :
    a = b ∧ restA = restB := by
  have head (n : Nat) (short : n ≤ 23) : (0x40 ||| UInt8.ofNat n).toNat = 64 + n := by
    interval_cases n <;> rfl
  simp only [shortBstr, cons_append, cons.injEq] at h
  have sizes := congrArg UInt8.toNat h.1
  rw [head _ ha, head _ hb] at sizes
  exact append_inj h.2 (by omega)

variable {kid piv : List UInt8}

theorem aadBstrEnd_of_le {i len stop : Nat} (short : len ≤ 23) (ends : stop = i + 1 + len)
    (fits : stop ≤ 48) : aadBstrEnd i len = .ok stop := by
  rw [aadBstrEnd, if_neg (by omega)]
  simp only [if_pos short]
  rw [if_neg (by omega), ends]

/-- The associated data of a request or of a response to it, in full. -/
theorem aad_eq (kidLe : kid.length ≤ maxIdLen) (pivLe : piv.length ≤ maxPivLen) :
    aad kid piv = .ok (enc0Head ++ ((0x40 ||| UInt8.ofNat (7 + kid.length + piv.length)) ::
      0x85 :: 1 :: 0x81 :: 10 :: (shortBstr kid ++ (shortBstr piv ++ shortBstr [])))) := by
  rw [maxIdLen] at kidLe
  rw [maxPivLen] at pivLe
  have kidEnd : aadBstrEnd 4 kid.length = .ok (5 + kid.length) :=
    aadBstrEnd_of_le (by omega) (by omega) (by omega)
  have pivEnd : aadBstrEnd (5 + kid.length) piv.length = .ok (6 + kid.length + piv.length) :=
    aadBstrEnd_of_le (by omega) (by omega) (by omega)
  have classEnd : aadBstrEnd (6 + kid.length + piv.length) ([] : List UInt8).length =
      .ok (7 + kid.length + piv.length) :=
    aadBstrEnd_of_le (by simp) (by simp; omega) (by omega)
  have size : putLen 32 enc0Head 0x40 (7 + kid.length + piv.length) =
      .ok (enc0Head ++ [0x40 ||| UInt8.ofNat (7 + kid.length + piv.length)]) := by
    rw [putLen, if_pos (by omega), push_of_lt (by decide)]
  -- each element of the array fits in the bytes counted for it
  have array : aadArray (7 + kid.length + piv.length) kid piv [] =
      .ok (0x85 :: 1 :: 0x81 :: 10 :: (shortBstr kid ++ (shortBstr piv ++ shortBstr []))) := by
    have small {limit : Nat} {out : List UInt8} {n : UInt8} (short : n ≤ 23)
        (fits : out.length < limit) : putUint limit out n = .ok (out ++ [n]) := by
      rw [putUint, if_pos short, push_of_lt fits]
    simp only [aadArray, bind, Except.bind]
    rw [push_of_lt (by simp)]
    simp only
    rw [small (by decide) (by simp; omega)]
    simp only
    rw [push_of_lt (by simp; omega)]
    simp only
    rw [small (by decide) (by simp; omega)]
    simp only
    rw [putBstr_of_le (by omega) (by simp; omega)]
    simp only
    rw [putBstr_of_le (by omega) (by simp [shortBstr]; omega)]
    simp only
    rw [putBstr_of_le (by simp) (by simp [shortBstr]; omega)]
    simp [oscoreVersion, aeadAlgorithm]
  simp only [aad, encodeAad, bind, Except.bind, kidEnd, pivEnd, classEnd,
    if_neg (show ¬32 < enc0Head.length by decide), size]
  rw [if_neg (by simp [enc0Head]; omega), array]
  simp

/-- The associated data determine the identifier and the Partial IV of the request. -/
theorem aad_inj {kid' piv' : List UInt8} (kidLe : kid.length ≤ maxIdLen)
    (kidLe' : kid'.length ≤ maxIdLen) (pivLe : piv.length ≤ maxPivLen)
    (pivLe' : piv'.length ≤ maxPivLen) (h : aad kid piv = aad kid' piv') :
    kid = kid' ∧ piv = piv' := by
  rw [aad_eq kidLe pivLe, aad_eq kidLe' pivLe'] at h
  have bytes := append_cancel_left (Except.ok.inj h)
  simp only [cons.injEq, true_and] at bytes
  simp only [maxIdLen, maxPivLen] at kidLe kidLe' pivLe pivLe'
  obtain ⟨kids, rest⟩ := shortBstr_append_inj (by omega) (by omega) bytes.2
  obtain ⟨pivs, -⟩ := shortBstr_append_inj (by omega) (by omega) rest
  exact ⟨kids, pivs⟩

theorem RequestRef.eq_of_aad {request request' : RequestRef}
    (h : aad request.kid.bytes request.piv.bytes = aad request'.kid.bytes request'.piv.bytes) :
    request = request' := by
  obtain ⟨kids, pivs⟩ := aad_inj request.kid.length_le request'.kid.length_le
    request.piv.length_le request'.piv.length_le h
  obtain ⟨⟨kid, kidLe⟩, ⟨piv, pivSome, pivLe⟩⟩ := request
  obtain ⟨⟨kid', kidLe'⟩, ⟨piv', pivSome', pivLe'⟩⟩ := request'
  cases kids
  cases pivs
  rfl

/-! ### The live table is a map -/

/-- What a token is bound to. -/
structure Binding where
  latest : RequestRef
  registration : Option RequestRef
deriving DecidableEq

abbrev Bound (maxLen : Nat) := OwnedToken maxLen → Option Binding

namespace Bound

section

variable (bound : Bound maxLen) (token : OwnedToken maxLen)

def remember (request : RequestRef) (observe : Bool) : Bound maxLen :=
  update bound token (some ⟨request, if observe then some request else none⟩)

/-- A body request keeps the registration it belongs to. -/
def download (request : RequestRef) : Bound maxLen :=
  match (bound token).bind (·.registration) with
  | some registration => update bound token (some ⟨request, some registration⟩)
  | none => bound.remember token request false

def take : Bound maxLen :=
  update bound token none

end

def onOk {α : Type} (outcome : Except Error α) (changed unchanged : Bound maxLen) : Bound maxLen :=
  match outcome with
  | .ok _ => changed
  | .error _ => unchanged

def protect (bound : Bound maxLen) (plain : Message maxLen) (request : RequestRef) : Bound maxLen :=
  let observe := plain.options.any isObserve
  let blocks := plain.options.any fun opt => opt.number == 23 || opt.number == 31
  if !observe && blocks then bound.download plain.token request
  else bound.remember plain.token request observe

end Bound

namespace SecurityContext

open Slots

def bindings (ctx : SecurityContext requests maxLen) : Bound maxLen := fun token =>
  (ctx.liveRow token).map fun row => ⟨row.request, row.observeRequest⟩

/-- One row for a token, and a registration exactly in the rows marked as such. -/
structure TableSound (ctx : SecurityContext requests maxLen) : Prop where
  distinct : Distinct LiveRequest.token ctx.live
  observed : ∀ row, some row ∈ ctx.live → row.observe = row.observeRequest.isSome

theorem liveRow_eq (ctx : SecurityContext requests maxLen) (token : OwnedToken maxLen) :
    ctx.liveRow token = find LiveRequest.token ctx.live token := rfl

variable {ctx : SecurityContext requests maxLen} {token : OwnedToken maxLen} {request : RequestRef}

/-- Writing a row in its place is an update of the map. -/
theorem TableSound.set (sound : TableSound ctx) {i : Nat} {row : LiveRequest maxLen}
    (wrote : Wrote LiveRequest.token ctx.live i row)
      (observed : row.observe = row.observeRequest.isSome)
    (length : (ctx.live.set i (some row)).length = requests) :
    TableSound { ctx with live := ctx.live.set i (some row), length_live := length } ∧
      bindings { ctx with live := ctx.live.set i (some row), length_live := length } =
        update ctx.bindings row.token (some ⟨row.request, row.observeRequest⟩) := by
  refine ⟨⟨wrote.distinct, ?_⟩, ?_⟩
  · intro other member
    rcases mem_or_eq_of_mem_set member with old | new
    · exact sound.observed other old
    · cases new
      exact observed
  funext token
  simp only [bindings, liveRow_eq, wrote.find, update_apply]
  by_cases same : row.token = token
  · rw [if_pos same, if_pos same.symm]
    rfl
  · rw [if_neg same, if_neg (fun h => same h.symm)]

variable {outcome : Except Error Unit} {ctx' : SecurityContext requests maxLen}
  {plain : Message maxLen} {prim : Primitives} {out out' payload plaintext : List UInt8}
  {header : OscoreHeader}

section

variable (sound : TableSound ctx)
include sound

theorem rememberLive_bindings {observe : Bool}
    (h : ctx.rememberLive token request observe = (outcome, ctx')) : TableSound ctx' ∧
      ctx'.bindings = .onOk outcome (ctx.bindings.remember token request observe) ctx.bindings := by
  have observed : observe = (if observe then some request else none).isSome := by
    cases observe <;> rfl
  simp only [rememberLive] at h
  split at h
  next i found =>
    -- the row of the token is replaced
    cases h
    obtain ⟨old, held, same, -⟩ := sound.distinct.findIdx_some found
    exact sound.set (sound.distinct.replace held same) observed _
  next absent =>
    split at h
    next i found =>
      -- no row of the token, so any free one will do
      cases h
      exact sound.set (sound.distinct.fill (findIdx_free found).1 (findIdx_none.mp absent)) observed _
    · cases h
      exact ⟨sound, rfl⟩

theorem rememberDownload_bindings (h : ctx.rememberDownload token request = (outcome, ctx')) :
    TableSound ctx' ∧
      ctx'.bindings = .onOk outcome (ctx.bindings.download token request) ctx.bindings := by
  simp only [rememberDownload] at h
  split at h
  next i found =>
    cases h
    obtain ⟨old, held, holds, inside⟩ := findIdx_any found
    simp only [Bool.and_eq_true, decide_eq_true_eq] at holds
    obtain ⟨same, observed⟩ := holds
    obtain ⟨registration, retained⟩ : ∃ r, old.observeRequest = some r := by
      have := sound.observed old (mem_of_getElem? held)
      rw [observed] at this
      exact isSome_iff_exists.mp this.symm
    have written : ctx.live.modify i (Option.map fun r => { r with request, responseNoPiv := false }) =
        ctx.live.set i (some { old with request, responseNoPiv := false }) := by
      apply ext_getElem?
      intro j
      rw [getElem?_modify, getElem?_set]
      by_cases here : i = j
      · subst here
        rw [held]
        simp [inside]
      · simp [here]
    have bound : ctx.bindings token = some ⟨old.request, some registration⟩ := by
      simp only [bindings, liveRow_eq,
        sound.distinct.find_eq_some_iff.mpr ⟨mem_of_getElem? held, same⟩, retained,
        map_some]
    simp only [written, Bound.download, bound, Option.bind_some, Bound.onOk]
    have wrote : Wrote _ _ i { old with request, responseNoPiv := false } :=
      sound.distinct.replace held rfl
    have := sound.set wrote (sound.observed old (mem_of_getElem? held))
      (by rw [length_set, ctx.length_live])
    simpa only [same, retained] using this
  next absent =>
    have spec := rememberLive_bindings sound h
    have unregistered : (ctx.bindings token).bind (·.registration) = none := by
      simp only [bindings, liveRow_eq]
      cases found : find LiveRequest.token ctx.live token with
      | none => rfl
      | some row =>
      obtain ⟨member, same⟩ := mem_of_find found
      have unmarked := findIdx?_eq_none_iff.mp absent (some row) member
      have observed := sound.observed row member
      simp only [any_some, same, decide_true, Bool.true_and] at unmarked
      rw [unmarked] at observed
      simpa using observed.symm
    simp only [Bound.download, unregistered]
    exact spec

theorem take_bindings {outcome : Option RequestRef} (h : ctx.take token = (outcome, ctx')) :
    TableSound ctx' ∧ ctx'.bindings = ctx.bindings.take token := by
  simp only [take] at h
  split at h
  next absent =>
    cases h
    refine ⟨sound, ?_⟩
    have unbound : ctx.bindings token = none := by
      rw [bindings, liveRow_eq, findIdx_none.mp absent, map_none]
    rw [Bound.take, ← unbound, update_eq_self]
  next i found =>
    cases h
    obtain ⟨old, held, same, inside⟩ := findIdx_any found
    rw [decide_eq_true_eq] at same
    refine ⟨⟨sound.distinct.clear i, ?_⟩, ?_⟩
    · intro other member
      rcases mem_or_eq_of_mem_set member with old | new
      · exact sound.observed other old
      · cases new
    funext other
    simp only [bindings, liveRow_eq, sound.distinct.find_clear held, Bound.take,
      update_apply, same]
    by_cases here : token = other
    · rw [if_pos here, if_pos here.symm]
      rfl
    · rw [if_neg here, if_neg (fun h => here h.symm)]

theorem rememberRequest_bindings (h : ctx.rememberRequest plain request = (outcome, ctx')) :
    TableSound ctx' ∧
      ctx'.bindings = .onOk outcome (ctx.bindings.protect plain request) ctx.bindings := by
  simp only [rememberRequest] at h
  simp only [Bound.protect]
  split at h
  next blocks =>
    rw [if_pos blocks]
    exact rememberDownload_bindings sound h
  next whole =>
  rw [if_neg whole]
  exact rememberLive_bindings sound h

/-- A protected request binds its token when the call succeeds. -/
theorem protectRequest_bindings {outcome : Except Error Nat}
    (h : ctx.protectRequest prim plain out = ((outcome, out'), ctx')) :
    TableSound ctx' ∧ ctx'.bindings = .onOk outcome
      (match (ctx.beginRequest plain).1 with
        | .ok piv => ctx.bindings.protect plain (ctx.requestRef piv)
        | .error _ => ctx.bindings) ctx.bindings := by
  have taking := ctx.takes_beginRequest plain
  simp only [protectRequest] at h
  split at h
  next begun =>
    rw [begun] at taking
    cases h
    rcases taking with ⟨e, ⟨⟩⟩ | ⟨piv, -, -, -, ⟨⟩⟩
    exact ⟨sound, rfl⟩
  next piv after begun =>
  rw [begun] at taking
  rcases taking with ⟨e, ⟨⟩⟩ | ⟨piv, -, -, -, ⟨⟩⟩
  -- taking the number leaves the table as it was
  have kept : TableSound { ctx with senderSeq := ctx.senderSeq + 1 } :=
    ⟨sound.distinct, sound.observed⟩
  simp only [begun]
  split at h
  · cases h
    exact ⟨kept, rfl⟩
  split at h
  · cases h
    exact ⟨kept, rfl⟩
  split at h
  next refused =>
    cases h
    exact rememberRequest_bindings kept refused
  next remembered =>
  cases h
  exact rememberRequest_bindings kept remembered

end

theorem openCandidates_ok {candidates : List RequestRef}
    (h : ctx.openCandidates prim header payload candidates = .ok (plaintext, request)) :
    request ∈ candidates ∧ ctx.openCandidate prim header payload request = .ok plaintext := by
  induction candidates with
  | nil => cases h
  | cons candidate rest ih =>
  simp only [openCandidates] at h
  split at h
  next opened =>
    cases h
    exact ⟨mem_cons_self .., opened⟩
  · exact (ih h).imp_left (mem_cons_of_mem _)
  · cases h

theorem openCandidate_ok (h : ctx.openCandidate prim header payload request = .ok plaintext) :
    ∃ aadBytes, aad request.kid.bytes request.piv.bytes = .ok aadBytes ∧
      prim.decrypt ctx.recipientKey (ctx.candidateNonce header request) aadBytes payload =
        some plaintext := by
  obtain ⟨aadBytes, made, opened⟩ := bind_eq_ok.mp h
  refine ⟨aadBytes, made, ?_⟩
  simp only [openCiphertext] at opened
  split at opened
  · cases opened
  split at opened
  · cases opened
  split at opened
  · cases opened
  next decrypted =>
  cases opened
  exact decrypted

/-- What the client accepts: a candidate of the token, opened to a response. -/
theorem unprotectBoundResponseWire_ok {msg : ParsedMessage maxLen} {n : Nat}
    (h : ctx.unprotectBoundResponseWire prim msg out = (.ok (n, request), out')) :
    (∃ binding, ctx.bindings msg.token = some binding ∧
      (request = binding.latest ∨ binding.registration = some request)) ∧
    ∃ nonce aadBytes code rest, aad request.kid.bytes request.piv.bytes = .ok aadBytes ∧
      prim.decrypt ctx.recipientKey nonce aadBytes msg.payload = some (code :: rest) ∧
      (⟨code⟩ : Code).isResponse = true := by
  simp only [unprotectBoundResponseWire] at h
  split at h
  · cases h
  next latest found =>
  simp only [unprotectResponseCandidates] at h
  split at h
  · cases h
  next plaintext accepted opened =>
  obtain ⟨header, -, opened⟩ := bind_eq_ok.mp opened
  split at opened
  · cases opened
  obtain ⟨candidate, opened⟩ := openCandidates_ok opened
  obtain ⟨aadBytes, made, decrypted⟩ := openCandidate_ok opened
  simp only [stitchResponse] at h
  split at h
  · cases h
  next =>
  split at h
  · cases h
  next isResponse =>
  split at h
  · cases h
  cases h
  refine ⟨?_, _, aadBytes, _, _, made, decrypted, by simpa using isResponse⟩
  -- both candidates come from the row of the token
  rw [lookup, map_eq_some_iff] at found
  obtain ⟨row, held, rfl⟩ := found
  refine ⟨⟨row.request, row.observeRequest⟩, by simp [bindings, held], ?_⟩
  simp only [observeRequest, held, bind_some, mem_cons,
    mem_toList, filter_eq_some_iff] at candidate
  exact candidate.imp_right (·.1)

end SecurityContext

open SecurityContext

/-! ### What was sealed -/

namespace SealCall

/-- A call that sealed a response answers the request its associated data name. -/
theorem Asks.answers_eq {prim : Primitives} {call : SealCall maxLen} {sealed : SealInputs}
    {code : UInt8} {rest : List UInt8} {request : RequestRef} (asks : call.Asks prim sealed)
    (plaintext : sealed.plaintext = code :: rest) (isResponse : (⟨code⟩ : Code).isResponse = true)
    (named : aad request.kid.bytes request.piv.bytes = .ok sealed.aad) :
    call.answers = some request := by
  have made := asks.inputs_eq
  cases call with
  | request ctx plain out =>
    -- a request's plaintext starts with a request code
    obtain ⟨piv, begun, made⟩ := bind_eq_ok.mp made
    obtain ⟨aadBytes, -, ⟨⟩⟩ := bind_eq_ok.mp made
    simp only [plainWire, cons.injEq] at plaintext
    rw [← plaintext.1] at isResponse
    have isRequest := (beginRequest_ok begun).1
    simp only [Code.isRequest, Bool.and_eq_true, beq_iff_eq] at isRequest
    simp [Code.isResponse, show (⟨plain.code.raw⟩ : Code) = plain.code from rfl, isRequest.1]
      at isResponse
  | response ctx plain answered out =>
    simp only [inputs] at made
    split at made
    · cases made
    obtain ⟨aadBytes, derived, ⟨⟩⟩ := bind_eq_ok.mp made
    rw [answers, RequestRef.eq_of_aad (derived.trans named.symm)]
  | responsePiv ctx plain answered out =>
  obtain ⟨piv, -, made⟩ := bind_eq_ok.mp made
  obtain ⟨aadBytes, derived, ⟨⟩⟩ := bind_eq_ok.mp made
  rw [answers, RequestRef.eq_of_aad (derived.trans named.symm)]

end SealCall

/-- An ideal AEAD for the calls made: what opens is the answer to one of them, which asked for it
under the same key, nonce and associated data. -/
def Primitives.OpensOnly (prim : Primitives) (calls : Set (SealCall maxLen)) : Prop :=
  ∀ key nonce aad ciphertext plaintext, prim.decrypt key nonce aad ciphertext = some plaintext →
    ∃ call ∈ calls, call.Asks prim ⟨key, nonce, aad, plaintext⟩ ∧
      prim.encrypt key nonce aad plaintext = some ciphertext

/-! ### Runs -/

/-- A client's context, and what each token is bound to by the calls so far. -/
structure Binder (requests maxLen : Nat) where
  ctx : SecurityContext requests maxLen
  bound : Bound maxLen

inductive BindingCall (maxLen : Nat)
  | remember (token : OwnedToken maxLen) (request : RequestRef)
  | rememberLive (token : OwnedToken maxLen) (request : RequestRef) (observe : Bool)
  | rememberDownload (token : OwnedToken maxLen) (request : RequestRef)
  | take (token : OwnedToken maxLen)
  | protectRequest (plain : Message maxLen) (out : List UInt8)

namespace Binder

def step (prim : Primitives) (s : Binder requests maxLen) :
    BindingCall maxLen → Binder requests maxLen
  | .remember token request =>
    let result := s.ctx.remember token request
    ⟨result.2, .onOk result.1 (s.bound.remember token request false) s.bound⟩
  | .rememberLive token request observe =>
    let result := s.ctx.rememberLive token request observe
    ⟨result.2, .onOk result.1 (s.bound.remember token request observe) s.bound⟩
  | .rememberDownload token request =>
    let result := s.ctx.rememberDownload token request
    ⟨result.2, .onOk result.1 (s.bound.download token request) s.bound⟩
  | .take token => ⟨(s.ctx.take token).2, s.bound.take token⟩
  | .protectRequest plain out =>
    let result := s.ctx.protectRequest prim plain out
    ⟨result.2, .onOk result.1.1
      (match (s.ctx.beginRequest plain).1 with
        | .ok piv => s.bound.protect plain (s.ctx.requestRef piv)
        | .error _ => s.bound) s.bound⟩

def Inv (s : Binder requests maxLen) : Prop := s.ctx.TableSound ∧ s.ctx.bindings = s.bound

variable {prim : Primitives}

theorem Inv.step {s : Binder requests maxLen} (inv : Inv s) (call : BindingCall maxLen) :
    Inv (s.step prim call) := by
  obtain ⟨sound, agree⟩ := inv
  open SecurityContext in
  cases call with
  | remember token request | rememberLive token request observe =>
    simp only [Binder.step, ← agree]
    exact rememberLive_bindings sound rfl
  | rememberDownload token request =>
    simp only [Binder.step, ← agree]
    exact rememberDownload_bindings sound rfl
  | take token =>
    simp only [Binder.step, ← agree]
    exact take_bindings sound rfl
  | protectRequest plain out =>
    simp only [Binder.step, ← agree]
    exact protectRequest_bindings sound rfl

theorem inv_run {params : DeriveParams} {ctx : SecurityContext requests maxLen}
    (derived : derive prim requests maxLen params = .ok ctx) (calls : List (BindingCall maxLen)) :
    Inv (Run.run (Binder.step prim) ⟨ctx, fun _ => none⟩ calls) := by
  apply Run.invariant_run
  · intro s call inv
    exact inv.step call
  have empty := (derive_spec derived).live
  have table : ctx.TableSound := by
    refine ⟨by rw [empty]; exact Slots.distinct_replicate_none _, ?_⟩
    intro row member
    rw [empty] at member
    simp at member
  refine ⟨table, ?_⟩
  funext token
  simp only [bindings, liveRow_eq, map_eq_none_iff,
    Slots.find_eq_none_iff, empty]
  intro row member
  simp at member

end Binder

/-- A response that is accepted under a request belongs to it: the token is bound to that
request, or retains it as its registration, and the response was sealed as an answer to exactly
that request under the peer's key. The associated data keep requests apart. -/
theorem response_bound {prim : Primitives} {params : DeriveParams}
    {ctx : SecurityContext requests maxLen} {sealCalls : Set (SealCall maxLen)}
    (derived : derive prim requests maxLen params = .ok ctx) (ideal : prim.OpensOnly sealCalls) :
    (∀ (calls : List (BindingCall maxLen)) (s : Binder requests maxLen),
      s = Run.run (Binder.step prim) ⟨ctx, fun _ => none⟩ calls →
      ∀ (msg : ParsedMessage maxLen) (out out' : List UInt8) (n : Nat) (request : RequestRef),
        s.ctx.unprotectBoundResponseWire prim msg out = (.ok (n, request), out') →
        (∃ binding, s.bound msg.token = some binding ∧
          (request = binding.latest ∨ binding.registration = some request)) ∧
        ∃ call ∈ sealCalls, call.answers = some request ∧
          ∃ sealed, call.Asks prim sealed ∧ sealed.key = s.ctx.recipientKey ∧
            prim.answer sealed = some msg.payload) ∧
    (∀ kid kid' piv piv' : List UInt8, kid.length ≤ 7 → kid'.length ≤ 7 → piv.length ≤ 5 →
      piv'.length ≤ 5 → aad kid piv = aad kid' piv' → kid = kid' ∧ piv = piv') := by
  constructor
  · rintro calls s rfl msg out out' n request accepted
    obtain ⟨-, agree⟩ := Binder.inv_run derived calls
    obtain ⟨bound, nonce, aadBytes, code, rest, named, decrypted, isResponse⟩ :=
      SecurityContext.unprotectBoundResponseWire_ok accepted
    obtain ⟨call, member, asks, encrypted⟩ := ideal _ _ _ _ _ decrypted
    exact ⟨agree ▸ bound, call, member, asks.answers_eq rfl isResponse named, _, asks, rfl, encrypted⟩
  · intro kid kid' piv piv' kidLe kidLe' pivLe pivLe' same
    exact aad_inj kidLe kidLe' pivLe pivLe' same

/-- Primitives that open one ciphertext only. -/
def recordPrimitives (record : SealInputs) : Primitives where
  expand _ _ _ len := some (List.replicate len 0)
  encrypt _ _ _ plaintext := some (plaintext ++ List.replicate tagLen 0)
  decrypt key nonce aad ciphertext :=
    if key = record.key ∧ nonce = record.nonce ∧ aad = record.aad ∧
        ciphertext = record.plaintext ++ List.replicate tagLen 0 then some record.plaintext
    else none
  length_expand := @clearPrimitives.length_expand
  length_encrypt := @clearPrimitives.length_encrypt
  length_decrypt := by
    intro _ _ _ ciphertext _ h
    simp only [Option.ite_none_right_eq_some, Option.some.injEq] at h
    obtain ⟨⟨-, -, -, rfl⟩, rfl⟩ := h
    simp

/-- The same, with no ciphertext for the record. -/
def refusingPrimitives (record : SealInputs) : Primitives where
  expand := (recordPrimitives record).expand
  encrypt key nonce aad plaintext :=
    if (⟨key, nonce, aad, plaintext⟩ : SealInputs) = record then none
    else (recordPrimitives record).encrypt key nonce aad plaintext
  decrypt := (recordPrimitives record).decrypt
  length_expand := (recordPrimitives record).length_expand
  length_encrypt := by
    intro _ _ _ _ _ h
    split at h
    · cases h
    · exact (recordPrimitives record).length_encrypt h
  length_decrypt := (recordPrimitives record).length_decrypt

def firstRequest : RequestRef := ⟨⟨[], Nat.zero_le _⟩, ⟨[0], nofun, Nat.succ_pos _⟩⟩

def firstAnswer : SealInputs where
  key := List.replicate keyLen 0
  nonce := nonce (List.replicate nonceLen 0) [] firstRequest.piv
  aad := enc0Head ++ [0x48, 0x85, 1, 0x81, 10, 0x40, 0x41, 0, 0x40]
  plaintext := plainWire notification

def firstPrimitives : Primitives := recordPrimitives firstAnswer

def firstSeal (server : SecurityContext 4 8) : SealCall 8 :=
  .response server notification firstRequest (List.replicate 64 0)

/-- What a client makes of a message, after it has bound the token to its request. -/
def firstOutcome (client : SecurityContext 4 8) (msg : ParsedMessage 8) :=
  (Run.run (Binder.step firstPrimitives) ⟨client, fun _ => none⟩
    [.remember notification.token firstRequest]).ctx.unprotectBoundResponseWire firstPrimitives msg
      (List.replicate 64 0)

/-- The answer is accepted, and it is the one that the server sealed for the request. -/
theorem response_bound_first :
    ∃ (server client : SecurityContext 4 8) (msg : ParsedMessage 8) (n : Nat) (out : List UInt8),
      derive firstPrimitives 4 8 serverParams = .ok server ∧
      derive firstPrimitives 4 8 serverParams.mirror = .ok client ∧
      firstOutcome client msg = (.ok (n, firstRequest), out) ∧
      ∃ call ∈ ({firstSeal server} : Set (SealCall 8)), call.answers = some firstRequest := by
  obtain ⟨server, client, made, derived, refuses, seals, msg, n, out, accepted⟩ :
      ∃ server client : SecurityContext 4 8,
        derive firstPrimitives 4 8 serverParams = .ok server ∧
        derive firstPrimitives 4 8 serverParams.mirror = .ok client ∧
        ((firstSeal server).run (refusingPrimitives firstAnswer)).1.isOk = false ∧
        ((firstSeal server).run firstPrimitives).1.isOk = true ∧
        ∃ msg n out, firstOutcome client msg = (.ok (n, firstRequest), out) := by
    refine ⟨_, _, rfl, rfl, by decide +kernel, by decide +kernel, ?_⟩
    exact ⟨⟨⟨1, .nonConfirmable, 1, .content, 7⟩, notification.token, [0x90],
      plainWire notification ++ List.replicate tagLen 0⟩, _, _, rfl⟩
  -- the outcome hangs on the answer to the record
  have asks : (firstSeal server).Asks firstPrimitives firstAnswer := by
    refine ⟨refusingPrimitives firstAnswer, fun other ne => if_neg ne, fun same => ?_⟩
    rw [same, seals] at refuses
    cases refuses
  have ideal : firstPrimitives.OpensOnly ({firstSeal server} : Set (SealCall 8)) := by
    intro key nonce aad ciphertext plaintext opened
    simp only [firstPrimitives, recordPrimitives, Option.ite_none_right_eq_some,
      Option.some.injEq] at opened
    obtain ⟨⟨rfl, rfl, rfl, rfl⟩, rfl⟩ := opened
    exact ⟨_, rfl, asks, rfl⟩
  obtain ⟨-, call, member, answers, -⟩ :=
    (response_bound derived ideal).1 _ _ rfl msg _ out n firstRequest accepted
  exact ⟨server, client, msg, n, out, made, derived, accepted, call, member, answers⟩

end Coaptic.Oscore
