import Coaptic.Provisioning.CloudFlush
import Coaptic.Message.RoundTrip

/-!
# Saved replies of a shared listener

A reply always fits its datagram. A datagram that saved state answers queues a reply that was saved
for the very same datagram, or is a late error of the peer, or changes nothing.
-/
namespace Coaptic.Provisioning

open Codec Result Bytes List Message

variable {prim : Primitives} {edhoc : Edhoc prim} {ε : Type}

/-! ### Replies always fit -/

section Replies

variable {parsed : ParsedMessage 8}

theorem length_optionWire_le {delta : Nat} {value : List UInt8} (near : delta < 269)
    (short : value.length < 269) : (optionWire delta value).length ≤ value.length + 3 := by
  simp only [optionWire, extField, length_cons, length_append]
  have far : ¬269 ≤ delta := Nat.not_le.mpr near
  split <;> split <;> simp <;> omega

theorem length_headerWire_le {msg : ExtendedMessage} (short : msg.token.length ≤ 8) :
    (headerWire msg).length ≤ 12 := by
  have compact : msg.token.length < 13 := by omega
  simp only [headerWire, extField, compact, if_true, ofBe16, length_cons, length_append,
    length_nil]
  omega

theorem length_payloadWire_le (payload : List UInt8) :
    (payloadWire payload).length ≤ payload.length + 1 := by
  simp only [payloadWire]
  split
  · simp
  · simp

theorem responseOptions_cases (payload : List UInt8) {echo : Option (List UInt8)}
    (short : ∀ value, echo = some value → value.length ≤ echoLen) :
    responseOptions payload echo = [] ∨ ∃ option, responseOptions payload echo = [option] ∧
      option.number.toNat < 269 ∧ option.value.length ≤ echoLen := by
  cases echo with
  | some value =>
    exact .inr ⟨_, rfl, (by decide : OptionNumber.echo.toNat < 269), short value rfl⟩
  | none =>
  simp only [responseOptions]
  split
  · exact .inl rfl
  · exact .inr ⟨_, rfl, by decide, by decide⟩

section

variable {code : Code} {payload : List UInt8} {echo : Option (List UInt8)}
  (shortEcho : ∀ value, echo = some value → value.length ≤ echoLen)

include shortEcho

theorem wellFormed_responseMessage (nonempty : code.isEmpty = false) :
    (responseMessage parsed code payload echo).view.WellFormed := by
  refine ⟨parsed.token.length_le.trans (by decide), ?_, ?_,
    by simp [view, responseMessage, nonempty]⟩
  · simp only [view, responseMessage]
    obtain none | ⟨option, one, -⟩ := responseOptions_cases payload shortEcho
    · simp [none]
    · simp [one]
  intro option member
  simp only [view, responseMessage] at member
  obtain none | ⟨only, one, -, short⟩ := responseOptions_cases payload shortEcho
  · simp [none] at member
  rw [one, mem_singleton] at member
  rw [member]
  exact short.trans (by decide)

theorem length_responseMessage_le (short : payload.length ≤ maxMessageSizeLen) :
    (wire (responseMessage parsed code payload echo).view).length ≤ datagramCapacity := by
  have head : (headerWire (responseMessage parsed code payload echo).view).length ≤ 12 :=
    length_headerWire_le parsed.token.length_le
  have tail := length_payloadWire_le payload
  have middle : (optionsWire 0 (responseOptions payload echo)).length ≤ echoLen + 3 := by
    obtain none | ⟨option, one, near, small⟩ := responseOptions_cases payload shortEcho
    · simp [none, optionsWire]
    have size : (optionWire (option.number.toNat - 0) option.value).length ≤
        option.value.length + 3 :=
      length_optionWire_le (by omega) (small.trans_lt (by decide))
    simp only [one, optionsWire, append_nil]
    omega
  simp only [maxMessageSizeLen] at short
  simp only [echoLen] at middle
  simp only [wire, length_append, datagramCapacity]
  simp only [view, responseMessage] at head ⊢
  omega

variable (parsed code payload echo) in
/-- A reply with no more than an Echo value or a handshake message is written. -/
theorem response_isOk (nonempty : code.isEmpty = false)
    (short : payload.length ≤ maxMessageSizeLen) :
    ∃ reply, (response parsed code payload echo : Except (CloudError ε) Wire) = .ok reply := by
  have wf : (responseMessage parsed code payload echo).view.WellFormed :=
    wellFormed_responseMessage shortEcho nonempty
  have fits : (wire (responseMessage parsed code payload echo).view).length ≤ datagramCapacity :=
    length_responseMessage_le shortEcho short
  rw [response]
  -- the buffer by its length: it is too long to be evaluated
  generalize blank : replicate datagramCapacity (0 : UInt8) = buffer
  have room : ¬buffer.length < (wire (responseMessage parsed code payload echo).view).length := by
    rw [← blank, length_replicate]
    exact Nat.not_lt.mpr fits
  have written := encodeTokenIter_of_wellFormed _ wf buffer
  rw [if_neg room] at written
  rw [encode_eq_view_encode _ wf, written]
  simp only [take_left, Wire.copy, fits, dite_true]
  exact ⟨_, rfl⟩

end

variable (parsed)

theorem exchange_eq_ok (request : Wire) (message : EdhocMessage) (expires : Nat) :
    ∃ reply, (exchange request parsed message expires : Except (CloudError ε) Exchange) =
      .ok ⟨request, some reply, parsed.header.id, expires, true, none⟩ := by
  obtain ⟨reply, written⟩ :=
    response_isOk (ε := ε) parsed .changed message.bytes none (by simp) (by decide) message.length_le
  exact ⟨reply, by rw [exchange, written]; rfl⟩

theorem errorExchange_eq_ok (request : Wire) (expires : Nat) (failure : MessageFailure) :
    ∃ reply, (errorExchange request parsed expires failure : Except (CloudError ε) Exchange) =
      .ok ⟨request, some reply, parsed.header.id, expires, true,
        some (.localFailure failure.error)⟩ := by
  have short : failure.payload.length ≤ maxMessageSizeLen := by
    simp only [MessageFailure.payload]
    split <;> decide
  have nonempty : failure.responseCode.isEmpty = false := by
    simp only [MessageFailure.responseCode]
    split <;> decide
  obtain ⟨reply, written⟩ :=
    response_isOk (ε := ε) parsed failure.responseCode failure.payload none (by simp) nonempty short
  exact ⟨reply, by rw [errorExchange, written]; rfl⟩

theorem abortExchange_eq_ok (request : Wire) (expires : Nat) (code : PeerErrorCode) :
    ∃ reply, (abortExchange request parsed expires code : Except (CloudError ε) Exchange) =
      .ok ⟨request, some reply, parsed.header.id, expires, true, some (.peer code)⟩ := by
  obtain ⟨reply, written⟩ :=
    response_isOk (ε := ε) parsed .changed [] none (by simp) (by decide) (by decide)
  exact ⟨reply, by rw [abortExchange, written]; rfl⟩

end Replies

/-! ### Replies queued again -/

namespace Exchanges

/-- One exchange is queued, and nothing else changes. -/
inductive Queues (xs : Exchanges) (x : Exchange) : Exchanges → Prop
  | first (held : xs.first = some x) : Queues xs x { xs with first := some { x with queued := true } }
  | second (held : xs.second = some x) :
    Queues xs x { xs with second := some { x with queued := true } }

variable {xs : Exchanges} {x : Exchange}

theorem mem_toList : x ∈ xs.toList ↔ xs.first = some x ∨ xs.second = some x := by
  simp [toList, eq_comm]

theorem Queues.mem {ys : Exchanges} (queues : xs.Queues x ys) : x ∈ xs.toList := by
  cases queues with
  | first held => exact mem_toList.mpr (.inl held)
  | second held => exact mem_toList.mpr (.inr held)

end Exchanges

namespace Exchange

variable {x : Exchange} {bytes : List UInt8} {mid : MessageId} {now : Nat}

theorem classify_eq_some {x' : Exchange} {queued : Bool}
    (classified : x.classify bytes mid now = some (queued, x')) :
    now < x.expires ∧ x.mid = mid ∧ ((queued = false ∧ x' = x) ∨
      (queued = true ∧ x.request.bytes = bytes ∧ x.response.isSome = true ∧
        x' = { x with queued := true })) := by
  simp only [classify] at classified
  split at classified
  · cases classified
  next live =>
  simp only [not_or, Nat.not_le, not_not] at live
  refine ⟨live.1, live.2.symm, ?_⟩
  by_cases exact_ : x.request.bytes = bytes ∧ x.response.isSome = true
  · simp only [exact_, decide_true, and_self, if_true, Option.some.injEq, Prod.mk.injEq] at classified
    exact .inr ⟨classified.1.symm, exact_.1, exact_.2, classified.2.symm⟩
  · simp only [exact_, decide_false, if_false, Option.some.injEq, Prod.mk.injEq] at classified
    exact .inl ⟨classified.1.symm, classified.2.symm⟩

theorem classify_eq_none : x.classify bytes mid now = none ↔ x.expires ≤ now ∨ mid ≠ x.mid := by
  simp only [classify]
  split
  next dead => simp [dead]
  next live => simp [live]

end Exchange

namespace Exchanges

variable {xs : Exchanges} {bytes : List UInt8} {mid : MessageId} {now : Nat}

theorem classify_eq_some {ys : Exchanges} {queued : Bool}
    (classified : xs.classify bytes mid now = some (queued, ys)) : (queued = false ∧ ys = xs) ∨
      (queued = true ∧ ∃ x, xs.Queues x ys ∧ x.request.bytes = bytes ∧ x.response.isSome = true ∧
        x.mid = mid ∧ now < x.expires) := by
  revert classified
  fun_cases classify xs bytes mid now with
  | case1 flag x' found | case2 _ flag x' found =>
    rintro ⟨⟩
    obtain ⟨x, held, one⟩ := Option.bind_eq_some_iff.mp found
    obtain ⟨live, same, ⟨rfl, rfl⟩ | ⟨rfl, equal, some_, rfl⟩⟩ := Exchange.classify_eq_some one
    · exact .inl ⟨rfl, by cases xs; cases held; rfl⟩
    · exact .inr ⟨rfl, x, by constructor; exact held, equal, some_, same, live⟩
  | case3 => exact nofun

/-- What is not classified is not under the message ID of a live exchange. -/
theorem classify_eq_none (unknown : xs.classify bytes mid now = none) {x : Exchange}
    (mem : x ∈ xs.toList) : x.expires ≤ now ∨ mid ≠ x.mid := by
  simp only [classify] at unknown
  split at unknown
  · cases unknown
  next none_ =>
  split at unknown
  · cases unknown
  next none' =>
  refine Exchange.classify_eq_none.mp (?_ : x.classify bytes mid now = none)
  obtain held | held := mem_toList.mp mem
  · simpa [held] using none_
  · simpa [held] using none'

end Exchanges

/-- A reply is queued again that was saved for the very same datagram. -/
inductive Replays (xs : Exchanges) (final : Option ErrorReceipt) (bytes : List UInt8) :
    Exchanges → Option ErrorReceipt → Prop
  | exchange {x : Exchange} {ys : Exchanges} (queues : xs.Queues x ys)
      (equal : x.request.bytes = bytes) (some_ : x.response.isSome = true) :
    Replays xs final bytes ys final
  | receipt {r : ErrorReceipt} (held : final = some r) (equal : r.request.bytes = bytes) :
    Replays xs final bytes xs (some { r with pending := true })

theorem ErrorReceipt.queue_eq_true {r r' : ErrorReceipt} {bytes : List UInt8} {now : Nat}
    (queued : r.queue bytes now = (true, r')) :
    r' = { r with pending := true } ∧ r.request.bytes = bytes := by
  revert queued
  fun_cases queue r bytes now with
  | case1 => exact nofun
  | case2 exact_ =>
  rintro ⟨⟩
  refine ⟨rfl, ?_⟩
  revert exact_
  fun_cases classify r bytes now with
  | case3 _ _ same => exact fun _ => same
  | _ => exact fun exact_ => absurd nofun exact_

variable {wire : Wire} {mid : MessageId} {now : Nat} {reserved : Bool}
  {status : Except (CloudError ε) Status}

theorem Pending.answer_cases {p p' : Pending edhoc}
    (answered : p.answer wire mid now reserved = some (status, p')) :
    ((status = .ok .ignored ∨ status = .error .clock) ∧ p' = p) ∨
      (status = .ok .progress ∧ ∃ ys final, Replays p.exchanges p.finalError wire.bytes ys final ∧
        p' = { p with exchanges := ys, finalError := final }) ∨
      (reserved = false ∧ p.ready.isSome = true ∧ p.exchanges.anyQueued = false ∧
        p.finalError = none ∧ ∃ parsed code, lateError wire.bytes p.localId = some (parsed, code) ∧
          p' = p.late wire parsed code (now + exchangeLifetimeMs) ∧ status = .ok .progress) := by
  revert answered
  fun_cases answer p wire mid now reserved with
  | case1 queued ys classified =>
    rintro ⟨⟩
    obtain ⟨rfl, rfl⟩ | ⟨rfl, x, queues, equal, some_, same, live⟩ :=
      Exchanges.classify_eq_some classified
    · exact .inl ⟨.inl rfl, rfl⟩
    · exact .inr (.inl ⟨rfl, ys, _, .exchange queues equal some_, rfl⟩)
  | case3 _ r held _ r' queued =>
    rintro ⟨⟩
    obtain ⟨rfl, equal⟩ := r.queue_eq_true queued
    exact .inr (.inl ⟨rfl, _, _, .receipt held equal, rfl⟩)
  | case4 =>
    rintro ⟨⟩
    exact .inl ⟨.inl rfl, rfl⟩
  | case6 =>
    rintro ⟨⟩
    exact .inl ⟨.inr rfl, rfl⟩
  | case7 _ none_ fresh parsed code late expires sum =>
    rintro ⟨⟩
    obtain ⟨-, rfl⟩ := exchangeExpiry_eq_some.mp sum
    exact .inr (.inr ⟨fresh.1, fresh.2.1, fresh.2.2, none_, parsed, code, late, rfl, rfl⟩)
  | _ => exact nofun

theorem Retained.answer_cases {r r' : Retained}
    (answered : r.answer wire mid now reserved = some (status, r')) :
    ((status = .ok .ignored ∨ status = .error .clock) ∧ r' = r) ∨
      (status = .ok .progress ∧ ∃ ys final, Replays r.exchanges r.finalError wire.bytes ys final ∧
        r' = { r with exchanges := ys, finalError := final }) ∨
      (reserved = false ∧ r.finalError = none ∧
        ∃ parsed code, lateError wire.bytes r.association.localId = some (parsed, code) ∧
          r' = r.late wire parsed code (now + exchangeLifetimeMs) ∧ status = .ok .progress) := by
  revert answered
  fun_cases answer r wire mid now reserved with
  | case1 queued ys classified =>
    rintro ⟨⟩
    obtain ⟨rfl, rfl⟩ | ⟨rfl, x, queues, equal, some_, same, live⟩ :=
      Exchanges.classify_eq_some classified
    · exact .inl ⟨.inl rfl, rfl⟩
    · exact .inr (.inl ⟨rfl, ys, _, .exchange queues equal some_, rfl⟩)
  | case4 _ receipt held _ _ receipt' queued =>
    rintro ⟨⟩
    obtain ⟨rfl, equal⟩ := receipt.queue_eq_true queued
    exact .inr (.inl ⟨rfl, _, _, .receipt held equal, rfl⟩)
  | case7 =>
    rintro ⟨⟩
    exact .inl ⟨.inr rfl, rfl⟩
  | case8 _ none_ fresh parsed code late expires sum =>
    rintro ⟨⟩
    obtain ⟨-, rfl⟩ := exchangeExpiry_eq_some.mp sum
    exact .inr (.inr ⟨fresh.1, none_, parsed, code, late, rfl, rfl⟩)
  | case2 | case6 | case9 => exact nofun
  | _ =>
    rintro ⟨⟩
    exact .inl ⟨.inl rfl, rfl⟩

end Coaptic.Provisioning
