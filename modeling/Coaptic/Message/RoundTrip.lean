import Coaptic.Message.Parse

/-!
# Encoding and decoding are inverse

The encoder writes the datagram of a message, the decoder accepts exactly the datagrams of
well-formed messages. Both directions of the correspondence follow: a written message is
read back, and an accepted datagram is written back.
-/
namespace Coaptic.Codec

open Parts (ofMessage)

variable {maxLen : Nat}

/-! ### Messages behind the decoded views -/

def Datagram.view (datagram : Datagram) : ExtendedMessage where
  ty := datagram.header.ty
  code := datagram.header.code
  id := datagram.header.id
  token := datagram.token
  options := datagram.options
  payload := datagram.payload

def ParsedMessage.view (msg : ParsedMessage maxLen) : ExtendedMessage where
  ty := msg.header.ty
  code := msg.header.code
  id := msg.header.id
  token := msg.token.bytes
  options := msg.options
  payload := msg.payload

def Message.view (msg : Message maxLen) : ExtendedMessage where
  ty := msg.ty
  code := msg.code
  id := msg.id
  token := msg.token.bytes
  options := msg.options
  payload := msg.payload

variable {msg : ExtendedMessage} {buf out value : List UInt8} {delta i j n : Nat}
  {field : UInt8 × List UInt8 × Nat}

theorem extendedDecode_wire (wf : msg.WellFormed) :
    ∃ datagram, extendedDecode (wire msg) = .ok datagram ∧ datagram.view = msg := by
  refine ⟨⟨(ofMessage msg).header, msg.token, optionsWire 0 msg.options, msg.payload⟩, ?_, ?_⟩
  · rw [extendedDecode, decodeParts_complete wf (.inl rfl)]
    rfl
  · simp only [Datagram.view, Datagram.options, options_optionsWire wf.optionsFollow, ofMessage]

theorem decode_wire (wf : msg.WellFormed) (short : msg.token.length ≤ 8) :
    ∃ parsed, decode (wire msg) = .ok parsed ∧ parsed.view = msg := by
  refine ⟨⟨(ofMessage msg).header, Token.fromChecked msg.token,
    optionsWire 0 msg.options, msg.payload⟩, ?_, ?_⟩
  · rw [decode, decodeParts_complete wf (.inr short)]
    rfl
  · simp only [ParsedMessage.view, ParsedMessage.options, options_optionsWire wf.optionsFollow,
      ofMessage, Token.fromChecked_bytes _ short]

theorem extendedDecode_sound {datagram : Datagram} (h : extendedDecode buf = .ok datagram) :
    datagram.view.WellFormed ∧ buf = wire datagram.view := by
  obtain ⟨parts, decoded, ⟨⟩⟩ := Result.bind_eq_ok.mp h
  obtain ⟨msg, wf, -, rfl, rfl⟩ := decodeParts_sound decoded
  have view : (Datagram.mk (ofMessage msg).header (ofMessage msg).token
      (ofMessage msg).options (ofMessage msg).payload).view = msg := by
    simp only [Datagram.view, Datagram.options, ofMessage, options_optionsWire wf.optionsFollow]
  rw [view]
  exact ⟨wf, rfl⟩

theorem decode_sound {parsed : ParsedMessage 8} (h : decode buf = .ok parsed) :
    parsed.view.WellFormed ∧ buf = wire parsed.view := by
  obtain ⟨parts, decoded, ⟨⟩⟩ := Result.bind_eq_ok.mp h
  obtain ⟨msg, wf, mode, rfl, rfl⟩ := decodeParts_sound decoded
  have short : msg.token.length ≤ 8 := by simpa using mode
  have view : (ParsedMessage.mk (ofMessage msg).header
      (Token.fromChecked (ofMessage msg).token) (ofMessage msg).options
      (ofMessage msg).payload).view = msg := by
    simp only [ParsedMessage.view, ParsedMessage.options, ofMessage,
      options_optionsWire wf.optionsFollow, Token.fromChecked_bytes _ short]
  rw [view]
  exact ⟨wf, rfl⟩

/-- The first emptiness check of `encode` repeats the one of the shared encoder. -/
theorem encode_eq_view_encode (msg : Message maxLen) (wf : msg.view.WellFormed) (buf : List UInt8) :
    encode msg buf = msg.view.encode buf := by
  rw [encode, if_neg]
  · rfl
  rw [Bool.and_eq_true]
  rintro ⟨empty, rest⟩
  obtain ⟨token, options, payload⟩ := wf.empty empty
  simp only [Message.view] at token options payload
  simp [OwnedToken.isEmpty, token, options, payload] at rest

/-! ### Write, then read -/

/-- What an encoder owes the message `msg`, given the outcome of writing it into `buf`: it
succeeds exactly when the datagram fits, returns the datagram's length, and the bytes it
wrote decode to the same message. -/
def RoundTrips (msg : ExtendedMessage) (buf : List UInt8) (written : Written) : Prop :=
  ((∃ n, written.1 = .ok n) ↔ (wire msg).length ≤ buf.length) ∧
    ∀ n, written.1 = .ok n → n = (wire msg).length ∧
      (∃ datagram, extendedDecode (written.2.take n) = .ok datagram ∧ datagram.view = msg) ∧
      (msg.token.length ≤ 8 → ∃ parsed, decode (written.2.take n) = .ok parsed ∧ parsed.view = msg)

theorem roundTrips_encode (wf : msg.WellFormed) (buf : List UInt8) :
    RoundTrips msg buf (msg.encode buf) := by
  have spec := encodeTokenIter_of_wellFormed msg wf buf
  by_cases full : buf.length < (wire msg).length
  · rw [if_pos full] at spec
    obtain ⟨out, refused⟩ := spec
    rw [refused]
    refine ⟨⟨?_, fun fits => absurd full (Nat.not_lt.mpr fits)⟩, ?_⟩
    · rintro ⟨n, ⟨⟩⟩
    · rintro n ⟨⟩
  rw [if_neg full] at spec
  rw [spec]
  refine ⟨⟨fun _ => Nat.not_lt.mp full, fun _ => ⟨_, rfl⟩⟩, ?_⟩
  rintro n ⟨⟩
  rw [List.take_left]
  exact ⟨rfl, extendedDecode_wire wf, decode_wire wf⟩

/-- Every message the format can carry is encoded into any buffer that holds its datagram,
by either encoder, and decodes back to itself. -/
theorem encode_roundTrips (msg : ExtendedMessage) (wf : msg.WellFormed) (buf : List UInt8) :
    RoundTrips msg buf (msg.encode buf) ∧
      ∀ (maxLen : Nat) (owned : Message maxLen), owned.view = msg →
        RoundTrips msg buf (encode owned buf) := by
  refine ⟨roundTrips_encode wf buf, ?_⟩
  rintro maxLen owned rfl
  rw [encode_eq_view_encode owned wf buf]
  exact roundTrips_encode wf buf

/-- A piggybacked response with two equal option numbers, written into a larger buffer. -/
theorem encode_roundTrips_content :
    let msg : ExtendedMessage := ⟨.acknowledgement, ⟨0x45⟩, 0x1234, [1, 2, 3],
      [⟨4, [9]⟩, ⟨4, [8]⟩, ⟨292, [7, 7]⟩], [0xFF]⟩
    msg.WellFormed ∧ RoundTrips msg (List.replicate 20 0) (msg.encode (List.replicate 20 0)) := by
  intro msg
  have wf : msg.WellFormed := ⟨by decide, by decide, by decide, by decide⟩
  exact ⟨wf, (encode_roundTrips msg wf (List.replicate 20 0)).1⟩

/-! ### What the encoder accepted -/

theorem extNibble_sound (h : extNibble n = .ok field) : n ≤ maxExtended := by
  simp only [extNibble] at h
  split at h
  · simp only [maxExtended]
    omega
  split at h
  · simp only [maxExtended]
    omega
  split at h
  · assumption
  · cases h

theorem encodeLength_sound (h : encodeLength n = .ok field) : n ≤ maxTokenLen := by
  simp only [encodeLength] at h
  split at h
  · split at h
    next accepted => exact extNibble_sound accepted
    · cases h
  · cases h

theorem writeOption_sound (h : writeOption buf i delta value = (.ok j, out)) :
    delta ≤ maxExtended ∧ value.length ≤ maxExtended := by
  simp only [writeOption] at h
  split at h
  · split at h
    · cases h
    next deltaField =>
    split at h
    · cases h
    next valueField => exact ⟨extNibble_sound deltaField, extNibble_sound valueField⟩
  · cases h

/-- A successful write of one option leaves exactly its bytes. -/
theorem writeOption_ok {front rest : List UInt8}
    (h : writeOption (front ++ rest) front.length delta value = (.ok j, out)) :
    value.length ≤ maxExtended ∧ (optionWire delta value).length ≤ rest.length ∧
      j = (front ++ optionWire delta value).length ∧
      out = (front ++ optionWire delta value) ++ rest.drop (optionWire delta value).length := by
  obtain ⟨deltaLe, valueLe⟩ := writeOption_sound h
  rw [writeOption_of_le front rest delta value deltaLe valueLe] at h
  split at h
  · cases h
  next fits =>
  cases h
  exact ⟨valueLe, Nat.not_lt.mp fits, by simp, rfl⟩

theorem writeOptions_sound {prev : Nat} {opts : List Opt} (inside : i ≤ buf.length)
    (h : writeOptions buf i prev opts = (.ok n, out)) : OptionsFollow prev opts := by
  induction opts generalizing buf i prev with
  | nil => exact trivial
  | cons opt opts ih =>
  obtain ⟨front, rest, rfl, rfl⟩ : ∃ front rest, buf = front ++ rest ∧ i = front.length :=
    ⟨buf.take i, buf.drop i, (List.take_append_drop i buf).symm, by simp [inside]⟩
  simp only [writeOptions] at h
  split at h
  · cases h
  next above =>
  split at h
  · cases h
  next written =>
  obtain ⟨short, -, rfl, rfl⟩ := writeOption_ok written
  exact ⟨Nat.not_lt.mp above, short, ih (by simp) h⟩

theorem ExtendedMessage.wellFormed_of_encode (h : msg.encode buf = (.ok n, out)) :
    msg.WellFormed := by
  simp only [ExtendedMessage.encode, encodeTokenIter] at h
  split at h
  · cases h
  next field =>
  split at h
  · cases h
  next guard =>
  split at h
  · cases h
  next roomy =>
  split at h
  · cases h
  next written =>
  have follow := writeOptions_sound (by simp [Bytes.writeAt]; omega) written
  obtain ⟨-, ascending, values⟩ := (optionsFollow_iff 0 msg.options).mp follow
  refine ⟨encodeLength_sound field, ascending, values, ?_⟩
  intro empty
  simp only [empty, Bool.true_and, Bool.or_eq_true, Bool.not_eq_true', not_or,
    Bool.not_eq_false, List.isEmpty_iff] at guard
  exact ⟨guard.1.1, guard.2, guard.1.2⟩

/-- A write that succeeded was not refused by its specification. -/
theorem ok_of_spec {full : Prop} [Decidable full] {e : EncodeError} {w written : Written}
    (spec : if full then ∃ out, w = (.error e, out) else w = written) (h : w = (.ok n, out)) :
    ¬ full ∧ written = (.ok n, out) := by
  split at spec
  · obtain ⟨out, refused⟩ := spec
    cases refused.symm.trans h
  next fits => exact ⟨fits, spec.symm.trans h⟩

/-- A message that was encoded is well formed, and its datagram stands at the start of the
buffer. -/
theorem encode_ok {msg : Message maxLen} (h : encode msg buf = (.ok n, out)) :
    msg.view.WellFormed ∧ (wire msg.view).length ≤ buf.length ∧ n = (wire msg.view).length ∧
      out = wire msg.view ++ buf.drop (wire msg.view).length := by
  have shared : encode msg buf = msg.view.encode buf := by
    simp only [encode] at h ⊢
    split at h
    · cases h
    next guard => rw [if_neg guard]; rfl
  rw [shared] at h
  have wf := ExtendedMessage.wellFormed_of_encode h
  obtain ⟨fits, same⟩ := ok_of_spec (encodeTokenIter_of_wellFormed msg.view wf buf) h
  cases same
  exact ⟨wf, Nat.not_lt.mp fits, rfl, rfl⟩

theorem decodeWithToken_wire (wf : msg.WellFormed) (short : msg.token.length ≤ maxLen) :
    ∃ parsed, decodeWithToken maxLen (wire msg) = .ok parsed ∧ parsed.view = msg := by
  refine ⟨⟨(ofMessage msg).header, ⟨msg.token, short⟩, optionsWire 0 msg.options,
    msg.payload⟩, ?_, ?_⟩
  · simp only [decodeWithToken, decodeParts_complete wf (.inl rfl), OwnedToken.tryFromBytes,
      ofMessage, dif_pos short]
  · simp only [ParsedMessage.view, ParsedMessage.options, options_optionsWire wf.optionsFollow,
      ofMessage]

/-! ### Read, then write -/

theorem encode_view_of_wire (wf : msg.WellFormed) (room : (wire msg).length ≤ out.length) :
    msg.encode out = (.ok (wire msg).length, wire msg ++ out.drop (wire msg).length) := by
  have spec := encodeTokenIter_of_wellFormed msg wf out
  rwa [if_neg (Nat.not_lt.mpr room)] at spec

/-- The wire format is canonical. Re-encoding what either decoder accepted reproduces the
datagram, and datagrams that show the same message are the same bytes. -/
theorem decode_canonical (buf : List UInt8) :
    (∀ datagram, extendedDecode buf = .ok datagram → ∀ out, buf.length ≤ out.length →
      datagram.encode out = (.ok buf.length, buf ++ out.drop buf.length)) ∧
    (∀ parsed, decode buf = .ok parsed → ∀ out, buf.length ≤ out.length →
      parsed.encode out = (.ok buf.length, buf ++ out.drop buf.length)) ∧
    (∀ other datagram datagram', extendedDecode buf = .ok datagram →
      extendedDecode other = .ok datagram' → datagram.view = datagram'.view → buf = other) ∧
    (∀ other parsed parsed', decode buf = .ok parsed → decode other = .ok parsed' →
      parsed.view = parsed'.view → buf = other) := by
  refine ⟨?_, ?_, ?_, ?_⟩
  · intro datagram accepted out room
    obtain ⟨wf, bytes⟩ := extendedDecode_sound accepted
    rw [bytes] at room ⊢
    exact encode_view_of_wire wf room
  · intro parsed accepted out room
    obtain ⟨wf, bytes⟩ := decode_sound accepted
    rw [bytes] at room ⊢
    exact encode_view_of_wire wf room
  · intro other datagram datagram' accepted accepted' same
    rw [(extendedDecode_sound accepted).2, (extendedDecode_sound accepted').2, same]
  · intro other parsed parsed' accepted accepted' same
    rw [(decode_sound accepted).2, (decode_sound accepted').2, same]

/-- A GET for `/a/b` with a two-byte token, its datagram and the view decoded from it. -/
theorem decode_canonical_get :
    let bytes : List UInt8 := [0x42, 0x01, 0x12, 0x34, 0xAA, 0xBB, 0xB1, 0x61, 0x01, 0x62]
    ∃ parsed, decode bytes = .ok parsed ∧
      parsed.encode (List.replicate 12 0) = (.ok 10, bytes ++ [0, 0]) := by
  intro bytes
  have accepted : ∃ parsed, decode bytes = .ok parsed := ⟨_, rfl⟩
  obtain ⟨parsed, accepted⟩ := accepted
  exact ⟨parsed, accepted, (decode_canonical bytes).2.1 parsed accepted _ (by decide)⟩

end Coaptic.Codec
