import Coaptic.Message.RoundTrip
import Coaptic.Oscore.Protect

/-!
# What a sealed datagram is

Both sealing paths leave the same datagram: the outer message with the encrypted inner message
as its payload. Neither the path nor what the buffers held before shows in it.
-/
namespace Coaptic.Codec

/-- A successful write of the payload leaves exactly its bytes. -/
theorem writePayload_ok {front rest out payload : List UInt8} {n : Nat}
    (h : writePayload (front ++ rest) front.length payload = (.ok n, out)) :
    (payloadWire payload).length ≤ rest.length ∧ n = (front ++ payloadWire payload).length ∧
      out = (front ++ payloadWire payload) ++ rest.drop (payloadWire payload).length := by
  obtain ⟨fits, same⟩ := ok_of_spec (writePayload_eq front rest payload) h
  cases same
  exact ⟨Nat.not_lt.mp fits, by simp, rfl⟩

/-- A successful write of the options leaves exactly their bytes. -/
theorem writeOptions_ok {front rest out : List UInt8} {prev n : Nat} {opts : List Opt}
    (h : writeOptions (front ++ rest) front.length prev opts = (.ok n, out)) :
    OptionsFollow prev opts ∧ (optionsWire prev opts).length ≤ rest.length ∧
      n = (front ++ optionsWire prev opts).length ∧
      out = (front ++ optionsWire prev opts) ++ rest.drop (optionsWire prev opts).length := by
  have follow := writeOptions_sound (by simp) h
  obtain ⟨fits, same⟩ := ok_of_spec (writeOptions_of_follow front rest prev opts follow) h
  cases same
  exact ⟨follow, Nat.not_lt.mp fits, by simp, rfl⟩

end Coaptic.Codec

namespace Coaptic.Oscore

open Codec Bytes List

variable {maxLen : Nat}

/-! ### The inner message -/

/-- Options that travel encrypted. -/
def travelsInner (opt : Opt) : Bool := !isOscore opt.number && (classify opt.number).inPlaintext

section

variable (notify : Bool) (opt : Opt)

/-- A notification's Observe travels without its value. -/
def emptyObserve : Opt :=
  if opt.number == 6 && notify then { opt with value := [] } else opt

def innerOptionsOf (opts : List Opt) : List Opt :=
  (opts.filter travelsInner).map (emptyObserve notify)

def innerOptions (plain : Message maxLen) : List Opt :=
  innerOptionsOf plain.code.isResponse plain.options

/-- Plaintext of the AEAD: the code, the inner options and the payload. -/
def plainWire (plain : Message maxLen) : List UInt8 :=
  plain.code.raw :: (optionsWire 0 (innerOptions plain) ++ payloadWire plain.payload)

@[simp] theorem emptyObserve_number : (emptyObserve notify opt).number = opt.number := by
  simp only [emptyObserve]
  split
  · rfl
  · rfl

theorem emptyObserve_value :
    (emptyObserve notify opt).value = if opt.number == 6 && notify then [] else opt.value := by
  simp only [emptyObserve]
  split
  · rfl
  · rfl

end

variable {ciphertext out out' rest : List UInt8} {n : Nat} {opts : List Opt}
  {plain : Message maxLen} {params : SealParams} {prim : Primitives}

/-- The loop over the inner options is the encoder's own loop over those that travel encrypted. -/
theorem plaintextOptions_eq (notify : Bool) (out : List UInt8) (i prev : Nat) (opts : List Opt) :
    plaintextOptions notify out i prev opts =
      (writeOptions out i prev (innerOptionsOf notify opts)).map (Except.mapError .encode) id := by
  induction opts generalizing out i prev with
  | nil => rfl
  | cons opt opts ih =>
  simp only [plaintextOptions]
  split
  next skipped =>
    have outside : travelsInner opt = false := by
      rw [travelsInner, ← Bool.not_eq_true', Bool.not_and, Bool.not_not]
      exact skipped
    simpa [innerOptionsOf, outside] using ih out i prev
  next taken =>
  have inside : travelsInner opt = true := by
    simpa [travelsInner, Bool.or_eq_true, not_or] using taken
  have list : innerOptionsOf notify (opt :: opts) =
      emptyObserve notify opt :: innerOptionsOf notify opts := by
    simp [innerOptionsOf, inside]
  rw [list, writeOptions, emptyObserve_number, emptyObserve_value]
  split
  · rfl
  generalize writeOption out i _ _ = written
  obtain ⟨e | j, out⟩ := written
  · rfl
  · exact ih out j _

theorem encodePlaintext_cons (byte : UInt8) (out : List UInt8) :
    encodePlaintext plain (byte :: out) =
      match writeOptions ([plain.code.raw] ++ out) [plain.code.raw].length 0 (innerOptions plain) with
      | (.error e, out) => (.error (.encode e), out)
      | (.ok i, out) =>
        match writePayload out i plain.payload with
        | (.error _, out) => (.error .bufferTooSmall, out)
        | (.ok i, out) => (.ok i, out) := by
  have code : writeAt (byte :: out) 0 [plain.code.raw] = [plain.code.raw] ++ out := by
    simp [writeAt]
  simp only [encodePlaintext, reduceCtorEq, if_false, code, plaintextOptions_eq, innerOptions,
    length_singleton]
  generalize writeOptions _ _ _ _ = result
  obtain ⟨e | i, out⟩ := result
  · rfl
  · rfl

theorem encodePlaintext_ok (h : encodePlaintext plain out = (.ok n, out')) :
    OptionsFollow 0 (innerOptions plain) ∧ (plainWire plain).length ≤ out.length ∧
      n = (plainWire plain).length ∧ out' = plainWire plain ++ out.drop (plainWire plain).length := by
  cases out with
  | nil => cases h
  | cons byte out =>
  rw [encodePlaintext_cons] at h
  split at h
  · cases h
  next options =>
  obtain ⟨follow, fits, rfl, rfl⟩ := writeOptions_ok options
  split at h
  · cases h
  next filled =>
  cases h
  obtain ⟨fits', rfl, rfl⟩ := writePayload_ok filled
  simp only [length_drop] at fits'
  simp only [plainWire, length_cons, length_append]
  refine ⟨follow, by omega, by simp; omega, by simp⟩

theorem encodePlaintext_of_follow (follow : OptionsFollow 0 (innerOptions plain))
    (fits : (plainWire plain).length ≤ out.length) :
    (encodePlaintext plain out).1 = .ok (plainWire plain).length := by
  cases out with
  | nil => simp [plainWire] at fits
  | cons byte out =>
  simp only [plainWire, length_cons, length_append] at fits ⊢
  have options := writeOptions_of_follow [plain.code.raw] out 0 _ follow
  rw [if_neg (by omega)] at options
  have payload := writePayload_eq ([plain.code.raw] ++ optionsWire 0 (innerOptions plain))
    (out.drop (optionsWire 0 (innerOptions plain)).length) plain.payload
  rw [if_neg (by rw [length_drop]; omega), length_append] at payload
  simp only [encodePlaintext_cons, options, payload]
  exact congrArg Except.ok (by rw [length_singleton]; omega)

/-! ### The outer message -/

def outerView (plain : Message maxLen) (opts : List Opt) (ciphertext : List UInt8) :
    ExtendedMessage where
  ty := plain.ty
  code := outerCode plain.code plain.options
  id := plain.id
  token := plain.token.bytes
  options := opts
  payload := ciphertext

theorem outerCode_isEmpty (inner : Code) (opts : List Opt) :
    (outerCode inner opts).isEmpty = false := by
  simp only [outerCode]
  split
  · split
    · rfl
    · rfl
  split
  · rfl
  · rfl

theorem outerView_wellFormed {c c' : List UInt8} (wf : (outerView plain opts c).WellFormed) :
    (outerView plain opts c').WellFormed := by
  refine ⟨wf.token_le, wf.ascending, wf.values_le, ?_⟩
  intro empty
  rw [show (outerView plain opts c').code = outerCode plain.code plain.options from rfl,
    outerCode_isEmpty] at empty
  cases empty

theorem wire_outerView (some : ciphertext ≠ []) :
    wire (outerView plain opts ciphertext) = wire (outerView plain opts []) ++ 0xff :: ciphertext := by
  simp only [wire, outerView, payloadWire_of_ne some, payloadWire_nil, headerWire,
    append_assoc, append_nil, cons_append]

def headerRoom : Nat := 1 + maxPivLen + 1 + maxIdContextLen + maxIdLen

theorem encodeOuter_ok (h : encodeOuter plain params ciphertext out = (.ok n, out')) :
    ∃ oscore opts,
      encodeOption headerRoom params.piv params.kidContext params.kid = .ok oscore ∧
      outerOptions (outerCode plain.code plain.options) plain.options oscore = .ok opts ∧
      (outerView plain opts.items ciphertext).WellFormed ∧
      (wire (outerView plain opts.items ciphertext)).length ≤ out.length ∧
      n = (wire (outerView plain opts.items ciphertext)).length ∧
      out' = wire (outerView plain opts.items ciphertext) ++
        out.drop (wire (outerView plain opts.items ciphertext)).length := by
  revert h
  fun_cases encodeOuter plain params ciphertext out with
  | case4 _ oscore encoded opts listed _ _ written =>
    rintro ⟨⟩
    obtain ⟨wf, fits, rfl, rfl⟩ := encode_ok written
    exact ⟨oscore, opts, encoded, listed, wf, fits, rfl, rfl⟩
  | _ => exact nofun

/-! ### Sealing -/

theorem sealInPlace_ok {plaintext : List UInt8}
    (h : sealInPlace prim params plaintext.length (plaintext ++ rest) = (.ok n, out)) :
    ∃ ciphertext, prim.encrypt params.key params.nonce params.aad plaintext = some ciphertext ∧
      ciphertext.length = plaintext.length + tagLen ∧ tagLen ≤ rest.length ∧
      n = ciphertext.length ∧ out = ciphertext ++ rest.drop tagLen := by
  simp only [sealInPlace, length_append, take_left] at h
  split at h
  · cases h
  next roomy =>
  split at h
  · cases h
  next ciphertext encrypted =>
  cases h
  have length := prim.length_encrypt encrypted
  refine ⟨ciphertext, encrypted, length, by omega, length.symm, ?_⟩
  simp only [writeAt, take_zero, nil_append, Nat.zero_add, length,
    ← drop_drop, drop_left]

/-- `packet` is the datagram that `plain` is sealed into. -/
structure SealedAs (prim : Primitives) (plain : Message maxLen) (params : SealParams)
    (oscore : List UInt8) (opts : OptionsBuilder optSlots) (ciphertext packet : List UInt8) :
    Prop where
  header : encodeOption headerRoom params.piv params.kidContext params.kid = .ok oscore
  outer : outerOptions (outerCode plain.code plain.options) plain.options oscore = .ok opts
  encrypted :
    prim.encrypt params.key params.nonce params.aad (plainWire plain) = some ciphertext
  follow : OptionsFollow 0 (innerOptions plain)
  short : ciphertext.length ≤ innerLen
  wellFormed : (outerView plain opts.items ciphertext).WellFormed
  packet_eq : packet = wire (outerView plain opts.items ciphertext)

theorem sealDirect_ok (h : sealDirect prim plain params out = (.ok n, out')) :
    ∃ oscore opts ciphertext, SealedAs prim plain params oscore opts ciphertext (out'.take n) ∧
      n ≤ out'.length := by
  simp only [sealDirect] at h
  split at h
  · cases h
  next start framed headed =>
  obtain ⟨oscore, opts, header, outer, wf, fits, rfl, rfl⟩ := encodeOuter_ok headed
  split at h
  · cases h
  next roomy =>
  -- the outer message without payload, the marker, and the tail the seal works in
  generalize frontEq : wire (outerView plain opts.items []) = front at *
  obtain ⟨byte, rest, split⟩ : ∃ byte rest, out.drop front.length = byte :: rest := by
    cases tail : out.drop front.length with
    | nil =>
      rw [tail, append_nil] at roomy
      omega
    | cons byte rest => exact ⟨byte, rest, rfl⟩
  have marked : writeAt (front ++ out.drop front.length) front.length [0xff] =
      (front ++ [0xff]) ++ rest := by
    rw [writeAt_append, split]
    rfl
  have position : front.length + 1 = (front ++ [(0xff : UInt8)]).length := by simp
  rw [marked, position, drop_left] at h
  split at h
  · cases h
  next plaintextLen tail written =>
  obtain ⟨follow, inside, rfl, rfl⟩ := encodePlaintext_ok written
  split at h
  · cases h
  next m sealedTail appended =>
  cases h
  obtain ⟨ciphertext, encrypted, length, tagged, rfl, rfl⟩ := sealInPlace_ok appended
  have some : ciphertext ≠ [] := by
    rintro rfl
    simp [tagLen] at length
  simp only [length_drop, length_take] at inside tagged
  refine ⟨oscore, opts, ciphertext, ⟨header, outer, encrypted, follow, by omega,
    outerView_wellFormed wf, ?_⟩, by simp [writeAt]⟩
  rw [wire_outerView some, frontEq, writeAt_append, ← append_assoc _ ciphertext,
    append_assoc _ _ (rest.drop _), take_left' (by simp; omega)]
  simp

theorem sealMessageStaged_ok (h : sealMessageStaged prim plain params out = (.ok n, out')) :
    ∃ oscore opts ciphertext, SealedAs prim plain params oscore opts ciphertext (out'.take n) := by
  simp only [sealMessageStaged] at h
  split at h
  · cases h
  next written =>
  obtain ⟨follow, inside, rfl, rfl⟩ := encodePlaintext_ok written
  split at h
  · cases h
  next appended =>
  obtain ⟨ciphertext, encrypted, length, tagged, rfl, rfl⟩ := sealInPlace_ok appended
  rw [take_left] at h
  obtain ⟨oscore, opts, header, outer, wf, fits, rfl, rfl⟩ := encodeOuter_ok h
  simp only [length_drop, length_replicate] at inside tagged
  exact ⟨oscore, opts, ciphertext, header, outer, encrypted, follow, by omega, wf, take_left⟩

/-- Whichever path succeeded, the datagram is the same. -/
theorem sealMessage_ok (h : sealMessage prim plain params out = (.ok n, out')) :
    ∃ oscore opts ciphertext, SealedAs prim plain params oscore opts ciphertext (out'.take n) := by
  simp only [sealMessage] at h
  split at h
  next direct =>
    cases h
    obtain ⟨oscore, opts, ciphertext, sealed, -⟩ := sealDirect_ok direct
    exact ⟨oscore, opts, ciphertext, sealed⟩
  · exact sealMessageStaged_ok h

end Coaptic.Oscore
