import Coaptic.Message.Encode

/-!
# Wire format

What a datagram is, as a byte string: one description of the format, without a buffer and
without a parser. The encoder writes exactly these bytes whenever they fit.
-/
namespace Coaptic.Codec

open Bytes List
open List (length_append)

section

variable (n : Nat)

/-- Nibble and extension bytes of a delta, an option length or a token length. -/
def extField : UInt8 × List UInt8 :=
  if n < 13 then (UInt8.ofNat n, [])
  else if n < 269 then (13, [UInt8.ofNat (n - 13)])
  else (14, ofBe16 (n - 269))

def optionWire (delta : Nat) (value : List UInt8) : List UInt8 :=
  pack (extField delta).1 (extField value.length).1 ::
    ((extField delta).2 ++ ((extField value.length).2 ++ value))

def optionsWire : Nat → List Opt → List UInt8
  | _, [] => []
  | prev, opt :: rest =>
    optionWire (opt.number.toNat - prev) opt.value ++ optionsWire opt.number.toNat rest

def payloadWire (payload : List UInt8) : List UInt8 :=
  if payload.isEmpty then [] else 0xFF :: payload

def headerWire (msg : ExtendedMessage) : List UInt8 :=
  headByte msg.ty (extField msg.token.length).1 :: msg.code.raw ::
    (ofBe16 msg.id.toNat ++ ((extField msg.token.length).2 ++ msg.token))

def wire (msg : ExtendedMessage) : List UInt8 :=
  headerWire msg ++ (optionsWire 0 msg.options ++ payloadWire msg.payload)

/-- Options that continue a list whose last number was `prev`. -/
def OptionsFollow : Nat → List Opt → Prop
  | _, [] => True
  | prev, opt :: rest =>
    prev ≤ opt.number.toNat ∧ opt.value.length ≤ maxExtended ∧ OptionsFollow opt.number.toNat rest

/-- The message values the format can carry. -/
structure ExtendedMessage.WellFormed (msg : ExtendedMessage) : Prop where
  token_le : msg.token.length ≤ maxTokenLen
  ascending : msg.options.Pairwise (fun a b => a.number ≤ b.number)
  values_le : ∀ opt ∈ msg.options, opt.value.length ≤ maxExtended
  empty : msg.code.isEmpty = true → msg.token = [] ∧ msg.options = [] ∧ msg.payload = []

theorem optionsFollow_iff (prev : Nat) (opts : List Opt) :
    OptionsFollow prev opts ↔ (∀ opt ∈ opts, prev ≤ opt.number.toNat) ∧
      opts.Pairwise (fun a b => a.number ≤ b.number) ∧
      ∀ opt ∈ opts, opt.value.length ≤ maxExtended := by
  induction opts generalizing prev with
  | nil => simp [OptionsFollow]
  | cons opt rest ih =>
  simp only [OptionsFollow, ih, mem_cons, forall_eq_or_imp, pairwise_cons,
    UInt16.le_iff_toNat_le]
  constructor
  · rintro ⟨above, short, after, ascending, shorts⟩
    exact ⟨⟨above, fun o member => above.trans (after o member)⟩, ⟨after, ascending⟩, short, shorts⟩
  · rintro ⟨⟨above, -⟩, ⟨after, ascending⟩, short, shorts⟩
    exact ⟨above, short, after, ascending, shorts⟩

theorem ExtendedMessage.WellFormed.optionsFollow {msg : ExtendedMessage} (wf : msg.WellFormed) :
    OptionsFollow 0 msg.options :=
  (optionsFollow_iff 0 msg.options).mpr ⟨fun _ _ => Nat.zero_le _, wf.ascending, wf.values_le⟩

/-! ### Extended fields -/

theorem extField_nibble_lt : (extField n).1.toNat < 15 := by
  unfold extField
  split
  · rw [UInt8.toNat_ofNat']
    omega
  split
  · exact (by decide : (13 : UInt8).toNat < 15)
  · exact (by decide : (14 : UInt8).toNat < 15)

theorem extField_nibble_lt_sixteen : (extField n).1.toNat < 16 :=
  (extField_nibble_lt n).trans (by decide)

theorem eq_zero_of_extField_nibble (h : (extField n).1 = 0) : n = 0 := by
  unfold extField at h
  split at h
  · have value := congrArg UInt8.toNat h
    simp only [UInt8.toNat_ofNat', UInt8.reduceToNat] at value
    omega
  · split at h <;> cases h

@[simp] theorem extField_zero : extField 0 = (0, []) := rfl

/-- The encoder's nibble and padded extension are those of the format. -/
theorem extNibble_of_le (bound : n ≤ maxExtended) :
    ∃ padded, extNibble n = .ok ((extField n).1, padded, (extField n).2.length) ∧
      padded.take (extField n).2.length = (extField n).2 := by
  unfold extNibble extField
  split
  · exact ⟨[0, 0], rfl, rfl⟩
  split
  · exact ⟨[UInt8.ofNat (n - 13), 0], rfl, rfl⟩
  refine ⟨[UInt8.ofNat ((n - 269) >>> 8), UInt8.ofNat ((n - 269) &&& 0xff)], rfl, ?_⟩
  have low : (n - 269) &&& 255 = (n - 269) % 256 := Nat.and_two_pow_sub_one_eq_mod _ 8
  simp [ofBe16, Nat.shiftRight_eq_div_pow, low]

theorem maxExtended_lt : maxExtended < 2 ^ 32 := by decide

theorem encodeLength_of_le (bound : n ≤ maxTokenLen) :
    ∃ padded, encodeLength n = .ok ((extField n).1, padded, (extField n).2.length) ∧
      padded.take (extField n).2.length = (extField n).2 := by
  obtain ⟨padded, field, taken⟩ := extNibble_of_le n bound
  have small : n < 2 ^ 32 := lt_of_le_of_lt bound maxExtended_lt
  refine ⟨padded, ?_, taken⟩
  rw [encodeLength, if_pos small, field]

end

/-! ### The encoder writes the format

The buffer is split as `front ++ rest`: `front` is written, `rest` is still free. -/

theorem length_optionWire (delta : Nat) (value : List UInt8) : (optionWire delta value).length =
      1 + (extField delta).2.length + (extField value.length).2.length + value.length := by
  simp only [optionWire, length_cons, length_append]
  omega

theorem writeOption_of_le (front rest : List UInt8) (delta : Nat) (value : List UInt8)
    (deltaLe : delta ≤ maxExtended) (valueLe : value.length ≤ maxExtended) :
    writeOption (front ++ rest) front.length delta value =
      if rest.length < (optionWire delta value).length then (.error .bufferTooSmall, front ++ rest)
      else (.ok (front.length + (optionWire delta value).length),
        front ++ optionWire delta value ++ rest.drop (optionWire delta value).length) := by
  obtain ⟨de, deltaField, deltaTaken⟩ := extNibble_of_le delta deltaLe
  obtain ⟨le, valueField, valueTaken⟩ := extNibble_of_le value.length valueLe
  have small := lt_of_le_of_lt valueLe maxExtended_lt
  have len := length_optionWire delta value
  rw [writeOption, if_pos small, deltaField]
  simp only [valueField, deltaTaken, valueTaken]
  by_cases short : rest.length < (optionWire delta value).length
  · rw [if_pos short, if_pos (by rw [length_append]; omega)]
  rw [if_neg short, if_neg (by rw [length_append]; omega)]
  have inside : front.length ≤ (front ++ rest).length := by simp
  refine Prod.ext (congrArg Except.ok (by omega)) ?_
  -- each of the four writes starts where the one before it ended
  simp only
  rw [writeAt_writeAt _ _ _ _ _ inside (by simp),
    writeAt_writeAt _ _ _ _ _ inside (by simp; omega),
    writeAt_writeAt _ _ _ _ _ inside (by simp; omega), writeAt_append]
  simp only [optionWire, append_assoc, cons_append, nil_append]

theorem writeOptions_of_follow (front rest : List UInt8) (prev : Nat) (opts : List Opt)
    (follow : OptionsFollow prev opts) : if rest.length < (optionsWire prev opts).length then
      ∃ out, writeOptions (front ++ rest) front.length prev opts = (.error .bufferTooSmall, out)
    else
      writeOptions (front ++ rest) front.length prev opts =
        (.ok (front.length + (optionsWire prev opts).length),
          front ++ optionsWire prev opts ++ rest.drop (optionsWire prev opts).length) := by
  induction opts generalizing front rest prev with
  | nil => simp [writeOptions, optionsWire]
  | cons opt opts ih =>
  obtain ⟨above, short, follow⟩ := follow
  have deltaLe : opt.number.toNat - prev ≤ maxExtended := by
    have := opt.number.toNat_lt
    simp only [maxExtended]
    omega
  have step := writeOption_of_le front rest (opt.number.toNat - prev) opt.value deltaLe short
  simp only [writeOptions, optionsWire, length_append, if_neg (Nat.not_lt.mpr above), step]
  generalize optionWire (opt.number.toNat - prev) opt.value = head at *
  generalize tailEq : optionsWire opt.number.toNat opts = tail at *
  by_cases full : rest.length < head.length
  · rw [if_pos full, if_pos (by omega)]
    exact ⟨_, rfl⟩
  -- the option is written, and `front` grows by its bytes
  have after := ih (front ++ head) (rest.drop head.length) opt.number.toNat follow
  rw [tailEq, length_append, length_drop] at after
  simp only [if_neg full]
  by_cases tailFull : rest.length < head.length + tail.length
  · rw [if_pos (by omega)] at after
    rw [if_pos tailFull]
    exact after
  rw [if_neg (by omega)] at after
  rw [if_neg tailFull, after, drop_drop]
  simp only [append_assoc, Nat.add_assoc]

theorem writePayload_eq (front rest payload : List UInt8) :
    if rest.length < (payloadWire payload).length then
      ∃ out, writePayload (front ++ rest) front.length payload = (.error .bufferTooSmall, out)
    else
      writePayload (front ++ rest) front.length payload =
        (.ok (front.length + (payloadWire payload).length),
          front ++ payloadWire payload ++ rest.drop (payloadWire payload).length) := by
  unfold writePayload payloadWire
  cases payload with
  | nil => simp
  | cons byte payload =>
  have inside : front.length ≤ (front ++ rest).length := by simp
  simp only [isEmpty_cons, Bool.false_eq_true, if_false, length_cons]
  by_cases full : rest.length < payload.length + 1 + 1
  · rw [if_pos full]
    by_cases none : rest = []
    · exact ⟨front ++ rest, by simp [none]⟩
    have some : 0 < rest.length := length_pos_iff.mpr none
    rw [if_neg (by rw [length_append]; omega)]
    rw [length_writeAt _ _ _ (by simp; omega), if_pos (by rw [length_append]; omega)]
    exact ⟨_, rfl⟩
  rw [if_neg full, if_neg (by rw [length_append]; omega)]
  rw [length_writeAt _ _ _ (by simp; omega), if_neg (by rw [length_append]; omega),
    writeAt_writeAt _ _ _ _ _ inside (by simp), writeAt_append]
  refine Prod.ext (congrArg Except.ok (by omega)) ?_
  simp

theorem length_headerWire (msg : ExtendedMessage) :
    (headerWire msg).length = 4 + (extField msg.token.length).2.length + msg.token.length := by
  simp only [headerWire, ofBe16, length_cons, length_append, length_nil]
  omega

/-- Encoding a well-formed message succeeds exactly when its datagram fits, and then leaves
the datagram at the start of the buffer and the rest of the buffer as it was. -/
theorem encodeTokenIter_of_wellFormed (msg : ExtendedMessage) (wf : msg.WellFormed)
    (buf : List UInt8) : if buf.length < (wire msg).length then
      ∃ out, msg.encode buf = (.error .bufferTooSmall, out)
    else
      msg.encode buf = (.ok (wire msg).length, wire msg ++ buf.drop (wire msg).length) := by
  obtain ⟨padded, field, taken⟩ := encodeLength_of_le msg.token.length wf.token_le
  have guard : (msg.code.isEmpty &&
      (!msg.token.isEmpty || !msg.payload.isEmpty || !msg.options.isEmpty)) = false := by
    cases empty : msg.code.isEmpty with
    | false => rfl
    | true =>
      obtain ⟨token, options, payload⟩ := wf.empty empty
      simp [token, options, payload]
  unfold ExtendedMessage.encode encodeTokenIter
  simp only [field, guard, taken, Bool.false_eq_true, if_false]
  have headerLen := length_headerWire msg
  have wireLen : (wire msg).length = (headerWire msg).length +
      ((optionsWire 0 msg.options).length + (payloadWire msg.payload).length) := by
    simp only [wire, length_append]
  by_cases headerFull : buf.length < (headerWire msg).length
  · rw [if_pos (by omega), if_pos (by omega)]
    exact ⟨_, rfl⟩
  rw [← headerLen, if_neg headerFull]
  -- the four header writes leave `headerWire` in front of the untouched rest
  have header : writeAt (writeAt (writeAt (writeAt buf 0
      [headByte msg.ty (extField msg.token.length).1, msg.code.raw]) 2 (ofBe16 msg.id.toNat)) 4
      (extField msg.token.length).2) (4 + (extField msg.token.length).2.length) msg.token =
      headerWire msg ++ buf.drop (headerWire msg).length := by
    rw [writeAt_writeAt _ _ _ _ _ (Nat.zero_le _) (by simp),
      writeAt_writeAt _ _ _ _ _ (Nat.zero_le _) (by simp [ofBe16]),
      writeAt_writeAt _ _ _ _ _ (Nat.zero_le _) (by simp [ofBe16]; omega)]
    simp [writeAt, headerWire]
  rw [header]
  have options := writeOptions_of_follow (headerWire msg) (buf.drop (headerWire msg).length) 0
    msg.options wf.optionsFollow
  rw [length_drop] at options
  by_cases optionsFull : buf.length - (headerWire msg).length < (optionsWire 0 msg.options).length
  · rw [if_pos optionsFull] at options
    obtain ⟨out, options⟩ := options
    rw [if_pos (by omega), options]
    exact ⟨_, rfl⟩
  rw [if_neg optionsFull, drop_drop] at options
  simp only [options]
  have payload := writePayload_eq (headerWire msg ++ optionsWire 0 msg.options)
    (buf.drop ((headerWire msg).length + (optionsWire 0 msg.options).length)) msg.payload
  rw [length_drop, length_append, drop_drop] at payload
  by_cases payloadFull : buf.length < (wire msg).length
  · rw [if_pos (by omega)] at payload
    rw [if_pos payloadFull]
    exact payload
  rw [if_neg (by omega)] at payload
  rw [if_neg payloadFull, payload, wireLen, wire]
  simp only [append_assoc, Nat.add_assoc]

end Coaptic.Codec
