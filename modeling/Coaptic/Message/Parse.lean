import Coaptic.Lib.Result
import Coaptic.Message.Decode
import Coaptic.Message.Wire

/-!
# The decoder reads the wire format

Each reader has two lemmas. The `_sound` one says that the bytes it consumed are the wire
form of what it returned; the `_complete` one, that it accepts every wire form.
-/
namespace Coaptic.Codec

open Bytes Result List Parts
open UInt8 (ofNat toNat_ofNat')
open List (append_assoc length_append length_drop)

/-! ### Extended fields -/

variable {buf bytes optionBytes payload rest : List UInt8} {fuel i j len prev skip start v : Nat}
  {opt : Opt} {opts : List Opt} {extended : Bool} {parts : Parts} {msg : ExtendedMessage}

theorem takeExtended_sound {n : Nat} (nibble : n < 15) (h : takeExtended bytes i n = .ok (j, v)) :
    v ≤ maxExtended ∧ (extField v).1.toNat = n ∧ j = i + (extField v).2.length ∧
      bytes.drop i = (extField v).2 ++ bytes.drop j := by
  unfold takeExtended at h
  split at h
  next one =>
    -- one extension byte carries 13 .. 268
    split at h
    next extra found =>
      cases h
      have := extra.toNat_lt
      have field : extField (13 + extra.toNat) = (13, [extra]) := by
        rw [extField, if_neg (by omega), if_pos (by omega), Nat.add_sub_cancel_left,
          UInt8.ofNat_toNat]
      rw [field]
      refine ⟨by simp only [maxExtended]; omega, one.symm, rfl, ?_⟩
      exact (drop_eq_cons_iff _ _ _ _).mpr ⟨found, rfl⟩
    · cases h
  · split at h
    next two =>
      -- two extension bytes carry 269 .. 65804
      split at h
      next high low foundHigh foundLow =>
        cases h
        have := be16_lt high low
        have field : extField (269 + be16 high low) = (14, [high, low]) := by
          rw [extField, if_neg (by omega), if_neg (by omega), Nat.add_sub_cancel_left, ofBe16_be16]
        rw [field]
        refine ⟨by simp only [maxExtended]; omega, two.symm, rfl, ?_⟩
        rw [(drop_eq_cons_iff _ _ _ _).mpr ⟨foundHigh, rfl⟩,
          (drop_eq_cons_iff _ _ _ _).mpr ⟨foundLow, rfl⟩]
        rfl
      · cases h
    next notTwo notOne =>
      cases h
      have field : extField v = (ofNat v, []) := by rw [extField, if_pos (by omega)]
      rw [field]
      refine ⟨by simp only [maxExtended]; omega, ?_, rfl, rfl⟩
      rw [toNat_ofNat', Nat.mod_eq_of_lt (by omega)]

theorem takeExtended_complete (bound : v ≤ maxExtended)
    (h : bytes.drop i = (extField v).2 ++ rest) :
    takeExtended bytes i (extField v).1.toNat = .ok (i + (extField v).2.length, v) := by
  unfold extField at h ⊢
  split at h
  next direct =>
    have value : (ofNat v).toNat = v := by
      rw [toNat_ofNat', Nat.mod_eq_of_lt (by omega)]
    rw [if_pos direct, takeExtended, value, if_neg (by omega), if_neg (by omega)]
    rfl
  next notDirect =>
  rw [if_neg notDirect]
  split at h
  next one =>
    have found := ((drop_eq_cons_iff _ _ _ _).mp h).1
    have value : (ofNat (v - 13)).toNat = v - 13 := by
      rw [toNat_ofNat', Nat.mod_eq_of_lt (by omega)]
    have total : 13 + (v - 13) = v := by omega
    rw [if_pos one]
    simp only [takeExtended, UInt8.reduceToNat, if_true, found, value, total]
    rfl
  next notOne =>
    obtain ⟨foundHigh, tail⟩ := (drop_eq_cons_iff _ _ _ _).mp h
    have foundLow := ((drop_eq_cons_iff _ _ _ _).mp tail.symm).1
    have value := be16_ofBe16 (v - 269) (by simp only [maxExtended] at bound; omega)
    have total : 269 + (v - 269) = v := by omega
    rw [if_neg notOne]
    simp [takeExtended, foundHigh, foundLow, value, total, ofBe16]

theorem decodeLength_eq_ok_iff {nibble : UInt8} : decodeLength nibble rest = .ok (len, skip) ↔
      nibble.toNat < 15 ∧ takeExtended rest 0 nibble.toNat = .ok (skip, len) := by
  unfold decodeLength takeExtended
  simp only [← UInt8.toNat_inj, UInt8.reduceToNat, Nat.zero_add]
  by_cases direct : nibble.toNat ≤ 12
  · rw [if_pos direct, if_neg (by omega), if_neg (by omega)]
    simp only [Except.ok.injEq, Prod.mk.injEq]
    omega
  rw [if_neg direct]
  by_cases one : nibble.toNat = 13
  · rw [if_pos one, if_pos one]
    cases rest[0]? with
    | none => simp
    | some extra => simp [one, and_comm]
  rw [if_neg one, if_neg one]
  by_cases two : nibble.toNat = 14
  · rw [if_pos two, if_pos two]
    cases rest[0]? with
    | none => simp
    | some high =>
    cases rest[1]? with
    | none => simp
    | some low => simp [two, and_comm]
  -- nibble 15 is reserved
  rw [if_neg two, if_neg two]
  simp only [reduceCtorEq, Except.ok.injEq, Prod.mk.injEq, false_iff]
  have := nibble.toNat_lt
  omega

/-! ### Options -/

/-- The five parts of an option on the wire, put together. -/
private theorem readOption_bytes {bytes : List UInt8} {i prev delta len : Nat} {head : UInt8}
    (found : bytes[i]? = some head)
    (deltaField : (extField delta).1.toNat = (head >>> 4).toNat)
    (deltaBytes : bytes.drop (i + 1) =
      (extField delta).2 ++ bytes.drop (i + 1 + (extField delta).2.length))
    (lenField : (extField len).1.toNat = (head &&& 0x0f).toNat)
    (lenBytes : bytes.drop (i + 1 + (extField delta).2.length) = (extField len).2 ++
      bytes.drop (i + 1 + (extField delta).2.length + (extField len).2.length))
    (lenLe : len ≤ maxExtended) (small : prev + delta ≤ 65535)
    (fits : i + 1 + (extField delta).2.length + (extField len).2.length + len ≤ bytes.length) :
    let start := i + 1 + (extField delta).2.length + (extField len).2.length
    let value := (bytes.drop start).take len
    (UInt16.ofNat (prev + delta)).toNat = prev + delta ∧ prev ≤ prev + delta ∧
      value.length ≤ maxExtended ∧
      start + len = i + (optionWire (prev + delta - prev) value).length ∧
      start + len ≤ bytes.length ∧
      bytes.drop i = optionWire (prev + delta - prev) value ++ bytes.drop (start + len) := by
  intro start value
  have valueLen : value.length = len := by
    simp only [value, length_take, length_drop]
    omega
  have deltaEq : prev + delta - prev = delta := by omega
  have headEq : pack (extField delta).1 (extField len).1 = head := by
    rw [UInt8.toNat_inj.mp deltaField, UInt8.toNat_inj.mp lenField, pack_nibbles]
  refine ⟨?_, Nat.le_add_right _ _, by omega, ?_, fits, ?_⟩
  · rw [UInt16.toNat_ofNat', Nat.mod_eq_of_lt (by omega)]
  · rw [deltaEq, length_optionWire, valueLen]
    omega
  rw [(drop_eq_cons_iff _ _ _ _).mpr ⟨found, rfl⟩, deltaBytes, lenBytes, deltaEq, optionWire,
    valueLen, headEq]
  have split : bytes.drop start = value ++ bytes.drop (start + len) := by
    have joined := take_append_drop len (bytes.drop start)
    rw [drop_drop] at joined
    exact joined.symm
  simp only [cons_append, append_assoc]
  rw [← split]

theorem readOption_sound {next : Nat} (h : readOption bytes i prev = .ok (opt, j, next)) :
    opt.number.toNat = next ∧ prev ≤ next ∧ opt.value.length ≤ maxExtended ∧
      j = i + (optionWire (next - prev) opt.value).length ∧ j ≤ bytes.length ∧
      bytes.drop i = optionWire (next - prev) opt.value ++ bytes.drop j := by
  unfold readOption at h
  split at h
  · cases h
  next head found =>
  split at h
  · cases h
  next deltaOk =>
  split at h
  · cases h
  next lenOk =>
  simp only [bind_eq_ok, Prod.exists] at h
  obtain ⟨a, delta, deltaTaken, b, len, lenTaken, h⟩ := h
  split at h
  · cases h
  next small =>
  split at h
  · cases h
  next fits =>
  cases h
  have deltaNibble : (head >>> 4).toNat < 15 := by
    rw [toNat_shiftRight_four] at deltaOk ⊢
    have := head.toNat_lt
    omega
  have lenNibble : (head &&& 0x0f).toNat < 15 := by
    rw [toNat_and_fifteen] at lenOk ⊢
    omega
  obtain ⟨-, deltaField, rfl, deltaBytes⟩ := takeExtended_sound deltaNibble deltaTaken
  obtain ⟨lenLe, lenField, rfl, lenBytes⟩ := takeExtended_sound lenNibble lenTaken
  exact readOption_bytes found deltaField deltaBytes lenField lenBytes lenLe
    (Nat.not_lt.mp small) (Nat.not_lt.mp fits)

theorem readOption_complete (above : prev ≤ opt.number.toNat)
    (short : opt.value.length ≤ maxExtended)
    (h : bytes.drop i = optionWire (opt.number.toNat - prev) opt.value ++ rest) :
    readOption bytes i prev =
      .ok (opt, i + (optionWire (opt.number.toNat - prev) opt.value).length, opt.number.toNat) := by
  have numberLt := opt.number.toNat_lt
  have deltaLe : opt.number.toNat - prev ≤ maxExtended := by simp only [maxExtended]; omega
  have number : prev + (opt.number.toNat - prev) = opt.number.toNat := by omega
  have length := congrArg length h
  rw [length_optionWire]
  simp only [length_drop, length_append, length_optionWire] at length
  generalize opt.number.toNat - prev = delta at *
  rw [optionWire, cons_append, append_assoc, append_assoc] at h
  obtain ⟨found, tail⟩ := (drop_eq_cons_iff _ _ _ _).mp h
  have deltaLt := extField_nibble_lt delta
  have lenLt := extField_nibble_lt opt.value.length
  have tail' := drop_of_append tail.symm
  have value := drop_of_append tail'
  rw [readOption, found]
  simp only [pack_high _ _ (extField_nibble_lt_sixteen _) (extField_nibble_lt_sixteen _),
    pack_low _ _ (extField_nibble_lt_sixteen _) (extField_nibble_lt_sixteen _),
    if_neg (Nat.ne_of_lt deltaLt), if_neg (Nat.ne_of_lt lenLt),
    takeExtended_complete deltaLe tail.symm, takeExtended_complete short tail', ok_bind, number]
  rw [if_neg (by omega), if_neg (by omega), value, take_left, UInt16.ofNat_toNat]
  congr 3
  omega

/-- The option iterator over a slice of well-formed options lists them all. -/
theorem optionsFrom_complete (follow : OptionsFollow prev opts)
    (h : bytes.drop i = optionsWire prev opts) (enough : bytes.length - i ≤ fuel) :
    optionsFrom bytes i prev fuel = opts := by
  induction opts generalizing i prev fuel with
  | nil =>
    have atEnd : bytes.length ≤ i := drop_eq_nil_iff.mp h
    cases fuel with
    | zero => rfl
    | succ fuel => rw [optionsFrom, if_pos atEnd]
  | cons opt opts ih =>
  obtain ⟨above, short, follow⟩ := follow
  have length := congrArg length h
  simp only [optionsWire, length_drop, length_append, length_optionWire] at length
  obtain ⟨fuel, rfl⟩ : ∃ n, fuel = n + 1 := ⟨fuel - 1, by omega⟩
  rw [optionsFrom, if_neg (by omega), readOption_complete above short h]
  have shorter : bytes.length -
      (i + (optionWire (opt.number.toNat - prev) opt.value).length) ≤ fuel := by
    rw [length_optionWire]
    omega
  have rest := ih follow (drop_of_append h) shorter
  simp only [rest]

theorem options_optionsWire (follow : OptionsFollow 0 opts) : options (optionsWire 0 opts) = opts :=
  optionsFrom_complete follow rfl (Nat.le_refl _)

@[simp] theorem payloadWire_nil : payloadWire [] = [] := rfl

theorem payloadWire_of_ne (h : payload ≠ []) : payloadWire payload = 0xFF :: payload := by
  rw [payloadWire, if_neg (by simpa using h)]

theorem splitFrom_sound (after : start ≤ i) (inside : i ≤ bytes.length)
    (enough : bytes.length - i ≤ fuel)
    (h : splitFrom bytes start i prev fuel = .ok (optionBytes, payload)) :
    optionBytes ++ payloadWire payload = bytes.drop start ∧
      ∃ opts, OptionsFollow prev opts ∧
        bytes.drop i = optionsWire prev opts ++ payloadWire payload := by
  induction fuel generalizing i prev with
  | zero =>
    cases h
    have atEnd : bytes.drop i = [] := drop_eq_nil_iff.mpr (by omega)
    exact ⟨by simp, [], trivial, by simp [atEnd, optionsWire]⟩
  | succ fuel ih =>
  rw [splitFrom] at h
  split at h
  next atEnd =>
    cases h
    have atEnd : bytes.drop i = [] := drop_eq_nil_iff.mpr atEnd
    exact ⟨by simp, [], trivial, by simp [atEnd, optionsWire]⟩
  · split at h
    next marker =>
      split at h
      · cases h
      next notLast =>
      cases h
      have tail := (drop_eq_cons_iff _ _ _ _).mpr ⟨marker, rfl⟩
      have some : bytes.drop (i + 1) ≠ [] := by
        rw [Ne, drop_eq_nil_iff]
        omega
      rw [payloadWire_of_ne some, ← tail]
      refine ⟨?_, [], trivial, rfl⟩
      have joined := take_append_drop (i - start) (bytes.drop start)
      rwa [drop_drop, Nat.add_sub_cancel' after] at joined
    · split at h
      · cases h
      next opt j next read =>
      obtain ⟨rfl, above, short, rfl, inside', consumed⟩ := readOption_sound read
      have wireLen := length_optionWire (opt.number.toNat - prev) opt.value
      obtain ⟨whole, opts, follow, rest⟩ := ih (by omega) inside' (by omega) h
      refine ⟨whole, opt :: opts, ⟨above, short, follow⟩, ?_⟩
      rw [consumed, rest, optionsWire, append_assoc]

theorem splitFrom_complete (after : start ≤ i) (inside : i ≤ bytes.length)
    (enough : bytes.length - i ≤ fuel) (follow : OptionsFollow prev opts)
    (whole : bytes.drop start = optionBytes ++ payloadWire payload)
    (h : bytes.drop i = optionsWire prev opts ++ payloadWire payload) :
    splitFrom bytes start i prev fuel = .ok (optionBytes, payload) := by
  induction opts generalizing i prev fuel with
  | nil =>
    rw [optionsWire, nil_append] at h
    by_cases none : payload = []
    · subst none
      have atEnd : bytes.length ≤ i := drop_eq_nil_iff.mp h
      rw [payloadWire_nil, append_nil] at whole
      cases fuel with
      | zero => rw [splitFrom, whole]
      | succ fuel => rw [splitFrom, if_pos atEnd, whole]
    rw [payloadWire_of_ne none] at h whole
    obtain ⟨marker, tail⟩ := (drop_eq_cons_iff _ _ _ _).mp h
    have length := congrArg length h
    have wholeLength := congrArg List.length whole
    have some := List.length_pos_iff.mpr none
    simp only [length_drop, length_cons, length_append] at length wholeLength
    obtain ⟨fuel, rfl⟩ : ∃ n, fuel = n + 1 := ⟨fuel - 1, by omega⟩
    have front : i - start = optionBytes.length := by omega
    rw [splitFrom, if_neg (by omega), if_pos marker, if_neg (by omega), whole, front,
      take_left, ← tail]
  | cons opt opts ih =>
  obtain ⟨above, short, follow⟩ := follow
  rw [optionsWire, append_assoc] at h
  have length := congrArg length h
  have wireLen := length_optionWire (opt.number.toNat - prev) opt.value
  simp only [length_drop, length_append] at length
  obtain ⟨fuel, rfl⟩ : ∃ n, fuel = n + 1 := ⟨fuel - 1, by omega⟩
  -- an option's first byte has a delta nibble below 15, so it is not the marker
  have notMarker : bytes[i]? ≠ some 0xFF := by
    intro marker
    have head := ((drop_eq_cons_iff _ _ _ _).mp h).1
    rw [marker, Option.some.injEq] at head
    have nibble := congrArg (fun b : UInt8 => (b >>> 4).toNat) head
    simp only [pack_high _ _ (extField_nibble_lt_sixteen _) (extField_nibble_lt_sixteen _)]
      at nibble
    have := extField_nibble_lt (opt.number.toNat - prev)
    simp at nibble
    omega
  rw [splitFrom, if_neg (by omega), if_neg notMarker, readOption_complete above short h]
  exact ih (by omega) (by omega) (by omega) follow (drop_of_append h)

/-! ### Datagrams -/

theorem headByte_eq_pack (ty : MsgType) (tkl : UInt8) :
    headByte ty tkl = pack (4 ||| ty.toBits) tkl := by
  cases ty <;> rfl

theorem version_eq (byte : UInt8) : byte >>> 6 = (byte >>> 4) >>> 2 := by
  apply UInt8.toNat_inj.mp
  simp only [UInt8.toNat_shiftRight, UInt8.reduceToNat, Nat.reduceMod, ← Nat.shiftRight_add,
    Nat.reduceAdd]

/-- The decoder reads back the three fields of the first header byte. -/
theorem headByte_fields (ty : MsgType) (tkl : UInt8) (nibble : tkl.toNat < 16) :
    headByte ty tkl >>> 6 = 1 ∧ MsgType.ofField ((headByte ty tkl >>> 4) &&& 3) = ty ∧
      headByte ty tkl &&& 0x0f = tkl := by
  have high : (4 ||| ty.toBits : UInt8).toNat < 16 := by cases ty <;> decide
  rw [version_eq, headByte_eq_pack, pack_high _ _ high nibble, pack_low _ _ high nibble]
  refine ⟨?_, ?_, rfl⟩
  · cases ty <;> rfl
  · cases ty <;> rfl

/-- A first header byte of version 1 is the one its fields encode to. -/
theorem headByte_of_fields (byte : UInt8) (version : byte >>> 6 = 1) :
    headByte (MsgType.ofField ((byte >>> 4) &&& 3)) (byte &&& 0x0f) = byte := by
  rw [version_eq] at version
  have nibble : (4 : UInt8) ||| (MsgType.ofField ((byte >>> 4) &&& 3)).toBits = byte >>> 4 := by
    generalize byte >>> 4 = top at *
    have quotient : top.toNat / 4 = 1 := by
      have := congrArg UInt8.toNat version
      simpa [UInt8.toNat_shiftRight, Nat.shiftRight_eq_div_pow] using this
    have cases : top = 4 ∨ top = 5 ∨ top = 6 ∨ top = 7 := by
      simp only [← UInt8.toNat_inj, UInt8.reduceToNat]
      omega
    rcases cases with rfl | rfl | rfl | rfl <;> rfl
  rw [headByte_eq_pack, nibble, pack_nibbles]

def Parts.ofMessage (msg : ExtendedMessage) : Parts where
  header := { version := 1, ty := msg.ty, tkl := (extField msg.token.length).1
              code := msg.code, id := msg.id }
  token := msg.token
  options := optionsWire 0 msg.options
  payload := msg.payload

/-- The decoder's token length, compact or extended. -/
theorem tokenLength_sound {tkl : UInt8} (mode : extended = true ∨ tkl.toNat ≤ 8)
    (h : tokenLength extended tkl rest = .ok (len, skip)) :
    tkl = (extField len).1 ∧ skip = (extField len).2.length ∧ len ≤ maxTokenLen ∧
      (extended = true ∨ len ≤ 8) ∧ rest = (extField len).2 ++ rest.drop skip := by
  unfold tokenLength at h
  cases extended with
  | true =>
    rw [if_pos rfl, decodeLength_eq_ok_iff] at h
    obtain ⟨bound, field, start, bytes⟩ := takeExtended_sound h.1 h.2
    rw [Nat.zero_add] at start
    rw [drop_zero] at bytes
    exact ⟨(UInt8.toNat_inj.mp field).symm, start, bound, .inl rfl, bytes⟩
  | false =>
  have short : tkl.toNat ≤ 8 := by simpa using mode
  rw [if_neg (by simp)] at h
  cases h
  have field : extField tkl.toNat = (tkl, []) := by
    rw [extField, if_pos (by omega), UInt8.ofNat_toNat]
  rw [field]
  exact ⟨rfl, rfl, short.trans (by decide), .inr short, rfl⟩

theorem tokenLength_complete {tail : List UInt8} (mode : extended = true ∨ len ≤ 8)
    (bound : len ≤ maxTokenLen) (h : rest = (extField len).2 ++ tail) :
    tokenLength extended (extField len).1 rest = .ok (len, (extField len).2.length) := by
  unfold tokenLength
  cases extended with
  | true =>
    rw [if_pos rfl, decodeLength_eq_ok_iff]
    refine ⟨extField_nibble_lt len, ?_⟩
    have taken := takeExtended_complete (i := 0) bound (drop_zero.trans h)
    rwa [Nat.zero_add] at taken
  | false =>
  have short : len ≤ 8 := by simpa using mode
  have field : extField len = (ofNat len, []) := by rw [extField, if_pos (by omega)]
  rw [if_neg (by simp), field, toNat_ofNat', Nat.mod_eq_of_lt (by omega)]
  rfl

theorem decodeBody_sound {header : Header} (mode : extended = true ∨ header.tkl.toNat ≤ 8)
    (h : decodeBody buf extended header = .ok parts) :
    ∃ token opts payload, parts = ⟨header, token, optionsWire 0 opts, payload⟩ ∧
      header.tkl = (extField token.length).1 ∧ token.length ≤ maxTokenLen ∧
      (extended = true ∨ token.length ≤ 8) ∧ OptionsFollow 0 opts ∧
      (header.code.isEmpty = true → token = [] ∧ opts = [] ∧ payload = []) ∧
      buf.drop 4 =
        (extField token.length).2 ++ (token ++ (optionsWire 0 opts ++ payloadWire payload)) := by
  simp only [decodeBody, bind_eq_ok, Prod.exists] at h
  obtain ⟨len, skip, tokenLen, h⟩ := h
  obtain ⟨tkl, rfl, lenLe, mode, fieldBytes⟩ := tokenLength_sound mode tokenLen
  rw [drop_drop] at fieldBytes
  split at h
  · cases h
  next fits =>
  generalize tokenEq : (buf.drop (4 + (extField len).2.length)).take len = token at h
  have tokenLength : token.length = len := by
    rw [← tokenEq, length_take, length_drop]
    omega
  have tokenBytes : buf.drop (4 + (extField len).2.length) =
      token ++ buf.drop (4 + (extField len).2.length + len) := by
    have joined := take_append_drop len (buf.drop (4 + (extField len).2.length))
    rw [drop_drop, tokenEq] at joined
    exact joined.symm
  subst tokenLength
  split at h
  next empty =>
    split at h
    · cases h
    next nothing =>
    cases h
    simp only [ne_eq, not_or, not_not] at nothing
    obtain ⟨zero, whole⟩ := nothing
    -- a zero nibble means an empty token without length bytes
    have lenZero : token.length = 0 := eq_zero_of_extField_nibble _ (by rw [← tkl, zero])
    have none : token = [] := length_eq_zero_iff.mp lenZero
    refine ⟨token, [], [], rfl, tkl, lenLe, mode, trivial, fun _ => ⟨none, rfl, rfl⟩, ?_⟩
    rw [fieldBytes, tokenBytes, whole, drop_length]
    simp [optionsWire]
  next notEmpty =>
    simp only [bind_eq_ok, Prod.exists] at h
    obtain ⟨optionBytes, payload, split, h⟩ := h
    cases h
    obtain ⟨whole, opts, follow, optionWires⟩ :=
      splitFrom_sound (Nat.le_refl _) (Nat.not_lt.mp fits) (Nat.le_refl _) split
    rw [optionWires, append_cancel_right_eq] at whole
    refine ⟨token, opts, payload, by rw [whole], tkl, lenLe, mode, follow,
      fun empty => absurd empty notEmpty, ?_⟩
    rw [fieldBytes, tokenBytes, optionWires]

theorem decodeParts_sound (h : decodeParts buf extended = .ok parts) :
    ∃ msg, msg.WellFormed ∧ (extended = true ∨ msg.token.length ≤ 8) ∧ buf = wire msg ∧
      parts = ofMessage msg := by
  unfold decodeParts at h
  split at h
  next b0 b1 b2 b3 rest =>
    split at h
    · cases h
    next version =>
    split at h
    · cases h
    next compact =>
    have mode : extended = true ∨ (b0 &&& 0x0f).toNat ≤ 8 := by
      cases extended with
      | true => exact .inl rfl
      | false => exact .inr (by simpa using compact)
    obtain ⟨token, opts, payload, rfl, tkl, lenLe, mode, follow, empty, tail⟩ :=
      decodeBody_sound mode h
    obtain ⟨-, ascending, values⟩ := (optionsFollow_iff 0 opts).mp follow
    have version : b0 >>> 6 = 1 := by simpa using version
    refine ⟨⟨MsgType.ofField ((b0 >>> 4) &&& 3), ⟨b1⟩, UInt16.ofNat (be16 b2 b3), token, opts,
      payload⟩, ⟨lenLe, ascending, values, empty⟩, mode, ?_, ?_⟩
    · have id : (UInt16.ofNat (be16 b2 b3)).toNat = be16 b2 b3 := by
        rw [UInt16.toNat_ofNat', Nat.mod_eq_of_lt (be16_lt b2 b3)]
      simp only [drop_succ_cons, drop_zero] at tail
      simp only [wire, headerWire, ← tkl, headByte_of_fields b0 version, id, ofBe16_be16,
        cons_append, append_assoc, nil_append, ← tail]
    · simp only at tkl
      rw [ofMessage, version, tkl]
  · cases h

theorem decodeBody_complete (wf : msg.WellFormed) (mode : extended = true ∨ msg.token.length ≤ 8)
    (h : buf.drop 4 = (extField msg.token.length).2 ++
      (msg.token ++ (optionsWire 0 msg.options ++ payloadWire msg.payload)))
    (four : 4 ≤ buf.length) :
    decodeBody buf extended (ofMessage msg).header = .ok (ofMessage msg) := by
  have length := congrArg length h
  simp only [length_drop, length_append] at length
  have tokenBytes := drop_of_append h
  have optionBytes := drop_of_append tokenBytes
  have tkl : (ofMessage msg).header.tkl = (extField msg.token.length).1 := rfl
  simp only [decodeBody, tkl, tokenLength_complete mode wf.token_le h, ok_bind]
  rw [if_neg (by omega), tokenBytes, take_left]
  by_cases empty : msg.code.isEmpty = true
  · obtain ⟨token, options, payload⟩ := wf.empty empty
    have view : ofMessage msg = ⟨(ofMessage msg).header, msg.token, [], []⟩ := by
      simp only [ofMessage, options, payload, optionsWire]
    simp only [token, options, payload, length_nil, extField_zero, optionsWire,
      payloadWire_nil] at length
    rw [if_pos (show (ofMessage msg).header.code.isEmpty = true from empty),
      if_neg (by simp [token]; omega), ← view]
  rw [if_neg (show ¬ (ofMessage msg).header.code.isEmpty = true from empty),
    splitOptionsAndPayload,
    splitFrom_complete (Nat.le_refl _) (by omega) (Nat.le_refl _) wf.optionsFollow optionBytes
      optionBytes]
  rfl

theorem decodeParts_complete (wf : msg.WellFormed) (mode : extended = true ∨ msg.token.length ≤ 8) :
    decodeParts (wire msg) extended = .ok (ofMessage msg) := by
  obtain ⟨version, type, tkl⟩ := headByte_fields msg.ty _
    (extField_nibble_lt_sixteen msg.token.length)
  have compact : (!extended && decide (8 < (extField msg.token.length).1.toNat)) = false := by
    cases extended with
    | true => rfl
    | false =>
    have short : msg.token.length ≤ 8 := by simpa using mode
    have field : (extField msg.token.length).1 = ofNat msg.token.length := by
      rw [extField, if_pos (by omega)]
    rw [field, toNat_ofNat']
    simp
    omega
  have id : UInt16.ofNat (be16 (ofNat (msg.id.toNat / 256)) (ofNat (msg.id.toNat % 256)))
      = msg.id := by
    rw [be16_ofBe16 _ msg.id.toNat_lt, UInt16.ofNat_toNat]
  have tail : (wire msg).drop 4 = (extField msg.token.length).2 ++
      (msg.token ++ (optionsWire 0 msg.options ++ payloadWire msg.payload)) := by
    simp only [wire, headerWire, ofBe16, cons_append, append_assoc, nil_append,
      drop_succ_cons, drop_zero]
  have four : 4 ≤ (wire msg).length := by
    have := length_headerWire msg
    simp only [wire, length_append]
    omega
  have body := decodeBody_complete wf mode tail four
  simp only [wire, headerWire, ofBe16, cons_append, append_assoc, nil_append]
    at body ⊢
  simp only [decodeParts, version, type, tkl, compact, id, ne_eq, not_true_eq_false, if_false,
    Bool.false_eq_true]
  exact body

end Coaptic.Codec
