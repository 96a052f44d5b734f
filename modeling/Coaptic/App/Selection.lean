import Coaptic.Message.RoundTrip
import Coaptic.Message.Values

/-!
# Request selections

What a deferred reply keeps of its request: a bounded canonical message of the method, the token,
the options that select a representation and a FETCH payload. Another request is compared with it
field by field, without building its own selection. Both ways answer the same.
-/
namespace Coaptic.App

open Codec StableSort OptionsBuilder List

variable {maxLen maxLen' : Nat}

open OptionNumber in
def selects (code : Code) (number : OptionNumber) : Bool :=
  code = .fetch && number = etag ||
    number ∈ [ifMatch, ifNoneMatch, uriPath, uriQuery, contentFormat, accept]

/-- Encoded selection in a buffer of `responseOptionBytes`. -/
structure DeferredSelection where
  bytes : List UInt8
  len : Nat
deriving DecidableEq

def responseOptionCount : Nat := 24

def responseOptionBytes : Nat := 512

section

variable (parsed : ParsedMessage maxLen) (payload : List UInt8)

def selectedOptions : List Opt :=
  parsed.options.filter fun opt => selects parsed.header.code opt.number

def selectedPayload : List UInt8 := if parsed.header.code = Code.fetch then payload else []

def DeferredSelection.fromParts : Except EncodeError DeferredSelection :=
  match (OptionsBuilder.new : OptionsBuilder responseOptionCount).pushAll (selectedOptions parsed) with
  | none => .error .optionsFull
  | some options =>
  match encode ⟨.nonConfirmable, parsed.header.code, 0, parsed.token, options.items,
      selectedPayload parsed payload⟩ (List.replicate responseOptionBytes 0) with
  | (.error e, _) => .error e
  | (.ok len, bytes) => .ok ⟨bytes, len⟩

def DeferredSelection.matchesParts (stored : DeferredSelection) : Bool :=
  if stored.bytes.length < stored.len then false
  else
  match extendedDecode (stored.bytes.take stored.len) with
  | .error _ => false
  | .ok message =>
  if message.header.ty ≠ .nonConfirmable ∨ message.header.id ≠ 0 then false
  else
  message.header.code = parsed.header.code && message.token = parsed.token.bytes &&
    message.payload = selectedPayload parsed payload &&
    message.options = selectedOptions parsed

def selectionView : ExtendedMessage :=
  ⟨.nonConfirmable, parsed.header.code, 0, parsed.token.bytes, selectedOptions parsed,
    selectedPayload parsed payload⟩

end

/-- The option iterator only ever counts up. -/
theorem optionsFollow_optionsFrom (bytes : List UInt8) (i prev fuel : Nat) :
    OptionsFollow prev (optionsFrom bytes i prev fuel) := by
  induction fuel generalizing i prev with
  | zero => trivial
  | succ fuel ih =>
  rw [optionsFrom]
  split
  · trivial
  split
  · trivial
  next opt j next read =>
  obtain ⟨rfl, above, short, -⟩ := readOption_sound read
  exact ⟨above, short, ih _ _⟩

namespace DeferredSelection

variable {parsed : ParsedMessage maxLen} {payload : List UInt8} {stored : DeferredSelection}

/-- A selection is the datagram of its message, when it has few enough options and bytes. -/
theorem fromParts_eq_ok : fromParts parsed payload = .ok stored ↔
    (selectedOptions parsed).length ≤ responseOptionCount ∧
      (selectionView parsed payload).WellFormed ∧
      (wire (selectionView parsed payload)).length ≤ responseOptionBytes ∧
      stored = ⟨wire (selectionView parsed payload) ++
        (replicate responseOptionBytes 0).drop (wire (selectionView parsed payload)).length,
        (wire (selectionView parsed payload)).length⟩ := by
  have sorted : Sorted key (selectedOptions parsed) := by
    have follow := optionsFollow_optionsFrom parsed.optionBytes 0 0 parsed.optionBytes.length
    refine (((optionsFollow_iff 0 _).mp follow).2.1.filter _).imp ?_
    exact fun above => UInt16.le_iff_toNat_le.mp above
  -- decoded options are in order already, so pushing them one by one keeps their order
  have items {options : OptionsBuilder responseOptionCount}
      (built : new.pushAll (selectedOptions parsed) = some options) :
      options.items = selectedOptions parsed :=
    (pushAll_new built).trans (eq_sortBy sorted fun _ => rfl).symm
  rw [fromParts]
  constructor
  · intro h
    split at h
    · cases h
    next options built =>
    split at h
    · cases h
    next len bytes written =>
    cases h
    obtain ⟨wf, fits, rfl, rfl⟩ := encode_ok written
    have count := options.length_le
    simp only [Message.view, items built, length_replicate] at wf fits count ⊢
    exact ⟨count, wf, fits, rfl⟩
  · rintro ⟨count, wf, fits, rfl⟩
    obtain ⟨options, built⟩ := pushAll_isSome
      (new : OptionsBuilder responseOptionCount) (selectedOptions parsed)
      (by simpa [new] using count)
    have written := (encode_eq_view_encode ⟨.nonConfirmable, parsed.header.code, 0, parsed.token,
      selectedOptions parsed, selectedPayload parsed payload⟩ wf
      (replicate responseOptionBytes 0)).trans
      (encode_view_of_wire wf (by rwa [length_replicate]))
    simp only [built, items built, written]
    rfl

/-- A stored selection matches exactly the requests of the same selection message. -/
theorem matchesParts_eq_true {view : ExtendedMessage} (wf : view.WellFormed)
    (isNon : view.ty = .nonConfirmable) (isZero : view.id = 0) (rest : List UInt8) :
    (⟨wire view ++ rest, (wire view).length⟩ : DeferredSelection).matchesParts parsed payload = true ↔
      view = selectionView parsed payload := by
  obtain ⟨message, decoded, rfl⟩ := extendedDecode_wire wf
  simp only [Datagram.view] at isNon isZero
  rw [matchesParts, if_neg (by simp), take_left, decoded]
  simp only [isNon, isZero, ne_eq, not_true_eq_false, or_self, if_false, Bool.and_eq_true,
    decide_eq_true_eq, Datagram.view, selectionView, ExtendedMessage.mk.injEq, true_and]
  tauto

/-- For a selection that was stored, comparing field by field is comparing with the selection of
the other request. -/
theorem matchesParts_iff {origin : ParsedMessage maxLen'} {body : List UInt8}
    (made : fromParts origin body = .ok stored) (parsed : ParsedMessage maxLen)
    (payload : List UInt8) :
    stored.matchesParts parsed payload = true ↔ fromParts parsed payload = .ok stored := by
  obtain ⟨count, wf, fits, rfl⟩ := fromParts_eq_ok.mp made
  rw [matchesParts_eq_true wf rfl rfl, fromParts_eq_ok]
  constructor
  · intro same
    have options : selectedOptions origin = selectedOptions parsed :=
      congrArg ExtendedMessage.options same
    rw [← same, ← options]
    exact ⟨count, wf, fits, rfl⟩
  · rintro ⟨-, wf', -, same⟩
    obtain ⟨bytes, length⟩ := DeferredSelection.mk.inj same
    -- the bytes written are equal, and a datagram shows one message only
    have wires := (List.append_inj bytes length).1
    obtain ⟨message, decoded, view⟩ := extendedDecode_wire wf
    obtain ⟨message', decoded', view'⟩ := extendedDecode_wire wf'
    rw [wires, decoded'] at decoded
    cases decoded
    exact view.symm.trans view'

/-- A GET for `/a` matches its own selection. -/
theorem matchesParts_iff_get :
    let parsed : ParsedMessage 8 := ⟨⟨1, .confirmable, 0, ⟨1⟩, 7⟩, .empty, [0xB1, 0x61], []⟩
    ∃ stored, fromParts parsed [] = .ok stored ∧ stored.matchesParts parsed [] = true := by
  intro parsed
  have made : ∃ stored, fromParts parsed [] = .ok stored := by
    refine ⟨_, fromParts_eq_ok.mpr ⟨by decide, ⟨by decide, ?_, ?_, by decide⟩, by decide, rfl⟩⟩
    all_goals decide
  obtain ⟨stored, made⟩ := made
  exact ⟨stored, made, (matchesParts_iff made parsed []).mpr made⟩

end DeferredSelection

end Coaptic.App
