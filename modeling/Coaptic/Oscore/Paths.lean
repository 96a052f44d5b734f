import Coaptic.Oscore.Seal

/-!
# In-place and staged sealing

`sealMessage` works in the caller's buffer and falls back to the staged path, which then finds
there what the first attempt left. The writers' outcomes depend on the length of the buffer alone,
and no writer changes that length.
-/
namespace Coaptic.Codec

open Bytes

/-- Two runs of a writer on buffers of `n` bytes. -/
structure Alike {ε : Type} (n : Nat) (x y : Except ε Nat × List UInt8) : Prop where
  outcome : x.1 = y.1
  left : x.2.length = n
  right : y.2.length = n

variable {a b : List UInt8} {n : Nat}

/-- Writes one after the other. -/
theorem Alike.andThen {δ : Type} {x y : Written} {f : Nat → List UInt8 → Except δ Nat × List UInt8}
    {h : EncodeError → δ}
    (next : ∀ j {a b : List UInt8}, a.length = n → b.length = n → Alike n (f j a) (f j b)) :
    Alike n x y → Alike n
      (match x with
        | (.error e, buf) => (.error (h e), buf)
        | (.ok j, buf) => f j buf)
      (match y with
        | (.error e, buf) => (.error (h e), buf)
        | (.ok j, buf) => f j buf) := by
  rintro ⟨outcome, la, lb⟩
  obtain ⟨x, a⟩ := x
  obtain ⟨y, b⟩ := y
  cases outcome
  cases x with
  | error e => exact ⟨rfl, la, lb⟩
  | ok j => exact next j la lb

theorem length_written {i : Nat} {x : List UInt8} (la : a.length = n) (fits : i + x.length ≤ n) :
    (writeAt a i x).length = n :=
  (length_writeAt a i x (la ▸ fits)).trans la

variable (la : a.length = n) (lb : b.length = n)
include la lb

theorem writeOption_alike (i delta : Nat) (value : List UInt8) :
    Alike n (writeOption a i delta value) (writeOption b i delta value) := by
  simp only [writeOption, la, lb]
  split
  · split
    · exact ⟨rfl, la, lb⟩
    next dn de dnLen _ =>
    split
    · exact ⟨rfl, la, lb⟩
    next ln le lnLen _ =>
    split
    · exact ⟨rfl, la, lb⟩
    have := List.length_take_le dnLen de
    have := List.length_take_le lnLen le
    have : [pack dn ln].length = 1 := rfl
    constructor
    · rfl
    · refine length_written (length_written (length_written (length_written la ?_) ?_) ?_) ?_ <;>
        omega
    · refine length_written (length_written (length_written (length_written lb ?_) ?_) ?_) ?_ <;>
        omega
  · exact ⟨rfl, la, lb⟩

theorem writeOptions_alike (i prev : Nat) (opts : List Opt) :
    Alike n (writeOptions a i prev opts) (writeOptions b i prev opts) := by
  induction opts generalizing a b i prev with
  | nil => exact ⟨rfl, la, lb⟩
  | cons opt rest ih =>
  simp only [writeOptions]
  split
  · exact ⟨rfl, la, lb⟩
  · exact .andThen (h := id) (fun j _ _ la lb => ih la lb j opt.number.toNat)
      (writeOption_alike la lb i _ opt.value)

theorem writePayload_alike (i : Nat) (payload : List UInt8) :
    Alike n (writePayload a i payload) (writePayload b i payload) := by
  simp only [writePayload, la, lb]
  split
  · exact ⟨rfl, la, lb⟩
  split
  · exact ⟨rfl, la, lb⟩
  next roomy =>
  have la := length_written (x := [0xFF]) la (Nat.not_le.mp roomy)
  have lb := length_written (x := [0xFF]) lb (Nat.not_le.mp roomy)
  rw [la, lb]
  split
  · exact ⟨rfl, la, lb⟩
  next fits =>
  exact ⟨rfl, length_written la (Nat.not_lt.mp fits), length_written lb (Nat.not_lt.mp fits)⟩

theorem encode_alike {maxLen : Nat} (msg : Message maxLen) :
    Alike n (encode msg a) (encode msg b) := by
  simp only [encode, encodeIter, encodeTokenIter, la, lb]
  split
  · exact ⟨rfl, la, lb⟩
  split
  · exact ⟨rfl, la, lb⟩
  next tkl extension extensionLen _ =>
  split
  · exact ⟨rfl, la, lb⟩
  split
  · exact ⟨rfl, la, lb⟩
  next roomy =>
  -- head, message ID, length extension and token stay inside the room that was checked
  have keeps {buf : List UInt8} (long : buf.length = n) : (writeAt (writeAt (writeAt (writeAt buf 0
      [headByte msg.ty tkl, msg.code.raw]) 2 (ofBe16 msg.id.toNat)) 4
      (extension.take extensionLen)) (4 + extensionLen) msg.token.bytes).length = n := by
    have := List.length_take_le extensionLen extension
    have : [headByte msg.ty tkl, msg.code.raw].length = 2 := rfl
    have : (ofBe16 msg.id.toNat).length = 2 := rfl
    refine length_written (length_written (length_written (length_written long ?_) ?_) ?_) ?_ <;>
      omega
  exact .andThen (h := fun e => e) (fun j _ _ la lb => writePayload_alike la lb j msg.payload)
    (writeOptions_alike (keeps la) (keeps lb) ..)

end Coaptic.Codec

namespace Coaptic.Oscore

open Codec Bytes

variable {maxLen n : Nat} {a b : List UInt8} (prim : Primitives) (plain : Message maxLen)
  (params : SealParams)

theorem encodeOuter_alike (la : a.length = n) (lb : b.length = n) (ciphertext : List UInt8) :
    Alike n (encodeOuter plain params ciphertext a) (encodeOuter plain params ciphertext b) := by
  simp only [encodeOuter]
  split
  · exact ⟨rfl, la, lb⟩
  split
  · exact ⟨rfl, la, lb⟩
  · exact .andThen (f := fun i buf => (.ok i, buf)) (h := Error.encode)
      (fun _ _ _ la lb => ⟨rfl, la, lb⟩) (encode_alike la lb _)

def Sealed.datagram (s : Sealed) : Except Error (Nat × List UInt8) := s.1.map fun n => (n, s.2.take n)

/-- The staged path does not see what the buffer held. -/
theorem staged_datagram (same : a.length = b.length) :
    (sealMessageStaged prim plain params a).datagram =
      (sealMessageStaged prim plain params b).datagram := by
  simp only [sealMessageStaged]
  split
  · rfl
  split
  · rfl
  next m buf _ =>
  generalize buf.take m = ciphertext
  have same := (encodeOuter_alike plain params same rfl ciphertext).outcome
  generalize left : encodeOuter plain params ciphertext a = x at same
  generalize right : encodeOuter plain params ciphertext b = y at same
  obtain ⟨outcome, a'⟩ := x
  obtain ⟨_, b'⟩ := y
  cases same
  cases outcome with
  | error e => rfl
  | ok m =>
  -- the options do not depend on the buffer, so both wrote one outer message
  obtain ⟨oscore, opts, header, outer, -, -, rfl, rfl⟩ := encodeOuter_ok left
  obtain ⟨oscore', opts', header', outer', -, -, -, rfl⟩ := encodeOuter_ok right
  cases header.symm.trans header'
  cases outer.symm.trans outer'
  simp [Sealed.datagram, Except.map]

theorem length_encodePlaintext : (encodePlaintext plain a).2.length = a.length := by
  cases a with
  | nil => rfl
  | cons byte out =>
  have long : ([plain.code.raw] ++ out).length = (byte :: out).length := rfl
  rw [encodePlaintext_cons]
  exact (Alike.andThen (h := Error.encode) (fun j _ _ la lb =>
    .andThen (f := fun i buf => (.ok i, buf)) (h := fun _ => Error.bufferTooSmall)
      (fun _ _ _ la lb => ⟨rfl, la, lb⟩) (writePayload_alike la lb j plain.payload))
    (writeOptions_alike long long ..)).left

theorem length_sealInPlace (n : Nat) : (sealInPlace prim params n a).2.length = a.length := by
  fun_cases sealInPlace prim params n a with
  | case3 roomy ciphertext encrypted =>
    have := prim.length_encrypt encrypted
    rw [List.length_take] at this
    exact length_written rfl (by omega)
  | _ => rfl

theorem length_sealDirect : (sealDirect prim plain params a).2.length = a.length := by
  have outer := (encodeOuter_alike plain params rfl (Eq.refl a.length) []).left
  simp only [sealDirect]
  split
  next framed => rwa [framed] at outer
  next start out framed =>
  rw [framed] at outer
  split
  · exact outer
  next roomy =>
  have marked := length_written (x := [0xff]) (Eq.refl out.length) (Nat.not_le.mp roomy)
  generalize writeAt out start [0xff] = out' at marked ⊢
  -- whatever the two last steps leave in the tail is written back over it
  have tail {t : List UInt8} (same : t.length = ((out'.drop (start + 1)).take innerLen).length) :
      (writeAt out' (start + 1) t).length = a.length := by
    rw [List.length_take, List.length_drop] at same
    exact (length_written rfl (by omega)).trans (marked.trans outer)
  have inner := length_encodePlaintext plain (a := (out'.drop (start + 1)).take innerLen)
  split
  next written => exact tail (by rwa [written] at inner)
  next n t written =>
  rw [written] at inner
  have appended := length_sealInPlace prim params n (a := t)
  split
  next done => exact tail (by rw [done] at appended; exact appended.trans inner)
  next done => exact tail (by rw [done] at appended; exact appended.trans inner)

variable {prim plain params}

/-- The staged path finds the datagram whenever there is one and it fits. -/
theorem staged_of_sealed {oscore ciphertext packet : List UInt8} {opts : OptionsBuilder optSlots}
    (sealed : SealedAs prim plain params oscore opts ciphertext packet)
    (fits : packet.length ≤ a.length) :
    (sealMessageStaged prim plain params a).datagram = .ok (packet.length, packet) := by
  obtain ⟨header, outer, encrypted, follow, small, wf, rfl⟩ := sealed
  have length := prim.length_encrypt encrypted
  have blank : (List.replicate innerLen (0 : UInt8)).length = innerLen := List.length_replicate
  rw [sealMessageStaged]
  -- of the scratch memory only its length matters
  generalize List.replicate innerLen (0 : UInt8) = scratch at blank ⊢
  have inner := encodePlaintext_of_follow follow (show _ ≤ scratch.length by omega)
  generalize done : encodePlaintext plain scratch = result at inner ⊢
  obtain ⟨_, buffer⟩ := result
  cases inner
  obtain ⟨-, inside, -, rfl⟩ := encodePlaintext_ok done
  simp only
  rw [sealInPlace, if_neg (by simp; omega), List.take_left, encrypted]
  simp only
  rw [← length]
  have taken : (writeAt (plainWire plain ++ scratch.drop (plainWire plain).length) 0 ciphertext).take
      ciphertext.length = ciphertext := by simp [writeAt]
  have whole : encode (⟨plain.ty, outerCode plain.code plain.options, plain.id, plain.token,
      opts.items, ciphertext⟩ : Message maxLen) a = (outerView plain opts.items ciphertext).encode a := by
    rw [encode, outerCode_isEmpty]
    rfl
  rw [headerRoom] at header
  simp only [taken, encodeOuter, header, outer, whole, encode_view_of_wire wf fits]
  simp [Sealed.datagram, Except.map]

/-- In-place and staged sealing have the same outcome, and on success leave the same datagram. -/
theorem sealMessage_eq_staged (prim : Primitives) (plain : Message maxLen) (params : SealParams)
    (out : List UInt8) : (sealMessage prim plain params out).datagram =
      (sealMessageStaged prim plain params out).datagram := by
  have long := length_sealDirect prim plain params (a := out)
  rw [sealMessage]
  generalize direct : sealDirect prim plain params out = result at long ⊢
  obtain ⟨e | n, out'⟩ := result
  -- the fallback starts over, in a buffer of the same length
  · exact staged_datagram prim plain params long
  obtain ⟨oscore, opts, ciphertext, sealed, inside⟩ := sealDirect_ok direct
  have length : (out'.take n).length = n := by simp [inside]
  rw [staged_of_sealed sealed (length.trans_le (inside.trans_eq long)), length]
  rfl

end Coaptic.Oscore
