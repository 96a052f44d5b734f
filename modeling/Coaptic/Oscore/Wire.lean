import Coaptic.Lib.BigEndian
import Coaptic.Message.Decode

/-!
# OSCORE wire forms

Partial IVs, the compressed OSCORE option, the classes of options, and the CBOR inputs of key
derivation and of the AEAD. A buffer that a function fills from its start is the list of bytes
written so far, with the buffer's length as the limit.
-/
namespace Coaptic.Oscore

open Codec BigEndian

/-- Failure of derive, protect, or unprotect. -/
inductive Error
  | masterSecret
  | masterSalt
  | id
  | idCollision
  | derive
  | bufferTooSmall
  | messageLength
  | messageCode
  | header
  | context
  | unprotected
  | saturated
  | partialIv
  | sequenceExhausted
  | sequenceRollback
  | sequenceUnreserved
  | replay
  | replayState
  | replayRollback
  | decrypt
  | encrypt
  | encode (error : EncodeError)
  | parse (error : ParseError)
  | options
  | unsupported
deriving DecidableEq

def keyLen : Nat := 16
def nonceLen : Nat := 13
def tagLen : Nat := 8
def maxIdLen : Nat := 7
def maxIdContextLen : Nat := 16
def maxPivLen : Nat := 5

/-- `value.get(i..end)` for `i ≤ end`. -/
def slice (value : List UInt8) (i stop : Nat) : Option (List UInt8) :=
  if stop ≤ value.length then some ((value.drop i).take (stop - i)) else none

/-! ### Partial IV -/

/-- Partial IV: one to five bytes in network order. A received one may have leading zeroes. -/
structure PartialIv where
  bytes : List UInt8
  nonempty : bytes ≠ []
  length_le : bytes.length ≤ maxPivLen
deriving DecidableEq

namespace PartialIv

def fromBytes (bytes : List UInt8) : Except Error PartialIv :=
  if h : bytes ≠ [] ∧ bytes.length ≤ maxPivLen then .ok ⟨bytes, h.1, h.2⟩ else .error .partialIv

/-- Encode `seq` without leading zeroes; sequence 0 is one zero byte. -/
def fromSeq (seq : Nat) : Except Error PartialIv :=
  let stripped := (toBe 8 seq).dropWhile (· == 0)
  if stripped = [] then .ok ⟨[0], List.cons_ne_nil _ _, by decide⟩ else fromBytes stripped

def seq (piv : PartialIv) : Nat := ofBe piv.bytes

end PartialIv

/-! ### Option classes -/

/-- Class E (inner), Class U (outer), or both. -/
inductive OptionClass
  | inner
  | outer
  | dual
deriving DecidableEq

def OptionClass.inPlaintext : OptionClass → Bool
  | inner | dual => true
  | outer => false

section

variable (number : OptionNumber)

def classify : OptionClass :=
  if number ∈ [3, 7, 9, 16, 35, 39] then .outer
  else if number ∈ [6, 14, 19, 23, 27, 28, 31, 60, 258] then .dual
  else .inner

/-- Whether the option is copied onto the OSCORE datagram. Of the dual ones only Observe is. -/
def encodeAsOuter : Bool :=
  match classify number with
  | .outer => true
  | .dual => number == 6
  | .inner => false

def isOscore : Bool := number == 9

end

/-! ### The compressed OSCORE option -/

/-- Decompressed OSCORE option fields. -/
structure OscoreHeader where
  piv : Option PartialIv
  kidContext : Option (List UInt8)
  kid : Option (List UInt8)
deriving DecidableEq

section

variable (value : List UInt8)

def parsePiv (n : Nat) : Except Error (Option PartialIv × Nat) :=
  if 0 < n then
    match slice value 1 (1 + n) with
    | none => .error .header
    | some bytes =>
      match PartialIv.fromBytes bytes with
      | .error e => .error e
      | .ok piv => .ok (some piv, 1 + n)
  else .ok (none, 1)

def parseKidContext (present : Bool) (i : Nat) : Except Error (Option (List UInt8) × Nat) :=
  if present then
    match value[i]? with
    | none => .error .header
    | some s =>
      match slice value (i + 1) (i + 1 + s.toNat) with
      | none => .error .header
      | some bytes => .ok (some bytes, i + 1 + s.toNat)
  else .ok (none, i)

/-- The kid is whatever remains; without one nothing may remain. -/
def parseKid (present : Bool) (i : Nat) : Except Error (Option (List UInt8)) :=
  if present then if i ≤ value.length then .ok (some (value.drop i)) else .error .header
  else if i ≠ value.length then .error .header
  else .ok none

/-- Parse the OSCORE option value. An empty value is flags = 0. -/
def OscoreHeader.parse : Except Error OscoreHeader :=
  match value with
  | [] => .ok ⟨none, none, none⟩
  | flags :: _ =>
    if flags &&& 0xe0 ≠ 0 then .error .header
    else if (flags &&& 0x07).toNat = 6 ∨ (flags &&& 0x07).toNat = 7 then .error .header
    else do
      let (piv, i) ← parsePiv value (flags &&& 0x07).toNat
      let (kidContext, i) ← parseKidContext value (flags &&& 0x10 != 0) i
      let kid ← parseKid value (flags &&& 0x08 != 0) i
      .ok ⟨piv, kidContext, kid⟩

end

def encodeOption (outLen : Nat) (piv : Option PartialIv) (kidContext kid : Option (List UInt8)) :
    Except Error (List UInt8) :=
  if kidContext.any fun ctx => decide (maxIdContextLen < ctx.length) then .error .id
  else if kid.any fun id => decide (maxIdLen < id.length) then .error .id
  else
  let n := (piv.map (·.bytes.length)).getD 0
  if 5 < n then .error .partialIv
  else if n = 0 ∧ kid = none ∧ kidContext = none then .ok []
  else
  let kidContextBytes : List UInt8 :=
    match kidContext with
    | none => []
    | some ctx => UInt8.ofNat ctx.length :: ctx
  if outLen < 1 + n + kidContextBytes.length + (kid.getD []).length then .error .bufferTooSmall
  else
  let flags := UInt8.ofNat n ||| (if kid.isSome then 0x08 else 0) |||
    (if kidContext.isSome then 0x10 else 0)
  .ok (flags :: (piv.map (·.bytes)).getD [] ++ kidContextBytes ++ kid.getD [])

/-! ### CBOR -/

section

variable (limit : Nat)

def push (out : List UInt8) (byte : UInt8) : Except Error (List UInt8) :=
  if limit ≤ out.length then .error .bufferTooSmall else .ok (out ++ [byte])

def pushSlice (out bytes : List UInt8) : Except Error (List UInt8) :=
  if limit < out.length + bytes.length then .error .bufferTooSmall else .ok (out ++ bytes)

def putLen (out : List UInt8) (major : UInt8) (len : Nat) : Except Error (List UInt8) :=
  if len ≤ 23 then push limit out (major ||| UInt8.ofNat len)
  else if len ≤ 255 then do
    let out ← push limit out (major ||| 24)
    push limit out (UInt8.ofNat len)
  else .error .id

def putUint (out : List UInt8) (n : UInt8) : Except Error (List UInt8) :=
  if n ≤ 23 then push limit out n
  else do
    let out ← push limit out 0x18
    push limit out n

def putBstr (out value : List UInt8) : Except Error (List UInt8) := do
  let out ← putLen limit out 0x40 value.length
  pushSlice limit out value

def putTstr (out value : List UInt8) : Except Error (List UInt8) := do
  let out ← putLen limit out 0x60 value.length
  pushSlice limit out value

/-- COSE algorithm number of AES-CCM-16-64-128. -/
def aeadAlgorithm : UInt8 := 10

def oscoreVersion : UInt8 := 1

/-- HKDF `info` in a buffer of `limit` bytes. `label` is the text's bytes. -/
def encodeInfo (id : List UInt8) (idContext : Option (List UInt8)) (label : List UInt8)
    (len : UInt8) : Except Error (List UInt8) := do
  let out ← push limit [] 0x85
  let out ← putBstr limit out id
  let out ← match idContext with
    | none => push limit out 0xf6
    | some ctx => putBstr limit out ctx
  let out ← putUint limit out aeadAlgorithm
  let out ← putTstr limit out label
  putUint limit out len

/-- `["Encrypt0", h'']` of the `Enc_structure`. -/
def enc0Head : List UInt8 := [0x83, 0x68, 0x45, 0x6e, 0x63, 0x72, 0x79, 0x70, 0x74, 0x30, 0x40]

/-- Size of the array after one more byte string, in the encoder's 48 bytes. -/
def aadBstrEnd (i len : Nat) : Except Error Nat :=
  if 255 < len then .error .id
  else
    let stop := i + (if len ≤ 23 then 1 else 2) + len
    if 48 < stop then .error .bufferTooSmall else .ok stop

def aadArray (arrayLen : Nat) (kid piv classI : List UInt8) : Except Error (List UInt8) := do
  let out ← push arrayLen [] 0x85
  let out ← putUint arrayLen out oscoreVersion
  let out ← push arrayLen out 0x81
  let out ← putUint arrayLen out aeadAlgorithm
  let out ← putBstr arrayLen out kid
  let out ← putBstr arrayLen out piv
  putBstr arrayLen out classI

def encodeAad (kid piv classI : List UInt8) : Except Error (List UInt8) := do
  let arrayLen ← aadBstrEnd 4 kid.length
  let arrayLen ← aadBstrEnd arrayLen piv.length
  let arrayLen ← aadBstrEnd arrayLen classI.length
  if limit < enc0Head.length then .error .bufferTooSmall
  else
    let out ← putLen limit enc0Head 0x40 arrayLen
    if limit < out.length + arrayLen then .error .bufferTooSmall
    else
      let array ← aadArray arrayLen kid piv classI
      .ok (out ++ array)

end

def aad (requestKid requestPiv : List UInt8) : Except Error (List UInt8) :=
  encodeAad 32 requestKid requestPiv []

end Coaptic.Oscore
