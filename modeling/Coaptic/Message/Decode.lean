import Coaptic.Message.Encode

/-!
# Decoder

The option reader, the split of a datagram into options and payload, and the compact and
extended decoders over them. Positions index the whole datagram, as in the source.
-/
namespace Coaptic.Codec

open Bytes

/-! ### Options -/

section

variable (bytes : List UInt8)

/-- Resolve a delta or length nibble `n` whose extension, if any, starts at `i`. Returns the
position after the extension and the value. -/
def takeExtended (i n : Nat) : Except ParseError (Nat × Nat) :=
  if n = 13 then
    match bytes[i]? with
    | some extra => .ok (i + 1, 13 + extra.toNat)
    | none => .error .truncatedOption
  else if n = 14 then
    match bytes[i]?, bytes[i + 1]? with
    | some high, some low => .ok (i + 2, 269 + be16 high low)
    | _, _ => .error .truncatedOption
  else .ok (i, n)

/-- Read the option at `i` after running number `prev`. Returns the option, the position
after it and the new running number. -/
def readOption (i prev : Nat) : Except ParseError (Opt × Nat × Nat) :=
  match bytes[i]? with
  | none => .error .truncatedOption
  | some head =>
    if (head >>> 4).toNat = 15 then .error .reservedOptionDelta
    else if (head &&& 0x0f).toNat = 15 then .error .reservedOptionLength
    else do
      let (i, delta) ← takeExtended bytes (i + 1) (head >>> 4).toNat
      let (i, len) ← takeExtended bytes i (head &&& 0x0f).toNat
      if 65535 < prev + delta then .error .optionNumberOverflow
      else if bytes.length < i + len then .error .truncatedOption
      else .ok (⟨UInt16.ofNat (prev + delta), (bytes.drop i).take len⟩, i + len, prev + delta)

/-- The `Options` iterator run to its end from position `i`; `fuel` bounds its steps. The
iterator stops at the first refusal. -/
def optionsFrom (bytes : List UInt8) (i prev : Nat) : Nat → List Opt
  | 0 => []
  | fuel + 1 =>
    if bytes.length ≤ i then []
    else
    match readOption bytes i prev with
    | .error _ => []
    | .ok (opt, i, prev) => opt :: optionsFrom bytes i prev fuel

def options : List Opt := optionsFrom bytes 0 0 bytes.length

/-- The decoder's option walk from position `i`. The slice of options starts at `start`. Each
round reads at least one byte, so `bytes.length - i` rounds reach the end. -/
def splitFrom (bytes : List UInt8) (start i prev : Nat) :
    Nat → Except ParseError (List UInt8 × List UInt8)
  | 0 => .ok (bytes.drop start, [])
  | fuel + 1 =>
    if bytes.length ≤ i then .ok (bytes.drop start, [])
    else if bytes[i]? = some 0xFF then
      if i + 1 = bytes.length then .error .payloadMarkerWithoutPayload
      else .ok ((bytes.drop start).take (i - start), bytes.drop (i + 1))
    else
      match readOption bytes i prev with
      | .error e => .error e
      | .ok (_, i, prev) => splitFrom bytes start i prev fuel

def splitOptionsAndPayload (start : Nat) : Except ParseError (List UInt8 × List UInt8) :=
  splitFrom bytes start start 0 (bytes.length - start)

/-! ### Datagrams -/

def decodeLength (nibble : UInt8) (rest : List UInt8) : Except ParseError (Nat × Nat) :=
  if nibble.toNat ≤ 12 then .ok (nibble.toNat, 0)
  else if nibble = 13 then
    match rest[0]? with
    | some extra => .ok (13 + extra.toNat, 1)
    | none => .error .truncatedToken
  else if nibble = 14 then
    match rest[0]?, rest[1]? with
    | some high, some low => .ok (269 + be16 high low, 2)
    | _, _ => .error .truncatedToken
  else .error .badTokenLength

/-- Token length and number of length bytes, read from the nibble alone by the compact decoder. -/
def tokenLength (extended : Bool) (tkl : UInt8) (rest : List UInt8) :
    Except ParseError (Nat × Nat) :=
  if extended then decodeLength tkl rest else .ok (tkl.toNat, 0)

/-- Borrowed fields of a validated datagram; `options` are the raw option bytes. -/
structure Parts where
  header : Header
  token : List UInt8
  options : List UInt8
  payload : List UInt8
deriving DecidableEq

def decodeBody (buf : List UInt8) (extended : Bool) (header : Header) : Except ParseError Parts := do
  let (tokenLen, lengthBytes) ← tokenLength extended header.tkl (buf.drop 4)
  let tokenStart := 4 + lengthBytes
  let optionsStart := tokenStart + tokenLen
  if buf.length < optionsStart then .error .truncatedToken
  else
    let token := (buf.drop tokenStart).take tokenLen
    if header.code.isEmpty then
      if header.tkl ≠ 0 ∨ optionsStart ≠ buf.length then .error .emptyMessageNotEmpty
      else .ok ⟨header, token, [], []⟩
    else
      let (options, payload) ← splitOptionsAndPayload buf optionsStart
      .ok ⟨header, token, options, payload⟩

/-- Validate a whole datagram; `extended` selects RFC 8974 token lengths. -/
def decodeParts (buf : List UInt8) (extended : Bool) : Except ParseError Parts :=
  match buf with
  | b0 :: b1 :: b2 :: b3 :: _ =>
    if b0 >>> 6 ≠ 1 then .error .unsupportedVersion
    else if !extended && 8 < (b0 &&& 0x0f).toNat then .error .badTokenLength
    else
      decodeBody buf extended
        { version := b0 >>> 6
          ty := MsgType.ofField ((b0 >>> 4) &&& 3)
          tkl := b0 &&& 0x0f
          code := ⟨b1⟩
          id := UInt16.ofNat (be16 b2 b3) }
  | _ => .error .truncatedHeader

/-- Zero-copy view of a decoded datagram, with its token in owned storage. -/
structure ParsedMessage (maxLen : Nat) where
  header : Header
  token : OwnedToken maxLen
  optionBytes : List UInt8
  payload : List UInt8
deriving DecidableEq

def ParsedMessage.options {maxLen : Nat} (msg : ParsedMessage maxLen) : List Opt :=
  Codec.options msg.optionBytes

def ParsedMessage.encode {maxLen : Nat} (msg : ParsedMessage maxLen) (buf : List UInt8) : Written :=
  encodeIter buf msg.header.ty msg.header.code msg.header.id msg.token msg.options msg.payload

def decode (buf : List UInt8) : Except ParseError (ParsedMessage 8) := do
  let parts ← decodeParts buf false
  .ok ⟨parts.header, Token.fromChecked parts.token, parts.options, parts.payload⟩

/-- Refusals of `decodeWithToken`: bad syntax, or a valid token that storage cannot hold. -/
inductive TokenDecodeError
  | malformed (error : ParseError)
  | capacity (error : CapacityError)
deriving DecidableEq

/-- Decode RFC 8974 syntax and retain the token in caller-selected storage. -/
def decodeWithToken (maxLen : Nat) (buf : List UInt8) :
    Except TokenDecodeError (ParsedMessage maxLen) :=
  match decodeParts buf true with
  | .error e => .error (.malformed e)
  | .ok parts =>
  match OwnedToken.tryFromBytes parts.token with
  | .error e => .error (.capacity e)
  | .ok token => .ok ⟨parts.header, token, parts.options, parts.payload⟩

/-- Validated borrowed datagram, retaining the entire token. -/
structure Datagram where
  header : Header
  token : List UInt8
  optionBytes : List UInt8
  payload : List UInt8
deriving DecidableEq

def Datagram.options (msg : Datagram) : List Opt := Codec.options msg.optionBytes

def Datagram.encode (msg : Datagram) (output : List UInt8) : Written :=
  encodeTokenIter output msg.header.ty msg.header.code msg.header.id msg.token msg.options
    msg.payload

/-- Decode RFC 8974 syntax without imposing a token capacity. -/
def extendedDecode : Except ParseError Datagram := do
  let parts ← decodeParts bytes true
  .ok ⟨parts.header, parts.token, parts.options, parts.payload⟩

end

end Coaptic.Codec
