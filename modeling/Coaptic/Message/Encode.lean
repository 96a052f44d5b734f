import Coaptic.Message.Basic

/-!
# Encoder

Serialization of a CoAP message into a caller's buffer. A function that takes the buffer
by mutable reference returns its outcome together with the buffer it leaves behind, so a
refusal part-way through keeps the bytes already written.

Slice lengths are at most `isize::MAX`, so the additions that the source checks for
overflow never overflow; they are plain additions here.
-/
namespace Coaptic.Codec

open Bytes

/-- Outcome of writing into a buffer, and the buffer afterwards. -/
abbrev Written := Except EncodeError Nat × List UInt8

/-- Maximum option delta or length that fits in a 14-extended field. -/
def maxExtended : Nat := 269 + 65535

/-- Nibble, extension bytes (padded to two) and number of extension bytes of `n`. -/
def extNibble (n : Nat) : Except EncodeError (UInt8 × List UInt8 × Nat) :=
  if n < 13 then .ok (UInt8.ofNat n, [0, 0], 0)
  else if n < 269 then .ok (13, [UInt8.ofNat (n - 13), 0], 1)
  else if n ≤ maxExtended then
    .ok (14, [UInt8.ofNat ((n - 269) >>> 8), UInt8.ofNat ((n - 269) &&& 0xff)], 2)
  else .error .optionValueTooLong

/-- Token length field; lengths past the 14-extended maximum are refused. -/
def encodeLength (len : Nat) : Except EncodeError (UInt8 × List UInt8 × Nat) :=
  if len < 2 ^ 32 then
    match extNibble len with
    | .ok field => .ok field
    | .error _ => .error .tokenTooLong
  else .error .tokenTooLong

/-- Write one option at position `i`. All checks precede the first write. -/
def writeOption (buf : List UInt8) (i delta : Nat) (value : List UInt8) : Written :=
  if value.length < 2 ^ 32 then
    match extNibble delta with
    | .error e => (.error e, buf)
    | .ok (dn, de, dnLen) =>
      match extNibble value.length with
      | .error e => (.error e, buf)
      | .ok (ln, le, lnLen) =>
        if buf.length < i + (1 + dnLen + lnLen + value.length) then (.error .bufferTooSmall, buf)
        else
          let buf := writeAt buf i [pack dn ln]
          let buf := writeAt buf (i + 1) (de.take dnLen)
          let buf := writeAt buf (i + 1 + dnLen) (le.take lnLen)
          let buf := writeAt buf (i + 1 + dnLen + lnLen) value
          (.ok (i + 1 + dnLen + lnLen + value.length), buf)
  else (.error .optionValueTooLong, buf)

/-- The encoder's loop over the options, with the running option number `prev`. -/
def writeOptions (buf : List UInt8) (i prev : Nat) : List Opt → Written
  | [] => (.ok i, buf)
  | opt :: rest =>
    if opt.number.toNat < prev then (.error .optionsNotAscending, buf)
    else
    match writeOption buf i (opt.number.toNat - prev) opt.value with
    | (.error e, buf) => (.error e, buf)
    | (.ok i, buf) => writeOptions buf i opt.number.toNat rest

def writePayload (buf : List UInt8) (i : Nat) (payload : List UInt8) : Written :=
  if payload.isEmpty then (.ok i, buf)
  else if buf.length ≤ i then (.error .bufferTooSmall, buf)
  else
  let buf := writeAt buf i [0xFF]
  if buf.length < i + 1 + payload.length then (.error .bufferTooSmall, buf)
  else (.ok (i + 1 + payload.length), writeAt buf (i + 1) payload)

def headByte (ty : MsgType) (tkl : UInt8) : UInt8 := ((1 : UInt8) <<< 6) ||| (ty.toBits <<< 4) ||| tkl

/-- The encoder shared by every message form. -/
def encodeTokenIter (buf : List UInt8) (ty : MsgType) (code : Code) (id : MessageId)
    (token : List UInt8) (options : List Opt) (payload : List UInt8) : Written :=
  match encodeLength token.length with
  | .error e => (.error e, buf)
  | .ok (tkl, extension, extensionLen) =>
    if code.isEmpty && (!token.isEmpty || !payload.isEmpty || !options.isEmpty) then
      (.error .emptyMessageNotEmpty, buf)
    else
      let tokenStart := 4 + extensionLen
      let headerEnd := tokenStart + token.length
      if buf.length < headerEnd then (.error .bufferTooSmall, buf)
      else
        let buf := writeAt buf 0 [headByte ty tkl, code.raw]
        let buf := writeAt buf 2 (ofBe16 id.toNat)
        let buf := writeAt buf 4 (extension.take extensionLen)
        let buf := writeAt buf tokenStart token
        match writeOptions buf headerEnd 0 options with
        | (.error e, buf) => (.error e, buf)
        | (.ok i, buf) => writePayload buf i payload

def encodeIter {maxLen : Nat} (buf : List UInt8) (ty : MsgType) (code : Code) (id : MessageId)
    (token : OwnedToken maxLen) (options : List Opt) (payload : List UInt8) : Written :=
  encodeTokenIter buf ty code id token.bytes options payload

/-- Message to encode: header fields plus options and payload. -/
structure Message (maxLen : Nat) where
  ty : MsgType
  code : Code
  id : MessageId
  token : OwnedToken maxLen
  options : List Opt
  payload : List UInt8
deriving DecidableEq

def encode {maxLen : Nat} (msg : Message maxLen) (buf : List UInt8) : Written :=
  if msg.code.isEmpty &&
      (!msg.token.isEmpty || !msg.options.isEmpty || !msg.payload.isEmpty) then
    (.error .emptyMessageNotEmpty, buf)
  else encodeIter buf msg.ty msg.code msg.id msg.token msg.options msg.payload

/-- Message to serialize with a borrowed token of any length. -/
structure ExtendedMessage where
  ty : MsgType
  code : Code
  id : MessageId
  token : List UInt8
  options : List Opt
  payload : List UInt8
deriving DecidableEq

def ExtendedMessage.encode (msg : ExtendedMessage) (output : List UInt8) : Written :=
  encodeTokenIter output msg.ty msg.code msg.id msg.token msg.options msg.payload

end Coaptic.Codec
