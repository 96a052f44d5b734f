import Coaptic.Lib.Bytes

/-!
# Message values

The header fields, tokens and options that the encoder and the decoder share, and the
errors either can return.
-/
namespace Coaptic.Codec

/-- CoAP message type (header T field). -/
inductive MsgType
  | confirmable
  | nonConfirmable
  | acknowledgement
  | reset
deriving DecidableEq

namespace MsgType

def toBits : MsgType → UInt8
  | confirmable => 0
  | nonConfirmable => 1
  | acknowledgement => 2
  | reset => 3

/-- The decoder's reading of the 2-bit T field; every value is a type. -/
def ofField (bits : UInt8) : MsgType :=
  if bits = 0 then confirmable
  else if bits = 1 then nonConfirmable
  else if bits = 2 then acknowledgement
  else reset

end MsgType

/-- Method or response code: three class bits, five detail bits. -/
structure Code where
  raw : UInt8
deriving DecidableEq

namespace Code

def post : Code := ⟨0x02⟩
def fetch : Code := ⟨0x05⟩
def changed : Code := ⟨0x44⟩
def content : Code := ⟨0x45⟩

def isEmpty (code : Code) : Bool := code.raw == 0

def codeClass (code : Code) : UInt8 := code.raw >>> 5

def isRequest (code : Code) : Bool := code.codeClass == 0 && !code.isEmpty

def isResponse (code : Code) : Bool :=
  code.codeClass == 2 || code.codeClass == 4 || code.codeClass == 5

end Code

abbrev MessageId := UInt16

abbrev OptionNumber := UInt16

/-- One CoAP option: number plus value bytes. -/
structure Opt where
  number : OptionNumber
  value : List UInt8
deriving DecidableEq

/-- Parsed fixed header. `tkl` is the encoded nibble, not the decoded token length. -/
structure Header where
  version : UInt8
  ty : MsgType
  tkl : UInt8
  code : Code
  id : MessageId
deriving DecidableEq

/-- Maximum token length representable by RFC 8974. -/
def maxTokenLen : Nat := 65804

/-- Valid wire token cannot fit the selected owned storage. -/
structure CapacityError where
  required : Nat
  available : Nat
deriving DecidableEq

/-- Token bytes held in storage for at most `maxLen` of them. The compact token and
`extended::Token<N>` are both of this form; `maxLen` is the trait's `MAX_LEN`. -/
structure OwnedToken (maxLen : Nat) where
  bytes : List UInt8
  length_le : bytes.length ≤ maxLen
deriving DecidableEq

namespace OwnedToken

variable {maxLen : Nat}

def empty : OwnedToken maxLen := ⟨[], Nat.zero_le _⟩

def isEmpty (token : OwnedToken maxLen) : Bool := token.bytes.isEmpty

/-- Checked, non-truncating copy into this representation. -/
def tryFromBytes (bytes : List UInt8) : Except CapacityError (OwnedToken maxLen) :=
  if h : bytes.length ≤ maxLen then .ok ⟨bytes, h⟩
  else .error ⟨bytes.length, maxLen⟩

end OwnedToken

/-- The compact RFC 7252 token of 0 to 8 bytes. -/
abbrev Token := OwnedToken 8

/-- Copy at most eight bytes; longer input is truncated. -/
def Token.fromChecked (bytes : List UInt8) : Token :=
  ⟨bytes.take 8, by simp⟩

theorem Token.fromChecked_bytes (bytes : List UInt8) (short : bytes.length ≤ 8) :
    (Token.fromChecked bytes).bytes = bytes :=
  List.take_of_length_le short

/-- Refusals of the decoder. -/
inductive ParseError
  | truncatedHeader
  | unsupportedVersion
  | badTokenLength
  | truncatedToken
  | truncatedOption
  | reservedOptionDelta
  | reservedOptionLength
  | optionNumberOverflow
  | emptyMessageNotEmpty
  | payloadMarkerWithoutPayload
deriving DecidableEq

/-- Refusals of the encoder. -/
inductive EncodeError
  | tokenTooLong
  | bufferTooSmall
  | emptyMessageNotEmpty
  | optionsNotAscending
  | optionValueTooLong
  | optionsFull
deriving DecidableEq

end Coaptic.Codec
