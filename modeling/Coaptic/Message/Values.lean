import Coaptic.Lib.BigEndian
import Coaptic.Message.Builder

/-!
# Option values

Codes and option numbers by name, unsigned-integer option values, and the No-Response bitmap.
-/
namespace Coaptic.Codec

open BigEndian

namespace Code

def get : Code := ⟨0x01⟩
def put : Code := ⟨0x03⟩
def delete : Code := ⟨0x04⟩
def iPatch : Code := ⟨0x07⟩
def valid : Code := ⟨0x43⟩
def continue231 : Code := ⟨0x5f⟩
def badRequest : Code := ⟨0x80⟩
def unauthorized : Code := ⟨0x81⟩
def requestEntityIncomplete : Code := ⟨0x88⟩
def internalServerError : Code := ⟨0xa0⟩
def serviceUnavailable : Code := ⟨0xa3⟩
def isSuccess (code : Code) : Bool := code.codeClass == 2

end Code

namespace OptionNumber

def ifMatch : OptionNumber := 1
def etag : OptionNumber := 4
def ifNoneMatch : OptionNumber := 5
def observe : OptionNumber := 6
def locationPath : OptionNumber := 8
def oscore : OptionNumber := 9
def uriPath : OptionNumber := 11
def contentFormat : OptionNumber := 12
def maxAge : OptionNumber := 14
def uriQuery : OptionNumber := 15
def hopLimit : OptionNumber := 16
def accept : OptionNumber := 17
def qBlock1 : OptionNumber := 19
def locationQuery : OptionNumber := 20
def block2 : OptionNumber := 23
def block1 : OptionNumber := 27
def size2 : OptionNumber := 28
def qBlock2 : OptionNumber := 31
def echo : OptionNumber := 252
def noResponse : OptionNumber := 258
def requestTag : OptionNumber := 292

section

variable (number : OptionNumber)

/-- Numbers of RFC 7252 Table 4. -/
def isRfc7252 : Bool :=
  [1, 3, 4, 5, 7, 8, 11, 12, 14, 15, 17, 20, 35, 39, 60].contains number

def isKnown : Bool :=
  isRfc7252 number ||
    [observe, oscore, hopLimit, qBlock1, block2, block1, size2, qBlock2, echo, noResponse,
      requestTag].contains number

def isCritical : Bool := number &&& 1 == 1

def isNoCacheKey : Bool := number &&& 0x1e == 0x1c

end

end OptionNumber

/-! ### Unsigned integers -/

/-- Decode a uint option value that fits in 32 bits; leading zeroes are accepted. -/
def decodeUint (bytes : List UInt8) : Option Nat :=
  bytes.foldlM (fun n byte => if n * 256 + byte.toNat < 2 ^ 32 then some (n * 256 + byte.toNat) else none)
    0

def decodeUint16 (bytes : List UInt8) : Option Nat :=
  (decodeUint bytes).filter (· < 2 ^ 16)

/-- Encode a 32-bit uint option value without leading zeroes. -/
def encodeUint (n : Nat) : List UInt8 := (toBe 4 n).dropWhile (· == 0)

def decodeObserve (bytes : List UInt8) : Option Nat :=
  if 3 < bytes.length then none else decodeUint bytes

/-! ### No-Response -/

/-- No-Response bitmap: bit `n - 1` suppresses class `n`. -/
structure NoResponse where
  bitmap : UInt8
deriving DecidableEq

namespace NoResponse

/-- Whether the bitmap asks to suppress `code`; a code that is no response never is. -/
def suppresses (mask : NoResponse) (code : Code) : Bool :=
  code.isResponse && (code.codeClass != 0 && code.codeClass ≤ 8) &&
    mask.bitmap &&& (1 <<< (code.codeClass - 1)) != 0

end NoResponse

/-- Messages of RFC 7252 §4 that have no options and no payload. -/
def Message.emptyAck {maxLen : Nat} (id : MessageId) : Message maxLen :=
  ⟨.acknowledgement, ⟨0⟩, id, .empty, [], []⟩

theorem encode_emptyAck (maxLen : Nat) (id : MessageId) :
    ∃ out, encode (.emptyAck id : Message maxLen) (List.replicate 16 0) = (.ok 4, out) ∧
      out.length = 16 := ⟨_, rfl, rfl⟩

def Message.emptyRst {maxLen : Nat} (id : MessageId) : Message maxLen :=
  ⟨.reset, ⟨0⟩, id, .empty, [], []⟩

end Coaptic.Codec
