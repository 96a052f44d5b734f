import Coaptic.Message.Values
import Coaptic.Storage.Block

/-!
# Responses

The response a handler returns, with the bounds that its setters check.
-/
namespace Coaptic.App

open Codec Block

inductive ResponseError
  | payloadTruncated
  | deferredMetadataBounds
  | deferredObserveFormat
  | etagLength
  | locationPathBounds
  | locationQueryBounds
  | locationDotSegment
deriving DecidableEq

def locationMax : Nat := 8

/-- A response intent. `payloadSrcLen` is the length of the bytes the payload was copied from.
An empty `etag` is none. The bounds are those that the setters check. -/
structure Response where
  invalid : Option ResponseError
  code : Code
  payload : List UInt8
  payloadSrcLen : Nat
  contentFormat : Option Nat
  etag : List UInt8
  maxAge : Option Nat
  observe : Option Nat
  echo : Option (List UInt8)
  locationPaths : List (List UInt8)
  locationQueries : List (List UInt8)
  separate : Bool
  deferred : Bool
  freshPiv : Bool
  etag_le : etag.length ≤ 8
  paths_le : locationPaths.length ≤ locationMax
  queries_le : locationQueries.length ≤ locationMax
deriving DecidableEq

namespace Response

def new (code : Code) : Response where
  invalid := none
  code
  payload := []
  payloadSrcLen := 0
  contentFormat := none
  etag := []
  maxAge := none
  observe := none
  echo := none
  locationPaths := []
  locationQueries := []
  separate := false
  deferred := false
  freshPiv := false
  etag_le := Nat.zero_le _
  paths_le := Nat.zero_le _
  queries_le := Nat.zero_le _

section

variable (response : Response)

def validate : Except ResponseError Unit :=
  match response.invalid with
  | some error => .error error
  | none =>
    if response.payload.length < response.payloadSrcLen then .error .payloadTruncated else .ok ()

def withFreshPiv : Response := { response with freshPiv := true }

end

end Response

/-! ### Block options -/

/-- Block or Q-Block option, with the body length sent next to a Q-Block2. -/
structure BlockOpt where
  value : BlockValue
  qBlock : Bool
  size2 : Option Nat
deriving DecidableEq

def encodeBlock (block : BlockValue) : List UInt8 :=
  encodeUint (block.num * 16 + (if block.more then 8 else 0) + block.szx)

end Coaptic.App
